import DropRules.Naming
import DropRules.Table

/-!
# Recovering names from a table

`Naming.recover` reads a bound rule back into names.  A handle that the directory does not know
cannot be named: such conditions are counted (`RecoveredRule.unnamed`), and such a rarity is left
out.  How much of a rule's conditions came back is its `Coverage`.  Only rules that came back whole
are fit to be used again, since a rule that lost a condition matches more than it did.
-/

namespace DropRules

/-- A rule read back into names. -/
structure RecoveredRule where
  items : List Item
  numerator : Int32
  denominator : Int32
  /-- The rarity, unless the rule had none or one without a name. -/
  rarity : Option Rarity
  /-- The conditions that have a name, in order. -/
  conditions : List Condition
  /-- The number of conditions without a name. -/
  unnamed : Nat
deriving DecidableEq, Repr

/-- How much of a rule's conditions could be named. -/
inductive Coverage where
  /-- All of them, as is also the case when there are none. -/
  | whole
  /-- Some of them. -/
  | some
  /-- None of them, though there are some. -/
  | none
deriving DecidableEq, Repr

namespace RecoveredRule

/-- How much of the conditions could be named. -/
def coverage (r : RecoveredRule) : Coverage :=
  if r.unnamed = 0 then .whole else if r.conditions.isEmpty then .none else .some

/-- Whether every condition could be named. -/
def isWhole (r : RecoveredRule) : Bool :=
  r.unnamed == 0

/-- The rule as a person would write it.  A rule without a known rarity matched every roll, so it
asks for `Rarity.any` and not for the fallback. -/
def toNamed (r : RecoveredRule) : NamedRule where
  items := r.items
  numerator := r.numerator
  denominator := r.denominator
  rarity := some (r.rarity.getD .any)
  conditions := r.conditions

end RecoveredRule

namespace Naming

variable {α ρ : Type} [DecidableEq α] [DecidableEq ρ]

/-- Reads a rule back into names. -/
def recover (n : Naming α ρ) (r : BoundRule α ρ) : RecoveredRule :=
  let conditions := r.conditions.filterMap n.conditions.symbol?
  { items := r.items
    numerator := r.numerator
    denominator := r.denominator
    rarity := r.rarity.bind n.rarities.symbol?
    conditions := conditions
    unnamed := r.conditions.length - conditions.length }

/-- Reads a table back into names, rule by rule; with `wholeOnly`, rules with a condition that has
no name are left out. -/
def recoverTable (n : Naming α ρ) (t : DropTable α ρ) (wholeOnly : Bool) : List RecoveredRule :=
  (t.rules.map n.recover).filter fun r => !wholeOnly || r.isWhole

end Naming

end DropRules
