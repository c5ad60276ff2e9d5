import DropRules.Decimal.Fixed
import DropRules.Recovery

/-!
# Counting what was recovered

A `Tally` counts rules by their coverage.  Shares are percentages with two decimals; of nothing,
every share is zero.
-/

namespace DropRules

/-- Rules counted by coverage. -/
structure Tally where
  total : Nat
  whole : Nat
  some : Nat
  none : Nat
deriving DecidableEq, Repr

namespace Tally

/-- Counts one more rule under its coverage; the total is left alone. -/
def count (t : Tally) (r : RecoveredRule) : Tally :=
  match r.coverage with
  | .whole => { t with whole := t.whole + 1 }
  | .some => { t with some := t.some + 1 }
  | .none => { t with none := t.none + 1 }

/-- Counts rules. -/
def ofRules (rules : List RecoveredRule) : Tally :=
  rules.foldl count ⟨rules.length, 0, 0, 0⟩

/-- The share of `value` in `total`, in per cent and rounded to two decimals. -/
def percentage (value total : Nat) : Float :=
  if total = 0 then 0
  else (Float.ofNat value * 100 / Float.ofNat total * 100).round / 100

/-- A share as it is written. -/
def share (value total : Nat) : String :=
  Decimal.fixed 2 (percentage value total) ++ "%"

/-- A count with its share. -/
def counted (t : Tally) (value : Nat) : String :=
  toString value ++ " (" ++ share value t.total ++ ")"

/-- A one-line account of the counts. -/
def text (t : Tally) : String :=
  "total: " ++ toString t.total ++ ", fully mapped: " ++ t.counted t.whole
    ++ ", partially mapped: " ++ t.counted t.some ++ ", unmapped: " ++ t.counted t.none

end Tally

/-- Counts the rules of a table by what can be recovered of them. -/
def Naming.tally {α ρ : Type} [DecidableEq α] [DecidableEq ρ] (n : Naming α ρ) (t : DropTable α ρ) :
    Tally :=
  .ofRules (n.recoverTable t false)

end DropRules
