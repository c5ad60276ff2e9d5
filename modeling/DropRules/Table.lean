import DropRules.Handle
import DropRules.Rule

/-!
# Tables of rules for the engine

The engine walks a `DropTable` from front to back and stops at the first rule that matches, so the
order of the rules is their meaning.  A rule in a table is a `BoundRule`: its names have been
replaced by handles of the engine.  One without items is a barrier (`BoundRule.isBarrier`): where
it matches, the walk ends with no drop.
-/

namespace DropRules

/-- A rule in the shape the engine evaluates. -/
structure BoundRule (α ρ : Type) where
  items : List Item
  numerator : Int32
  denominator : Int32
  /-- A rule of the engine's own may have no rarity, and then matches every roll. -/
  rarity : Option (Handle ρ)
  conditions : List (Handle α)
deriving DecidableEq, Repr

namespace BoundRule

variable {α ρ : Type}

/-- Whether the rule only ends the walk. -/
def isBarrier (r : BoundRule α ρ) : Bool :=
  r.items.isEmpty

/-- A certain barrier on one condition. -/
def barrier (condition : Handle α) (rarity : Option (Handle ρ)) : BoundRule α ρ where
  items := []
  numerator := 1
  denominator := 1
  rarity := rarity
  conditions := [condition]

end BoundRule

/-- Rules in the order in which the engine tries them. -/
structure DropTable (α ρ : Type) where
  rules : List (BoundRule α ρ)
deriving DecidableEq, Repr

namespace DropTable

variable {α ρ : Type}

/-- The table without rules. -/
def empty : DropTable α ρ :=
  ⟨[]⟩

instance : EmptyCollection (DropTable α ρ) := ⟨empty⟩

/-- The number of rules, barriers included. -/
def length (t : DropTable α ρ) : Nat :=
  t.rules.length

/-- Whether the table has no rule. -/
def isEmpty (t : DropTable α ρ) : Bool :=
  t.rules.isEmpty

/-- The number of barriers. -/
def barrierCount (t : DropTable α ρ) : Nat :=
  t.rules.countP BoundRule.isBarrier

/-- A one-line description of a table by its counts. -/
def text (t : DropTable α ρ) : String :=
  "RuleList(" ++ toString t.length ++ " rules, " ++ toString t.barrierCount ++ " barriers)"

end DropTable

end DropRules
