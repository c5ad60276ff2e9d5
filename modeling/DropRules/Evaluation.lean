import DropRules.Table

/-!
# The first rule that matches

A table means what a walk from front to back finds.  `DropTable.firstDrop` is that walk, for any
way of telling which conditions hold and which rarities are accepted: the first rule all of whose
conditions hold and whose rarity is accepted decides, with its first item, or with zero if it has
none.  Chances are not thrown.
-/

namespace DropRules

variable {α ρ : Type}

/-- Whether a rule matches where `holds` tells the conditions and `accepts` the rarities; a rule
without a rarity accepts every roll. -/
def BoundRule.matches (holds : α → Bool) (accepts : ρ → Bool) (r : BoundRule α ρ) : Bool :=
  r.rarity.all (fun h => accepts h.value) && r.conditions.all fun h => holds h.value

/-- What a rule drops when it decides. -/
def BoundRule.drop (r : BoundRule α ρ) : Item :=
  r.items.headD 0

/-- The item that the first matching rule drops, or zero. -/
def DropTable.firstDrop (holds : α → Bool) (accepts : ρ → Bool) (t : DropTable α ρ) : Item :=
  match t.rules.find? (BoundRule.matches holds accepts) with
  | some r => r.drop
  | none => 0

end DropRules
