import DropRules.Condition

/-!
# Regions that exclude one another

Five of the conditions are regions of which an attempt counts as being in one at most.  They have a
fixed priority, and a rule belongs to the first region, in that priority, that its conditions name
(`Region.ofConditions?`).  A rule that names none belongs to no region.
-/

namespace DropRules

/-- A region of the world with its own group of rules.  The order of the constructors is the
priority of the regions. -/
inductive Region where
  | lava
  | honey
  | junk
  | crate
  | ocean
deriving DecidableEq, Repr

namespace Region

/-- Every region, the one that wins over the others first. -/
def all : List Region :=
  [.lava, .honey, .junk, .crate, .ocean]

/-- The condition that holds inside the region. -/
def condition : Region → Condition
  | lava => .inLava
  | honey => .inHoney
  | junk => .junk
  | crate => .crate
  | ocean => .ocean

/-- The place of the region in the priority order, the smaller number being served first. -/
def priority : Region → Nat
  | lava => 0
  | honey => 1
  | junk => 2
  | crate => 3
  | ocean => 4

/-- The name of a region is that of its condition. -/
def name (r : Region) : String :=
  r.condition.name

/-- The first region, in priority order, whose condition is among `conditions`. -/
def ofConditions? (conditions : List Condition) : Option Region :=
  all.find? fun r => r.condition ∈ conditions

end Region

end DropRules
