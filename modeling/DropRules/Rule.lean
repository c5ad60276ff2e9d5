import DropRules.Condition
import DropRules.Rarity

/-!
# Drop rules, before and after the engine

A rule says which items a catch may give, with what chance, under which rarity roll and under which
conditions.  It comes in two shapes that do not need the engine's handles: a `NamedRule`, in which
a person wrote names, and an `EngineRule`, in which the engine wrote values of its own.  Engine
values are opaque: the types `α` of conditions and `ρ` of rarities are parameters, and all that is
ever asked of two values is whether they are the same.

Chances are carried as written; nothing demands that a numerator be at most its denominator.
-/

namespace DropRules

/-- An item of the engine.  Zero stands for "no drop". -/
abbrev Item := Int32

/-- A rule as a person writes it, in names. -/
structure NamedRule where
  /-- The items the rule may drop; a rule without any is a barrier. -/
  items : List Item
  numerator : Int32
  denominator : Int32
  /-- The rarity asked for, or none, which is read as `Rarity.fallback`. -/
  rarity : Option Rarity
  conditions : List Condition
deriving DecidableEq, Repr

/-- A rule as the engine hands it over, in values of its own. -/
structure EngineRule (α ρ : Type) where
  items : List Item
  numerator : Int32
  denominator : Int32
  /-- Rules of the engine may carry no rarity at all. -/
  rarity : Option ρ
  conditions : List α
deriving DecidableEq, Repr

/-- A rule without items drops nothing: when it matches, the search ends there. -/
def NamedRule.isBarrier (r : NamedRule) : Bool :=
  r.items.isEmpty

/-- A list of items in brackets, as reports write it. -/
def Item.listText (items : List Item) : String :=
  "[" ++ ", ".intercalate (items.map fun i => toString i.toInt) ++ "]"

end DropRules
