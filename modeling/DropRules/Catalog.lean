import DropRules.Rule

/-!
# What the engine offers

A `Catalog` is what the engine reports of itself: the values it exposes for conditions and rarities,
symbol by symbol, and the rules of its own.  Exposing a symbol again replaces its value, so all that
counts is the last value exposed for each symbol, and the order between symbols does not matter.
-/

namespace DropRules

/-- The values the engine exposes, and its own rules in their order. -/
structure Catalog (α ρ : Type) where
  /-- The value exposed for a condition. -/
  condition? : Condition → Option α
  /-- The value exposed for a rarity. -/
  rarity? : Rarity → Option ρ
  rules : List (EngineRule α ρ)

namespace Catalog

variable {α ρ : Type}

/-- The catalog of an engine that offers nothing. -/
def empty : Catalog α ρ where
  condition? _ := none
  rarity? _ := none
  rules := []

/-- Exposes a value for a condition. -/
def exposeCondition (c : Catalog α ρ) (symbol : Condition) (value : α) : Catalog α ρ :=
  { c with condition? := fun s => if s = symbol then some value else c.condition? s }

/-- Exposes a value for a rarity. -/
def exposeRarity (c : Catalog α ρ) (symbol : Rarity) (value : ρ) : Catalog α ρ :=
  { c with rarity? := fun s => if s = symbol then some value else c.rarity? s }

/-- Adds a rule of the engine behind the others. -/
def addRule (c : Catalog α ρ) (r : EngineRule α ρ) : Catalog α ρ :=
  { c with rules := c.rules ++ [r] }

end Catalog

end DropRules
