import DropRules.Catalog
import DropRules.Directory

/-!
# Names for the engine's values

A `Naming` is a directory of conditions and one of rarities, both made from one catalog.
-/

namespace DropRules

/-- The directories of one engine. -/
structure Naming (α ρ : Type) where
  conditions : Directory Condition α
  rarities : Directory Rarity ρ
deriving Repr

namespace Naming

variable {α ρ : Type} [DecidableEq α] [DecidableEq ρ]

/-- The directories of what a catalog exposes. -/
def ofCatalog (c : Catalog α ρ) : Noted (Naming α ρ) := do
  let conditions ← Directory.ofLookup c.condition?
  let rarities ← Directory.ofLookup c.rarity?
  Logged.tell (.namingBuilt conditions.size rarities.size)
  pure ⟨conditions, rarities⟩

/-- The handle of a condition. -/
def condition? (n : Naming α ρ) (symbol : Condition) : Option (Handle α) :=
  n.conditions.handle? symbol

/-- The handle of a rarity. -/
def rarity? (n : Naming α ρ) (symbol : Rarity) : Option (Handle ρ) :=
  n.rarities.handle? symbol

end Naming

end DropRules
