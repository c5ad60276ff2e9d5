import DropRules.Naming
import DropRules.Table

/-!
# Taking over the engine's own rules

`Naming.adopt` turns rules of the engine into a table.  A value that has a handle in the directory
keeps it.  A value the directory has never seen is foreign: it gets the next number beyond the
directory when it first occurs, rule by rule and from left to right, and the same handle whenever
it occurs again.
-/

namespace DropRules

/-- The foreign values met so far, in the order of their numbers. -/
abbrev Strangers (α : Type) := List α

namespace Directory

variable {σ α : Type} [DecidableEq α]

/-- The handle of a value, with the strangers met so far. -/
def adopt (d : Directory σ α) (met : Strangers α) (value : α) : Handle α × Strangers α :=
  match d.holder? value with
  | some e => (e.2, met)
  | none =>
    match met.idxOf? value with
    | some i => (⟨.ofNat (d.size + i), value⟩, met)
    | none => (⟨.ofNat (d.size + met.length), value⟩, met ++ [value])

/-- The handles of several values, from left to right. -/
def adoptList (d : Directory σ α) : Strangers α → List α → List (Handle α) × Strangers α
  | met, [] => ([], met)
  | met, v :: rest =>
    let (h, met) := d.adopt met v
    let (hs, met) := d.adoptList met rest
    (h :: hs, met)

/-- The handle of a value that may be absent. -/
def adoptOption (d : Directory σ α) (met : Strangers α) :
    Option α → Option (Handle α) × Strangers α
  | none => (none, met)
  | some v =>
    let (h, met) := d.adopt met v
    (some h, met)

end Directory

namespace Naming

variable {α ρ : Type} [DecidableEq α] [DecidableEq ρ]

/-- Binds rules of the engine one after the other. -/
def adoptRules (n : Naming α ρ) :
    Strangers α → Strangers ρ → List (EngineRule α ρ) → List (BoundRule α ρ)
  | _, _, [] => []
  | metConditions, metRarities, r :: rest =>
    let (rarity, metRarities) := n.rarities.adoptOption metRarities r.rarity
    let (conditions, metConditions) := n.conditions.adoptList metConditions r.conditions
    ⟨r.items, r.numerator, r.denominator, rarity, conditions⟩
      :: n.adoptRules metConditions metRarities rest

/-- The table of the engine's own rules. -/
def adopt (n : Naming α ρ) (rules : List (EngineRule α ρ)) : DropTable α ρ :=
  ⟨n.adoptRules [] [] rules⟩

end Naming

end DropRules
