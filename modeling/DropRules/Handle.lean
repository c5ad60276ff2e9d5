/-!
# Handles

The engine's values are opaque, so the library numbers them: a `Handle` is a value together with the
number it was given.  Numbers are 32-bit words, and a directory gives out 0, 1, 2, ….

Two handles denote the same thing when they hold the same value (`Handle.Same`), whatever their
numbers: a number is only meaningful to the directory that gave it out.
-/

namespace DropRules

/-- The number a value is known by. -/
structure HandleId where
  index : UInt32
deriving DecidableEq, Repr

namespace HandleId

/-- The number of the `n`-th value, counted from zero. -/
def ofNat (n : Nat) : HandleId :=
  ⟨UInt32.ofNat n⟩

/-- The number as a natural number. -/
def toNat (i : HandleId) : Nat :=
  i.index.toNat

/-- A number is told by what it is as a natural number. -/
theorem toNat_inj {i j : HandleId} : i.toNat = j.toNat ↔ i = j := by
  rw [toNat, toNat, UInt32.toNat_inj]
  exact (mk.injEq ..).symm.to_iff

/-- A number is written after a hash sign. -/
def text (i : HandleId) : String :=
  "#" ++ toString i.toNat

end HandleId

/-- A value of the engine and the number it is known by. -/
structure Handle (α : Type) where
  id : HandleId
  value : α
deriving DecidableEq, Repr

namespace Handle

variable {α : Type}

/-- Two handles are the same when they hold the same value. -/
def Same (g h : Handle α) : Prop :=
  g.value = h.value

instance [DecidableEq α] (g h : Handle α) : Decidable (g.Same h) :=
  inferInstanceAs (Decidable (_ = _))

/-- A handle is told by its number and its value. -/
theorem eq_iff {g h : Handle α} : g = h ↔ g.id = h.id ∧ g.Same h := by
  cases g
  cases h
  exact (mk.injEq ..).to_iff

/-- A handle shows its number only, since the value is opaque. -/
def text (h : Handle α) : String :=
  "Handle(" ++ h.id.text ++ ")"

end Handle

end DropRules
