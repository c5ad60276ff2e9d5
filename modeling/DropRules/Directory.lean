import DropRules.Handle
import DropRules.Notice

/-!
# Directories of handles

A `Directory` goes from symbols to handles and back.  It is made once from what the engine exposes,
by walking the symbols in their order (`Directory.ofLookup`), and lists one entry for every symbol
that the engine exposes.

## 1.  Shared values

The engine may expose one value for several symbols.  The first of them gets the value a handle
with the next number, and the later ones share that handle.  So the numbers in use are 0, 1, 2, …
in the order in which the values first appear, and equal numbers mean equal values.

## 2.  The way back

A handle leads back to the first symbol whose entry has both its number and its value
(`Directory.symbol?`).  A handle from elsewhere may bear a number of this directory by accident;
since its value must agree as well, it is never taken for another.

## 3.  Searching and looking up

A directory answers by searching its entries.  A `Register` keeps tables instead, and goes from one
to the other by numbers; it answers the same (`Register.answers_ofLookup`).
-/

namespace DropRules

/-- The handles of the exposed symbols, in the order of the symbols. -/
structure Directory (σ α : Type) where
  entries : List (σ × Handle α)
  /-- The number of different handles. -/
  size : Nat
deriving Repr

namespace Directory

variable {σ α : Type} [Symbol σ] [DecidableEq σ] [DecidableEq α]

/-- The directory without entries. -/
def empty : Directory σ α :=
  ⟨[], 0⟩

/-- The first entry for a value. -/
def holder? (d : Directory σ α) (value : α) : Option (σ × Handle α) :=
  d.entries.find? fun e => e.2.value = value

/-- Adds an entry for a symbol, under the handle that its value has already or under a new one. -/
def add (d : Directory σ α) (symbol : σ) (value : α) : Directory σ α :=
  match d.holder? value with
  | some e => { d with entries := d.entries ++ [(symbol, e.2)] }
  | none => ⟨d.entries ++ [(symbol, ⟨.ofNat d.size, value⟩)], d.size + 1⟩

/-- Adds the entry of one symbol, if the engine exposes a value for it, and reports what is missing
and what is shared. -/
def note (lookup : σ → Option α) (d : Directory σ α) (symbol : σ) : Noted (Directory σ α) := do
  match lookup symbol with
  | none =>
    Logged.tell (.handleMissing (Symbol.name symbol))
    pure d
  | some value =>
    if let some e := d.holder? value then
      Logged.tell (.handleShared (Symbol.name symbol) (Symbol.name e.1))
    pure (d.add symbol value)

/-- The directory of what the engine exposes. -/
def ofLookup (lookup : σ → Option α) : Noted (Directory σ α) :=
  (Symbol.all : List σ).foldlM (note lookup) empty

/-- The handle of a symbol. -/
def handle? (d : Directory σ α) (symbol : σ) : Option (Handle α) :=
  (d.entries.find? fun e => e.1 = symbol).map (·.2)

/-- The first symbol of a handle. -/
def symbol? (d : Directory σ α) (h : Handle α) : Option σ :=
  (d.entries.find? fun e => e.2.id = h.id ∧ e.2.Same h).map (·.1)

/-- The number of a value. -/
def id? (d : Directory σ α) (value : α) : Option HandleId :=
  (d.holder? value).map (·.2.id)

/-- Whether a symbol has a handle. -/
def contains (d : Directory σ α) (symbol : σ) : Bool :=
  (d.handle? symbol).isSome

/-- Whether no symbol has a handle. -/
def isEmpty (d : Directory σ α) : Bool :=
  d.size == 0

/-- The symbols of the set that have no handle. -/
def missing (d : Directory σ α) : List σ :=
  (Symbol.all : List σ).filter fun s => !d.contains s

end Directory

end DropRules
