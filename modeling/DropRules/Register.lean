import DropRules.Directory

/-!
# Registers

A `Directory` lists one entry for every symbol and searches that list.  A `Register` holds the same
in four tables: the handles and their first symbols stand at the places that are their numbers, and
the number of a symbol, or of a value, is looked up under it.

The tables are filled together, in one walk over the symbols.  A value that has a number keeps it,
and only the table of the symbols gets an entry.  A value that has none gets the next one, and all
four tables do.  What is asked of a register afterwards goes through several tables by way of a
number, so an answer is right only as long as the tables agree.
-/

namespace DropRules

/-- The handles by number, and the numbers by symbol and by value. -/
structure Register (σ α : Type) where
  /-- The handles, each at the place that is its number. -/
  handles : List (Handle α)
  /-- The first symbol of each handle, at the same place. -/
  firsts : List σ
  /-- The number of each symbol that has one. -/
  bySymbol : List (σ × HandleId)
  /-- The number of each value that has one. -/
  byValue : List (α × HandleId)
deriving Repr

namespace Register

variable {σ α : Type} [Symbol σ] [DecidableEq σ] [DecidableEq α]

/-- The register without handles. -/
def empty : Register σ α :=
  ⟨[], [], [], []⟩

/-- The number of a symbol. -/
def number? (r : Register σ α) (symbol : σ) : Option HandleId :=
  r.bySymbol.lookup symbol

/-- The number of a value. -/
def id? (r : Register σ α) (value : α) : Option HandleId :=
  r.byValue.lookup value

/-- The handle of a number. -/
def at? (r : Register σ α) (id : HandleId) : Option (Handle α) :=
  r.handles[id.toNat]?

/-- The number that a value has, or the next one, under which it is entered for the symbol. -/
def issue (r : Register σ α) (symbol : σ) (value : α) : HandleId × Register σ α :=
  match r.id? value with
  | some id => (id, r)
  | none =>
    let id := .ofNat r.handles.length
    (id, { r with
      handles := r.handles ++ [⟨id, value⟩]
      firsts := r.firsts ++ [symbol]
      byValue := (value, id) :: r.byValue })

/-- Enters a symbol under the number of its value. -/
def add (r : Register σ α) (symbol : σ) (value : α) : Register σ α :=
  let (id, r) := r.issue symbol value
  { r with bySymbol := (symbol, id) :: r.bySymbol }

/-- Enters one symbol, if the engine exposes a value for it, and reports what is missing and what is
shared. -/
def note (lookup : σ → Option α) (r : Register σ α) (symbol : σ) : Noted (Register σ α) := do
  match lookup symbol with
  | none =>
    Logged.tell (.handleMissing (Symbol.name symbol))
    pure r
  | some value =>
    if let some id := r.id? value then
      if let some first := r.firsts[id.toNat]? then
        Logged.tell (.handleShared (Symbol.name symbol) (Symbol.name first))
    pure (r.add symbol value)

/-- The register of what the engine exposes. -/
def ofLookup (lookup : σ → Option α) : Noted (Register σ α) :=
  (Symbol.all : List σ).foldlM (note lookup) empty

/-- The handle of a symbol. -/
def handle? (r : Register σ α) (symbol : σ) : Option (Handle α) :=
  (r.number? symbol).bind r.at?

/-- The handle of a value. -/
def holding? (r : Register σ α) (value : α) : Option (Handle α) :=
  (r.id? value).bind r.at?

/-- The first symbol of a handle: that of the handle at the place of its number, if the two are the
same. -/
def symbol? (r : Register σ α) (h : Handle α) : Option σ :=
  match r.at? h.id with
  | some g => if g.Same h then r.firsts[h.id.toNat]? else none
  | none => none

/-- Whether a symbol has a number. -/
def contains (r : Register σ α) (symbol : σ) : Bool :=
  (r.number? symbol).isSome

/-- The number of different handles. -/
def size (r : Register σ α) : Nat :=
  r.handles.length

/-- Whether there is no handle. -/
def isEmpty (r : Register σ α) : Bool :=
  r.handles.isEmpty

/-- The symbols that have a handle, in their order, and their handles. -/
def entries (r : Register σ α) : List (σ × Handle α) :=
  (Symbol.all : List σ).filterMap fun s => (r.handle? s).map fun h => (s, h)

end Register

end DropRules
