/-!
# Closed sets of named symbols

Settings and listings speak of conditions and rarities by name.  A `Symbol` type is a closed set of
such names with a fixed order, `Symbol.all`, and `Symbol.ofName?` reads a name back.  Reading
ignores the case of ASCII letters and nothing else: no blank is trimmed, no prefix accepted, and a
letter beyond ASCII stands only for itself.
-/

namespace DropRules

/-- A closed set of symbols, each with a canonical name. -/
class Symbol (σ : Type) where
  /-- Every symbol of the set, in the order in which handles are read. -/
  all : List σ
  /-- The canonical name of a symbol. -/
  name : σ → String

namespace Symbol

/-- Two texts are alike when they differ at most in the case of ASCII letters. -/
def Alike (s t : String) : Prop :=
  s.toList.map Char.toLower = t.toList.map Char.toLower

instance (s t : String) : Decidable (Alike s t) :=
  inferInstanceAs (Decidable (_ = _))

variable {σ : Type} [Symbol σ]

/-- The symbol whose name is `text` up to the case of ASCII letters. -/
def ofName? (text : String) : Option σ :=
  (all : List σ).find? fun s => Alike (name s) text

/-- The canonical names, in the order of the symbols. -/
def names (σ : Type) [Symbol σ] : List String :=
  (all : List σ).map name

end Symbol

end DropRules
