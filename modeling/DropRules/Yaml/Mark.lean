/-!
# Places in a document

A `Mark` is a place in a text: how many octets came before it, in UTF-8, and its line and column in
characters, all counted from zero.  Messages count lines and columns from one, and leave out the very beginning of
the text, which tells a reader nothing (`Mark.place`).
-/

namespace DropRules.Yaml

/-- A place in a text. -/
structure Mark where
  /-- The number of octets before the place. -/
  index : Nat
  line : Nat
  column : Nat
deriving DecidableEq, Repr

namespace Mark

/-- The beginning of a text. -/
def start : Mark :=
  ⟨0, 0, 0⟩

/-- The place after one more character of the same line. -/
def next (m : Mark) (c : Char) : Mark :=
  ⟨m.index + c.utf8Size, m.line, m.column + 1⟩

/-- The place between the two characters of a line break; the column does not move. -/
def hold (m : Mark) : Mark :=
  ⟨m.index + 1, m.line, m.column⟩

/-- The place after a line break of `width` octets. -/
def newline (m : Mark) (width : Nat) : Mark :=
  ⟨m.index + width, m.line + 1, 0⟩

/-- Whether the place is the first column of the first line. -/
def AtOrigin (m : Mark) : Prop :=
  m.line = 0 ∧ m.column = 0

instance (m : Mark) : Decidable m.AtOrigin :=
  inferInstanceAs (Decidable (_ ∧ _))

/-- Line and column, counted from one. -/
def text (m : Mark) : String :=
  "line " ++ toString (m.line + 1) ++ " column " ++ toString (m.column + 1)

/-- The place as a message ends in it; nothing for the beginning of the text. -/
def place (m : Mark) : String :=
  if m.AtOrigin then "" else " at " ++ m.text

end Mark

end DropRules.Yaml
