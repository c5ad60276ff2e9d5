import DropRules.Yaml.Character
import DropRules.Yaml.Mark

/-!
# Reading a text from front to back

A `Cursor` is what is left of a text together with the place where it begins.  The functions here
move it over characters of one kind; they recurse on the text that is left, so that each of them
ends, and each can be computed by unfolding.
-/

namespace DropRules.Yaml

/-- The rest of a text and the place where it begins. -/
structure Cursor where
  rest : List Char
  mark : Mark
deriving DecidableEq, Repr

/-- Moves over characters of one line as long as they satisfy `p`. -/
def skipWhile (p : Char → Bool) : List Char → Mark → Cursor
  | [], m => ⟨[], m⟩
  | c :: rest, m => if p c then skipWhile p rest (m.next c) else ⟨c :: rest, m⟩

namespace Cursor

/-- The beginning of a text. -/
def ofText (s : List Char) : Cursor :=
  ⟨s, .start⟩

/-- Moves over characters of one line as long as they satisfy `p`. -/
def skipWhile (p : Char → Bool) (c : Cursor) : Cursor :=
  Yaml.skipWhile p c.rest c.mark

/-- The characters over which `skipWhile` moves. -/
def takeWhile (p : Char → Bool) (c : Cursor) : List Char :=
  c.rest.takeWhile p

/-- Moves over `n` characters of one line. -/
def advance : Nat → Cursor → Cursor
  | 0, c => c
  | n + 1, c =>
    match c.rest with
    | [] => c
    | x :: rest => advance n ⟨rest, c.mark.next x⟩

/-- Moves over a line break, if one comes next. -/
def skipBreak (c : Cursor) : Cursor :=
  match c.rest with
  | '\r' :: '\n' :: rest => ⟨rest, c.mark.newline 2⟩
  | b :: rest => if isBreak b then ⟨rest, c.mark.newline b.utf8Size⟩ else c
  | [] => c

/-- Moves over blanks, and then over a comment if one begins there. -/
def skipRemark (c : Cursor) : Cursor :=
  let d := c.skipWhile isBlank
  match d.rest with
  | '#' :: _ => d.skipWhile (! isBreak ·)
  | _ => d

/-- Whether the character comes next. -/
def atChar (c : Cursor) (x : Char) : Bool :=
  c.rest.head? == some x

end Cursor

end DropRules.Yaml
