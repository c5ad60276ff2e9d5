/-!
# The characters of a document

A document may hold the characters that `isAllowed` accepts and no others.  Five of them break a
line; a carriage return followed by a line feed is one break.  When a break becomes part of a text
it is written as a line feed, except for the two separators of Unicode, which stay what they are.
-/

namespace DropRules.Yaml

/-- Whether a document may hold the character: the tab, the line breaks and what can be printed. -/
def isAllowed (c : Char) : Bool :=
  let n := c.toNat
  n == 0x09 || n == 0x0A || n == 0x0D || (0x20 ≤ n && n ≤ 0x7E) || n == 0x85
    || (0xA0 ≤ n && n ≤ 0xD7FF) || (0xE000 ≤ n && n ≤ 0xFFFD) || 0x10000 ≤ n

/-- The mark that tells an encoding.  It may stand at the beginning of a line, where it counts as a
blank. -/
def byteOrderMark : Char :=
  '\uFEFF'

/-- Whether the character breaks a line. -/
def isBreak (c : Char) : Bool :=
  c == '\r' || c == '\n' || c == '\u0085' || c == '\u2028' || c == '\u2029'

/-- What a line break is read as. -/
def breakText (c : Char) : Char :=
  if c = '\u2028' ∨ c = '\u2029' then c else '\n'

/-- Whether the character separates words within a line. -/
def isBlank (c : Char) : Bool :=
  c == ' ' || c == '\t'

/-- Whether the character can stand in a name: an ASCII letter or digit, a hyphen or a low line. -/
def isWord (c : Char) : Bool :=
  c.isAlphanum || c == '_' || c == '-'

/-- Whether a text is at a blank, at a line break, or at its end. -/
def blankNext : List Char → Bool
  | [] => true
  | c :: _ => isBlank c || isBreak c

/-- Whether a text is at a line break or at its end. -/
def breakNext : List Char → Bool
  | [] => true
  | c :: _ => isBreak c

/-- Whether a text starts with three times the character `c`, and nothing is attached to them. -/
def tripleNext (c : Char) : List Char → Bool
  | a :: b :: d :: rest => a == c && b == c && d == c && blankNext rest
  | _ => false

/-- Whether a text starts with the marker that begins or ends a document. -/
def documentMarkerNext (s : List Char) : Bool :=
  tripleNext '-' s || tripleNext '.' s

/-- The value of a hexadecimal digit. -/
def hexValue? (c : Char) : Option Nat :=
  if '0' ≤ c ∧ c ≤ '9' then some (c.toNat - '0'.toNat)
  else if 'a' ≤ c ∧ c ≤ 'f' then some (c.toNat - 'a'.toNat + 10)
  else if 'A' ≤ c ∧ c ≤ 'F' then some (c.toNat - 'A'.toNat + 10)
  else none

end DropRules.Yaml
