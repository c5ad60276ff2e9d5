import DropRules.Yaml.Cursor
import DropRules.Yaml.Fault
import DropRules.Yaml.Scalar.Gap

/-!
# Quoted scalars

Between single quotes every character stands for itself, and a quote is written twice.  Between
double quotes a backslash begins an escape: a letter for one of the common controls, a code point
in two, four or eight hexadecimal digits, or a line break, which is then not part of the text.
Line breaks fold as in a plain scalar, and a document marker must not stand at the beginning of a
line.
-/

namespace DropRules.Yaml

/-- The character that a backslash and a letter stand for. -/
def escapeOf? : Char → Option Char
  | '0' => some '\x00'
  | 'a' => some '\x07'
  | 'b' => some '\x08'
  | 't' => some '\t'
  | '\t' => some '\t'
  | 'n' => some '\n'
  | 'v' => some '\x0b'
  | 'f' => some '\x0c'
  | 'r' => some '\r'
  | 'e' => some '\x1b'
  | ' ' => some ' '
  | '"' => some '"'
  | '/' => some '/'
  | '\\' => some '\\'
  | 'N' => some '\u0085'
  | '_' => some '\u00a0'
  | 'L' => some '\u2028'
  | 'P' => some '\u2029'
  | _ => none

/-- The number of hexadecimal digits after a backslash and this letter. -/
def codeLength? : Char → Option Nat
  | 'x' => some 2
  | 'u' => some 4
  | 'U' => some 8
  | _ => none

/-- The character with a given code point, unless it is a surrogate or out of range. -/
def charOfCode? (n : Nat) : Option Char :=
  if n.isValidChar then some (Char.ofNat n) else none

/-- What the next character of a quoted scalar continues. -/
inductive QuotedState where
  /-- Text, after a gap or right after a word. -/
  | text (gap : Gap)
  /-- A code point of which `left` digits are missing; its first digit is at `since`. -/
  | code (left value : Nat) (since : Mark)

/-- Reads a quoted scalar from behind its opening quote, which is at `since`; `single` tells whether
that is a single one. -/
def readQuoted : (single : Bool) → (since : Mark) →
    QuotedState → List Char → Mark → Except Fault (List Char × Cursor)
  | _, since, .code _ _ digits, [], _ => .error (.within .missingHexDigit digits .quotedEscape since)
  | _, since, .text _, [], m => .error (.within .endInQuotes m .quotedScalar since)
  | single, since, .code left value digits, c :: rest, m =>
    match hexValue? c with
    | none => .error (.within .missingHexDigit digits .quotedEscape since)
    | some d =>
      if left ≤ 1 then
        match charOfCode? (value * 16 + d) with
        | none => .error (.within .invalidCodePoint digits .quotedEscape since)
        | some x =>
          (readQuoted single since (.text .none) rest (m.next c)).map fun r => (x :: r.1, r.2)
      else readQuoted single since (.code (left - 1) (value * 16 + d) digits) rest (m.next c)
  | single, since, .text gap, c :: rest, m =>
    if isBlank c then readQuoted single since (.text (gap.blank c)) rest (m.next c)
    else if c == '\r' && rest.head? == some '\n' then
      readQuoted single since (.text gap) rest m.hold
    else if isBreak c then
      readQuoted single since (.text (gap.lineBreak (breakText c))) rest (m.newline c.utf8Size)
    else if gap.isOpen && m.column == 0 && documentMarkerNext (c :: rest) then
      .error (.within .markerInQuotes m .quotedScalar since)
    else if c == (if single then '\'' else '"') then
      match single, rest with
      | true, '\'' :: rest' =>
        (readQuoted single since (.text .none) rest' ((m.next c).next c)).map
          fun r => (gap.text ++ '\'' :: r.1, r.2)
      | _, _ => .ok (gap.text, ⟨rest, m.next c⟩)
    else if !single && c == '\\' then
      match rest with
      | [] => .error (.within .unknownEscape m .quotedEscape since)
      | e :: rest' =>
        if e == '\r' && rest'.head? == some '\n' then
          -- the break proper is the line feed, which the gap takes in as an escaped first break
          match rest' with
          | _ :: rest'' =>
            (readQuoted single since (.text (.breaks none [])) rest'' ((m.next c).newline 2)).map
              fun r => (gap.text ++ r.1, r.2)
          | [] => .error (.within .unknownEscape m .quotedEscape since)
        else if isBreak e then
          let m := (m.next c).newline e.utf8Size
          (readQuoted single since (.text (.breaks none [])) rest' m).map
            fun r => (gap.text ++ r.1, r.2)
        else
          match escapeOf? e, codeLength? e with
          | some x, _ =>
            (readQuoted single since (.text .none) rest' ((m.next c).next e)).map
              fun r => (gap.text ++ x :: r.1, r.2)
          | none, some n =>
            let digits := (m.next c).next e
            (readQuoted single since (.code n 0 digits) rest' digits).map
              fun r => (gap.text ++ r.1, r.2)
          | none, none => .error (.within .unknownEscape m .quotedEscape since)
    else
      (readQuoted single since (.text .none) rest (m.next c)).map
        fun r => (gap.text ++ c :: r.1, r.2)

end DropRules.Yaml
