import DropRules.Yaml.Atom
import DropRules.Yaml.Character

/-!
# How a text is written as a scalar

A text is written in the plainest form that reads back as the same text (`writeText`).

* A text with a line feed is a literal block, line by line.
* A text that would be read as something else is put between single quotes: one that looks like a
  null, a truth value or a number, or like digits behind a leading zero.
* Any other text stands without quotes if it can (`plainAllowed`), and between single quotes if
  not.

Where neither a block nor single quotes can hold the text, double quotes can, for between them
every character has an escape.
-/

namespace DropRules.Yaml

/-- Whether a character may be written as it is: the line feed and what can be seen. -/
def isPlainlyWritten (c : Char) : Bool :=
  let n := c.toNat
  n == 0x0A || (0x20 ≤ n && n ≤ 0x7E) || (0xA0 ≤ n && n ≤ 0xD7FF)
    || (0xE000 ≤ n && n ≤ 0xFFFD && n != 0xFEFF) || 0x10000 ≤ n

/-- Whether two neighbours in a text satisfy the two predicates. -/
def hasPair (p q : Char → Bool) : List Char → Bool
  | a :: b :: rest => (p a && q b) || hasPair p q (b :: rest)
  | _ => false

/-- Whether the character is a space. -/
def isSpace (c : Char) : Bool :=
  c == ' '

/-- Whether only double quotes can hold the text. -/
def needsEscapes (s : List Char) : Bool :=
  !s.all isPlainlyWritten || hasPair isSpace isBreak s

/-- Whether single quotes can hold the text. -/
def singleAllowed (s : List Char) : Bool :=
  !needsEscapes s && !hasPair isBreak isSpace s

/-- Whether a literal block can hold the text. -/
def literalAllowed (s : List Char) : Bool :=
  !needsEscapes s && !s.getLast?.any isSpace

/-- The signs that a text without quotes cannot begin with. -/
def opensNothingPlain : List Char :=
  ['#', ',', '[', ']', '\x7b', '\x7d', '&', '*', '!', '|', '>', '\'', '"', '%', '@', '\x60']

/-- Whether a colon or a comment would be seen inside a text: a colon before a blank, or a number
sign behind one. -/
def hasInnerSign : List Char → Bool
  | a :: b :: rest =>
    (b == ':' && blankNext rest) || (b == '#' && (isBlank a || isBreak a))
      || hasInnerSign (b :: rest)
  | _ => false

/-- Whether a text would be taken for a sign at its beginning. -/
def hasOuterSign : List Char → Bool
  | [] => false
  | c :: rest =>
    (c :: rest).take 3 == ['-', '-', '-'] || (c :: rest).take 3 == ['.', '.', '.']
      || c ∈ opensNothingPlain
      || ((c == '?' || c == ':' || c == '-') && blankNext rest)

/-- Whether the text can stand without quotes. -/
def plainAllowed (s : List Char) : Bool :=
  !needsEscapes s && !s.any isBreak && !s.head?.any isSpace && !s.getLast?.any isSpace
    && !hasOuterSign s && !hasInnerSign s

/-- Whether a text without quotes would be read as that text. -/
def readsAsText (s : List Char) : Bool :=
  match Atom.ofPlain s with
  | .text _ => !Atom.hasLeadingZero s
  | _ => false

/-- A hexadecimal digit in capitals. -/
def capitalHex (n : Nat) : Char :=
  Char.ofNat (if n < 10 then 48 + n else 55 + n)

/-- The last `width` hexadecimal digits of a number. -/
def hexField : Nat → Nat → List Char
  | 0, _ => []
  | width + 1, n => hexField width (n / 16) ++ [capitalHex (n % 16)]

/-- The escape of a character between double quotes. -/
def escape (c : Char) : List Char :=
  let n := c.toNat
  let short : Option Char :=
    match n with
    | 0x00 => some '0'
    | 0x07 => some 'a'
    | 0x08 => some 'b'
    | 0x09 => some 't'
    | 0x0A => some 'n'
    | 0x0B => some 'v'
    | 0x0C => some 'f'
    | 0x0D => some 'r'
    | 0x1B => some 'e'
    | 0x22 => some '"'
    | 0x5C => some '\\'
    | 0x85 => some 'N'
    | 0x2028 => some 'L'
    | 0x2029 => some 'P'
    | _ => none
  match short with
  | some letter => ['\\', letter]
  | none =>
    if n ≤ 0xFF then '\\' :: 'x' :: hexField 2 n
    else if n ≤ 0xFFFF then '\\' :: 'u' :: hexField 4 n
    else '\\' :: 'U' :: hexField 8 n

/-- A character between double quotes. -/
def doubleQuotedChar (c : Char) : List Char :=
  if !isPlainlyWritten c || isBreak c || c == '"' || c == '\\' then escape c else [c]

/-- The text between double quotes. -/
def doubleQuoted (s : List Char) : List Char :=
  '"' :: s.flatMap doubleQuotedChar ++ ['"']

/-- The text between single quotes, with the closing quote.  After a line break what follows is
indented; the flag tells whether the last character was one. -/
def singleQuotedTail (indent : Nat) : Bool → List Char → List Char
  | broken, [] => (if broken then List.replicate indent ' ' else []) ++ ['\'']
  | broken, c :: rest =>
    if isBreak c then c :: singleQuotedTail indent true rest
    else
      (if broken then List.replicate indent ' ' else [])
        ++ (if c = '\'' then ['\'', '\''] else [c]) ++ singleQuotedTail indent false rest

/-- The text between single quotes. -/
def singleQuoted (indent : Nat) (s : List Char) : List Char :=
  '\'' :: singleQuotedTail indent false s

/-- The lines of a literal block.  A line that is not empty is indented; the flag tells whether a
line begins. -/
def literalLines (indent : Nat) : Bool → List Char → List Char
  | _, [] => []
  | fresh, c :: rest =>
    if isBreak c then c :: literalLines indent true rest
    else
      (if fresh then List.replicate indent ' ' else []) ++ c :: literalLines indent false rest

/-- What the header of a literal block says of its indentation and of the breaks at its end. -/
def literalHeader (s : List Char) : List Char :=
  let indent := if s.head?.any (fun c => isSpace c || isBreak c) then ['2'] else []
  let chomp :=
    match s.reverse with
    | [] => ['-']
    | [c] => if isBreak c then ['+'] else ['-']
    | c :: d :: _ => if isBreak c then (if isBreak d then ['+'] else []) else ['-']
  '|' :: indent ++ chomp

/-- A literal block, with the line break at its end. -/
def literalBlock (indent : Nat) (s : List Char) : List Char :=
  literalHeader s ++ '\n' :: literalLines indent true s
    ++ if s.getLast?.any isBreak then [] else ['\n']

/-- A text as a scalar, with the line break behind it.  Further lines of the scalar are indented by
`indent`. -/
def writeText (indent : Nat) (s : List Char) : List Char :=
  if '\n' ∈ s then
    if literalAllowed s then literalBlock indent s else doubleQuoted s ++ ['\n']
  else if readsAsText s && plainAllowed s then s ++ ['\n']
  else if singleAllowed s then singleQuoted indent s ++ ['\n']
  else doubleQuoted s ++ ['\n']

end DropRules.Yaml
