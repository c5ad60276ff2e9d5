import DropRules.Yaml.Cursor
import DropRules.Yaml.Fault

/-!
# Block scalars

A block scalar is introduced by a bar or an angle and holds the indented lines below it.  After a
bar the lines stay as they are; after an angle a single break between two lines that do not begin
with a blank becomes a space.  The header may give the indentation and says what becomes of the
breaks at the end: `Chomp.strip` drops them all, `Chomp.clip` keeps one, `Chomp.keep` keeps them.
Without a given indentation the scalar takes that of its widest leading blank line or of its first
line with text, and is indented deeper than what surrounds it in any case.
-/

namespace DropRules.Yaml

/-- What becomes of the line breaks at the end of a block scalar. -/
inductive Chomp where
  | strip
  | clip
  | keep
deriving DecidableEq, Repr

/-- What the first line of a block scalar says. -/
structure BlockHeader where
  /-- Whether lines are kept apart. -/
  literal : Bool
  chomp : Chomp
  /-- The indentation of the lines, where the header gives it. -/
  indent : Option Nat
deriving Repr

/-- What has been read since the last line with text. -/
structure Margin where
  /-- The break that ended the last line with text. -/
  first : Option Char
  /-- The breaks of the empty lines after it. -/
  later : List Char
  /-- Whether the last line with text began with a blank. -/
  indented : Bool

namespace Margin

/-- The margin above the first line. -/
def top : Margin :=
  ⟨none, [], false⟩

/-- What the margin becomes when a further line with text follows; `blank` tells whether that line
begins with a blank. -/
def joined (m : Margin) (literal blank : Bool) : List Char :=
  let first :=
    if !literal && m.first == some '\n' && !m.indented && !blank then
      if m.later = [] then [' '] else []
    else m.first.toList
  first ++ m.later

/-- What the margin becomes at the end of the scalar. -/
def ending (m : Margin) (chomp : Chomp) : List Char :=
  match chomp with
  | .strip => []
  | .clip => m.first.toList
  | .keep => m.first.toList ++ m.later

end Margin

/-- Where the next character of a block scalar stands. -/
inductive BlockState where
  /-- In the margin of a line, with the width of the widest line so far. -/
  | margin (margin : Margin) (indent : Option Nat) (widest : Nat)
  /-- In the text of a line; `blank` tells whether the line began with a blank. -/
  | line (indent : Nat) (blank : Bool)

/-- Reads the lines of a block scalar.  `outer` is the indentation of what surrounds the scalar, and
`since` the place of its header. -/
def readLines (literal : Bool) (chomp : Chomp) (outer : Int) (since : Mark) :
    BlockState → List Char → Mark → Except Fault (List Char × Cursor)
  | .line _ _, [], m => .ok ([], ⟨[], m⟩)
  | .margin margin _ _, [], m => .ok (margin.ending chomp, ⟨[], m⟩)
  | .line indent blank, c :: rest, m =>
    if c == '\r' && rest.head? == some '\n' then
      readLines literal chomp outer since (.line indent blank) rest m.hold
    else if isBreak c then
      readLines literal chomp outer since
        (.margin ⟨some (breakText c), [], blank⟩ (some indent) 0) rest (m.newline c.utf8Size)
    else
      (readLines literal chomp outer since (.line indent blank) rest (m.next c)).map
        fun r => (c :: r.1, r.2)
  | .margin margin indent widest, c :: rest, m =>
    let short := indent.all (m.column < ·)
    let widest := max widest m.column
    if c == ' ' && short then
      readLines literal chomp outer since (.margin margin indent widest) rest (m.next c)
    else if c == '\t' && short then .error (.within .tabInIndent m .blockScalar since)
    else if c == '\r' && rest.head? == some '\n' then
      readLines literal chomp outer since (.margin margin indent widest) rest m.hold
    else if isBreak c then
      readLines literal chomp outer since
        (.margin { margin with later := margin.later ++ [breakText c] } indent widest) rest
        (m.newline c.utf8Size)
    else
      let indent := indent.getD (max widest (max (outer + 1).toNat 1))
      if m.column = indent then
        let blank := isBlank c
        (readLines literal chomp outer since (.line indent blank) rest (m.next c)).map
          fun r => (margin.joined literal blank ++ c :: r.1, r.2)
      else .ok (margin.ending chomp, ⟨c :: rest, m⟩)

/-- Reads the header of a block scalar up to the end of its line, from behind the bar or angle. -/
def readBlockHeader (literal : Bool) (outer : Int) (since : Mark) (c : Cursor) :
    Except Fault (BlockHeader × Cursor) := do
  let chomp? (c : Cursor) : Option Chomp :=
    if c.atChar '+' then some .keep else if c.atChar '-' then some .strip else none
  let width (c : Cursor) : Except Fault (Option Nat × Cursor) :=
    match c.rest with
    | d :: _ =>
      if d == '0' then .error (.within .zeroIndent c.mark .blockScalar since)
      else if d.isDigit then .ok (some (d.toNat - '0'.toNat), c.advance 1)
      else .ok (none, c)
    | [] => .ok (none, c)
  let (chomp, given, c) ←
    match chomp? c with
    | some chomp => do
      let (given, c) ← width (c.advance 1)
      pure (chomp, given, c)
    | none => do
      let (given, c) ← width c
      match given, chomp? c with
      | some _, some chomp => pure (chomp, given, c.advance 1)
      | _, _ => pure (Chomp.clip, given, c)
  let c := c.skipRemark
  if breakNext c.rest then
    let indent := given.map fun n => if 0 ≤ outer then outer.toNat + n else n
    .ok (⟨literal, chomp, indent⟩, c.skipBreak)
  else .error (.within .blockHeaderTail c.mark .blockScalar since)

/-- Reads a block scalar from behind its bar or angle. -/
def readBlock (literal : Bool) (outer : Int) (since : Mark) (c : Cursor) :
    Except Fault (List Char × Cursor) := do
  let (header, c) ← readBlockHeader literal outer since c
  readLines literal header.chomp outer since (.margin .top header.indent 0) c.rest c.mark

end DropRules.Yaml
