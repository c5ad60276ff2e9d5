import DropRules.Yaml.Cursor
import DropRules.Yaml.Fault
import DropRules.Yaml.Token

/-!
# Names, tags and directives

Reading of the tokens that are neither punctuation nor scalars: anchors and aliases, tags, and the
directives in front of a document.  A tag is either given in full, between angles, or as a handle
and a suffix, and the handle may have been declared by a directive.  In tags a percent sign and two
hexadecimal digits stand for an octet; octets must come in groups that look like characters in
UTF-8.
-/

namespace DropRules.Yaml

/-- The octets of a text. -/
def octets (s : List Char) : Tag :=
  (String.ofList s).toUTF8.toList

/-- A tag ends before its first zero octet. -/
def cutAtZero (t : Tag) : Tag :=
  t.takeWhile (· != 0)

/-- Whether the character may stand in a tag; `wide` admits the signs that only a tag in angles or
the stem of a handle may hold. -/
def isUriChar (wide : Bool) (c : Char) : Bool :=
  isWord c
    || c ∈ [';', '/', '?', ':', '@', '&', '=', '+', '$', '.', '%', '!', '~', '*', '\'', '(', ')']
    || (wide && c ∈ [',', '[', ']'])

/-- The number of octets in a group that begins with this one. -/
def octetGroup? (n : Nat) : Option Nat :=
  if n < 0x80 then some 1
  else if 0xC0 ≤ n ∧ n < 0xE0 then some 2
  else if 0xE0 ≤ n ∧ n < 0xF0 then some 3
  else if 0xF0 ≤ n ∧ n < 0xF8 then some 4
  else none

/-- Reads the octets of a tag as long as they last.  `left` octets of an escaped group are still to
come, and `failure` tells what a fault is met in. -/
def readUriOctets (wide : Bool) (failure : Problem → Mark → Fault) :
    Nat → List Char → Mark → Except Fault (Tag × Cursor)
  | left, '%' :: rest, m =>
    match rest with
    | a :: b :: rest' =>
      match hexValue? a, hexValue? b with
      | some x, some y =>
        let n := x * 16 + y
        let group : Except Fault Nat :=
          if left = 0 then
            match octetGroup? n with
            | some k => .ok (k - 1)
            | none => .error (failure .uriLeadingOctet m)
          else if 0x80 ≤ n ∧ n < 0xC0 then .ok (left - 1)
          else .error (failure .uriTrailingOctet m)
        match group with
        | .error f => .error f
        | .ok left =>
          (readUriOctets wide failure left rest' (((m.next '%').next a).next b)).map
            fun r => (UInt8.ofNat n :: r.1, r.2)
      | _, _ => .error (failure .uriEscape m)
    | _ => .error (failure .uriEscape m)
  | left, [], m => if left = 0 then .ok ([], ⟨[], m⟩) else .error (failure .uriEscape m)
  | left, c :: rest, m =>
    if left ≠ 0 then .error (failure .uriEscape m)
    else if isUriChar wide c then
      (readUriOctets wide failure 0 rest (m.next c)).map fun r => (octets [c] ++ r.1, r.2)
    else .ok ([], ⟨c :: rest, m⟩)

/-- Reads the suffix of a tag or the stem of a handle.  `head` is what was read of it before, of
which the leading exclamation mark does not count. -/
def readUri (wide : Bool) (failure : Problem → Mark → Fault) (head : List Char) (c : Cursor) :
    Except Fault (Tag × Cursor) := do
  let (rest, d) ← readUriOctets wide failure 0 c.rest c.mark
  if head = [] ∧ rest = [] then .error (failure .missingUri d.mark)
  else .ok (cutAtZero (octets head.tail ++ rest), d)

/-- Reads a handle: an exclamation mark, and as the case may be a word and a second one. -/
def readHandle (directive : Bool) (since : Mark) (c : Cursor) :
    Except Fault (List Char × Cursor) :=
  if c.atChar '!' then
    let word := (c.advance 1).takeWhile isWord
    let d := (c.advance 1).skipWhile isWord
    if d.atChar '!' then .ok ('!' :: word ++ ['!'], d.advance 1)
    else if directive && word != [] then
      .error (.within .missingExclamation d.mark .handleDirectiveEnd since)
    else .ok ('!' :: word, d)
  else
    .error (.within .missingExclamation c.mark
      (if directive then .handleInDirective else .tag) since)

/-- Reads a tag; `flow` tells whether brackets are open. -/
def readTag (flow : Bool) (c : Cursor) : Except Fault (Token × Cursor) := do
  let since := c.mark
  let failure (p : Problem) (m : Mark) : Fault := .within p m .uri since
  let (kind, d) ←
    match c.rest with
    | _ :: '<' :: _ => do
      let (suffix, d) ← readUri true failure [] (c.advance 2)
      if d.atChar '>' then pure (TokenKind.tag [] suffix, d.advance 1)
      else .error (.within .missingAngle d.mark .tag since)
    | _ => do
      let (handle, d) ← readHandle false since c
      if handle.length ≥ 2 ∧ handle.getLast? = some '!' then
        let (suffix, d) ← readUri false failure [] d
        pure (TokenKind.tag handle suffix, d)
      else
        let (suffix, d) ← readUri false failure handle d
        let lone := TokenKind.tag [] (octets ['!'])
        pure (if suffix = [] then lone else TokenKind.tag ['!'] suffix, d)
  if blankNext d.rest || (flow && d.atChar ',') then .ok (⟨kind, since, d.mark⟩, d)
  else .error (.within .missingBlankOrBreak d.mark .tag since)

/-- Reads the name after the sign of an anchor, or of a reference to one. -/
def readAnchor (reference : Bool) (c : Cursor) : Except Fault (Token × Cursor) :=
  let name := (c.advance 1).takeWhile isWord
  let d := (c.advance 1).skipWhile isWord
  let ended := blankNext d.rest
    || d.rest.head?.any fun x => x ∈ ['?', ':', ',', ']', '\x7d', '%', '@', '\x60']
  if name ≠ [] ∧ ended then
    .ok (⟨if reference then .reference name else .anchor name, c.mark, d.mark⟩, d)
  else
    .error (.within .missingAnchorName d.mark
      (if reference then .reference else .anchor) c.mark)

/-- Reads a part of a version number, of nine digits at most. -/
def readVersionPart (since : Mark) (c : Cursor) : Except Fault (Nat × Cursor) :=
  let digits := c.takeWhile Char.isDigit
  if 9 < digits.length then
    .error (.within .versionTooLong (c.advance 9).mark .versionDirective since)
  else if digits = [] then
    .error (.within .missingVersionNumber c.mark .versionDirective since)
  else
    .ok (digits.foldl (fun n d => 10 * n + (d.toNat - '0'.toNat)) 0, c.skipWhile Char.isDigit)

/-- Reads a directive with the rest of its line, comment and break included. -/
def readDirective (c : Cursor) : Except Fault (Token × Cursor) := do
  let since := c.mark
  let name := (c.advance 1).takeWhile isWord
  let d := (c.advance 1).skipWhile isWord
  if name = [] then .error (.within .missingDirectiveName d.mark .directive since)
  else if !blankNext d.rest then .error (.within .directiveNameNotWord d.mark .directive since)
  else
    let (kind, e) ←
      if name = ['Y', 'A', 'M', 'L'] then do
        let (major, e) ← readVersionPart since (d.skipWhile isBlank)
        if e.atChar '.' then
          let (minor, e) ← readVersionPart since (e.advance 1)
          pure (TokenKind.versionDirective major minor, e)
        else .error (.within .missingVersionDot e.mark .versionDirective since)
      else if name = ['T', 'A', 'G'] then do
        let (handle, e) ← readHandle true since (d.skipWhile isBlank)
        if e.rest.head?.any isBlank then
          let failure (p : Problem) (m : Mark) : Fault := .within p m .uriInDirective since
          let (stem, e) ← readUri true failure [] (e.skipWhile isBlank)
          if blankNext e.rest then pure (TokenKind.handleDirective handle stem, e)
          else .error (.within .missingBlankOrBreak e.mark .handleDirective since)
        else .error (.within .missingBlank e.mark .handleDirective since)
      else .error (.within .unknownDirective d.mark .directive since)
    let f := e.skipRemark
    if breakNext f.rest then .ok (⟨kind, since, e.mark⟩, f.skipBreak)
    else .error (.within .directiveTail f.mark .directive since)

end DropRules.Yaml
