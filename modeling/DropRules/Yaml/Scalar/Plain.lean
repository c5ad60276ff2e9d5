import DropRules.Yaml.Cursor
import DropRules.Yaml.Fault
import DropRules.Yaml.Scalar.Gap

/-!
# Plain scalars

A plain scalar has no quotes around it, so it ends where something else begins: at a colon with a
blank after it, at a comment, at a line that is indented too little, at a document marker, and
inside brackets or braces at any of their signs.  `readPlain` reads one from its first character
on.
-/

namespace DropRules.Yaml

/-- Whether the character is one of the signs of bracketed collections. -/
def isFlowSign (c : Char) : Bool :=
  c == ',' || c == '[' || c == ']' || c == '\x7b' || c == '\x7d'

/-- A plain scalar that was read, and where reading goes on. -/
structure PlainScalar where
  text : List Char
  cursor : Cursor
  /-- The scalar was followed by a line break, so that a key may begin where reading goes on. -/
  broken : Bool

/-- Reads a plain scalar.  `flow` tells whether brackets are open, `indent` is the least column at
which a further line belongs to the scalar, and `since` is the place of its first character. -/
def readPlain (flow : Bool) (indent : Int) (since : Mark) :
    Gap → List Char → Mark → Except Fault PlainScalar
  | gap, [], m => .ok ⟨[], ⟨[], m⟩, gap.isBroken⟩
  | gap, c :: rest, m =>
    let stop : Except Fault PlainScalar := .ok ⟨[], ⟨c :: rest, m⟩, gap.isBroken⟩
    if isBlank c then
      if gap.isBroken && m.column < indent && c == '\t' then
        .error (.within .tabBeforePlain m .plainScalar since)
      else readPlain flow indent since (gap.blank c) rest (m.next c)
    else if c == '\r' && rest.head? == some '\n' then
      readPlain flow indent since gap rest m.hold
    else if isBreak c then
      readPlain flow indent since (gap.lineBreak (breakText c)) rest (m.newline c.utf8Size)
    else if gap.isOpen && ((!flow && m.column < indent) || c == '#'
        || (m.column == 0 && documentMarkerNext (c :: rest))) then stop
    else if flow && c == ':' && rest.head?.any (fun d => isFlowSign d || d == '?') then
      .error (.within .colonInFlow m .plainScalar since)
    else if (c == ':' && blankNext rest) || (flow && isFlowSign c) then stop
    else
      match readPlain flow indent since .none rest (m.next c) with
      | .error f => .error f
      | .ok s => .ok { s with text := gap.text ++ c :: s.text }

end DropRules.Yaml
