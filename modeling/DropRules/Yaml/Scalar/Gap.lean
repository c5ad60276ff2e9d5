import DropRules.Yaml.Character

/-!
# What lies between the words of a scalar

A plain or quoted scalar may run over several lines.  The blanks and breaks between two of its
words are a `Gap`, and only when a further word follows does the gap become text (`Gap.text`):
blanks within a line stay, a single line break becomes a space, and of several breaks the first is
dropped.  Blanks next to a break are not part of the text.
-/

namespace DropRules.Yaml

/-- The blanks and breaks read since the last word. -/
inductive Gap where
  /-- Nothing: the last character was part of a word. -/
  | none
  /-- Blanks within a line. -/
  | blanks (text : List Char)
  /-- At least one line break: the first, unless it was escaped, and the ones after it. -/
  | breaks (first : Option Char) (later : List Char)
deriving DecidableEq, Repr

namespace Gap

/-- Whether something separates the next character from the last word. -/
def isOpen : Gap → Bool
  | none => false
  | _ => true

/-- Whether the gap reaches beyond the line. -/
def isBroken : Gap → Bool
  | breaks _ _ => true
  | _ => false

/-- One more blank; after a break it is indentation, and does not count. -/
def blank (c : Char) : Gap → Gap
  | none => blanks [c]
  | blanks text => blanks (text ++ [c])
  | breaks first later => breaks first later

/-- One more line break; blanks before it do not count. -/
def lineBreak (b : Char) : Gap → Gap
  | breaks first later => breaks first (later ++ [b])
  | _ => breaks (some b) []

/-- The text that the gap stands for when a word follows. -/
def text : Gap → List Char
  | none => []
  | blanks text => text
  | breaks Option.none later => later
  | breaks (some b) later =>
    if b = '\n' then (if later = [] then [' '] else later) else b :: later

end Gap

end DropRules.Yaml
