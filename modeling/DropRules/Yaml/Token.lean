import DropRules.Yaml.Mark

/-!
# Tokens

The signs and words a document is made of.  Some tokens stand for no character at all: where the
indentation of a block collection begins or ends, and where a key turns out to have begun.
-/

namespace DropRules.Yaml

/-- A tag, as the octets it is written in. -/
abbrev Tag := List UInt8

/-- How a scalar is written. -/
inductive ScalarStyle where
  | plain
  | singleQuoted
  | doubleQuoted
  | literal
  | folded
deriving DecidableEq, Repr

/-- What a token is. -/
inductive TokenKind where
  | versionDirective (major minor : Nat)
  /-- A shorthand for the beginning of tags. -/
  | handleDirective (handle : List Char) (stem : Tag)
  | documentStart
  | documentEnd
  | streamEnd
  | blockSequenceStart
  | blockMappingStart
  | blockEnd
  | flowSequenceStart
  | flowSequenceEnd
  | flowMappingStart
  | flowMappingEnd
  | blockEntry
  | flowEntry
  | key
  | value
  | reference (name : List Char)
  | anchor (name : List Char)
  | tag (handle : List Char) (suffix : Tag)
  | scalar (text : List Char) (style : ScalarStyle)
deriving DecidableEq, Repr

/-- A token, the place where it begins, and the place where reading went on after it. -/
structure Token where
  kind : TokenKind
  start : Mark
  stop : Mark
deriving DecidableEq, Repr

end DropRules.Yaml
