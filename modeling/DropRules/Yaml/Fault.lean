import DropRules.Yaml.Mark

/-!
# Why a text is no document

A `Fault` says what is wrong with a text before its meaning is looked at.  Most faults have a
`Problem`, the place where it was found, and a `Circumstance`: the larger thing that was being
read, with the place where that began.  The wording is in `Fault.message` alone.
-/

namespace DropRules.Yaml

/-- What is wrong. -/
inductive Problem where
  | keyWithoutColon
  | cannotStartToken
  | sequenceEntryNotAllowed
  | mappingKeyNotAllowed
  | mappingValueNotAllowed
  | missingDirectiveName
  | directiveNameNotWord
  | unknownDirective
  | directiveTail
  | missingVersionDot
  | versionTooLong
  | missingVersionNumber
  | missingBlank
  | missingBlankOrBreak
  | missingExclamation
  | missingAngle
  | missingAnchorName
  | missingUri
  | uriEscape
  | uriLeadingOctet
  | uriTrailingOctet
  | zeroIndent
  | blockHeaderTail
  | tabInIndent
  | markerInQuotes
  | endInQuotes
  | unknownEscape
  | missingHexDigit
  | invalidCodePoint
  | colonInFlow
  | tabBeforePlain
  | missingDocumentStart
  | duplicateVersion
  | incompatibleVersion
  | duplicateHandle
  | undefinedHandle
  | missingContent
  | missingDash
  | missingKey
  | missingBracket
  | missingBrace
deriving DecidableEq, Repr

/-- The wording of a problem. -/
def Problem.text : Problem → String
  | keyWithoutColon => "could not find expected ':'"
  | cannotStartToken => "found character that cannot start any token"
  | sequenceEntryNotAllowed => "block sequence entries are not allowed in this context"
  | mappingKeyNotAllowed => "mapping keys are not allowed in this context"
  | mappingValueNotAllowed => "mapping values are not allowed in this context"
  | missingDirectiveName => "could not find expected directive name"
  | directiveNameNotWord => "found unexpected non-alphabetical character"
  | unknownDirective => "found unknown directive name"
  | directiveTail => "did not find expected comment or line break"
  | missingVersionDot => "did not find expected digit or '.' character"
  | versionTooLong => "found extremely long version number"
  | missingVersionNumber => "did not find expected version number"
  | missingBlank => "did not find expected whitespace"
  | missingBlankOrBreak => "did not find expected whitespace or line break"
  | missingExclamation => "did not find expected '!'"
  | missingAngle => "did not find the expected '>'"
  | missingAnchorName => "did not find expected alphabetic or numeric character"
  | missingUri => "did not find expected tag URI"
  | uriEscape => "did not find URI escaped octet"
  | uriLeadingOctet => "found an incorrect leading UTF-8 octet"
  | uriTrailingOctet => "found an incorrect trailing UTF-8 octet"
  | zeroIndent => "found an indentation indicator equal to 0"
  | blockHeaderTail => "did not find expected comment or line break"
  | tabInIndent => "found a tab character where an indentation space is expected"
  | markerInQuotes => "found unexpected document indicator"
  | endInQuotes => "found unexpected end of stream"
  | unknownEscape => "found unknown escape character"
  | missingHexDigit => "did not find expected hexadecimal number"
  | invalidCodePoint => "found invalid Unicode character escape code"
  | colonInFlow => "found unexpected ':'"
  | tabBeforePlain => "found a tab character that violates indentation"
  | missingDocumentStart => "did not find expected <document start>"
  | duplicateVersion => "found duplicate %YAML directive"
  | incompatibleVersion => "found incompatible YAML document"
  | duplicateHandle => "found duplicate %TAG directive"
  | undefinedHandle => "found undefined tag handle"
  | missingContent => "did not find expected node content"
  | missingDash => "did not find expected '-' indicator"
  | missingKey => "did not find expected key"
  | missingBracket => "did not find expected ',' or ']'"
  | missingBrace => "did not find expected ',' or '\x7d'"

/-- What was being read when a problem was found. -/
inductive Circumstance where
  | simpleKey
  | nextToken
  | directive
  | versionDirective
  | handleDirective
  | handleInDirective
  | handleDirectiveEnd
  | uriInDirective
  | anchor
  | reference
  | tag
  | uri
  | blockScalar
  | quotedScalar
  | quotedEscape
  | plainScalar
  | node
  | blockNode
  | flowNode
  | blockCollection
  | blockMapping
  | flowSequence
  | flowMapping
deriving DecidableEq, Repr

/-- The wording of a circumstance. -/
def Circumstance.text : Circumstance → String
  | simpleKey => "while scanning a simple key"
  | nextToken => "while scanning for the next token"
  | directive => "while scanning a directive"
  | versionDirective => "while scanning a %YAML directive"
  | handleDirective => "while scanning a %TAG directive"
  | handleInDirective => "while scanning a tag directive"
  | handleDirectiveEnd => "while parsing a tag directive"
  | uriInDirective => "while parsing a %TAG directive"
  | anchor => "while scanning an anchor"
  | reference => "while scanning an alias"
  | tag => "while scanning a tag"
  | uri => "while parsing a tag"
  | blockScalar => "while scanning a block scalar"
  | quotedScalar => "while scanning a quoted scalar"
  | quotedEscape => "while parsing a quoted scalar"
  | plainScalar => "while scanning a plain scalar"
  | node => "while parsing a node"
  | blockNode => "while parsing a block node"
  | flowNode => "while parsing a flow node"
  | blockCollection => "while parsing a block collection"
  | blockMapping => "while parsing a block mapping"
  | flowSequence => "while parsing a flow sequence"
  | flowMapping => "while parsing a flow mapping"

/-- Why a text is no document. -/
inductive Fault where
  /-- A character that no document may hold, at this offset in bytes. -/
  | control (offset : Nat)
  /-- A problem at a place, on its own. -/
  | plain (problem : Problem) (place : Mark)
  /-- A problem at a place, met while reading something that began earlier. -/
  | within (problem : Problem) (place : Mark) (circumstance : Circumstance) (since : Mark)
  /-- A reference to a name that no node before it bears. -/
  | unknownAnchor (place : Mark)
deriving DecidableEq, Repr

/-- The wording of a fault.  The place where a circumstance began is left out when it is that of the
problem. -/
def Fault.message : Fault → String
  | control 0 => "control characters are not allowed"
  | control offset => "control characters are not allowed at position " ++ toString offset
  | plain problem place => problem.text ++ place.place
  | within problem place circumstance since =>
    let began :=
      if since.line = place.line ∧ since.column = place.column then "" else since.place
    problem.text ++ place.place ++ ", " ++ circumstance.text ++ began
  | unknownAnchor place => "unknown anchor" ++ place.place

end DropRules.Yaml
