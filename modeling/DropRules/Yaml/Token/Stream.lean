import DropRules.Yaml.Scalar.Block
import DropRules.Yaml.Scalar.Plain
import DropRules.Yaml.Scalar.Quoted
import DropRules.Yaml.Token.Tag

/-!
# The tokens of a document

`TokenStream.ofText` cuts a text into tokens.  Two things make this more than splitting.

## 1.  Indentation

Outside brackets the beginning of a block collection is seen from the column of its first entry,
and its end from a line that is indented less.  `Scan.indent` is the column of the innermost open
collection, `Scan.outer` those around it, and `Scan.dedent` closes what a column leaves behind.

## 2.  Keys

Whether a word is a key shows only when the colon behind it is reached.  So the place where a key
might have begun is kept (`KeyPlace`), one for each level of brackets, and the tokens from there on
are held back until the colon comes or the line ends.  Where the colon comes, the sign of a key is
put in front of the tokens held back.  A key that is the only thing that may stand at its place is
`required`, and its line ending without a colon is a fault.

Tokens are given out as soon as no key can begin before them.  A fault takes with it the tokens
that were held back, and ends the stream.
-/

namespace DropRules.Yaml

/-- A place where a key may have begun. -/
structure KeyPlace where
  /-- Whether nothing but a key can stand there. -/
  required : Bool
  /-- How many tokens had been given out or held back before it. -/
  number : Nat
  mark : Mark
deriving Repr

/-- The state of cutting a text into tokens. -/
structure Scan where
  cursor : Cursor
  /-- The tokens held back, in order. -/
  held : List Token
  /-- How many tokens were given out. -/
  given : Nat
  /-- Whether a key may begin here. -/
  keyAllowed : Bool
  /-- Where a key may have begun inside the innermost brackets. -/
  key : Option KeyPlace
  /-- The same for the brackets around them, the innermost first. -/
  outerKeys : List (Option KeyPlace)
  /-- The column of the innermost block collection, or -1. -/
  indent : Int
  /-- The columns of the block collections around it, the innermost first. -/
  outer : List Int

namespace Scan

/-- The beginning of a text. -/
def ofText (s : List Char) : Scan where
  cursor := .ofText s
  held := []
  given := 0
  keyAllowed := true
  key := none
  outerKeys := []
  indent := -1
  outer := []

/-- The place that reading has reached. -/
def mark (s : Scan) : Mark :=
  s.cursor.mark

/-- Whether brackets are open. -/
def inFlow (s : Scan) : Bool :=
  !s.outerKeys.isEmpty

/-- Holds back one more token. -/
def push (s : Scan) (t : Token) : Scan :=
  { s with held := s.held ++ [t] }

/-- Puts a token without characters before the token with the given number. -/
def insert (s : Scan) (number : Nat) (kind : TokenKind) (m : Mark) : Scan :=
  let k := number - s.given
  { s with held := s.held.take k ++ ⟨kind, m, m⟩ :: s.held.drop k }

/-- The number that the next token will have. -/
def nextNumber (s : Scan) : Nat :=
  s.given + s.held.length

/-- A key place is stale once its line has ended or it lies more than 1024 octets back. -/
def Stale (m : Mark) (k : KeyPlace) : Prop :=
  k.mark.line < m.line ∨ k.mark.index + 1024 < m.index

instance (m : Mark) (k : KeyPlace) : Decidable (Stale m k) :=
  inferInstanceAs (Decidable (_ ∨ _))

/-- The fault of a required key that is given up. -/
def keyFault (m : Mark) (k : KeyPlace) : Fault :=
  .within .keyWithoutColon m .simpleKey k.mark

/-- Gives up a key place if it is stale. -/
def refresh (m : Mark) : Option KeyPlace → Except Fault (Option KeyPlace)
  | none => .ok none
  | some k =>
    if Stale m k then (if k.required then .error (keyFault m k) else .ok none) else .ok (some k)

/-- Gives up the stale key places, the outermost first. -/
def dropStale (s : Scan) : Except Fault Scan := do
  let outerKeys ← s.outerKeys.reverse.mapM (refresh s.mark)
  let key ← refresh s.mark s.key
  pure { s with key, outerKeys := outerKeys.reverse }

/-- Gives up the key place inside the innermost brackets. -/
def dropKey (s : Scan) : Except Fault Scan :=
  match s.key with
  | some k => if k.required then .error (keyFault s.mark k) else .ok { s with key := none }
  | none => .ok s

/-- Notes that a key may begin with the next token. -/
def saveKey (s : Scan) : Except Fault Scan :=
  if s.keyAllowed then do
    let required := !s.inFlow && s.indent == (s.mark.column : Int)
    let s ← s.dropKey
    pure { s with key := some ⟨required, s.nextNumber, s.mark⟩ }
  else .ok s

/-- Closes the block collections that begin right of a column. -/
def closeTo (column : Int) (m : Mark) : Int → List Int → List Token × Int × List Int
  | indent, [] => ([], indent, [])
  | indent, i :: outer =>
    if column < indent then
      let (tokens, rest) := closeTo column m i outer
      (⟨.blockEnd, m, m⟩ :: tokens, rest)
    else ([], indent, i :: outer)

/-- Closes the block collections that a column leaves behind; brackets keep them open. -/
def dedent (s : Scan) (column : Int) : Scan :=
  if s.inFlow then s
  else
    let (tokens, indent, outer) := closeTo column s.mark s.indent s.outer
    { s with held := s.held ++ tokens, indent, outer }

/-- Opens a block collection at a column, unless one is open there; its sign stands before the token
with the given number. -/
def openAt (s : Scan) (column number : Nat) (kind : TokenKind) (m : Mark) : Scan :=
  if !s.inFlow && s.indent < (column : Int) then
    { s.insert number kind m with indent := (column : Int), outer := s.indent :: s.outer }
  else s

/-- Moves over `n` characters and holds back the token they make. -/
def take (s : Scan) (n : Nat) (kind : TokenKind) : Scan :=
  let c := s.cursor.advance n
  { s with cursor := c }.push ⟨kind, s.mark, c.mark⟩

/-- Moves to the next token: over blanks, comments and line breaks.  The flag tells whether a
comment is being read.  Outside brackets a tab is no blank where a key may begin, and one may begin
after a line break.  A byte order mark at the beginning of a line counts as a blank. -/
def skipToToken (flow : Bool) : Bool → Bool → List Char → Mark → Cursor × Bool
  | _, allowed, [], m => (⟨[], m⟩, allowed)
  | comment, allowed, c :: rest, m =>
    if c == '\r' && rest.head? == some '\n' then skipToToken flow comment allowed rest m.hold
    else if isBreak c then skipToToken flow false (allowed || !flow) rest (m.newline c.utf8Size)
    else if comment || c == ' ' || (c == '\t' && (flow || !allowed)) then
      skipToToken flow comment allowed rest (m.next c)
    else if c == byteOrderMark && m.column == 0 then
      skipToToken flow comment allowed rest (m.next c)
    else if c == '#' then skipToToken flow true allowed rest (m.next c)
    else (⟨c :: rest, m⟩, allowed)

/-- The end of the text, which stands on a line of its own. -/
def fetchEnd (s : Scan) : Except Fault Scan := do
  let m := if s.mark.column = 0 then s.mark else s.mark.newline 0
  let s := { s with cursor := ⟨[], m⟩ }.dedent (-1)
  let s ← s.dropKey
  pure ({ s with keyAllowed := false }.push ⟨.streamEnd, m, m⟩)

/-- A directive. -/
def fetchDirective (s : Scan) : Except Fault Scan := do
  let s ← (s.dedent (-1)).dropKey
  let (t, c) ← readDirective s.cursor
  pure ({ s with keyAllowed := false, cursor := c }.push t)

/-- A document marker. -/
def fetchMarker (s : Scan) (kind : TokenKind) : Except Fault Scan := do
  let s ← (s.dedent (-1)).dropKey
  pure ({ s with keyAllowed := false }.take 3 kind)

/-- An opening bracket or brace. -/
def fetchOpen (s : Scan) (kind : TokenKind) : Except Fault Scan := do
  let s ← s.saveKey
  pure ({ s with outerKeys := s.key :: s.outerKeys, key := none, keyAllowed := true }.take 1 kind)

/-- A closing bracket or brace. -/
def fetchClose (s : Scan) (kind : TokenKind) : Except Fault Scan := do
  let s ← s.dropKey
  let s := match s.outerKeys with
    | k :: outer => { s with key := k, outerKeys := outer }
    | [] => s
  pure ({ s with keyAllowed := false }.take 1 kind)

/-- A comma inside brackets. -/
def fetchComma (s : Scan) : Except Fault Scan := do
  let s ← s.dropKey
  pure ({ s with keyAllowed := true }.take 1 .flowEntry)

/-- The dash of a block sequence. -/
def fetchDash (s : Scan) : Except Fault Scan := do
  let s ←
    if s.inFlow then pure s
    else if s.keyAllowed then
      pure (s.openAt s.mark.column s.nextNumber .blockSequenceStart s.mark)
    else .error (.plain .sequenceEntryNotAllowed s.mark)
  let s ← s.dropKey
  pure ({ s with keyAllowed := true }.take 1 .blockEntry)

/-- The question mark in front of a key. -/
def fetchQuestion (s : Scan) : Except Fault Scan := do
  let s ←
    if s.inFlow then pure s
    else if s.keyAllowed then
      pure (s.openAt s.mark.column s.nextNumber .blockMappingStart s.mark)
    else .error (.plain .mappingKeyNotAllowed s.mark)
  let s ← s.dropKey
  pure ({ s with keyAllowed := !s.inFlow }.take 1 .key)

/-- The colon in front of a value. -/
def fetchColon (s : Scan) : Except Fault Scan :=
  match s.key with
  | some k =>
    let s := s.insert k.number .key k.mark
    let s := s.openAt k.mark.column k.number .blockMappingStart k.mark
    .ok ({ s with key := none, keyAllowed := false }.take 1 .value)
  | none =>
    if s.inFlow then .ok ({ s with keyAllowed := false }.take 1 .value)
    else if s.keyAllowed then
      let s := s.openAt s.mark.column s.nextNumber .blockMappingStart s.mark
      .ok ({ s with keyAllowed := true }.take 1 .value)
    else .error (.plain .mappingValueNotAllowed s.mark)

/-- An anchor, an alias or a tag, read by `read`. -/
def fetchName (s : Scan) (read : Cursor → Except Fault (Token × Cursor)) : Except Fault Scan := do
  let s ← s.saveKey
  let (t, c) ← read s.cursor
  pure ({ s with keyAllowed := false, cursor := c }.push t)

/-- A block scalar. -/
def fetchBlock (s : Scan) (literal : Bool) : Except Fault Scan := do
  let s ← s.dropKey
  let (text, c) ← readBlock literal s.indent s.mark (s.cursor.advance 1)
  let style := if literal then ScalarStyle.literal else .folded
  pure ({ s with keyAllowed := true, cursor := c }.push ⟨.scalar text style, s.mark, c.mark⟩)

/-- A quoted scalar. -/
def fetchQuoted (s : Scan) (single : Bool) : Except Fault Scan := do
  let s ← s.saveKey
  let c := s.cursor.advance 1
  let (text, c) ← readQuoted single s.mark (.text .none) c.rest c.mark
  let style := if single then ScalarStyle.singleQuoted else .doubleQuoted
  pure ({ s with keyAllowed := false, cursor := c }.push ⟨.scalar text style, s.mark, c.mark⟩)

/-- A plain scalar. -/
def fetchPlain (s : Scan) : Except Fault Scan := do
  let s ← s.saveKey
  let r ← readPlain s.inFlow (s.indent + 1) s.mark .none s.cursor.rest s.mark
  pure ({ s with keyAllowed := r.broken, cursor := r.cursor }.push
    ⟨.scalar r.text .plain, s.mark, r.cursor.mark⟩)

/-- The characters that are signs, and so cannot begin a plain scalar. -/
def isSign (c : Char) : Bool :=
  c ∈ ['-', '?', ':', ',', '[', ']', '\x7b', '\x7d', '#', '&', '*', '!', '|', '>', '\'', '"', '%',
    '@', '\x60']

/-- Whether a plain scalar can begin with `c`, with `rest` behind it. -/
def plainNext (flow : Bool) (c : Char) (rest : List Char) : Bool :=
  (!isBlank c && !isBreak c && !isSign c)
    || (c == '-' && !(rest.head?.any isBlank))
    || (!flow && (c == '?' || c == ':') && !blankNext rest)

/-- The token that begins at the cursor, which stands on neither a blank nor a comment. -/
def fetchHere (s : Scan) : Except Fault Scan :=
  match s.cursor.rest with
  | [] => s.fetchEnd
  | c :: rest =>
    if s.mark.column == 0 && c == '%' then s.fetchDirective
    else if s.mark.column == 0 && tripleNext '-' (c :: rest) then s.fetchMarker .documentStart
    else if s.mark.column == 0 && tripleNext '.' (c :: rest) then s.fetchMarker .documentEnd
    else if c == '[' then s.fetchOpen .flowSequenceStart
    else if c == '\x7b' then s.fetchOpen .flowMappingStart
    else if c == ']' then s.fetchClose .flowSequenceEnd
    else if c == '\x7d' then s.fetchClose .flowMappingEnd
    else if c == ',' then s.fetchComma
    else if c == '-' && blankNext rest then s.fetchDash
    else if c == '?' && (s.inFlow || blankNext rest) then s.fetchQuestion
    else if c == ':' && (s.inFlow || blankNext rest) then s.fetchColon
    else if c == '*' then s.fetchName (readAnchor true)
    else if c == '&' then s.fetchName (readAnchor false)
    else if c == '!' then s.fetchName (readTag s.inFlow)
    else if c == '|' && !s.inFlow then s.fetchBlock true
    else if c == '>' && !s.inFlow then s.fetchBlock false
    else if c == '\'' then s.fetchQuoted true
    else if c == '"' then s.fetchQuoted false
    else if plainNext s.inFlow c rest then s.fetchPlain
    else .error (.within .cannotStartToken s.mark .nextToken s.mark)

/-- Moves to the next token and reads it. -/
def fetch (s : Scan) : Except Fault Scan := do
  let (c, allowed) := skipToToken s.inFlow false s.keyAllowed s.cursor.rest s.mark
  let s ← { s with cursor := c, keyAllowed := allowed }.dropStale
  (s.dedent s.mark.column).fetchHere

/-- How many of the tokens held back can be given out: those before the first possible key. -/
def settled (s : Scan) : Nat :=
  (s.key :: s.outerKeys).foldl
    (fun n k => match k with
      | some k => min n (k.number - s.given)
      | none => n)
    s.held.length

/-- Gives out the first `n` tokens held back. -/
def give (s : Scan) (n : Nat) : Scan :=
  { s with held := s.held.drop n, given := s.given + n }

end Scan

/-- The tokens of a text, up to its end or to the first fault. -/
structure TokenStream where
  tokens : List Token
  /-- What ended the stream before its time. -/
  fault : Option Fault

namespace TokenStream

/-- Reads at most `fuel` more tokens of the text. -/
def ofScan : Nat → Scan → TokenStream
  | 0, _ => ⟨[], none⟩
  | fuel + 1, s =>
    match s.fetch >>= Scan.dropStale with
    | .error f => ⟨[], some f⟩
    | .ok s =>
      let n := s.settled
      let out := s.held.take n
      if out.any (·.kind == .streamEnd) then ⟨out, none⟩
      else
        let later := ofScan fuel (s.give n)
        ⟨out ++ later.tokens, later.fault⟩

/-- The offset in bytes of the first character that no document may hold. -/
def controlAt? : List Char → Nat → Option Nat
  | [], _ => none
  | c :: rest, offset =>
    if isAllowed c then controlAt? rest (offset + c.utf8Size) else some offset

/-- The tokens of a text.  A character that no document may hold makes the whole text unreadable.
Every token but the last takes at least one character. -/
def ofText (s : List Char) : TokenStream :=
  match controlAt? s 0 with
  | some n => ⟨[], some (.control n)⟩
  | none => ofScan (s.length + 2) (.ofText s)

end TokenStream

end DropRules.Yaml
