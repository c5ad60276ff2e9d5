import DropRules.Yaml.Node
import DropRules.Yaml.Token.Stream

/-!
# From tokens to the tree of a document

`Document.ofText` reads the first document of a text.  Reading is by recursive descent over the
tokens (`Reader.node` and the functions beside it), each of which takes the tokens it understands
and returns the rest.  A fault empties the tokens (`Reader.fail`), so that from there on everything
read is a cut and no function has to ask whether something went wrong before.

The recursion is on `fuel`.  Three units of fuel are enough for every token: a function takes a
token, or it is one of at most two that lead to the function that will take one.
-/

namespace DropRules.Yaml

/-- The tokens that are left to read, and what is known from those before. -/
structure Reader where
  tokens : List Token
  /-- What is wrong where the tokens end before their time. -/
  fault : Option Fault
  /-- The declared handles with the stems they stand for. -/
  handles : List (List Char × Tag)
  /-- The anchors seen so far, with the slots of the nodes that bear them. -/
  anchors : List (List Char × Slot)

/-- What stands in front of a node. -/
structure Properties where
  anchor : Option (List Char)
  /-- Handle and suffix of the tag, and the place where it stands. -/
  tag : Option (List Char × Tag × Mark)

namespace Reader

/-- Ends reading with a fault. -/
def fail (r : Reader) (f : Fault) : Reader :=
  { r with tokens := [], fault := some f }

/-- Goes on behind the first token. -/
def skip (r : Reader) : Reader :=
  { r with tokens := r.tokens.tail }

/-- Whether the next token is one of these. -/
def atKind (r : Reader) (kinds : List TokenKind) : Bool :=
  r.tokens.head?.any (·.kind ∈ kinds)

/-- The place of the next token. -/
def place (r : Reader) : Mark :=
  (r.tokens.head?.map (·.start)).getD .start

/-- A scalar without any text, where nothing is written; a cut, where there is a fault. -/
def emptyScalar (r : Reader) (m : Mark) : Node :=
  if r.tokens.isEmpty then .cut else .scalar m none none .plain []

/-- The properties in front of a node: an anchor and a tag, in either order, or one of them. -/
def properties (r : Reader) : Properties × Reader :=
  match r.tokens with
  | ⟨.anchor a, _, _⟩ :: ⟨.tag h s, m, _⟩ :: rest =>
    (⟨some a, some (h, s, m)⟩, { r with tokens := rest })
  | ⟨.tag h s, m, _⟩ :: ⟨.anchor a, _, _⟩ :: rest =>
    (⟨some a, some (h, s, m)⟩, { r with tokens := rest })
  | ⟨.anchor a, _, _⟩ :: rest => (⟨some a, none⟩, { r with tokens := rest })
  | ⟨.tag h s, m, _⟩ :: rest => (⟨none, some (h, s, m)⟩, { r with tokens := rest })
  | _ => (⟨none, none⟩, r)

/-- The full tag behind a handle and a suffix. -/
def fullTag? (r : Reader) (handle : List Char) (suffix : Tag) : Option Tag :=
  if handle = [] then some suffix
  else (r.handles.lookup handle).map (· ++ suffix)

/-- Gives an anchor its slot, counted by the names seen before.  A name that is used again moves to
its new node, and does not count twice. -/
def bind (r : Reader) : Option (List Char) → Option Slot × Reader
  | none => (none, r)
  | some name =>
    let slot := r.anchors.length
    let anchors :=
      if r.anchors.any (·.1 == name) then
        r.anchors.map fun a => if a.1 = name then (name, slot) else a
      else r.anchors ++ [(name, slot)]
    (some slot, { r with anchors })

mutual

/-- Reads a node.  `block` tells that no brackets are open, `dashes` that a sequence may stand there
without being indented, as the value of a key. -/
def node : Nat → Bool → Bool → Reader → Node × Reader
  | 0, _, _, r => (.cut, r)
  | fuel + 1, block, dashes, r =>
    match r.tokens with
    | [] => (.cut, r)
    | ⟨.reference name, m, _⟩ :: rest =>
      match r.anchors.lookup name with
      | some slot => (.reference m slot, { r with tokens := rest })
      | none => (.cut, r.fail (.unknownAnchor m))
    | ⟨_, since, _⟩ :: _ =>
      let (p, r) := r.properties
      match r.tokens with
      | [] => (.cut, r)
      | t :: _ =>
        match p.tag with
        | none => content fuel block dashes since p.anchor none t r
        | some (handle, suffix, m) =>
          match r.fullTag? handle suffix with
          | some tag => content fuel block dashes since p.anchor (some tag) t r
          | none => (.cut, r.fail (.within .undefinedHandle m .node since))

/-- Reads what stands behind the properties of a node, of which `t` is the first token. -/
def content : Nat → Bool → Bool → Mark → Option (List Char) → Option Tag → Token → Reader →
    Node × Reader
  | 0, _, _, _, _, _, _, r => (.cut, r)
  | fuel + 1, block, dashes, since, anchor, tag, t, r =>
    let (slot, bound) := r.bind anchor
    match t.kind with
    | .scalar text style =>
      (.scalar since slot tag style text, bound.skip)
    | .flowSequenceStart =>
      let (items, r) := flowItems fuel t.start true bound.skip
      (.sequence since slot tag items, r)
    | .flowMappingStart =>
      let (entries, r) := flowEntries fuel t.start true bound.skip
      (.mapping since slot tag entries, r)
    | kind =>
      if dashes && kind == .blockEntry then
        let (items, r) := dashItems fuel bound
        (.sequence since slot tag items, r)
      else if block && kind == .blockSequenceStart then
        let (items, r) := blockItems fuel t.start bound.skip
        (.sequence since slot tag items, r)
      else if block && kind == .blockMappingStart then
        let (entries, r) := blockEntries fuel t.start bound.skip
        (.mapping since slot tag entries, r)
      else if anchor.isSome || tag.isSome then (.scalar since slot tag .plain [], bound)
      else
        let circumstance := if block then Circumstance.blockNode else .flowNode
        (.cut, r.fail (.within .missingContent t.start circumstance since))

/-- Reads the entries of a block sequence, which began at `since`, and its end. -/
def blockItems : Nat → Mark → Reader → List Node × Reader
  | 0, _, r => ([.cut], r)
  | fuel + 1, since, r =>
    match r.tokens with
    | [] => ([.cut], r)
    | ⟨.blockEntry, _, stop⟩ :: rest =>
      let r := { r with tokens := rest }
      let (item, r) :=
        if r.atKind [.blockEntry, .blockEnd] then (r.emptyScalar stop, r)
        else node fuel true false r
      let (items, r) := blockItems fuel since r
      (item :: items, r)
    | ⟨.blockEnd, _, _⟩ :: rest => ([], { r with tokens := rest })
    | t :: _ => ([.cut], r.fail (.within .missingDash t.start .blockCollection since))

/-- Reads the entries of a sequence whose dashes stand in the column of the key above them. -/
def dashItems : Nat → Reader → List Node × Reader
  | 0, r => ([.cut], r)
  | fuel + 1, r =>
    match r.tokens with
    | [] => ([.cut], r)
    | ⟨.blockEntry, _, stop⟩ :: rest =>
      let r := { r with tokens := rest }
      let (item, r) :=
        if r.atKind [.blockEntry, .key, .value, .blockEnd] then (r.emptyScalar stop, r)
        else node fuel true false r
      let (items, r) := dashItems fuel r
      (item :: items, r)
    | _ => ([], r)

/-- Reads the entries of a block mapping, which began at `since`, and its end. -/
def blockEntries : Nat → Mark → Reader → List (Node × Node) × Reader
  | 0, _, r => ([(.cut, .cut)], r)
  | fuel + 1, since, r =>
    match r.tokens with
    | [] => ([(.cut, .cut)], r)
    | ⟨.key, _, stop⟩ :: rest =>
      let (key, r) := blockPart fuel stop { r with tokens := rest }
      let (value, r) :=
        match r.tokens with
        | ⟨.value, _, stop⟩ :: rest => blockPart fuel stop { r with tokens := rest }
        | _ => (r.emptyScalar r.place, r)
      let (entries, r) := blockEntries fuel since r
      ((key, value) :: entries, r)
    | ⟨.blockEnd, _, _⟩ :: rest => ([], { r with tokens := rest })
    | t :: _ => ([(.cut, .cut)], r.fail (.within .missingKey t.start .blockMapping since))

/-- Reads a key or a value of a block mapping, whose sign ended at `stop`. -/
def blockPart : Nat → Mark → Reader → Node × Reader
  | 0, _, r => (.cut, r)
  | fuel + 1, stop, r =>
    if r.atKind [.key, .value, .blockEnd] then (r.emptyScalar stop, r)
    else node fuel true true r

/-- Reads the entries of a sequence in brackets, which began at `since`, and its end.  Between two
entries a comma is needed; a pair of key and value counts as a mapping of its own. -/
def flowItems : Nat → Mark → Bool → Reader → List Node × Reader
  | 0, _, _, r => ([.cut], r)
  | fuel + 1, since, first, r =>
    match r.tokens with
    | [] => ([.cut], r)
    | ⟨.flowSequenceEnd, _, _⟩ :: rest => ([], { r with tokens := rest })
    | t :: rest =>
      if !first && t.kind != .flowEntry then
        ([.cut], r.fail (.within .missingBracket t.start .flowSequence since))
      else
        let r := if first then r else { r with tokens := rest }
        match r.tokens with
        | [] => ([.cut], r)
        | ⟨.flowSequenceEnd, _, _⟩ :: rest => ([], { r with tokens := rest })
        | ⟨.key, m, _⟩ :: rest =>
          let (entry, r) := flowPair fuel { r with tokens := rest }
          let (items, r) := flowItems fuel since false r
          (.mapping m none none [entry] :: items, r)
        | _ =>
          let (item, r) := node fuel false false r
          let (items, r) := flowItems fuel since false r
          (item :: items, r)

/-- Reads a pair inside brackets from behind the sign of its key.  Where the key is missing, the
token in its place is taken for it. -/
def flowPair : Nat → Reader → (Node × Node) × Reader
  | 0, r => ((.cut, .cut), r)
  | fuel + 1, r =>
    let (key, r) :=
      if r.atKind [.value, .flowEntry, .flowSequenceEnd] then
        let stop := (r.tokens.head?.map (·.stop)).getD .start
        (.scalar stop none none .plain [], r.skip)
      else node fuel false false r
    let (value, r) :=
      if r.atKind [.value] then
        let r := r.skip
        if r.atKind [.flowEntry, .flowSequenceEnd] then (r.emptyScalar r.place, r)
        else node fuel false false r
      else (r.emptyScalar r.place, r)
    ((key, value), r)

/-- Reads the entries of a mapping in braces, which began at `since`, and its end. -/
def flowEntries : Nat → Mark → Bool → Reader → List (Node × Node) × Reader
  | 0, _, _, r => ([(.cut, .cut)], r)
  | fuel + 1, since, first, r =>
    match r.tokens with
    | [] => ([(.cut, .cut)], r)
    | ⟨.flowMappingEnd, _, _⟩ :: rest => ([], { r with tokens := rest })
    | t :: rest =>
      if !first && t.kind != .flowEntry then
        ([(.cut, .cut)], r.fail (.within .missingBrace t.start .flowMapping since))
      else
        let r := if first then r else { r with tokens := rest }
        match r.tokens with
        | [] => ([(.cut, .cut)], r)
        | ⟨.flowMappingEnd, _, _⟩ :: rest => ([], { r with tokens := rest })
        | ⟨.key, _, _⟩ :: rest =>
          let r := { r with tokens := rest }
          let (key, r) :=
            if r.atKind [.value, .flowEntry, .flowMappingEnd] then (r.emptyScalar r.place, r)
            else node fuel false false r
          let (value, r) :=
            if r.atKind [.value] then
              let r := r.skip
              if r.atKind [.flowEntry, .flowMappingEnd] then (r.emptyScalar r.place, r)
              else node fuel false false r
            else (r.emptyScalar r.place, r)
          let (entries, r) := flowEntries fuel since false r
          ((key, value) :: entries, r)
        | _ =>
          let (key, r) := node fuel false false r
          let (entries, r') := flowEntries fuel since false r
          ((key, r.emptyScalar r.place) :: entries, r')

end

/-- Reads the directives in front of a document; `version` tells whether a version was given. -/
def directives : List Token → Bool → Reader → Reader
  | [], _, r => { r with tokens := [] }
  | ⟨.versionDirective major minor, m, _⟩ :: rest, version, r =>
    if version then r.fail (.plain .duplicateVersion m)
    else if major = 1 ∧ (minor = 1 ∨ minor = 2) then directives rest true r
    else r.fail (.plain .incompatibleVersion m)
  | ⟨.handleDirective handle stem, m, _⟩ :: rest, version, r =>
    if r.handles.any (·.1 == handle) then r.fail (.plain .duplicateHandle m)
    else directives rest version { r with handles := r.handles ++ [(handle, stem)] }
  | tokens, _, r => { r with tokens := tokens }

/-- The handles that need no declaration. -/
def commonHandles : List (List Char × Tag) :=
  [(['!'], octets ['!']), (['!', '!'], octets "tag:yaml.org,2002:".toList)]

/-- Adds the handles that need no declaration; a declaration of the same handle comes first. -/
def withCommonHandles (r : Reader) : Reader :=
  { r with handles := r.handles ++ commonHandles }

/-- Whether a token shows that the document begins with directives or with a marker. -/
def opensDocument : TokenKind → Bool
  | .versionDirective .. | .handleDirective .. | .documentStart => true
  | _ => false

/-- Whether a token shows that nothing stands between two markers. -/
def closesDocument : TokenKind → Bool
  | .versionDirective .. | .handleDirective .. | .documentStart | .documentEnd | .streamEnd => true
  | _ => false

/-- Reads the root of a document that is not empty, from its directives on. -/
def root (r : Reader) : Node × Reader :=
  let fuel := 3 * r.tokens.length + 4
  if r.tokens.head?.any (opensDocument ·.kind) then
    let r := directives r.tokens false r
    match r.tokens with
    | [] => (.cut, r)
    | ⟨.documentStart, _, _⟩ :: rest =>
      let r := { r with tokens := rest }.withCommonHandles
      if r.tokens.head?.any (closesDocument ·.kind) then (r.emptyScalar r.place, r)
      else node fuel true false r
    | t :: _ => (.cut, r.fail (.plain .missingDocumentStart t.start))
  else node fuel true false r.withCommonHandles

end Reader

/-- The first document of a text. -/
structure Document where
  root : Node
  /-- What is wrong with the document; the root is cut where that was found. -/
  fault : Option Fault
  /-- Whether the text goes on with something that is not the end of it. -/
  more : Bool

namespace Document

/-- Whether something follows the end of a document but the end of the text. -/
def continues : List Token → Bool
  | ⟨.documentEnd, _, _⟩ :: rest => continues rest
  | ⟨.streamEnd, _, _⟩ :: _ => false
  | _ => true

/-- The first document among the tokens of a text. -/
def ofTokens (s : TokenStream) : Document :=
  match s.tokens with
  | ⟨.streamEnd, m, _⟩ :: _ => ⟨.void m, none, false⟩
  | tokens =>
    let (root, r) := Reader.root ⟨tokens, s.fault, [], []⟩
    -- tokens never end at a whole document, for its end has one of its own
    if r.tokens.isEmpty then ⟨root, r.fault, false⟩
    else ⟨root, none, continues r.tokens⟩

/-- The first document of a text. -/
def ofText (s : List Char) : Document :=
  ofTokens (.ofText s)

end Document

end DropRules.Yaml
