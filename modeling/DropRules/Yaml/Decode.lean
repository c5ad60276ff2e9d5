import DropRules.Yaml.Complaint
import DropRules.Yaml.Document

/-!
# Reading values from a document

A value is read from the tree of a document by `Decode.value`.  Reading follows aliases, so its
depth and its length are bounded: collections may lie at most 128 deep, and aliases may be followed
a hundred times for every sign of the document.  The depth is what the recursion is on; a node that
an alias refers to is read at the depth of the alias.

Whatever goes wrong is told together with the way from the root to the node (`Path`) and with the
place of the node, except for what concerns the document as a whole.
-/

namespace DropRules.Yaml

/-- The way from the root of a document to a node. -/
inductive Path where
  | root
  /-- An item of a sequence. -/
  | item (parent : Path) (index : Nat)
  /-- The value of a key that is a scalar. -/
  | field (parent : Path) (key : List Char)
  /-- The value of any other key. -/
  | other (parent : Path)
deriving DecidableEq, Repr

namespace Path

/-- How a path is written. -/
def text : Path → String
  | root => "."
  | item parent i => parent.text ++ "[" ++ toString i ++ "]"
  | field root key => String.ofList key
  | field parent key => parent.text ++ "." ++ String.ofList key
  | other root => "?"
  | other parent => parent.text ++ ".?"

/-- The path to the value of a key. -/
def child (p : Path) : Node → Path
  | .scalar _ _ _ _ text => field p text
  | _ => other p

end Path

/-- Why a document cannot be read. -/
inductive ReadFault where
  /-- The text is no document. -/
  | text (fault : Fault)
  /-- A node does not fit. -/
  | misfit (complaint : Complaint) (path : Path) (mark : Mark)
  /-- Collections lie too deep in one another. -/
  | tooDeep (mark : Mark)
  /-- Aliases are followed too often. -/
  | tooManyAliases
  /-- The text goes on behind the document. -/
  | severalDocuments
  /-- There is nothing to read. -/
  | nothing

/-- The wording of a fault, with the path in front and the place behind. -/
def ReadFault.message : ReadFault → String
  | text fault => fault.message
  | misfit complaint path mark =>
    (if path = .root then "" else path.text ++ ": ") ++ complaint.message ++ mark.place
  | tooDeep mark => "recursion limit exceeded" ++ mark.place
  | tooManyAliases => "repetition limit exceeded"
  | severalDocuments =>
    "deserializing from YAML containing more than one document is not supported"
  | nothing => "EOF while parsing a value"

/-- Reading may fail, and counts the aliases that it follows. -/
abbrev Decode := StateT Nat (Except ReadFault)

/-- What reading needs to know of a document. -/
structure Source where
  /-- The anchored nodes. -/
  anchored : List (Slot × Node)
  /-- How many aliases may be followed. -/
  aliasLimit : Nat
  /-- What to tell where the tree is cut. -/
  fault : Option Fault

namespace Source

/-- What reading a document needs to know of it. -/
def ofDocument (d : Document) : Source where
  anchored := d.root.anchored
  aliasLimit := d.root.weight * 100
  fault := d.fault

/-- The fault of a tree that is cut. -/
def cutFault (s : Source) : ReadFault :=
  match s.fault with
  | some f => .text f
  | none => .nothing

/-- The node that bears a slot; where two bear it, the later one. -/
def target? (s : Source) (slot : Slot) : Option Node :=
  s.anchored.reverse.lookup slot

end Source

namespace Decode

variable (src : Source)

/-- The node itself, or the node that an alias refers to. -/
def follow : Node → Decode Node
  | .reference _ slot => do
    let count ← get
    if src.aliasLimit < count + 1 then throw .tooManyAliases
    set (count + 1)
    match src.target? slot with
    | some node => pure node
    | none => throw src.cutFault
  | node => pure node

/-- A complaint about a node. -/
def refuse {α : Type} (complaint : Complaint) (path : Path) (mark : Mark) : Decode α :=
  throw (.misfit complaint path mark)

/-- The tags that force a scalar to be of a type. -/
def coreTag (name : String) : Tag :=
  octets ("tag:yaml.org,2002:" ++ name).toList

/-- What a scalar means under a tag. -/
def atom (tag : Option Tag) (style : ScalarStyle) (s : List Char) : Except Complaint Atom :=
  let refused (wanted : Wanted) : Except Complaint Atom :=
    .error (.wrongValue (.text (String.ofList s)) wanted)
  let free : Atom := if style = .plain then .ofPlain s else .text s
  match tag with
  | none => .ok free
  | some tag =>
    if tag = coreTag "bool" then
      match Atom.bool? s with
      | some b => .ok (.bool b)
      | none => refused .boolean
    else if tag = coreTag "int" then
      match Atom.integer? s with
      | some a => .ok a
      | none => refused .integerText
    else if tag = coreTag "float" then
      match Atom.real? s with
      | some x => .ok (.real x)
      | none => refused .realText
    else if tag = coreTag "null" then
      if Atom.isNull s then .ok .null else refused .nullText
    else if tag.head? = some '!'.toUInt8 then .ok free
    else .ok (.text s)

/-- The name of a local tag, which begins with an exclamation mark. -/
def localTag? : Option Tag → Option String
  | some (b :: rest) =>
    if b = '!'.toUInt8 then
      String.fromUTF8? (ByteArray.mk (if rest = [] then [b] else rest).toArray)
    else none
  | _ => none

/-- Puts a value under its local tag, if it has one. -/
def underTag (tag : Option Tag) (v : Value) : Value :=
  match localTag? tag with
  | some name => .tagged name v
  | none => v

/-- The value of a scalar. -/
def scalar (path : Path) (mark : Mark) (tag : Option Tag) (style : ScalarStyle) (s : List Char) :
    Decode Value := do
  let meant := atom (if (localTag? tag).isSome then none else tag) style s
  match meant with
  | .error c => refuse c path mark
  | .ok (.wide n) => refuse (.wrongType (.wide n) .anyValue) path mark
  | .ok .null => pure (underTag tag .null)
  | .ok (.bool b) => pure (underTag tag (.bool b))
  | .ok (.integer n) => pure (underTag tag (.integer n))
  | .ok (.real x) => pure (underTag tag (.real x))
  | .ok (.text s) => pure (underTag tag (.text (String.ofList s)))

/-- The values of the items of a sequence from the `i`-th on. -/
def items (value : Path → Node → Decode Value) (path : Path) : Nat → List Node → Decode (List Value)
  | _, [] => pure []
  | i, n :: rest => do
    let v ← value (.item path i) n
    let vs ← items value path (i + 1) rest
    pure (v :: vs)

/-- The entries of a mapping at `mark`, none of whose keys may be among those seen.  A complaint names
the key as it was seen first. -/
def entries (value : Path → Node → Decode Value) (path : Path) (mark : Mark) :
    List Value → List (Node × Node) → Decode (List (Value × Value))
  | _, [] => pure []
  | seen, (k, v) :: rest => do
    let key ← value path k
    if let some first := seen.find? key.same then refuse (.duplicateKey first) path mark
    let val ← value (path.child k) v
    let more ← entries value path mark (key :: seen) rest
    pure ((key, val) :: more)

/-- The value of a node that is no alias, with `depth` levels of collections left. -/
def content : Nat → Path → Node → Decode Value
  | _, path, .scalar mark _ tag style s => scalar path mark tag style s
  | 0, _, .sequence mark _ _ _ => throw (.tooDeep mark)
  | 0, _, .mapping mark _ _ _ => throw (.tooDeep mark)
  | depth + 1, path, .sequence _ _ tag ns => do
    let vs ← items (fun p n => do content depth p (← follow src n)) path 0 ns
    pure (underTag tag (.sequence vs))
  | depth + 1, path, .mapping mark _ tag ns => do
    let vs ← entries (fun p n => do content depth p (← follow src n)) path mark [] ns
    pure (underTag tag (.mapping vs))
  | _, _, .void _ => pure .null
  | _, _, _ => throw src.cutFault

/-- The value of a node, with `depth` levels of collections left. -/
def value (depth : Nat) (path : Path) (n : Node) : Decode Value := do
  content src depth path (← follow src n)

/-- The meaning of a scalar where something else was wanted, as a complaint. -/
def misfitScalar (tag : Option Tag) (style : ScalarStyle) (s : List Char) (wanted : Wanted) :
    Complaint :=
  match atom tag style s with
  | .ok a => .wrongType (.ofAtom a) wanted
  | .error c => c

/-- A complaint about a node that is no alias, where something else was wanted. -/
def misfit {α : Type} (path : Path) (wanted : Wanted) : Node → Decode α
  | .scalar mark _ tag style s => refuse (misfitScalar tag style s wanted) path mark
  | .sequence mark _ _ _ => refuse (.wrongType .sequence wanted) path mark
  | .mapping mark _ _ _ => refuse (.wrongType .mapping wanted) path mark
  | .void _ => throw .nothing
  | _ => throw src.cutFault

/-- Whether a node that is no alias stands for nothing at all. -/
def isBlankNode : Node → Bool
  | .void _ => true
  | .scalar _ _ _ style s => style == .plain && s.isEmpty
  | _ => false

/-- Reads a truth value. -/
def bool (path : Path) (n : Node) : Decode Bool := do
  match ← follow src n with
  | .scalar mark slot tag style s =>
    let untyped := style == .plain || (style == .literal && tag == some (coreTag "bool"))
    match if untyped then Atom.bool? s else none with
    | some b => pure b
    | none => misfit src path .boolean (.scalar mark slot tag style s)
  | n => misfit src path .boolean n

/-- Reads the name of a field. -/
def fieldName (path : Path) (n : Node) : Decode String := do
  match ← follow src n with
  | .scalar _ _ _ _ s => pure (String.ofList s)
  | n => misfit src path .fieldName n

/-- Reads a sequence of values at a node that is no alias, with `depth` levels of collections left.
-/
def sequence (depth : Nat) (path : Path) (n : Node) : Decode (List Value) :=
  if isBlankNode n then pure []
  else
    match n with
    | .sequence mark _ _ ns =>
      match depth with
      | 0 => throw (.tooDeep mark)
      | depth + 1 => items (value src depth) path 0 ns
    | n => misfit src path .sequence n

/-- Whether a node that is no alias stands for the absence of a value.  A scalar that is tagged as
null must be a null; the complaint about it is made at the place of the surrounding record. -/
def isAbsent (n : Node) : Except Complaint Bool :=
  match n with
  | .scalar _ _ tag style s =>
    if style ≠ .plain then .ok false
    else
      match tag with
      | some tag =>
        if tag = coreTag "null" then
          if Atom.isNull s then .ok true
          else .error (.wrongValue (.text (String.ofList s)) .nullText)
        else .ok false
      | none => .ok (s.isEmpty || Atom.isNull s)
  | .void _ => .ok true
  | _ => .ok false

end Decode

/-- Reads the values of a document that is a bare list. -/
def Value.listOfText (text : String) : Except ReadFault (List Value) := do
  let document := Document.ofText text.toList
  let src := Source.ofDocument document
  let (values, _) ← (Decode.sequence src 128 .root document.root).run 0
  match document.fault with
  | some f => .error (.text f)
  | none => if document.more then .error .severalDocuments else .ok values

end DropRules.Yaml
