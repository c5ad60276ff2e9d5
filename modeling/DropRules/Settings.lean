import DropRules.Notice
import DropRules.Text.Blank
import DropRules.Yaml.Decode
import DropRules.Yaml.Written

/-!
# Settings

`Settings` say whether rules of one's own and the engine's rules are to be asked, and list the
former.  They are read from a document by `Settings.ofText` and written by `Settings.text`.  A list
of rules alone, as a listing holds it, is read by `RuleList.ofText`.

## 1.  Records

Both documents are records of at most three fields, so they are read by the same function
(`Draft.read`): the fields of the record are told by a `Schema`, an absent field has its default,
and a field of another name is passed over, whatever it holds.  A blank text stands for settings
that say nothing.

## 2.  Lenient lists

An entry of the list that does not fit is left out and reported, and does not touch the others.
The list itself has to be one, and its entries have to be values.
-/

namespace DropRules

open Yaml

/-- What a dispatcher is to do. -/
structure Settings where
  /-- Whether the rules below are asked. -/
  ownEnabled : Bool
  /-- Whether the engine's own rules are asked. -/
  engineEnabled : Bool
  rules : List Entry
deriving DecidableEq, Repr

/-- Settings that say nothing: everything is asked, and there are no rules of one's own. -/
def Settings.standard : Settings :=
  ⟨true, true, []⟩

/-- The fields that a document may have. -/
inductive Field where
  | ownEnabled
  | engineEnabled
  | rules
deriving DecidableEq, Repr

/-- The fields of a kind of document. -/
structure Schema where
  wanted : Wanted
  /-- The field of a name; some fields answer to two. -/
  field? : String → Option Field
  /-- The name of a field in messages. -/
  name : Field → String

/-- The fields of settings. -/
def Schema.settings : Schema where
  wanted := .settings
  field?
    | "enableCustomFishRules" => some .ownEnabled
    | "enableCustomRules" => some .ownEnabled
    | "enableVanillaFishRules" => some .engineEnabled
    | "enableVanillaRules" => some .engineEnabled
    | "customFishRules" => some .rules
    | "customRules" => some .rules
    | _ => none
  name
    | .ownEnabled => "enableCustomFishRules"
    | .engineEnabled => "enableVanillaFishRules"
    | .rules => "customFishRules"

/-- The only field of a list of rules. -/
def Schema.ruleList : Schema where
  wanted := .ruleList
  field?
    | "rules" => some .rules
    | _ => none
  name _ := "rules"

/-- The fields of a document that were read. -/
structure Draft where
  ownEnabled : Option Bool
  engineEnabled : Option Bool
  rules : Option (List Value)

namespace Draft

/-- The draft of a document without fields. -/
def blank : Draft :=
  ⟨none, none, none⟩

/-- Whether a field was read. -/
def has (d : Draft) : Field → Bool
  | .ownEnabled => d.ownEnabled.isSome
  | .engineEnabled => d.engineEnabled.isSome
  | .rules => d.rules.isSome

variable (src : Source)

/-- The values of a list that may be absent, at the given path in a record at `mark`. -/
def readList (mark : Mark) (path : Path) (n : Node) : Decode (List Value) := do
  let target ← Decode.follow src n
  match Decode.isAbsent target with
  | .error c => Decode.refuse c .root mark
  | .ok true => pure []
  | .ok false => Decode.sequence src 127 path target

/-- Reads one field of a record at `mark`. -/
def readField (s : Schema) (mark : Mark) (d : Draft) (k v : Node) : Decode Draft := do
  let name ← Decode.fieldName src .root k
  let path := Path.root.child k
  match s.field? name with
  | none => if v.isCut then throw src.cutFault else pure d
  | some f =>
    if d.has f then Decode.refuse (.duplicateField (s.name f)) .root mark
    else
      match f with
      | .ownEnabled => pure { d with ownEnabled := some (← Decode.bool src path v) }
      | .engineEnabled => pure { d with engineEnabled := some (← Decode.bool src path v) }
      | .rules => pure { d with rules := some (← readList src mark path v) }

/-- Reads the fields of a record at `mark` one after the other.  What was read before a fault is
part of the answer. -/
def readFields (s : Schema) (mark : Mark) :
    Draft → Nat → List (Node × Node) → Draft × Option ReadFault
  | d, _, [] => (d, none)
  | d, followed, (k, v) :: rest =>
    match (readField src s mark d k v).run followed with
    | .ok (d, followed) => readFields s mark d followed rest
    | .error f => (d, some f)

/-- Reads a record from the root of a document. -/
def read (s : Schema) (root : Node) : Draft × Option ReadFault :=
  if Decode.isBlankNode root then (blank, none)
  else
    match root with
    | .mapping mark _ _ entries => readFields src s mark blank 0 entries
    | n =>
      match (Decode.misfit src (α := Draft) .root s.wanted n).run 0 with
      | .ok (d, _) => (d, none)
      | .error f => (blank, some f)

/-- Reads a record from a text: what was read of it, and what is wrong with it. -/
def ofText (s : Schema) (text : String) : Draft × Option ReadFault :=
  let document := Document.ofText text.toList
  match read (.ofDocument document) s document.root with
  | (d, some f) => (d, some f)
  | (d, none) =>
    match document.fault with
    | some f => (d, some (.text f))
    | none => (d, if document.more then some .severalDocuments else none)

/-- The entries of the list of a draft; those that do not fit are reported. -/
def entries (d : Draft) : Noted (List Entry) :=
  let (entries, misfits) := Entry.ofValues (d.rules.getD [])
  ⟨entries, misfits.map .entrySkipped⟩

end Draft

namespace Entry

/-- The rarity an entry names, if there is one of that name; others are reported. -/
def namedRarity : Option String → Noted (Option Rarity)
  | none => pure none
  | some name =>
    match Symbol.ofName? name with
    | some r => pure (some r)
    | none => do
      Logged.tell (.rarityUnknown name)
      pure none

/-- The conditions that exist among those named, in order; others are reported. -/
def namedConditions : List String → Noted (List Condition)
  | [] => pure []
  | name :: rest =>
    match Symbol.ofName? name with
    | some c => do
      let cs ← namedConditions rest
      pure (c :: cs)
    | none => do
      Logged.tell (.conditionUnknown name)
      namedConditions rest

/-- The rule that an entry writes down. -/
def toNamed (e : Entry) : Noted NamedRule := do
  let rarity ← namedRarity e.rarity
  let conditions ← namedConditions e.conditions
  pure ⟨e.items, e.numerator, e.denominator, rarity, conditions⟩

end Entry

/-- Why a document could not be loaded. -/
inductive LoadFault where
  /-- The text is not a document of the wanted shape. -/
  | invalid (fault : ReadFault)
  /-- There is no file. -/
  | noFile
  /-- The file is not a text. -/
  | noText

/-- The wording of a fault. -/
def LoadFault.message : LoadFault → String
  | invalid fault => "invalid rule configuration: " ++ fault.message
  | noFile => "No such file or directory (os error 2)"
  | noText => "stream did not contain valid UTF-8"

namespace Settings

/-- Reads settings from a text. -/
def ofText (text : String) : Noted (Except LoadFault Settings) := do
  if Text.Blank text then return .ok standard
  let (d, fault) := Draft.ofText .settings text
  let rules ← d.entries
  match fault with
  | some f => return .error (.invalid f)
  | none => return .ok ⟨d.ownEnabled.getD true, d.engineEnabled.getD true, rules⟩

/-- Reads settings from the octets of a file, if there is one. -/
def ofFile (octets : Option ByteArray) : Noted (Except LoadFault Settings) :=
  match octets with
  | none => pure (.error .noFile)
  | some octets =>
    match String.fromUTF8? octets with
    | none => pure (.error .noText)
    | some text => ofText text

/-- The rules that the settings list, in names. -/
def namedRules (s : Settings) : Noted (List NamedRule) :=
  s.rules.mapM Entry.toNamed

/-- The lines of an entry in a document. -/
def entryText (e : Entry) : List Char :=
  let item (i : Item) := "  - ".toList ++ (toString i.toInt).toList ++ ['\n']
  let items := if e.items.isEmpty then " []\n".toList else '\n' :: e.items.flatMap item
  let rarity := e.rarity.elim [] fun r => "  rarity: ".toList ++ writeText 4 r.toList
  let condition (c : String) := "  - ".toList ++ writeText 4 c.toList
  let conditions :=
    if e.conditions.isEmpty then [] else "  conditions:\n".toList ++ e.conditions.flatMap condition
  "- possibleItems:".toList ++ items
    ++ "  chanceNumerator: ".toList ++ (toString e.numerator.toInt).toList ++ ['\n']
    ++ "  chanceDenominator: ".toList ++ (toString e.denominator.toInt).toList ++ ['\n']
    ++ rarity ++ conditions

/-- Settings as a document. -/
def text (s : Settings) : String :=
  let flag (name : String) (b : Bool) :=
    name.toList ++ ": ".toList ++ (toString b).toList ++ ['\n']
  let rules :=
    if s.rules.isEmpty then " []\n".toList else '\n' :: s.rules.flatMap entryText
  String.ofList
    (flag "enableCustomFishRules" s.ownEnabled ++ flag "enableVanillaFishRules" s.engineEnabled
      ++ "customFishRules:".toList ++ rules)

end Settings

namespace RuleList

/-- Reads a list of rules from a text, such as a listing. -/
def ofText (text : String) : Noted (Except LoadFault (List NamedRule)) := do
  let (d, fault) := Draft.ofText .ruleList text
  let entries ← d.entries
  match fault with
  | some f => return .error (.invalid f)
  | none => return .ok (← entries.mapM Entry.toNamed)

end RuleList

end DropRules
