import DropRules.Yaml.Atom
import DropRules.Yaml.Value

/-!
# Why a value does not fit

A `Complaint` says what was found where something else was wanted.  It carries no place; where a
value comes from a document, the place is added by who reads the document.
-/

namespace DropRules.Yaml

/-- What was found. -/
inductive Found where
  | unit
  | bool (value : Bool)
  | integer (value : Int)
  /-- An integer that 64 bits cannot hold. -/
  | wide (value : Int)
  | real (value : Float)
  | text (value : String)
  | sequence
  | mapping

namespace Found

/-- How numbers are written when a message names what was found. -/
def realNotation : Decimal.Notation where
  tie := .upward
  written := none
  notNumber := "NaN"
  infinite := "inf"

/-- The wording of what was found. -/
def wording : Found → String
  | unit => "unit value"
  | bool b => "boolean \x60" ++ toString b ++ "\x60"
  | integer n => "integer \x60" ++ toString n ++ "\x60"
  | wide n => "integer \x60" ++ toString n ++ "\x60 as " ++ (if n < 0 then "i128" else "u128")
  | real x => "floating point \x60" ++ realNotation.text x ++ "\x60"
  | text s => "string " ++ Text.quoted s
  | sequence => "sequence"
  | mapping => "map"

/-- What is found where a scalar has this meaning. -/
def ofAtom : Atom → Found
  | .null => unit
  | .bool b => bool b
  | .integer n => integer n
  | .wide n => wide n
  | .real x => real x
  | .text s => text (String.ofList s)

/-- What is found where this value stands; tags are looked through. -/
def ofValue (v : Value) : Found :=
  match v.untagged with
  | .null => unit
  | .bool b => bool b
  | .integer n => integer n
  | .real x => real x
  | .text s => text s
  | .sequence _ => sequence
  | _ => mapping

end Found

/-- What was wanted. -/
inductive Wanted where
  | settings
  | ruleList
  | entry
  | fieldName
  | sequence
  | boolean
  | int32
  | string
  | anyValue
  /-- The text of a scalar that is tagged as an integer. -/
  | integerText
  /-- The text of a scalar that is tagged as a real. -/
  | realText
  /-- The text of a scalar that is tagged as null. -/
  | nullText
deriving DecidableEq, Repr

/-- The wording of what was wanted. -/
def Wanted.wording : Wanted → String
  | settings => "struct DropConfig"
  | ruleList => "struct RuleDocument"
  | entry => "struct RuleEntry"
  | fieldName => "field identifier"
  | sequence => "a sequence"
  | boolean => "a boolean"
  | int32 => "i32"
  | string => "a string"
  | anyValue => "any YAML value"
  | integerText => "an integer"
  | realText => "a float"
  | nullText => "null"

/-- Why a value does not fit. -/
inductive Complaint where
  | wrongType (found : Found) (wanted : Wanted)
  | wrongValue (found : Found) (wanted : Wanted)
  | duplicateField (name : String)
  | duplicateKey (key : Value)

/-- The wording of a complaint. -/
def Complaint.message : Complaint → String
  | wrongType found wanted => "invalid type: " ++ found.wording ++ ", expected " ++ wanted.wording
  | wrongValue found wanted => "invalid value: " ++ found.wording ++ ", expected " ++ wanted.wording
  | duplicateField name => "duplicate field \x60" ++ name ++ "\x60"
  | duplicateKey key => "duplicate entry " ++ key.keyText

end DropRules.Yaml
