import DropRules.Rule
import DropRules.Yaml.Complaint

/-!
# Rules as they stand in a settings file

An `Entry` is a rule with arbitrary texts where a rule has names.  It is read from a value on its
own (`Entry.ofValue`), so that an entry that does not fit says nothing about the others:
`Entry.ofValues` reads a list and returns what fits and what does not, each with its position.

A field that is absent has its default: no items, a chance of one in one, no rarity, no conditions.
Lists and the rarity may also be null, which is the same as absent.  Other fields are ignored,
whatever they hold.
-/

namespace DropRules

open Yaml (Value Complaint Found Wanted)

/-- A rule as written, with texts for names. -/
structure Entry where
  items : List Item
  numerator : Int32
  denominator : Int32
  rarity : Option String
  conditions : List String
deriving DecidableEq, Repr

namespace Entry

/-- The fields of an entry that were read. -/
structure Draft where
  items : Option (List Item)
  numerator : Option Int32
  denominator : Option Int32
  rarity : Option (Option String)
  conditions : Option (List String)

/-- The draft of an entry without fields. -/
def Draft.blank : Draft :=
  ⟨none, none, none, none, none⟩

/-- The entry with defaults for the fields that were not read. -/
def Draft.finish (d : Draft) : Entry where
  items := d.items.getD []
  numerator := d.numerator.getD 1
  denominator := d.denominator.getD 1
  rarity := d.rarity.getD none
  conditions := d.conditions.getD []

/-- Reads an integer of 32 bits. -/
def int32 (v : Value) : Except Complaint Int32 :=
  match v.untagged with
  | .integer n =>
    if -2147483648 ≤ n ∧ n ≤ 2147483647 then .ok (Int32.ofInt n)
    else .error (.wrongValue (.integer n) .int32)
  | _ => .error (.wrongType (.ofValue v) .int32)

/-- Reads a text. -/
def text (v : Value) : Except Complaint String :=
  match v.untagged with
  | .text s => .ok s
  | _ => .error (.wrongType (.ofValue v) .string)

/-- Reads a list; null is the empty list. -/
def list {α : Type} (item : Value → Except Complaint α) (v : Value) : Except Complaint (List α) :=
  match v.untagged with
  | .sequence vs => vs.mapM item
  | .null => .ok []
  | _ => .error (.wrongType (.ofValue v) .sequence)

/-- Reads a text that may be absent. -/
def text? (v : Value) : Except Complaint (Option String) :=
  match v with
  | .null => .ok none
  | v => (text v).map some

/-- Sets a field of a draft that must not have been set before. -/
def once {α : Type} (name : String) (field : Option α) (read : Except Complaint α) :
    Except Complaint (Option α) :=
  match field with
  | some _ => .error (.duplicateField name)
  | none => read.map some

/-- Reads one field into a draft; fields of other names are passed over. -/
def readField (d : Draft) (name : String) (v : Value) : Except Complaint Draft := do
  match name with
  | "possibleItems" => pure { d with items := ← once name d.items (list int32 v) }
  | "chanceNumerator" => pure { d with numerator := ← once name d.numerator (int32 v) }
  | "chanceDenominator" => pure { d with denominator := ← once name d.denominator (int32 v) }
  | "rarity" => pure { d with rarity := ← once name d.rarity (text? v) }
  | "conditions" => pure { d with conditions := ← once name d.conditions (list text v) }
  | _ => pure d

/-- Reads the fields of an entry, in the order in which they are written. -/
def readFields : Draft → List (Value × Value) → Except Complaint Draft
  | d, [] => .ok d
  | d, (k, v) :: rest =>
    match k.untagged with
    | .text name => do readFields (← readField d name v) rest
    | _ => .error (.wrongType (.ofValue k) .fieldName)

/-- Reads an entry from a value: a mapping, or null for an entry that says nothing. -/
def ofValue (v : Value) : Except Complaint Entry :=
  match v.untagged with
  | .mapping fields => (readFields .blank fields).map Draft.finish
  | .null => .ok Draft.blank.finish
  | _ => .error (.wrongType (.ofValue v) .entry)

/-- Why the entry at a position does not fit. -/
structure Misfit where
  index : Nat
  complaint : Complaint

/-- The wording of a misfit. -/
def Misfit.message (m : Misfit) : String :=
  "rule entry #" ++ toString m.index ++ ": " ++ m.complaint.message

/-- Reads the values from position `i` on, each on its own. -/
def ofValuesFrom : Nat → List Value → List Entry × List Misfit
  | _, [] => ([], [])
  | i, v :: rest =>
    let (entries, misfits) := ofValuesFrom (i + 1) rest
    match ofValue v with
    | .ok e => (e :: entries, misfits)
    | .error c => (entries, ⟨i, c⟩ :: misfits)

/-- Reads every value on its own: the entries that fit, and the misfits with their positions. -/
def ofValues (vs : List Value) : List Entry × List Misfit :=
  ofValuesFrom 0 vs

/-- The entry that writes a rule down. -/
def ofRule (r : NamedRule) : Entry where
  items := r.items
  numerator := r.numerator
  denominator := r.denominator
  rarity := r.rarity.map Rarity.name
  conditions := r.conditions.map Condition.name

end Entry

end DropRules
