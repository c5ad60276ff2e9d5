import DropRules.Decimal.Notation
import DropRules.Text.Quoted

/-!
# Values without a shape of their own

What a document says before anybody asks for a particular shape.  Mappings keep their entries in
the order of the document, and no two keys of a mapping are the same.

`Value.same` is the equality of keys.  It differs from plain equality in three ways: the entries of
a mapping may come in any order, the two zeros are the same real, and so is what is not a number.
-/

namespace DropRules.Yaml

/-- A value of a document. -/
inductive Value where
  | null
  | bool (value : Bool)
  | integer (value : Int)
  | real (value : Float)
  | text (value : String)
  | sequence (items : List Value)
  | mapping (entries : List (Value × Value))
  /-- A value under a local tag. -/
  | tagged (tag : String) (content : Value)

namespace Value

/-- The value behind all tags. -/
def untagged : Value → Value
  | tagged _ content => content.untagged
  | v => v

/-- A tag without its exclamation mark; a lone exclamation mark stays. -/
def bareTag (tag : String) : List Char :=
  match tag.toList with
  | '!' :: c :: rest => c :: rest
  | s => s

/-- Whether a double is no number. -/
def notNumber (x : Float) : Bool :=
  x.toBits >>> 52 &&& 0x7FF = 0x7FF && x.toBits &&& 0xFFFFFFFFFFFFF != 0

/-- Whether two reals are the same key. -/
def sameReal (x y : Float) : Bool :=
  if notNumber x || notNumber y then notNumber x && notNumber y
  else x.toBits == y.toBits || (x.toBits <<< 1 == 0 && y.toBits <<< 1 == 0)

mutual

/-- Whether two values are the same key. -/
def same : Value → Value → Bool
  | null, null => true
  | bool a, bool b => a == b
  | integer a, integer b => a == b
  | real a, real b => sameReal a b
  | text a, text b => a == b
  | sequence as, sequence bs => sameList as bs
  | mapping as, mapping bs => as.length == bs.length && sameEntries as bs
  | tagged t a, tagged u b => bareTag t == bareTag u && same a b
  | _, _ => false

/-- Whether two lists of values are the same, item by item. -/
def sameList : List Value → List Value → Bool
  | [], [] => true
  | a :: as, b :: bs => same a b && sameList as bs
  | _, _ => false

/-- Whether every entry of the first list is among the second. -/
def sameEntries : List (Value × Value) → List (Value × Value) → Bool
  | [], _ => true
  | (k, v) :: rest, bs => bs.any (fun b => same k b.1 && same v b.2) && sameEntries rest bs

end

/-- How numbers are written when a message names a key. -/
def keyNotation : Decimal.Notation where
  tie := .toEven
  written := some (-5, 16)
  notNumber := ".nan"
  infinite := ".inf"

/-- How a message names a key that occurs twice. -/
def keyText : Value → String
  | null => "with null key"
  | bool b => "with key \x60" ++ toString b ++ "\x60"
  | integer n => "with key " ++ toString n
  | real x => "with key " ++ keyNotation.text x
  | text s => "with key " ++ Text.quoted s
  | _ => "in YAML map"

end Value

end DropRules.Yaml
