import DropRules.Decimal.Shortest

/-!
# How a double is laid out

`Notation.text` writes the shortest decimal of a double.  What is left to convention is held in a
`Notation`: which doubles are written with an exponent, how ties between digits go, and how the
values that are no numbers are spelled.  A point is always written, followed by at least one digit,
except in front of a bare exponent.
-/

namespace DropRules.Decimal

/-- The conventions for writing a double. -/
structure Notation where
  tie : Tie
  /-- The places of the decimal point, counted from the first digit, between which a number is
  written out; beyond them it gets an exponent.  Without bounds, every number is written out. -/
  written : Option (Int × Int)
  /-- How a double that is no number is written. -/
  notNumber : String
  /-- How the positive infinity is written. -/
  infinite : String

/-- A run of zeros. -/
def zeros (n : Nat) : String :=
  String.ofList (List.replicate n '0')

/-- A decimal written out, with a point and a digit on either side of it. -/
def Dec.positional (d : Dec) : String :=
  let text := Nat.toDigits 10 d.digits
  let point := text.length + d.exponent
  if 0 ≤ d.exponent then String.ofList text ++ zeros d.exponent.toNat ++ ".0"
  else if 0 < point then
    String.ofList (text.take point.toNat) ++ "." ++ String.ofList (text.drop point.toNat)
  else "0." ++ zeros (-point).toNat ++ String.ofList text

/-- A decimal with one digit before the point and an exponent; a single digit has no point. -/
def Dec.scientific (d : Dec) : String :=
  let text := Nat.toDigits 10 d.digits
  let power := text.length + d.exponent - 1
  match text with
  | [c] => String.ofList [c] ++ "e" ++ toString power
  | c :: rest => String.ofList (c :: '.' :: rest) ++ "e" ++ toString power
  | [] => ""

namespace Notation

/-- The text of a decimal in a notation. -/
def layout (n : Notation) (d : Dec) : String :=
  match n.written with
  | none => d.positional
  | some (low, high) =>
    let point := digitCount d.digits + d.exponent
    if d.digits = 0 ∨ (low < point ∧ point ≤ high) then d.positional else d.scientific

/-- The text of a double in a notation. -/
def text (n : Notation) (x : Float) : String :=
  let bits := x.toBits
  let sign := if isNegative bits then "-" else ""
  if bits >>> 52 &&& 0x7FF = 0x7FF then
    if bits &&& 0xFFFFFFFFFFFFF = 0 then sign ++ n.infinite else n.notNumber
  else sign ++ n.layout (shortest n.tie (.ofBits bits))

end Notation

end DropRules.Decimal
