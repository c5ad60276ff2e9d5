import DropRules.Decimal.Shortest
import DropRules.Yaml.Token

/-!
# What a scalar means

A plain scalar that looks like a null, a truth value or a number is one; every other scalar is a
text (`Atom.ofPlain`).  Integers are decimal, or hexadecimal, octal or binary after `0x`, `0o` or
`0b`, with an optional sign; digits behind a leading zero are a text and no number.  An integer of
more than 64 bits and at most 128 is told apart (`Atom.wide`), because nothing can hold it; a
longer one is read as a real.
-/

namespace DropRules.Yaml

/-- The meaning of a scalar. -/
inductive Atom where
  | null
  | bool (value : Bool)
  /-- An integer that fits 64 bits, with or without a sign. -/
  | integer (value : Int)
  /-- An integer that fits 128 bits and not 64. -/
  | wide (value : Int)
  | real (value : Float)
  | text (value : List Char)

namespace Atom

/-- Reads a null. -/
def isNull (s : List Char) : Bool :=
  s == "null".toList || s == "Null".toList || s == "NULL".toList || s == ['~']

/-- Reads a truth value. -/
def bool? (s : List Char) : Option Bool :=
  if s = "true".toList ∨ s = "True".toList ∨ s = "TRUE".toList then some true
  else if s = "false".toList ∨ s = "False".toList ∨ s = "FALSE".toList then some false
  else none

/-- The value of a digit in bases up to sixteen. -/
def digit? (base : Nat) (c : Char) : Option Nat :=
  let value :=
    if c.isDigit then some (c.toNat - '0'.toNat)
    else if 'a' ≤ c ∧ c ≤ 'f' then some (c.toNat - 'a'.toNat + 10)
    else if 'A' ≤ c ∧ c ≤ 'F' then some (c.toNat - 'A'.toNat + 10)
    else none
  value.filter (· < base)

/-- The value of a nonempty run of digits. -/
def digits? (base : Nat) (s : List Char) : Option Nat :=
  if s = [] then none
  else s.foldl (fun n c => do return (← n) * base + (← digit? base c)) (some 0)

/-- Whether a text starts with a sign. -/
def signed (s : List Char) : Bool :=
  s.head?.any fun c => c == '+' || c == '-'

/-- Digits behind a leading zero, with or without a sign in front. -/
def hasLeadingZero (s : List Char) : Bool :=
  match if signed s then s.tail else s with
  | '0' :: c :: rest => (c :: rest).all Char.isDigit
  | _ => false

/-- The magnitude of an integer, behind its sign. -/
def magnitude? (s : List Char) : Option Nat :=
  match s with
  | '0' :: 'x' :: rest => digits? 16 rest
  | '0' :: 'o' :: rest => digits? 8 rest
  | '0' :: 'b' :: rest => digits? 2 rest
  | _ => if hasLeadingZero s then none else digits? 10 s

/-- The number of values that 64 bits can tell apart. -/
def wordSize : Nat :=
  18446744073709551616

/-- Reads an integer of at most 128 bits.  Half of the values that the bits can tell apart are
negative. -/
def integer? (s : List Char) : Option Atom :=
  match s with
  | '-' :: rest =>
    (magnitude? rest).bind fun n =>
      if n ≤ wordSize / 2 then some (integer (-n))
      else if n ≤ wordSize * wordSize / 2 then some (wide (-n))
      else none
  | _ =>
    (magnitude? (if s.head? = some '+' then s.tail else s)).bind fun n =>
      if n < wordSize then some (integer n)
      else if n < wordSize * wordSize then some (wide n)
      else none

/-- The double nearest to `digits * 10 ^ exponent`, if it is finite. -/
def nearest? (digits : Nat) (exponent : Int) : Option Float :=
  let point := Decimal.digitCount digits + exponent
  if digits = 0 ∨ point < -400 then some 0
  else if 400 < point then none
  else
    let x := Float.ofScientific digits (exponent < 0) exponent.natAbs
    if x.toBits >>> 52 &&& 0x7FF = 0x7FF then none else some x

/-- The exponent behind the digits of a real; nothing for the empty text, which is an exponent of
zero. -/
def exponent? (s : List Char) : Option Int :=
  match s with
  | [] => some 0
  | e :: rest =>
    if e = 'e' ∨ e = 'E' then
      (digits? 10 (if signed rest then rest.tail else rest)).map fun n =>
        if rest.head? = some '-' then -(n : Int) else n
    else none

/-- The magnitude of a real in decimal notation, if it is finite. -/
def decimal? (s : List Char) : Option Float :=
  let whole := s.takeWhile Char.isDigit
  let rest := s.dropWhile Char.isDigit
  let (part, rest) :=
    match rest with
    | '.' :: rest => (rest.takeWhile Char.isDigit, rest.dropWhile Char.isDigit)
    | _ => ([], rest)
  match digits? 10 (whole ++ part), exponent? rest with
  | some n, some e => nearest? n (e - part.length)
  | _, _ => none

/-- The positive infinity. -/
def infinity : Float :=
  .ofBits 0x7FF0000000000000

/-- The value that is no number. -/
def notNumber : Float :=
  .ofBits 0x7FF8000000000000

/-- Reads a real: a finite decimal, or one of the spellings of what is not finite. -/
def real? (s : List Char) : Option Float :=
  let isInfinite (s : List Char) : Bool :=
    s == ".inf".toList || s == ".Inf".toList || s == ".INF".toList
  match s with
  | '+' :: rest =>
    if signed rest then none else if isInfinite rest then some infinity else decimal? rest
  | '-' :: rest =>
    if isInfinite rest then some (-infinity) else (decimal? rest).map fun x => -x
  | _ =>
    if isInfinite s then some infinity
    else if s = ".nan".toList ∨ s = ".NaN".toList ∨ s = ".NAN".toList then some notNumber
    else decimal? s

/-- The meaning of a plain scalar. -/
def ofPlain (s : List Char) : Atom :=
  if s = [] ∨ isNull s then null
  else
    match bool? s with
    | some b => bool b
    | none =>
      match integer? s with
      | some a => a
      | none =>
        match if hasLeadingZero s then none else real? s with
        | some x => real x
        | none => text s

end Atom

end DropRules.Yaml
