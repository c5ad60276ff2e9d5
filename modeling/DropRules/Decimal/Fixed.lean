import DropRules.Decimal.Notation

/-!
# A fixed number of places

`fixed` writes a double with a given number of digits after the point.  The exact value of the
double is rounded, not its shortest decimal, and a tie goes to the even digit.
-/

namespace DropRules.Decimal

/-- The quotient rounded to the nearest whole number, a tie to the even one. -/
def roundedQuotient (a b : Nat) : Nat :=
  let q := a / b
  match compare (2 * (a % b)) b with
  | .lt => q
  | .gt => q + 1
  | .eq => if q % 2 = 0 then q else q + 1

/-- The digits of `n` with a point in front of the last `places` of them. -/
def pointed (places n : Nat) : String :=
  let text := Nat.toDigits 10 n
  let padded := List.replicate (places + 1 - text.length) '0' ++ text
  let whole := padded.length - places
  String.ofList (padded.take whole ++ '.' :: padded.drop whole)

/-- A double with `places` digits after the point. -/
def fixed (places : Nat) (x : Float) : String :=
  let bits := x.toBits
  let sign := if isNegative bits then "-" else ""
  if bits >>> 52 &&& 0x7FF = 0x7FF then
    if bits &&& 0xFFFFFFFFFFFFF = 0 then sign ++ "inf" else "NaN"
  else
    let d := Dyadic.ofBits bits
    sign ++ pointed places (roundedQuotient (d.numerator * Nat.pow 10 places) d.denominator)

end DropRules.Decimal
