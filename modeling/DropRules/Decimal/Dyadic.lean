/-!
# The exact value of a double

A finite double is a natural number times a power of two.  `Dyadic.ofBits` reads that number off the
bits, and everything that is written about a double (`DropRules.Decimal.Shortest`,
`DropRules.Decimal.Fixed`) is computed from it in exact natural arithmetic.

The reals that round to a double lie between halfway to the double below and halfway to the double
above.  Just above a power of two the double below is half as far away as the one above, which
`Dyadic.narrow` records.
-/

namespace DropRules.Decimal

/-- A finite magnitude `mantissa * 2 ^ exponent`. -/
structure Dyadic where
  mantissa : Nat
  exponent : Int
  /-- The double below is half as far away as the double above. -/
  narrow : Bool
deriving DecidableEq, Repr

namespace Dyadic

/-- The magnitude behind the bits of a finite double. -/
def ofBits (bits : UInt64) : Dyadic :=
  let field := (bits >>> 52 &&& 0x7FF).toNat
  let fraction := (bits &&& 0xFFFFFFFFFFFFF).toNat
  if field = 0 then ⟨fraction, -1074, false⟩
  else ⟨Nat.pow 2 52 + fraction, (field : Int) - 1075, decide (fraction = 0 ∧ 1 < field)⟩

/-- The numerator of the fraction that the magnitude is. -/
def numerator (x : Dyadic) : Nat :=
  x.mantissa * Nat.pow 2 x.exponent.toNat

/-- The denominator of the fraction that the magnitude is. -/
def denominator (x : Dyadic) : Nat :=
  Nat.pow 2 (-x.exponent).toNat

end Dyadic

/-- Whether the bits are those of a double with a minus sign. -/
def isNegative (bits : UInt64) : Bool :=
  bits >>> 63 = 1

end DropRules.Decimal
