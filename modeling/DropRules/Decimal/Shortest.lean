import DropRules.Decimal.Dyadic

/-!
# The fewest digits that read back

Among the decimals that round to a given double, `shortest` selects one with the fewest digits, and
of those the nearest.  It looks at ever finer grids `10 ^ p`, from the grid of the leading digit
on: if any point of a grid rounds to the double, then one of the two points next to the double
does, so testing these two decides the grid.  The first grid with a hit wins.  Of two hits the
nearer is taken, and a tie goes as `Tie` says.

Seventeen digits tell any two doubles apart, so the search never comes to its end; there it answers
with the exact value all the same.
-/

namespace DropRules.Decimal

/-- A decimal number `digits * 10 ^ exponent`. -/
structure Dec where
  digits : Nat
  exponent : Int
deriving DecidableEq, Repr

/-- Which of two equally near neighbours is taken. -/
inductive Tie where
  | toEven
  | upward
deriving DecidableEq, Repr

/-- The number of decimal digits of a positive number. -/
def digitCount (n : Nat) : Nat :=
  (Nat.toDigits 10 n).length

namespace Dyadic

/-- The exponent `k` with `10 ^ (k - 1) ≤ x < 10 ^ k`, for a positive magnitude. -/
def decimalPoint (x : Dyadic) : Int :=
  let a := x.numerator
  let b := x.denominator
  if b ≤ a then digitCount (a / b)
  else 1 - (digitCount ((b - 1) / a) : Int)

/-- Numerator of a quarter of the last binary place, counted in steps of `10 ^ p`. -/
def quarterNum (x : Dyadic) (p : Int) : Nat :=
  Nat.pow 2 (x.exponent - 2).toNat * Nat.pow 10 (-p).toNat

/-- Denominator of a quarter of the last binary place, counted in steps of `10 ^ p`. -/
def quarterDen (x : Dyadic) (p : Int) : Nat :=
  Nat.pow 2 (2 - x.exponent).toNat * Nat.pow 10 p.toNat

/-- Whether `c * 10 ^ p` rounds to the magnitude: it lies between the two halfway points, which
count themselves when the mantissa is even. -/
def ReadsBack (x : Dyadic) (c : Nat) (p : Int) : Prop :=
  let low := (4 * x.mantissa - if x.narrow then 1 else 2) * x.quarterNum p
  let high := (4 * x.mantissa + 2) * x.quarterNum p
  let here := c * x.quarterDen p
  if x.mantissa % 2 = 0 then low ≤ here ∧ here ≤ high else low < here ∧ here < high

instance (x : Dyadic) (c : Nat) (p : Int) : Decidable (x.ReadsBack c p) := by
  unfold ReadsBack
  infer_instance

/-- The point of the grid `10 ^ p` that stands for the magnitude, if one does. -/
def onGrid? (tie : Tie) (x : Dyadic) (p : Int) : Option Nat :=
  let exact := 4 * x.mantissa * x.quarterNum p
  let below := exact / x.quarterDen p
  match decide (x.ReadsBack below p), decide (x.ReadsBack (below + 1) p) with
  | false, false => none
  | true, false => some below
  | false, true => some (below + 1)
  | true, true =>
    -- twice the value against the sum of its two neighbours
    match compare (2 * exact) ((2 * below + 1) * x.quarterDen p), tie with
    | .lt, _ => some below
    | .gt, _ => some (below + 1)
    | .eq, .upward => some (below + 1)
    | .eq, .toEven => some (if below % 2 = 0 then below else below + 1)

/-- Tries `n` grids, each ten times finer than the one before. -/
def search (tie : Tie) (x : Dyadic) : Nat → Int → Dec
  | 0, _ => ⟨x.numerator * Nat.pow 5 (-x.exponent).toNat, min x.exponent 0⟩
  | n + 1, p =>
    match x.onGrid? tie p with
    | some c => ⟨c, p⟩
    | none => search tie x n (p - 1)

end Dyadic

/-- Moves trailing zeros of the digits into the exponent, at most `fuel` of them. -/
def Dec.strip : Nat → Dec → Dec
  | 0, d => d
  | fuel + 1, d =>
    if d.digits % 10 = 0 ∧ d.digits ≠ 0 then Dec.strip fuel ⟨d.digits / 10, d.exponent + 1⟩ else d

/-- The decimal with the fewest digits that rounds to the magnitude. -/
def shortest (tie : Tie) (x : Dyadic) : Dec :=
  if x.mantissa = 0 then ⟨0, 0⟩
  else (x.search tie 17 (x.decimalPoint - 1)).strip 20

end DropRules.Decimal
