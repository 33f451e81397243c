import RecordMapper.Number.Binary

/-!
The fewest decimal digits that read back as a given binary number.

* `roundsTo` is the interval of reals nearest to a binary number, in exact arithmetic.
* `onGrid` tests the two neighbours of the number on the grid of multiples of a power of ten.
* `shortestDigits` takes the coarsest grid that has a point in the interval, and of two points the
  nearer; a `Tie` decides between two that are equally near.
-/
namespace RecordMapper.Number

set_option autoImplicit false

/-- The reals that round to `value`, all as numerators over one common denominator. -/
structure Rounding where
  low : Nat
  value : Nat
  high : Nat
  den : Nat
  /-- Whether the two ends round to the value as well. -/
  closed : Bool

/-- The interval of `mantissa * 2 ^ exponent`. Below the least mantissa of a binade the numbers lie
twice as dense. -/
def BinaryFormat.roundsTo (F : BinaryFormat) (mantissa : Nat) (exponent : Int) : Rounding :=
  let scale := Nat.pow 2 exponent.toNat
  let below :=
    if mantissa = Nat.pow 2 F.fractionBits ∧ F.leastExponent < exponent then 1 else 2
  { low := (4 * mantissa - below) * scale
    value := 4 * mantissa * scale
    high := (4 * mantissa + 2) * scale
    den := 4 * Nat.pow 2 (-exponent).toNat
    closed := mantissa % 2 = 0 }

def Rounding.contains (r : Rounding) (num den : Nat) : Bool :=
  let n := num * r.den
  if r.closed then decide (r.low * den ≤ n) && decide (n ≤ r.high * den)
  else decide (r.low * den < n) && decide (n < r.high * den)

/-- The count of decimal digits of a natural number; zero has one. -/
def digitCount (n : Nat) : Nat := (Nat.toDigits 10 n).length

/-- The largest `k` with `10 ^ k ≤ num / den`, for positive `num` and `den`. -/
def floorLog10 (num den : Nat) : Int :=
  let shift := den.log2 + 1
  (digitCount (num * Nat.pow 10 shift / den) : Int) - 1 - shift

/-- A decimal number `digits * 10 ^ exponent`. -/
structure Decimal where
  digits : Nat
  exponent : Int
  deriving DecidableEq, Repr

/-- The point of the grid `10 ^ exponent` that reads back as the value, if there is one: the nearer
of the two neighbours. -/
def Rounding.onGrid (r : Rounding) (tie : Tie) (exponent : Int) : Option Decimal :=
  let up := Nat.pow 10 exponent.toNat
  let down := Nat.pow 10 (-exponent).toNat
  let num := r.value * down
  let den := r.den * up
  let floor := num / den
  let hit (k : Nat) := r.contains (k * up) down
  match hit floor, hit (floor + 1) with
  | true, true => some ⟨roundQuotient tie num den, exponent⟩
  | true, false => some ⟨floor, exponent⟩
  | false, true => some ⟨floor + 1, exponent⟩
  | false, false => none

/-- The first hit on the grids of `10 ^ exponent`, `10 ^ (exponent - 1)` and so on. -/
def Rounding.firstHit (r : Rounding) (tie : Tie) : Nat → Int → Decimal
  | 0, exponent =>
    ⟨r.value * Nat.pow 10 (-exponent).toNat / (r.den * Nat.pow 10 exponent.toNat), exponent⟩
  | tries + 1, exponent =>
    match r.onGrid tie exponent with
    | some d => d
    | none => r.firstHit tie tries (exponent - 1)

/-- Seventeen digits always suffice for a double. -/
def shortestDigits (F : BinaryFormat) (tie : Tie) (mantissa : Nat) (exponent : Int) : Decimal :=
  let r := F.roundsTo mantissa exponent
  r.firstHit tie 17 (floorLog10 r.value r.den)

end RecordMapper.Number
