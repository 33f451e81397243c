/-!
Binary floating-point numbers as bit patterns.

* `roundQuotient` is the integer nearest to a quotient; a `Tie` decides between two that are equally
  near.
* `BinaryFormat` is an interchange format: a sign, an exponent field and a fraction field.
* `BinaryFormat.decode` reads a bit pattern; a finite one denotes `± mantissa * 2 ^ exponent`.
* `BinaryFormat.nearest` is the bit pattern nearest to a ratio of natural numbers, a tie going to
  the even mantissa.
* `Binary64` and `Binary32` are the two formats in use.
-/
namespace RecordMapper.Number

set_option autoImplicit false

/-- Which of two equally near neighbours is taken. -/
inductive Tie where
  | toEven
  | awayFromZero
  deriving DecidableEq, Repr

def Tie.choose (tie : Tie) (lower : Nat) : Nat :=
  match tie with
  | .toEven => if lower % 2 = 0 then lower else lower + 1
  | .awayFromZero => lower + 1

/-- The integer nearest to `num / den`. -/
def roundQuotient (tie : Tie) (num den : Nat) : Nat :=
  let q := num / den
  let r := num % den
  if 2 * r < den then q
  else if den < 2 * r then q + 1
  else tie.choose q

/-- The largest `k` with `2 ^ k ≤ num / den`, for positive `num` and `den`. -/
def floorLog2 (num den : Nat) : Int :=
  let k : Int := (num.log2 : Int) - (den.log2 : Int)
  if den * Nat.pow 2 k.toNat ≤ num * Nat.pow 2 (-k).toNat then k else k - 1

structure BinaryFormat where
  fractionBits : Nat
  exponentBits : Nat

/-- What a bit pattern denotes. -/
inductive Decoded where
  | nan
  | infinite (negative : Bool)
  | finite (negative : Bool) (mantissa : Nat) (exponent : Int)
  deriving DecidableEq, Repr

namespace BinaryFormat

/-- The exponent field of infinities and of patterns that are not a number. -/
def topExponent (F : BinaryFormat) : Nat := Nat.pow 2 F.exponentBits - 1

def signWeight (F : BinaryFormat) : Nat := Nat.pow 2 (F.fractionBits + F.exponentBits)

/-- The exponent of the last place of the smallest numbers. -/
def leastExponent (F : BinaryFormat) : Int :=
  2 - (Nat.pow 2 (F.exponentBits - 1) : Nat) - F.fractionBits

def infinity (F : BinaryFormat) : Nat := F.topExponent * Nat.pow 2 F.fractionBits

/-- The quiet pattern with an empty payload. -/
def quiet (F : BinaryFormat) : Nat := F.infinity + Nat.pow 2 (F.fractionBits - 1)

def decode (F : BinaryFormat) (bits : Nat) : Decoded :=
  let negative := decide (F.signWeight ≤ bits)
  let fraction := bits % Nat.pow 2 F.fractionBits
  let exponent := bits / Nat.pow 2 F.fractionBits % Nat.pow 2 F.exponentBits
  if exponent = F.topExponent then
    if fraction = 0 then .infinite negative else .nan
  else if exponent = 0 then .finite negative fraction F.leastExponent
  else .finite negative (Nat.pow 2 F.fractionBits + fraction) (F.leastExponent + (exponent - 1))

def signed (F : BinaryFormat) (negative : Bool) (bits : Nat) : Nat :=
  if negative then F.signWeight + bits else bits

/-- The bit pattern, without sign, nearest to `num / den`; beyond the largest number it is the
infinity. A mantissa that rounds up to a power of two carries into the exponent field. -/
def magnitude (F : BinaryFormat) (num den : Nat) : Nat :=
  if num = 0 then 0
  else
    let q := max (floorLog2 num den - F.fractionBits) F.leastExponent
    let m := roundQuotient .toEven (num * Nat.pow 2 (-q).toNat) (den * Nat.pow 2 q.toNat)
    min ((q - F.leastExponent).toNat * Nat.pow 2 F.fractionBits + m) F.infinity

def nearest (F : BinaryFormat) (negative : Bool) (num den : Nat) : Nat :=
  F.signed negative (F.magnitude num den)

def nearestScaled (F : BinaryFormat) (negative : Bool) (mantissa : Nat) (exponent : Int) : Nat :=
  F.nearest negative (mantissa * Nat.pow 2 exponent.toNat) (Nat.pow 2 (-exponent).toNat)

/-- The bit pattern of what was decoded from another format. -/
def encode (F : BinaryFormat) : Decoded → Nat
  | .nan => F.quiet
  | .infinite negative => F.signed negative F.infinity
  | .finite negative mantissa exponent => F.nearestScaled negative mantissa exponent

end BinaryFormat

def single : BinaryFormat := ⟨23, 8⟩

def double : BinaryFormat := ⟨52, 11⟩

/-! ## The two formats in use -/

structure Binary32 where
  bits : UInt32
  deriving DecidableEq, Repr

structure Binary64 where
  bits : UInt64
  deriving DecidableEq, Repr

namespace Binary32

def decode (x : Binary32) : Decoded := single.decode x.bits.toNat

def ofDecoded (d : Decoded) : Binary32 := ⟨UInt32.ofNat (single.encode d)⟩

end Binary32

namespace Binary64

def decode (x : Binary64) : Decoded := double.decode x.bits.toNat

def ofDecoded (d : Decoded) : Binary64 := ⟨UInt64.ofNat (double.encode d)⟩

/-- The number nearest to `± num / den`. -/
def ofRatio (negative : Bool) (num den : Nat) : Binary64 :=
  ⟨UInt64.ofNat (double.nearest negative num den)⟩

def ofInt (n : Int) : Binary64 := ofRatio (decide (n < 0)) n.natAbs 1

def nan : Binary64 := ⟨UInt64.ofNat double.quiet⟩

def infinity (negative : Bool) : Binary64 :=
  ⟨UInt64.ofNat (double.signed negative double.infinity)⟩

def isFinite (x : Binary64) : Bool :=
  match x.decode with
  | .finite .. => true
  | _ => false

end Binary64

def Binary32.widen (x : Binary32) : Binary64 := .ofDecoded x.decode

def Binary64.narrow (x : Binary64) : Binary32 := .ofDecoded x.decode

/-! ## Comparison -/

/-- Numeric equality: the two zeros are equal, and what is not a number equals nothing. -/
def Decoded.sameNumber : Decoded → Decoded → Bool
  | .infinite a, .infinite b => a == b
  | .finite a m q, .finite b n p => (m == 0 && n == 0) || (a == b && m == n && q == p)
  | _, _ => false

def Binary32.sameNumber (x y : Binary32) : Bool := x.decode.sameNumber y.decode

def Binary64.sameNumber (x y : Binary64) : Bool := x.decode.sameNumber y.decode

def Binary64.isZero (x : Binary64) : Bool :=
  match x.decode with
  | .finite _ m _ => m == 0
  | _ => false

/-! ## Integers -/

def Int64.least : Int := -9223372036854775808

def Int64.greatest : Int := 9223372036854775807

/-- The integer `± ⌊mantissa * 2 ^ exponent⌋`. -/
def towardZero (negative : Bool) (mantissa : Nat) (exponent : Int) : Int :=
  let n : Int := (mantissa * Nat.pow 2 exponent.toNat / Nat.pow 2 (-exponent).toNat : Nat)
  if negative then -n else n

/-- The integer part, held within the range of 64-bit integers; it is zero for what is not a
number. -/
def Binary64.toInteger (x : Binary64) : Int :=
  match x.decode with
  | .nan => 0
  | .infinite negative => if negative then Int64.least else Int64.greatest
  | .finite negative m q => max Int64.least (min Int64.greatest (towardZero negative m q))

/-- The integer a finite number denotes, if it denotes one. -/
def Binary64.integer? (x : Binary64) : Option Int :=
  match x.decode with
  | .finite negative m q =>
    if m * Nat.pow 2 q.toNat % Nat.pow 2 (-q).toNat = 0 then some (towardZero negative m q)
    else none
  | _ => none

/-! ## Products and quotients -/

/-- The product of two finite numbers, rounded once. -/
def Binary64.times (x y : Binary64) : Binary64 :=
  match x.decode, y.decode with
  | .finite a m q, .finite b n p =>
    .ofRatio (a != b) (m * n * Nat.pow 2 (q + p).toNat) (Nat.pow 2 (-(q + p)).toNat)
  | _, _ => .nan

/-- The quotient of two finite numbers, rounded once. -/
def Binary64.dividedBy (x y : Binary64) : Binary64 :=
  match x.decode, y.decode with
  | .finite a m q, .finite b n p =>
    .ofRatio (a != b) (m * Nat.pow 2 (q - p).toNat) (n * Nat.pow 2 (p - q).toNat)
  | _, _ => .nan

end RecordMapper.Number
