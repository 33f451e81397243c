import RecordMapper.Number.Binary
import RecordMapper.Text.Digits

/-!
Reading numbers from text.

* `readInt` reads an integer with an optional sign.
* `readInt64` refuses integers that do not fit in 64 bits.
* `readBinary64` reads a decimal number with optional sign, fraction and exponent, or one of the
  words for an infinity and for what is not a number, and rounds once.
-/
namespace RecordMapper.Number

set_option autoImplicit false

open RecordMapper.Text

/-- Splits off a leading sign; the flag is set for a minus. -/
def splitSign : List Char → Bool × List Char
  | '-' :: rest => (true, rest)
  | '+' :: rest => (false, rest)
  | cs => (false, cs)

def readInt (cs : List Char) : Option Int :=
  let (negative, digits) := splitSign cs
  (readNat digits).map fun n => if negative then -(n : Int) else n

def readInt64 (cs : List Char) : Option Int :=
  (readInt cs).bind fun n => if Int64.least ≤ n ∧ n ≤ Int64.greatest then some n else none

/-- The number nearest to `± digits * 10 ^ exponent`, where `digits` holds no leading zero. Outside
the exponents that a double can hold the answer is zero or an infinity, without computing the
power. -/
def ofDecimalDigits (negative : Bool) (digits : List Char) (exponent : Int) : Binary64 :=
  if digits.isEmpty then .ofRatio negative 0 1
  else if 310 < exponent + digits.length then .infinity negative
  else if exponent + digits.length < -324 then .ofRatio negative 0 1
  else
    .ofRatio negative (foldDigits 0 digits * Nat.pow 10 exponent.toNat)
      (Nat.pow 10 (-exponent).toNat)

/-- Reads `[digits] [. digits] [e [sign] digits]` with a digit before or after the point. -/
def readUnsigned (negative : Bool) (cs : List Char) : Option Binary64 :=
  let whole := cs.takeWhile Char.isDigit
  let rest := cs.dropWhile Char.isDigit
  let (fraction, rest) :=
    match rest with
    | '.' :: rest => (rest.takeWhile Char.isDigit, rest.dropWhile Char.isDigit)
    | _ => ([], rest)
  let digits := (whole ++ fraction).dropWhile (· == '0')
  if whole.isEmpty && fraction.isEmpty then none
  else
    match rest with
    | [] => some (ofDecimalDigits negative digits (-(fraction.length : Int)))
    | e :: rest =>
      if e == 'e' || e == 'E' then
        (readInt rest).map fun n => ofDecimalDigits negative digits (n - fraction.length)
      else none

def readBinary64 (cs : List Char) : Option Binary64 :=
  let (negative, rest) := splitSign cs
  let word := String.ofList (rest.map Char.toLower)
  if word = "inf" ∨ word = "infinity" then some (.infinity negative)
  else if word = "nan" then some .nan
  else readUnsigned negative rest

end RecordMapper.Number
