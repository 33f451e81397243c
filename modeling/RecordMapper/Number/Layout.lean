import RecordMapper.Number.Shortest
import RecordMapper.Text.Digits

/-!
Laying out a binary number as text.

* `FloatLayout` is the set of choices a format makes.
* `FloatLayout.write` lays out the shortest digits of a number by such choices.
* `jsonNumber` and `plainNumber` are the two formats in use.
-/
namespace RecordMapper.Number

set_option autoImplicit false

open RecordMapper.Text

structure FloatLayout where
  /-- Whether a number whose first digit stands at `10 ^ e` is written without an exponent. -/
  positional : Int → Bool
  /-- Whether a whole number ends in `.0`. -/
  pointZero : Bool
  /-- Which of two shortest decimals is written if both are equally near to the number. -/
  tie : Tie

/-- Numbers from `1e-5` up to, but not including, `1e16` are positional, a whole number keeps one
decimal, and of two equally near decimals the one with an even last digit is written. -/
def jsonNumber : FloatLayout :=
  ⟨fun e => decide (-5 ≤ e) && decide (e < 16), true, .toEven⟩

/-- All numbers are positional, a whole number has no decimals, and of two equally near decimals the
larger in magnitude is written. -/
def plainNumber : FloatLayout :=
  ⟨fun _ => true, false, .awayFromZero⟩

namespace FloatLayout

/-- `digits * 10 ^ exponent` without an exponent. -/
def writePositional (L : FloatLayout) (digits : List Char) (exponent : Int) : List Char :=
  if 0 ≤ exponent then
    digits ++ List.replicate exponent.toNat '0' ++ (if L.pointZero then ['.', '0'] else [])
  else
    let decimals := (-exponent).toNat
    if decimals < digits.length then
      digits.take (digits.length - decimals) ++ '.' :: digits.drop (digits.length - decimals)
    else '0' :: '.' :: List.replicate (decimals - digits.length) '0' ++ digits

/-- The first digit, a point if more digits follow, and the exponent with its sign. -/
def writeScientific (digits : List Char) (first : Int) : List Char :=
  let fraction := digits.drop 1
  digits.take 1 ++ (if fraction.isEmpty then [] else '.' :: fraction) ++ 'e' ::
    ((if 0 ≤ first then '+' else '-') :: natChars first.natAbs)

def writeDecimal (L : FloatLayout) (d : Decimal) : List Char :=
  let full := natChars d.digits
  let digits := (full.reverse.dropWhile (· == '0')).reverse
  let exponent := d.exponent + (full.length - digits.length : Nat)
  let first := exponent + digits.length - 1
  if L.positional first then L.writePositional digits exponent else writeScientific digits first

def writeDecoded (L : FloatLayout) (F : BinaryFormat) : Decoded → List Char
  | .nan => ['N', 'a', 'N']
  | .infinite negative => (if negative then ['-'] else []) ++ ['i', 'n', 'f']
  | .finite negative m q =>
    (if negative then ['-'] else []) ++
      if m = 0 then '0' :: (if L.pointZero then ['.', '0'] else [])
      else L.writeDecimal (shortestDigits F L.tie m q)

def write (L : FloatLayout) (x : Binary64) : List Char := L.writeDecoded double x.decode

end FloatLayout

end RecordMapper.Number
