/-!
Numerals: natural numbers and integers written and read in positional notation.

* `ofNat` and `ofInt` write the shortest decimal numeral.
* `readNat` reads a run of ASCII digits; leading zeros are allowed.
* `padded` writes a numeral on at least a given number of places.
* `hex` writes bytes as pairs of lower-case hexadecimal digits.
-/
namespace RecordMapper.Text

set_option autoImplicit false

/-- The value of an ASCII digit. -/
def digitValue (c : Char) : Nat := c.toNat - 48

def digitChar (n : Nat) : Char := Char.ofNat (48 + n)

/-- The number whose decimal digits, most significant first, are `cs`, after the digits of `n`. -/
def foldDigits (n : Nat) (cs : List Char) : Nat :=
  cs.foldl (fun n c => 10 * n + digitValue c) n

def readNat (cs : List Char) : Option Nat :=
  if cs.isEmpty || !cs.all Char.isDigit then none else some (foldDigits 0 cs)

def natChars (n : Nat) : List Char := Nat.toDigits 10 n

def ofNat (n : Nat) : String := String.ofList (natChars n)

def intChars (n : Int) : List Char :=
  if n < 0 then '-' :: natChars n.natAbs else natChars n.natAbs

def ofInt (n : Int) : String := String.ofList (intChars n)

/-- The numeral of `n`, with zeros in front up to `width` places. -/
def padded (width n : Nat) : List Char :=
  List.replicate (width - (natChars n).length) '0' ++ natChars n

/-- The last `width` decimal digits of `n`, each on its own place. -/
def places : Nat → Nat → List Char
  | 0, _ => []
  | width + 1, n => places width (n / 10) ++ [digitChar (n % 10)]

/-! ## Hexadecimal -/

def hexChar (n : Nat) : Char := Nat.digitChar (n % 16)

/-- The last `width` hexadecimal digits of `n`. -/
def hexPlaces : Nat → Nat → List Char
  | 0, _ => []
  | width + 1, n => hexPlaces width (n / 16) ++ [hexChar n]

def hexBytes (bytes : List UInt8) : List Char :=
  bytes.flatMap fun b => hexPlaces 2 b.toNat

end RecordMapper.Text
