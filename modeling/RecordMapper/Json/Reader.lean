import RecordMapper.Json.Basic
import RecordMapper.Number.Reader

/-!
Reading JSON text.

* `Json.read?` accepts one value with blanks around it, nested less than `maxDepth` deep.
* Of two fields with one name the later one stays.
* Each reader returns its result with the text that follows it.
* An integer that fits in 64 bits, signed or unsigned, stays an integer; every other number becomes
  a double, and minus zero is one of those.
-/
namespace RecordMapper.Json

set_option autoImplicit false

open RecordMapper.Number RecordMapper.Text

def maxDepth : Nat := 128

def skipBlanks (cs : List Char) : List Char :=
  cs.dropWhile fun c => c == ' ' || c == '\n' || c == '\t' || c == '\r'

/-! ## Numbers -/

def greatestSignificand : Nat := UInt64.size - 1

/-- The digits that still fit in 64 bits after `n`, how many they are, and whether a digit had to
be left out. -/
def takeSignificand (n count : Nat) : List Char → Nat × Nat × Bool × List Char
  | [] => (n, count, false, [])
  | c :: rest =>
    if c.isDigit then
      let m := 10 * n + digitValue c
      if greatestSignificand < m then (n, count, true, c :: rest)
      else takeSignificand m (count + 1) rest
    else (n, count, false, c :: rest)

/-- The double nearest to `10 ^ k`. -/
def powerOfTen (k : Nat) : Binary64 := .ofRatio false (Nat.pow 10 k) 1

/-- Multiplies by the double nearest to a power of ten, and refuses an infinite result. -/
def scaleUp? (x : Binary64) (k : Nat) : Option Binary64 :=
  if 308 < k then if x.isZero then some x else none
  else
    let y := x.times (powerOfTen k)
    if y.isFinite then some y else none

/-- Divides by the double nearest to a power of ten, in strides of at most 308 places. -/
def scaleDown : Nat → Binary64 → Nat → Binary64
  | 0, x, _ => x
  | strides + 1, x, k =>
    if k ≤ 308 then x.dividedBy (powerOfTen k)
    else if x.isZero then x
    else scaleDown strides (x.dividedBy (powerOfTen 308)) (k - 308)

/-- A significand times a power of ten: the significand is rounded to a double first and then
scaled, with one more rounding. No double is left after three strides down. -/
def scaled? (negative : Bool) (significand : Nat) (exponent : Int) : Option Json :=
  let x : Binary64 := .ofRatio negative significand 1
  if 0 ≤ exponent then (scaleUp? x exponent.toNat).map .float
  else some (.float (scaleDown 4 x (-exponent).toNat))

/-- An exponent after its letter, added to the places already counted. -/
def readExponent (negative : Bool) (significand : Nat) (places : Int) (cs : List Char) :
    Option (Json × List Char) :=
  let (down, cs) := splitSign cs
  let digits := cs.takeWhile Char.isDigit
  let rest := cs.dropWhile Char.isDigit
  if digits.isEmpty then none
  else
    let size := foldDigits 0 digits
    if 2147483648 ≤ size then
      if significand = 0 ∨ down then some (.float (.ofRatio negative 0 1), rest) else none
    else
      (scaled? negative significand (if down then places - size else places + size)).map (·, rest)

def isExponentLetter (c : Char) : Bool := c == 'e' || c == 'E'

/-- The digits after a point; those that no longer fit in the significand are passed over. -/
def readFraction (negative : Bool) (significand : Nat) (places : Int) (cs : List Char) :
    Option (Json × List Char) :=
  let (n, count, _, rest) := takeSignificand significand 0 cs
  let places := places - count
  let after := rest.dropWhile Char.isDigit
  if count = 0 ∧ rest = after then none
  else
    match after with
    | e :: tail =>
      if isExponentLetter e then readExponent negative n places tail
      else (scaled? negative n places).map (·, after)
    | [] => (scaled? negative n places).map (·, [])

/-- What follows the whole part of a number. `dropped` counts the digits of the whole part that did
not fit. -/
def readNumberTail (negative : Bool) (significand dropped : Nat) (cs : List Char) :
    Option (Json × List Char) :=
  match cs with
  | '.' :: rest => readFraction negative significand dropped rest
  | e :: rest =>
    if isExponentLetter e then readExponent negative significand dropped rest
    else whole (e :: rest)
  | [] => whole []
where
  whole (rest : List Char) : Option (Json × List Char) :=
    if dropped ≠ 0 then (scaled? negative significand dropped).map (·, rest)
    else if !negative then some (.integer significand, rest)
    else if significand = 0 ∨ 9223372036854775808 < significand then
      some (.float (.ofRatio true significand 1), rest)
    else some (.integer (-(significand : Int)), rest)

/-- A number after its minus sign, if it has one. A leading zero stands alone. -/
def readUnsignedNumber (negative : Bool) (cs : List Char) : Option (Json × List Char) :=
  match cs with
  | '0' :: rest =>
    match rest with
    | c :: _ => if c.isDigit then none else readNumberTail negative 0 0 rest
    | [] => readNumberTail negative 0 0 rest
  | c :: _ =>
    if c.isDigit then
      let (n, _, _, rest) := takeSignificand 0 0 cs
      let dropped := (rest.takeWhile Char.isDigit).length
      readNumberTail negative n dropped (rest.dropWhile Char.isDigit)
    else none
  | [] => none

/-! ## Strings -/

def hexDigit? (c : Char) : Option Nat :=
  if c.isDigit then some (c.toNat - 48)
  else if 'a' ≤ c ∧ c ≤ 'f' then some (c.toNat - 87)
  else if 'A' ≤ c ∧ c ≤ 'F' then some (c.toNat - 55)
  else none

def readHex4 : List Char → Option (Nat × List Char)
  | a :: b :: c :: d :: rest => do
    let a ← hexDigit? a
    let b ← hexDigit? b
    let c ← hexDigit? c
    let d ← hexDigit? d
    some (((a * 16 + b) * 16 + c) * 16 + d, rest)
  | _ => none

/-- A code unit after its escape letter; a leading surrogate needs a trailing one behind it. -/
def readUnit (cs : List Char) : Option (Char × List Char) := do
  let (n, rest) ← readHex4 cs
  if 0xDC00 ≤ n ∧ n ≤ 0xDFFF then none
  else if 0xD800 ≤ n ∧ n ≤ 0xDBFF then
    match rest with
    | '\\' :: 'u' :: rest =>
      let (m, rest) ← readHex4 rest
      if 0xDC00 ≤ m ∧ m ≤ 0xDFFF then
        some (Char.ofNat (0x10000 + (n - 0xD800) * 0x400 + (m - 0xDC00)), rest)
      else none
    | _ => none
  else some (Char.ofNat n, rest)

def readEscape : List Char → Option (Char × List Char)
  | 'u' :: rest => readUnit rest
  | c :: rest =>
    match c with
    | '"' => some ('"', rest)
    | '\\' => some ('\\', rest)
    | '/' => some ('/', rest)
    | 'b' => some ('\x08', rest)
    | 'f' => some ('\x0c', rest)
    | 'n' => some ('\n', rest)
    | 'r' => some ('\r', rest)
    | 't' => some ('\t', rest)
    | _ => none
  | [] => none

/-- The characters up to the closing quote; `done` holds those read, last first. -/
def readString : Nat → List Char → List Char → Option (String × List Char)
  | 0, _, _ => none
  | fuel + 1, done, cs =>
    match cs with
    | [] => none
    | '"' :: rest => some (String.ofList done.reverse, rest)
    | '\\' :: rest => do
      let (c, rest) ← readEscape rest
      readString fuel (c :: done) rest
    | c :: rest => if c.toNat < 32 then none else readString fuel (c :: done) rest

/-! ## Values -/

def expectWord (word : List Char) (j : Json) (cs : List Char) : Option (Json × List Char) :=
  if word.isPrefixOf cs then some (j, cs.drop word.length) else none

mutual

/-- A value, after blanks; `depth` is the number of levels that may still be opened. -/
def readValue : Nat → Nat → List Char → Option (Json × List Char)
  | 0, _, _ => none
  | fuel + 1, depth, cs =>
    match skipBlanks cs with
    | 'n' :: rest => expectWord ['u', 'l', 'l'] .null rest
    | 't' :: rest => expectWord ['r', 'u', 'e'] (.bool true) rest
    | 'f' :: rest => expectWord ['a', 'l', 's', 'e'] (.bool false) rest
    | '-' :: rest => readUnsignedNumber true rest
    | '"' :: rest => (readString fuel [] rest).map fun (s, rest) => (.string s, rest)
    | '[' :: rest =>
      if depth ≤ 1 then none
      else
        match skipBlanks rest with
        | ']' :: rest => some (.array [], rest)
        | rest => (readItems fuel (depth - 1) rest).map fun (items, rest) => (.array items, rest)
    | '\x7b' :: rest =>
      if depth ≤ 1 then none
      else
        match skipBlanks rest with
        | '\x7d' :: rest => some (.object [], rest)
        | rest =>
          (readFields fuel (depth - 1) rest).map fun (fields, rest) => (ofFields fields, rest)
    | cs => readUnsignedNumber false cs

/-- The rest of an array, from an item on. -/
def readItems : Nat → Nat → List Char → Option (List Json × List Char)
  | 0, _, _ => none
  | fuel + 1, depth, cs => do
    let (item, rest) ← readValue fuel depth cs
    match skipBlanks rest with
    | ',' :: rest =>
      let (items, rest) ← readItems fuel depth rest
      some (item :: items, rest)
    | ']' :: rest => some ([item], rest)
    | _ => none

/-- The rest of an object, from a name on. -/
def readFields : Nat → Nat → List Char → Option (List (String × Json) × List Char)
  | 0, _, _ => none
  | fuel + 1, depth, cs =>
    match skipBlanks cs with
    | '"' :: rest => do
      let (name, rest) ← readString fuel [] rest
      match skipBlanks rest with
      | ':' :: rest =>
        let (value, rest) ← readValue fuel depth rest
        match skipBlanks rest with
        | ',' :: rest =>
          let (fields, rest) ← readFields fuel depth rest
          some ((name, value) :: fields, rest)
        | '\x7d' :: rest => some ([(name, value)], rest)
        | _ => none
      | _ => none
    | _ => none

end

/-- Every call of a reader passes at least one character before the next call of the same reader,
so twice the length of the text is fuel enough. -/
def read? (s : String) : Option Json :=
  match readValue (2 * s.length + 2) maxDepth s.toList with
  | some (j, rest) => if (skipBlanks rest).isEmpty then some j else none
  | none => none

end RecordMapper.Json
