import RecordMapper.Json.Reader
import RecordMapper.Value.Basic

/-!
JSON forms that lose nothing.

* `Json.exact` has every floating-point number as an object with its bits, so that it is told apart
  from an integer; `Json.ofExact?` reads it.
* `Value.exact` has every value as an object tagged with its type, save NULL, truth values and
  texts; `Value.ofExact?` reads it.
-/
namespace RecordMapper

set_option autoImplicit false

open RecordMapper.Number RecordMapper.Text

/-! ## Bits in hexadecimal -/

def readHex? (s : String) : Option Nat :=
  s.toList.foldlM (fun n c => (Json.hexDigit? c).map fun d => 16 * n + d) 0

def hexPair? (a b : Char) : Option UInt8 := do
  let a ← Json.hexDigit? a
  let b ← Json.hexDigit? b
  return UInt8.ofNat (16 * a + b)

def readHexBytes? : List Char → Option (List UInt8)
  | [] => some []
  | [_] => none
  | a :: b :: rest => do
    let byte ← hexPair? a b
    let bytes ← readHexBytes? rest
    return byte :: bytes

def hexOf (width n : Nat) : String := String.ofList (hexPlaces width n)

/-- All that are no numbers have one form. -/
def doubleBits (x : Binary64) : String :=
  match x.decode with
  | .nan => "7ff8000000000000"
  | _ => hexOf 16 x.bits.toNat

def singleBits (x : Binary32) : String :=
  match x.decode with
  | .nan => "7fc00000"
  | _ => hexOf 8 x.bits.toNat

def readDoubleBits? (s : String) : Option Binary64 := (readHex? s).map fun n => ⟨.ofNat n⟩

/-! ## JSON -/

namespace Json

def floatTag : String := "$f64"

mutual

def exact : Json → Json
  | .float x => .object [(floatTag, .string (doubleBits x))]
  | .array items => .array (exactItems items)
  | .object fields => .object (exactFields fields)
  | j => j

def exactItems : List Json → List Json
  | [] => []
  | j :: rest => j.exact :: exactItems rest

def exactFields : List (String × Json) → List (String × Json)
  | [] => []
  | (k, j) :: rest => (k, j.exact) :: exactFields rest

end

/-- The number of an object that is only its bits. -/
def taggedFloat? : List (String × Json) → Option Binary64
  | [(k, .string s)] => if k = floatTag then readDoubleBits? s else none
  | _ => none

mutual

def ofExact? : Json → Option Json
  | .array items => (ofExactItems? items).map .array
  | .object fields =>
    match taggedFloat? fields with
    | some x => some (.float x)
    | none => (ofExactFields? fields).map .object
  | j => some j

def ofExactItems? : List Json → Option (List Json)
  | [] => some []
  | j :: rest => do
    let j ← j.ofExact?
    let rest ← ofExactItems? rest
    return j :: rest

def ofExactFields? : List (String × Json) → Option (List (String × Json))
  | [] => some []
  | (k, j) :: rest => do
    let j ← j.ofExact?
    let rest ← ofExactFields? rest
    return (k, j) :: rest

end

end Json

/-! ## Values -/

namespace Value

def tagged (tag : String) (j : Json) : Json := .object [(tag, j)]

mutual

def exact : Value → Json
  | .null => .null
  | .bool b => .bool b
  | .int8 n => tagged "i8" (.integer n.toInt)
  | .int16 n => tagged "i16" (.integer n.toInt)
  | .int32 n => tagged "i32" (.integer n.toInt)
  | .int64 n => tagged "i64" (.integer n.toInt)
  | .single x => tagged "f32" (.string (singleBits x))
  | .double x => tagged "f64" (.string (doubleBits x))
  | .decimal s => tagged "dec" (.string s)
  | .text s => .string s
  | .bytes bs => tagged "bytes" (.string (String.ofList (hexBytes bs)))
  | .date day => tagged "date" (.integer day.toInt)
  | .time micros => tagged "time" (.integer micros.toInt)
  | .timestamp micros => tagged "ts" (.integer micros.toInt)
  | .timestampTz micros => tagged "tstz" (.integer micros.toInt)
  | .uuid id => tagged "uuid" (.string (hexOf 32 id.number.toNat))
  | .json j => tagged "json" j.exact
  | .array items => tagged "arr" (.array (exactItems items))
  | .default => tagged "default" (.bool true)

def exactItems : List Value → List Json
  | [] => []
  | v :: rest => v.exact :: exactItems rest

end

/-- A value tagged with an integer type. -/
def ofTaggedInt? (tag : String) (n : Int) : Option Value :=
  match tag with
  | "i8" => some (.int8 (Int8.ofInt n))
  | "i16" => some (.int16 (Int16.ofInt n))
  | "i32" => some (.int32 (Int32.ofInt n))
  | "i64" => some (.int64 (Int64.ofInt n))
  | "date" => some (.date (Int32.ofInt n))
  | "time" => some (.time (Int64.ofInt n))
  | "ts" => some (.timestamp (Int64.ofInt n))
  | "tstz" => some (.timestampTz (Int64.ofInt n))
  | _ => none

/-- A value tagged with a type that is written as a text. -/
def ofTaggedText? (tag s : String) : Option Value :=
  match tag with
  | "f32" => (readHex? s).map fun n => .single ⟨.ofNat n⟩
  | "f64" => (readDoubleBits? s).map .double
  | "dec" => some (.decimal s)
  | "bytes" => (readHexBytes? s.toList).map .bytes
  | "uuid" => (readHex? s).map fun n => .uuid ⟨BitVec.ofNat 128 n⟩
  | _ => none

/-- A value of any tag save that of arrays. -/
def ofTagged? (tag : String) (j : Json) : Option Value :=
  if tag = "json" then j.ofExact?.map .json
  else if tag = "default" then some .default
  else
    match j with
    | .integer n => ofTaggedInt? tag n
    | .string s => ofTaggedText? tag s
    | _ => none

mutual

def ofExact? : Json → Option Value
  | .null => some .null
  | .bool b => some (.bool b)
  | .string s => some (.text s)
  | .object fields => ofExactFields? fields
  | _ => none

def ofExactFields? : List (String × Json) → Option Value
  | [(tag, j)] => if tag = "arr" then ofExactArray? j else ofTagged? tag j
  | _ => none

def ofExactArray? : Json → Option Value
  | .array items => (ofExactItems? items).map .array
  | _ => none

def ofExactItems? : List Json → Option (List Value)
  | [] => some []
  | j :: rest => do
    let v ← ofExact? j
    let rest ← ofExactItems? rest
    return v :: rest

end

end Value

end RecordMapper
