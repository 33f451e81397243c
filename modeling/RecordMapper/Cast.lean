import RecordMapper.Calendar.Reader
import RecordMapper.Text.Split
import RecordMapper.Value.Convert

/-!
Casts of attributes.

* `Cast` is a declared cast, `Cast.read` finds one by its name.
* `Cast.apply` never fails: NULL stays NULL, and a value that cannot be converted stays as it is.
-/
namespace RecordMapper

set_option autoImplicit false

open RecordMapper.Number RecordMapper.Text RecordMapper.Calendar

inductive Cast where
  | boolean
  | integer
  | float
  | string
  /-- JSON, from its text if need be. -/
  | json
  /-- A JSON array; anything else becomes its one item. -/
  | array
  /-- The date of a moment. -/
  | date
  /-- A moment with milliseconds, in universal time. -/
  | dateTime
  deriving DecidableEq, Repr

namespace Cast

def read (text : String) : Result Cast :=
  let name := lower (trim text)
  if name = "bool" ∨ name = "boolean" then .ok .boolean
  else if name = "int" ∨ name = "integer" then .ok .integer
  else if name = "float" ∨ name = "double" ∨ name = "real" then .ok .float
  else if name = "string" ∨ name = "text" then .ok .string
  else if name = "json" ∨ name = "object" then .ok .json
  else if name = "array" ∨ name = "collection" then .ok .array
  else if name = "date" then .ok .date
  else if name = "datetime" ∨ name = "timestamp" then .ok .dateTime
  else .error (.misconfigured (.unknownCast name))

/-- Only zero, false, JSON null and the texts for them are false. -/
def isTrue (v : Value) : Bool :=
  match v with
  | .bool b => b
  | .text s =>
    let word := lower (trim s)
    !(word == "0" || word == "false" || word == "")
  | .json (.bool b) => b
  | .json .null => false
  | v =>
    match v.integer? with
    | some n => n != 0
    | none =>
      match v.double? with
      | some x => !x.isZero
      | none => true

/-- The integer part of a number, or of the number a text spells. -/
def integerOf? (v : Value) : Option Int :=
  match v.integer? with
  | some n => some n
  | none =>
    match v.double? with
    | some x => some x.toInteger
    | none =>
      match v.text? with
      | none => none
      | some s =>
        let digits := trimChars s.toList
        match readInt64 digits with
        | some n => some n
        | none => (readBinary64 digits).map Binary64.toInteger

def doubleOf? (v : Value) : Option Binary64 :=
  match v.double? with
  | some x => some x
  | none => v.text?.bind fun s => readBinary64 (trimChars s.toList)

def toJson (v : Value) : Value :=
  match v with
  | .json j => .json j
  | .text s =>
    match Json.read? s with
    | some j => .json j
    | none => .text s
  | v => .json v.toJson

/-- The array itself, or an array with the one item. -/
def asArray : Json → Json
  | .array items => .array items
  | j => .array [j]

def toArray (v : Value) : Value :=
  match v with
  | .json j => .json (asArray j)
  | .text s =>
    match Json.read? s with
    | some j => .json (asArray j)
    | none => .json (.array [.string s])
  | v => .json (asArray v.toJson)

/-- The moment a value stands for. -/
def momentOf? (v : Value) : Option Moment :=
  match v with
  | .timestamp micros => Moment.ofMicros? micros.toInt
  | .timestampTz micros => Moment.ofMicros? micros.toInt
  | .date day => Moment.ofSeconds? (day.toInt * secondsPerDay) 0
  | .text s => readMoment (trimChars s.toList)
  | _ => none

def apply (cast : Cast) (v : Value) : Value :=
  match v with
  | .null => .null
  | v =>
    match cast with
    | .boolean => .bool (isTrue v)
    | .integer => ((integerOf? v).map Value.ofInt).getD v
    | .float => ((doubleOf? v).map Value.double).getD v
    | .string => .text v.display
    | .json => toJson v
    | .array => toArray v
    | .date => ((momentOf? v).map fun m => Value.text (String.ofList m.writeDate)).getD v
    | .dateTime => ((momentOf? v).map fun m => Value.text (String.ofList m.write)).getD v

end Cast

end RecordMapper
