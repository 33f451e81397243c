import RecordMapper.Calendar.Moment
import RecordMapper.Json.Text
import RecordMapper.Value.Basic

/-!
Values as JSON and as text.

* `Value.toJson` is the JSON form of a value; what has none becomes `null`.
* `Value.ofJson` reads scalars back and keeps arrays and objects whole.
* `Value.display` is the text of a value.
-/
namespace RecordMapper

set_option autoImplicit false

open RecordMapper.Number RecordMapper.Text RecordMapper.Calendar

/-- Groups of 8, 4, 4, 4 and 12 lower-case digits. -/
def Uuid.write (id : Uuid) : List Char :=
  let digits := hexPlaces 32 id.number.toNat
  digits.take 8 ++ '-' :: (digits.drop 8).take 4 ++ '-' :: (digits.drop 12).take 4 ++
    '-' :: (digits.drop 16).take 4 ++ '-' :: digits.drop 20

def Uuid.text (id : Uuid) : String := String.ofList id.write

namespace Value

/-- A finite number; JSON has no other. -/
def jsonOfDouble (x : Binary64) : Json :=
  if x.isFinite then .float x else .null

def jsonOfChars (cs : Option (List Char)) : Json :=
  match cs with
  | some cs => .string (String.ofList cs)
  | none => .null

mutual

def toJson : Value → Json
  | .null => .null
  | .bool b => .bool b
  | .int8 n => .integer n.toInt
  | .int16 n => .integer n.toInt
  | .int32 n => .integer n.toInt
  | .int64 n => .integer n.toInt
  | .single x => jsonOfDouble x.widen
  | .double x => jsonOfDouble x
  | .decimal s => .string s
  | .text s => .string s
  | .bytes bs => .array (bs.map fun b => .integer b.toNat)
  | .date day => jsonOfChars ((dateOfDay? day.toInt).map CalendarDate.write)
  | .time micros => jsonOfChars ((TimeOfDay.ofMicros? micros.toInt).map TimeOfDay.write)
  | .timestamp micros => jsonOfChars ((Moment.ofMicros? micros.toInt).map Moment.write)
  | .timestampTz micros => jsonOfChars ((Moment.ofMicros? micros.toInt).map Moment.write)
  | .uuid id => .string id.text
  | .json j => j
  | .array items => .array (itemsToJson items)
  | .default => .null

def itemsToJson : List Value → List Json
  | [] => []
  | v :: rest => v.toJson :: itemsToJson rest

end

def ofJson : Json → Value
  | .null => .null
  | .bool b => .bool b
  | .integer n =>
    if Int64.least ≤ n ∧ n ≤ Int64.greatest then ofInt n else .double (.ofInt n)
  | .float x => .double x
  | .string s => .text s
  | .array items => .json (.array items)
  | .object fields => .json (.object fields)

def display : Value → String
  | .null => "NULL"
  | .default => "DEFAULT"
  | .text s => s
  | .decimal s => s
  | v => v.toJson.text

end Value

end RecordMapper
