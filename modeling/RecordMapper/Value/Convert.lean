import RecordMapper.Fault
import RecordMapper.Json.Reader
import RecordMapper.Number.Reader
import RecordMapper.Value.Json

/-!
Reading a value as one expected type.

* Each conversion returns the typed result, or the type failure that names what was expected and
  what was found.
* `double?` is the numeric view of a value, which the casts share.
-/
namespace RecordMapper.Value

set_option autoImplicit false

open RecordMapper.Number

/-- A number of any kind; the digits of a decimal are read. -/
def double? : Value → Option Binary64
  | .single x => some x.widen
  | .double x => some x
  | .decimal s => readBinary64 s.toList
  | v => v.number?.map .ofInt

def expected (type : String) (v : Value) : Fault := .type type v.typeName none

def toBool (v : Value) : Result Bool :=
  match v.bool? with
  | some b => .ok b
  | none => .error (v.expected "bool")

/-- An integer of 64 bits, also from a text of one. -/
def toInt64 (v : Value) : Result Int :=
  match v.integer? with
  | some n => .ok n
  | none =>
    match v.text?.bind fun s => readInt64 s.toList with
    | some n => .ok n
    | none => .error (v.expected "i64")

def toUInt64 (v : Value) : Result Nat :=
  match v.toInt64 with
  | .error fault => .error fault
  | .ok n => if n < 0 then .error (v.expected "u64") else .ok n.toNat

def toDouble (v : Value) : Result Binary64 :=
  match v.double? with
  | some x => .ok x
  | none => .error (v.expected "f64")

def toText (v : Value) : Result String :=
  match v.text? with
  | some s => .ok s
  | none => .error (v.expected "String")

/-- A JSON value, also from its text. -/
def toJsonValue (v : Value) : Result Json :=
  match v with
  | .json j => .ok j
  | .text s =>
    match Json.read? s with
    | some j => .ok j
    | none => .error (.serialization "the text is not JSON")
  | v => .error (v.expected "JSON")

/-- Nothing for NULL, and otherwise the conversion. -/
def toOption {α : Type} (convert : Value → Result α) (v : Value) : Result (Option α) :=
  match v with
  | .null => .ok none
  | v => (convert v).map some

end RecordMapper.Value
