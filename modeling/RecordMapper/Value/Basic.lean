import RecordMapper.Json.Basic

/-!
Values of database columns.

* `Value` is the type; it covers what a column can hold, and the keyword `DEFAULT`.
* `Value.same` is sameness of attributes: equal values, or integers of any width with one value.
-/
namespace RecordMapper

set_option autoImplicit false

open RecordMapper.Number

/-- A universally unique identifier, as the number its 32 hexadecimal digits spell. -/
structure Uuid where
  number : BitVec 128
  deriving DecidableEq, Repr, Inhabited

inductive Value where
  | null
  | bool (b : Bool)
  | int8 (n : Int8)
  | int16 (n : Int16)
  | int32 (n : Int32)
  | int64 (n : Int64)
  | single (x : Binary32)
  | double (x : Binary64)
  /-- A number of any precision, kept as its text. -/
  | decimal (digits : String)
  | text (s : String)
  | bytes (bs : List UInt8)
  /-- Days since the first of January 1970. -/
  | date (day : Int32)
  /-- Microseconds since midnight. -/
  | time (micros : Int64)
  /-- Microseconds since the epoch. -/
  | timestamp (micros : Int64)
  | timestampTz (micros : Int64)
  | uuid (id : Uuid)
  | json (j : Json)
  | array (items : List Value)
  /-- The keyword that leaves a column to its default. -/
  | default
  deriving Inhabited

namespace Value

def isNull : Value → Bool
  | .null => true
  | _ => false

def isDefault : Value → Bool
  | .default => true
  | _ => false

def typeName : Value → String
  | .null => "NULL"
  | .bool _ => "BOOLEAN"
  | .int8 _ => "TINYINT"
  | .int16 _ => "SMALLINT"
  | .int32 _ => "INTEGER"
  | .int64 _ => "BIGINT"
  | .single _ => "REAL"
  | .double _ => "DOUBLE"
  | .decimal _ => "DECIMAL"
  | .text _ => "TEXT"
  | .bytes _ => "BLOB"
  | .date _ => "DATE"
  | .time _ => "TIME"
  | .timestamp _ => "TIMESTAMP"
  | .timestampTz _ => "TIMESTAMPTZ"
  | .uuid _ => "UUID"
  | .json _ => "JSON"
  | .array _ => "ARRAY"
  | .default => "DEFAULT"

/-- A 64-bit integer value. -/
def ofInt (n : Int) : Value := .int64 (Int64.ofInt n)

/-! ## Numbers of the machine

An unsigned number becomes the least signed one that holds all of its type. -/

def ofUInt8 (n : UInt8) : Value := .int16 (Int16.ofNat n.toNat)

def ofUInt16 (n : UInt16) : Value := .int32 (Int32.ofNat n.toNat)

def ofUInt32 (n : UInt32) : Value := .int64 (Int64.ofNat n.toNat)

/-- NULL for nothing. -/
def ofOption (v : Option Value) : Value := v.getD .null

/-! ## Views -/

/-- The number of an integer of any width. -/
def number? : Value → Option Int
  | .int8 n => some n.toInt
  | .int16 n => some n.toInt
  | .int32 n => some n.toInt
  | .int64 n => some n.toInt
  | _ => none

/-- An integer, or a truth value as 0 or 1. -/
def integer? : Value → Option Int
  | .bool b => some (if b then 1 else 0)
  | v => v.number?

def bool? : Value → Option Bool
  | .bool b => some b
  | v => v.number?.map (· != 0)

/-- A text, or the digits of a decimal. -/
def text? : Value → Option String
  | .text s => some s
  | .decimal s => some s
  | _ => none

def bytes? : Value → Option (List UInt8)
  | .bytes bs => some bs
  | _ => none

/-! ## Sameness -/

mutual

/-- Equality of values of one type, with floating-point numbers compared as numbers. -/
def equal : Value → Value → Bool
  | .null, .null => true
  | .bool a, .bool b => a == b
  | .int8 a, .int8 b => a == b
  | .int16 a, .int16 b => a == b
  | .int32 a, .int32 b => a == b
  | .int64 a, .int64 b => a == b
  | .single a, .single b => a.sameNumber b
  | .double a, .double b => a.sameNumber b
  | .decimal a, .decimal b => a == b
  | .text a, .text b => a == b
  | .bytes a, .bytes b => a == b
  | .date a, .date b => a == b
  | .time a, .time b => a == b
  | .timestamp a, .timestamp b => a == b
  | .timestampTz a, .timestampTz b => a == b
  | .uuid a, .uuid b => a == b
  | .json a, .json b => a.same b
  | .array a, .array b => equalItems a b
  | .default, .default => true
  | _, _ => false

def equalItems : List Value → List Value → Bool
  | [], [] => true
  | a :: as, b :: bs => a.equal b && equalItems as bs
  | _, _ => false

end

/-- Two attribute values that no statement has to tell apart: the width of an integer is of no
account. -/
def same (a b : Value) : Bool :=
  a.equal b ||
    match a.number?, b.number? with
    | some m, some n => m == n
    | _, _ => false

end Value

end RecordMapper
