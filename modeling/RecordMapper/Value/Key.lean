import RecordMapper.Number.Layout
import RecordMapper.Text.Split
import RecordMapper.Value.Json

/-!
Keys by which rows are matched with the records they belong to.

* `Key` is a text that tells values apart; integers of all widths share one, and so do a UUID and
  its text.
* `Value.key?` is the key of a value; NULL and DEFAULT have none.
* `Key.composite?` joins the keys of several values.
* `Key.distinct` keeps one item of each key.
-/
namespace RecordMapper

set_option autoImplicit false

open RecordMapper.Number RecordMapper.Text

structure Key where
  text : String
  deriving DecidableEq, Repr

namespace Value

/-- Whole numbers below this bound share their key with the integers. -/
def wholeBound : Nat := 9000000000000000

def keyOfDouble (x : Binary64) : List Char :=
  match x.integer? with
  | some n =>
    if n.natAbs < wholeBound then 'i' :: ':' :: intChars n else 'f' :: ':' :: plainNumber.write x
  | none => 'f' :: ':' :: plainNumber.write x

mutual

def keyChars? : Value → Option (List Char)
  | .null => none
  | .default => none
  | .bool b => some ('b' :: ':' :: (if b then ['t', 'r', 'u', 'e'] else ['f', 'a', 'l', 's', 'e']))
  | .int8 n => some ('i' :: ':' :: intChars n.toInt)
  | .int16 n => some ('i' :: ':' :: intChars n.toInt)
  | .int32 n => some ('i' :: ':' :: intChars n.toInt)
  | .int64 n => some ('i' :: ':' :: intChars n.toInt)
  | .single x => some (keyOfDouble x.widen)
  | .double x => some (keyOfDouble x)
  | .decimal s => some ('d' :: ':' :: s.toList)
  | .text s => some ('s' :: ':' :: s.toList)
  | .uuid id => some ('s' :: ':' :: id.write)
  | .bytes bs => some ('x' :: ':' :: hexBytes bs)
  | .date day => some ('t' :: ':' :: (Value.date day).toJson.write)
  | .time micros => some ('t' :: ':' :: (Value.time micros).toJson.write)
  | .timestamp micros => some ('t' :: ':' :: (Value.timestamp micros).toJson.write)
  | .timestampTz micros => some ('t' :: ':' :: (Value.timestampTz micros).toJson.write)
  | .json j => some ('j' :: ':' :: j.write)
  | .array items => some ('a' :: ':' :: '[' :: joinWith [','] (itemKeys items) ++ [']'])

/-- The keys of the items, empty for an item without one. -/
def itemKeys : List Value → List (List Char)
  | [] => []
  | v :: rest => (v.keyChars?.getD []) :: itemKeys rest

end

def key? (v : Value) : Option Key :=
  v.keyChars?.map fun cs => ⟨String.ofList cs⟩

end Value

/-- The keys of all values joined with bars, if every value has one. -/
def Key.composite? (values : List Value) : Option Key :=
  (values.mapM Value.keyChars?).map fun parts => ⟨String.ofList (joinWith ['|'] parts)⟩

variable {α : Type}

def Key.distinctFrom (value : α → Value) (seen : List Key) : List α → List α
  | [] => []
  | a :: rest =>
    match (value a).key? with
    | none => distinctFrom value seen rest
    | some k =>
      if k ∈ seen then distinctFrom value seen rest
      else a :: distinctFrom value (k :: seen) rest

/-- The items whose values have keys, and of several with one key only the first. -/
def Key.distinct (value : α → Value) (items : List α) : List α := distinctFrom value [] items

end RecordMapper
