import RecordMapper.NameMap
import RecordMapper.Number.Binary

/-!
JSON values.

* `Json` is the type; the fields of an object are kept in ascending order of their names.
* `Json.same` is equality of values, with floating-point numbers compared as numbers.
-/
namespace RecordMapper

set_option autoImplicit false

open RecordMapper.Number

inductive Json where
  | null
  | bool (b : Bool)
  | integer (n : Int)
  | float (x : Binary64)
  | string (s : String)
  | array (items : List Json)
  | object (fields : List (String × Json))
  deriving Inhabited

namespace Json

/-- The object of the last field of each name. -/
def ofFields (fields : List (String × Json)) : Json :=
  .object (Assoc.insertAll [] fields)

mutual

def same : Json → Json → Bool
  | .null, .null => true
  | .bool a, .bool b => a == b
  | .integer a, .integer b => a == b
  | .float a, .float b => a.sameNumber b
  | .string a, .string b => a == b
  | .array a, .array b => sameItems a b
  | .object a, .object b => sameFields a b
  | _, _ => false

def sameItems : List Json → List Json → Bool
  | [], [] => true
  | a :: as, b :: bs => a.same b && sameItems as bs
  | _, _ => false

def sameFields : List (String × Json) → List (String × Json) → Bool
  | [], [] => true
  | (k, a) :: as, (l, b) :: bs => k == l && a.same b && sameFields as bs
  | _, _ => false

end

end Json

end RecordMapper
