import RecordMapper.Statement.Fragment

/-!
Trusted SQL with markers.

Each `?` of the text stands for the next value, and `??` for a question mark. `Marked.compile`
demands as many values as there are markers.
-/
namespace RecordMapper

set_option autoImplicit false

namespace Marked

def moreMarkers (sql : String) (values : List Value) : Fault :=
  .compilation (.moreMarkersThanValues values.length) (some sql)

def fewerMarkers (sql : String) (used : Nat) (values : List Value) : Fault :=
  .compilation (.fewerMarkersThanValues used values.length) (some sql)

/-- The pieces of a text, the count of its markers, and whether there were values for all of
them. -/
def pieces : List Char → List Value → Option (Fragment × Nat)
  | [], _ => some ([], 0)
  | '?' :: '?' :: rest, values => (pieces rest values).map fun (f, n) => (.text "?" :: f, n)
  | '?' :: _, [] => none
  | '?' :: rest, v :: values =>
    (pieces rest values).map fun (f, n) => (Fragment.bind v ++ f, n + 1)
  | c :: rest, values => (pieces rest values).map fun (f, n) => (.text c.toString :: f, n)

def compile (sql : String) (values : List Value) : Result Fragment :=
  match pieces sql.toList values with
  | none => .error (moreMarkers sql values)
  | some (f, used) =>
    if used = values.length then .ok f else .error (fewerMarkers sql used values)

end Marked

end RecordMapper
