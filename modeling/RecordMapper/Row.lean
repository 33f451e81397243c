import RecordMapper.Value.Convert

/-!
Rows of a result.

* `Row` has column names and values, which need not be equally many.
* Of several columns with one name `Row.named?` finds the last one, and `Row.splitOff` takes the
  first one.
-/
namespace RecordMapper

set_option autoImplicit false

structure Row where
  columns : List String
  values : List Value
  deriving Inhabited

namespace Row

def ofPairs (pairs : List (String × Value)) : Row :=
  ⟨pairs.map Prod.fst, pairs.map Prod.snd⟩

/-- Each column with its value, as far as both reach. -/
def pairs (row : Row) : List (String × Value) := row.columns.zip row.values

def size (row : Row) : Nat := row.values.length

/-- The position of the last column of this name, counted from `start`. -/
def lastIndex? (name : String) (start : Nat) : List String → Option Nat
  | [] => none
  | column :: rest =>
    match lastIndex? name (start + 1) rest with
    | some i => some i
    | none => if column = name then some start else none

def indexOf? (row : Row) (name : String) : Option Nat := lastIndex? name 0 row.columns

def hasColumn (row : Row) (name : String) : Bool := (row.indexOf? name).isSome

def get? (row : Row) (index : Nat) : Option Value := row.values[index]?

def named? (row : Row) (name : String) : Option Value := (row.indexOf? name).bind row.get?

/-- The value of a column as an expected type; a failure names the column. -/
def read {α : Type} (expected : String) (convert : Value → Result α) (row : Row)
    (name : String) : Result α :=
  match row.named? name with
  | none => .error (.type expected ("column '" ++ name ++ "' not found") (some name))
  | some v =>
    match convert v with
    | .ok a => .ok a
    | .error fault => .error (fault.inColumn name)

/-- Takes the first pair of this name out of a list of pairs. -/
def takeFirst (name : String) : List (String × Value) → Option Value × List (String × Value)
  | [] => (none, [])
  | (k, v) :: rest =>
    if k = name then (some v, rest)
    else
      let (taken, left) := takeFirst name rest
      (taken, (k, v) :: left)

/-- The value of a helper column, and the row without it. -/
def splitOff (row : Row) (name : String) : Option Value × Row :=
  let (taken, left) := takeFirst name row.pairs
  (taken, ofPairs left)

end Row

end RecordMapper
