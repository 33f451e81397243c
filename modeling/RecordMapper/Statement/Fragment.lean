import RecordMapper.Dialect
import RecordMapper.Value.Basic

/-!
SQL in pieces.

* `Piece` is plain text, an identifier, or a hole that carries the value bound there.
* `Fragment` is a list of pieces; everything is compiled to one.
* `Fragment.write` writes a fragment for a dialect, the holes numbered from left to right;
  `Fragment.values` are the values of the holes in the same order.
* `Statement` is what is sent to a database.
-/
namespace RecordMapper

set_option autoImplicit false

open RecordMapper.Text

inductive Piece where
  | text (sql : String)
  | name (identifier : String)
  | hole (value : Value)
  deriving Inhabited

abbrev Fragment := List Piece

namespace Fragment

def text (sql : String) : Fragment := [.text sql]

/-- An identifier, not split at its dots. -/
def name (identifier : String) : Fragment := [.name identifier]

/-- A bound value; the keyword stands for itself and binds nothing. -/
def bind (value : Value) : Fragment :=
  match value with
  | .default => [.text "DEFAULT"]
  | v => [.hole v]

def segment (s : String) : Piece :=
  if s = "*" then .text s else .name s

/-- The fragments with a separator between each two. -/
def joined (separator : String) : List Fragment → Fragment
  | [] => []
  | [a] => a
  | a :: b :: rest => a ++ .text separator :: joined separator (b :: rest)

/-- A dotted path, each of its segments an identifier of its own. -/
def path (p : String) : Fragment :=
  joined "." ((fields '.' p).map fun s => [segment s])

def names (identifiers : List String) : Fragment :=
  joined ", " (identifiers.map name)

def parens (f : Fragment) : Fragment := .text "(" :: f ++ [.text ")"]

/-- The call of a function. -/
def call (function : String) (arguments : Fragment) : Fragment :=
  .text function :: parens arguments

/-- Whether nothing is written for the fragment. -/
def isBlank (f : Fragment) : Bool :=
  f.all fun
    | .text sql => sql.isEmpty
    | _ => false

/-! ## Writing -/

/-- The text of a fragment after `bound` values. -/
def writeFrom (d : Dialect) : Nat → Fragment → List Char
  | _, [] => []
  | bound, .text sql :: rest => sql.toList ++ writeFrom d bound rest
  | bound, .name identifier :: rest => d.quoteChars identifier.toList ++ writeFrom d bound rest
  | bound, .hole _ :: rest => d.placeholder (bound + 1) ++ writeFrom d (bound + 1) rest

def write (d : Dialect) (bound : Nat) (f : Fragment) : String :=
  String.ofList (writeFrom d bound f)

def values : Fragment → List Value
  | [] => []
  | .hole v :: rest => v :: values rest
  | _ :: rest => values rest

/-! ## Fragments side by side -/

theorem values_append (f g : Fragment) : values (f ++ g) = values f ++ values g := by
  induction f with
  | nil => rfl
  | cons p rest ih => cases p <;> simp [values, ih]

/-- What stands behind a fragment is written after all of its values. -/
theorem writeFrom_append (d : Dialect) (bound : Nat) (f g : Fragment) :
    writeFrom d bound (f ++ g) =
      writeFrom d bound f ++ writeFrom d (bound + (values f).length) g := by
  induction f generalizing bound with
  | nil => rfl
  | cons p rest ih =>
    cases p <;> simp [writeFrom, values, ih, Nat.add_assoc, Nat.add_comm 1]

end Fragment

/-! ## Statements -/

structure Statement where
  sql : String
  values : List Value
  deriving Inhabited

/-- The statement of a fragment that stands after `bound` values. -/
def Fragment.statement (d : Dialect) (bound : Nat) (f : Fragment) : Statement :=
  ⟨f.write d bound, f.values⟩

end RecordMapper
