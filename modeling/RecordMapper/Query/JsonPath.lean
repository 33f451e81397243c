import RecordMapper.Statement.Fragment
import RecordMapper.Text.DecimalDigit

/-!
Paths into a JSON column.

* `JsonStep` is a member or an element, `JsonPath.read` reads a path such as `theme.colors[0]`.
* `JsonPath.dollar` is the path in the form that starts with a dollar sign.
* `JsonPath.extract` reads the value at a path in each dialect.
-/
namespace RecordMapper

set_option autoImplicit false

open RecordMapper.Text

inductive JsonStep where
  | key (name : String)
  | index (n : Nat)
  deriving DecidableEq, Repr

abbrev JsonPath := List JsonStep

namespace JsonPath

/-- A step as it is written: the characters of a member, or the digits between brackets. -/
inductive WrittenStep where
  | key (name : List Char)
  | index (digits : List Char)

def isKeyChar (c : Char) : Bool := c != '.' && c != '[' && c != ']'

/-- The elements in brackets up to the end of the text. `digits` holds what was read since an open
bracket, last digit first. -/
def writtenIndexes (digits : Option (List Char)) : List Char → Option (List WrittenStep)
  | [] => if digits.isNone then some [] else none
  | c :: rest =>
    match digits with
    | none => if c = '[' then writtenIndexes (some []) rest else none
    | some ds =>
      if isDecimalDigit c then writtenIndexes (some (c :: ds)) rest
      else if c = ']' ∧ !ds.isEmpty then
        (writtenIndexes none rest).map (.index ds.reverse :: ·)
      else none

/-- A member and the elements behind it. -/
def writtenMember (cs : List Char) : Option (List WrittenStep) :=
  let name := cs.takeWhile isKeyChar
  if name.isEmpty then none
  else (writtenIndexes none (cs.dropWhile isKeyChar)).map (.key name :: ·)

def writtenSteps (cs : List Char) : Option (List WrittenStep) :=
  ((fieldsAt '.' cs).mapM writtenMember).map List.flatten

/-- The path without blanks around it and without a dollar sign, and the dot after it, in front. -/
def body (path : String) : List Char :=
  match trimChars path.toList with
  | '$' :: '.' :: rest => rest
  | '$' :: rest => rest
  | cs => cs

/-- An index is written in the digits 0 to 9 and fits in 64 bits. -/
def stepOf (path : String) : WrittenStep → Result JsonStep
  | .key name => .ok (.key (String.ofList name))
  | .index digits =>
    match readNat digits with
    | some n =>
      if n < UInt64.size then .ok (.index n)
      else .error (.cannotCompile (.pathIndexOutOfRange path))
    | none => .error (.cannotCompile (.pathIndexOutOfRange path))

def read (path : String) : Result JsonPath :=
  match writtenSteps (body path) with
  | none => .error (.compilation .malformedPath (some path))
  | some steps => steps.mapM (stepOf path)

/-! ## Written forms -/

def isNameStart (c : Char) : Bool := c.isAlpha || c == '_'

def isNameChar (c : Char) : Bool := c.isAlphanum || c == '_'

/-- Whether a member can stand without quotes. -/
def isBareName : List Char → Bool
  | [] => false
  | c :: rest => isNameStart c && rest.all isNameChar

def dollarStep : JsonStep → List Char
  | .key name =>
    if isBareName name.toList then '.' :: name.toList
    else
      '.' :: '"' :: name.toList.flatMap (fun c => if c = '"' then ['\\', '"'] else [c]) ++ ['"']
  | .index n => '[' :: natChars n ++ [']']

def dollar (path : JsonPath) : String :=
  String.ofList ('$' :: path.flatMap dollarStep)

def stepText : JsonStep → Value
  | .key name => .text name
  | .index n => .text (ofNat n)

/-- Reads the value at a path as text. -/
def extract (path : JsonPath) (d : Dialect) (column : String) : Fragment :=
  let column := Fragment.path column
  let dollar := Fragment.bind (.text (dollar path))
  match d with
  | .postgres =>
    .text "(" :: column ++ .text " #>> " :: Fragment.bind (.array (path.map stepText)) ++
      [.text ")"]
  | .mysql =>
    .text "JSON_UNQUOTE(JSON_EXTRACT(" :: column ++ .text ", " :: dollar ++ [.text "))"]
  | .mariadb => .text "JSON_VALUE(" :: column ++ .text ", " :: dollar ++ [.text ")"]
  | .sqlite => .text "json_extract(" :: column ++ .text ", " :: dollar ++ [.text ")"]

end JsonPath

end RecordMapper
