import RecordMapper.Json.Basic
import RecordMapper.Number.Layout

/-!
Compact JSON text: no blanks, fields in ascending order, and escapes only where the grammar demands
them.
-/
namespace RecordMapper.Json

set_option autoImplicit false

open RecordMapper.Number RecordMapper.Text

/-- Quotes, backslashes and control characters are escaped, the latter by a letter where one
exists. -/
def escape (c : Char) : List Char :=
  match c with
  | '"' => ['\\', '"']
  | '\\' => ['\\', '\\']
  | '\n' => ['\\', 'n']
  | '\r' => ['\\', 'r']
  | '\t' => ['\\', 't']
  | '\x08' => ['\\', 'b']
  | '\x0c' => ['\\', 'f']
  | c => if c.toNat < 32 then ['\\', 'u'] ++ hexPlaces 4 c.toNat else [c]

def quoted (s : String) : List Char :=
  '"' :: s.toList.flatMap escape ++ ['"']

mutual

def write : Json → List Char
  | .null => ['n', 'u', 'l', 'l']
  | .bool true => ['t', 'r', 'u', 'e']
  | .bool false => ['f', 'a', 'l', 's', 'e']
  | .integer n => intChars n
  | .float x => jsonNumber.write x
  | .string s => quoted s
  | .array items => '[' :: writeItems items ++ [']']
  | .object fields => '\x7b' :: writeFields fields ++ ['\x7d']

def writeItems : List Json → List Char
  | [] => []
  | [a] => a.write
  | a :: b :: rest => a.write ++ ',' :: writeItems (b :: rest)

def writeFields : List (String × Json) → List Char
  | [] => []
  | [(k, a)] => quoted k ++ ':' :: a.write
  | (k, a) :: f :: rest => quoted k ++ ':' :: a.write ++ ',' :: writeFields (f :: rest)

end

def text (j : Json) : String := String.ofList j.write

end RecordMapper.Json
