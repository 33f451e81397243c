import RecordMapper.Text.Blank

/-!
Cutting text at a separator.

* `fieldsAt` are the parts between separators; there is always one more of them than separators.
* `joinWith` puts a separator between each two texts.
-/
namespace RecordMapper.Text

set_option autoImplicit false

/-- The parts of a text between the separators, `part` being the open one, last character first. -/
def fieldsFrom (separator : Char) (part : List Char) : List Char → List (List Char)
  | [] => [part.reverse]
  | c :: rest =>
    if c = separator then part.reverse :: fieldsFrom separator [] rest
    else fieldsFrom separator (c :: part) rest

def fieldsAt (separator : Char) (cs : List Char) : List (List Char) :=
  fieldsFrom separator [] cs

/-- The parts of a text between the separators. -/
def fields (separator : Char) (s : String) : List String :=
  (fieldsAt separator s.toList).map String.ofList

def joinWith (separator : List Char) : List (List Char) → List Char
  | [] => []
  | [a] => a
  | a :: b :: rest => a ++ separator ++ joinWith separator (b :: rest)

/-- The texts with a separator between each two. -/
def joined (separator : String) (texts : List String) : String :=
  String.ofList (joinWith separator.toList (texts.map String.toList))

/-- Lower case for the letters A to Z; all other characters stay. -/
def lower (s : String) : String := s.map Char.toLower

/-- Upper case for the letters a to z; all other characters stay. -/
def upper (s : String) : String := s.map Char.toUpper

/-- Whether a text holds another one as a run of neighbouring characters. -/
def containsRun (run : List Char) : List Char → Bool
  | [] => run.isEmpty
  | c :: rest => run.isPrefixOf (c :: rest) || containsRun run rest

end RecordMapper.Text
