import RecordMapper.Related.Matching
import RecordMapper.Session.Change
import RecordMapper.Text.Split

/-!
Loading relations of many records, to any depth.

* `PathForest` are the paths to load, each shared beginning once and in ascending order of the
  names.
* `Session.load` loads every relation of a forest into the given records and into the records
  reached on the way. A relation without related rows is loaded too, as an empty one.
-/
namespace RecordMapper

set_option autoImplicit false

open RecordMapper.Text

/-- The relations to load, with those to load below each of them. -/
inductive PathForest where
  | none
  | relation (name : String) (below rest : PathForest)
  deriving Repr

namespace PathForest

def ofPath : List String → PathForest
  | [] => .none
  | name :: path => .relation name (ofPath path) .none

/-- Adds one path, before the first greater name. -/
def insert : List String → PathForest → PathForest
  | [], forest => forest
  | name :: path, .none => ofPath (name :: path)
  | name :: path, .relation first below rest =>
    if name < first then .relation name (ofPath path) (.relation first below rest)
    else if name = first then .relation first (insert path below) rest
    else .relation first below (insert (name :: path) rest)

/-- The relations named by a dotted path, without blanks around the names. -/
def segments (path : String) : List String := (fields '.' path).map trim

/-- Reads dotted paths, none of which has an empty segment. -/
def read (paths : List String) : Result PathForest :=
  paths.foldlM (fun forest path =>
    if (segments path).contains "" then .error (.cannotCompile (.invalidLoadPath path))
    else .ok (forest.insert (segments path))) .none

end PathForest

namespace Record

/-- The records loaded for a relation of all the records. -/
def reached (name : String) (records : List Record) : List Record :=
  records.flatMap fun r => r.relatedRecords name

/-- Writes the records reached through a relation back to where they were. -/
def putReached (name : String) : List Record → List Record → List Record
  | [], _ => []
  | r :: rest, reached =>
    match r.relation? name with
    | some l =>
      r.setRelation name (l.replace reached).1 :: putReached name rest (l.replace reached).2
    | none => r :: putReached name rest reached

/-- The tables of the records in ascending order, each with the schema of its first record. -/
def tables (records : List Record) : List (String × Schema) :=
  Assoc.insertAll [] (records.reverse.map fun r => (r.schema.table, r.schema))

/-- The records of one table. -/
def ofTable (table : String) (records : List Record) : List Record :=
  records.filter fun r => r.schema.table = table

/-- Sets a relation of the records of one table. -/
def setMatches (table : String) (relation : Relation) (m : Matches) (records : List Record) :
    List Record :=
  records.map fun r =>
    if r.schema.table = table then
      r.setRelation relation.name (m.loaded (relation.parentKey? r))
    else r

end Record

namespace Session

variable {σ : Type}

/-- Loads one relation of the records, table by table. -/
def loadTables (s : Session σ) (name : String) :
    List (String × Schema) → Change σ (List Record) Unit
  | [] => return ()
  | (table, schema) :: rest => do
    let relation ← .ofResult (schema.relation name)
    let records ← .current
    let found ← .ofAction (relation.batch s schema (Record.ofTable table records))
    .modify (Record.setMatches table relation found)
    s.loadTables name rest

/-- Loads one relation of the records. -/
def loadRelation (s : Session σ) (name : String) : Change σ (List Record) Unit := do
  let records ← .current
  s.loadTables name (Record.tables records)

/-- Loads the relations of a forest into the records, and what is below them into the records they
reach. -/
def loadForest (s : Session σ) : PathForest → Change σ (List Record) Unit
  | .none => return ()
  | .relation name below rest => do
    s.loadRelation name
    (s.loadForest below).within (Record.reached name) (fun rs => Record.putReached name rs)
    s.loadForest rest

/-- Loads the relations of dotted paths into the records. -/
def load (s : Session σ) (paths : List String) : Change σ (List Record) Unit := do
  let forest ← .ofResult (PathForest.read paths)
  s.loadForest forest

end Session

end RecordMapper
