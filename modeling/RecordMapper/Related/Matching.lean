import RecordMapper.Related.Bound
import RecordMapper.Value.Key

/-!
Related rows of many records at once.

* `Relation.batch` reads the related rows of all parents with one query, or with one for each stored
  type where the parents name types.
* `Matches` files the rows under the keys of the parents they belong to; `Relation.parentKey?` is
  the key of a parent.
-/
namespace RecordMapper

set_option autoImplicit false

/-- Related records under the keys of their parents, in the order of the rows. -/
structure Matches where
  toOne : Bool
  found : List (Key × Record)

namespace Matches

def recordsOf (m : Matches) (key : Key) : List Record :=
  (m.found.filter fun f => f.1 = key).map Prod.snd

/-- What the parent with this key holds; a parent without a key holds nothing. -/
def loaded (m : Matches) (key : Option Key) : Loaded :=
  .shaped m.toOne ((key.map m.recordsOf).getD [])

/-- The keys under which there is a record. -/
def keys (m : Matches) : List Key := (m.found.map Prod.fst).eraseDups

end Matches

namespace Relation

variable {σ : Type}

/-- The key under which the rows of a record are filed. It has none if nothing can belong to it. -/
def parentKey? (r : Relation) (record : Record) : Option Key :=
  let id := record.value r.parentColumn
  match r.kind with
  | .morphTo => do
    let name ← (record.value r.morphTypeColumn).typeAlias?
    Key.composite? [.text name, id]
  | _ => id.key?

/-- The column of a related row that names its parent. -/
def ownerColumn (r : Relation) : String :=
  match r.kind with
  | .morphOne => r.morphIdColumn
  | .morphMany => r.morphIdColumn
  | .belongsTo => r.ownerKey
  | _ => r.foreignKey

/-- The value that names the parent of a row, and the row without what was added for that. -/
def ownerOf (r : Relation) (row : Row) : Option Value × Row :=
  match r.ownerAlias? with
  | some name => row.splitOff name
  | none => (row.named? r.ownerColumn, row)

/-- The record of a row under the key of its parent. -/
def filed? (r : Relation) (related : Schema) (row : Row) : Option (Key × Record) := do
  let (owner, row) := r.ownerOf row
  let key ← (← owner).key?
  return (key, .hydrate related row)

/-! ## One related table -/

/-- The query for the rows of parents with these keys. -/
def batchQuery (s : Session σ) (r : Relation) (parent related : Schema) (keys : List Value) :
    Result Query := do
  let q ← r.candidates related s.dialect
  let q ← r.ownedByAny related keys (r.parentType? s.morphs parent) q
  return r.settled related q

def parentValues (r : Relation) (parents : List Record) : List Value :=
  Key.distinct id (parents.map fun p => p.value r.parentColumn)

def batchOne (s : Session σ) (r : Relation) (parent : Schema) (parents : List Record) :
    Action σ Matches :=
  match r.parentValues parents with
  | [] => return ⟨r.kind.isToOne, []⟩
  | keys => do
    let related ← .ofResult (r.requireRelated s.catalog)
    let q ← .ofResult (r.batchQuery s parent related keys)
    let rows ← q.rows s
    return ⟨r.kind.isToOne, rows.filterMap (r.filed? related)⟩

/-! ## One table for each stored type -/

/-- Adds the key of a parent to those of its type. -/
def addByType (r : Relation) (types : NameMap (List Value)) (parent : Record) :
    NameMap (List Value) :=
  let id := parent.value r.parentColumn
  match (parent.value r.morphTypeColumn).typeAlias? with
  | some name =>
    if id.isNull then types else types.insert name ((types.get? name).getD [] ++ [id])
  | none => types

/-- The keys that parents refer to, by the types they name. -/
def keysByType (r : Relation) (parents : List Record) : NameMap (List Value) :=
  parents.foldl r.addByType .empty

/-- The record of a row under its type and its own key. -/
def filedByType? (name : String) (related : Schema) (row : Row) : Option (Key × Record) := do
  let record := Record.hydrate related row
  let key ← Key.composite? [.text name, record.value related.primaryKey]
  return (key, record)

/-- The rows of one type. -/
def batchType (s : Session σ) (r : Relation) (name : String) (keys : List Value) :
    Action σ (List (Key × Record)) := do
  let related ← .ofResult (s.morphs.resolve name)
  let q ← .ofResult (do
    let q ← r.candidates related s.dialect
    r.ownedByAny related (Key.distinct id keys) none q)
  let rows ← q.rows s
  return rows.filterMap (filedByType? name related)

/-- The rows of all types, in the order of the types. -/
def batchTypes (s : Session σ) (r : Relation) :
    List (String × List Value) → Action σ (List (Key × Record))
  | [] => return []
  | (name, keys) :: rest => do
    let found ← r.batchType s name keys
    let others ← r.batchTypes s rest
    return found ++ others

/-! ## Any relation -/

/-- The related records of all parents, which are of one schema. Without a key among them no
statement is sent. -/
def batch (s : Session σ) (r : Relation) (parent : Schema) (parents : List Record) :
    Action σ Matches :=
  match r.kind with
  | .morphTo => do
    let found ← r.batchTypes s (r.keysByType parents).entries
    return ⟨true, found⟩
  | _ => r.batchOne s parent parents

end Relation

end RecordMapper
