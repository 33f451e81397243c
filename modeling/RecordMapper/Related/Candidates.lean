import RecordMapper.Query.Write
import RecordMapper.Schema.Morph

/-!
The queries for related rows.

* `Relation.candidates` is the query for all rows that may be related to any record: the related
  table with the joins its kind needs, without rows that count as deleted.
* `Relation.ownedBy` narrows it to the rows of one parent, `Relation.ownedByAny` to those of several
  parents, and then each row names its parent.
* `Relation.settled` orders a query of which only the first row is wanted.
-/
namespace RecordMapper

set_option autoImplicit false

/-- A stored name of a type. NULL names none. -/
def Value.typeAlias? (v : Value) : Option String :=
  if v.isNull then none else some (v.text?.getD v.display)

namespace Relation

/-- The column under which a row found through a pivot table names its parent. -/
def pivotOwner : String := "__pivot_key"

/-- The column under which a row found through an intermediate table names its parent. -/
def throughOwner : String := "__through_key"

/-! ## What a relation has to declare -/

def requirePivot (r : Relation) : Result Pivot :=
  match r.pivot with
  | some p => .ok p
  | none => .error (.misconfigured (.noPivot r.name))

def requireThrough (r : Relation) : Result Through :=
  match r.through with
  | some t => .ok t
  | none => .error (.misconfigured (.noThrough r.name))

def requireRelated (r : Relation) (catalog : Catalog) : Result Schema :=
  match catalog.related? r with
  | some schema => .ok schema
  | none => .error (.misconfigured (.noRelated r.name))

/-! ## Candidates -/

/-- The rows of a related table itself. -/
def plainCandidates (related : Schema) (d : Dialect) : Query :=
  (Query.on related.table d).keyedBy related.primaryKey

/-- The rows of a related table joined with another one; only columns of the related table are
read. -/
def joinedCandidates (related : Schema) (d : Dialect) (table left right : String) : Query :=
  ((plainCandidates related d).select [related.qualified "*"]).joinOn .inner table left .eq right

/-- The query without rows that count as deleted. -/
def withoutTrashed (related : Schema) (q : Query) : Query :=
  match related.softDelete with
  | some column => q.scope (.isNull (.column (related.qualified column)) false)
  | none => q

def throughCandidates (r : Relation) (related : Schema) (d : Dialect) : Result Query := do
  let t ← r.requireThrough
  return joinedCandidates related d t.table (t.table ++ "." ++ t.secondLocalKey)
    (related.qualified t.secondKey)

def candidates (r : Relation) (related : Schema) (d : Dialect) : Result Query := do
  let q ← match r.kind with
    | .manyToMany => do
      let p ← r.requirePivot
      pure (joinedCandidates related d p.table (related.qualified p.relatedKey)
        (p.table ++ "." ++ p.foreignKey))
    | .hasOneThrough => r.throughCandidates related d
    | .hasManyThrough => r.throughCandidates related d
    | _ => pure (plainCandidates related d)
  return withoutTrashed related q

/-! ## Rows of given parents -/

def throughKeyColumn (r : Relation) : Result String := do
  let t ← r.requireThrough
  return t.table ++ "." ++ t.firstKey

/-- The column that is compared with the key of the parent. -/
def keyColumn (r : Relation) (related : Schema) : Result String :=
  match r.kind with
  | .hasOne => .ok (related.qualified r.foreignKey)
  | .hasMany => .ok (related.qualified r.foreignKey)
  | .morphOne => .ok (related.qualified r.morphIdColumn)
  | .morphMany => .ok (related.qualified r.morphIdColumn)
  | .belongsTo => .ok (related.qualified r.ownerKey)
  | .morphTo => .ok (related.qualified related.primaryKey)
  | .manyToMany => do
    let p ← r.requirePivot
    return p.table ++ "." ++ p.localKey
  | .hasOneThrough => r.throughKeyColumn
  | .hasManyThrough => r.throughKeyColumn

/-- Whether the related rows store the type of the parent. -/
def storesParentType (r : Relation) : Bool :=
  match r.kind with
  | .morphOne => true
  | .morphMany => true
  | _ => false

/-- The name under which related rows store the type of the parent, if they do. -/
def parentType? (r : Relation) (morphs : MorphMap) (parent : Schema) : Option String :=
  if r.storesParentType then some (morphs.typeName parent) else none

/-- Only rows that belong to a parent of this type. -/
def ofParentType (r : Relation) (related : Schema) (type : Option String) (q : Query) : Query :=
  match r.storesParentType, type with
  | true, some name => q.scopeEq (related.qualified r.morphTypeColumn) (.text name)
  | _, _ => q

/-- The rows that belong to the parent with this key. -/
def ownedBy (r : Relation) (related : Schema) (key : Value) (type : Option String) (q : Query) :
    Result Query := do
  let column ← r.keyColumn related
  return r.ofParentType related type (q.scopeEq column key)

/-- The column added to a batch of rows so that each names its parent, if the related table has
none. -/
def ownerAlias? (r : Relation) : Option String :=
  match r.kind with
  | .manyToMany => some pivotOwner
  | .hasOneThrough => some throughOwner
  | .hasManyThrough => some throughOwner
  | _ => none

def withOwner (r : Relation) (column : String) (q : Query) : Query :=
  match r.ownerAlias? with
  | some name => q.addExpr (.named (.column column) name)
  | none => q

/-- The rows that belong to any of the parents with these keys. -/
def ownedByAny (r : Relation) (related : Schema) (keys : List Value) (type : Option String)
    (q : Query) : Result Query := do
  let column ← r.keyColumn related
  return r.ofParentType related type
    ((r.withOwner column q).scope (.isIn (.column column) keys false))

/-- Whether several rows may match although one is wanted. -/
def picksOne (r : Relation) : Bool :=
  match r.kind with
  | .hasOne => true
  | .hasOneThrough => true
  | .morphOne => true
  | _ => false

/-- The query with its rows in the order of their keys, if the first is to be picked and the caller
has given no order. -/
def settled (r : Relation) (related : Schema) (q : Query) : Query :=
  if r.picksOne && !q.isOrdered then q.ascending (related.qualified related.primaryKey) else q

end Relation

end RecordMapper
