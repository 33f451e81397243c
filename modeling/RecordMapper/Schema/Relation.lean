/-!
Relations between models, as they are declared.

* `RelationKind` tells how two models are linked, `Relation` is one declared relation.
* `Relation.parentColumn` is the column of a record by which its related rows are found.
* Schemas refer to each other by name, so that declarations may be circular.
-/
namespace RecordMapper

set_option autoImplicit false

inductive RelationKind where
  /-- One row holds the key of the parent. -/
  | hasOne
  | hasMany
  /-- The parent holds the key of one row. -/
  | belongsTo
  /-- A pivot table holds both keys. -/
  | manyToMany
  /-- One row holds the key of an intermediate row, which holds the key of the parent. -/
  | hasOneThrough
  | hasManyThrough
  /-- One row holds the key of the parent and the name of its type. -/
  | morphOne
  | morphMany
  /-- The parent holds the key of one row and the name of its type. -/
  | morphTo
  deriving DecidableEq, Repr

/-- Whether there is at most one related record. -/
def RelationKind.isToOne : RelationKind → Bool
  | .hasOne => true
  | .belongsTo => true
  | .hasOneThrough => true
  | .morphOne => true
  | .morphTo => true
  | _ => false

/-- A table of links: `localKey` refers to `parentKey` of the parent, `foreignKey` to `relatedKey`
of the related row. -/
structure Pivot where
  table : String
  localKey : String
  foreignKey : String
  parentKey : String
  relatedKey : String
  deriving DecidableEq, Repr

/-- An intermediate table: its `firstKey` refers to `localKey` of the parent, and `secondKey` of the
related table refers to its `secondLocalKey`. -/
structure Through where
  table : String
  firstKey : String
  secondKey : String
  localKey : String
  secondLocalKey : String
  deriving DecidableEq, Repr

structure Relation where
  name : String
  kind : RelationKind
  /-- The name of the related schema; a relation to rows of many types has none. -/
  related : Option String
  foreignKey : String
  localKey : String
  ownerKey : String
  pivot : Option Pivot
  through : Option Through
  /-- What the names of the type and key columns begin with. -/
  morphName : Option String
  deriving DecidableEq, Repr

namespace Relation

/-- A relation that is declared with nothing but its kind. -/
def plain (name : String) (kind : RelationKind) (related : Option String) : Relation :=
  { name, kind, related, foreignKey := "", localKey := "id", ownerKey := "id", pivot := none,
    through := none, morphName := none }

def morphBase (r : Relation) : String := r.morphName.getD r.name

def morphTypeColumn (r : Relation) : String := r.morphBase ++ "_type"

def morphIdColumn (r : Relation) : String := r.morphBase ++ "_id"

/-- The column of the parent record whose value binds the relation. -/
def parentColumn (r : Relation) : String :=
  match r.kind with
  | .belongsTo => r.foreignKey
  | .manyToMany => (r.pivot.map Pivot.parentKey).getD r.localKey
  | .hasOneThrough => (r.through.map Through.localKey).getD r.localKey
  | .hasManyThrough => (r.through.map Through.localKey).getD r.localKey
  | .morphTo => r.morphIdColumn
  | _ => r.localKey

end Relation

end RecordMapper
