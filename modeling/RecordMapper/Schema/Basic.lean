import RecordMapper.Cast
import RecordMapper.NameMap
import RecordMapper.Schema.Relation

/-!
Schemas of models.

* `Schema` says which table a model is stored in and how its attributes behave.
* `Schema.isFillable` tells which attributes may be assigned in bulk, `Schema.shows` which ones are
  shown.
* `Catalog` finds schemas by their names.
-/
namespace RecordMapper

set_option autoImplicit false

/-- How a new record gets its primary key. -/
inductive KeyStrategy where
  /-- A fresh UUID, before the row is inserted. -/
  | uuid
  /-- The number the database reports. -/
  | autoIncrement
  /-- Whatever the caller sets. -/
  | manual
  deriving DecidableEq, Repr

/-- The stages of saving and deleting at which hooks run. -/
inductive Phase where
  | beforeSave
  | afterSave
  | beforeDelete
  | afterDelete
  deriving DecidableEq, Repr

def Phase.name : Phase → String
  | .beforeSave => "before_save"
  | .afterSave => "after_save"
  | .beforeDelete => "before_delete"
  | .afterDelete => "after_delete"

structure Timestamps where
  created : String
  updated : String
  deriving DecidableEq, Repr

def Timestamps.standard : Timestamps := ⟨"created_at", "updated_at"⟩

structure Index where
  name : String
  columns : List String
  deriving DecidableEq, Repr

structure ForeignKey where
  column : String
  referencedTable : String
  referencedColumn : String
  deriving DecidableEq, Repr

structure Schema where
  table : String
  primaryKey : String
  keyStrategy : KeyStrategy
  columns : List String
  indexes : List Index
  uniques : List (List String)
  foreignKeys : List ForeignKey
  encrypted : List String
  casts : NameMap Cast
  /-- The hooks to run, by name, in the order of declaration. -/
  hooks : List (Phase × String)
  fillable : Option (List String)
  guarded : List String
  visible : Option (List String)
  hidden : List String
  timestamps : Option Timestamps
  /-- The column that holds the moment of deletion of a row that is kept. -/
  softDelete : Option String
  /-- What becomes of a value when it is set. -/
  setters : NameMap (Value → Value)
  relations : List Relation

namespace Schema

/-- A model of which nothing but the table is declared. -/
def plain (table : String) : Schema :=
  { table, primaryKey := "id", keyStrategy := .uuid, columns := [], indexes := [], uniques := [],
    foreignKeys := [], encrypted := [], casts := .empty, hooks := [], fillable := none,
    guarded := [], visible := none, hidden := [], timestamps := none, softDelete := none,
    setters := .empty, relations := [] }

instance : Inhabited Schema := ⟨plain ""⟩

def hooksFor (s : Schema) (phase : Phase) : List String :=
  (s.hooks.filter fun h => h.1 = phase).map Prod.snd

/-- The value as the declared cast of its attribute makes it. -/
def castValue (s : Schema) (name : String) (v : Value) : Value :=
  match s.casts.get? name with
  | some cast => cast.apply v
  | none => v

/-- The value as the declared setter of its attribute makes it. -/
def setValue (s : Schema) (name : String) (v : Value) : Value :=
  match s.setters.get? name with
  | some setter => setter v
  | none => v

/-- The first relation of this name. -/
def relation (s : Schema) (name : String) : Result Relation :=
  match s.relations.find? fun r => r.name == name with
  | some r => .ok r
  | none => .error (.relationNotFound s.table name)

/-- Whether an attribute may be assigned in bulk. The primary key never may; a list of fillable
attributes wins over the guarded ones, among which a star guards all. -/
def isFillable (s : Schema) (name : String) : Bool :=
  if name = s.primaryKey then false
  else
    match s.fillable with
    | some names => names.contains name
    | none => !s.guarded.any fun g => g == name || g == "*"

/-- Whether an attribute is shown. A list of visible attributes wins over the hidden ones. -/
def shows (s : Schema) (name : String) : Bool :=
  match s.visible with
  | some names => names.contains name
  | none => !s.hidden.contains name

/-- Whether a loaded relation is shown. Only the hidden names count, and only when no attributes
are declared visible. -/
def showsRelation (s : Schema) (name : String) : Bool :=
  s.visible.isSome || !s.hidden.contains name

/-- The column with its table in front. -/
def qualified (s : Schema) (column : String) : String := s.table ++ "." ++ column

end Schema

/-! ## Finding schemas -/

structure Catalog where
  schemas : List (String × Schema)

namespace Catalog

def get? (c : Catalog) (name : String) : Option Schema :=
  (c.schemas.find? fun e => e.1 == name).map Prod.snd

/-- The schema a relation leads to, if it leads to one. -/
def related? (c : Catalog) (r : Relation) : Option Schema := r.related.bind c.get?

end Catalog

end RecordMapper
