import RecordMapper.Query.Fetch
import RecordMapper.Related.Candidates

/-!
Relations of one record.

* `BoundRelation` is a relation with the key of a parent record and a query that callers may refine.
* `BoundRelation.query?` is the query for the related rows. There is none if the parent has no key,
  or no type where the type decides; then every read is empty and no statement is sent.
* `BoundRelation.load` reads what the relation of the record is.
-/
namespace RecordMapper

set_option autoImplicit false

structure BoundRelation where
  relation : Relation
  parent : Schema
  /-- A relation to rows of many types has none until the parent names the type. -/
  related : Option Schema
  /-- The value of the parent that the related rows refer to. -/
  key : Value
  /-- The type stored beside the key. -/
  type : Option String
  query : Query

namespace BoundRelation

/-- The type the parent names, with its schema. -/
def namedType (morphs : MorphMap) (r : Relation) (record : Record) :
    Result (Option (String × Schema)) :=
  match (record.value r.morphTypeColumn).typeAlias? with
  | some name => do
    let schema ← morphs.resolve name
    return some (name, schema)
  | none => .ok none

/-- The related schema and the stored type of a relation of this record. -/
def target (catalog : Catalog) (morphs : MorphMap) (r : Relation) (record : Record) :
    Result (Option Schema × Option String) :=
  match r.kind with
  | .morphTo => do
    let named ← namedType morphs r record
    return (named.map Prod.snd, named.map Prod.fst)
  | _ => do
    let related ← r.requireRelated catalog
    return (some related, r.parentType? morphs record.schema)

def ofRecord (catalog : Catalog) (morphs : MorphMap) (d : Dialect) (r : Relation)
    (record : Record) : Result BoundRelation := do
  let (related, type) ← target catalog morphs r record
  let query ← match related with
    | some schema => r.candidates schema d
    | none => pure (.on "" d)
  return ⟨r, record.schema, related, record.value r.parentColumn, type, query⟩

/-! ## Refining -/

def refine (b : BoundRelation) (f : Query → Query) : BoundRelation := { b with query := f b.query }

/-- The query with columns of the pivot table, which are read as `pivot_` and their names. -/
def withPivot (b : BoundRelation) (columns : List String) : Result BoundRelation := do
  let p ← b.relation.requirePivot
  return b.refine fun q =>
    columns.foldl (fun q c =>
      q.addExpr (.named (.column (p.table ++ "." ++ c)) ("pivot_" ++ c))) q

/-! ## Reading -/

/-- The related schema and the query for the related rows. -/
def target? (b : BoundRelation) : Result (Option (Schema × Query)) :=
  match b.related with
  | none => .ok none
  | some related =>
    if b.key.isNull then .ok none
    else do
      let q ← b.relation.ownedBy related b.key b.type b.query
      return some (related, b.relation.settled related q)

def query? (b : BoundRelation) : Result (Option Query) := do
  let found ← b.target?
  return found.map Prod.snd

variable {σ α : Type}

/-- Runs the query, or answers without one. -/
def whenBound (b : BoundRelation) (unbound : α) (run : Schema → Query → Action σ α) :
    Action σ α := do
  match ← .ofResult b.target? with
  | some (related, q) => run related q
  | none => return unbound

def records (b : BoundRelation) (s : Session σ) : Action σ (List Record) :=
  b.whenBound [] fun related q => do
    let rows ← q.rows s
    return rows.map (Record.hydrate related)

def first? (b : BoundRelation) (s : Session σ) : Action σ (Option Record) := do
  let found ← (b.refine fun q => q.take 1).records s
  return found.head?

def count (b : BoundRelation) (s : Session σ) : Action σ Nat :=
  b.whenBound 0 fun _ q => q.count s

def anyRow (b : BoundRelation) (s : Session σ) : Action σ Bool :=
  b.whenBound false fun _ q => q.anyRow s

def pluck (b : BoundRelation) (s : Session σ) (column : String) : Action σ (List Value) :=
  b.whenBound [] fun _ q => q.pluck s column

/-- One record or many, as the kind of the relation has it. -/
def load (b : BoundRelation) (s : Session σ) : Action σ Loaded :=
  if b.relation.kind.isToOne then do
    let found ← b.first? s
    return .one found
  else do
    let found ← b.records s
    return .many found

end BoundRelation

namespace Session

variable {σ : Type}

/-- Binds a relation to a record. -/
def bound (s : Session σ) (r : Relation) (record : Record) : Result BoundRelation :=
  BoundRelation.ofRecord s.catalog s.morphs s.dialect r record

/-- Binds the declared relation of this name. -/
def related (s : Session σ) (record : Record) (name : String) : Result BoundRelation := do
  let r ← record.schema.relation name
  s.bound r record

end Session

end RecordMapper
