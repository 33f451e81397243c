import RecordMapper.Record.Lifecycle

/-!
The records of one schema.

* `Repository` is a schema with a session; it sees the rows that are not marked as deleted, or the
  marked ones, or both.
* It finds records, goes through all of them by pages or in chunks, and makes new ones.
-/
namespace RecordMapper

set_option autoImplicit false

/-- Which rows are seen, where a schema keeps deleted rows. -/
inductive Trashed where
  | excluded
  | included
  | only
  deriving DecidableEq, Repr

structure Repository (σ : Type) where
  session : Session σ
  schema : Schema
  trashed : Trashed

namespace Repository

variable {σ : Type}

def on (session : Session σ) (schema : Schema) : Repository σ := ⟨session, schema, .excluded⟩

def withTrashed (p : Repository σ) : Repository σ := { p with trashed := .included }

def onlyTrashed (p : Repository σ) : Repository σ := { p with trashed := .only }

/-- The rows the repository sees. -/
def query (p : Repository σ) : Query :=
  let q := p.schema.allRows p.session.dialect
  match p.schema.softDelete, p.trashed with
  | none, _ => q
  | some _, .included => q
  | some column, .excluded => q.scope (.isNull (.column (p.schema.qualified column)) false)
  | some column, .only => q.scope (.isNull (.column (p.schema.qualified column)) true)

/-! ## Finding -/

def hydrate (p : Repository σ) (row : Row) : Record := .hydrate p.schema row

/-- The records of a query. -/
def get (p : Repository σ) (q : Query) : Action σ (List Record) := do
  let rows ← q.rows p.session
  return rows.map p.hydrate

def all (p : Repository σ) : Action σ (List Record) := p.get p.query

/-- The record with this primary key. -/
def find? (p : Repository σ) (id : Value) : Action σ (Option Record) := do
  let row ← p.query.find? p.session id
  return row.map p.hydrate

/-- The record with this primary key; it is a failure if there is none. -/
def find (p : Repository σ) (id : Value) : Action σ Record := do
  match ← p.find? id with
  | some r => return r
  | none => .fail (p.schema.missingRow id)

/-- The records with these primary keys. -/
def findMany (p : Repository σ) (ids : List Value) : Action σ (List Record) :=
  if ids.isEmpty then return []
  else p.get (p.query.filter (.isIn (.column p.schema.primaryKey) ids false))

/-- The first record with this value in a column. -/
def firstWhere (p : Repository σ) (column : String) (v : Value) : Action σ (Option Record) := do
  let row ← (p.query.filterEq column v).first? p.session
  return row.map p.hydrate

/-! ## Going through all records -/

/-- All rows in the order of their keys. -/
def inOrder (p : Repository σ) : Query := p.query.ascending p.schema.primaryKey

def paginate (p : Repository σ) (number : Nat) (perPage : Option Nat) :
    Action σ (Page Record) := do
  let page ← p.inOrder.paginate p.session number (perPage.getD p.session.settings.perPage)
  return page.map p.hydrate

/-- Goes through all records in chunks, with at most `bound` queries. -/
def chunk (p : Repository σ) (size : Option Nat) (goOn : List (List Record) → Bool)
    (bound : Nat) : StateM σ (Query.Walk Record) := do
  let walk ← p.inOrder.chunks p.session (size.getD p.session.settings.chunkSize)
    (fun batches => goOn (batches.map (List.map p.hydrate))) bound
  return walk.map p.hydrate

/-! ## Making records -/

/-- A new record with the attributes that may be assigned in bulk. -/
def make (p : Repository σ) (attributes : Attributes) : Record :=
  (Record.new p.schema).fill attributes.entries

/-- Makes a record and saves it. -/
def create (p : Repository σ) (attributes : Attributes) : Action σ Record := do
  match ← Action.ofState ((Record.save p.session).runOn (p.make attributes)) with
  | (.ok _, r) => return r
  | (.error h, _) => .ofOutcome (.error h)

end Repository

end RecordMapper
