import RecordMapper.Query.Write
import RecordMapper.Row
import RecordMapper.Schema.Basic

/-!
Records: rows as objects.

* `Record` has the current attributes, the `snapshot` last read or written, the relations loaded so
  far, and whether its row exists.
* `Record.dirty` are the attributes that differ from the snapshot.
* `Loaded` is what loading a relation gives.
-/
namespace RecordMapper

set_option autoImplicit false

mutual

structure Record where
  schema : Schema
  attributes : Attributes
  snapshot : Attributes
  /-- In ascending order of the names. -/
  relations : List (String × Loaded)
  persisted : Bool

inductive Loaded where
  | one (record : Option Record)
  | many (records : List Record)

end

namespace Loaded

/-- One record or all of them. -/
def shaped (toOne : Bool) (records : List Record) : Loaded :=
  if toOne then .one records.head? else .many records

def records : Loaded → List Record
  | .one r => r.toList
  | .many rs => rs

def size (l : Loaded) : Nat := l.records.length

def isEmpty (l : Loaded) : Bool := l.records.isEmpty

/-- The same shape around other records, taken from the front of a list; what the shape does not
take is left over. -/
def replace (l : Loaded) (records : List Record) : Loaded × List Record :=
  match l with
  | .one none => (.one none, records)
  | .one (some _) => (.one records.head?, records.tail)
  | .many rs => (.many (records.take rs.length), records.drop rs.length)

end Loaded

namespace Record

/-- A record without attributes, of which there is no row. -/
def new (schema : Schema) : Record := ⟨schema, .empty, .empty, [], false⟩

instance : Inhabited Record := ⟨new default⟩

/-- The attributes a row gives, cast as declared. -/
def castRow (schema : Schema) (row : Row) : Attributes :=
  NameMap.ofList (row.pairs.map fun p => (p.1, schema.castValue p.1 p.2))

/-- The record of an existing row. -/
def hydrate (schema : Schema) (row : Row) : Record :=
  ⟨schema, castRow schema row, castRow schema row, [], true⟩

/-- The record with the attributes of a row read again, and its relations kept. -/
def refill (r : Record) (row : Row) : Record :=
  { r with attributes := castRow r.schema row, snapshot := castRow r.schema row, persisted := true }

/-! ## Attributes -/

def get? (r : Record) (name : String) : Option Value := r.attributes.get? name

/-- The value of an attribute, NULL if it is absent. -/
def value (r : Record) (name : String) : Value := (r.get? name).getD .null

def set (r : Record) (name : String) (v : Value) : Record :=
  { r with attributes := r.attributes.insert name (r.schema.setValue name v) }

/-- Sets the attributes that may be assigned in bulk, in order. -/
def fill (r : Record) (data : List (String × Value)) : Record :=
  data.foldl (fun r p => if r.schema.isFillable p.1 then r.set p.1 p.2 else r) r

/-- Sets all of the attributes, in order. -/
def forceFill (r : Record) (data : List (String × Value)) : Record :=
  data.foldl (fun r p => r.set p.1 p.2) r

/-! ## Keys -/

def present? (v : Option Value) : Option Value := v.filter fun v => !v.isNull

/-- The primary key, if it is set. -/
def key? (r : Record) : Option Value := present? (r.get? r.schema.primaryKey)

/-- The primary key by which the row is known to the database: that of the snapshot, and the
current one if the snapshot has none. -/
def storedKey? (r : Record) : Option Value :=
  match present? (r.snapshot.get? r.schema.primaryKey) with
  | some v => some v
  | none => r.key?

/-! ## Changes -/

/-- Whether a value differs from the one in the snapshot. -/
def differs (snapshot : Attributes) (name : String) (v : Value) : Bool :=
  match snapshot.get? name with
  | some old => !old.same v
  | none => true

def dirty (r : Record) : Attributes := r.attributes.filter (differs r.snapshot)

def isDirty (r : Record) : Bool := !r.dirty.isEmpty

def isAttributeDirty (r : Record) (name : String) : Bool :=
  match r.get? name, r.snapshot.get? name with
  | some current, some old => !current.same old
  | none, none => false
  | _, _ => true

/-- Takes the snapshot anew. -/
def sync (r : Record) : Record := { r with snapshot := r.attributes }

/-- Takes the snapshot of one attribute anew. -/
def syncAttribute (r : Record) (name : String) : Record :=
  match r.get? name with
  | some v => { r with snapshot := r.snapshot.insert name v }
  | none => { r with snapshot := r.snapshot.erase name }

def syncAttributes (r : Record) (attributes : List String) : Record :=
  attributes.foldl syncAttribute r

/-- The record after its row has been written. -/
def markPersisted (r : Record) : Record := { r.sync with persisted := true }

/-- The record after its row has been deleted. -/
def markDeleted (r : Record) : Record := { r with persisted := false }

/-- Whether the row is kept as deleted. -/
def isTrashed (r : Record) : Bool :=
  match r.schema.softDelete with
  | some column => !(r.value column).isNull
  | none => false

/-! ## Relations -/

def relation? (r : Record) (name : String) : Option Loaded := Assoc.get? name r.relations

def setRelation (r : Record) (name : String) (l : Loaded) : Record :=
  { r with relations := Assoc.insert name l r.relations }

/-- Takes a loaded relation out of the record. -/
def takeRelation (r : Record) (name : String) : Option Loaded × Record :=
  (r.relation? name, { r with relations := Assoc.erase name r.relations })

/-- The records loaded for a relation. -/
def relatedRecords (r : Record) (name : String) : List Record :=
  ((r.relation? name).map Loaded.records).getD []

end Record

end RecordMapper
