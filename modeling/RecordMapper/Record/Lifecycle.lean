import RecordMapper.Query.Fetch
import RecordMapper.Related.Loading

/-!
Writing records and reading them again.

* `Record.save` inserts a new record and updates what is dirty of an existing one.
* `Record.destroy` deletes a row, or marks it as deleted where the schema keeps deleted rows;
  `Record.restore` takes the mark away.
* `Record.refresh` reads the row again.
* Hooks run before and after. One that fails beforehand keeps the statement from being sent.
-/
namespace RecordMapper

set_option autoImplicit false

/-- The rows of a schema, with those that are marked as deleted. -/
def Schema.allRows (schema : Schema) (d : Dialect) : Query :=
  (Query.on schema.table d).keyedBy schema.primaryKey

/-- The failure of a look-up by the primary key. -/
def Schema.missingRow (schema : Schema) (id : Value) : Fault :=
  .recordNotFound schema.table ("no row with " ++ schema.primaryKey ++ " = " ++ id.display)

namespace Record

variable {σ : Type}

/-- The key by which an existing row is addressed. -/
def requireKey (r : Record) : Result Value :=
  match r.storedKey? with
  | some key => .ok key
  | none => .error (.misconfigured (.noPersistedKey r.schema.table))

/-- The query for the row with a key. -/
def rowQuery (s : Session σ) (r : Record) (key : Value) : Query :=
  (r.schema.allRows s.dialect).filterEq r.schema.primaryKey key

def runHooks (s : Session σ) (phase : Phase) : Change σ Record Unit :=
  .of fun r =>
    match s.hooks.run phase r with
    | (.ok (), r) => pure (.ok (), r)
    | (.error f, r) => pure (.error (.fault f), r)

/-! ## Inserting -/

/-- Sets a fresh key, if the schema asks for one and none is set. -/
def giveKey (s : Session σ) : Change σ Record Unit := do
  let r ← .current
  if r.key?.isNone && r.schema.keyStrategy = .uuid then
    let key ← .ofAction s.freshKey
    .modify fun r => r.set r.schema.primaryKey key

/-- The record with its timestamps set for an insertion. A moment of creation that is set stays. -/
def stampedNew (r : Record) (t : Timestamps) (now : Value) : Record :=
  ((if (r.value t.created).isNull then r.set t.created now else r)).set t.updated now

def stampNew (s : Session σ) : Change σ Record Unit := do
  let r ← .current
  match r.schema.timestamps with
  | some t =>
    let now ← .ofAction s.now
    .modify fun r => r.stampedNew t now
  | none => return ()

/-- The attributes to insert; a key that is not set is left to the database. -/
def insertable (r : Record) : Attributes :=
  if r.key?.isNone then r.attributes.erase r.schema.primaryKey else r.attributes

/-- The record with the key the database generated, if it takes one. -/
def takeKey (e : Execution) (r : Record) : Record :=
  match e.insertId with
  | some id =>
    if r.key?.isNone && r.schema.keyStrategy = .autoIncrement then r.set r.schema.primaryKey id
    else r
  | none => r

/-- Inserts the row of a new record. -/
def insertRow (s : Session σ) : Change σ Record Unit := do
  giveKey s
  stampNew s
  let r ← .current
  let e ← .ofAction ((r.schema.allRows s.dialect).insert s r.insertable)
  .modify (takeKey e)

/-! ## Updating -/

/-- Sets the moment of the last update, unless the caller has changed it. -/
def stampChanged (s : Session σ) : Change σ Record Unit := do
  let r ← .current
  match r.schema.timestamps with
  | some t =>
    if r.isAttributeDirty t.updated then return ()
    else
      let now ← .ofAction s.now
      .modify fun r => r.set t.updated now
  | none => return ()

/-- Updates the dirty attributes of an existing record. -/
def updateRow (s : Session σ) : Change σ Record Unit := do
  stampChanged s
  let r ← .current
  let key ← .ofResult r.requireKey
  let _ ← .ofAction ((r.rowQuery s key).update s r.dirty)
  return ()

/-! ## Saving -/

/-- Inserts a new record, or updates an existing one that is dirty. Returns whether anything was
written; if not, the hooks that run afterwards are left out. -/
def save (s : Session σ) : Change σ Record Bool := do
  runHooks s .beforeSave
  let r ← .current
  if r.persisted && !r.isDirty then return false
  else
    if r.persisted then updateRow s else insertRow s
    .modify markPersisted
    runHooks s .afterSave
    return true

/-! ## Deleting -/

/-- The columns that mark a row as deleted. -/
def deletionMark (schema : Schema) (column : String) (now : Value) : Attributes :=
  let mark := NameMap.empty.insert column now
  match schema.timestamps with
  | some t => mark.insert t.updated now
  | none => mark

/-- Sets the attributes that mark the record as deleted. -/
def setDeletionMark (column : String) (now : Value) (r : Record) : Record :=
  let marked := r.set column now
  match r.schema.timestamps with
  | some t => marked.set t.updated now
  | none => marked

/-- Marks the row as deleted. Other changes of the record stay unsaved. -/
def trashRow (s : Session σ) (column : String) (key : Value) : Change σ Record Unit := do
  let now ← .ofAction s.now
  .modify (setDeletionMark column now)
  let r ← .current
  let mark := deletionMark r.schema column now
  let _ ← .ofAction ((r.rowQuery s key).update s mark)
  .modify fun r => r.syncAttributes mark.names

/-- Deletes the row. -/
def deleteRow (s : Session σ) (key : Value) : Change σ Record Unit := do
  let r ← .current
  let _ ← .ofAction ((r.rowQuery s key).delete s)
  .modify markDeleted

/-- Deletes the row of an existing record, or marks it as deleted unless `force` is set. Returns
whether there was one. -/
def destroy (s : Session σ) (force : Bool) : Change σ Record Bool := do
  let r ← .current
  if !r.persisted then return false
  else
    runHooks s .beforeDelete
    let r ← .current
    let key ← .ofResult r.requireKey
    match r.schema.softDelete, force with
    | some column, false => trashRow s column key
    | _, _ => deleteRow s key
    runHooks s .afterDelete
    return true

/-- Takes the mark of deletion away and saves. -/
def restore (s : Session σ) : Change σ Record Bool := do
  let r ← .current
  match r.schema.softDelete with
  | none => .ofResult (.error (.misconfigured (.noSoftDelete r.schema.table)))
  | some column =>
    .modify fun r => r.set column .null
    save s

/-! ## Reading -/

/-- Reads all attributes again. -/
def refresh (s : Session σ) : Change σ Record Unit := do
  let r ← .current
  let key ← .ofResult r.requireKey
  match ← .ofAction ((r.schema.allRows s.dialect).find? s key) with
  | some row => .modify fun r => r.refill row
  | none => .ofResult (.error (r.schema.missingRow key))

/-- Loads the relations of dotted paths. -/
def load (s : Session σ) (paths : List String) : Change σ Record Unit :=
  (s.load paths).within (fun r => [r]) (fun r rs => rs.headD r)

end Record

end RecordMapper
