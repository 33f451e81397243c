import RecordMapper.Related.Bound
import RecordMapper.Session.Transaction
import RecordMapper.Value.Key

/-!
Links: the rows of a pivot table that belong to one record.

* `BoundRelation.attach` and `BoundRelation.detach` add and remove links.
* `BoundRelation.sync` makes the links exactly the wanted ones, `BoundRelation.toggle` turns each of
  the given ones over. Both run in a transaction and touch only what differs.
-/
namespace RecordMapper

set_option autoImplicit false

/-- What changed, by the keys of the related records. -/
structure LinkChanges where
  attached : List Value
  detached : List Value
  /-- Links that stayed, with other attributes. -/
  updated : List Value
  deriving Inhabited

/-- A wanted link: the key of the related record, and attributes of the row. -/
structure LinkEntry where
  id : Value
  attributes : Attributes

/-- A wanted link without attributes. -/
def LinkEntry.bare (id : Value) : LinkEntry := ⟨id, .empty⟩

namespace BoundRelation

variable {σ : Type}

/-- The pivot table; there are links only of a parent with a key. -/
def requireLinks (b : BoundRelation) : Result Pivot := do
  let p ← b.relation.requirePivot
  if b.key.isNull then .error (.misconfigured (.pivotParentWithoutKey b.relation.name))
  else return p

/-- The rows of the pivot table that belong to the parent. -/
def links (b : BoundRelation) (p : Pivot) : Query :=
  (Query.on p.table b.query.dialect).filterEq p.localKey b.key

/-- The related keys that are linked to the parent. -/
def linkedIds (b : BoundRelation) (s : Session σ) : Action σ (List Value) := do
  let p ← .ofResult b.requireLinks
  (b.links p).pluck s p.foreignKey

/-! ## Adding links -/

/-- The row of a link; its keys win over attributes of their names. -/
def linkRow (b : BoundRelation) (p : Pivot) (e : LinkEntry) : Attributes :=
  (e.attributes.insert p.localKey b.key).insert p.foreignKey e.id

/-- Rows with the same columns, in the order of their columns. -/
abbrev Batches := List (List String × List Attributes)

def addToBatch (row : Attributes) : Batches → Batches
  | [] => [(row.names, [row])]
  | (names, rows) :: rest =>
    if row.names < names then (row.names, [row]) :: (names, rows) :: rest
    else if row.names = names then (names, rows ++ [row]) :: rest
    else (names, rows) :: addToBatch row rest

def batches (rows : List Attributes) : Batches :=
  rows.foldl (fun found row => addToBatch row found) []

/-- Inserts batch after batch, and counts the affected rows. -/
def insertBatches (s : Session σ) (q : Query) : Batches → Action σ Nat
  | [] => return 0
  | (_, rows) :: rest => do
    let e ← q.insertMany s rows
    let n ← insertBatches s q rest
    return e.affected + n

/-- Inserts links. Those with the same attributes share one statement. -/
def insertLinks (b : BoundRelation) (s : Session σ) (entries : List LinkEntry) : Action σ Nat :=
  if entries.isEmpty then return 0
  else do
    let p ← .ofResult b.requireLinks
    insertBatches s (.on p.table b.query.dialect) (batches (entries.map (b.linkRow p)))

/-- Links the parent with each of the keys once. -/
def attach (b : BoundRelation) (s : Session σ) (ids : List Value) (attributes : Attributes) :
    Action σ Nat :=
  b.insertLinks s (Key.distinct LinkEntry.id (ids.map fun id => ⟨id, attributes⟩))

/-! ## Removing links -/

/-- Removes the links to the given keys, or all links. -/
def detach (b : BoundRelation) (s : Session σ) (ids : Option (List Value)) : Action σ Nat := do
  let p ← .ofResult b.requireLinks
  match ids with
  | none => (b.links p).delete s
  | some [] => return 0
  | some ids => ((b.links p).filter (.isIn (.column p.foreignKey) ids false)).delete s

/-- Removes the links to the given keys, if there are any. -/
def detachAny (b : BoundRelation) (s : Session σ) (ids : List Value) : Action σ Unit := do
  if ids.isEmpty then return ()
  else
    let _ ← b.detach s (some ids)
    return ()

/-! ## Differences -/

/-- Whether the key of a value is among those of other values. -/
def isAmong (ids : List Value) (id : Value) : Bool :=
  match id.key? with
  | some k => (ids.filterMap Value.key?).contains k
  | none => false

/-- The linked keys that are not wanted. -/
def unwanted (current wanted : List Value) : List Value :=
  current.filter fun id => id.key?.isSome && !isAmong wanted id

/-- Writes the attributes of links that stay, and returns the keys of those that have any. -/
def updateLinks (b : BoundRelation) (s : Session σ) (p : Pivot) :
    List LinkEntry → Action σ (List Value)
  | [] => return []
  | e :: rest => do
    if e.attributes.isEmpty then b.updateLinks s p rest
    else
      let _ ← ((b.links p).filterEq p.foreignKey e.id).update s e.attributes
      let updated ← b.updateLinks s p rest
      return e.id :: updated

/-- Makes the links exactly the wanted ones. -/
def applySync (b : BoundRelation) (wanted : List LinkEntry) (s : Session σ) :
    Action σ LinkChanges := do
  let current ← b.linkedIds s
  let detached := unwanted current (wanted.map LinkEntry.id)
  let existing := wanted.filter fun e => isAmong current e.id
  let fresh := wanted.filter fun e => !isAmong current e.id
  b.detachAny s detached
  let _ ← b.insertLinks s fresh
  let p ← .ofResult b.requireLinks
  let updated ← b.updateLinks s p existing
  return ⟨fresh.map LinkEntry.id, detached, updated⟩

/-- Makes the links exactly the wanted ones, in a transaction. -/
def sync (b : BoundRelation) (s : Session σ) (wanted : List LinkEntry) : Action σ LinkChanges := do
  let _ ← .ofResult b.requireLinks
  s.transaction (b.applySync (Key.distinct LinkEntry.id wanted))

/-- Removes the links among the given ones, and adds the others. -/
def applyToggle (b : BoundRelation) (ids : List Value) (s : Session σ) : Action σ LinkChanges := do
  let current ← b.linkedIds s
  let linked := ids.filter (isAmong current)
  let unlinked := ids.filter fun id => !isAmong current id
  b.detachAny s linked
  let _ ← b.insertLinks s (unlinked.map .bare)
  return ⟨unlinked, linked, []⟩

/-- Turns each of the given links over, in a transaction. -/
def toggle (b : BoundRelation) (s : Session σ) (ids : List Value) : Action σ LinkChanges := do
  let _ ← .ofResult b.requireLinks
  match Key.distinct id ids with
  | [] => return ⟨[], [], []⟩
  | ids => s.transaction (b.applyToggle ids)

end BoundRelation

end RecordMapper
