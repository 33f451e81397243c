import RecordMapper.Query.Page
import RecordMapper.Query.Write
import RecordMapper.Session.Basic

/-!
Running queries.

* Every function compiles its statement first, so that one that cannot be compiled is never sent.
* `Query.rows`, `Query.first?`, `Query.find?`, `Query.pluck` and `Query.anyRow` read; `Query.count`,
  `Query.sum` and their like compute one number over the rows.
* `Query.paginate` reads one page; `Query.chunks` and `Query.chunksAfter` go through all rows in
  batches.
* `Query.insert`, `Query.update` and their like write.
-/
namespace RecordMapper.Query

set_option autoImplicit false

open RecordMapper.Number RecordMapper.Text

variable {σ : Type}

/-! ## Reading rows -/

def rows (s : Session σ) (q : Query) : Action σ (List Row) := do
  let st ← .ofResult q.statement
  s.query st

def first? (s : Session σ) (q : Query) : Action σ (Option Row) := do
  let found ← (q.take 1).rows s
  return found.head?

/-- The row whose key column has this value. -/
def find? (s : Session σ) (q : Query) (id : Value) : Action σ (Option Row) :=
  (q.filterEq q.key id).first? s

/-- The last segment of a dotted path. -/
def bareColumn (path : String) : String := (fields '.' path).getLastD path

/-- The value of a column, or else the first value of the row. -/
def columnOrFirst (name : String) (row : Row) : Value :=
  ((row.named? name).or (row.get? 0)).getD .null

/-- The values of one column. -/
def pluck (s : Session σ) (q : Query) (column : String) : Action σ (List Value) := do
  let found ← (q.withColumns [.column column]).rows s
  return found.map (columnOrFirst (bareColumn column))

/-- Whether there is any row. -/
def anyRow (s : Session σ) (q : Query) : Action σ Bool := do
  let found ← ((q.bare.withColumns [.marked "1" []]).take 1).rows s
  return !found.isEmpty

/-! ## Numbers over the rows -/

/-- The value of the first row of an aggregate query. -/
def aggregateValue (found : List Row) : Value :=
  match found with
  | [] => .null
  | row :: _ => columnOrFirst aggregateName row

/-- A count; NULL counts as zero. -/
def countOf (v : Value) : Result Nat :=
  match v with
  | .null => .ok 0
  | v => v.toUInt64

def count (s : Session σ) (q : Query) : Action σ Nat := do
  let st ← .ofResult q.counting
  let found ← s.query st
  .ofResult (countOf (aggregateValue found))

def aggregate (s : Session σ) (q : Query) (function : Aggregate) (column : String) :
    Action σ Value := do
  let found ← (q.aggregateOf (.aggregate function (some (.column column)) false)).rows s
  return aggregateValue found

/-- The sum of a column, zero if there is none. -/
def sum (s : Session σ) (q : Query) (column : String) : Action σ Binary64 := do
  let v ← q.aggregate s .sum column
  return v.double?.getD (.ofRatio false 0 1)

def average? (s : Session σ) (q : Query) (column : String) : Action σ (Option Binary64) := do
  let v ← q.aggregate s .avg column
  return v.double?

def least (s : Session σ) (q : Query) (column : String) : Action σ Value :=
  q.aggregate s .min column

def greatest (s : Session σ) (q : Query) (column : String) : Action σ Value :=
  q.aggregate s .max column

/-! ## Pages -/

/-- Counts the rows and reads one page of them. If there are none, nothing is read. -/
def paginate (s : Session σ) (q : Query) (number perPage : Nat) : Action σ (Page Row) :=
  if perPage = 0 then .fail (.cannotCompile .zeroPerPage)
  else do
    let number := max number 1
    let total ← q.count s
    if total = 0 then return ⟨[], number, perPage, 0⟩
    else
      let items ← (q.page number perPage).rows s
      return ⟨items, number, perPage, total⟩

/-! ## Batches -/

/-- How a walk through batches ended. -/
inductive WalkEnd where
  /-- All rows were delivered. -/
  | exhausted
  /-- The receiver wanted no more. -/
  | stopped
  /-- The bound on the number of queries was reached. -/
  | unfinished
  deriving DecidableEq, Repr

/-- What a walk through batches delivered, and how it ended. -/
structure Walk (α : Type) where
  finish : Outcome WalkEnd
  batches : List (List α)

namespace Walk

variable {α β : Type}

def ended (finish : WalkEnd) : Walk α := ⟨.ok finish, []⟩

def halted (h : Halt) : Walk α := ⟨.error h, []⟩

def failed (cause : CompileCause) : Walk α := halted (.fault (.cannotCompile cause))

/-- One more batch, in front of those of the walk. -/
def after (w : Walk α) (batch : List α) : Walk α := { w with batches := batch :: w.batches }

def map (f : α → β) (w : Walk α) : Walk β := ⟨w.finish, w.batches.map (List.map f)⟩

end Walk

/-- Reads page after page until one is short or the receiver has enough. `goOn` is asked after each
batch, with all batches delivered so far, the last one first. -/
def chunksFrom (s : Session σ) (q : Query) (size : Nat) (goOn : List (List Row) → Bool) :
    Nat → Nat → List (List Row) → StateM σ (Walk Row)
  | 0, _, _ => pure (.ended .unfinished)
  | bound + 1, number, delivered => do
    match ← ((q.page number size).rows s).run with
    | .error h => return .halted h
    | .ok [] => return .ended .exhausted
    | .ok batch =>
      let rest ←
        if !goOn (batch :: delivered) then pure (.ended .stopped)
        else if batch.length < size then pure (.ended .exhausted)
        else chunksFrom s q size goOn bound (number + 1) (batch :: delivered)
      return rest.after batch

/-- Goes through the rows of an ordered query in batches of `size`, with at most `bound`
queries. -/
def chunks (s : Session σ) (q : Query) (size : Nat) (goOn : List (List Row) → Bool)
    (bound : Nat) : StateM σ (Walk Row) :=
  if size = 0 then pure (.failed .zeroChunkSize)
  else if !q.isOrdered then pure (.failed .unorderedChunk)
  else q.chunksFrom s size goOn bound 1 []

/-- The query for the next batch after a cursor, in the order of the column. -/
def batchAfter (q : Query) (size : Nat) (column : String) (cursor : Option Value) : Query :=
  let q := (q.unordered.ascending column).take size
  match cursor with
  | some v => q.scope (.compare (.column column) .gt v)
  | none => q

def chunksAfterFrom (s : Session σ) (q : Query) (size : Nat) (column : String)
    (goOn : List (List Row) → Bool) : Nat → Option Value → List (List Row) → StateM σ (Walk Row)
  | 0, _, _ => pure (.ended .unfinished)
  | bound + 1, cursor, delivered => do
    match ← ((q.batchAfter size column cursor).rows s).run with
    | .error h => return .halted h
    | .ok batch =>
      match batch.getLast? with
      | none => return .ended .exhausted
      | some row =>
        match row.named? (bareColumn column) with
        | none => return .failed (.cursorMissing column)
        | some cursor =>
          let rest ←
            if !goOn (batch :: delivered) then pure (.ended .stopped)
            else if batch.length < size then pure (.ended .exhausted)
            else chunksAfterFrom s q size column goOn bound (some cursor) (batch :: delivered)
          return rest.after batch

/-- Goes through the rows in batches of `size`, each of them after the last row of the one before,
with at most `bound` queries. -/
def chunksAfter (s : Session σ) (q : Query) (size : Nat) (column : String)
    (goOn : List (List Row) → Bool) (bound : Nat) : StateM σ (Walk Row) :=
  if size = 0 then pure (.failed .zeroChunkSize)
  else q.chunksAfterFrom s size column goOn bound none []

/-! ## Writing -/

def insert (s : Session σ) (q : Query) (row : Attributes) : Action σ Execution := do
  let st ← .ofResult (q.insertion row)
  s.execute st

def insertMany (s : Session σ) (q : Query) (rows : List Attributes) : Action σ Execution := do
  let st ← .ofResult (q.batchInsertion rows)
  s.execute st

/-- Sends a statement and returns how many rows it affected. -/
def affecting (s : Session σ) (st : Result Statement) : Action σ Nat := do
  let st ← .ofResult st
  let e ← s.execute st
  return e.affected

def update (s : Session σ) (q : Query) (assignments : Attributes) : Action σ Nat :=
  affecting s (q.updating assignments)

def delete (s : Session σ) (q : Query) : Action σ Nat := affecting s q.deletion

def upsert (s : Session σ) (q : Query) (rows : List Attributes) (uniqueBy update : List String) :
    Action σ Nat :=
  affecting s (q.upsertion rows uniqueBy update)

end RecordMapper.Query
