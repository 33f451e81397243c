import RecordMapper.Proofs.Session.Program
import RecordMapper.Proofs.Text

/-!
A database with transactions and savepoints.

* `Control` is a statement that opens or closes a transaction, `Control.read` finds it in the SQL.
* `Database` is a content with the transaction that is open on it. A savepoint hides an earlier one
  of its name until it is released.
* `Transactional` says that a world treats control statements in the standard way and applies all
  other statements to the content, as a world without transactions does.
* `Database.world` is such a world over any other one.
-/
namespace RecordMapper

set_option autoImplicit false

open RecordMapper.Text

/-! ## Control statements -/

inductive Control where
  | begin
  | commit
  | rollback
  | savepoint (name : String)
  | release (name : String)
  | rollbackTo (name : String)
  deriving DecidableEq, Repr

def Control.read (sql : String) : Option Control :=
  match fields ' ' sql with
  | ["BEGIN"] => some .begin
  | ["COMMIT"] => some .commit
  | ["ROLLBACK"] => some .rollback
  | ["SAVEPOINT", name] => some (.savepoint name)
  | ["RELEASE", "SAVEPOINT", name] => some (.release name)
  | ["ROLLBACK", "TO", "SAVEPOINT", name] => some (.rollbackTo name)
  | _ => none

section Sql

open Session

theorem savepointName_injective {m n : Nat} (h : savepointName m = savepointName n) : m = n := by
  have hlist := congrArg String.toList h
  unfold savepointName at hlist
  rw [String.toList_append, String.toList_append] at hlist
  exact ofNat_injective (String.toList_injective (List.append_cancel_left hlist))

theorem blank_notMem_savepointName (depth : Nat) : ' ' ∉ (savepointName depth).toList := by
  intro h
  unfold savepointName ofNat at h
  rw [String.toList_append, List.mem_append] at h
  rcases h with h | h
  · exact absurd h (by decide)
  · have hdigit := isDigit_of_mem_natChars (String.toList_ofList ▸ h)
    exact absurd hdigit (by decide)

theorem fields_savepoint (depth : Nat) :
    fields ' ' ("SAVEPOINT " ++ savepointName depth) = ["SAVEPOINT", savepointName depth] := by
  have hname := fields_of_notMem (blank_notMem_savepointName depth)
  rw [fields_append (savepointName depth) (by rfl : "SAVEPOINT ".toList = "SAVEPOINT".toList ++ _)
    (by decide), hname]

/-- The statement a transaction of this depth opens with, read by the database. -/
def opening (depth : Nat) : Control :=
  if depth = 0 then .begin else .savepoint (savepointName depth)

def keeping (depth : Nat) : Control :=
  if depth = 0 then .commit else .release (savepointName depth)

def undoing (depth : Nat) : Control :=
  if depth = 0 then .rollback else .rollbackTo (savepointName depth)

/-- The statement that follows a body with this outcome. -/
def closing {α : Type} (depth : Nat) : Outcome α → Control
  | .ok _ => keeping depth
  | .error _ => undoing depth

theorem read_openingSql (depth : Nat) : Control.read (openingSql depth) = some (opening depth) := by
  unfold openingSql opening
  split
  · rfl
  · unfold Control.read
    rw [fields_savepoint]
    rfl

theorem read_keepingSql (depth : Nat) : Control.read (keepingSql depth) = some (keeping depth) := by
  unfold keepingSql keeping
  split
  · rfl
  · have hwords : "RELEASE SAVEPOINT " = "RELEASE " ++ "SAVEPOINT " := by decide
    unfold Control.read
    rw [hwords, String.append_assoc, fields_append _
      (by rfl : "RELEASE ".toList = "RELEASE".toList ++ _) (by decide), fields_savepoint]
    rfl

theorem read_undoingSql (depth : Nat) : Control.read (undoingSql depth) = some (undoing depth) := by
  unfold undoingSql undoing
  split
  · rfl
  · have hwords : "ROLLBACK TO SAVEPOINT " = "ROLLBACK " ++ ("TO " ++ "SAVEPOINT ") := by decide
    unfold Control.read
    rw [hwords, String.append_assoc, String.append_assoc, fields_append _
      (by rfl : "ROLLBACK ".toList = "ROLLBACK".toList ++ _) (by decide), fields_append _
      (by rfl : "TO ".toList = "TO".toList ++ _) (by decide), fields_savepoint]
    rfl

end Sql

/-! ## Databases -/

/-- A transaction that is open. -/
structure OpenTransaction (δ : Type) where
  /-- The content it began with. -/
  base : δ
  /-- Its savepoints with their content, the innermost in front. -/
  savepoints : List (String × δ)

structure Database (δ : Type) where
  content : δ
  opened : Option (OpenTransaction δ)

/-- The latest savepoint of a name: its content, and the savepoints below. -/
def latest? {δ : Type} (name : String) : List (String × δ) → Option (δ × List (String × δ))
  | [] => none
  | (n, content) :: below => if n = name then some (content, below) else latest? name below

namespace Database

variable {δ : Type}

def closed (content : δ) : Database δ := ⟨content, none⟩

/-- What a control statement makes of a database, if it has a meaning there. -/
def control (db : Database δ) : Control → Option (Database δ)
  | .begin =>
    match db.opened with
    | none => some ⟨db.content, some ⟨db.content, []⟩⟩
    | some _ => none
  | .commit => db.opened.map fun _ => closed db.content
  | .rollback => db.opened.map fun t => closed t.base
  | .savepoint name =>
    db.opened.map fun t => ⟨db.content, some ⟨t.base, (name, db.content) :: t.savepoints⟩⟩
  | .release name =>
    db.opened.bind fun t =>
      (latest? name t.savepoints).map fun s => ⟨db.content, some ⟨t.base, s.2⟩⟩
  | .rollbackTo name =>
    db.opened.bind fun t =>
      (latest? name t.savepoints).map fun s => ⟨s.1, some ⟨t.base, (name, s.1) :: s.2⟩⟩

end Database

theorem latest?_append {δ : Type} {name : String} {above : List (String × δ)}
    (h : ∀ s ∈ above, s.1 ≠ name) (content : δ) (below : List (String × δ)) :
    latest? name (above ++ (name, content) :: below) = some (content, below) := by
  induction above with
  | nil => simp [latest?]
  | cons s rest ih =>
    obtain ⟨n, c⟩ := s
    have hn : n ≠ name := h (n, c) (List.mem_cons_self ..)
    rw [List.cons_append, latest?, if_neg hn]
    exact ih fun s hs => h s (List.mem_cons_of_mem _ hs)

/-! ## Worlds -/

/-- A world with the standard treatment of transactions. `view` shows its database, `base` is what
other statements do to the content. -/
structure Transactional {σ δ : Type} (world : World σ) (view : σ → Database δ)
    (base : World δ) : Prop where
  control : ∀ (sql : String) (c : Control) (w : σ) (db : Database δ),
    Control.read sql = some c → (view w).control c = some db →
      ∃ e, (world.execute ⟨sql, []⟩ w).1 = .ok e ∧ view (world.execute ⟨sql, []⟩ w).2 = db
  execute : ∀ (st : Statement) (w : σ), Control.read st.sql = none →
    (world.execute st w).1 = (base.execute st (view w).content).1 ∧
    view (world.execute st w).2 = ⟨(base.execute st (view w).content).2, (view w).opened⟩
  query : ∀ (st : Statement) (w : σ), Control.read st.sql = none →
    (world.query st w).1 = (base.query st (view w).content).1 ∧
    view (world.query st w).2 = ⟨(base.query st (view w).content).2, (view w).opened⟩

namespace Database

variable {δ : Type}

def contentWorld (base : World δ) : World (Database δ) :=
  base.within content fun db content => { db with content }

/-- The world of a database over another world. A control statement without a meaning fails and
changes nothing. -/
def world (base : World δ) : World (Database δ) where
  query := (contentWorld base).query
  execute st db :=
    match Control.read st.sql with
    | none => (contentWorld base).execute st db
    | some c =>
      match db.control c with
      | some db => (.ok ⟨0, none⟩, db)
      | none => (.error (.fault (.query "no such transaction" (some st.sql) none none)), db)
  connect := (contentWorld base).connect
  disconnect := (contentWorld base).disconnect
  now := (contentWorld base).now
  freshUuid := (contentWorld base).freshUuid

theorem world_transactional (base : World δ) : Transactional (world base) id base where
  control sql c w db hread hdb := by
    refine ⟨⟨0, none⟩, ?_⟩
    unfold world
    simp only [hread]
    rw [show w.control c = some db from hdb]
    exact ⟨rfl, rfl⟩
  execute st w hread := by
    unfold world
    simp only [hread]
    exact ⟨rfl, rfl⟩
  query st w _ := ⟨rfl, rfl⟩

end Database

end RecordMapper
