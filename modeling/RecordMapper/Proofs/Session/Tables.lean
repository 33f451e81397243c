import RecordMapper.Proofs.NameMap
import RecordMapper.Proofs.Query.TableCommands
import RecordMapper.Proofs.Session.Program
import RecordMapper.Proofs.Session.Savepoints
import RecordMapper.Session.Script

/-!
A table behind a session.

* `Ledger` is what is observed of a world with a table: the rows, what was sent, and whether any of
  it failed.
* `TableCommand.Effect` is what a statement makes of the rows, for an equality by which the database
  compares cells. `Tabular` says that a world treats statements in this way.
* `Action.Gives` says what an action ends with, unless a statement of it fails.
* `Ledger.world` is a world that is nothing but a table.
-/
namespace RecordMapper

set_option autoImplicit false

open RecordMapper.Calendar

structure Ledger where
  rows : List Attributes
  sent : List Request
  failed : Bool

/-- One more request, which left the rows as they were. -/
def Ledger.sending (l : Ledger) (r : Request) : Ledger := { l with sent := l.sent ++ [r] }

/-- Some statements more, and the rows they left. -/
def Ledger.writing (l : Ledger) (writes : List Statement) (rows : List Attributes) : Ledger :=
  { l with rows, sent := l.sent ++ writes.map .execute }

/-! ## Rows -/

/-- The value of a column, NULL if the row has none. -/
def cell (row : Attributes) (column : String) : Value := (row.get? column).getD .null

/-- Whether each of the columns has one of its values. -/
def Matching.meets (eq : Value → Value → Bool) (m : Matching) (row : Attributes) : Bool :=
  m.all fun p => p.2.any fun v => eq v (cell row p.1)

/-- Whether a row has the values that were given for it. Other columns have their defaults. -/
def Holds (columns : List String) (values : List Value) (row : Attributes) : Prop :=
  ∀ name v, Assoc.get? name (columns.zip values) = some v → row.get? name = some v

theorem holds_names_values {given row : Attributes} (h : Holds given.names given.values row)
    {name : String} {v : Value} (hv : given.get? name = some v) : row.get? name = some v := by
  refine h name v ?_
  rw [NameMap.zip_names_values]
  exact hv

namespace TableCommand

def table : TableCommand → String
  | .select _ table _ => table
  | .insert table _ _ => table
  | .update table _ _ => table
  | .delete table _ => table

/-- What the rows of the table may be after a statement. Their order is of no account. -/
def Effect (eq : Value → Value → Bool) : TableCommand → List Attributes → List Attributes → Prop
  | .select .., before, after => after = before
  | .insert _ columns rows, before, after =>
    ∃ added, List.Forall₂ (Holds columns) rows added ∧ after.Perm (before ++ added)
  | .update _ assignments m, before, after =>
    after.Perm (before.map fun row => if m.meets eq row then row.insertAll assignments else row)
  | .delete _ m, before, after => after.Perm (before.filter fun row => !m.meets eq row)

/-- Whether a statement removes, changes or adds such a row. -/
def Touches (eq : Value → Value → Bool) : TableCommand → Attributes → Prop
  | .select .., _ => False
  | .insert _ columns rows, row => ∃ values ∈ rows, Holds columns values row
  | .update _ _ m, row => m.meets eq row = true
  | .delete _ m, row => m.meets eq row = true

end TableCommand

/-- The rows of a result with the cells of one column. -/
def Lists (eq : Value → Value → Bool) (column : String) (m : Matching) (rows : List Attributes)
    (found : List Row) : Prop :=
  ∃ label, found.Perm ((rows.filter (m.meets eq)).map fun row => ⟨[label], [cell row column]⟩)

/-! ## Worlds -/

def Control.undoes : Control → Bool
  | .rollback => true
  | .rollbackTo _ => true
  | _ => false

/-- One more request, which succeeded or not. -/
structure Ledger.Logs (before after : Ledger) (r : Request) (succeeded : Bool) : Prop where
  sent : after.sent = before.sent ++ [r]
  failed : after.failed = (before.failed || !succeeded)

/-- A world with a table. What `view` shows of it changes with the statements that are sent, as in a
database that compares cells by `eq`. -/
structure Tabular {σ : Type} (world : World σ) (d : Dialect) (table : String)
    (eq : Value → Value → Bool) (view : σ → Ledger) : Prop where
  now : ∀ w, view (world.now w).2 = view w
  freshUuid : ∀ w, view (world.freshUuid w).2 = view w
  query : ∀ st w,
    (view w).Logs (view (world.query st w).2) (.query st) (world.query st w).1.isOk
  execute : ∀ st w,
    (view w).Logs (view (world.execute st w).2) (.execute st) (world.execute st w).1.isOk
  select : ∀ st w column m found, TableCommand.read d st = some (.select column table m) →
    (world.query st w).1 = .ok found →
      (view (world.query st w).2).rows = (view w).rows ∧
      Lists eq column m (view w).rows found
  write : ∀ st w c e, TableCommand.read d st = some c → c.table = table →
    (world.execute st w).1 = .ok e →
      c.Effect eq (view w).rows (view (world.execute st w).2).rows
  control : ∀ sql w c e, Control.read sql = some c → c.undoes = false →
    (world.execute ⟨sql, []⟩ w).1 = .ok e →
      (view (world.execute ⟨sql, []⟩ w).2).rows = (view w).rows

/-! ## Actions -/

section Gives

variable {σ α β : Type} {view : σ → Ledger}

/-- An action ends with a value and a world that satisfy `Q`, unless a statement of it fails. -/
def Action.Gives (view : σ → Ledger) (a : Action σ α) (w : σ) (Q : α → σ → Prop) : Prop :=
  (∃ h w', a.run w = (.error h, w') ∧ (view w').failed = true) ∨
    ∃ x w', a.run w = (.ok x, w') ∧ Q x w'

namespace Action

theorem gives_pure {Q : α → σ → Prop} {x : α} {w : σ} (h : Q x w) :
    Gives view (pure x) w Q :=
  .inr ⟨x, w, rfl, h⟩

theorem gives_ofResult_bind {Q : α → σ → Prop} {r : Result β} {x : β} (hr : r = .ok x)
    {f : β → Action σ α} {w : σ} (hf : Gives view (f x) w Q) :
    Gives view (.ofResult r >>= f) w Q := by
  subst hr
  exact hf

theorem Gives.bind {a : Action σ β} {f : β → Action σ α} {w : σ} {P : β → σ → Prop}
    {Q : α → σ → Prop} (ha : Gives view a w P) (hf : ∀ x w', P x w' → Gives view (f x) w' Q) :
    Gives view (a >>= f) w Q := by
  rcases ha with ⟨h, w', hrun, hfailed⟩ | ⟨x, w', hrun, hx⟩
  · exact .inl ⟨h, w', run_bind_error hrun, hfailed⟩
  · unfold Gives
    rw [run_bind_ok hrun]
    exact hf x w' hx

theorem Gives.mono {a : Action σ α} {w : σ} {P Q : α → σ → Prop} (ha : Gives view a w P)
    (h : ∀ x w', P x w' → Q x w') : Gives view a w Q := by
  rcases ha with hfailed | ⟨x, w', hrun, hx⟩
  · exact .inl hfailed
  · exact .inr ⟨x, w', hrun, h x w' hx⟩

/-- An action that came to its end did so with what it gives. -/
theorem Gives.of_ok {a : Action σ α} {w w' : σ} {Q : α → σ → Prop} (ha : Gives view a w Q) {x : α}
    (hrun : a.run w = (.ok x, w')) : Q x w' := by
  rcases ha with ⟨h, w₁, hstop, -⟩ | ⟨y, w₁, hok, hy⟩
  · rw [hrun] at hstop
    cases hstop
  · rw [hrun] at hok
    cases hok
    exact hy

/-- Nothing but a statement that failed keeps the action from its end. -/
theorem Gives.of_error {a : Action σ α} {w w' : σ} {Q : α → σ → Prop} (ha : Gives view a w Q)
    {stop : Halt} (hrun : a.run w = (.error stop, w')) : (view w').failed = true := by
  rcases ha with ⟨h, w₁, hstop, hfailed⟩ | ⟨y, w₁, hok, hy⟩
  · rw [hrun] at hstop
    cases hstop
    exact hfailed
  · rw [hrun] at hok
    cases hok

/-- If no statement failed in the end, the action came to its end. -/
theorem Gives.of_calm {a : Action σ α} {w : σ} {Q : α → σ → Prop} (ha : Gives view a w Q)
    (hcalm : (view (a.run w).2).failed = false) :
    ∃ x w', a.run w = (.ok x, w') ∧ Q x w' := by
  rcases ha with ⟨h, w', hrun, hfailed⟩ | hgives
  · rw [hrun, hfailed] at hcalm
    cases hcalm
  · exact hgives

/-- A run that is known to have come to its end did so with a value. -/
theorem exists_ok_of_isOk {run : Outcome α × σ} (h : run.1.isOk = true) :
    ∃ x, run = (.ok x, run.2) := by
  obtain ⟨stop | x, w⟩ := run
  · cases h
  · exact ⟨x, rfl⟩

end Action

end Gives

namespace Tabular

open RecordMapper.Action Session

variable {σ α : Type} {s : Session σ} {d : Dialect} {table : String} {eq : Value → Value → Bool}
  {view : σ → Ledger}

theorem gives_execute (h : Tabular s.world d table eq view) (st : Statement) (w : σ) :
    Gives view (s.execute st) w fun e w' =>
      s.world.execute st w = (.ok e, w') ∧
      view w' = { (view w).sending (.execute st) with rows := (view w').rows } := by
  have hlog := h.execute st w
  rcases hrun : s.world.execute st w with ⟨stop | e, w'⟩
  · rw [hrun] at hlog
    refine .inl ⟨stop, w', hrun, ?_⟩
    rw [hlog.failed]
    exact Bool.or_true _
  · rw [hrun] at hlog
    refine .inr ⟨e, w', hrun, rfl, ?_⟩
    have hfailed : (view w').failed = (view w).failed := hlog.failed.trans (Bool.or_false _)
    unfold Ledger.sending
    rw [← hlog.sent, ← hfailed]

theorem gives_write (h : Tabular s.world d table eq view) {st : Statement} {c : TableCommand}
    (hread : TableCommand.read d st = some c) (htable : c.table = table) (w : σ) :
    Gives view (s.execute st) w fun _ w' =>
      ∃ rows, c.Effect eq (view w).rows rows ∧ view w' = (view w).writing [st] rows := by
  refine (h.gives_execute st w).mono fun e w' hrun => ⟨(view w').rows, ?_, hrun.2⟩
  have heffect := h.write st w c e hread htable
  rw [hrun.1] at heffect
  exact heffect rfl

theorem gives_select (h : Tabular s.world d table eq view) {st : Statement} {column : String}
    {m : Matching} (hread : TableCommand.read d st = some (.select column table m)) (w : σ) :
    Gives view (s.query st) w fun found w' =>
      Lists eq column m (view w).rows found ∧ view w' = (view w).sending (.query st) := by
  have hlog := h.query st w
  have hselect := h.select st w column m
  rcases hrun : s.world.query st w with ⟨stop | found, w'⟩
  · rw [hrun] at hlog
    refine .inl ⟨stop, w', hrun, ?_⟩
    rw [hlog.failed]
    exact Bool.or_true _
  · rw [hrun] at hlog hselect
    obtain ⟨hrows, hlists⟩ := hselect found hread rfl
    refine .inr ⟨found, w', hrun, hlists, ?_⟩
    have hfailed : (view w').failed = (view w).failed := hlog.failed.trans (Bool.or_false _)
    unfold Ledger.sending
    rw [← hlog.sent, ← hfailed, ← hrows]

theorem gives_control (h : Tabular s.world d table eq view) {sql : String} {c : Control}
    (hread : Control.read sql = some c) (hkeeps : c.undoes = false) (w : σ) :
    Gives view (s.control sql) w fun _ w' => view w' = (view w).sending (.execute ⟨sql, []⟩) := by
  refine (h.gives_execute ⟨sql, []⟩ w).bind fun e w' hrun => gives_pure ?_
  have hrows := h.control sql w c e hread hkeeps
  rw [hrun.1] at hrows
  rw [hrun.2, hrows rfl]
  rfl

/-- A transaction sends the statement that opens it, then what its body sends, then the statement
that keeps the changes. -/
theorem gives_transaction (h : Tabular s.world d table eq view)
    (body : Session σ → Action σ α) (w : σ) {Q : α → σ → Prop}
    (hbody : ∀ w₁, view w₁ = (view w).sending (.execute ⟨openingSql s.depth, []⟩) →
      Gives view (body s.inner) w₁ Q) :
    Gives view (s.transaction body) w fun x w' =>
      ∃ w₂, Q x w₂ ∧ view w' = (view w₂).sending (.execute ⟨keepingSql s.depth, []⟩) := by
  have hopening : (opening s.depth).undoes = false := by
    unfold opening
    split <;> rfl
  have hkeeping : (keeping s.depth).undoes = false := by
    unfold keeping
    split <;> rfl
  refine (h.gives_control (read_openingSql s.depth) hopening w).bind fun _ w₁ hw₁ => ?_
  rcases hbody w₁ hw₁ with ⟨stop, w₂, hrun, hfailed⟩ | ⟨x, w₂, hrun, hx⟩
  · -- What the rollback answers is ignored, but the failure stays on record.
    refine .inl ⟨stop, ((s.control (undoingSql s.depth)).run w₂).2, ?_, ?_⟩
    · rw [run_outcome_bind, hrun]
      rfl
    · have hstate := congrArg Prod.snd (run_control_outcome s (undoingSql s.depth) w₂)
      have hlog := h.execute ⟨undoingSql s.depth, []⟩ w₂
      rw [run_outcome] at hstate
      rw [show ((s.control (undoingSql s.depth)).run w₂).2 = _ from hstate, hlog.failed, hfailed]
      rfl
  · unfold Gives
    rw [run_outcome_bind, hrun]
    exact (h.gives_control (read_keepingSql s.depth) hkeeping w₂).bind fun _ w₃ hw₃ =>
      gives_pure ⟨w₂, hx, hw₃⟩

end Tabular

/-! ## A world of one table -/

/-- The row of some pairs. Of two with one name the earlier one counts. -/
def rowOf (pairs : List (String × Value)) : Attributes :=
  pairs.foldr (fun p row => row.insert p.1 p.2) .empty

theorem get?_rowOf (pairs : List (String × Value)) (name : String) :
    (rowOf pairs).get? name = Assoc.get? name pairs := by
  induction pairs with
  | nil => rfl
  | cons p rest ih =>
    have hstep : rowOf (p :: rest) = (rowOf rest).insert p.1 p.2 := rfl
    rw [hstep, NameMap.get?_insert, ih]
    rfl

/-- A row as it is added. If its key is not given it gets a number for one. -/
def newRow (key : Option String) (number : Nat) (pairs : List (String × Value)) : Attributes :=
  match key with
  | none => rowOf pairs
  | some column =>
    if (Assoc.get? column pairs).isSome then rowOf pairs
    else (rowOf pairs).insert column (.ofInt number)

theorem holds_newRow (key : Option String) (number : Nat) (columns : List String)
    (values : List Value) : Holds columns values (newRow key number (columns.zip values)) := by
  intro name v hv
  unfold newRow
  split
  · rw [get?_rowOf, hv]
  · next column =>
    split
    · rw [get?_rowOf, hv]
    · next hnone =>
      have hne : name ≠ column := by
        rintro rfl
        rw [hv] at hnone
        exact hnone rfl
      rw [NameMap.get?_insert, if_neg hne, get?_rowOf, hv]

def newRows (key : Option String) (columns : List String) :
    Nat → List (List Value) → List Attributes
  | _, [] => []
  | number, values :: rest =>
    newRow key number (columns.zip values) :: newRows key columns (number + 1) rest

theorem holds_newRows (key : Option String) (columns : List String) (number : Nat)
    (rows : List (List Value)) :
    List.Forall₂ (Holds columns) rows (newRows key columns number rows) := by
  induction rows generalizing number with
  | nil => exact .nil
  | cons values rest ih => exact .cons (holds_newRow key number columns values) (ih (number + 1))

/-- No two rows with one key. -/
def IsKeyed (eq : Value → Value → Bool) (key : String) (rows : List Attributes) : Prop :=
  rows.Pairwise fun a b => eq (cell a key) (cell b key) = false

instance (eq : Value → Value → Bool) (key : String) (rows : List Attributes) :
    Decidable (IsKeyed eq key rows) :=
  inferInstanceAs (Decidable (rows.Pairwise _))

namespace Ledger

variable (d : Dialect) (table : String) (eq : Value → Value → Bool) (key : Option String)

def change (rows : List Attributes) : TableCommand → List Attributes
  | .select .. => rows
  | .insert _ columns values => rows ++ newRows key columns (rows.length + 1) values
  | .update _ assignments m =>
    rows.map fun row => if m.meets eq row then row.insertAll assignments else row
  | .delete _ m => rows.filter fun row => !m.meets eq row

/-- The number that was given out for a key. -/
def givenKey? (rows : List Attributes) : TableCommand → Option Value
  | .insert _ columns _ =>
    key.bind fun column => if column ∈ columns then none else some (.ofInt (rows.length + 1))
  | _ => none

/-- Whether no two rows have one key, if the table has one. -/
def admits (rows : List Attributes) : Bool := key.all fun column => IsKeyed eq column rows

def refusal : Halt := .fault (.query "refused" none none none)

def query (st : Statement) (l : Ledger) : Outcome (List Row) × Ledger :=
  match TableCommand.read d st with
  | some (.select column t m) =>
    if t = table then
      (.ok ((l.rows.filter (m.meets eq)).map fun row => ⟨[column], [cell row column]⟩),
        l.sending (.query st))
    else (.error refusal, { l.sending (.query st) with failed := true })
  | _ => (.error refusal, { l.sending (.query st) with failed := true })

def execute (st : Statement) (l : Ledger) : Outcome Execution × Ledger :=
  match Control.read st.sql, TableCommand.read d st with
  | some c, none =>
    if c.undoes then (.error refusal, { l.sending (.execute st) with failed := true })
    else (.ok ⟨0, none⟩, l.sending (.execute st))
  | none, some c =>
    if c.table = table ∧ admits eq key (change eq key l.rows c) then
      (.ok ⟨1, givenKey? key l.rows c⟩, l.writing [st] (change eq key l.rows c))
    else (.error refusal, { l.sending (.execute st) with failed := true })
  | _, _ => (.error refusal, { l.sending (.execute st) with failed := true })

/-- The world of a table, in which the clock stands still. -/
def world : World Ledger where
  query := query d table eq
  execute := execute d table eq key
  connect l := (.ok (), l)
  disconnect l := (.ok (), l)
  now l := (⟨0, ⟨0, 0⟩⟩, l)
  freshUuid l := (⟨0⟩, l)

theorem change_effect (rows : List Attributes) (c : TableCommand) :
    c.Effect eq rows (change eq key rows c) := by
  cases c with
  | select column t m => rfl
  | insert t columns values =>
    exact ⟨_, holds_newRows key columns (rows.length + 1) values, .refl _⟩
  | update t assignments m => exact .refl _
  | delete t m => exact .refl _

theorem logs_refused (l : Ledger) (r : Request) :
    l.Logs { l.sending r with failed := true } r false :=
  ⟨rfl, (Bool.or_true _).symm⟩

theorem logs_answered (l : Ledger) (r : Request) : l.Logs (l.sending r) r true :=
  ⟨rfl, (Bool.or_false _).symm⟩

variable {d table eq key} in
/-- A statement for the table that succeeded has changed the rows. -/
theorem execute_ok {st : Statement} {l : Ledger} {c : TableCommand} {e : Execution}
    (hread : TableCommand.read d st = some c) (hok : (execute d table eq key st l).1 = .ok e) :
    admits eq key (change eq key l.rows c) = true ∧ e.insertId = givenKey? key l.rows c ∧
      (execute d table eq key st l).2.rows = change eq key l.rows c := by
  unfold execute at hok ⊢
  rw [hread] at hok ⊢
  cases hcontrol : Control.read st.sql with
  | some control =>
    rw [hcontrol] at hok
    cases hok
  | none =>
    rw [hcontrol] at hok
    simp only at hok ⊢
    split at hok
    · next hadmits =>
      cases hok
      rw [if_pos hadmits]
      exact ⟨hadmits.2, rfl, rfl⟩
    · cases hok

theorem world_tabular : Tabular (world d table eq key) d table eq id where
  now l := rfl
  freshUuid l := rfl
  query st l := by
    show Logs l (query d table eq st l).2 _ (query d table eq st l).1.isOk
    unfold query
    split
    · split
      · exact logs_answered l _
      · exact logs_refused l _
    · exact logs_refused l _
  execute st l := by
    show Logs l (execute d table eq key st l).2 _ (execute d table eq key st l).1.isOk
    unfold execute
    split
    · split
      · exact logs_refused l _
      · exact logs_answered l _
    · split
      · exact ⟨rfl, (Bool.or_false _).symm⟩
      · exact logs_refused l _
    · exact logs_refused l _
  select st l column m found hread hfound := by
    have hquery : query d table eq st l =
        (.ok ((l.rows.filter (m.meets eq)).map fun row => ⟨[column], [cell row column]⟩),
          l.sending (.query st)) := by
      unfold query
      rw [hread]
      exact if_pos rfl
    show (query d table eq st l).2.rows = l.rows ∧ Lists eq column m l.rows found
    have hrows : (query d table eq st l).1 = .ok found := hfound
    rw [hquery] at hrows ⊢
    cases hrows
    exact ⟨rfl, column, .refl _⟩
  write st l c e hread htable hok := by
    obtain ⟨-, -, hrows⟩ := execute_ok hread hok
    show c.Effect eq l.rows (execute d table eq key st l).2.rows
    rw [hrows]
    exact change_effect eq key l.rows c
  control sql l c e hread hkeeps hok := by
    have hrun : (execute d table eq key ⟨sql, []⟩ l).1 = .ok e := hok
    show (execute d table eq key ⟨sql, []⟩ l).2.rows = l.rows
    unfold execute at hrun ⊢
    simp only [hread] at hrun ⊢
    cases hcommand : TableCommand.read d ⟨sql, []⟩ with
    | some command => rfl
    | none =>
      simp only [hkeeps]
      rfl

end Ledger

end RecordMapper
