import RecordMapper.Proofs.Session.Recorded
import RecordMapper.Proofs.Session.Savepoints

/-!
Transactions are well bracketed, whatever fails.

* `Step` is an exchange of a program: one of its own statements, or a statement that opens or closes
  one of its transactions.
* `Program.Transcript` lists the exchanges a program can have with a session of some depth, and the
  outcome it then comes to. A transaction has one opening statement in it, and one closing statement
  if and only if the opening one succeeded.
* `nest` reads control statements alone, with the transactions that are open around them on a stack.
-/
namespace RecordMapper

set_option autoImplicit false

open Session

/-! ## Steps -/

/-- The text of a control statement. -/
def Control.sql : Control → String
  | .begin => "BEGIN"
  | .commit => "COMMIT"
  | .rollback => "ROLLBACK"
  | .savepoint name => "SAVEPOINT " ++ name
  | .release name => "RELEASE SAVEPOINT " ++ name
  | .rollbackTo name => "ROLLBACK TO SAVEPOINT " ++ name

@[simp] theorem sql_opening (depth : Nat) : (opening depth).sql = openingSql depth := by
  unfold opening openingSql
  split <;> rfl

@[simp] theorem sql_keeping (depth : Nat) : (keeping depth).sql = keepingSql depth := by
  unfold keeping keepingSql
  split <;> rfl

@[simp] theorem sql_undoing (depth : Nat) : (undoing depth).sql = undoingSql depth := by
  unfold undoing undoingSql
  split <;> rfl

inductive Step where
  /-- A statement of the program's own, of whatever text. -/
  | own (e : Exchange)
  /-- A statement of `Session.transaction`, and what stopped it if it failed. -/
  | control (c : Control) (stop : Option Halt)

def Step.exchange : Step → Exchange
  | .own e => e
  | .control c stop => ⟨.execute ⟨c.sql, []⟩, stop⟩

/-- The outcome of a transaction by that of its body and of the statement that closed it. The
failure of a body stands, whatever comes of the rollback. -/
def concluded {β : Type} : Outcome β → Option Halt → Outcome β
  | .error stop, _ => .error stop
  | .ok b, none => .ok b
  | .ok _, some stop => .error stop

/-! ## Transcripts -/

namespace Program

inductive Transcript : {α : Type} → Nat → Program α → List Step → Outcome α → Prop where
  | done {α : Type} {depth : Nat} (o : Outcome α) : Transcript depth (.done o) [] o
  | execute {α : Type} {depth : Nat} {st : Statement} {rest : Outcome Execution → Program α}
      {later : List Step} {o : Outcome α} (given : Outcome Execution) :
      Transcript depth (rest given) later o →
      Transcript depth (.execute st rest) (.own ⟨.execute st, stopOf given⟩ :: later) o
  | query {α : Type} {depth : Nat} {st : Statement} {rest : Outcome (List Row) → Program α}
      {later : List Step} {o : Outcome α} (given : Outcome (List Row)) :
      Transcript depth (rest given) later o →
      Transcript depth (.query st rest) (.own ⟨.query st, stopOf given⟩ :: later) o
  /-- The transaction could not be opened: its body is not run, and nothing closes it. -/
  | unopened {α β : Type} {depth : Nat} {body : Program β} {rest : Outcome β → Program α}
      {later : List Step} {o : Outcome α} (stop : Halt) :
      Transcript depth (rest (.error stop)) later o →
      Transcript depth (.transaction body rest) (.control (opening depth) (some stop) :: later) o
  /-- The body came to the outcome `result`, by which the closing statement is chosen. -/
  | closed {α β : Type} {depth : Nat} {body : Program β} {rest : Outcome β → Program α}
      {inside later : List Step} {o : Outcome α} (result : Outcome β) (stop : Option Halt) :
      Transcript (depth + 1) body inside result →
      Transcript depth (rest (concluded result stop)) later o →
      Transcript depth (.transaction body rest)
        (.control (opening depth) none :: inside ++
          .control (closing depth result) stop :: later) o

end Program

/-! ## Runs -/

section Runs

variable {σ α β : Type}

/-- `a` with the recorded session does what `plain` does, and adds the exchanges of `steps`. -/
def Adds (plain : Action σ α) (a : Action (σ × List Exchange) α) (w : σ) (steps : List Step) :
    Prop :=
  ∀ before, a.run (w, before) =
    ((plain.run w).1, ((plain.run w).2, before ++ steps.map Step.exchange))

theorem Adds.bind {plain : Action σ β} {a : Action (σ × List Exchange) β}
    {next : Outcome β → Action σ α} {f : Outcome β → Action (σ × List Exchange) α} {w w' : σ}
    {given : Outcome β} {first later : List Step} (hrun : plain.run w = (given, w'))
    (ha : Adds plain a w first) (hf : Adds (next given) (f given) w' later) :
    Adds (plain.outcome >>= next) (a.outcome >>= f) w (first ++ later) := by
  intro before
  rw [Action.run_outcome_bind, Action.run_outcome_bind, ha before, hrun, hf, List.map_append,
    List.append_assoc]

/-- A control statement and what stopped it, as one step. -/
theorem control_adds (s : Session σ) (c : Control) (w : σ) :
    Adds (s.control c.sql) (s.recorded.control c.sql) w
      [.control c (stopOf ((s.control c.sql).run w).1)] := by
  intro before
  have hrecorded := run_execute_recorded s ⟨c.sql, []⟩ (w, before)
  rcases h : s.world.execute ⟨c.sql, []⟩ w with ⟨stop | e, w'⟩
  · rw [h] at hrecorded
    have hplain : (s.control c.sql).run w = (.error stop, w') := Action.run_bind_error h
    rw [hplain]
    exact Action.run_bind_error hrecorded
  · rw [h] at hrecorded
    rw [run_control_ok s h]
    exact run_control_ok s.recorded hrecorded

/-- A transaction that could not be opened. -/
theorem run_transaction_unopened (s : Session σ) (body : Session σ → Action σ α) {w w' : σ}
    {stop : Halt} (hopen : (s.control (opening s.depth).sql).run w = (.error stop, w')) :
    (s.transaction body).run w = (.error stop, w') := by
  rw [sql_opening] at hopen
  exact Action.run_bind_error hopen

/-- A transaction that was opened. -/
theorem run_transaction_closed (s : Session σ) (body : Session σ → Action σ α) {w w₁ w₂ w₃ : σ}
    {result : Outcome α} {given : Outcome Unit}
    (hopen : (s.control (opening s.depth).sql).run w = (.ok (), w₁))
    (hbody : (body s.inner).run w₁ = (result, w₂))
    (hclose : (s.control (closing s.depth result).sql).run w₂ = (given, w₃)) :
    (s.transaction body).run w = (concluded result (stopOf given), w₃) := by
  rw [sql_opening] at hopen
  unfold transaction
  rw [Action.run_bind_ok hopen, Action.run_outcome_bind, hbody]
  cases result with
  | ok a =>
    rw [closing, sql_keeping] at hclose
    cases given with
    | ok u => exact Action.run_bind_ok hclose
    | error stop => exact Action.run_bind_error hclose
  | error stop =>
    rw [closing, sql_undoing] at hclose
    show ((s.control (undoingSql s.depth)).outcome >>= fun _ =>
      Action.ofOutcome (.error stop)).run w₂ = _
    rw [Action.run_outcome_bind, hclose]
    rfl

theorem transaction_adds_unopened (s : Session σ) (body : Session σ → Action σ β)
    (body' : Session (σ × List Exchange) → Action (σ × List Exchange) β) {w w' : σ} {stop : Halt}
    (hopen : (s.control (opening s.depth).sql).run w = (.error stop, w')) :
    Adds (s.transaction body) (s.recorded.transaction body') w
      [.control (opening s.depth) (some stop)] := by
  intro before
  have hrecorded := control_adds s (opening s.depth) w before
  rw [hopen] at hrecorded
  rw [run_transaction_unopened s body hopen, run_transaction_unopened s.recorded body' hrecorded]
  rfl

theorem transaction_adds_closed (s : Session σ) (body : Session σ → Action σ β)
    (body' : Session (σ × List Exchange) → Action (σ × List Exchange) β) {w w₁ w₂ w₃ : σ}
    {result : Outcome β} {given : Outcome Unit} {inside : List Step}
    (hopen : (s.control (opening s.depth).sql).run w = (.ok (), w₁))
    (hbody : (body s.inner).run w₁ = (result, w₂))
    (hclose : (s.control (closing s.depth result).sql).run w₂ = (given, w₃))
    (hadds : Adds (body s.inner) (body' s.inner.recorded) w₁ inside) :
    Adds (s.transaction body) (s.recorded.transaction body') w
      (.control (opening s.depth) none :: inside ++
        [.control (closing s.depth result) (stopOf given)]) := by
  intro before
  have hopened := control_adds s (opening s.depth) w before
  rw [hopen] at hopened
  have hran := hadds (before ++ [⟨.execute ⟨(opening s.depth).sql, []⟩, none⟩])
  rw [hbody] at hran
  have hclosed := control_adds s (closing s.depth result) w₂
    (before ++ [⟨.execute ⟨(opening s.depth).sql, []⟩, none⟩] ++ inside.map Step.exchange)
  rw [hclose] at hclosed
  rw [run_transaction_closed s body hopen hbody hclose,
    run_transaction_closed s.recorded body' hopened hran hclosed]
  simp [Step.exchange]

end Runs

/-! ## Nesting -/

/-- What a statement closes, by the statement that opened it. -/
def Control.closes? : Control → Option Control
  | .begin => none
  | .savepoint _ => none
  | .commit => some .begin
  | .rollback => some .begin
  | .release name => some (.savepoint name)
  | .rollbackTo name => some (.savepoint name)

/-- Reads a step with the transactions that are open, the innermost in front. None may be opened
again while it is open, and only the innermost may be closed. -/
def nest (opened : List Control) : Step → Option (List Control)
  | .own _ => some opened
  | .control c stop =>
    match c.closes? with
    | some o => if opened.head? = some o then some opened.tail else none
    | none =>
      if stop.isSome then some opened
      else if c ∈ opened then none
      else some (c :: opened)

/-- The transactions around a session of this depth. -/
def openedAround : Nat → List Control
  | 0 => []
  | depth + 1 => opening depth :: openedAround depth

theorem opening_injective {m n : Nat} (h : opening m = opening n) : m = n := by
  unfold opening at h
  split at h <;> split at h
  · omega
  · cases h
  · cases h
  · exact savepointName_injective (Control.savepoint.inj h)

theorem exists_of_mem_openedAround {c : Control} {depth : Nat} (h : c ∈ openedAround depth) :
    ∃ k < depth, c = opening k := by
  induction depth with
  | zero => cases h
  | succ depth ih =>
    rcases List.mem_cons.1 h with h | h
    · exact ⟨depth, Nat.lt_succ_self depth, h⟩
    · obtain ⟨k, hk, hc⟩ := ih h
      exact ⟨k, Nat.lt_succ_of_lt hk, hc⟩

theorem opening_notMem (depth : Nat) : opening depth ∉ openedAround depth := by
  intro h
  obtain ⟨k, hk, heq⟩ := exists_of_mem_openedAround h
  exact absurd (opening_injective heq) (by omega)

@[simp] theorem closes?_opening (depth : Nat) : (opening depth).closes? = none := by
  unfold opening
  split <;> rfl

@[simp] theorem closes?_closing {β : Type} (depth : Nat) (result : Outcome β) :
    (closing depth result).closes? = some (opening depth) := by
  cases result <;> cases depth <;> rfl

@[simp] theorem nest_opened (depth : Nat) :
    nest (openedAround depth) (.control (opening depth) none) =
      some (openedAround (depth + 1)) := by
  simp [nest, opening_notMem, openedAround]

@[simp] theorem nest_unopened (opened : List Control) (depth : Nat) (stop : Halt) :
    nest opened (.control (opening depth) (some stop)) = some opened := by
  simp [nest]

@[simp] theorem nest_closed {β : Type} (depth : Nat) (result : Outcome β) (stop : Option Halt) :
    nest (openedAround (depth + 1)) (.control (closing depth result) stop) =
      some (openedAround depth) := by
  simp [nest, openedAround]

/-- A program leaves the transactions open that were open before. -/
theorem Program.Transcript.nests {α : Type} {depth : Nat} {p : Program α} {steps : List Step}
    {o : Outcome α} (h : Transcript depth p steps o) :
    steps.foldlM nest (openedAround depth) = some (openedAround depth) := by
  induction h with
  | done o => rfl
  | execute given _ ih => exact ih
  | query given _ ih => exact ih
  | unopened stop _ ih => simpa using ih
  | closed result stop _ _ ihbody ihrest =>
    simp [List.foldlM_append, ihbody, ihrest]

/-! ## Programs -/

/-- What a program sends and where it ends is a transcript of it. -/
theorem exists_transcript {σ α : Type} (p : Program α) (s : Session σ) (w : σ) :
    ∃ steps, Adds (p.action s) (p.action s.recorded) w steps ∧
      p.Transcript s.depth steps ((p.action s).run w).1 := by
  induction p generalizing s w with
  | done o => exact ⟨[], fun before => by rw [List.map_nil, List.append_nil]; rfl, .done o⟩
  | execute st rest ih =>
    obtain ⟨later, hadds, hlater⟩ := ih (s.world.execute st w).1 s (s.world.execute st w).2
    have hstep : Adds (s.execute st) (s.recorded.execute st) w
        [.own ⟨.execute st, stopOf (s.world.execute st w).1⟩] :=
      fun before => run_execute_recorded s st (w, before)
    exact ⟨_, hstep.bind rfl hadds, .execute _ hlater⟩
  | query st rest ih =>
    obtain ⟨later, hadds, hlater⟩ := ih (s.world.query st w).1 s (s.world.query st w).2
    have hstep : Adds (s.query st) (s.recorded.query st) w
        [.own ⟨.query st, stopOf (s.world.query st w).1⟩] :=
      fun before => run_query_recorded s st (w, before)
    exact ⟨_, hstep.bind rfl hadds, .query _ hlater⟩
  | transaction body rest ihbody ihrest =>
    rcases hopen : (s.control (opening s.depth).sql).run w with ⟨stop | u, w₁⟩
    · have hrun := run_transaction_unopened s body.action hopen
      obtain ⟨later, hadds, hlater⟩ := ihrest (.error stop) s w₁
      have htransaction := transaction_adds_unopened s body.action body.action hopen
      refine ⟨_, htransaction.bind hrun hadds, ?_⟩
      rw [Program.action, Action.run_outcome_bind, hrun]
      exact .unopened stop hlater
    · rcases hbody : (body.action s.inner).run w₁ with ⟨result, w₂⟩
      rcases hclose : (s.control (closing s.depth result).sql).run w₂ with ⟨given, w₃⟩
      have hrun := run_transaction_closed s body.action hopen hbody hclose
      obtain ⟨inside, hinside, hwithin⟩ := ihbody s.inner w₁
      rw [hbody] at hwithin
      obtain ⟨later, hadds, hlater⟩ := ihrest (concluded result (stopOf given)) s w₃
      have htransaction := transaction_adds_closed s body.action body.action hopen hbody hclose
        hinside
      refine ⟨_, htransaction.bind hrun hadds, ?_⟩
      rw [Program.action, Action.run_outcome_bind, hrun, List.append_assoc]
      exact .closed result (stopOf given) hwithin hlater

/-- A program sends what it sends in brackets. Whatever its statements come to, those of its
transactions included, there is a transcript of the exchanges it adds and of its outcome, and its
control statements nest within the transactions around the session. -/
theorem action_bracketed {σ α : Type} (p : Program α) (s : Session σ) (w : σ)
    (before : List Exchange) :
    ∃ steps, (p.action s.recorded).run (w, before) =
        (((p.action s).run w).1, (((p.action s).run w).2, before ++ steps.map Step.exchange)) ∧
      p.Transcript s.depth steps ((p.action s).run w).1 ∧
      steps.foldlM nest (openedAround s.depth) = some (openedAround s.depth) := by
  obtain ⟨steps, hadds, htranscript⟩ := exists_transcript p s w
  exact ⟨steps, hadds before, htranscript, htranscript.nests⟩

/-- The savepoint cannot be released and the transaction around it cannot be rolled back; the first
failure is the outcome. -/
example :
    let s : Session Script := ⟨Script.world, .sqlite, ⟨[]⟩, .empty, .none, .standard, 0⟩
    let p : Program Unit := .transaction (.transaction (.done (.ok ())) .done) .done
    let failing := ((Script.startingAt ⟨0, ⟨0, 0⟩⟩).failWhen "RELEASE").failWhen "ROLLBACK"
    let run := (p.action s).run failing
    (run.1, run.2.log) =
      (.error (Script.failure "RELEASE SAVEPOINT sqlrecord_sp_1"),
        [.execute ⟨"BEGIN", []⟩, .execute ⟨"SAVEPOINT sqlrecord_sp_1", []⟩,
          .execute ⟨"RELEASE SAVEPOINT sqlrecord_sp_1", []⟩, .execute ⟨"ROLLBACK", []⟩]) := by
  rfl

end RecordMapper
