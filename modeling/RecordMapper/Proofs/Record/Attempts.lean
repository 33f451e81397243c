import RecordMapper.Proofs.Record.Sending

/-!
Attempts to write a row, and the record that each of them leaves.

* `Attempt` is what becomes of a compiled statement: it is refused before it is sent, it fails, or
  it is carried out.
* `Record.Attempts` says of a change that it attempts one statement, and with which record it ends
  if that fails and if it is carried out.
* There is one lemma for each way in which a row is written, and from them one for each call without
  hooks.
-/
namespace RecordMapper

set_option autoImplicit false

/-- What becomes of a statement, and what is sent for it. -/
inductive Attempt (compiled : Result Statement) : Outcome Execution → List Exchange → Prop
  | refused {f : Fault} (h : compiled = .error f) : Attempt compiled (.error (.fault f)) []
  | failed {st : Statement} {stop : Halt} (h : compiled = .ok st) :
    Attempt compiled (.error stop) [⟨.execute st, some stop⟩]
  | done {st : Statement} {e : Execution} (h : compiled = .ok st) :
    Attempt compiled (.ok e) [⟨.execute st, none⟩]

namespace Record

variable {σ α β : Type}

/-- The record after an attempt: `failed` if there is no report of an execution. -/
def afterwards (failed : Record) (done : Execution → Record) : Outcome Execution → Record
  | .ok e => done e
  | .error _ => failed

/-- The change begins with the record `r` in the recorded world `t`, attempts the statement
`compiled` and answers `answer` if it is carried out. -/
def Attempts (compiled : Result Statement) (failed : Record) (done : Execution → Record)
    (answer : α) (c : Change (σ × List Exchange) Record α) (r : Record)
    (t : σ × List Exchange) : Prop :=
  ∃ o w' sent, Attempt compiled o sent ∧ (c.runOn r).run t =
    ((o.map fun _ => answer, afterwards failed done o), (w', t.2 ++ sent))

section Attempts

variable {compiled : Result Statement} {failed : Record} {done : Execution → Record} {answer : α}
  {r r₁ : Record} {t t₁ : σ × List Exchange}

theorem attempts_after {c : Change (σ × List Exchange) Record β}
    {f : β → Change (σ × List Exchange) Record α} {b : β}
    (hrun : (c.runOn r).run t = ((.ok b, r₁), t₁)) (hlog : t₁.2 = t.2)
    (h : Attempts compiled failed done answer (f b) r₁ t₁) :
    Attempts compiled failed done answer (c >>= f) r t := by
  obtain ⟨o, w', sent, hattempt, hrest⟩ := h
  refine ⟨o, w', sent, hattempt, ?_⟩
  rw [Change.run_bind_ok hrun, hrest, hlog]

/-- What follows the attempt is done only if the statement was carried out. -/
theorem attempts_bind (g : Record → Record) {row : Change (σ × List Exchange) Record Unit}
    {f : Change (σ × List Exchange) Record α} (h : Attempts compiled failed done () row r t)
    (hrest : ∀ e t', (f.runOn (done e)).run t' = ((.ok answer, g (done e)), t')) :
    Attempts compiled failed (fun e => g (done e)) answer (row >>= fun _ => f) r t := by
  obtain ⟨o, w', sent, hattempt, hrow⟩ := h
  refine ⟨o, w', sent, hattempt, ?_⟩
  cases o with
  | error stop => exact Change.run_bind_error hrow
  | ok e => exact (Change.run_bind_ok hrow).trans (hrest e _)

theorem attempts_action {a : Action (σ × List Exchange) β} {report : Execution → β}
    {f : β → Change (σ × List Exchange) Record α}
    (ha : ∃ o w' sent, Attempt compiled o sent ∧ a.run t = (o.map report, (w', t.2 ++ sent)))
    (hrest : ∀ e t', ((f (report e)).runOn r).run t' = ((.ok answer, done e), t')) :
    Attempts compiled r done answer (Change.ofAction a >>= f) r t := by
  obtain ⟨o, w', sent, hattempt, hsend⟩ := ha
  refine ⟨o, w', sent, hattempt, ?_⟩
  cases o with
  | ok e => exact (Change.run_ofAction_bind_ok hsend).trans (hrest e _)
  | error stop =>
    apply Change.run_bind_error
    rw [Change.run_ofAction, hsend]
    rfl

end Attempts

section Statements

variable (s : Session σ) (compiled : Result Statement) (t : σ × List Exchange)

theorem exists_attempt_executing :
    ∃ o w' sent, Attempt compiled o sent ∧
      ((Action.ofResult compiled >>= fun st => s.recorded.execute st).run t) =
        (o, (w', t.2 ++ sent)) := by
  cases compiled with
  | error f => exact ⟨_, t.1, [], .refused rfl, by rw [List.append_nil]; rfl⟩
  | ok st =>
    have hsend := s.run_execute_recorded st t
    rcases hrun : s.world.execute st t.1 with ⟨stop | e, w'⟩
    · rw [hrun] at hsend
      exact ⟨.error stop, w', _, .failed rfl, hsend⟩
    · rw [hrun] at hsend
      exact ⟨.ok e, w', _, .done rfl, hsend⟩

theorem exists_attempt_affecting :
    ∃ o w' sent, Attempt compiled o sent ∧
      (Query.affecting s.recorded compiled).run t =
        (o.map Execution.affected, (w', t.2 ++ sent)) := by
  obtain ⟨o, w', sent, hattempt, hsend⟩ := exists_attempt_executing s compiled t
  refine ⟨o, w', sent, hattempt, ?_⟩
  have hparts : Query.affecting s.recorded compiled =
      ((Action.ofResult compiled >>= fun st => s.recorded.execute st) >>= fun e =>
        pure e.affected) := by
    unfold Query.affecting
    rw [bind_assoc]
  rw [hparts]
  cases o with
  | error stop => exact Action.run_bind_error hsend
  | ok e => exact Action.run_bind_ok hsend

end Statements

/-! ## Rows -/

/-- The update of the row of a record. -/
def rowUpdate (s : Session σ) (r : Record) (assignments : Attributes) : Result Statement := do
  let key ← r.requireKey
  (r.rowQuery s key).updating assignments

theorem rowUpdate_of_key {s : Session σ} {r : Record} {key : Value}
    (h : r.requireKey = .ok key) (assignments : Attributes) :
    r.rowUpdate s assignments = (r.rowQuery s key).updating assignments := by
  unfold rowUpdate
  rw [h]
  rfl

section Rows

variable (s : Session σ) (r : Record) (t : σ × List Exchange)

/-- The record is marked before the statement is sent, and keeps the mark if that fails. -/
theorem trashRow_attempts (column : String) (key : Value) :
    Attempts ((r.rowQuery s key).updating (deletionMark r.schema column (s.moment t.1)))
      (setDeletionMark column (s.moment t.1) r)
      (fun _ => (setDeletionMark column (s.moment t.1) r).syncAttributes
        (deletionMark r.schema column (s.moment t.1)).names)
      () (trashRow s.recorded column key) r t := by
  have hschema := schema_setDeletionMark column (s.moment t.1) r
  have hquery : (setDeletionMark column (s.moment t.1) r).rowQuery s key = r.rowQuery s key := by
    unfold rowQuery
    rw [hschema]
  rw [← hquery, ← hschema]
  have hnow : ((Change.ofAction s.recorded.now : Change (σ × List Exchange) Record Value).runOn
      r).run t = ((.ok (s.moment t.1), r), ((s.world.now t.1).2, t.2)) := rfl
  unfold trashRow
  apply attempts_after hnow rfl
  apply attempts_after (Change.run_modify _ r _) rfl
  apply attempts_after rfl rfl
  exact attempts_action (exists_attempt_affecting s _ _) fun e t' => Change.run_modify _ _ t'

theorem deleteRow_attempts (key : Value) :
    Attempts (r.rowQuery s key).deletion r (fun _ => r.markDeleted) () (deleteRow s.recorded key)
      r t := by
  unfold deleteRow
  apply attempts_after rfl rfl
  exact attempts_action (exists_attempt_affecting s _ t) fun e t' => Change.run_modify _ _ t'

/-- A record whose row has no key is refused like one that cannot be compiled. -/
theorem updateRow_attempts :
    Attempts ((r.stampedAt (s.moment t.1)).rowUpdate s (r.stampedAt (s.moment t.1)).dirty)
      (r.stampedAt (s.moment t.1)) (fun _ => r.stampedAt (s.moment t.1)) ()
      (updateRow s.recorded) r t := by
  obtain ⟨t₁, hstamp, hlog⟩ := stampChanged_now (steady_recorded s) r t
  have hmoment : s.recorded.moment t = s.moment t.1 := rfl
  rw [hmoment] at hstamp
  unfold updateRow
  apply attempts_after hstamp hlog
  apply attempts_after rfl rfl
  cases hkey : (r.stampedAt (s.moment t.1)).requireKey with
  | error f =>
    refine ⟨.error (.fault f), t₁.1, [], .refused ?_, ?_⟩
    · unfold rowUpdate
      rw [hkey]
      rfl
    · rw [Change.run_ofResult_bind_error, List.append_nil]
      rfl
  | ok key =>
    rw [rowUpdate_of_key hkey]
    apply attempts_after rfl rfl
    exact attempts_action (exists_attempt_affecting s _ _) fun e t' => rfl

theorem insertRow_attempts :
    ∃ uuid now, Drawn s.world t.1 uuid now ∧
      Attempts ((r.schema.allRows s.dialect).insertion (r.readied uuid now).insertable)
        (r.readied uuid now) (fun e => takeKey e (r.readied uuid now)) () (insertRow s.recorded)
        r t := by
  obtain ⟨uuid, now, t₁, ⟨huuid, t₀, hfrom, hnow⟩, hlog, hrun⟩ :=
    insertRow_eq (steady_recorded s) r t
  refine ⟨uuid, now, ⟨huuid, t₀.1, hfrom.imp (congrArg Prod.fst) (congrArg Prod.fst), hnow⟩, ?_⟩
  obtain ⟨o, w', sent, hattempt, hsend⟩ := exists_attempt_executing s
    ((r.schema.allRows s.dialect).insertion (r.readied uuid now).insertable) t₁
  have hreport : o = o.map id := by rw [Except.map_id, id]
  rw [hreport] at hsend
  unfold Attempts
  rw [hrun, ← hlog]
  exact attempts_action ⟨o, w', sent, hattempt, hsend⟩ fun e t' => Change.run_modify _ _ t'

end Rows

/-! ## Calls without hooks -/

section Calls

variable {s : Session σ} {r : Record} (hhooks : NoHooks s r.schema) (t : σ × List Exchange)

include hhooks

theorem destroy_attempts {key : Value} (force : Bool) (hold : r.persisted = true)
    (hkey : r.requireKey = .ok key) {compiled : Result Statement} {failed : Record}
    {done : Execution → Record} (hdone : ∀ e, (done e).schema = r.schema)
    (hrow : Attempts compiled failed done () (dropRow s.recorded r force key) r t) :
    Attempts compiled failed done true (destroy s.recorded force) r t := by
  have hrest : ∀ e t', ((finishDelete s.recorded).runOn (done e)).run t' =
      ((.ok true, done e), t') := by
    intro e t'
    unfold finishDelete
    have hafter := run_hooks_ok (s := s.recorded) (hhooks .afterDelete (done e) (hdone e)) t'
    rw [Change.run_bind_ok hafter]
    rfl
  unfold Attempts
  rw [destroy_dropped (s := s.recorded) force hold (hhooks .beforeDelete r rfl) hkey]
  exact attempts_bind id hrow hrest

theorem save_attempts_update (hold : r.persisted = true) (hdirty : r.isDirty = true) :
    Attempts ((r.stampedAt (s.moment t.1)).rowUpdate s (r.stampedAt (s.moment t.1)).dirty)
      (r.stampedAt (s.moment t.1)) (fun _ => (r.stampedAt (s.moment t.1)).markPersisted) true
      (save s.recorded) r t := by
  have hschema : (r.stampedAt (s.moment t.1)).schema = r.schema :=
    (stamped_stampedAt r _).edited.schema
  unfold Attempts
  rw [save_dirty (s := s.recorded) hhooks hold hdirty]
  exact attempts_bind markPersisted (updateRow_attempts s r t) fun e t' =>
    run_finish (s := s.recorded) (hschema ▸ hhooks) t'

theorem save_attempts_insert (hnew : r.persisted = false) :
    ∃ uuid now, Drawn s.world t.1 uuid now ∧
      Attempts ((r.schema.allRows s.dialect).insertion (r.readied uuid now).insertable)
        (r.readied uuid now) (fun e => (takeKey e (r.readied uuid now)).markPersisted) true
        (save s.recorded) r t := by
  obtain ⟨uuid, now, hdrawn, hrow⟩ := insertRow_attempts s r t
  have hschema : ∀ e, (takeKey e (r.readied uuid now)).schema = r.schema :=
    fun e => (schema_takeKey e _).trans (edited_readied r uuid now).schema
  refine ⟨uuid, now, hdrawn, ?_⟩
  unfold Attempts
  rw [save_new (s := s.recorded) hhooks hnew]
  exact attempts_bind markPersisted hrow fun e t' =>
    run_finish (s := s.recorded) (hschema e ▸ hhooks) t'

end Calls

/-! ## Events -/

/-- How a call stands that attempts a statement. -/
structure Event.Attempted (e : Event σ) (compiled : Result Statement) (failed : Record)
    (done : Execution → Record) (o : Outcome Execution) : Prop where
  attempt : Attempt compiled o e.sent
  outcome : e.outcome = o.map fun _ => true
  after : e.after = afterwards failed done o

theorem event_attempted {s : Session σ} {c : Call} {r : Record} {w : σ}
    {compiled : Result Statement} {failed : Record} {done : Execution → Record}
    (h : Attempts compiled failed done true (c.run s.recorded) r (w, [])) :
    ∃ o, (c.event s r w).Attempted compiled failed done o := by
  obtain ⟨o, w', sent, hattempt, hrun⟩ := h
  refine ⟨o, ?_, congrArg (fun x => x.1.1) hrun, congrArg (fun x => x.1.2) hrun⟩
  have hsent : (c.event s r w).sent = sent := congrArg (fun x => x.2.2) hrun
  rw [hsent]
  exact hattempt

end Record

end RecordMapper
