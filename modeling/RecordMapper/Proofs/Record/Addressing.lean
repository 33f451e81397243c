import RecordMapper.Proofs.Record.Sending

/-!
Every call on a record sends at most one statement, and addresses no row but that of the record.

* `MaySend` lists the statements a call may send, `Answers` how a call that writes a row can end.
* `Event.Orderly` is what holds of each call; `history_orderly` says that it holds of all calls of a
  run.
-/
namespace RecordMapper

set_option autoImplicit false

namespace Record

/-! ## Calls -/

section Calls

variable {σ : Type}

/-- The statements that a call on the record `r` may send. -/
inductive MaySend (s : Session σ) (r : Record) : Call → Request → Prop
  | insert {c : Call} {row : Attributes} {st : Statement} (hc : c.saves = true)
    (hnew : r.persisted = false) (hst : (r.schema.allRows s.dialect).insertion row = .ok st) :
    MaySend s r c (.execute st)
  | update {c : Call} {text : String} {q : Request} (hc : c.saves = true)
    (hold : r.persisted = true)
    (hrow : UpdatesRow s.dialect r ((c.hooked s.hooks r).2.stampedAt (.text text)) q) :
    MaySend s r c q
  | trash {q : Request} (hold : r.persisted = true)
    (hrow : UpdatesRow s.dialect r ((Call.destroy false).hooked s.hooks r).2 q) :
    MaySend s r (.destroy false) q
  | delete {force : Bool} {q : Request} (hold : r.persisted = true)
    (hrow : DeletesRow s.dialect r ((Call.destroy force).hooked s.hooks r).2 q) :
    MaySend s r (.destroy force) q
  | read {q : Request} (hrow : ReadsRow s.dialect r q) : MaySend s r .refresh q

/-- How a call that writes a row ends, the hooks behind the statement left out. -/
inductive Answers (s : Session σ) (c : Call) (r : Record) : Outcome Bool → List Exchange → Prop
  | stopped {f : Fault} (hhooks : (c.hooked s.hooks r).1 = .error f) :
    Answers s c r (.error (.fault f)) []
  | idle (hhooks : (c.hooked s.hooks r).1 = .ok ()) : Answers s c r (.ok false) []
  | sent {o : Outcome Bool} {sent : List Exchange} (hhooks : (c.hooked s.hooks r).1 = .ok ())
    (hends : Ends (MaySend s r c) (Refusal r) true o sent) : Answers s c r o sent

variable {s : Session σ} {r r₀ : Record} {c : Call} {t : σ × List Exchange}

theorem refusal_of_schema {r₁ : Record} (h : r₁.schema = r.schema) {f : Fault} (hf : Refusal r₁ f) :
    Refusal r f := by
  cases hf with
  | keyless =>
    rw [h]
    exact .keyless
  | unmarked =>
    rw [h]
    exact .unmarked
  | nameless hname =>
    rw [h] at hname
    exact .nameless hname

theorem finish_early (r : Record) (t : σ × List Exchange) :
    ((finish s.recorded.early).runOn r).run t = ((.ok true, r.markPersisted), t) := rfl

theorem save_answers (hc : c.saves = true) (hprelude : c.prelude? r = some (.beforeSave, r₀))
    (hedited : r.Edited r₀) (hhooks : s.hooks.Edits) :
    ∃ o r' w' sent, ((save s.recorded.early).runOn r₀).run t = ((o, r'), (w', t.2 ++ sent)) ∧
      Answers s c r o sent := by
  have hhooked : c.hooked s.hooks r = s.hooks.run .beforeSave r₀ := Call.hooked_some hprelude
  have hedited₁ := hedited.trans (hhooks .beforeSave r₀)
  rcases hrun : s.hooks.run .beforeSave r₀ with ⟨f | u, r₁⟩
  · rw [hrun] at hhooked
    refine ⟨_, r₁, t.1, [], ?_, .stopped (congrArg Prod.fst hhooked)⟩
    rw [save_stopped (s := s.recorded.early) hrun, List.append_nil]
  · rw [hrun] at hhooked hedited₁
    have hpassed : (c.hooked s.hooks r).1 = .ok () := congrArg Prod.fst hhooked
    have hleft : (c.hooked s.hooks r).2 = r₁ := congrArg Prod.snd hhooked
    cases hidle : r₁.persisted && !r₁.isDirty with
    | true =>
      refine ⟨_, r₁, t.1, [], ?_, .idle hpassed⟩
      rw [save_idle (s := s.recorded.early) hrun hidle, List.append_nil]
    | false =>
      have hrow : Sends (MaySend s r c) (Refusal r) () (writeRow s.recorded r₁) r₁ t := by
        unfold writeRow
        have hpersisted : r.persisted = r₁.persisted := hedited₁.persisted.symm
        cases hold : r₁.persisted with
        | false =>
          rw [hold] at hpersisted
          refine (insertRow_sends s t r₁).mono (fun q hq => ?_) fun f =>
            refusal_of_schema hedited₁.schema
          obtain ⟨row, st, rfl, hst⟩ := hq
          rw [hedited₁.schema] at hst
          exact .insert hc hpersisted hst
        | true =>
          rw [hold] at hpersisted hidle
          have hdirty : r₁.isDirty = true := by simpa using hidle
          refine (updateRow_sends s t hedited₁ hdirty).mono (fun q hq => ?_) fun f hf => hf
          obtain ⟨text, hq⟩ := hq
          rw [← hleft] at hq
          exact .update hc hpersisted hq
      obtain ⟨o, r', w', sent, hsend, hends⟩ :=
        sends_answer hrow fun r t => ⟨_, finish_early (s := s) r t⟩
      refine ⟨o, r', w', sent, ?_, .sent hpassed hends⟩
      rw [save_written (s := s.recorded.early) hrun hidle]
      exact hsend

theorem destroy_answers (force : Bool) (hhooks : s.hooks.Edits) :
    ∃ o r' w' sent,
      ((destroy s.recorded.early force).runOn r).run t = ((o, r'), (w', t.2 ++ sent)) ∧
        Answers s (.destroy force) r o sent := by
  cases hold : r.persisted with
  | false =>
    have hprelude : (Call.destroy force).prelude? r = none :=
      if_neg (by rw [hold]; exact Bool.false_ne_true)
    have hhooked : (Call.destroy force).hooked s.hooks r = (.ok (), r) :=
      Call.hooked_none hprelude
    refine ⟨_, r, t.1, [], ?_, .idle (congrArg Prod.fst hhooked)⟩
    rw [destroy_new force hold, List.append_nil]
  | true =>
    have hprelude : (Call.destroy force).prelude? r = some (.beforeDelete, r) := if_pos hold
    have hhooked : (Call.destroy force).hooked s.hooks r = s.hooks.run .beforeDelete r :=
      Call.hooked_some hprelude
    have hedited := hhooks .beforeDelete r
    rcases hrun : s.hooks.run .beforeDelete r with ⟨f | u, r₁⟩
    · rw [hrun] at hhooked
      refine ⟨_, r₁, t.1, [], ?_, .stopped (congrArg Prod.fst hhooked)⟩
      rw [destroy_stopped (s := s.recorded.early) force hold hrun, List.append_nil]
    · rw [hrun] at hhooked hedited
      have hpassed : ((Call.destroy force).hooked s.hooks r).1 = .ok () :=
        congrArg Prod.fst hhooked
      have hleft : ((Call.destroy force).hooked s.hooks r).2 = r₁ := congrArg Prod.snd hhooked
      cases hkey : r₁.storedKey? with
      | none =>
        have hrefused : r₁.requireKey =
            .error (.misconfigured (.noPersistedKey r.schema.table)) := by
          unfold requireKey
          rw [hkey, hedited.schema]
        refine ⟨_, r₁, t.1, [], ?_, .sent hpassed (.refused .keyless)⟩
        rw [destroy_keyless (s := s.recorded.early) force hold hrun hrefused, List.append_nil]
      | some key =>
        have hread : r₁.requireKey = .ok key := by
          unfold requireKey
          rw [hkey]
        have hrow : Sends (MaySend s r (.destroy force)) (Refusal r) ()
            (dropRow s.recorded r₁ force key) r₁ t := by
          refine (dropRow_sends s t force hedited hkey).mono (fun q hq => ?_) fun f hf => hf
          rw [← hleft] at hq
          rcases hq with ⟨rfl, hq⟩ | hq
          · exact .trash hold hq
          · exact .delete hold hq
        have hclose : ∀ (r : Record) t, ∃ r',
            ((finishDelete s.recorded.early).runOn r).run t = ((.ok true, r'), t) :=
          fun r t => ⟨r, rfl⟩
        obtain ⟨o, r', w', sent, hsend, hends⟩ := sends_answer hrow hclose
        refine ⟨o, r', w', sent, ?_, .sent hpassed hends⟩
        rw [destroy_dropped (s := s.recorded.early) force hold hrun hread]
        exact hsend

theorem restore_answers (hhooks : s.hooks.Edits) :
    ∃ o r' w' sent, ((restore s.recorded.early).runOn r).run t = ((o, r'), (w', t.2 ++ sent)) ∧
      Answers s .restore r o sent := by
  cases hmark : r.schema.softDelete with
  | none =>
    have hprelude : Call.restore.prelude? r = none := by
      show r.schema.softDelete.map _ = none
      rw [hmark]
      rfl
    have hpassed : (Call.restore.hooked s.hooks r).1 = .ok () :=
      congrArg Prod.fst (Call.hooked_none hprelude)
    refine ⟨_, r, t.1, [], ?_, .sent hpassed (.refused .unmarked)⟩
    rw [restore_unmarked hmark, List.append_nil]
  | some column =>
    have hprelude : Call.restore.prelude? r = some (.beforeSave, r.set column .null) := by
      show r.schema.softDelete.map _ = _
      rw [hmark]
      rfl
    rw [restore_marked hmark]
    exact save_answers rfl hprelude (edited_set r column .null) hhooks

theorem early_answers (hc : c.writes = true) (hhooks : s.hooks.Edits) :
    ∃ o r' w' sent, ((c.run s.recorded.early).runOn r).run t = ((o, r'), (w', t.2 ++ sent)) ∧
      Answers s c r o sent := by
  cases c with
  | save => exact save_answers rfl rfl (Edited.refl r) hhooks
  | destroy force => exact destroy_answers force hhooks
  | restore => exact restore_answers hhooks
  | _ => cases hc

/-! ## Runs -/

/-- How a call stood before the hooks behind its statement. -/
def Event.halfway (s : Session σ) (e : Event σ) : Outcome Bool × Record :=
  (((e.call.run s.recorded.early).runOn e.before).run (e.world, [])).1

/-- What holds of every call, whatever the hooks and the database do. -/
structure Event.Orderly (s : Session σ) (g : HookRegistry) (e : Event σ) : Prop where
  single : e.sent.length ≤ 1
  keyed : ∀ x ∈ e.sent, MaySend s e.before e.call x.request
  stopped : ∀ f, (e.call.hooked s.hooks e.before).1 = .error f →
    e.sent = [] ∧ e.outcome = .error (.fault f)
  unregistered : ∀ phase r name, e.call.prelude? e.before = some (phase, r) →
    name ∈ r.schema.hooksFor phase → g.named.get? name = none → e.sent = []
  /-- Neither the record the hooks leave nor that with its moment set has a key. -/
  keyless : e.before.persisted = true → (e.call.hooked s.hooks e.before).2.storedKey? = none →
    (∀ now, ((e.call.hooked s.hooks e.before).2.stampedAt now).storedKey? = none) → e.sent = []
  concluded : (e.outcome, e.after) = e.call.conclude s.hooks (e.halfway s)
  succeeded : e.call.writes = true →
    ((e.halfway s).1 = .ok true ↔ ∃ x, e.sent = [x] ∧ x.stop = none)
  saved : e.call.saves = true → (e.outcome = .ok true ↔
    (∃ x, e.sent = [x] ∧ x.stop = none) ∧ (s.hooks.run .afterSave (e.halfway s).2).1 = .ok ())
  /-- If a save does not compile, then a hook or the database said so. -/
  compiles : e.call.saves = true → (Text.trim e.before.schema.table).isEmpty = false →
    ∀ cause fragment, e.outcome = .error (.fault (.compilation cause fragment)) →
      (e.call.hooked s.hooks e.before).1 = .error (.compilation cause fragment) ∨
      (s.hooks.run .afterSave (e.halfway s).2).1 = .error (.compilation cause fragment) ∨
      ∃ x ∈ e.sent, x.stop = some (.fault (.compilation cause fragment))

theorem edited_hooked (hhooks : s.hooks.Edits) (c : Call) (r : Record) :
    r.Edited (c.hooked s.hooks r).2 := by
  cases hprelude : c.prelude? r with
  | none =>
    rw [Call.hooked_none hprelude]
    exact Edited.refl r
  | some found =>
    obtain ⟨phase, r₀⟩ := found
    rw [Call.hooked_some hprelude]
    refine Edited.trans ?_ (hhooks phase r₀)
    cases c with
    | save =>
      cases hprelude
      exact Edited.refl r
    | destroy force =>
      have hfound : (if r.persisted then some (Phase.beforeDelete, r) else none) =
          some (phase, r₀) := hprelude
      split at hfound
      · cases hfound
        exact Edited.refl r
      · cases hfound
    | restore =>
      have hfound : (r.schema.softDelete.map fun column => (Phase.beforeSave, r.set column .null)) =
          some (phase, r₀) := hprelude
      obtain ⟨column, -, hset⟩ := Option.map_eq_some_iff.mp hfound
      cases hset
      exact edited_set r column .null
    | _ => cases hprelude

/-- A statement that addresses a row is not sent where there is no key. -/
theorem keyless_of_keyed (hhooks : s.hooks.Edits) (hold : r.persisted = true)
    (hkey : (c.hooked s.hooks r).2.storedKey? = none)
    (hstamped : ∀ now, ((c.hooked s.hooks r).2.stampedAt now).storedKey? = none) {q : Request}
    (h : MaySend s r c q) : False := by
  have hedited := edited_hooked hhooks c r
  cases h with
  | insert hc hnew hst =>
    rw [hold] at hnew
    cases hnew
  | @update _ text _ hc hold hrow =>
    obtain ⟨key, assignments, st, -, haddress, -⟩ := hrow
    have hsending := hedited.trans (stamped_stampedAt (c.hooked s.hooks r).2 text).edited
    rw [addresses_iff hsending, hstamped] at haddress
    cases haddress
  | trash hold hrow =>
    obtain ⟨key, assignments, st, -, haddress, -⟩ := hrow
    rw [addresses_iff hedited, hkey] at haddress
    cases haddress
  | delete hold hrow =>
    obtain ⟨key, st, -, haddress, -⟩ := hrow
    rw [addresses_iff hedited, hkey] at haddress
    cases haddress
  | read hrow =>
    obtain ⟨key, st, -, haddress, -⟩ := hrow
    rw [addresses_iff (Edited.refl r)] at haddress
    have hsame : (Call.refresh.hooked s.hooks r).2 = r := rfl
    rw [hsame, haddress] at hkey
    cases hkey

section Events

variable {w : σ}

/-- A call sends what its early part sends, and ends as that does after the last hooks. -/
theorem event_eq (c : Call) (r : Record) (w : σ) {o : Outcome Bool} {r' : Record} {w' : σ}
    {sent : List Exchange}
    (h : ((c.run s.recorded.early).runOn r).run (w, []) = ((o, r'), (w', sent))) :
    (c.event s r w).sent = sent ∧ (c.event s r w).halfway s = (o, r') ∧
      ((c.event s r w).outcome, (c.event s r w).after) = c.conclude s.hooks (o, r') := by
  have hconclude := concludes_run (s := s.recorded) c r (w, [])
  unfold Concludes at hconclude
  rw [h] at hconclude
  refine ⟨?_, congrArg Prod.fst h, ?_⟩
  · exact congrArg (fun ending => ending.2.2) hconclude
  · exact congrArg Prod.fst hconclude

theorem conclude_ok {hooks : Hooks} {phase : Phase} (hc : c.epilogue? = some phase)
    {o : Outcome Bool} {r' : Record} :
    (c.conclude hooks (o, r')).1 = .ok true ↔ o = .ok true ∧ (hooks.run phase r').1 = .ok () := by
  cases o with
  | error stop => simp [Call.conclude]
  | ok wrote =>
    cases wrote with
    | false => simp [Call.conclude]
    | true =>
      rcases hrun : hooks.run phase r' with ⟨f | u, r''⟩
      · simp [Call.conclude, hc, hrun]
      · simp [Call.conclude, hc, hrun]

theorem conclude_error {hooks : Hooks} {phase : Phase} (hc : c.epilogue? = some phase)
    {o : Outcome Bool} {r' : Record} {f : Fault}
    (h : (c.conclude hooks (o, r')).1 = .error (.fault f)) :
    o = .error (.fault f) ∨ o = .ok true ∧ (hooks.run phase r').1 = .error f := by
  cases o with
  | error stop => exact .inl h
  | ok wrote =>
    cases wrote with
    | false => cases h
    | true =>
      rcases hrun : hooks.run phase r' with ⟨f' | u, r''⟩
      · simp only [Call.conclude, hc, hrun] at h
        cases h
        exact .inr ⟨rfl, rfl⟩
      · simp only [Call.conclude, hc, hrun] at h
        cases h

theorem single_nil (P : Exchange → Prop) :
    ([] : List Exchange).length ≤ 1 ∧ ∀ x ∈ ([] : List Exchange), P x := by
  simp

theorem single_cons {P : Exchange → Prop} {x : Exchange} (h : P x) :
    [x].length ≤ 1 ∧ ∀ y ∈ [x], P y := by
  simpa using h

theorem answers_single {o : Outcome Bool} {sent : List Exchange} (h : Answers s c r o sent) :
    sent.length ≤ 1 ∧ ∀ x ∈ sent, MaySend s r c x.request := by
  cases h with
  | stopped hhooks => exact single_nil _
  | idle hhooks => exact single_nil _
  | sent hhooks hends =>
    cases hends with
    | refused h => exact single_nil _
    | failed h => exact single_cons h
    | done h => exact single_cons h

theorem answers_succeeded {o : Outcome Bool} {sent : List Exchange} (h : Answers s c r o sent) :
    o = .ok true ↔ ∃ x, sent = [x] ∧ x.stop = none := by
  cases h with
  | stopped hhooks => simp
  | idle hhooks => simp
  | sent hhooks hends =>
    cases hends with
    | refused h => simp
    | failed h => simp
    | done h => simp

theorem answers_compile {o : Outcome Bool} {sent : List Exchange} (h : Answers s c r o sent)
    (hname : (Text.trim r.schema.table).isEmpty = false) {cause : CompileCause}
    {fragment : Option String} (ho : o = .error (.fault (.compilation cause fragment))) :
    (c.hooked s.hooks r).1 = .error (.compilation cause fragment) ∨
      ∃ x ∈ sent, x.stop = some (.fault (.compilation cause fragment)) := by
  cases h with
  | stopped hhooks =>
    cases ho
    exact .inl hhooks
  | idle hhooks => cases ho
  | sent hhooks hends =>
    cases hends with
    | refused hrefusal =>
      cases ho
      cases hrefusal with
      | nameless hblank =>
        rw [hname] at hblank
        cases hblank
    | failed h =>
      cases ho
      exact .inr ⟨_, List.mem_singleton.mpr rfl, rfl⟩
    | done h => cases ho

theorem answers_stopped {o : Outcome Bool} {sent : List Exchange} (h : Answers s c r o sent)
    {f : Fault} (hf : (c.hooked s.hooks r).1 = .error f) : sent = [] ∧ o = .error (.fault f) := by
  cases h with
  | stopped hhooks =>
    rw [hf] at hhooks
    cases hhooks
    exact ⟨rfl, rfl⟩
  | idle hhooks =>
    rw [hf] at hhooks
    cases hhooks
  | sent hhooks hends =>
    rw [hf] at hhooks
    cases hhooks

/-- A call that writes no row runs no hooks, and sends nothing unless it reads. -/
theorem early_silent (hc : c.writes = false) :
    c.prelude? r = none ∧ ∃ o r' w' sent,
      ((c.run s.recorded.early).runOn r).run (w, []) = ((o, r'), (w', sent)) ∧
        sent.length ≤ 1 ∧ ∀ x ∈ sent, MaySend s r c x.request := by
  cases c with
  | set name v => exact ⟨rfl, _, _, _, [], rfl, single_nil _⟩
  | fill data => exact ⟨rfl, _, _, _, [], rfl, single_nil _⟩
  | refresh =>
    refine ⟨rfl, ?_⟩
    obtain ⟨o, r', w', sent, hrun, hsent⟩ := refresh_run s.early (w, []) r
    have hmay : sent.length ≤ 1 ∧ ∀ x ∈ sent, MaySend s r .refresh x.request := by
      rcases hsent with rfl | ⟨x, rfl, hx⟩
      · exact single_nil _
      · exact single_cons (.read hx)
    have hearly : ((Record.refresh s.recorded.early).runOn r).run (w, []) =
        ((o, r'), (w', sent)) := hrun
    cases o with
    | error stop => exact ⟨.error stop, r', w', sent, Change.run_bind_error hearly, hmay⟩
    | ok u => exact ⟨.ok false, r', w', sent, Change.run_bind_ok hearly, hmay⟩
  | _ => cases hc

theorem saves_writes (hc : c.saves = true) :
    c.writes = true ∧ c.epilogue? = some .afterSave := by
  cases c with
  | save => exact ⟨rfl, rfl⟩
  | restore => exact ⟨rfl, rfl⟩
  | _ => cases hc

/-- What a call sends before its last hooks, and how it stands then. -/
structure Early (s : Session σ) (c : Call) (r : Record) (o : Outcome Bool)
    (sent : List Exchange) : Prop where
  single : sent.length ≤ 1
  keyed : ∀ x ∈ sent, MaySend s r c x.request
  stopped : ∀ f, (c.hooked s.hooks r).1 = .error f → sent = [] ∧ o = .error (.fault f)
  answers : c.writes = true → Answers s c r o sent

theorem early_run (hhooks : s.hooks.Edits) (c : Call) (r : Record) (w : σ) :
    ∃ o r' w' sent, ((c.run s.recorded.early).runOn r).run (w, []) = ((o, r'), (w', sent)) ∧
      Early s c r o sent := by
  cases hc : c.writes with
  | true =>
    obtain ⟨o, r', w', sent, hrun, hanswers⟩ := early_answers (t := (w, [])) (r := r) hc hhooks
    obtain ⟨hlength, hmay⟩ := answers_single hanswers
    exact ⟨o, r', w', sent, hrun, hlength, hmay, fun f hf => answers_stopped hanswers hf,
      fun _ => hanswers⟩
  | false =>
    obtain ⟨hprelude, o, r', w', sent, hrun, hlength, hmay⟩ :=
      early_silent (s := s) (r := r) (w := w) hc
    refine ⟨o, r', w', sent, hrun, hlength, hmay, fun f hf => ?_, fun h => ?_⟩
    · rw [Call.hooked_none hprelude] at hf
      cases hf
    · rw [hc] at h
      cases h

theorem event_orderly {g : HookRegistry} (hg : s.hooks = g.hooks) (hhooks : s.hooks.Edits)
    (c : Call) (r : Record) (w : σ) : (c.event s r w).Orderly s g := by
  obtain ⟨o, r', w', sent, hrun, hearly⟩ := early_run hhooks c r w
  obtain ⟨hsent, hhalfway, hconcluded⟩ := event_eq c r w hrun
  have houtcome : (c.event s r w).outcome = (c.conclude s.hooks (o, r')).1 :=
    congrArg Prod.fst hconcluded
  have hfailed : ∀ f, (c.hooked s.hooks r).1 = .error f →
      (c.event s r w).sent = [] ∧ (c.event s r w).outcome = .error (.fault f) := by
    intro f hf
    obtain ⟨rfl, rfl⟩ := hearly.stopped f hf
    exact ⟨hsent, houtcome⟩
  exact {
    single := by
      rw [hsent]
      exact hearly.single
    keyed := by
      rw [hsent]
      exact hearly.keyed
    stopped := hfailed
    unregistered := by
      intro phase r₀ name hprelude hname hnone
      obtain ⟨f, hf⟩ := HookRegistry.hooks_fail hname hnone
      have hhooked : c.hooked s.hooks r = s.hooks.run phase r₀ := Call.hooked_some hprelude
      refine (hfailed f ?_).1
      rw [hhooked, hg]
      exact hf
    keyless := by
      intro hold hkey hstamped
      rw [hsent]
      refine List.eq_nil_iff_forall_not_mem.mpr fun x hx => ?_
      exact keyless_of_keyed hhooks hold hkey hstamped (hearly.keyed x hx)
    concluded := by
      rw [hhalfway]
      exact hconcluded
    succeeded := by
      intro hc
      rw [hhalfway, hsent]
      exact answers_succeeded (hearly.answers hc)
    saved := by
      intro hc
      obtain ⟨hwrites, hepilogue⟩ := saves_writes (c := c) hc
      rw [houtcome, hhalfway, hsent, conclude_ok hepilogue,
        answers_succeeded (hearly.answers hwrites)]
    compiles := by
      intro hc hname cause fragment hfault
      obtain ⟨hwrites, hepilogue⟩ := saves_writes hc
      rw [houtcome] at hfault
      rw [hhalfway, hsent]
      rcases conclude_error hepilogue hfault with hfailure | ⟨-, hafter⟩
      · rcases answers_compile (hearly.answers hwrites) hname hfailure with hbefore | hdatabase
        · exact .inl hbefore
        · exact .inr (.inr hdatabase)
      · exact .inr (.inl hafter) }

/-- In every run on a record, each call sends at most one statement; it addresses the row by the
key under which that is stored, and is sent only after the hooks in front of it have passed. -/
theorem history_orderly (s : Session σ) (g : HookRegistry) (hg : s.hooks = g.hooks)
    (hsets : g.OnlySets) (schema : Schema) (start : Record)
    (hstart : start = .new schema ∨ ∃ row, start = .hydrate schema row) (calls : List Call)
    (w : σ) :
    ∀ e ∈ history s calls start w, e.before.schema = schema ∧ e.Orderly s g := by
  have hhooks : s.hooks.Edits := by
    rw [hg]
    exact HookRegistry.edits_hooks hsets
  have hschema : start.schema = schema := by
    rcases hstart with rfl | ⟨row, rfl⟩ <;> rfl
  clear hstart
  induction calls generalizing start w with
  | nil =>
    intro e he
    cases he
  | cons c rest ih =>
    intro e he
    rcases List.mem_cons.mp he with rfl | he
    · exact ⟨hschema, event_orderly hg hhooks c start w⟩
    · refine ih _ _ ?_ e he
      have hkept := keepsSchema_run (s := s.recorded) hhooks c start (w, [])
      exact hkept.trans hschema

end Events

end Calls

/-! ## A run with edits of the key -/

/-- Posts are kept when they are deleted, and have a hook that derives an address of the title. -/
def posts : Schema :=
  { Schema.plain "posts" with
    keyStrategy := .autoIncrement
    softDelete := some "deleted_at"
    hooks := [(.beforeSave, "address")] }

/-- A post without a title has no address. -/
def addressHook : Hook := fun r =>
  if (r.value "title").isNull then (.error (.misconfigured (.noSoftDelete "posts")), r)
  else (.ok (), r.forceFill [("address", r.value "title")])

def postHooks : HookRegistry := ⟨NameMap.ofList [("address", addressHook)], []⟩

def postSession : Session Script :=
  ⟨Script.world, .postgres, ⟨[]⟩, .empty, postHooks.hooks, .standard, 0⟩

def postCalls : List Call :=
  [.save, .set "title" (.text "a"), .save, .set "id" (.int64 9), .save, .destroy false, .restore,
    .set "id" (.int64 5), .destroy true, .refresh]

theorem onlySets_postHooks : postHooks.OnlySets := by
  constructor
  · intro name hook hhook r
    have hname : hook = addressHook := by
      have hmem := Assoc.mem_of_get? hhook
      exact congrArg Prod.snd (List.mem_singleton.mp hmem)
    rw [hname]
    unfold addressHook
    split
    · exact ⟨[], rfl⟩
    · exact ⟨_, rfl⟩
  · exact nofun

def postBeginning : Script := Script.startingAt ⟨0, ⟨0, 0⟩⟩

/-- The texts that the calls of a run have sent, with the values as they are shown. -/
def sentTexts (events : List (Event Script)) : List (List (String × List String)) :=
  events.map fun e => e.sent.map fun x =>
    match x.request with
    | .query st | .execute st => (st.sql, st.values.map Value.display)

def postTexts : List (List (String × List String)) :=
  [[], [],
    [("INSERT INTO \"posts\" (\"address\", \"title\") VALUES ($1, $2)", ["a", "a"])], [],
    [("UPDATE \"posts\" SET \"id\" = $1 WHERE \"id\" = $2", ["9", "1"])],
    [("UPDATE \"posts\" SET \"deleted_at\" = $1 WHERE \"id\" = $2",
      ["1970-01-01T00:00:00.000Z", "9"])],
    [("UPDATE \"posts\" SET \"deleted_at\" = $1 WHERE \"id\" = $2", ["NULL", "9"])], [],
    [("DELETE FROM \"posts\" WHERE \"id\" = $1", ["9"])],
    [("SELECT * FROM \"posts\" WHERE \"id\" = $1 LIMIT 1", ["9"])]]

theorem history_orderly_posts :
    postSession.hooks = postHooks.hooks ∧ postHooks.OnlySets ∧
    (new posts = .new posts ∨ ∃ row, new posts = .hydrate posts row) ∧
    sentTexts (history postSession postCalls (.new posts) postBeginning) = postTexts ∧
    ∀ e ∈ history postSession postCalls (.new posts) postBeginning,
      e.before.schema = posts ∧ e.Orderly postSession postHooks := by
  have htexts : sentTexts (history postSession postCalls (.new posts) postBeginning) =
      postTexts := by
    decide +kernel
  exact ⟨rfl, onlySets_postHooks, .inl rfl, htexts,
    history_orderly postSession postHooks rfl onlySets_postHooks posts (.new posts) (.inl rfl)
      postCalls postBeginning⟩

end Record

end RecordMapper
