import RecordMapper.Proofs.Record.Saving
import RecordMapper.Proofs.Session.Recorded

/-!
Runs of calls on one record.

* `Record.Call` is what is done to a record, `Record.history` what happened at each call of a run. A
  call that fails leaves the record as it made it, and the run goes on.
* `Call.hooked` are the hooks that run before the statement of a call. `Session.early` leaves out
  the hooks that run afterwards, and `Call.conclude` runs those: a call is an early call and its
  conclusion.
* `Hook.OnlySets` says that a hook does nothing to a record but set attributes, and may fail.
-/
namespace RecordMapper

set_option autoImplicit false

variable {σ : Type}

/-! ## Hooks that set attributes -/

def Hook.OnlySets (hook : Hook) : Prop := ∀ r, ∃ data, (hook r).2 = r.forceFill data

structure HookRegistry.OnlySets (g : HookRegistry) : Prop where
  named : ∀ name hook, g.named.get? name = some hook → hook.OnlySets
  listeners : ∀ l ∈ g.listeners, l.2.OnlySets

namespace Record

theorem forceFill_append (r : Record) (a b : List (String × Value)) :
    r.forceFill (a ++ b) = (r.forceFill a).forceFill b :=
  List.foldl_append

end Record

/-- Whatever the phase, the hooks do nothing to a record but change its attributes. -/
def Hooks.Edits (hooks : Hooks) : Prop := ∀ phase (r : Record), r.Edited (hooks.run phase r).2

namespace HookRegistry

theorem runAll_onlySets {hooks : List Hook} (h : ∀ hook ∈ hooks, hook.OnlySets) :
    Hook.OnlySets (runAll hooks) := by
  induction hooks with
  | nil => exact fun r => ⟨[], rfl⟩
  | cons hook rest ih =>
    intro r
    obtain ⟨data, hdata⟩ := h hook (List.mem_cons_self ..) r
    rcases hrun : hook r with ⟨o, r'⟩
    rw [hrun] at hdata
    cases o with
    | error f =>
      refine ⟨data, ?_⟩
      rw [runAll, hrun]
      exact hdata
    | ok u =>
      obtain ⟨more, hmore⟩ := ih (fun hook hmem => h hook (List.mem_cons_of_mem _ hmem)) r'
      have hr' : r' = r.forceFill data := hdata
      refine ⟨data ++ more, ?_⟩
      rw [runAll, hrun, Record.forceFill_append, ← hr']
      exact hmore

theorem lookUp_onlySets {g : HookRegistry} (h : g.OnlySets) (phase : Phase) (table name : String) :
    Hook.OnlySets (g.lookUp phase table name) := by
  unfold lookUp
  cases hname : g.named.get? name with
  | none => exact fun r => ⟨[], rfl⟩
  | some hook => exact h.named name hook hname

theorem hooks_onlySets {g : HookRegistry} (h : g.OnlySets) (phase : Phase) :
    Hook.OnlySets (g.hooks.run phase) := by
  intro r
  refine runAll_onlySets (fun hook hmem => ?_) r
  rcases List.mem_append.mp hmem with hmem | hmem
  · obtain ⟨name, -, rfl⟩ := List.mem_map.mp hmem
    exact lookUp_onlySets h phase _ name
  · obtain ⟨l, hl, rfl⟩ := List.mem_map.mp hmem
    exact h.listeners l (List.mem_of_mem_filter hl)

theorem edits_hooks {g : HookRegistry} (h : g.OnlySets) : g.hooks.Edits := by
  intro phase r
  obtain ⟨data, hdata⟩ := hooks_onlySets h phase r
  rw [hdata]
  exact Record.edited_forceFill r data

theorem runAll_fails {hooks : List Hook} {hook : Hook} (hmem : hook ∈ hooks)
    (hfails : ∀ r, ∃ f, (hook r).1 = .error f) (r : Record) :
    ∃ f, (runAll hooks r).1 = .error f := by
  induction hooks generalizing r with
  | nil => cases hmem
  | cons first rest ih =>
    rcases hrun : first r with ⟨o, r'⟩
    cases o with
    | error f => exact ⟨f, by rw [runAll, hrun]⟩
    | ok u =>
      rcases List.mem_cons.mp hmem with rfl | hmem
      · obtain ⟨f, hf⟩ := hfails r
        rw [hrun] at hf
        cases hf
      · rw [runAll, hrun]
        exact ih hmem r'

/-- A phase that names a hook which is not registered fails. -/
theorem hooks_fail {g : HookRegistry} {phase : Phase} {r : Record} {name : String}
    (hname : name ∈ r.schema.hooksFor phase) (hnone : g.named.get? name = none) :
    ∃ f, (g.hooks.run phase r).1 = .error f := by
  refine runAll_fails (List.mem_append_left _ (List.mem_map_of_mem hname)) (fun r' => ?_) r
  unfold lookUp
  rw [hnone]
  exact ⟨_, rfl⟩

end HookRegistry

/-! ## Calls -/

namespace Record

inductive Call where
  | set (name : String) (v : Value)
  | fill (data : List (String × Value))
  | save
  | destroy (force : Bool)
  | restore
  | refresh

namespace Call

/-- Carries a call out, and returns whether it wrote a row. -/
def run (s : Session σ) : Call → Change σ Record Bool
  | .set name v => do
    .modify fun r => r.set name v
    return false
  | .fill data => do
    .modify fun r => r.fill data
    return false
  | .save => Record.save s
  | .destroy force => Record.destroy s force
  | .restore => Record.restore s
  | .refresh => do
    Record.refresh s
    return false

def saves : Call → Bool
  | .save | .restore => true
  | _ => false

def writes : Call → Bool
  | .save | .restore | .destroy _ => true
  | _ => false

/-- The phase in front of the statement of a call, and the record it finds. -/
def prelude? : Call → Record → Option (Phase × Record)
  | .save, r => some (.beforeSave, r)
  | .restore, r => r.schema.softDelete.map fun column => (.beforeSave, r.set column .null)
  | .destroy _, r => if r.persisted then some (.beforeDelete, r) else none
  | _, _ => none

/-- What the hooks in front of the statement make of the record. -/
def hooked (hooks : Hooks) (c : Call) (r : Record) : Result Unit × Record :=
  match c.prelude? r with
  | some (phase, r) => hooks.run phase r
  | none => (.ok (), r)

theorem hooked_some {hooks : Hooks} {c : Call} {r r₀ : Record} {phase : Phase}
    (h : c.prelude? r = some (phase, r₀)) : c.hooked hooks r = hooks.run phase r₀ := by
  unfold hooked
  rw [h]

theorem hooked_none {hooks : Hooks} {c : Call} {r : Record} (h : c.prelude? r = none) :
    c.hooked hooks r = (.ok (), r) := by
  unfold hooked
  rw [h]

/-- The phase behind the statement of a call. -/
def epilogue? : Call → Option Phase
  | .save | .restore => some .afterSave
  | .destroy _ => some .afterDelete
  | _ => none

/-- Runs the hooks behind a statement that was sent with success. -/
def conclude (hooks : Hooks) (c : Call) :
    Outcome Bool × Record → Outcome Bool × Record
  | (.ok true, r) =>
    match c.epilogue? with
    | some phase =>
      match hooks.run phase r with
      | (.ok (), r) => (.ok true, r)
      | (.error f, r) => (.error (.fault f), r)
    | none => (.ok true, r)
  | ending => ending

end Call

/-! ## Runs -/

/-- What happened at a call. -/
structure Event (σ : Type) where
  call : Call
  world : σ
  before : Record
  outcome : Outcome Bool
  after : Record
  left : σ
  sent : List Exchange

def Call.event (s : Session σ) (c : Call) (r : Record) (w : σ) : Event σ :=
  let ending := ((c.run s.recorded).runOn r).run (w, [])
  { call := c, world := w, before := r, outcome := ending.1.1, after := ending.1.2,
    left := ending.2.1, sent := ending.2.2 }

def history (s : Session σ) : List Call → Record → σ → List (Event σ)
  | [], _, _ => []
  | c :: rest, r, w =>
    let e := c.event s r w
    e :: history s rest e.after e.left

end Record

/-! ## Early calls -/

/-- The hooks without those that run behind a statement. -/
def Hooks.early (hooks : Hooks) : Hooks :=
  ⟨fun
    | .afterSave | .afterDelete => fun r => (.ok (), r)
    | phase => hooks.run phase⟩

def Session.early (s : Session σ) : Session σ := { s with hooks := s.hooks.early }

namespace Record

variable {s : Session σ} {r r₁ : Record} {w w' : σ}

theorem run_hooks_ok {phase : Phase} (h : s.hooks.run phase r = (.ok (), r₁)) (w : σ) :
    ((runHooks s phase).runOn r).run w = ((.ok (), r₁), w) := by
  simp only [runHooks, Change.runOn, Change.of, ExceptT.run_mk, StateT.run, h]
  rfl

theorem run_hooks_error {phase : Phase} {f : Fault} (h : s.hooks.run phase r = (.error f, r₁))
    (w : σ) : ((runHooks s phase).runOn r).run w = ((.error (.fault f), r₁), w) := by
  simp only [runHooks, Change.runOn, Change.of, ExceptT.run_mk, StateT.run, h]
  rfl

/-! ### Saving -/

/-- The statement of a save, for the record that the hooks leave. -/
def writeRow (s : Session σ) (r : Record) : Change σ Record Unit :=
  if r.persisted then updateRow s else insertRow s

theorem save_stopped {f : Fault} (h : s.hooks.run .beforeSave r = (.error f, r₁)) :
    ((save s).runOn r).run w = ((.error (.fault f), r₁), w) :=
  Change.run_bind_error (run_hooks_error h w)

theorem save_idle (h : s.hooks.run .beforeSave r = (.ok (), r₁))
    (hidle : (r₁.persisted && !r₁.isDirty) = true) :
    ((save s).runOn r).run w = ((.ok false, r₁), w) := by
  unfold save
  rw [Change.run_bind_ok (run_hooks_ok h w), Change.run_current_bind, if_pos hidle]
  rfl

theorem save_written (h : s.hooks.run .beforeSave r = (.ok (), r₁))
    (hidle : (r₁.persisted && !r₁.isDirty) = false) :
    ((save s).runOn r).run w = ((writeRow s r₁ >>= fun _ => finish s).runOn r₁).run w := by
  have hbusy : ¬ (r₁.persisted && !r₁.isDirty) = true := by
    rw [hidle]
    exact Bool.false_ne_true
  unfold save writeRow
  rw [Change.run_bind_ok (run_hooks_ok h w), Change.run_current_bind, if_neg hbusy]
  cases r₁.persisted <;> rfl

/-! ### Deleting -/

/-- The statement of a destruction. -/
def dropRow (s : Session σ) (r : Record) (force : Bool) (key : Value) : Change σ Record Unit :=
  match r.schema.softDelete, force with
  | some column, false => trashRow s column key
  | _, _ => deleteRow s key

def finishDelete (s : Session σ) : Change σ Record Bool := do
  runHooks s .afterDelete
  return true

theorem destroy_new (force : Bool) (h : r.persisted = false) :
    ((destroy s force).runOn r).run w = ((.ok false, r), w) := by
  unfold destroy
  rw [Change.run_current_bind, h]
  rfl

theorem destroy_stopped {f : Fault} (force : Bool) (hold : r.persisted = true)
    (h : s.hooks.run .beforeDelete r = (.error f, r₁)) :
    ((destroy s force).runOn r).run w = ((.error (.fault f), r₁), w) := by
  unfold destroy
  rw [Change.run_current_bind, hold]
  exact Change.run_bind_error (run_hooks_error h w)

theorem destroy_keyless {f : Fault} (force : Bool) (hold : r.persisted = true)
    (h : s.hooks.run .beforeDelete r = (.ok (), r₁)) (hkey : r₁.requireKey = .error f) :
    ((destroy s force).runOn r).run w = ((.error (.fault f), r₁), w) := by
  unfold destroy
  rw [Change.run_current_bind, hold]
  show ((runHooks s .beforeDelete >>= fun _ => _).runOn r).run w = _
  rw [Change.run_bind_ok (run_hooks_ok h w), Change.run_current_bind, hkey,
    Change.run_ofResult_bind_error]

theorem destroy_dropped {key : Value} (force : Bool) (hold : r.persisted = true)
    (h : s.hooks.run .beforeDelete r = (.ok (), r₁)) (hkey : r₁.requireKey = .ok key) :
    ((destroy s force).runOn r).run w =
      ((dropRow s r₁ force key >>= fun _ => finishDelete s).runOn r₁).run w := by
  unfold destroy dropRow
  rw [Change.run_current_bind, hold]
  show ((runHooks s .beforeDelete >>= fun _ => _).runOn r).run w = _
  rw [Change.run_bind_ok (run_hooks_ok h w), Change.run_current_bind, hkey,
    Change.run_ofResult_bind_ok]
  cases r₁.schema.softDelete with
  | none => rfl
  | some column => cases force <;> rfl

/-! ### Restoring -/

theorem restore_unmarked (h : r.schema.softDelete = none) :
    ((restore s).runOn r).run w =
      ((.error (.fault (.misconfigured (.noSoftDelete r.schema.table))), r), w) := by
  unfold restore
  rw [Change.run_current_bind, h]
  rfl

theorem restore_marked {column : String} (h : r.schema.softDelete = some column) :
    ((restore s).runOn r).run w = ((save s).runOn (r.set column .null)).run w := by
  unfold restore
  rw [Change.run_current_bind, h]
  exact Change.run_bind_ok (Change.run_modify (fun r => r.set column .null) r w)

/-! ### The hooks behind a statement -/

/-- The first change ends as the second one, followed by the hooks behind the statement of `c`. -/
def Concludes (hooks : Hooks) (c : Call) (full early : Change σ Record Bool) (r : Record) (w : σ) :
    Prop :=
  (full.runOn r).run w =
    (c.conclude hooks ((early.runOn r).run w).1, ((early.runOn r).run w).2)

theorem concludes_of_eq {hooks : Hooks} {c : Call} {full early : Change σ Record Bool}
    {o : Outcome Bool} (hfull : (full.runOn r).run w = ((o, r₁), w'))
    (hearly : (early.runOn r).run w = ((o, r₁), w')) (ho : o ≠ .ok true) :
    Concludes hooks c full early r w := by
  unfold Concludes
  rw [hfull, hearly]
  cases o with
  | error stop => rfl
  | ok wrote =>
    cases wrote with
    | false => rfl
    | true => exact absurd rfl ho

/-- Behind a statement that failed no hooks are run. -/
theorem concludes_bind {hooks : Hooks} {c : Call} {full early : Change σ Record Bool}
    (row : Change σ Record Unit) (h : ∀ r w, Concludes hooks c full early r w) (r : Record)
    (w : σ) : Concludes hooks c (row >>= fun _ => full) (row >>= fun _ => early) r w := by
  unfold Concludes
  rcases hrow : (row.runOn r).run w with ⟨⟨stop | u, r'⟩, w'⟩
  · rw [Change.run_bind_error hrow, Change.run_bind_error hrow]
    rfl
  · rw [Change.run_bind_ok hrow, Change.run_bind_ok hrow]
    exact h r' w'

theorem concludes_hooks {c : Call} (phase : Phase) (hc : c.epilogue? = some phase) (r : Record)
    (w : σ) :
    Concludes s.hooks c (do runHooks s phase; return true) (pure true) r w := by
  have hskip : (((pure true : Change σ Record Bool)).runOn r).run w = ((.ok true, r), w) := rfl
  unfold Concludes
  rw [hskip]
  rcases hrun : s.hooks.run phase r with ⟨f | u, r'⟩
  · rw [Change.run_bind_error (run_hooks_error hrun w)]
    simp only [Call.conclude, hc, hrun]
  · rw [Change.run_bind_ok (run_hooks_ok hrun w)]
    simp only [Call.conclude, hc, hrun]
    rfl

theorem concludes_save {c : Call} (hc : c.epilogue? = some .afterSave) (r : Record) (w : σ) :
    Concludes s.hooks c (save s) (save s.early) r w := by
  rcases hhooks : s.hooks.run .beforeSave r with ⟨f | u, r₁⟩
  · exact concludes_of_eq (save_stopped hhooks) (save_stopped (s := s.early) hhooks) nofun
  · cases hidle : r₁.persisted && !r₁.isDirty with
    | true =>
      exact concludes_of_eq (save_idle hhooks hidle) (save_idle (s := s.early) hhooks hidle)
        nofun
    | false =>
      have hfinish : ∀ r w, Concludes s.hooks c (finish s) (finish s.early) r w := by
        intro r w
        unfold finish
        exact concludes_bind _ (fun r w => concludes_hooks .afterSave hc r w) r w
      have hrow := concludes_bind (writeRow s r₁) hfinish r₁ w
      unfold Concludes at hrow ⊢
      rw [save_written hhooks hidle, save_written (s := s.early) hhooks hidle]
      exact hrow

theorem concludes_destroy (force : Bool) (r : Record) (w : σ) :
    Concludes s.hooks (.destroy force) (destroy s force) (destroy s.early force) r w := by
  cases hold : r.persisted with
  | false => exact concludes_of_eq (destroy_new force hold) (destroy_new force hold) nofun
  | true =>
    rcases hhooks : s.hooks.run .beforeDelete r with ⟨f | u, r₁⟩
    · exact concludes_of_eq (destroy_stopped force hold hhooks)
        (destroy_stopped (s := s.early) force hold hhooks) nofun
    · cases hkey : r₁.requireKey with
      | error f =>
        exact concludes_of_eq (destroy_keyless force hold hhooks hkey)
          (destroy_keyless (s := s.early) force hold hhooks hkey) nofun
      | ok key =>
        have hrow := concludes_bind (dropRow s r₁ force key)
          (concludes_hooks (s := s) (c := .destroy force) .afterDelete rfl) r₁ w
        unfold Concludes at hrow ⊢
        rw [destroy_dropped force hold hhooks hkey,
          destroy_dropped (s := s.early) force hold hhooks hkey]
        exact hrow

/-- A call is an early call and its conclusion. -/
theorem concludes_run (c : Call) (r : Record) (w : σ) :
    Concludes s.hooks c (c.run s) (c.run s.early) r w := by
  cases c with
  | set name v => exact concludes_of_eq rfl rfl nofun
  | fill data => exact concludes_of_eq rfl rfl nofun
  | save => exact concludes_save rfl r w
  | destroy force => exact concludes_destroy force r w
  | restore =>
    cases hmark : r.schema.softDelete with
    | none => exact concludes_of_eq (restore_unmarked hmark) (restore_unmarked hmark) nofun
    | some column =>
      have hsave := concludes_save (s := s) (c := .restore) rfl (r.set column .null) w
      unfold Concludes at hsave ⊢
      show ((restore s).runOn r).run w = (Call.conclude s.hooks .restore
        (((restore s.early).runOn r).run w).1, (((restore s.early).runOn r).run w).2)
      rw [restore_marked hmark, restore_marked (s := s.early) hmark]
      exact hsave
  | refresh =>
    have hanswer : ∀ (r : Record) (w : σ),
        Concludes s.hooks .refresh (pure false) (pure false) r w :=
      fun r w => concludes_of_eq rfl rfl nofun
    exact concludes_bind (Record.refresh s) hanswer r w

/-! ### The schema -/

def KeepsSchema {α : Type} (c : Change σ Record α) : Prop :=
  ∀ r w, ((c.runOn r).run w).1.2.schema = r.schema

section KeepsSchema

variable {α β : Type}

theorem keepsSchema_bind {c : Change σ Record β} {f : β → Change σ Record α} (hc : KeepsSchema c)
    (hf : ∀ b, KeepsSchema (f b)) : KeepsSchema (c >>= f) := by
  intro r w
  have hfirst := hc r w
  rcases hrun : (c.runOn r).run w with ⟨⟨stop | b, r₁⟩, w₁⟩
  · rw [hrun] at hfirst
    rw [Change.run_bind_error hrun]
    exact hfirst
  · rw [hrun] at hfirst
    rw [Change.run_bind_ok hrun]
    exact (hf b r₁ w₁).trans hfirst

theorem keepsSchema_current_bind {f : Record → Change σ Record α} (hf : ∀ r, KeepsSchema (f r)) :
    KeepsSchema (.current >>= f) :=
  keepsSchema_bind (fun _ _ => rfl) hf

theorem keepsSchema_pure (a : α) : KeepsSchema (pure a : Change σ Record α) := fun _ _ => rfl

theorem keepsSchema_ofAction (a : Action σ α) : KeepsSchema (.ofAction a) := fun _ _ => rfl

theorem keepsSchema_modify {f : Record → Record} (h : ∀ r, (f r).schema = r.schema) :
    KeepsSchema (.modify f : Change σ Record Unit) :=
  fun r _ => h r

end KeepsSchema

section Schema

variable (hhooks : s.hooks.Edits)

include hhooks in
theorem keepsSchema_runHooks (phase : Phase) : KeepsSchema (runHooks s phase) := by
  intro r w
  have hedited := hhooks phase r
  rcases hrun : s.hooks.run phase r with ⟨f | u, r₁⟩
  · rw [hrun] at hedited
    rw [run_hooks_error hrun]
    exact hedited.schema
  · rw [hrun] at hedited
    rw [run_hooks_ok hrun]
    exact hedited.schema

theorem schema_stampedNew (r : Record) (t : Timestamps) (now : Value) :
    (r.stampedNew t now).schema = r.schema := by
  unfold stampedNew
  show (if _ then _ else _ : Record).schema = r.schema
  split <;> rfl

theorem keepsSchema_insertRow : KeepsSchema (insertRow s) := by
  have hgive : KeepsSchema (giveKey s) := by
    unfold giveKey
    refine keepsSchema_current_bind fun r => ?_
    split
    · exact keepsSchema_bind (keepsSchema_ofAction _) fun key => keepsSchema_modify fun r => rfl
    · exact keepsSchema_pure ()
  have hstamp : KeepsSchema (stampNew s) := by
    unfold stampNew
    refine keepsSchema_current_bind fun r => ?_
    split
    · exact keepsSchema_bind (keepsSchema_ofAction _) fun now =>
        keepsSchema_modify fun r => schema_stampedNew r _ now
    · exact keepsSchema_pure ()
  unfold insertRow
  exact keepsSchema_bind hgive fun _ => keepsSchema_bind hstamp fun _ =>
    keepsSchema_current_bind fun r => keepsSchema_bind (keepsSchema_ofAction _) fun e =>
      keepsSchema_modify (schema_takeKey e)

theorem keepsSchema_updateRow : KeepsSchema (updateRow s) := by
  have hstamp : KeepsSchema (stampChanged s) := by
    unfold stampChanged
    refine keepsSchema_current_bind fun r => ?_
    split
    · split
      · exact keepsSchema_pure ()
      · exact keepsSchema_bind (keepsSchema_ofAction _) fun now => keepsSchema_modify fun r => rfl
    · exact keepsSchema_pure ()
  unfold updateRow
  exact keepsSchema_bind hstamp fun _ => keepsSchema_current_bind fun r =>
    keepsSchema_bind (keepsSchema_ofAction _) fun key =>
      keepsSchema_bind (keepsSchema_ofAction _) fun _ => keepsSchema_pure ()

include hhooks in
theorem keepsSchema_save : KeepsSchema (save s) := by
  unfold save
  refine keepsSchema_bind (keepsSchema_runHooks hhooks _) fun _ =>
    keepsSchema_current_bind fun r => ?_
  have hfinish : KeepsSchema (finish s) :=
    keepsSchema_bind (keepsSchema_modify fun r => rfl) fun _ =>
      keepsSchema_bind (keepsSchema_runHooks hhooks _) fun _ => keepsSchema_pure true
  split
  · exact keepsSchema_pure false
  · split
    · exact keepsSchema_bind keepsSchema_updateRow fun _ => hfinish
    · exact keepsSchema_bind keepsSchema_insertRow fun _ => hfinish

theorem schema_setDeletionMark (column : String) (now : Value) (r : Record) :
    (setDeletionMark column now r).schema = r.schema := by
  unfold setDeletionMark
  split <;> rfl

theorem schema_syncAttributes (names : List String) (r : Record) :
    (r.syncAttributes names).schema = r.schema := by
  unfold syncAttributes
  induction names generalizing r with
  | nil => rfl
  | cons name rest ih =>
    have hfirst : (r.syncAttribute name).schema = r.schema := by
      unfold syncAttribute
      split <;> rfl
    exact (ih (r.syncAttribute name)).trans hfirst

include hhooks in
theorem keepsSchema_destroy (force : Bool) : KeepsSchema (destroy s force) := by
  have htrash : ∀ column key, KeepsSchema (trashRow s column key) := by
    intro column key
    unfold trashRow
    exact keepsSchema_bind (keepsSchema_ofAction _) fun now =>
      keepsSchema_bind (keepsSchema_modify (schema_setDeletionMark column now)) fun _ =>
        keepsSchema_current_bind fun r => keepsSchema_bind (keepsSchema_ofAction _) fun _ =>
          keepsSchema_modify (schema_syncAttributes _)
  have hdelete : ∀ key, KeepsSchema (deleteRow s key) := by
    intro key
    unfold deleteRow
    exact keepsSchema_current_bind fun r =>
      keepsSchema_bind (keepsSchema_ofAction _) fun _ => keepsSchema_modify fun r => rfl
  have hfinish : KeepsSchema (finishDelete s) :=
    keepsSchema_bind (keepsSchema_runHooks hhooks _) fun _ => keepsSchema_pure true
  unfold destroy
  refine keepsSchema_current_bind fun r => ?_
  split
  · exact keepsSchema_pure false
  · refine keepsSchema_bind (keepsSchema_runHooks hhooks _) fun _ =>
      keepsSchema_current_bind fun r => keepsSchema_bind (keepsSchema_ofAction _) fun key => ?_
    split
    · exact keepsSchema_bind (htrash _ key) fun _ => hfinish
    · exact keepsSchema_bind (hdelete key) fun _ => hfinish

include hhooks in
/-- No call changes the schema of a record. -/
theorem keepsSchema_run (c : Call) : KeepsSchema (c.run s) := by
  cases c with
  | set name v =>
    exact keepsSchema_bind (keepsSchema_modify fun r => rfl) fun _ => keepsSchema_pure false
  | fill data =>
    exact keepsSchema_bind (keepsSchema_modify fun r => (edited_fill r data).schema) fun _ =>
      keepsSchema_pure false
  | save => exact keepsSchema_save hhooks
  | destroy force => exact keepsSchema_destroy hhooks force
  | restore =>
    show KeepsSchema (Record.restore s)
    unfold Record.restore
    refine keepsSchema_current_bind fun r => ?_
    split
    · exact keepsSchema_ofAction _
    · exact keepsSchema_bind (keepsSchema_modify fun r => rfl) fun _ => keepsSchema_save hhooks
  | refresh =>
    have hrefresh : KeepsSchema (Record.refresh s) := by
      unfold Record.refresh
      refine keepsSchema_current_bind fun r => keepsSchema_bind (keepsSchema_ofAction _) fun key =>
        keepsSchema_bind (keepsSchema_ofAction _) fun found => ?_
      split
      · exact keepsSchema_modify fun r => rfl
      · exact keepsSchema_ofAction _
    exact keepsSchema_bind hrefresh fun _ => keepsSchema_pure false

end Schema

end Record

end RecordMapper
