import RecordMapper.Proofs.Session.Tables
import RecordMapper.Record.Lifecycle

/-!
What a save can do.

* `Record.Edited` relates a record to what attributes set on it make of it.
* `Record.SaveRun` lists how a save without hooks can end: with nothing to write, refused before a
  statement is sent, with a statement that failed, or with a row inserted or updated.
-/
namespace RecordMapper

set_option autoImplicit false

/-- The moment that the clock shows in a state, as records store it. -/
def Session.moment {σ : Type} (s : Session σ) (w : σ) : Value :=
  .text (String.ofList (s.world.now w).1.write)

namespace Record

/-! ## Edits -/

/-- The same record with other values of its attributes, none of which is lost. -/
structure Edited (r r' : Record) : Prop where
  schema : r'.schema = r.schema
  snapshot : r'.snapshot = r.snapshot
  persisted : r'.persisted = r.persisted
  keeps : ∀ name, (r.get? name).isSome = true → (r'.get? name).isSome = true

theorem Edited.refl (r : Record) : r.Edited r := ⟨rfl, rfl, rfl, fun _ h => h⟩

theorem Edited.trans {r r' r'' : Record} (h : r.Edited r') (h' : r'.Edited r'') : r.Edited r'' :=
  ⟨h'.schema.trans h.schema, h'.snapshot.trans h.snapshot, h'.persisted.trans h.persisted,
    fun name hname => h'.keeps name (h.keeps name hname)⟩

theorem get?_set (r : Record) (name other : String) (v : Value) :
    (r.set name v).get? other =
      if other = name then some (r.schema.setValue name v) else r.get? other :=
  NameMap.get?_insert r.attributes name other (r.schema.setValue name v)

theorem edited_set (r : Record) (name : String) (v : Value) : r.Edited (r.set name v) := by
  refine ⟨rfl, rfl, rfl, fun other hother => ?_⟩
  rw [get?_set]
  split
  · rfl
  · exact hother

theorem edited_foldl {data : List (String × Value)} {f : Record → String × Value → Record}
    (hf : ∀ (r : Record) p, r.Edited (f r p)) (r : Record) : r.Edited (data.foldl f r) := by
  induction data generalizing r with
  | nil => exact Edited.refl r
  | cons p rest ih => exact (hf r p).trans (ih (f r p))

theorem edited_fill (r : Record) (data : List (String × Value)) : r.Edited (r.fill data) := by
  refine edited_foldl (fun r p => ?_) r
  show r.Edited (if r.schema.isFillable p.1 then r.set p.1 p.2 else r)
  split
  · exact edited_set r p.1 p.2
  · exact Edited.refl r

theorem edited_forceFill (r : Record) (data : List (String × Value)) :
    r.Edited (r.forceFill data) :=
  edited_foldl (fun r p => edited_set r p.1 p.2) r

variable {σ : Type} {s : Session σ}

/-! ## Steps without statements -/

section Prepares

variable {α : Type} {view : σ → α}

/-- Neither the clock nor the source of UUIDs has an effect on what `view` shows. -/
structure Steady (world : World σ) (view : σ → α) : Prop where
  now : ∀ w, view (world.now w).2 = view w
  freshUuid : ∀ w, view (world.freshUuid w).2 = view w

/-- The record with a fresh key, if it takes one. -/
def keyed (r : Record) (uuid : Value) : Record :=
  if r.key?.isNone && r.schema.keyStrategy = .uuid then r.set r.schema.primaryKey uuid else r

/-- The record as its row is inserted. -/
def readied (r : Record) (uuid now : Value) : Record :=
  match r.schema.timestamps with
  | some t => (r.keyed uuid).stampedNew t now
  | none => r.keyed uuid

theorem edited_keyed (r : Record) (uuid : Value) : r.Edited (r.keyed uuid) := by
  unfold keyed
  split
  · exact edited_set r _ _
  · exact Edited.refl r

theorem edited_stampedNew (r : Record) (t : Timestamps) (now : Value) :
    r.Edited (r.stampedNew t now) := by
  unfold stampedNew
  refine Edited.trans ?_ (edited_set _ _ _)
  split
  · exact edited_set r _ _
  · exact Edited.refl r

theorem edited_readied (r : Record) (uuid now : Value) : r.Edited (r.readied uuid now) := by
  unfold readied
  split
  · exact (edited_keyed r uuid).trans (edited_stampedNew _ _ _)
  · exact edited_keyed r uuid

/-- The UUID and the moment that are given out for a new record in the state `w`. The moment is read
after the UUID, if one is drawn. -/
structure Drawn (world : World σ) (w : σ) (uuid now : Value) : Prop where
  uuid : uuid = .text (world.freshUuid w).1.text
  now : ∃ w₀, (w₀ = w ∨ w₀ = (world.freshUuid w).2) ∧
    now = .text (String.ofList (world.now w₀).1.write)

theorem giveKey_eq (h : Steady s.world view) (r : Record) (w : σ) :
    ∃ w', ((giveKey s).runOn r).run w =
        ((.ok (), r.keyed (.text (s.world.freshUuid w).1.text)), w') ∧
      (w' = w ∨ w' = (s.world.freshUuid w).2) ∧ view w' = view w := by
  unfold giveKey keyed
  rw [Change.run_current_bind]
  split
  · have hkey : s.freshKey.run w =
        (.ok (.text (s.world.freshUuid w).1.text), (s.world.freshUuid w).2) := rfl
    rw [Change.run_ofAction_bind_ok hkey, Change.run_modify]
    exact ⟨_, rfl, .inr rfl, h.freshUuid w⟩
  · exact ⟨w, rfl, .inl rfl, rfl⟩

theorem stampNew_eq (h : Steady s.world view) (r : Record) (w : σ) :
    ∃ w', ((stampNew s).runOn r).run w =
        ((.ok (), match r.schema.timestamps with
          | some t => r.stampedNew t (.text (String.ofList (s.world.now w).1.write))
          | none => r), w') ∧ view w' = view w := by
  unfold stampNew
  rw [Change.run_current_bind]
  cases r.schema.timestamps with
  | none => exact ⟨w, rfl, rfl⟩
  | some t =>
    have hnow : s.now.run w =
        (.ok (.text (String.ofList (s.world.now w).1.write)), (s.world.now w).2) := rfl
    simp only
    rw [Change.run_ofAction_bind_ok hnow, Change.run_modify]
    exact ⟨_, rfl, h.now w⟩

/-- A row is readied without a statement, and then inserted. -/
theorem insertRow_eq (h : Steady s.world view) (r : Record) (w : σ) :
    ∃ uuid now w₁, Drawn s.world w uuid now ∧ view w₁ = view w ∧
      ((insertRow s).runOn r).run w =
        ((Change.ofAction
          ((r.schema.allRows s.dialect).insert s (r.readied uuid now).insertable) >>=
            fun e => .modify (takeKey e) : Change σ Record Unit).runOn
              (r.readied uuid now)).run w₁ := by
  obtain ⟨w₀, hgive, hfrom, hview₀⟩ := giveKey_eq h r w
  obtain ⟨w₁, hstamp, hview₁⟩ := stampNew_eq h (r.keyed (.text (s.world.freshUuid w).1.text)) w₀
  have hschema := (edited_keyed r (.text (s.world.freshUuid w).1.text)).schema
  refine ⟨_, .text (String.ofList (s.world.now w₀).1.write), w₁, ⟨rfl, w₀, hfrom, rfl⟩,
    hview₁.trans hview₀, ?_⟩
  rw [hschema] at hstamp
  unfold insertRow readied
  rw [Change.run_bind_ok hgive, Change.run_bind_ok hstamp, Change.run_current_bind]
  cases r.schema.timestamps with
  | none => rw [hschema]
  | some t =>
    simp only
    rw [(edited_stampedNew _ t _).schema, hschema]

/-- The record with the moment of its last change set to `now`, unless that has been changed. -/
def stampedAt (r : Record) (now : Value) : Record :=
  match r.schema.timestamps with
  | some t => if r.isAttributeDirty t.updated then r else r.set t.updated now
  | none => r

/-- The moment is read only if it is set, and then before anything else. -/
theorem stampChanged_now (h : Steady s.world view) (r : Record) (w : σ) :
    ∃ w', ((stampChanged s).runOn r).run w = ((.ok (), r.stampedAt (s.moment w)), w') ∧
      view w' = view w := by
  unfold stampChanged stampedAt
  rw [Change.run_current_bind]
  cases r.schema.timestamps with
  | none => exact ⟨w, rfl, rfl⟩
  | some t =>
    simp only
    split
    · exact ⟨w, rfl, rfl⟩
    · have hnow : s.now.run w = (.ok (s.moment w), (s.world.now w).2) := rfl
      rw [Change.run_ofAction_bind_ok hnow, Change.run_modify]
      exact ⟨_, rfl, h.now w⟩

theorem stampChanged_eq (h : Steady s.world view) (r : Record) (w : σ) :
    ∃ text w', ((stampChanged s).runOn r).run w = ((.ok (), r.stampedAt (.text text)), w') ∧
      view w' = view w :=
  ⟨String.ofList (s.world.now w).1.write, stampChanged_now h r w⟩

/-- The same record, or with a moment set. -/
def Stamped (r r' : Record) : Prop := r' = r ∨ ∃ name text, r' = r.set name (.text text)

theorem Stamped.edited {r r' : Record} (h : r.Stamped r') : r.Edited r' := by
  rcases h with rfl | ⟨name, text, rfl⟩
  · exact Edited.refl r'
  · exact edited_set r name (.text text)

theorem stamped_stampedAt (r : Record) (text : String) : r.Stamped (r.stampedAt (.text text)) := by
  unfold stampedAt
  split
  · split
    · exact .inl rfl
    · exact .inr ⟨_, text, rfl⟩
  · exact .inl rfl

theorem stampChanged_run (h : Steady s.world view) (r : Record) (w : σ) :
    ∃ r' w', ((stampChanged s).runOn r).run w = ((.ok (), r'), w') ∧ r.Stamped r' ∧
      view w' = view w := by
  obtain ⟨text, w', hrun, hview⟩ := stampChanged_eq h r w
  exact ⟨_, w', hrun, stamped_stampedAt r text, hview⟩

end Prepares

/-! ## Statements -/

variable {view : σ → Ledger}

theorem insert_run (s : Session σ) (q : Query) (row : Attributes) (w : σ) :
    (∃ f, (q.insert s row).run w = (.error f, w)) ∨
      ∃ st, q.insertion row = .ok st ∧ (q.insert s row).run w = s.world.execute st w := by
  unfold Query.insert
  cases q.insertion row with
  | error f => exact .inl ⟨.fault f, rfl⟩
  | ok st => exact .inr ⟨st, rfl, rfl⟩

theorem update_run (s : Session σ) (q : Query) (assignments : Attributes) (w : σ) :
    (∃ f, (q.update s assignments).run w = (.error f, w)) ∨
      ∃ st, q.updating assignments = .ok st ∧
        (q.update s assignments).run w =
          ((s.world.execute st w).1.map Execution.affected, (s.world.execute st w).2) := by
  unfold Query.update Query.affecting
  cases q.updating assignments with
  | error f => exact .inl ⟨.fault f, rfl⟩
  | ok st =>
    refine .inr ⟨st, rfl, ?_⟩
    show (s.execute st >>= fun e => pure e.affected).run w = _
    rcases hrun : s.world.execute st w with ⟨stop | e, w'⟩
    · exact Action.run_bind_error hrun
    · exact Action.run_bind_ok hrun

/-! ## Ways a save can end -/

/-- How a save of the record `r` ends that begins in the world `w`. -/
inductive SaveRun (s : Session σ) (view : σ → Ledger) (r : Record) (w : σ) :
    Outcome Bool → Record → σ → Prop
  | clean (hpersisted : r.persisted = true) (hclean : r.isDirty = false) :
    SaveRun s view r w (.ok false) r w
  | refused {stop : Halt} {r' : Record} {w' : σ} (hedited : r.Edited r')
    (hview : view w' = view w) : SaveRun s view r w (.error stop) r' w'
  | failed {o : Outcome Bool} {r' : Record} {w' : σ} (hfailed : (view w').failed = true) :
    SaveRun s view r w o r' w'
  | inserted {r₁ : Record} {w₁ w' : σ} {st : Statement} {e : Execution}
    (hnew : r.persisted = false) (hedited : r.Edited r₁) (hview : view w₁ = view w)
    (hst : (r₁.schema.allRows s.dialect).insertion r₁.insertable = .ok st)
    (hrun : s.world.execute st w₁ = (.ok e, w')) :
    SaveRun s view r w (.ok true) (takeKey e r₁).markPersisted w'
  | updated {r₁ : Record} {w₁ w' : σ} {key : Value} {st : Statement} {e : Execution}
    (hpersisted : r.persisted = true) (hstamped : r.Stamped r₁) (hview : view w₁ = view w)
    (hkey : r₁.storedKey? = some key) (hst : (r₁.rowQuery s key).updating r₁.dirty = .ok st)
    (hrun : s.world.execute st w₁ = (.ok e, w')) :
    SaveRun s view r w (.ok true) r₁.markPersisted w'

section Save

variable {d : Dialect} {table : String} {eq : Value → Value → Bool}

/-- Whether no hook changes records of a schema or stops them from being saved. -/
def NoHooks (s : Session σ) (schema : Schema) : Prop :=
  ∀ phase (r : Record), r.schema = schema → s.hooks.run phase r = (.ok (), r)

theorem runAll_eq {hooks : List Hook} (h : ∀ hook ∈ hooks, ∀ r, hook r = (.ok (), r)) (r : Record) :
    HookRegistry.runAll hooks r = (.ok (), r) := by
  induction hooks with
  | nil => rfl
  | cons hook rest ih =>
    have hhook : hook r = (.ok (), r) := h hook (List.mem_cons_self ..) r
    rw [HookRegistry.runAll, hhook]
    exact ih fun hook hmem => h hook (List.mem_cons_of_mem _ hmem)

/-- Listeners that only watch do no harm. -/
theorem noHooks_of_registry {g : HookRegistry} (hooks : s.hooks = g.hooks)
    (hlisteners : ∀ l ∈ g.listeners, ∀ r, l.2 r = (.ok (), r)) {schema : Schema}
    (hschema : schema.hooks = []) : NoHooks s schema := by
  intro phase r hr
  have hnone : r.schema.hooksFor phase = [] := by
    rw [hr, Schema.hooksFor, hschema]
    rfl
  rw [hooks]
  show HookRegistry.runAll ((r.schema.hooksFor phase).map (g.lookUp phase r.schema.table) ++
    (g.listeners.filter fun l => l.1 = phase).map Prod.snd) r = (.ok (), r)
  rw [hnone]
  refine runAll_eq (fun hook hmem => ?_) r
  obtain ⟨l, hl, rfl⟩ := List.mem_map.mp hmem
  exact hlisteners l (List.mem_of_mem_filter hl)

theorem run_runHooks {schema : Schema} (h : NoHooks s schema) (phase : Phase) {r : Record}
    (hr : r.schema = schema) (w : σ) :
    ((runHooks s phase).runOn r).run w = ((.ok (), r), w) := by
  have hrun := h phase r hr
  simp only [runHooks, Change.runOn, Change.of, ExceptT.run_mk, StateT.run, hrun]
  rfl

theorem steady_of_tabular (h : Tabular s.world d table eq view) : Steady s.world view :=
  ⟨h.now, h.freshUuid⟩

theorem insertRow_run (h : Tabular s.world d table eq view) (r : Record) (w : σ) :
    (∃ stop r' w', ((insertRow s).runOn r).run w = ((.error stop, r'), w') ∧
      ((r.Edited r' ∧ view w' = view w) ∨ (view w').failed = true)) ∨
    ∃ r₁ w₁ st e w', ((insertRow s).runOn r).run w = ((.ok (), takeKey e r₁), w') ∧
      r.Edited r₁ ∧ view w₁ = view w ∧
      (r₁.schema.allRows s.dialect).insertion r₁.insertable = .ok st ∧
      s.world.execute st w₁ = (.ok e, w') := by
  obtain ⟨uuid, now, w₁, -, hview, hrun⟩ := insertRow_eq (steady_of_tabular h) r w
  obtain ⟨r₁, hr₁⟩ : ∃ r₁, r₁ = r.readied uuid now := ⟨_, rfl⟩
  have hedited : r.Edited r₁ := hr₁ ▸ edited_readied r uuid now
  rw [← hr₁, ← hedited.schema] at hrun
  rcases insert_run s (r₁.schema.allRows s.dialect) r₁.insertable w₁ with
    ⟨stop, hstop⟩ | ⟨st, hst, hsend⟩
  · refine .inl ⟨stop, r₁, w₁, ?_, .inl ⟨hedited, hview⟩⟩
    rw [hrun]
    refine Change.run_bind_error ?_
    rw [Change.run_ofAction, hstop]
  · rcases hexecute : s.world.execute st w₁ with ⟨stop | e, w'⟩
    · have hlog := h.execute st w₁
      rw [hexecute] at hlog hsend
      refine .inl ⟨stop, r₁, w', ?_, .inr (hlog.failed.trans (Bool.or_true _))⟩
      rw [hrun]
      refine Change.run_bind_error ?_
      rw [Change.run_ofAction, hsend]
    · rw [hexecute] at hsend
      refine .inr ⟨r₁, w₁, st, e, w', ?_, hedited, hview, hst, hexecute⟩
      rw [hrun, Change.run_ofAction_bind_ok hsend, Change.run_modify]

theorem updateRow_run (h : Tabular s.world d table eq view) (r : Record) (w : σ) :
    (∃ stop r' w', ((updateRow s).runOn r).run w = ((.error stop, r'), w') ∧
      ((r.Edited r' ∧ view w' = view w) ∨ (view w').failed = true)) ∨
    ∃ r₁ w₁ key st e w', ((updateRow s).runOn r).run w = ((.ok (), r₁), w') ∧
      r.Stamped r₁ ∧ view w₁ = view w ∧ r₁.storedKey? = some key ∧
      (r₁.rowQuery s key).updating r₁.dirty = .ok st ∧
      s.world.execute st w₁ = (.ok e, w') := by
  obtain ⟨r₁, w₁, hstamp, hstamped, hview⟩ := stampChanged_run (steady_of_tabular h) r w
  have hrun : ((updateRow s).runOn r).run w =
      (((do
        let key ← .ofResult r₁.requireKey
        let _ ← .ofAction ((r₁.rowQuery s key).update s r₁.dirty)
        return ()) : Change σ Record Unit).runOn r₁).run w₁ := by
    unfold updateRow
    rw [Change.run_bind_ok hstamp, Change.run_current_bind]
  unfold requireKey at hrun
  cases hkey : r₁.storedKey? with
  | none =>
    rw [hkey] at hrun
    exact .inl ⟨_, r₁, w₁, hrun, .inl ⟨hstamped.edited, hview⟩⟩
  | some key =>
    have hsend : ((updateRow s).runOn r).run w =
        ((Change.ofAction ((r₁.rowQuery s key).update s r₁.dirty) >>= fun _ =>
          (pure () : Change σ Record Unit)).runOn r₁).run w₁ := by
      rw [hrun, hkey]
      rfl
    rcases update_run s (r₁.rowQuery s key) r₁.dirty w₁ with ⟨stop, hstop⟩ | ⟨st, hst, hupdate⟩
    · refine .inl ⟨stop, r₁, w₁, ?_, .inl ⟨hstamped.edited, hview⟩⟩
      rw [hsend]
      refine Change.run_bind_error ?_
      rw [Change.run_ofAction, hstop]
    · rcases hexecute : s.world.execute st w₁ with ⟨stop | e, w'⟩
      · have hlog := h.execute st w₁
        rw [hexecute] at hlog hupdate
        refine .inl ⟨stop, r₁, w', ?_, .inr (hlog.failed.trans (Bool.or_true _))⟩
        rw [hsend]
        refine Change.run_bind_error ?_
        rw [Change.run_ofAction, hupdate]
        rfl
      · rw [hexecute] at hupdate
        refine .inr ⟨r₁, w₁, key, st, e, w', ?_, hstamped, hview, hkey, hst, hexecute⟩
        rw [hsend, Change.run_ofAction_bind_ok hupdate]
        rfl

def finish (s : Session σ) : Change σ Record Bool := do
  .modify markPersisted
  runHooks s .afterSave
  return true

section Phases

variable {r : Record}

theorem run_finish (hhooks : NoHooks s r.schema) (w : σ) :
    ((finish s).runOn r).run w = ((.ok true, r.markPersisted), w) := by
  have hschema : r.markPersisted.schema = r.schema := rfl
  have hafter := run_runHooks hhooks .afterSave hschema w
  unfold finish
  rw [Change.run_bind_ok (Change.run_modify markPersisted r w), Change.run_bind_ok hafter]
  rfl

theorem save_clean (hhooks : NoHooks s r.schema) (hpersisted : r.persisted = true)
    (hclean : r.isDirty = false) (w : σ) : ((save s).runOn r).run w = ((.ok false, r), w) := by
  have hskip : (r.persisted && !r.isDirty) = true := by
    rw [hpersisted, hclean]
    rfl
  unfold save
  rw [Change.run_bind_ok (run_runHooks hhooks .beforeSave rfl w), Change.run_current_bind,
    if_pos hskip]
  rfl

theorem save_new (hhooks : NoHooks s r.schema) (hnew : r.persisted = false) (w : σ) :
    ((save s).runOn r).run w = ((insertRow s >>= fun _ => finish s).runOn r).run w := by
  unfold save
  rw [Change.run_bind_ok (run_runHooks hhooks .beforeSave rfl w), Change.run_current_bind]
  simp only [hnew]
  rfl

theorem save_dirty (hhooks : NoHooks s r.schema) (hpersisted : r.persisted = true)
    (hdirty : r.isDirty = true) (w : σ) :
    ((save s).runOn r).run w = ((updateRow s >>= fun _ => finish s).runOn r).run w := by
  unfold save
  rw [Change.run_bind_ok (run_runHooks hhooks .beforeSave rfl w), Change.run_current_bind]
  simp only [hpersisted, hdirty]
  rfl

end Phases

theorem schema_takeKey (e : Execution) (r : Record) : (takeKey e r).schema = r.schema := by
  unfold takeKey
  split
  · split <;> rfl
  · rfl

theorem save_run (h : Tabular s.world d table eq view) {r : Record} (hhooks : NoHooks s r.schema)
    {w w' : σ} {o : Outcome Bool} {r' : Record}
    (hsave : ((save s).runOn r).run w = ((o, r'), w')) : SaveRun s view r w o r' w' := by
  cases hpersisted : r.persisted with
  | false =>
    rw [save_new hhooks hpersisted] at hsave
    rcases insertRow_run h r w with ⟨stop, r₁, w₁, hrun, hstop⟩ |
      ⟨r₁, w₁, st, e, w₂, hrun, hedited, hview, hst, hexecute⟩
    · rw [Change.run_bind_error hrun] at hsave
      cases hsave
      rcases hstop with ⟨hedited, hview⟩ | hfailed
      · exact .refused hedited hview
      · exact .failed hfailed
    · have hschema : (takeKey e r₁).schema = r.schema :=
        (schema_takeKey e r₁).trans hedited.schema
      rw [Change.run_bind_ok hrun, run_finish (hschema ▸ hhooks)] at hsave
      cases hsave
      exact .inserted hpersisted hedited hview hst hexecute
  | true =>
    cases hdirty : r.isDirty with
    | false =>
      rw [save_clean hhooks hpersisted hdirty] at hsave
      cases hsave
      exact .clean hpersisted hdirty
    | true =>
      rw [save_dirty hhooks hpersisted hdirty] at hsave
      rcases updateRow_run h r w with ⟨stop, r₁, w₁, hrun, hstop⟩ |
        ⟨r₁, w₁, key, st, e, w₂, hrun, hstamped, hview, hkey, hst, hexecute⟩
      · rw [Change.run_bind_error hrun] at hsave
        cases hsave
        rcases hstop with ⟨hedited, hview⟩ | hfailed
        · exact .refused hedited hview
        · exact .failed hfailed
      · rw [Change.run_bind_ok hrun, run_finish (hstamped.edited.schema ▸ hhooks)] at hsave
        cases hsave
        exact .updated hpersisted hstamped hview hkey hst hexecute

end Save

end Record

end RecordMapper
