import RecordMapper.Proofs.Record.Attempts
import RecordMapper.Proofs.Record.Dirty

/-!
Marking a row as deleted keeps what is unsaved.

* `Schema.marked` are the columns that a mark of deletion writes, and `Record.trashed` is the record
  once its row has the mark. Each look-up in it is that of the record before, outside of these
  columns.
* `Record.dirty_trashed`: what stays to be saved is what was dirty before, without these columns.
* `destroy_keeps_edits`: what the deletion sends, what it leaves and what the next save sends.
-/
namespace RecordMapper

set_option autoImplicit false

variable {σ : Type}

/-- The columns that are written when a row is marked as deleted in `column`. -/
def Schema.marked (schema : Schema) (column : String) : List String :=
  column :: (schema.timestamps.map Timestamps.updated).toList

theorem Schema.updated_mem_marked {schema : Schema} {t : Timestamps}
    (h : schema.timestamps = some t) (column : String) : t.updated ∈ schema.marked column := by
  unfold Schema.marked
  rw [h]
  simp

theorem Schema.setValue_plain {schema : Schema} {name : String}
    (h : schema.setters.get? name = none) (v : Value) : schema.setValue name v = v := by
  unfold Schema.setValue
  rw [h]

namespace Record

/-! ## The mark of deletion -/

theorem get?_deletionMark (schema : Schema) (column name : String) (now : Value) :
    (deletionMark schema column now).get? name =
      if name ∈ schema.marked column then some now else none := by
  have hfirst : (NameMap.empty.insert column now).get? name =
      if name = column then some now else none := NameMap.get?_insert .empty column name now
  unfold deletionMark Schema.marked
  cases schema.timestamps with
  | none => simpa using hfirst
  | some t =>
    simp only [NameMap.get?_insert, hfirst, Option.map_some, Option.toList_some, List.mem_cons,
      List.not_mem_nil, or_false]
    by_cases hcolumn : name = column <;> by_cases hupdated : name = t.updated <;>
      simp [hcolumn, hupdated]

theorem get?_setDeletionMark (r : Record) (column name : String) (now : Value) :
    (setDeletionMark column now r).get? name =
      if name ∈ r.schema.marked column then some (r.schema.setValue name now)
      else r.get? name := by
  unfold setDeletionMark Schema.marked
  cases r.schema.timestamps with
  | none =>
    simp only [get?_set, Option.map_none, Option.toList_none, List.mem_singleton]
    by_cases hcolumn : name = column
    · simp [hcolumn]
    · simp [hcolumn]
  | some t =>
    have hschema : (r.set column now).schema = r.schema := rfl
    simp only [get?_set, hschema, Option.map_some, Option.toList_some, List.mem_cons,
      List.not_mem_nil, or_false]
    by_cases hcolumn : name = column <;> by_cases hupdated : name = t.updated <;>
      simp_all

theorem setDeletionMark_eq (r : Record) (column : String) (now : Value) :
    setDeletionMark column now r =
      { r with attributes := (setDeletionMark column now r).attributes } := by
  unfold setDeletionMark
  split <;> rfl

theorem syncAttributes_cons (r : Record) (name : String) (rest : List String) :
    r.syncAttributes (name :: rest) = (r.syncAttribute name).syncAttributes rest := rfl

theorem syncAttribute_eq (r : Record) (name : String) :
    r.syncAttribute name = { r with snapshot := (r.syncAttribute name).snapshot } := by
  unfold syncAttribute
  split <;> rfl

theorem snapshot_syncAttribute (r : Record) (name other : String) :
    (r.syncAttribute name).snapshot.get? other =
      if other = name then r.get? other else r.snapshot.get? other := by
  unfold syncAttribute
  by_cases h : other = name
  · subst h
    cases hget : r.get? other with
    | none => simp [NameMap.get?_erase]
    | some v => simp [NameMap.get?_insert]
  · cases hget : r.get? name with
    | none => simp [NameMap.get?_erase, h]
    | some v => simp [NameMap.get?_insert, h]

theorem syncAttributes_eq (r : Record) (names : List String) :
    r.syncAttributes names = { r with snapshot := (r.syncAttributes names).snapshot } := by
  induction names generalizing r with
  | nil =>
    cases r
    rfl
  | cons name rest ih =>
    obtain ⟨snapshot, hfirst⟩ : ∃ snapshot, r.syncAttribute name = { r with snapshot } :=
      ⟨_, syncAttribute_eq r name⟩
    rw [syncAttributes_cons, ih, hfirst]

/-- Of the snapshot only what is named is taken anew. -/
theorem snapshot_syncAttributes (r : Record) (names : List String) (name : String) :
    (r.syncAttributes names).snapshot.get? name =
      if name ∈ names then r.get? name else r.snapshot.get? name := by
  induction names generalizing r with
  | nil => simp [syncAttributes]
  | cons first rest ih =>
    have hget : (r.syncAttribute first).get? name = r.get? name := by
      rw [syncAttribute_eq]
      rfl
    rw [syncAttributes_cons, ih, hget, snapshot_syncAttribute]
    by_cases hrest : name ∈ rest <;> simp [hrest]

/-! ## The record whose row has the mark -/

def trashed (r : Record) (column : String) (now : Value) : Record :=
  (setDeletionMark column now r).syncAttributes (deletionMark r.schema column now).names

section Trashed

variable {r : Record} {column : String} {now : Value}

theorem trashed_eq (r : Record) (column : String) (now : Value) :
    r.trashed column now =
      { r with
        attributes := (r.trashed column now).attributes
        snapshot := (r.trashed column now).snapshot } := by
  unfold trashed
  rw [syncAttributes_eq, setDeletionMark_eq]

theorem mem_names_deletionMark {schema : Schema} {name : String} :
    name ∈ (deletionMark schema column now).names ↔ name ∈ schema.marked column := by
  rw [NameMap.mem_names_iff, get?_deletionMark]
  by_cases h : name ∈ schema.marked column <;> simp [h]

theorem get?_trashed (r : Record) (column name : String) (now : Value) :
    (r.trashed column now).get? name =
      if name ∈ r.schema.marked column then some (r.schema.setValue name now)
      else r.get? name := by
  unfold trashed
  rw [syncAttributes_eq]
  exact get?_setDeletionMark r column name now

theorem snapshot_trashed (r : Record) (column name : String) (now : Value) :
    (r.trashed column now).snapshot.get? name =
      if name ∈ r.schema.marked column then some (r.schema.setValue name now)
      else r.snapshot.get? name := by
  unfold trashed
  rw [snapshot_syncAttributes, get?_setDeletionMark, setDeletionMark_eq]
  simp only [mem_names_deletionMark]
  by_cases h : name ∈ r.schema.marked column <;> simp [h]

/-- A mark that is itself no NaN is not dirty once it is written. All else stays as dirty as it
was. -/
theorem dirty_trashed
    (hclean : ∀ name ∈ r.schema.marked column, (r.schema.setValue name now).hasNan = false) :
    (r.trashed column now).dirty =
      r.dirty.filter fun name _ => !(r.schema.marked column).contains name := by
  apply NameMap.ext_get?
  intro name
  rw [get?_dirty, NameMap.get?_filter, get?_dirty, get?_trashed]
  by_cases h : name ∈ r.schema.marked column
  · have hsame := Value.same_refl (hclean name h)
    have hsaved : differs (r.trashed column now).snapshot name (r.schema.setValue name now) =
        false := by
      simp [differs, snapshot_trashed, h, hsame]
    simp [h, hsaved]
  · have hold : differs (r.trashed column now).snapshot name = differs r.snapshot name := by
      funext v
      simp [differs, snapshot_trashed, h]
    simp [h, hold]

theorem storedKey?_trashed :
    (r.trashed column now).storedKey? =
      if r.schema.primaryKey ∈ r.schema.marked column then
        present? (some (r.schema.setValue r.schema.primaryKey now))
      else r.storedKey? := by
  have hschema : (r.trashed column now).schema = r.schema := by rw [trashed_eq]
  unfold storedKey? key?
  rw [hschema, snapshot_trashed, get?_trashed]
  by_cases h : r.schema.primaryKey ∈ r.schema.marked column
  · simp only [h, if_true]
    cases present? (some (r.schema.setValue r.schema.primaryKey now)) <;> rfl
  · simp only [h, if_false]

end Trashed

/-! ## The next save -/

section Stamped

variable {x : Record} {now later : Value}

/-- A moment that is not dirty is set anew, and is then dirty if it is another one. -/
theorem get?_dirty_stampedAt
    (hsynced : ∀ t, x.schema.timestamps = some t → x.schema.setters.get? t.updated = none ∧
      x.get? t.updated = some now ∧ x.snapshot.get? t.updated = some now)
    (hnan : now.hasNan = false) (name : String) (v : Value) :
    (x.stampedAt later).dirty.get? name = some v ↔
      x.dirty.get? name = some v ∨
        (∃ t, x.schema.timestamps = some t ∧ name = t.updated) ∧ v = later ∧
          now.same later = false := by
  cases htimes : x.schema.timestamps with
  | none =>
    have hsame : x.stampedAt later = x := by
      unfold stampedAt
      rw [htimes]
    simp [hsame]
  | some t =>
    obtain ⟨hsetter, hcurrent, hold⟩ := hsynced t htimes
    have hrefl := Value.same_refl hnan
    have hset : x.stampedAt later = x.set t.updated later := by
      simp [stampedAt, htimes, isAttributeDirty, hcurrent, hold, hrefl]
    have hsnapshot : (x.set t.updated later).snapshot = x.snapshot := rfl
    rw [hset, get?_dirty_eq_some, get?_dirty_eq_some, get?_set, hsnapshot,
      Schema.setValue_plain hsetter]
    by_cases hname : name = t.updated
    · subst hname
      simp only [if_true, hcurrent, differs, hold, Option.some.injEq, Bool.not_eq_true']
      constructor
      · rintro ⟨rfl, hdiffers⟩
        exact .inr ⟨⟨t, rfl, rfl⟩, rfl, hdiffers⟩
      · rintro (⟨rfl, hdiffers⟩ | ⟨-, rfl, hdiffers⟩)
        · rw [hrefl] at hdiffers
          cases hdiffers
        · exact ⟨rfl, hdiffers⟩
    · have hother : ¬ ∃ t', some t = some t' ∧ name = t'.updated := by
        rintro ⟨t', ht, hupdated⟩
        cases ht
        exact hname hupdated
      simp [hname]

theorem storedKey?_stampedAt
    (h : ∀ t, x.schema.timestamps = some t → t.updated = x.schema.primaryKey →
      (present? (x.snapshot.get? x.schema.primaryKey)).isSome = true) :
    (x.stampedAt later).storedKey? = x.storedKey? := by
  unfold stampedAt
  split
  · next t htimes =>
    split
    · rfl
    · by_cases hkey : t.updated = x.schema.primaryKey
      · obtain ⟨stored, hstored⟩ := Option.isSome_iff_exists.mp (h t htimes hkey)
        have hset : (x.set t.updated later).storedKey? = some stored := storedKey?_eq hstored
        rw [hset, storedKey?_eq hstored]
      · have hget : (x.set t.updated later).key? = x.key? := by
          unfold key?
          exact congrArg present? ((get?_set x _ _ _).trans (if_neg (Ne.symm hkey)))
        unfold storedKey?
        rw [hget]
        rfl
  · rfl

end Stamped

/-! ## Deleting and saving -/

/-- One statement was sent, and carried out: the update of the row under `key`, and of no other,
with these assignments. -/
def Event.Updates (e : Event σ) (d : Dialect) (key : Value) (assignments : Attributes) : Prop :=
  ∃ st, e.sent = [⟨.execute st, none⟩] ∧
    st.Limited d (some (keyIs e.before.schema key))
      ((e.before.schema.allRows d).assigning assignments) []

/-- The row was marked as deleted in `column`, and nothing else was written or forgotten. -/
structure Event.Marks (s : Session σ) (e : Event σ) (column : String) (key : Value) : Prop where
  outcome : e.outcome = .ok true
  sent : ∃ mark, e.Updates s.dialect key mark ∧ ∀ name v,
    mark.get? name = some v ↔ name ∈ e.before.schema.marked column ∧ v = s.moment e.world
  schema : e.after.schema = e.before.schema
  relations : e.after.relations = e.before.relations
  persisted : e.after.persisted = true
  marked : ∀ name ∈ e.before.schema.marked column,
    e.after.get? name = some (s.moment e.world) ∧
      e.after.snapshot.get? name = some (s.moment e.world)
  kept : ∀ name ∉ e.before.schema.marked column,
    e.after.get? name = e.before.get? name ∧
      e.after.snapshot.get? name = e.before.snapshot.get? name
  dirty : e.after.dirty =
    e.before.dirty.filter fun name _ => !(e.before.schema.marked column).contains name

/-- A save wrote what was dirty, and the moment of the last change if that is not `stamp`. -/
structure Event.SavesRest (s : Session σ) (e : Event σ) (stamp key : Value) : Prop where
  outcome : e.outcome = .ok true
  addresses : e.before.Addresses e.before key
  sent : ∃ assignments, e.Updates s.dialect key assignments ∧ ∀ name v,
    assignments.get? name = some v ↔ e.before.dirty.get? name = some v ∨
      (∃ t, e.before.schema.timestamps = some t ∧ name = t.updated) ∧ v = s.moment e.world ∧
        v ≠ stamp

/-- A statement that was carried out is the only one, and decides how the call ends. -/
theorem Event.Attempted.carried {e : Event σ} {compiled : Result Statement} {failed : Record}
    {done : Execution → Record} {o : Outcome Execution} (h : e.Attempted compiled failed done o)
    (hok : (∃ x ∈ e.sent, x.stop = none) ∨ ∃ b, e.outcome = .ok b) :
    ∃ st report, compiled = .ok st ∧ e.sent = [⟨.execute st, none⟩] ∧ e.outcome = .ok true ∧
      e.after = done report := by
  obtain ⟨hattempt, houtcome, hafter⟩ := h
  generalize hsent : e.sent = sent at hattempt hok
  cases hattempt with
  | refused hcompiled =>
    rcases hok with ⟨x, hx, -⟩ | ⟨b, hb⟩
    · cases hx
    · rw [houtcome] at hb
      cases hb
  | failed hcompiled =>
    rcases hok with ⟨x, hx, hstop⟩ | ⟨b, hb⟩
    · rw [List.mem_singleton.mp hx] at hstop
      cases hstop
    · rw [houtcome] at hb
      cases hb
  | @done st report hcompiled => exact ⟨st, report, hcompiled, rfl, houtcome, hafter⟩

section Events

variable {s : Session σ} {r : Record} {column : String} {key : Value} {w : σ}

theorem requireKey_eq_ok : r.requireKey = .ok key ↔ r.storedKey? = some key := by
  unfold requireKey
  cases r.storedKey? with
  | none => simp
  | some stored => simp

theorem trash_attempted (hhooks : NoHooks s r.schema) (hcolumn : r.schema.softDelete = some column)
    (hold : r.persisted = true) (hkey : r.storedKey? = some key) :
    ∃ o, (Call.event s (.destroy false) r w).Attempted
      ((r.rowQuery s key).updating (deletionMark r.schema column (s.moment w)))
      (setDeletionMark column (s.moment w) r) (fun _ => r.trashed column (s.moment w)) o := by
  have hrow := trashRow_attempts s r (w, []) column key
  have hdrop : dropRow s.recorded r false key = trashRow s.recorded column key := by
    unfold dropRow
    rw [hcolumn]
  have hschema : (r.trashed column (s.moment w)).schema = r.schema := by rw [trashed_eq]
  exact event_attempted (destroy_attempts hhooks (w, []) false hold (requireKey_eq_ok.mpr hkey)
    (fun _ => hschema) (hdrop ▸ hrow))

theorem same_text (a b : String) : (Value.text a).same (.text b) = (a == b) := by
  simp [Value.same, Value.equal, Value.number?]

theorem same_moment (s : Session σ) (w w' : σ) :
    (s.moment w).same (s.moment w') = false ↔ s.moment w' ≠ s.moment w := by
  unfold Session.moment
  rw [same_text, beq_eq_false_iff_ne, Ne, Ne, Value.text.injEq, eq_comm]

theorem event_marks (hhooks : NoHooks s r.schema) (hcolumn : r.schema.softDelete = some column)
    (hsetters : ∀ name ∈ r.schema.marked column, r.schema.setters.get? name = none)
    (hold : r.persisted = true) (hkey : r.Addresses r key)
    (hsent : ∃ x ∈ (Call.event s (.destroy false) r w).sent, x.stop = none) :
    (Call.event s (.destroy false) r w).after = r.trashed column (s.moment w) ∧
      (Call.event s (.destroy false) r w).Marks s column key := by
  have hstored := (addresses_iff (Edited.refl r)).mp hkey
  obtain ⟨o, hattempted⟩ := trash_attempted (w := w) hhooks hcolumn hold hstored
  obtain ⟨st, report, hst, hone, houtcome, hafter⟩ := hattempted.carried (.inl hsent)
  have hplain : ∀ name ∈ r.schema.marked column,
      r.schema.setValue name (s.moment w) = s.moment w :=
    fun name hname => Schema.setValue_plain (hsetters name hname) _
  refine ⟨hafter, ?_⟩
  exact {
    outcome := houtcome
    sent := by
      refine ⟨deletionMark r.schema column (s.moment w),
        ⟨st, hone, limited_row_updating hkey.notNull hst⟩, ?_⟩
      intro name v
      rw [get?_deletionMark]
      by_cases h : name ∈ r.schema.marked column
      · simp [h, Call.event, eq_comm]
      · simp [h, Call.event]
    schema := by
      rw [hafter, trashed_eq]
      rfl
    relations := by
      rw [hafter, trashed_eq]
      rfl
    persisted := by
      rw [hafter, trashed_eq]
      exact hold
    marked := by
      intro name hname
      have hmem : name ∈ r.schema.marked column := hname
      rw [hafter, get?_trashed, snapshot_trashed, if_pos hmem, if_pos hmem, hplain name hmem]
      exact ⟨rfl, rfl⟩
    kept := by
      intro name hname
      have hother : name ∉ r.schema.marked column := hname
      rw [hafter, get?_trashed, snapshot_trashed, if_neg hother, if_neg hother]
      exact ⟨rfl, rfl⟩
    dirty := by
      rw [hafter, dirty_trashed]
      · rfl
      · intro name hname
        rw [hplain name hname]
        rfl }

theorem event_idle {x : Record} (hhooks : NoHooks s x.schema) (hold : x.persisted = true)
    (hclean : x.dirty.isEmpty = true) :
    (Call.event s .save x w).outcome = .ok false ∧ (Call.event s .save x w).sent = [] := by
  have hidle : x.isDirty = false := by
    unfold isDirty
    rw [hclean]
    rfl
  have hrun := save_clean (s := s.recorded) hhooks hold hidle (w, [])
  exact ⟨congrArg (fun ending => ending.1.1) hrun, congrArg (fun ending => ending.2.2) hrun⟩

/-- A save of a record whose moment of the last change is `stamp`, here and in its row. -/
theorem event_savesRest {x : Record} {w₀ : σ} (hhooks : NoHooks s x.schema)
    (hold : x.persisted = true) (hdirty : x.dirty.isEmpty = false)
    (hsynced : ∀ t, x.schema.timestamps = some t → x.schema.setters.get? t.updated = none ∧
      x.get? t.updated = some (s.moment w₀) ∧ x.snapshot.get? t.updated = some (s.moment w₀))
    (hok : ∃ b, (Call.event s .save x w).outcome = .ok b) :
    ∃ key', (Call.event s .save x w).SavesRest s (s.moment w₀) key' := by
  have hchanged : x.isDirty = true := by
    unfold isDirty
    rw [hdirty]
    rfl
  obtain ⟨o, hattempted⟩ := event_attempted (c := .save)
    (save_attempts_update hhooks (w, []) hold hchanged)
  obtain ⟨st, report, hst, hone, houtcome, -⟩ := hattempted.carried (.inr hok)
  have hedited := (stamped_stampedAt x (String.ofList (s.world.now w).1.write)).edited
  have hschema : (x.stampedAt (s.moment w)).schema = x.schema := hedited.schema
  obtain ⟨key', hrequired, hupdating⟩ := ok_of_bind hst
  have hstored : x.storedKey? = some key' := by
    rw [← requireKey_eq_ok.mp hrequired]
    apply Eq.symm
    apply storedKey?_stampedAt
    intro t ht hkey
    rw [← hkey, (hsynced t ht).2.2]
    rfl
  have haddress := (addresses_iff (Edited.refl x)).mpr hstored
  unfold rowQuery at hupdating
  rw [hschema] at hupdating
  refine ⟨key', houtcome, haddress, (x.stampedAt (s.moment w)).dirty,
    ⟨st, hone, limited_row_updating haddress.notNull hupdating⟩, ?_⟩
  intro name v
  rw [get?_dirty_stampedAt hsynced rfl, same_moment]
  constructor
  · rintro (hdirty | ⟨ht, rfl, hother⟩)
    · exact .inl hdirty
    · exact .inr ⟨ht, rfl, hother⟩
  · rintro (hdirty | ⟨ht, rfl, hother⟩)
    · exact .inl hdirty
    · exact .inr ⟨ht, rfl, hother⟩

/-- A deletion that keeps the row writes its mark and nothing else. What was unsaved stays unsaved,
and the next save writes exactly that. -/
theorem destroy_keeps_edits (s : Session σ) {r : Record} {column : String} {key : Value} (w : σ)
    (hhooks : NoHooks s r.schema) (hcolumn : r.schema.softDelete = some column)
    (hsetters : ∀ name ∈ r.schema.marked column, r.schema.setters.get? name = none)
    (hold : r.persisted = true) (hkey : r.Addresses r key) {e e' : Event σ}
    (he : e = Call.event s (.destroy false) r w) (hsent : ∃ x ∈ e.sent, x.stop = none)
    (he' : e' = Call.event s .save e.after e.left) :
    e.Marks s column key ∧
      (e.after.dirty.isEmpty = true → e'.outcome = .ok false ∧ e'.sent = []) ∧
      (e.after.dirty.isEmpty = false → (∃ b, e'.outcome = .ok b) →
        ∃ key', (r.schema.primaryKey ∉ r.schema.marked column → key' = key) ∧
          e'.SavesRest s (s.moment w) key') := by
  subst he
  obtain ⟨hafter, hmarks⟩ := event_marks hhooks hcolumn hsetters hold hkey hsent
  obtain ⟨x, hx⟩ : ∃ x, x = r.trashed column (s.moment w) := ⟨_, rfl⟩
  have hschema : x.schema = r.schema := by rw [hx, trashed_eq]
  have hpersisted : x.persisted = true := by
    rw [hx, trashed_eq]
    exact hold
  have hnone : NoHooks s x.schema := hschema ▸ hhooks
  rw [hafter, ← hx] at he' ⊢
  subst he'
  refine ⟨hmarks, event_idle hnone hpersisted, ?_⟩
  intro hdirty hok
  have hsynced : ∀ t, x.schema.timestamps = some t → x.schema.setters.get? t.updated = none ∧
      x.get? t.updated = some (s.moment w) ∧ x.snapshot.get? t.updated = some (s.moment w) := by
    intro t ht
    rw [hschema] at ht ⊢
    have hmem := Schema.updated_mem_marked ht column
    have hmarked := hmarks.marked t.updated hmem
    rw [hafter, ← hx] at hmarked
    exact ⟨hsetters _ hmem, hmarked⟩
  obtain ⟨key', hsaves⟩ := event_savesRest hnone hpersisted hdirty hsynced hok
  refine ⟨key', ?_, hsaves⟩
  intro hother
  have hstored : x.storedKey? = some key := by
    rw [hx, storedKey?_trashed, if_neg hother]
    exact (addresses_iff (Edited.refl r)).mp hkey
  have hnow : x.storedKey? = some key' := (addresses_iff (Edited.refl x)).mp hsaves.addresses
  rw [hstored] at hnow
  exact (Option.some.inj hnow).symm

end Events

/-! ### An essay that was renamed and numbered anew -/

def essays : Schema :=
  { Schema.plain "essays" with
    keyStrategy := .manual
    timestamps := some .standard
    softDelete := some "deleted_at" }

def essaySession : Session Script :=
  ⟨Script.world, .sqlite, ⟨[]⟩, .empty, HookRegistry.empty.hooks, .standard, 0⟩

def essayRow : Row :=
  .ofPairs [("id", .int64 1), ("title", .text "a"), ("deleted_at", .null),
    ("updated_at", .text "long ago")]

def editedEssay : Record :=
  (((hydrate essays essayRow).set "title" (.text "b")).set "id" (.int64 5)).set "updated_at"
    (.text "just now")

def noEssays : Script := Script.startingAt ⟨0, ⟨0, 0⟩⟩

def trashing : Event Script := Call.event essaySession (.destroy false) editedEssay noEssays

def savingRest : Event Script := Call.event essaySession .save trashing.after trashing.left

theorem destroy_keeps_edits_essays :
    NoHooks essaySession essays ∧ essays.softDelete = some "deleted_at" ∧
    (∀ name ∈ essays.marked "deleted_at", essays.setters.get? name = none) ∧
    editedEssay.persisted = true ∧ editedEssay.Addresses editedEssay (.int64 1) ∧
    (∃ x ∈ trashing.sent, x.stop = none) ∧ trashing.after.dirty.names = ["id", "title"] ∧
    (∃ b, savingRest.outcome = .ok b) ∧
    trashing.Marks essaySession "deleted_at" (.int64 1) ∧
    savingRest.SavesRest essaySession (essaySession.moment noEssays) (.int64 1) := by
  have hhooks : NoHooks essaySession essays :=
    noHooks_of_registry (g := .empty) rfl nofun rfl
  have hkey : editedEssay.Addresses editedEssay (.int64 1) := ⟨rfl, .inl rfl⟩
  have hsent : ∃ x ∈ trashing.sent, x.stop = none := ⟨_, List.mem_singleton.mpr rfl, rfl⟩
  have hdirty : trashing.after.dirty.names = ["id", "title"] := by decide +kernel
  have hpending : trashing.after.dirty.isEmpty = false := by decide +kernel
  have hsaved : ∃ b, savingRest.outcome = .ok b := ⟨_, rfl⟩
  have hfollows : savingRest = Call.event essaySession .save trashing.after trashing.left := rfl
  obtain ⟨hmarks, -, hrest⟩ := destroy_keeps_edits essaySession (r := editedEssay) noEssays
    hhooks rfl (fun _ _ => rfl) rfl hkey (e := trashing) rfl hsent hfollows
  obtain ⟨key', hsame, hsaves⟩ := hrest hpending hsaved
  rw [hsame (by decide)] at hsaves
  exact ⟨hhooks, rfl, fun _ _ => rfl, rfl, hkey, hsent, hdirty, hsaved, hmarks, hsaves⟩

end Record

end RecordMapper
