import RecordMapper.Proofs.Record.Trashing

/-!
Calls that delete or restore a row and fail.

* `Record.ChangedOnly` says which attributes of a record may have changed, and that nothing else
  has.
* `Event.Reports`: a call ends as its statement does. It succeeds only with a statement that was
  carried out, or where there is nothing to write.
* `failure_keeps_record`: after a failure the row counts as existing or not as before, the snapshot
  and the relations are the old ones, and of the attributes only stamps and the mark of deletion can
  have changed. The mark is set before its statement is sent (`Call.mark?`), and a statement that
  fails does not take it back (`mark_outlives_failure`).
-/
namespace RecordMapper

set_option autoImplicit false

variable {σ : Type}

namespace Record

/-! ## Attributes that may change -/

/-- Nothing has changed but attributes among those that may. -/
structure ChangedOnly (r r' : Record) (may : String → Prop) : Prop where
  schema : r'.schema = r.schema
  snapshot : r'.snapshot = r.snapshot
  relations : r'.relations = r.relations
  persisted : r'.persisted = r.persisted
  kept : ∀ name, ¬ may name → r'.get? name = r.get? name

section ChangedOnly

variable {r r' r'' : Record} {may more : String → Prop}

theorem ChangedOnly.refl (r : Record) (may : String → Prop) : r.ChangedOnly r may :=
  ⟨rfl, rfl, rfl, rfl, fun _ _ => rfl⟩

theorem ChangedOnly.trans (h : r.ChangedOnly r' may) (h' : r'.ChangedOnly r'' may) :
    r.ChangedOnly r'' may :=
  ⟨h'.schema.trans h.schema, h'.snapshot.trans h.snapshot, h'.relations.trans h.relations,
    h'.persisted.trans h.persisted,
    fun name hname => (h'.kept name hname).trans (h.kept name hname)⟩

theorem ChangedOnly.mono (h : r.ChangedOnly r' may) (hmore : ∀ name, may name → more name) :
    r.ChangedOnly r' more :=
  { h with kept := fun name hname => h.kept name fun hmay => hname (hmore name hmay) }

theorem changedOnly_set (r : Record) {name : String} (v : Value) (h : may name) :
    r.ChangedOnly (r.set name v) may := by
  refine ⟨rfl, rfl, rfl, rfl, ?_⟩
  intro other hother
  have hne : other ≠ name := by
    rintro rfl
    exact hother h
  rw [get?_set, if_neg hne]

/-- The attributes that a save sets by itself: the moments, and the key of a new record. -/
def Stamps (r : Record) (name : String) : Prop :=
  (∃ t, r.schema.timestamps = some t ∧
    (name = t.updated ∨ r.persisted = false ∧ name = t.created)) ∨
  r.persisted = false ∧ name = r.schema.primaryKey

theorem ChangedOnly.stamps (h : r.ChangedOnly r' may) : r'.Stamps = r.Stamps := by
  funext name
  unfold Stamps
  rw [h.schema, h.persisted]

theorem changedOnly_stampedAt (r : Record) (now : Value) :
    r.ChangedOnly (r.stampedAt now) r.Stamps := by
  unfold stampedAt
  split
  · next t ht =>
    split
    · exact .refl r _
    · exact changedOnly_set r now (.inl ⟨t, ht, .inl rfl⟩)
  · exact .refl r _

theorem changedOnly_keyed (uuid : Value) (hnew : r.persisted = false) :
    r.ChangedOnly (r.keyed uuid) r.Stamps := by
  unfold keyed
  split
  · exact changedOnly_set r uuid (.inr ⟨hnew, rfl⟩)
  · exact .refl r _

theorem changedOnly_stampedNew {t : Timestamps} (now : Value) (hnew : r.persisted = false)
    (ht : r.schema.timestamps = some t) : r.ChangedOnly (r.stampedNew t now) r.Stamps := by
  have hupdated : r.Stamps t.updated := .inl ⟨t, ht, .inl rfl⟩
  have hcreated : r.Stamps t.created := .inl ⟨t, ht, .inr ⟨hnew, rfl⟩⟩
  unfold stampedNew
  split
  · exact (changedOnly_set r now hcreated).trans (changedOnly_set _ now hupdated)
  · exact changedOnly_set r now hupdated

theorem changedOnly_readied (uuid now : Value) (hnew : r.persisted = false) :
    r.ChangedOnly (r.readied uuid now) r.Stamps := by
  have hkeyed := changedOnly_keyed uuid hnew
  unfold readied
  split
  · next t ht =>
    refine hkeyed.trans ?_
    rw [← hkeyed.stamps]
    exact changedOnly_stampedNew now (hkeyed.persisted.trans hnew) (hkeyed.schema ▸ ht)
  · exact hkeyed

theorem changedOnly_setDeletionMark (r : Record) (column : String) (now : Value) :
    r.ChangedOnly (setDeletionMark column now r) fun name => r.Stamps name ∨ name = column := by
  unfold setDeletionMark
  have hfirst : r.ChangedOnly (r.set column now) fun name => r.Stamps name ∨ name = column :=
    changedOnly_set r now (.inr rfl)
  simp only
  split
  · next t ht => exact hfirst.trans (changedOnly_set _ now (.inl (.inl ⟨t, ht, .inl rfl⟩)))
  · exact hfirst

theorem isTrashed_congr (hschema : r'.schema = r.schema)
    (h : ∀ column, r.schema.softDelete = some column → r'.get? column = r.get? column) :
    r'.isTrashed = r.isTrashed := by
  unfold isTrashed value
  rw [hschema]
  cases hcolumn : r.schema.softDelete with
  | none => rfl
  | some column => simp only [h column hcolumn]

end ChangedOnly

/-! ## Ends of a call -/

/-- There is nothing for the call to write. -/
def Call.IsIdle (r : Record) : Call → Prop
  | .destroy _ => r.persisted = false
  | .restore => r.persisted = true ∧ ∃ column, r.schema.softDelete = some column ∧
      (r.set column .null).isDirty = false
  | _ => False

/-- A call that writes rows ends as its statement does. -/
structure Event.Reports (e : Event σ) : Prop where
  done : e.outcome = .ok true → ∃ st, e.sent = [⟨.execute st, none⟩]
  idle : e.outcome = .ok false → e.sent = [] ∧ e.call.IsIdle e.before
  failed : ∀ stop, e.outcome = .error stop →
    (∃ st, e.sent = [⟨.execute st, some stop⟩]) ∨
      e.sent = [] ∧ ∃ f, stop = .fault f ∧ Refusal e.before f

/-- The mark of deletion that a call sets before its statement is sent, and the column it stands
in. -/
def Call.mark? (s : Session σ) (w : σ) (r : Record) : Call → Option (String × Value)
  | .destroy false => r.schema.softDelete.map fun column => (column, s.moment w)
  | .restore => r.schema.softDelete.map fun column => (column, .null)
  | _ => none

/-- What a call that failed has left of the record. A mark that was already set changes nothing. -/
structure Event.Leaves (e : Event σ) (mark : Option (String × Value)) : Prop where
  kept : e.before.ChangedOnly e.after fun name =>
    e.before.Stamps name ∨ ∃ v, mark = some (name, v)
  unmarked : mark = none → e.after = e.before
  trashed : (∀ column v, mark = some (column, v) → ¬ e.before.Stamps column ∧
      e.before.get? column = some (e.before.schema.setValue column v)) →
    e.after.isTrashed = e.before.isTrashed ∧
      ∀ name, ¬ e.before.Stamps name → e.after.get? name = e.before.get? name

/-- A call ends as its statement does, and leaves the record alone if that fails, but for the mark
and for stamps. -/
structure Event.Faithful (e : Event σ) (mark : Option (String × Value)) : Prop where
  reports : e.Reports
  leaves : ∀ stop, e.outcome = .error stop → e.Leaves mark

section Events

variable {s : Session σ} {r : Record} {w : σ} {e : Event σ}

theorem Event.Attempted.reports {compiled : Result Statement} {failed : Record}
    {done : Execution → Record} {o : Outcome Execution} (h : e.Attempted compiled failed done o)
    (hrefused : ∀ f, compiled = .error f → Refusal e.before f) : e.Reports := by
  obtain ⟨hattempt, houtcome, -⟩ := h
  generalize hsent : e.sent = sent at hattempt
  cases hattempt with
  | @refused f hcompiled =>
    refine ⟨?_, ?_, ?_⟩
    · rw [houtcome]
      exact nofun
    · rw [houtcome]
      exact nofun
    · intro stop hstop
      rw [houtcome] at hstop
      cases hstop
      exact .inr ⟨hsent, f, rfl, hrefused f hcompiled⟩
  | @failed st stop hcompiled =>
    refine ⟨?_, ?_, ?_⟩
    · rw [houtcome]
      exact nofun
    · rw [houtcome]
      exact nofun
    · intro stop' hstop
      rw [houtcome] at hstop
      cases hstop
      exact .inl ⟨st, hsent⟩
  | @done st report hcompiled =>
    refine ⟨fun _ => ⟨st, hsent⟩, ?_, ?_⟩
    · rw [houtcome]
      exact nofun
    · rw [houtcome]
      exact nofun

/-- Nothing was attempted. -/
theorem reports_unsent (hsent : e.sent = []) (hdone : e.outcome ≠ .ok true)
    (hidle : e.outcome = .ok false → e.call.IsIdle e.before)
    (hrefused : ∀ stop, e.outcome = .error stop → ∃ f, stop = .fault f ∧ Refusal e.before f) :
    e.Reports :=
  ⟨fun h => absurd h hdone, fun h => ⟨hsent, hidle h⟩,
    fun stop h => .inr ⟨hsent, hrefused stop h⟩⟩

/-- A statement that failed decides how the call ends. -/
theorem Event.Reports.returned (h : e.Reports) {x : Exchange} (hx : x ∈ e.sent) {stop : Halt}
    (hstop : x.stop = some stop) : e.outcome = .error stop := by
  rcases houtcome : e.outcome with other | wrote
  · rcases h.failed other houtcome with ⟨st, hsent⟩ | ⟨hsent, -⟩
    · rw [hsent, List.mem_singleton] at hx
      rw [hx] at hstop
      cases hstop
      rfl
    · rw [hsent] at hx
      cases hx
  · cases wrote with
    | true =>
      obtain ⟨st, hsent⟩ := h.done houtcome
      rw [hsent, List.mem_singleton] at hx
      rw [hx] at hstop
      cases hstop
    | false =>
      rw [(h.idle houtcome).1] at hx
      cases hx

theorem leaves_untouched (h : e.after = e.before) (mark : Option (String × Value)) :
    e.Leaves mark := by
  refine ⟨?_, fun _ => h, fun _ => ?_⟩
  · rw [h]
    exact .refl e.before _
  · rw [h]
    exact ⟨rfl, fun _ _ => rfl⟩

theorem leaves_marked {column : String} {v : Value}
    (hkept : e.before.ChangedOnly e.after fun name => e.before.Stamps name ∨ name = column)
    (hcolumn : e.before.schema.softDelete = some column)
    (hset : ¬ e.before.Stamps column →
      e.after.get? column = some (e.before.schema.setValue column v)) :
    e.Leaves (some (column, v)) := by
  refine ⟨hkept.mono ?_, nofun, ?_⟩
  · rintro name (hstamp | rfl)
    · exact .inl hstamp
    · exact .inr ⟨v, rfl⟩
  · intro hmarked
    obtain ⟨hstamp, hold⟩ := hmarked column v rfl
    have hmark : e.after.get? column = e.before.get? column := by rw [hset hstamp, hold]
    constructor
    · apply isTrashed_congr hkept.schema
      intro column' hcolumn'
      rw [hcolumn] at hcolumn'
      cases hcolumn'
      exact hmark
    · intro name hname
      by_cases hother : name = column
      · rw [hother, hmark]
      · apply hkept.kept
        rintro (hstamp | hcolumn')
        · exact hname hstamp
        · exact hother hcolumn'

theorem Refusal.congr {r' : Record} {f : Fault} (h : Refusal r' f)
    (hschema : r'.schema = r.schema) : Refusal r f := by
  cases h with
  | keyless =>
    rw [hschema]
    exact .keyless
  | unmarked =>
    rw [hschema]
    exact .unmarked
  | nameless hname =>
    rw [hschema] at hname
    exact .nameless hname

theorem refusal_updating {key : Value} {assignments : Attributes} (hkey : r.storedKey? = some key)
    (ha : assignments.isEmpty = false) {f : Fault}
    (h : (r.rowQuery s key).updating assignments = .error f) : Refusal r f := by
  have hnull := ((addresses_iff (Edited.refl r)).mpr hkey).notNull
  exact .nameless (nameless_of_error h fun hname => ⟨_, row_updating hname hnull ha⟩)

theorem refusal_deletion {key : Value} (hkey : r.storedKey? = some key) {f : Fault}
    (h : (r.rowQuery s key).deletion = .error f) : Refusal r f := by
  have hnull := ((addresses_iff (Edited.refl r)).mpr hkey).notNull
  exact .nameless (nameless_of_error h fun hname => ⟨_, row_deletion hname hnull⟩)

theorem refusal_rowUpdate {assignments : Attributes} (ha : assignments.isEmpty = false) {f : Fault}
    (h : r.rowUpdate s assignments = .error f) : Refusal r f := by
  cases hkey : r.storedKey? with
  | none =>
    unfold rowUpdate requireKey at h
    rw [hkey] at h
    cases h
    exact .keyless
  | some key =>
    rw [rowUpdate_of_key (requireKey_eq_ok.mpr hkey)] at h
    exact refusal_updating hkey ha h

theorem event_of_run {c : Call} {o : Outcome Bool} {r' : Record} {t' : σ × List Exchange}
    (h : ((c.run s.recorded).runOn r).run (w, []) = ((o, r'), t')) :
    (c.event s r w).outcome = o ∧ (c.event s r w).after = r' ∧ (c.event s r w).sent = t'.2 :=
  ⟨congrArg (fun ending => ending.1.1) h, congrArg (fun ending => ending.1.2) h,
    congrArg (fun ending => ending.2.2) h⟩

/-- The call is refused before anything is changed. -/
theorem refused_event {c : Call} {f : Fault}
    (h : ((c.run s.recorded).runOn r).run (w, []) = ((.error (.fault f), r), (w, [])))
    (hrefused : Refusal r f) (mark : Option (String × Value)) :
    (c.event s r w).Faithful mark := by
  obtain ⟨houtcome, hafter, hsent⟩ := event_of_run h
  refine ⟨reports_unsent hsent ?_ ?_ ?_, fun _ _ => leaves_untouched hafter _⟩
  · rw [houtcome]
    exact nofun
  · rw [houtcome]
    exact nofun
  · intro stop hstop
    rw [houtcome] at hstop
    cases hstop
    exact ⟨f, rfl, hrefused⟩

theorem idle_event {c : Call} {r' : Record}
    (h : ((c.run s.recorded).runOn r).run (w, []) = ((.ok false, r'), (w, [])))
    (hidle : c.IsIdle r) (mark : Option (String × Value)) :
    (c.event s r w).Faithful mark := by
  obtain ⟨houtcome, -, hsent⟩ := event_of_run h
  refine ⟨reports_unsent hsent ?_ (fun _ => hidle) ?_, ?_⟩
  · rw [houtcome]
    exact nofun
  · rw [houtcome]
    exact nofun
  · intro stop hstop
    rw [houtcome] at hstop
    cases hstop

theorem Event.Attempted.after_failed {compiled : Result Statement} {failed : Record}
    {done : Execution → Record} {o : Outcome Execution} (h : e.Attempted compiled failed done o)
    {stop : Halt} (hstop : e.outcome = .error stop) : e.after = failed := by
  obtain ⟨-, houtcome, hafter⟩ := h
  cases o with
  | error stop' => exact hafter
  | ok report =>
    rw [houtcome] at hstop
    cases hstop

theorem destroy_event (hhooks : NoHooks s r.schema) (force : Bool) (w : σ) :
    (Call.event s (.destroy force) r w).Faithful (Call.mark? s w r (.destroy force)) := by
  have hbefore : s.recorded.hooks.run .beforeDelete r = (.ok (), r) := hhooks .beforeDelete r rfl
  by_cases hold : r.persisted = true
  · cases hkey : r.storedKey? with
    | none =>
      have hrequired : r.requireKey = .error (.misconfigured (.noPersistedKey r.schema.table)) := by
        unfold requireKey
        rw [hkey]
      have hrun := destroy_keyless (s := s.recorded) (w := (w, [])) force hold hbefore hrequired
      exact refused_event (c := .destroy force) hrun .keyless _
    | some key =>
      have hrequired := requireKey_eq_ok.mpr hkey
      -- The row is deleted if its schema does not keep it, and if the caller says so.
      have hdelete (hdrop : dropRow s.recorded r force key = deleteRow s.recorded key) :
          (Call.event s (.destroy force) r w).Faithful (Call.mark? s w r (.destroy force)) := by
        have hrow := deleteRow_attempts s r (w, []) key
        rw [← hdrop] at hrow
        have hkept : ∀ _ : Execution, r.markDeleted.schema = r.schema := fun _ => rfl
        obtain ⟨o, hattempted⟩ := event_attempted (c := .destroy force)
          (destroy_attempts hhooks (w, []) force hold hrequired hkept hrow)
        exact ⟨hattempted.reports fun f hf => refusal_deletion hkey hf,
          fun stop hstop => leaves_untouched (hattempted.after_failed hstop) _⟩
      cases hcolumn : r.schema.softDelete with
      | none =>
        apply hdelete
        unfold dropRow
        rw [hcolumn]
      | some column =>
        cases force with
        | true =>
          apply hdelete
          unfold dropRow
          rw [hcolumn]
        | false =>
          obtain ⟨o, hattempted⟩ := trash_attempted (w := w) hhooks hcolumn hold hkey
          have hmark : Call.mark? s w r (.destroy false) = some (column, s.moment w) := by
            simp [Call.mark?, hcolumn]
          have hmember : column ∈ r.schema.marked column := List.mem_cons_self ..
          rw [hmark]
          refine ⟨hattempted.reports fun f hf =>
            refusal_updating hkey (deletionMark_nonempty _ _ _) hf, ?_⟩
          intro stop hstop
          have hafter := hattempted.after_failed hstop
          apply leaves_marked
          · rw [hafter]
            exact changedOnly_setDeletionMark r column _
          · exact hcolumn
          · intro _
            rw [hafter, get?_setDeletionMark, if_pos hmember]
            rfl
  · have hnew := Bool.eq_false_iff.mpr hold
    have hrun := destroy_new (s := s.recorded) (w := (w, [])) force hnew
    exact idle_event (c := .destroy force) hrun hnew _

theorem restore_event (hhooks : NoHooks s r.schema) (w : σ) :
    (Call.event s .restore r w).Faithful (Call.mark? s w r .restore) := by
  cases hcolumn : r.schema.softDelete with
  | none =>
    have hrun := restore_unmarked (s := s.recorded) (w := (w, [])) hcolumn
    exact refused_event (c := .restore) hrun .unmarked _
  | some column =>
    obtain ⟨x, hx⟩ : ∃ x, x = r.set column .null := ⟨_, rfl⟩
    have hset : r.ChangedOnly x fun name => r.Stamps name ∨ name = column := by
      rw [hx]
      exact changedOnly_set r .null (.inr rfl)
    have hnone : NoHooks s x.schema := hset.schema ▸ hhooks
    have hrun : ∀ t, ((Call.run s.recorded .restore).runOn r).run t =
        ((save s.recorded).runOn x).run t := by
      intro t
      rw [hx]
      exact restore_marked (s := s.recorded) hcolumn
    have hmark : Call.mark? s w r .restore = some (column, .null) := by
      simp [Call.mark?, hcolumn]
    rw [hmark]
    -- Behind the mark only stamps are set.
    have hleaves (r' : Record) (hstamped : x.ChangedOnly r' x.Stamps)
        (hafter : (Call.event s .restore r w).after = r') :
        (Call.event s .restore r w).Leaves (some (column, .null)) := by
      rw [hset.stamps] at hstamped
      apply leaves_marked
      · rw [hafter]
        exact hset.trans (hstamped.mono fun name => .inl)
      · exact hcolumn
      · intro hstamp
        rw [hafter, hstamped.kept column hstamp, hx, get?_set, if_pos rfl]
        rfl
    by_cases hold : x.persisted = true
    · cases hdirty : x.isDirty with
      | false =>
        have hidle : Call.IsIdle r .restore := by
          refine ⟨hset.persisted.symm.trans hold, column, hcolumn, ?_⟩
          rw [← hx]
          exact hdirty
        have hclean := save_clean (s := s.recorded) hnone hold hdirty (w, [])
        exact idle_event (c := .restore) ((hrun _).trans hclean) hidle _
      | true =>
        have hwrite := save_attempts_update hnone (w, []) hold hdirty
        unfold Attempts at hwrite
        rw [← hrun] at hwrite
        obtain ⟨o, hattempted⟩ := event_attempted (c := .restore) hwrite
        have hstamped := changedOnly_stampedAt x (s.moment w)
        have hpending : (x.stampedAt (s.moment w)).dirty.isEmpty = false := by
          have h := isDirty_stampedAt (s.moment w) hdirty
          unfold isDirty at h
          simpa using h
        exact ⟨hattempted.reports fun f hf =>
            (refusal_rowUpdate hpending hf).congr (hstamped.schema.trans hset.schema),
          fun stop hstop => hleaves _ hstamped (hattempted.after_failed hstop)⟩
    · have hnew := Bool.eq_false_iff.mpr hold
      obtain ⟨uuid, now, -, hwrite⟩ := save_attempts_insert hnone (w, []) hnew
      unfold Attempts at hwrite
      rw [← hrun] at hwrite
      obtain ⟨o, hattempted⟩ := event_attempted (c := .restore) hwrite
      refine ⟨hattempted.reports ?_, fun stop hstop =>
        hleaves _ (changedOnly_readied uuid now hnew) (hattempted.after_failed hstop)⟩
      intro f hf
      have hnameless := nameless_of_error hf fun hname => exists_insertion s.dialect hname _
      rw [hset.schema] at hnameless
      exact .nameless hnameless

end Events

/-- A call that deletes or restores a row returns the failure of its statement. The record is then
as it was before, but for stamps and for the mark of deletion; a mark that was set before is no
change. -/
theorem failure_keeps_record (s : Session σ) (c : Call)
    (hc : c = .restore ∨ ∃ force, c = .destroy force) (r : Record) (w : σ)
    (hhooks : NoHooks s r.schema) :
    (∀ x ∈ (c.event s r w).sent, ∀ stop, x.stop = some stop →
      (c.event s r w).outcome = .error stop) ∧ (c.event s r w).Faithful (c.mark? s w r) := by
  have hfaithful : (c.event s r w).Faithful (c.mark? s w r) := by
    rcases hc with rfl | ⟨force, rfl⟩
    · exact restore_event hhooks w
    · exact destroy_event hhooks force w
  exact ⟨fun x hx stop hstop => hfaithful.reports.returned hx hstop, hfaithful⟩

/-! ### Updates that fail -/

def noUpdates : Script := noEssays.failWhen "UPDATE"

/-- An essay that is not deleted, with a new title. -/
def retitledEssay : Record := (hydrate essays essayRow).set "title" (.text "b")

def restoring : Event Script := Call.event essaySession .restore retitledEssay noUpdates

theorem failure_keeps_record_essays :
    NoHooks essaySession essays ∧ (∃ st stop, restoring.sent = [⟨.execute st, some stop⟩] ∧
      restoring.outcome = .error stop) ∧
    Call.mark? essaySession noUpdates retitledEssay .restore = some ("deleted_at", .null) ∧
    restoring.after.isTrashed = false ∧
    restoring.Faithful (some ("deleted_at", .null)) := by
  have hhooks : NoHooks essaySession essays := noHooks_of_registry (g := .empty) rfl nofun rfl
  have hsent : ∃ st stop, restoring.sent = [⟨.execute st, some stop⟩] := ⟨_, _, rfl⟩
  have hmark : Call.mark? essaySession noUpdates retitledEssay .restore =
      some ("deleted_at", .null) := rfl
  obtain ⟨hreturned, hfaithful⟩ := failure_keeps_record essaySession .restore (.inl rfl)
    retitledEssay noUpdates hhooks
  have hkeeps : restoring.Faithful (some ("deleted_at", .null)) := hfaithful
  obtain ⟨st, stop, hone⟩ := hsent
  have hstop : restoring.outcome = .error stop :=
    hreturned ⟨.execute st, some stop⟩ (hone ▸ List.mem_singleton.mpr rfl) stop rfl
  have hbefore : retitledEssay.isTrashed = false := rfl
  have htrashed := ((hkeeps.leaves stop hstop).trashed (by
    rintro column v hcolumn
    cases hcolumn
    refine ⟨?_, rfl⟩
    rintro (⟨t, ht, hname | ⟨hnew, -⟩⟩ | ⟨hnew, -⟩)
    · cases ht
      exact absurd hname (by decide)
    · cases hnew
    · cases hnew)).1
  exact ⟨hhooks, ⟨st, stop, hone, hstop⟩, hmark, htrashed.trans hbefore, hkeeps⟩

/-- An essay counts as deleted after a deletion that failed, and one that is deleted counts as
restored after a restoration that failed. -/
theorem mark_outlives_failure :
    (Call.event essaySession (.destroy false) retitledEssay noUpdates).outcome =
        .error (Script.failure ("UPDATE \"essays\" SET \"deleted_at\" = ?, " ++
          "\"updated_at\" = ? WHERE \"id\" = ?")) ∧
      retitledEssay.isTrashed = false ∧
      (Call.event essaySession (.destroy false) retitledEssay noUpdates).after.isTrashed = true ∧
      trashing.after.isTrashed = true ∧
      (Call.event essaySession .restore trashing.after noUpdates).after.isTrashed = false ∧
      ∃ stop, (Call.event essaySession .restore trashing.after noUpdates).outcome =
        .error stop := by
  refine ⟨?_, rfl, rfl, rfl, rfl, _, rfl⟩
  rfl

end Record

end RecordMapper
