import RecordMapper.Proofs.Record.Failing

/-!
What a record keeps of the mark of deletion that was written.

* `Event.Records`: the statement of a deletion binds the moment for each of its columns, and the
  record keeps what the setters of these columns make of it.
* `destroy_records_mark`: the record and its snapshot hold the value that was bound exactly for the
  columns whose setter leaves it as it is (`setter_parts_mark`).
-/
namespace RecordMapper

set_option autoImplicit false

variable {σ : Type}

namespace Record

/-- One update of the row under `key` was carried out. It binds `mark`, first of all its values, and
the record holds what the setters make of them. -/
structure Event.Records (s : Session σ) (e : Event σ) (column : String) (key : Value)
    (mark : Attributes) : Prop where
  updates : e.Updates s.dialect key mark
  bound : ∀ x ∈ e.sent, ∃ st, x.request = .execute st ∧ mark.values <+: st.values
  columns : ∀ name v, mark.get? name = some v ↔
    name ∈ e.before.schema.marked column ∧ v = s.moment e.world
  recorded : ∀ name v, mark.get? name = some v →
    e.after.get? name = some (e.before.schema.setValue name v) ∧
      e.after.snapshot.get? name = some (e.before.schema.setValue name v)

section Events

variable {s : Session σ} {r : Record} {column : String} {w : σ}

theorem get?_deletionMark_eq_some {schema : Schema} {now : Value} (name : String) (v : Value) :
    (deletionMark schema column now).get? name = some v ↔
      name ∈ schema.marked column ∧ v = now := by
  rw [get?_deletionMark]
  by_cases h : name ∈ schema.marked column
  · simp [h, eq_comm]
  · simp [h]

/-- No column of the mark is left to its default. -/
theorem values_deletionMark (schema : Schema) (column : String) (s : Session σ) (w : σ) :
    ∀ v ∈ (deletionMark schema column (s.moment w)).values, v.isDefault = false := by
  intro v hv
  obtain ⟨name, hname⟩ := NameMap.exists_get?_of_mem_values hv
  obtain ⟨-, rfl⟩ := (get?_deletionMark_eq_some name v).mp hname
  rfl

theorem storedKey?_of_destroyed (hhooks : NoHooks s r.schema) (hold : r.persisted = true)
    (hok : ∃ b, (Call.event s (.destroy false) r w).outcome = .ok b) :
    ∃ key, r.storedKey? = some key := by
  cases hkey : r.storedKey? with
  | some key => exact ⟨key, rfl⟩
  | none =>
    have hrequired : r.requireKey = .error (.misconfigured (.noPersistedKey r.schema.table)) := by
      unfold requireKey
      rw [hkey]
    have hbefore : s.recorded.hooks.run .beforeDelete r = (.ok (), r) := hhooks .beforeDelete r rfl
    have hrun := destroy_keyless (s := s.recorded) (w := (w, [])) false hold hbefore hrequired
    obtain ⟨b, hb⟩ := hok
    rw [(event_of_run (c := .destroy false) hrun).1] at hb
    cases hb

theorem event_records (hhooks : NoHooks s r.schema) (hcolumn : r.schema.softDelete = some column)
    (hold : r.persisted = true) {key : Value} (hkey : r.storedKey? = some key)
    (hok : ∃ b, (Call.event s (.destroy false) r w).outcome = .ok b) :
    (Call.event s (.destroy false) r w).Records s column key
      (deletionMark r.schema column (s.moment w)) := by
  obtain ⟨o, hattempted⟩ := trash_attempted (w := w) hhooks hcolumn hold hkey
  obtain ⟨st, report, hst, hone, -, hafter⟩ := hattempted.carried (.inr hok)
  have hnull := ((addresses_iff (Edited.refl r)).mpr hkey).notNull
  have hlimited := limited_row_updating hnull hst
  refine ⟨⟨st, hone, hlimited⟩, ?_, get?_deletionMark_eq_some, ?_⟩
  · intro x hx
    rw [hone, List.mem_singleton] at hx
    have hvalues : (deletionMark r.schema column (s.moment w)).values.filter (!·.isDefault) =
        (deletionMark r.schema column (s.moment w)).values :=
      List.filter_eq_self.mpr fun v hv => by rw [values_deletionMark r.schema column s w v hv]; rfl
    refine ⟨st, by rw [hx], ?_⟩
    rw [hlimited.values, Query.assigning_values, hvalues, List.append_assoc]
    exact List.prefix_append _ _
  · intro name v hv
    obtain ⟨hmarked, rfl⟩ := (get?_deletionMark_eq_some name v).mp hv
    rw [hafter, get?_trashed, snapshot_trashed, if_pos hmarked, if_pos hmarked]
    exact ⟨rfl, rfl⟩

/-- A deletion that keeps the row binds the moment as it is, and records it as the setters of the
two columns make it. So the record and its snapshot hold what was bound exactly where the setter
leaves it alone. -/
theorem destroy_records_mark (s : Session σ) {r : Record} {column : String} (w : σ)
    (hhooks : NoHooks s r.schema) (hcolumn : r.schema.softDelete = some column)
    (hold : r.persisted = true) {e : Event σ} (he : e = Call.event s (.destroy false) r w)
    (hok : ∃ b, e.outcome = .ok b) :
    ∃ key mark, r.Addresses r key ∧ e.Records s column key mark ∧
      ∀ name v, mark.get? name = some v →
        (e.after.get? name = some v ∧ e.after.snapshot.get? name = some v ↔
          r.schema.setValue name v = v) := by
  subst he
  obtain ⟨key, hkey⟩ := storedKey?_of_destroyed hhooks hold hok
  have hrecords := event_records hhooks hcolumn hold hkey hok
  refine ⟨key, _, (addresses_iff (Edited.refl r)).mpr hkey, hrecords, ?_⟩
  intro name v hv
  obtain ⟨hcurrent, hsnapshot⟩ := hrecords.recorded name v hv
  rw [hcurrent, hsnapshot, and_self]
  exact Option.some_inj

end Events

/-! ### An essay whose moment of deletion is kept in lower case -/

def lowerText : Value → Value
  | .text s => .text (Text.lower s)
  | v => v

def trimText : Value → Value
  | .text s => .text (Text.trim s)
  | v => v

def plainEssays : Schema :=
  { essays with setters := .ofList [("deleted_at", lowerText), ("updated_at", trimText)] }

def plainEssay : Record := hydrate plainEssays essayRow

def discarding : Event Script := Call.event essaySession (.destroy false) plainEssay noEssays

theorem destroy_records_mark_plainEssays :
    NoHooks essaySession plainEssays ∧ plainEssays.softDelete = some "deleted_at" ∧
    plainEssay.persisted = true ∧ (∃ b, discarding.outcome = .ok b) ∧
    plainEssays.setters.names = ["deleted_at", "updated_at"] ∧
    ∃ key mark, discarding.Records essaySession "deleted_at" key mark ∧
      mark.get? "updated_at" = some (essaySession.moment noEssays) ∧
      discarding.after.get? "updated_at" = some (essaySession.moment noEssays) ∧
      discarding.after.snapshot.get? "updated_at" = some (essaySession.moment noEssays) := by
  have hhooks : NoHooks essaySession plainEssays := noHooks_of_registry (g := .empty) rfl nofun rfl
  have hok : ∃ b, discarding.outcome = .ok b := ⟨_, rfl⟩
  have hnames : plainEssays.setters.names = ["deleted_at", "updated_at"] := by decide +kernel
  obtain ⟨key, mark, -, hrecords, hkept⟩ := destroy_records_mark essaySession (r := plainEssay)
    noEssays hhooks rfl rfl (e := discarding) rfl hok
  have hbound : mark.get? "updated_at" = some (essaySession.moment noEssays) :=
    (hrecords.columns _ _).mpr ⟨List.mem_cons_of_mem _ (List.mem_singleton.mpr rfl), rfl⟩
  have htrimmed : plainEssays.setValue "updated_at" (essaySession.moment noEssays) =
      essaySession.moment noEssays := rfl
  exact ⟨hhooks, rfl, rfl, hok, hnames, key, mark, hrecords, hbound, (hkept _ _ hbound).mpr htrimmed⟩

/-- The moment of deletion is bound with capital letters, and the record and its snapshot hold it
with small ones. -/
theorem setter_parts_mark :
    discarding.outcome = .ok true ∧
    discarding.sent = [⟨.execute ⟨"UPDATE \"essays\" SET \"deleted_at\" = ?, " ++
        "\"updated_at\" = ? WHERE \"id\" = ?",
      [.text "1970-01-01T00:00:00.000Z", .text "1970-01-01T00:00:00.000Z", .int64 1]⟩, none⟩] ∧
    (discarding.after.get? "deleted_at").bind Value.text? = some "1970-01-01t00:00:00.000z" ∧
    (discarding.after.snapshot.get? "deleted_at").bind Value.text? =
      some "1970-01-01t00:00:00.000z" ∧
    "1970-01-01t00:00:00.000z" ≠ "1970-01-01T00:00:00.000Z" :=
  ⟨rfl, rfl, by decide +kernel, by decide +kernel, by decide⟩

end Record

end RecordMapper
