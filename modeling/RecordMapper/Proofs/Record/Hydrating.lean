import RecordMapper.Proofs.Record.Trashing

/-!
What a record that was just read has to save.

* `Row.PlainAs`: no value of a row, as a schema casts it, is NaN or holds one.
* `hydrate_clean_iff`: exactly then a record that was just read is clean, and a save sends nothing. A
  NaN differs from itself, and is written back with every save (`nan_saved_again`).
-/
namespace RecordMapper

set_option autoImplicit false

variable {σ : Type}

/-- No attribute that the row gives holds a NaN once it is cast. -/
def Row.PlainAs (row : Row) (schema : Schema) : Prop :=
  ∀ name v, (Record.castRow schema row).get? name = some v → v.hasNan = false

namespace Record

section Synced

variable {r : Record}

/-- A value that is compared with itself differs exactly if it holds a NaN. -/
theorem differs_self {snapshot : Attributes} {name : String} {v : Value}
    (h : snapshot.get? name = some v) : differs snapshot name v = v.hasNan := by
  unfold differs
  rw [h, Bool.eq_iff_iff, Bool.not_eq_true', Bool.eq_false_iff, Ne, Value.same_self_iff,
    Bool.not_eq_false]

theorem clean_iff_of_synced (h : r.snapshot = r.attributes) :
    r.isDirty = false ↔ ∀ name v, r.attributes.get? name = some v → v.hasNan = false := by
  rw [Bool.eq_false_iff, Ne, isDirty_iff]
  constructor
  · intro hclean name v hv
    rw [← differs_self hv, ← h, Bool.eq_false_iff]
    exact fun hdiffers => hclean ⟨name, v, hv, hdiffers⟩
  · rintro hplain ⟨name, v, hv, hdiffers⟩
    rw [h, differs_self hv, hplain name v hv] at hdiffers
    cases hdiffers

end Synced

section Events

variable {s : Session σ} {r : Record} {w : σ}

/-- A save is idle exactly if nothing is dirty. -/
theorem event_idle_iff (hhooks : NoHooks s r.schema) (hold : r.persisted = true) :
    (Call.event s .save r w).outcome = .ok false ∧ (Call.event s .save r w).sent = [] ↔
      r.isDirty = false := by
  constructor
  · rintro ⟨houtcome, -⟩
    refine Bool.eq_false_iff.mpr fun hdirty => ?_
    obtain ⟨o, hattempted⟩ := event_attempted (c := .save)
      (save_attempts_update hhooks (w, []) hold hdirty)
    have hwrites := hattempted.outcome
    rw [houtcome] at hwrites
    cases o with
    | error stop => cases hwrites
    | ok report => cases hwrites
  · intro hclean
    refine event_idle hhooks hold ?_
    unfold isDirty at hclean
    simpa using hclean

/-- A record that was just read, or read again, is clean exactly if what it was given holds no NaN.
Exactly then a save of it sends nothing. -/
theorem hydrate_clean_iff (s : Session σ) (schema : Schema) (row : Row) (w : σ)
    (hhooks : NoHooks s schema) :
    ((hydrate schema row).isDirty = false ↔ row.PlainAs schema) ∧
      (∀ r : Record, r.schema = schema →
        ((r.refill row).isDirty = false ↔ row.PlainAs schema)) ∧
      ((Call.event s .save (hydrate schema row) w).outcome = .ok false ∧
        (Call.event s .save (hydrate schema row) w).sent = [] ↔ row.PlainAs schema) := by
  have hfresh : (hydrate schema row).isDirty = false ↔ row.PlainAs schema :=
    clean_iff_of_synced (r := hydrate schema row) rfl
  refine ⟨hfresh, ?_, (event_idle_iff hhooks rfl).trans hfresh⟩
  rintro r rfl
  exact clean_iff_of_synced (r := r.refill row) rfl

end Events

/-! ### Readings of an instrument -/

def readings : Schema := { Schema.plain "readings" with casts := .ofList [("level", .float)] }

/-- Zero with a minus sign, and a list of values of several types. -/
def quietRow : Row :=
  .ofPairs [("id", .int64 1), ("level", .text "x"), ("level", .text "-0"),
    ("series", .array [.single ⟨0x7F800000⟩, .null, .default])]

/-- The cast makes a NaN of the text. -/
def brokenRow : Row := .ofPairs [("id", .int64 1), ("level", .text "nan")]

def checking (row : Row) : Event Script :=
  Call.event essaySession .save (hydrate readings row) noEssays

theorem hydrate_clean_iff_readings :
    NoHooks essaySession readings ∧ (hydrate readings quietRow).isDirty = false ∧
    quietRow.PlainAs readings ∧ ((hydrate readings brokenRow).refill quietRow).isDirty = false ∧
    (checking quietRow).outcome = .ok false ∧ (checking quietRow).sent = [] := by
  have hhooks : NoHooks essaySession readings := noHooks_of_registry (g := .empty) rfl nofun rfl
  have hclean : (hydrate readings quietRow).isDirty = false := by decide +kernel
  obtain ⟨hfresh, hrefilled, hsaved⟩ :=
    hydrate_clean_iff essaySession readings quietRow noEssays hhooks
  have hplain : quietRow.PlainAs readings := hfresh.mp hclean
  exact ⟨hhooks, hclean, hplain, (hrefilled _ rfl).mpr hplain, hsaved.mpr hplain⟩

/-- A record that was read with a NaN is dirty at once. A save writes the NaN, and the record is dirty
again. -/
theorem nan_saved_again :
    (hydrate readings brokenRow).isDirty = true ∧
    (checking brokenRow).sent = [⟨.execute ⟨"UPDATE \"readings\" SET \"level\" = ? WHERE \"id\" = ?",
      [.double .nan, .int64 1]⟩, none⟩] ∧
    (checking brokenRow).outcome = .ok true ∧ (checking brokenRow).after.isDirty = true :=
  ⟨by decide +kernel, rfl, rfl, by decide +kernel⟩

end Record

end RecordMapper
