import RecordMapper.Proofs.NameMap
import RecordMapper.Proofs.Record.Saving
import RecordMapper.Proofs.Value.Sameness

/-!
What a record tells about its unsaved changes.

* `Record.Edit` is any function that changes a record in memory; `Record.edits` runs a list of them.
* `Record.Covers`: the record has every attribute that the snapshot has. A new record and one that was
  read do, and every edit keeps it (`Covers.edit`).
* The dirty attributes are those that were changed or added. An attribute that was lost would be dirty
  by itself, but not among them, so `Covers` is what makes the two agree (`isAttributeDirty_iff`).
-/
namespace RecordMapper

set_option autoImplicit false

namespace Record

/-! ## Edits -/

inductive Edit where
  | set (name : String) (v : Value)
  | fill (data : List (String × Value))
  | forceFill (data : List (String × Value))
  | sync
  | syncAttributes (attributes : List String)
  | markPersisted
  | markDeleted
  | refill (row : Row)
  | setRelation (name : String) (l : Loaded)
  | takeRelation (name : String)

def edit (r : Record) : Edit → Record
  | .set name v => r.set name v
  | .fill data => r.fill data
  | .forceFill data => r.forceFill data
  | .sync => r.sync
  | .syncAttributes attributes => r.syncAttributes attributes
  | .markPersisted => r.markPersisted
  | .markDeleted => r.markDeleted
  | .refill row => r.refill row
  | .setRelation name l => r.setRelation name l
  | .takeRelation name => (r.takeRelation name).2

def edits (r : Record) (es : List Edit) : Record := es.foldl edit r

/-- A record as it is made: without a row, or of a row that was read. -/
inductive Begun : Record → Prop where
  | new (schema : Schema) : Begun (.new schema)
  | hydrate (schema : Schema) (row : Row) : Begun (.hydrate schema row)

/-! ## Attributes of the snapshot -/

/-- No attribute of the snapshot is lost. -/
def Covers (r : Record) : Prop :=
  ∀ name, (r.snapshot.get? name).isSome = true → (r.get? name).isSome = true

variable {r r' : Record}

theorem covers_of_sync (h : r.snapshot = r.attributes) : r.Covers := by
  intro name hname
  rw [h] at hname
  exact hname

theorem Begun.covers (h : r.Begun) : r.Covers := by
  cases h with
  | new schema => exact covers_of_sync rfl
  | hydrate schema row => exact covers_of_sync rfl

theorem Covers.edited (h : r.Covers) (he : r.Edited r') : r'.Covers := by
  intro name hname
  rw [he.snapshot] at hname
  exact he.keeps name (h name hname)

/-- What is taken into the snapshot is an attribute, and what is none leaves the snapshot. -/
theorem Covers.syncAttribute (h : r.Covers) (name : String) : (r.syncAttribute name).Covers := by
  intro other hother
  unfold Record.syncAttribute at hother ⊢
  cases hget : r.get? name with
  | some v =>
    rw [hget] at hother
    have hother : ((r.snapshot.insert name v).get? other).isSome = true := hother
    rw [NameMap.get?_insert] at hother
    by_cases heq : other = name
    · subst heq
      exact Option.isSome_of_eq_some hget
    · rw [if_neg heq] at hother
      exact h other hother
  | none =>
    rw [hget] at hother
    have hother : ((r.snapshot.erase name).get? other).isSome = true := hother
    rw [NameMap.get?_erase] at hother
    by_cases heq : other = name
    · rw [if_pos heq] at hother
      cases hother
    · rw [if_neg heq] at hother
      exact h other hother

theorem Covers.syncAttributes (h : r.Covers) (attributes : List String) :
    (r.syncAttributes attributes).Covers := by
  unfold Record.syncAttributes
  induction attributes generalizing r with
  | nil => exact h
  | cons name rest ih => exact ih (h.syncAttribute name)

theorem Covers.edit (h : r.Covers) (e : Edit) : (r.edit e).Covers := by
  cases e with
  | set name v => exact h.edited (edited_set r name v)
  | fill data => exact h.edited (edited_fill r data)
  | forceFill data => exact h.edited (edited_forceFill r data)
  | sync => exact covers_of_sync rfl
  | syncAttributes attributes => exact h.syncAttributes attributes
  | markPersisted => exact covers_of_sync rfl
  | refill row => exact covers_of_sync rfl
  -- The others leave attributes and snapshot alone.
  | markDeleted => exact h
  | setRelation name l => exact h
  | takeRelation name => exact h

theorem Covers.edits (h : r.Covers) (es : List Edit) : (r.edits es).Covers := by
  unfold Record.edits
  induction es generalizing r with
  | nil => exact h
  | cons e rest ih => exact ih (h.edit e)

/-! ## Dirty attributes -/

theorem get?_dirty (r : Record) (name : String) :
    r.dirty.get? name = (r.get? name).filter (differs r.snapshot name) :=
  NameMap.get?_filter r.attributes (differs r.snapshot) name

theorem get?_dirty_eq_some {name : String} {v : Value} :
    r.dirty.get? name = some v ↔ r.get? name = some v ∧ differs r.snapshot name v = true := by
  rw [get?_dirty, Option.filter_eq_some_iff]

theorem get?_of_dirty {name : String} {v : Value} (h : r.dirty.get? name = some v) :
    r.get? name = some v :=
  (get?_dirty_eq_some.mp h).1

theorem isDirty_iff_mem : r.isDirty = true ↔ ∃ name, name ∈ r.dirty.names := by
  have hempty : r.dirty.isEmpty = r.dirty.names.isEmpty := List.isEmpty_map.symm
  unfold isDirty
  rw [hempty, Bool.not_eq_true', List.isEmpty_eq_false_iff_exists_mem]

theorem isDirty_iff :
    r.isDirty = true ↔ ∃ name v, r.get? name = some v ∧ differs r.snapshot name v = true := by
  simp only [isDirty_iff_mem, NameMap.mem_names_iff, get?_dirty_eq_some]

/-- One attribute is compared with the snapshot as all of them are, unless it was lost. -/
theorem isAttributeDirty_iff (h : r.Covers) (name : String) :
    r.isAttributeDirty name = true ↔ name ∈ r.dirty.names := by
  rw [NameMap.mem_names_iff]
  simp only [get?_dirty_eq_some]
  cases hcurrent : r.get? name with
  | none =>
    have hsnapshot : r.snapshot.get? name = none := by
      cases hold : r.snapshot.get? name with
      | none => rfl
      | some old =>
        have hlost := h name (Option.isSome_of_eq_some hold)
        rw [hcurrent] at hlost
        cases hlost
    simp [isAttributeDirty, hcurrent, hsnapshot]
  | some v =>
    cases hold : r.snapshot.get? name with
    | none => simp [isAttributeDirty, differs, hcurrent, hold]
    | some old => simp [isAttributeDirty, differs, hcurrent, hold, Value.same_comm v old]

/-- The snapshot has no other attributes than the record, and all questions about what is dirty have
one answer. -/
structure Consistent (r : Record) : Prop where
  covered : r.snapshot.names ⊆ r.attributes.names
  dirty : ∀ name, r.isAttributeDirty name = true ↔ name ∈ r.dirty.names
  anyDirty : r.isDirty = true ↔ ∃ name, r.isAttributeDirty name = true
  current : ∀ name v, r.dirty.get? name = some v → r.get? name = some v

theorem Covers.consistent (h : r.Covers) : r.Consistent where
  covered := by
    intro name hname
    obtain ⟨old, hold⟩ := NameMap.mem_names_iff.mp hname
    exact NameMap.mem_names_iff.mpr
      (Option.isSome_iff_exists.mp (h name (Option.isSome_of_eq_some hold)))
  dirty := isAttributeDirty_iff h
  anyDirty := by
    rw [isDirty_iff_mem]
    exact exists_congr fun name => (isAttributeDirty_iff h name).symm
  current := fun _ _ => get?_of_dirty

/-- However a record was edited, what it tells about its changes is consistent. -/
theorem edits_consistent {start : Record} (h : start.Begun) (es : List Edit) :
    (start.edits es).Consistent :=
  (h.covers.edits es).consistent

/-! ### A member who moves -/

def member : Record :=
  .hydrate (.plain "members") ⟨["id", "name", "town"], [.int32 1, .text "Ada", .text "Paris"]⟩

/-- The name is spelled otherwise, the key gets another width, and an attribute that was never read is
taken into the snapshot. -/
def move : List Edit :=
  [.set "name" (.text "Ada L."), .set "id" (.int64 1), .forceFill [("town", .text "Rome")],
    .syncAttributes ["town", "street"], .takeRelation "posts"]

theorem edits_consistent_move :
    member.Begun ∧ (member.edits move).Consistent ∧ (member.edits move).dirty.names = ["name"] ∧
      (member.edits move).isAttributeDirty "name" = true := by
  have hbegun : member.Begun := .hydrate _ _
  have hconsistent := edits_consistent hbegun move
  have hdirty : (member.edits move).dirty.names = ["name"] := by decide +kernel
  refine ⟨hbegun, hconsistent, hdirty, (hconsistent.dirty "name").mpr ?_⟩
  rw [hdirty]
  exact List.mem_singleton.mpr rfl

end Record

end RecordMapper
