import Mathlib.Data.List.Forall2
import RecordMapper.Proofs.Related.Level

/-!
Records that are reached through loaded relations.

* `Record.along` are the records at the end of a path of relations.
* `Record.Keeps` says that a record is the same but for some of its relations.
* What is put back through a relation is what the relation reaches afterwards
  (`reached_putReached`), and nothing else of the records changes (`keeps_putReached`).
-/
namespace RecordMapper

set_option autoImplicit false

namespace Loaded

theorem replace_eq (l : Loaded) {found : List Record} (h : l.size ≤ found.length) :
    (l.replace found).1.records = found.take l.size ∧
      (l.replace found).2 = found.drop l.size := by
  cases l with
  | one record =>
    cases record with
    | none => exact ⟨rfl, rfl⟩
    | some record =>
      cases found with
      | nil => exact absurd h (Nat.not_succ_le_zero _)
      | cons first rest => exact ⟨rfl, rfl⟩
  | many records => exact ⟨rfl, rfl⟩

end Loaded

namespace Record

/-! ## Paths through records -/

/-- The records at the end of a path. -/
def along : List String → List Record → List Record
  | [], records => records
  | name :: path, records => along path (reached name records)

theorem along_nil (path : List String) : along path [] = [] := by
  induction path with
  | nil => rfl
  | cons name path ih => exact ih

/-! ## The same record with other relations -/

/-- The same record, but for the relations of these names. -/
structure Keeps (names : List String) (r r' : Record) : Prop where
  schema : r'.schema = r.schema
  attributes : r'.attributes = r.attributes
  snapshot : r'.snapshot = r.snapshot
  persisted : r'.persisted = r.persisted
  relation : ∀ name, name ∉ names → r'.relation? name = r.relation? name

theorem Keeps.refl (names : List String) (r : Record) : r.Keeps names r :=
  ⟨rfl, rfl, rfl, rfl, fun _ _ => rfl⟩

theorem Keeps.trans {names more : List String} {r r' r'' : Record} (h : r.Keeps names r')
    (h' : r'.Keeps more r'') : r.Keeps (names ++ more) r'' where
  schema := h'.schema.trans h.schema
  attributes := h'.attributes.trans h.attributes
  snapshot := h'.snapshot.trans h.snapshot
  persisted := h'.persisted.trans h.persisted
  relation := by
    intro name hname
    rw [List.mem_append, not_or] at hname
    exact (h'.relation name hname.2).trans (h.relation name hname.1)

theorem Keeps.mono {names more : List String} {r r' : Record} (h : r.Keeps names r')
    (hsub : ∀ name ∈ names, name ∈ more) : r.Keeps more r' :=
  ⟨h.schema, h.attributes, h.snapshot, h.persisted,
    fun name hname => h.relation name fun hmem => hname (hsub name hmem)⟩

theorem keeps_setRelation (r : Record) (name : String) (l : Loaded) :
    r.Keeps [name] (r.setRelation name l) := by
  refine ⟨rfl, rfl, rfl, rfl, fun other hother => ?_⟩
  unfold relation? setRelation
  rw [Assoc.get?_insert, if_neg fun h => hother (List.mem_singleton.mpr h)]

theorem Keeps.value {names : List String} {r r' : Record} (h : r.Keeps names r') (name : String) :
    r'.value name = r.value name := by
  unfold Record.value Record.get?
  rw [h.attributes]

theorem Keeps.relatedRecords {names : List String} {r r' : Record} (h : r.Keeps names r')
    {name : String} (hname : name ∉ names) : r'.relatedRecords name = r.relatedRecords name := by
  unfold Record.relatedRecords
  rw [h.relation name hname]

section Records

variable {names more : List String} {records records' records'' : List Record}

theorem forall₂_keeps_trans (h : List.Forall₂ (Keeps names) records records')
    (h' : List.Forall₂ (Keeps more) records' records'') :
    List.Forall₂ (Keeps (names ++ more)) records records'' := by
  induction h generalizing records'' with
  | nil =>
    cases h'
    exact .nil
  | cons hfirst _ ih =>
    cases h' with
    | cons hsecond hrest => exact .cons (hfirst.trans hsecond) (ih hrest)

theorem forall₂_keeps_mono (h : List.Forall₂ (Keeps names) records records')
    (hsub : ∀ name ∈ names, name ∈ more) : List.Forall₂ (Keeps more) records records' :=
  h.imp fun _ _ hkeeps => hkeeps.mono hsub

theorem reached_of_keeps (h : List.Forall₂ (Keeps names) records records') {name : String}
    (hname : name ∉ names) : reached name records' = reached name records := by
  induction h with
  | nil => rfl
  | cons hfirst _ ih =>
    unfold reached at ih ⊢
    rw [List.flatMap_cons, List.flatMap_cons, hfirst.relatedRecords hname, ih]

theorem isSome_of_keeps (h : List.Forall₂ (Keeps names) records records') {name : String}
    (hname : name ∉ names) (hsome : ∀ r ∈ records, (r.relation? name).isSome = true) :
    ∀ r ∈ records', (r.relation? name).isSome = true := by
  induction h with
  | nil => exact hsome
  | cons hfirst _ ih =>
    intro r hr
    rcases List.mem_cons.mp hr with rfl | hr
    · rw [hfirst.relation name hname]
      exact hsome _ (List.mem_cons_self ..)
    · exact ih (fun q hq => hsome q (List.mem_cons_of_mem _ hq)) r hr

theorem forall₂_keeps_refl (names : List String) (records : List Record) :
    List.Forall₂ (Keeps names) records records := by
  induction records with
  | nil => exact .nil
  | cons r rest ih => exact .cons (Keeps.refl names r) ih

theorem keeps_map_setRelation (name : String) (f : Record → Loaded) (records : List Record) :
    List.Forall₂ (Keeps [name]) records (records.map fun r => r.setRelation name (f r)) := by
  induction records with
  | nil => exact .nil
  | cons r rest ih => exact .cons (keeps_setRelation r name (f r)) ih

theorem schema_of_keeps (h : List.Forall₂ (Keeps names) records records') {schema : Option Schema}
    (hschema : ∀ p ∈ records, schema = some p.schema) : ∀ p ∈ records', schema = some p.schema := by
  induction h with
  | nil => exact hschema
  | cons hfirst _ ih =>
    intro p hp
    rcases List.mem_cons.mp hp with rfl | hp
    · rw [hfirst.schema]
      exact hschema _ (List.mem_cons_self ..)
    · exact ih (fun q hq => hschema q (List.mem_cons_of_mem _ hq)) p hp

end Records

/-! ## Putting records back -/

section PutReached

variable {name : String}

theorem length_reached_cons (r : Record) (rest : List Record) :
    (reached name (r :: rest)).length =
      (r.relatedRecords name).length + (reached name rest).length := by
  unfold reached
  rw [List.flatMap_cons, List.length_append]

theorem relatedRecords_some {r : Record} {l : Loaded} (h : r.relation? name = some l) :
    r.relatedRecords name = l.records := by
  unfold relatedRecords
  rw [h]
  rfl

theorem relatedRecords_none {r : Record} (h : r.relation? name = none) :
    r.relatedRecords name = [] := by
  unfold relatedRecords
  rw [h]
  rfl

/-- What was put back is reached again. -/
theorem reached_putReached {records found : List Record}
    (h : found.length = (reached name records).length) :
    reached name (putReached name records found) = found := by
  induction records generalizing found with
  | nil => exact (List.length_eq_zero_iff.mp h).symm
  | cons r rest ih =>
    rw [length_reached_cons] at h
    cases hrelation : r.relation? name with
    | none =>
      rw [relatedRecords_none hrelation, List.length_nil, Nat.zero_add] at h
      have hput : putReached name (r :: rest) found = r :: putReached name rest found := by
        simp only [putReached, hrelation]
      have htail := ih h
      unfold reached at htail ⊢
      rw [hput, List.flatMap_cons, relatedRecords_none hrelation, List.nil_append, htail]
    | some l =>
      rw [relatedRecords_some hrelation] at h
      have hsize : l.size ≤ found.length := by
        rw [h]
        exact Nat.le_add_right _ _
      obtain ⟨htaken, hleft⟩ := l.replace_eq hsize
      have hput : putReached name (r :: rest) found =
          r.setRelation name (l.replace found).1 :: putReached name rest (l.replace found).2 := by
        simp only [putReached, hrelation]
      have hlength : (l.replace found).2.length = (reached name rest).length := by
        rw [hleft, List.length_drop, h]
        exact Nat.add_sub_cancel_left _ _
      have htail := ih hlength
      unfold reached at htail ⊢
      rw [hput, List.flatMap_cons, relatedRecords_some (relation?_setRelation r name _), htail,
        htaken, hleft, List.take_append_drop]

theorem keeps_putReached (records found : List Record) :
    List.Forall₂ (Keeps [name]) records (putReached name records found) := by
  induction records generalizing found with
  | nil => exact .nil
  | cons r rest ih =>
    cases hrelation : r.relation? name with
    | none =>
      simp only [putReached, hrelation]
      exact .cons (Keeps.refl [name] r) (ih found)
    | some l =>
      simp only [putReached, hrelation]
      exact .cons (keeps_setRelation r name _) (ih _)

theorem isSome_putReached {records : List Record} (found : List Record)
    (h : ∀ r ∈ records, (r.relation? name).isSome = true) :
    ∀ r ∈ putReached name records found, (r.relation? name).isSome = true := by
  induction records generalizing found with
  | nil => exact fun _ hr => absurd hr List.not_mem_nil
  | cons r rest ih =>
    have hrest := fun q hq => h q (List.mem_cons_of_mem r hq)
    cases hrelation : r.relation? name with
    | none =>
      have hfirst := h r (List.mem_cons_self ..)
      rw [hrelation] at hfirst
      cases hfirst
    | some l =>
      simp only [putReached, hrelation]
      intro q hq
      rcases List.mem_cons.mp hq with rfl | hq
      · rw [relation?_setRelation]
        rfl
      · exact ih _ hrest q hq

end PutReached

end Record

end RecordMapper
