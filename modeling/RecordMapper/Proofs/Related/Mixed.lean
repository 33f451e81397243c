import RecordMapper.Proofs.NameMap
import RecordMapper.Proofs.Related.Level

/-!
Loading one relation of records of several tables.

* The records are loaded table by table; each table has the schema of one of its records
  (`exists_get?_tables`).
* `loadRelation_ok` says what every record holds when all of them are loaded: what the batch of its
  table found for it.
-/
namespace RecordMapper

set_option autoImplicit false

namespace Record

/-! ## Tables -/

theorem ascending_tables (records : List Record) : Assoc.Ascending (tables records) :=
  Assoc.ascending_insertAll _ List.Pairwise.nil

theorem exists_get?_tables {records : List Record} {p : Record} (hp : p ∈ records) :
    ∃ q ∈ records, q.schema.table = p.schema.table ∧
      Assoc.get? p.schema.table (tables records) = some q.schema := by
  have hpair : ∃ e ∈ records.reverse.map fun r => (r.schema.table, r.schema),
      e.1 = p.schema.table :=
    ⟨_, List.mem_map.mpr ⟨p, List.mem_reverse.mpr hp, rfl⟩, rfl⟩
  obtain ⟨e, he, htable, hget⟩ := Assoc.exists_get?_insertAll hpair []
  obtain ⟨q, hq, rfl⟩ := List.mem_map.mp he
  exact ⟨q, List.mem_reverse.mp hq, htable, hget⟩

section SetMatches

variable {table other : String} {r : Relation} {m : Matches} {records : List Record}

/-- Records of other tables are left alone. -/
theorem ofTable_setMatches (h : other ≠ table) :
    ofTable other (setMatches table r m records) = ofTable other records := by
  induction records with
  | nil => rfl
  | cons p rest ih =>
    have hcons : setMatches table r m (p :: rest) =
        (if p.schema.table = table then p.setRelation r.name (m.loaded (r.parentKey? p)) else p) ::
          setMatches table r m rest := rfl
    rw [hcons]
    unfold ofTable at ih ⊢
    rw [List.filter_cons, List.filter_cons, ih]
    by_cases htable : p.schema.table = table
    · have hne : p.schema.table ≠ other := fun heq => h (heq.symm.trans htable)
      have hset : (p.setRelation r.name (m.loaded (r.parentKey? p))).schema.table ≠ other := hne
      rw [if_pos htable]
      simp only [decide_eq_true_eq, if_neg hne, if_neg hset]
    · rw [if_neg htable]

theorem getElem?_setMatches (table : String) (r : Relation) (m : Matches) {i : Nat} {p : Record}
    (hp : records[i]? = some p) :
    (setMatches table r m records)[i]? =
      some (if p.schema.table = table then p.setRelation r.name (m.loaded (r.parentKey? p))
        else p) := by
  unfold setMatches
  rw [List.getElem?_map, hp]
  rfl

end SetMatches

end Record

/-! ## Runs -/

section Runs

variable {σ : Type} {s : Session σ} {name : String}

/-- `p'` is `p` with what the batch of its table found for it among the `records`. -/
def Record.Receives (s : Session σ) (name : String) (schema : Schema) (records : List Record)
    (p p' : Record) : Prop :=
  ∃ r m w w', schema.relation name = .ok r ∧
    (r.batch s schema (Record.ofTable p.schema.table records)).run w = (.ok m, w') ∧
    p' = p.setRelation name (m.loaded (r.parentKey? p))

theorem loadTables_cons_ok {table : String} {schema : Schema} {rest : List (String × Schema)}
    {records records' : List Record} {w w' : σ}
    (h : ((s.loadTables name ((table, schema) :: rest)).runOn records).run w =
      ((.ok (), records'), w')) :
    ∃ r m w₁, schema.relation name = .ok r ∧
      (r.batch s schema (Record.ofTable table records)).run w = (.ok m, w₁) ∧
      ((s.loadTables name rest).runOn (Record.setMatches table r m records)).run w₁ =
        ((.ok (), records'), w') := by
  unfold Session.loadTables at h
  obtain ⟨r, records₁, w₁, hr, h⟩ := Change.ok_of_run_bind h
  have hname := Change.ok_of_ofResult hr
  rw [hname] at hr
  cases hr
  obtain ⟨records₂, records₃, w₂, hcurrent, h⟩ := Change.ok_of_run_bind h
  cases hcurrent
  obtain ⟨m, records₄, w₃, hbatch, h⟩ := Change.ok_of_run_bind h
  rw [Change.run_ofAction] at hbatch
  obtain ⟨u, records₅, w₄, hmodify, h⟩ := Change.ok_of_run_bind h
  cases hmodify
  rcases hrun : (r.batch s schema (Record.ofTable table records)).run w with ⟨o, w₅⟩
  rw [hrun] at hbatch
  cases hbatch
  exact ⟨r, m, _, hname, hrun, h⟩

/-- Every record of one of the tables receives what is found for it, and the other records stay as
they are. -/
theorem loadTables_ok {tables : List (String × Schema)} (hascending : Assoc.Ascending tables)
    {records records' : List Record} {w w' : σ}
    (h : ((s.loadTables name tables).runOn records).run w = ((.ok (), records'), w')) {i : Nat}
    {p : Record} (hp : records[i]? = some p) :
    ∃ p', records'[i]? = some p' ∧
      match Assoc.get? p.schema.table tables with
      | some schema => Record.Receives s name schema records p p'
      | none => p' = p := by
  induction tables generalizing records w p with
  | nil =>
    cases h
    exact ⟨p, hp, rfl⟩
  | cons e rest ih =>
    obtain ⟨table, schema⟩ := e
    obtain ⟨hless, hrest⟩ := List.pairwise_cons.mp hascending
    obtain ⟨r, m, w₁, hname, hbatch, hothers⟩ := loadTables_cons_ok h
    have hset := Record.getElem?_setMatches table r m hp
    rw [Assoc.get?]
    by_cases htable : p.schema.table = table
    · rw [if_pos htable] at hset
      obtain ⟨p', hp', hkept⟩ := ih hrest hothers hset
      -- The names ascend, so the table does not come again.
      have hnone : Assoc.get? p.schema.table rest = none :=
        Assoc.get?_eq_none fun e he => htable ▸ hless e he
      have hlast : p' = p.setRelation r.name (m.loaded (r.parentKey? p)) := by
        have hsame : (p.setRelation r.name (m.loaded (r.parentKey? p))).schema.table =
          p.schema.table := rfl
        rw [hsame, hnone] at hkept
        exact hkept
      rw [relation_name hname] at hlast
      refine ⟨p', hp', ?_⟩
      rw [if_pos htable]
      exact ⟨r, m, w, w₁, hname, htable ▸ hbatch, hlast⟩
    · rw [if_neg htable] at hset
      obtain ⟨p', hp', hkept⟩ := ih hrest hothers hset
      refine ⟨p', hp', ?_⟩
      rw [if_neg htable]
      cases hget : Assoc.get? p.schema.table rest with
      | none =>
        rw [hget] at hkept
        exact hkept
      | some other =>
        rw [hget] at hkept
        obtain ⟨r', m', w₂, w₃, hname', hbatch', hreceived⟩ := hkept
        rw [Record.ofTable_setMatches htable] at hbatch'
        exact ⟨r', m', w₂, w₃, hname', hbatch', hreceived⟩

/-- When one relation is loaded, every record receives what is found for it by the schema that its
table is listed with. -/
theorem load_single_receives {paths : List String}
    (hpaths : PathForest.read paths = .ok (.relation name .none .none))
    {records records' : List Record} {w w' : σ}
    (h : ((s.load paths).runOn records).run w = ((.ok (), records'), w')) {i : Nat} {p : Record}
    (hp : records[i]? = some p) {schema : Schema}
    (hschema : Assoc.get? p.schema.table (Record.tables records) = some schema) :
    ∃ p₁ p', Record.Receives s name schema records p p₁ ∧ records'[i]? = some p' ∧
      p'.relation? name = p₁.relation? name := by
  have hforest : ((s.loadForest (.relation name .none .none)).runOn records).run w =
      ((.ok (), records'), w') := by
    unfold Session.load at h
    rw [hpaths, Change.run_bind_ok (b := PathForest.relation name .none .none) rfl] at h
    exact h
  unfold Session.loadForest at hforest
  obtain ⟨u, loaded, w₁, hrelation, -⟩ := Change.ok_of_run_bind hforest
  rw [load_single_run hpaths hrelation] at h
  cases h
  obtain ⟨p₁, hp₁, hreceives⟩ := loadTables_ok (Record.ascending_tables records) hrelation hp
  rw [hschema] at hreceives
  -- Going through what was reached changes no cache.
  have hcaches := congrArg (fun ls => ls[i]?) (Record.putReached_reached name loaded)
  simp only [List.getElem?_map, hp₁, Option.map_some] at hcaches
  obtain ⟨p', hp', hsame⟩ := Option.map_eq_some_iff.mp hcaches
  exact ⟨p₁, p', hreceives, hp', hsame⟩

/-- The schema is that of a record of the same table. -/
theorem load_single_ok {paths : List String}
    (hpaths : PathForest.read paths = .ok (.relation name .none .none))
    {records records' : List Record} {w w' : σ}
    (h : ((s.load paths).runOn records).run w = ((.ok (), records'), w')) {i : Nat} {p : Record}
    (hp : records[i]? = some p) :
    ∃ q ∈ records, q.schema.table = p.schema.table ∧ ∃ p₁ p',
      Record.Receives s name q.schema records p p₁ ∧ records'[i]? = some p' ∧
      p'.relation? name = p₁.relation? name := by
  obtain ⟨q, hq, htable, hget⟩ := Record.exists_get?_tables (List.mem_of_getElem? hp)
  exact ⟨q, hq, htable, load_single_receives hpaths h hp hget⟩

end Runs

end RecordMapper
