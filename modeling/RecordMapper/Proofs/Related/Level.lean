import RecordMapper.Proofs.Session.Action
import RecordMapper.Related.Loading

/-!
Loading one relation of records of one schema.

* `loadRelation_run` says what the records hold once the batch has been read, and
  `loadRelation_run_error` that a batch that fails leaves them as they were. So does a relation that
  is not declared (`loadRelation_run_missing`).
* Going through the records a relation reaches leaves what they hold (`putReached_reached`).
-/
namespace RecordMapper

set_option autoImplicit false

/-! ## Records of one schema -/

namespace Record

theorem insertAll_replicate {α : Type} (name : String) (value : α) (n : Nat) :
    Assoc.insertAll [(name, value)] (List.replicate n (name, value)) = [(name, value)] := by
  induction n with
  | zero => rfl
  | succ n ih =>
    have hinsert : Assoc.insert name value [(name, value)] = [(name, value)] := by
      simp [Assoc.insert]
    rw [List.replicate_succ]
    show Assoc.insertAll (Assoc.insert name value [(name, value)]) _ = _
    rw [hinsert, ih]

theorem tables_eq {schema : Schema} {records : List Record}
    (hschema : ∀ p ∈ records, p.schema = schema) (hne : records ≠ []) :
    tables records = [(schema.table, schema)] := by
  have hpairs : (records.reverse.map fun r => (r.schema.table, r.schema)) =
      List.replicate records.length (schema.table, schema) := by
    refine List.eq_replicate_iff.2 ⟨by simp, fun e he => ?_⟩
    obtain ⟨p, hp, rfl⟩ := List.mem_map.1 he
    rw [hschema p (List.mem_reverse.1 hp)]
  unfold tables
  rw [hpairs]
  cases records with
  | nil => exact absurd rfl hne
  | cons p rest => exact insertAll_replicate schema.table schema rest.length

theorem ofTable_eq {schema : Schema} {records : List Record}
    (hschema : ∀ p ∈ records, p.schema = schema) : ofTable schema.table records = records := by
  refine List.filter_eq_self.2 fun p hp => ?_
  rw [hschema p hp]
  exact decide_eq_true rfl

theorem setMatches_eq {schema : Schema} {records : List Record}
    (hschema : ∀ p ∈ records, p.schema = schema) (r : Relation) (m : Matches) :
    setMatches schema.table r m records =
      records.map fun p => p.setRelation r.name (m.loaded (r.parentKey? p)) := by
  refine List.map_congr_left fun p hp => ?_
  rw [hschema p hp, if_pos rfl]

/-! ## Records that are reached -/

theorem replace_records (l : Loaded) (rest : List Record) :
    l.replace (l.records ++ rest) = (l, rest) := by
  cases l with
  | one record => cases record <;> rfl
  | many records => simp [Loaded.replace, Loaded.records]

theorem relation?_setRelation (p : Record) (name : String) (l : Loaded) :
    (p.setRelation name l).relation? name = some l := by
  unfold relation? setRelation
  rw [Assoc.get?_insert, if_pos rfl]

theorem putReached_reached (name : String) (records : List Record) :
    (putReached name records (reached name records)).map (fun p => p.relation? name) =
      records.map fun p => p.relation? name := by
  induction records with
  | nil => rfl
  | cons p rest ih =>
    have hreached : reached name (p :: rest) = p.relatedRecords name ++ reached name rest := rfl
    rw [hreached]
    unfold relatedRecords
    cases hrelation : p.relation? name with
    | none =>
      simp only [putReached, hrelation, List.map_cons]
      exact congrArg _ ih
    | some l =>
      -- The record takes back as many records as it gave, and leaves those of the others.
      simp only [putReached, hrelation, List.map_cons, Option.map_some, Option.getD_some,
        replace_records, relation?_setRelation]
      exact congrArg _ ih

end Record

/-! ## Loading -/

section Loading

variable {σ : Type} {s : Session σ} {schema : Schema} {r : Relation} {name : String}
  {records : List Record}

theorem relation_name (h : schema.relation name = .ok r) : r.name = name := by
  unfold Schema.relation at h
  cases hfind : schema.relations.find? fun r => r.name == name with
  | none =>
    rw [hfind] at h
    cases h
  | some r' =>
    rw [hfind] at h
    cases h
    simpa using List.find?_some hfind

theorem loadTables_cons (hname : schema.relation name = .ok r)
    (rest : List (String × Schema)) {m : Matches} {w w' : σ}
    (hbatch : (r.batch s schema (Record.ofTable schema.table records)).run w = (.ok m, w')) :
    ((s.loadTables name ((schema.table, schema) :: rest)).runOn records).run w =
      ((s.loadTables name rest).runOn (Record.setMatches schema.table r m records)).run w' := by
  have haction : ((Change.ofAction (τ := List Record)
      (r.batch s schema (Record.ofTable schema.table records))).runOn records).run w =
      ((.ok m, records), w') := by
    rw [Change.run_ofAction, hbatch]
  conv => lhs; unfold Session.loadTables
  rw [hname, Change.run_bind_ok (b := r) rfl, Change.run_bind_ok (b := records) rfl,
    Change.run_bind_ok haction, Change.run_bind_ok (b := ()) rfl]

theorem loadTables_cons_error (hname : schema.relation name = .ok r)
    (rest : List (String × Schema)) {e : Halt} {w w' : σ}
    (hbatch : (r.batch s schema (Record.ofTable schema.table records)).run w = (.error e, w')) :
    ((s.loadTables name ((schema.table, schema) :: rest)).runOn records).run w =
      ((.error e, records), w') := by
  have haction : ((Change.ofAction (τ := List Record)
      (r.batch s schema (Record.ofTable schema.table records))).runOn records).run w =
      ((.error e, records), w') := by
    rw [Change.run_ofAction, hbatch]
  conv => lhs; unfold Session.loadTables
  rw [hname, Change.run_bind_ok (b := r) rfl, Change.run_bind_ok (b := records) rfl,
    Change.run_bind_error haction]

theorem loadTables_cons_missing {f : Fault} (hname : schema.relation name = .error f)
    (rest : List (String × Schema)) (w : σ) :
    ((s.loadTables name ((schema.table, schema) :: rest)).runOn records).run w =
      ((.error (.fault f), records), w) := by
  unfold Session.loadTables
  rw [hname, Change.run_ofResult_bind_error]

theorem loadRelation_run (hname : schema.relation name = .ok r)
    (hschema : ∀ p ∈ records, p.schema = schema) (hne : records ≠ []) {m : Matches} {w w' : σ}
    (hbatch : (r.batch s schema records).run w = (.ok m, w')) :
    ((s.loadRelation name).runOn records).run w =
      ((.ok (), records.map fun p => p.setRelation name (m.loaded (r.parentKey? p))), w') := by
  unfold Session.loadRelation
  rw [Change.run_bind_ok (b := records) rfl, Record.tables_eq hschema hne,
    loadTables_cons hname [] (by rw [Record.ofTable_eq hschema]; exact hbatch),
    Record.setMatches_eq hschema, relation_name hname]
  rfl

theorem loadRelation_run_error (hname : schema.relation name = .ok r)
    (hschema : ∀ p ∈ records, p.schema = schema) (hne : records ≠ []) {e : Halt} {w w' : σ}
    (hbatch : (r.batch s schema records).run w = (.error e, w')) :
    ((s.loadRelation name).runOn records).run w = ((.error e, records), w') := by
  unfold Session.loadRelation
  rw [Change.run_bind_ok (b := records) rfl, Record.tables_eq hschema hne,
    loadTables_cons_error hname [] (by rw [Record.ofTable_eq hschema]; exact hbatch)]

theorem loadRelation_run_missing {f : Fault} (hname : schema.relation name = .error f)
    (hschema : ∀ p ∈ records, p.schema = schema) (hne : records ≠ []) (w : σ) :
    ((s.loadRelation name).runOn records).run w = ((.error (.fault f), records), w) := by
  unfold Session.loadRelation
  rw [Change.run_bind_ok (b := records) rfl, Record.tables_eq hschema hne,
    loadTables_cons_missing hname]

/-- Paths to a single relation load this relation. -/
theorem load_single_run {paths : List String}
    (hpaths : PathForest.read paths = .ok (.relation name .none .none))
    {loaded : List Record} {w w' : σ}
    (h : ((s.loadRelation name).runOn records).run w = ((.ok (), loaded), w')) :
    ((s.load paths).runOn records).run w =
      ((.ok (), Record.putReached name loaded (Record.reached name loaded)), w') := by
  unfold Session.load
  rw [hpaths, Change.run_bind_ok (b := PathForest.relation name .none .none) rfl]
  unfold Session.loadForest
  rw [Change.run_bind_ok h]
  rfl

theorem load_single_run_error {paths : List String}
    (hpaths : PathForest.read paths = .ok (.relation name .none .none)) {e : Halt}
    {left : List Record} {w w' : σ}
    (h : ((s.loadRelation name).runOn records).run w = ((.error e, left), w')) :
    ((s.load paths).runOn records).run w = ((.error e, left), w') := by
  unfold Session.load
  rw [hpaths, Change.run_bind_ok (b := PathForest.relation name .none .none) rfl]
  unfold Session.loadForest
  exact Change.run_bind_error h

end Loading

end RecordMapper
