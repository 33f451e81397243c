import Mathlib.Algebra.BigOperators.Group.Finset.Basic
import Mathlib.Algebra.GroupWithZero.Nat
import Mathlib.Algebra.Order.BigOperators.Group.List
import Mathlib.Algebra.Order.Group.Nat
import RecordMapper.Proofs.Related.Asking
import RecordMapper.Proofs.Related.Paths

/-!
Loading relations asks few questions.

* `Catalog.pathCost` is the number of queries for a path.
* `Loads` says what loading a forest sends and leaves. It holds of every load (`loadForest_loads`):
  a level adds what its relation costs, and the levels below and beside it leave that as it is.
* `load_few` gives the number of queries for dotted paths.
-/
namespace RecordMapper

set_option autoImplicit false

variable {σ : Type}

theorem Matches.mem_found_of_loaded {m : Matches} {key : Option Key} {p : Record}
    (h : p ∈ (m.loaded key).records) : ∃ f ∈ m.found, f.2 = p := by
  have hrecords : p ∈ (key.map m.recordsOf).getD [] := by
    unfold Matches.loaded Loaded.shaped at h
    split at h
    · exact List.mem_of_mem_head? (by simpa [Loaded.records] using h)
    · exact h
  cases key with
  | none => cases hrecords
  | some k =>
    obtain ⟨f, hf, rfl⟩ := List.mem_map.mp hrecords
    exact ⟨f, List.mem_of_mem_filter hf, rfl⟩

/-! ## Paths -/

namespace Catalog

/-- The schema of what a relation of this name reaches. -/
def next? (c : Catalog) (schema : Option Schema) (name : String) : Option Schema :=
  schema.bind fun s => (s.relation name).toOption.bind c.related?

/-- The relation at the end of a path. -/
def relationAt (c : Catalog) : Option Schema → List String → Option Relation
  | _, [] => none
  | schema, [name] => schema.bind fun s => (s.relation name).toOption
  | schema, name :: next :: path => c.relationAt (c.next? schema name) (next :: path)

/-- The number of queries for a path: one, but one for each stored type if the records it is read
from name types. -/
def pathCost (c : Catalog) (schema : Option Schema) (records : List Record)
    (path : List String) : Nat :=
  match c.relationAt schema path with
  | some r => r.cost (Record.along path.dropLast records)
  | none => 1

variable {c : Catalog} {schema : Option Schema}

theorem relationAt_cons (name : String) {path : List String} (h : path ≠ []) :
    c.relationAt schema (name :: path) = c.relationAt (c.next? schema name) path := by
  cases path with
  | nil => exact absurd rfl h
  | cons next path => rfl

theorem pathCost_cons (name : String) {path : List String} (h : path ≠ [])
    (records : List Record) :
    c.pathCost schema records (name :: path) =
      c.pathCost (c.next? schema name) (Record.reached name records) path := by
  unfold pathCost
  rw [relationAt_cons name h, List.dropLast_cons_of_ne_nil h]
  rfl

theorem pathCost_single {names : List String} {records records' : List Record} (name : String)
    (h : List.Forall₂ (Record.Keeps names) records records') :
    c.pathCost schema records' [name] = c.pathCost schema records [name] := by
  unfold pathCost
  split
  · exact Relation.cost_of_keeps _ h
  · rfl

theorem pathCost_of_keeps {names : List String} {records records' : List Record} {name : String}
    (hname : name ∉ names) (h : List.Forall₂ (Record.Keeps names) records records')
    (path : List String) :
    c.pathCost schema records' (name :: path) = c.pathCost schema records (name :: path) := by
  cases path with
  | nil => exact pathCost_single name h
  | cons next path =>
    rw [pathCost_cons name (List.cons_ne_nil next path),
      pathCost_cons name (List.cons_ne_nil next path), Record.reached_of_keeps h hname]

/-- A path costs one query, whatever the records, unless its relation names types. -/
theorem pathCost_eq_one {path : List String} (records : List Record)
    (h : ∀ r, c.relationAt schema path = some r → r.kind ≠ .morphTo) :
    c.pathCost schema records path = 1 := by
  unfold pathCost
  split
  · next r hr => exact if_neg (h r hr)
  · rfl

end Catalog

/-! ## Forests -/

/-- No path goes on behind a relation to rows of many types. -/
def PathForest.TypesLast (c : Catalog) (schema : Option Schema) (forest : PathForest) : Prop :=
  ∀ path name, path ++ [name] ∈ forest.paths → ∀ r, c.relationAt schema path = some r →
    r.kind ≠ .morphTo

/-- What loading a forest sends, and what it leaves. -/
structure Loads (c : Catalog) (schema : Option Schema) (forest : PathForest)
    (records : List Record) (o : Outcome Unit) (records' : List Record)
    (sent : List Exchange) : Prop where
  queries : ∀ x ∈ sent, x.IsQuery
  few : sent.length ≤ (forest.paths.map (c.pathCost schema records')).sum
  kept : List.Forall₂ (Record.Keeps forest.names) records records'
  loaded : o = .ok () → ∀ path name, path ++ [name] ∈ forest.paths →
    ∀ r ∈ Record.along path records', (r.relation? name).isSome = true

section Loads

variable {c : Catalog} {schema : Option Schema} {forest below rest : PathForest} {name : String}
  {records found : List Record} {o : Outcome Unit} {e : Halt} {sent more : List Exchange}

theorem loads_failed (hqueries : ∀ x ∈ sent, x.IsQuery)
    (hfew : sent.length ≤ (forest.paths.map (c.pathCost schema records)).sum) :
    Loads c schema forest records (.error e) records sent :=
  ⟨hqueries, hfew, Record.forall₂_keeps_refl _ records, nofun⟩

theorem loads_nil (c : Catalog) (schema : Option Schema) (forest : PathForest) :
    Loads c schema forest [] (.ok ()) [] [] where
  queries := nothing_sent
  few := Nat.zero_le _
  kept := .nil
  loaded := by
    intro _ path name _ r hr
    rw [Record.along_nil] at hr
    cases hr

theorem loads_none (c : Catalog) (schema : Option Schema) (records : List Record) :
    Loads c schema .none records (.ok ()) records [] where
  queries := nothing_sent
  few := Nat.zero_le _
  kept := Record.forall₂_keeps_refl [] records
  loaded := fun _ _ _ h => (by cases h)

theorem PathForest.paths_relation (name : String) (below rest : PathForest) :
    (relation name below rest).paths = (relation name below .none).paths ++ rest.paths := by
  simp only [paths, List.append_nil]

theorem PathForest.paths_below (name : String) (below : PathForest) :
    (relation name below .none).paths = [name] :: below.paths.map (name :: ·) := by
  simp only [paths, List.append_nil]

theorem Loads.stopped {larger : PathForest} {records' : List Record}
    (h : Loads c schema forest records (.error e) records' sent)
    (hpaths : forest.paths.Sublist larger.paths) (hnames : forest.names ⊆ larger.names) :
    Loads c schema larger records (.error e) records' sent where
  queries := h.queries
  few := Nat.le_trans h.few (List.Sublist.sum_le_sum (hpaths.map _) fun _ _ => Nat.zero_le _)
  kept := Record.forall₂_keeps_mono h.kept fun _ hname => hnames hname
  loaded := nofun

/-- Behind a relation, its records are loaded and put back. -/
theorem Loads.withBelow {records' : List Record}
    (h : Loads c schema (.relation name .none .none) records (.ok ()) records' sent)
    (hbelow : Loads c (c.next? schema name) below (Record.reached name records') o found more) :
    Loads c schema (.relation name below .none) records o
      (Record.putReached name records' found) (sent ++ more) := by
  have hlength : found.length = (Record.reached name records').length :=
    hbelow.kept.length_eq.symm
  have hreached := Record.reached_putReached hlength
  have hput : List.Forall₂ (Record.Keeps [name]) records' _ :=
    Record.keeps_putReached records' found
  have hinner : (below.paths.map (name :: ·)).map
      (c.pathCost schema (Record.putReached name records' found)) =
      below.paths.map (c.pathCost (c.next? schema name) found) := by
    rw [List.map_map]
    refine List.map_congr_left fun path hpath => ?_
    rw [Function.comp_apply, Catalog.pathCost_cons name (PathForest.ne_nil_of_mem_paths hpath),
      hreached]
  constructor
  case queries =>
    intro x hx
    exact (List.mem_append.mp hx).elim (h.queries x) (hbelow.queries x)
  case few =>
    have hfirst : sent.length ≤ c.pathCost schema records' [name] := by
      have hfew := h.few
      rwa [PathForest.paths_below, List.map_cons, List.sum_cons] at hfew
    rw [PathForest.paths_below, List.map_cons, List.sum_cons, hinner, List.length_append,
      Catalog.pathCost_single name hput]
    exact Nat.add_le_add hfirst hbelow.few
  case kept =>
    refine Record.forall₂_keeps_mono (Record.forall₂_keeps_trans h.kept hput) fun other hother => ?_
    exact (List.mem_append.mp hother).elim id id
  case loaded =>
    intro ho path last hpath r hr
    rcases PathForest.mem_paths_relation.mp hpath with heq | ⟨q, hq, heq⟩ | hnone
    · obtain ⟨rfl, hlast⟩ := List.append_inj' (heq.trans (List.nil_append [name]).symm) rfl
      cases hlast
      have hloaded := h.loaded rfl [] name (List.mem_cons_self ..)
      exact Record.isSome_putReached found hloaded r hr
    · cases path with
      | nil =>
        cases heq
        exact absurd rfl (PathForest.ne_nil_of_mem_paths hq)
      | cons first path =>
        rw [List.cons_append] at heq
        cases heq
        rw [Record.along, hreached] at hr
        exact hbelow.loaded ho path last hq r hr
    · cases hnone

/-- What is loaded first stays as it is while the other relations are loaded. -/
theorem Loads.withRest {records' records'' : List Record}
    (h : Loads c schema (.relation name below .none) records (.ok ()) records' sent)
    (hname : name ∉ rest.names) (hrest : Loads c schema rest records' o records'' more) :
    Loads c schema (.relation name below rest) records o records'' (sent ++ more) := by
  have hcost : ∀ path ∈ (PathForest.relation name below .none).paths,
      c.pathCost schema records'' path = c.pathCost schema records' path := by
    intro path hpath
    rw [PathForest.paths_below] at hpath
    rcases List.mem_cons.mp hpath with rfl | hpath
    · exact Catalog.pathCost_single name hrest.kept
    · obtain ⟨q, -, rfl⟩ := List.mem_map.mp hpath
      exact Catalog.pathCost_of_keeps hname hrest.kept q
  constructor
  case queries =>
    intro x hx
    exact (List.mem_append.mp hx).elim (h.queries x) (hrest.queries x)
  case few =>
    rw [PathForest.paths_relation, List.map_append, List.sum_append, List.map_congr_left hcost,
      List.length_append]
    exact Nat.add_le_add h.few hrest.few
  case kept => exact Record.forall₂_keeps_trans h.kept hrest.kept
  case loaded =>
    intro ho path last hpath r hr
    rw [PathForest.paths_relation, List.mem_append] at hpath
    rcases hpath with hpath | hpath
    · cases path with
      | nil =>
        obtain rfl : last = name := List.mem_singleton.mp (PathForest.head_mem_names hpath)
        exact Record.isSome_of_keeps hrest.kept hname (h.loaded rfl [] last hpath) r hr
      | cons first path =>
        obtain rfl : first = name := List.mem_singleton.mp (PathForest.head_mem_names hpath)
        rw [Record.along, Record.reached_of_keeps hrest.kept hname] at hr
        exact h.loaded rfl (first :: path) last hpath r hr
    · exact hrest.loaded ho path last hpath r hr

end Loads

/-! ## Runs -/

section Runs

variable {c : Catalog} {schema : Option Schema}

theorem PathForest.TypesLast.below {name : String} {below rest : PathForest}
    (h : PathForest.TypesLast c schema (.relation name below rest)) :
    PathForest.TypesLast c (c.next? schema name) below := by
  intro path last hpath r hr
  have hne : path ≠ [] := by
    rintro rfl
    cases hr
  refine h (name :: path) last ?_ r ?_
  · exact PathForest.mem_paths_relation.mpr (.inr (.inl ⟨path ++ [last], hpath, rfl⟩))
  · rw [Catalog.relationAt_cons name hne, hr]

theorem PathForest.TypesLast.rest {name : String} {below rest : PathForest}
    (h : PathForest.TypesLast c schema (.relation name below rest)) :
    PathForest.TypesLast c schema rest := by
  intro path last hpath r hr
  exact h path last (PathForest.mem_paths_relation.mpr (.inr (.inr hpath))) r hr

/-- A relation with something to load below it does not name types. -/
theorem PathForest.TypesLast.first {name : String} {below rest : PathForest}
    (h : PathForest.TypesLast c schema (.relation name below rest)) (hbelow : below ≠ .none) :
    ∀ r, c.relationAt schema [name] = some r → r.kind ≠ .morphTo := by
  cases below with
  | none => exact absurd rfl hbelow
  | relation next below others =>
    have hnext : [next] ∈ (PathForest.relation next below others).paths := List.mem_cons_self ..
    refine h [name] next ?_
    exact PathForest.mem_paths_relation.mpr (.inr (.inl ⟨[next], hnext, rfl⟩))

section Level

variable {s : Session σ} {parent : Schema} {r : Relation} {name : String} {records : List Record}
  {sent : List Exchange}

theorem Catalog.relationAt_single (hname : parent.relation name = .ok r) :
    c.relationAt (some parent) [name] = some r := by
  show (parent.relation name).toOption = some r
  rw [hname]
  rfl

theorem sum_pathCost_single (hname : parent.relation name = .ok r) (records : List Record) :
    ((PathForest.relation name .none .none).paths.map (c.pathCost (some parent) records)).sum =
      r.cost records := by
  rw [PathForest.paths_below]
  show c.pathCost (some parent) records [name] = r.cost records
  unfold Catalog.pathCost
  rw [Catalog.relationAt_single hname]
  rfl

theorem loads_set (hname : parent.relation name = .ok r) (f : Record → Loaded)
    (hqueries : ∀ x ∈ sent, x.IsQuery) (hfew : sent.length ≤ r.cost records) :
    Loads c (some parent) (.relation name .none .none) records (.ok ())
      (records.map fun p => p.setRelation name (f p)) sent where
  queries := hqueries
  few := by
    rw [sum_pathCost_single hname, r.cost_of_keeps (Record.keeps_map_setRelation name f records)]
    exact hfew
  kept := Record.keeps_map_setRelation name f records
  loaded := by
    intro _ path last hpath p hp
    rw [PathForest.paths_below] at hpath
    have hlast := (List.mem_singleton.mp hpath).trans (List.nil_append [name]).symm
    obtain ⟨rfl, hlast⟩ := List.append_inj' hlast rfl
    cases hlast
    obtain ⟨q, -, rfl⟩ := List.mem_map.mp hp
    rw [Record.relation?_setRelation]
    rfl

/-- What the batch of a relation found is all it reaches. -/
theorem mem_found_of_reached {m : Matches} {f : Record → Option Key} {p : Record}
    (h : p ∈ Record.reached name (records.map fun q => q.setRelation name (m.loaded (f q)))) :
    ∃ e ∈ m.found, e.2 = p := by
  obtain ⟨q', hq', hp⟩ := List.mem_flatMap.mp h
  obtain ⟨q, -, rfl⟩ := List.mem_map.mp hq'
  rw [Record.relatedRecords_some (Record.relation?_setRelation q name _)] at hp
  exact Matches.mem_found_of_loaded hp

theorem loadRelation_loads (hschema : ∀ p ∈ records, schema = some p.schema)
    (t : σ × List Exchange) :
    ∃ o records' w' sent,
      ((s.recorded.loadRelation name).runOn records).run t = ((o, records'), (w', t.2 ++ sent)) ∧
      Loads s.catalog schema (.relation name .none .none) records o records' sent ∧
      (o = .ok () → (∀ r, s.catalog.relationAt schema [name] = some r → r.kind ≠ .morphTo) →
        ∀ p ∈ Record.reached name records', s.catalog.next? schema name = some p.schema) := by
  by_cases hne : records = []
  · subst hne
    refine ⟨.ok (), [], t.1, [], ?_, loads_nil .., fun _ _ p hp => absurd hp List.not_mem_nil⟩
    rw [List.append_nil]
    rfl
  obtain ⟨p, hmem⟩ := List.exists_mem_of_ne_nil records hne
  obtain rfl := hschema p hmem
  have hparent : ∀ q ∈ records, q.schema = p.schema :=
    fun q hq => (Option.some.inj (hschema q hq)).symm
  cases hname : p.schema.relation name with
  | error f =>
    refine ⟨.error (.fault f), records, t.1, [], ?_, ?_, nofun⟩
    · rw [List.append_nil]
      exact loadRelation_run_missing hname hparent hne t
    · exact loads_failed nothing_sent (Nat.zero_le _)
  | ok r =>
    obtain ⟨o, w', sent, hbatch, hlength, hqueries⟩ := r.batch_asks s p.schema records t
    cases o with
    | error e =>
      refine ⟨_, _, w', sent, loadRelation_run_error hname hparent hne hbatch,
        loads_failed hqueries ?_, nofun⟩
      rw [sum_pathCost_single hname]
      exact hlength
    | ok m =>
      refine ⟨_, _, w', sent, loadRelation_run hname hparent hne hbatch,
        loads_set hname _ hqueries hlength, fun _ hkind q hq => ?_⟩
      obtain ⟨f, hf, rfl⟩ := mem_found_of_reached hq
      have hrelated := Relation.schema_of_batch
        (hkind r (Catalog.relationAt_single hname)) hbatch f hf
      show ((p.schema.relation name).toOption.bind s.catalog.related?) = _
      rw [hname]
      exact hrelated

end Level

theorem loadForest_nil (s : Session σ) (forest : PathForest) (w : σ) :
    ((s.loadForest forest).runOn []).run w = ((.ok (), []), w) := by
  induction forest generalizing w with
  | none => rfl
  | relation name below rest ihBelow ihRest =>
    unfold Session.loadForest
    rw [Change.run_bind_ok (b := ()) rfl, Change.run_bind_ok (Change.run_within _ (ihBelow w))]
    exact ihRest w

/-- Loading a forest sends the queries its paths cost. -/
theorem loadForest_loads (s : Session σ) {forest : PathForest} (hordered : forest.Ordered)
    {schema : Option Schema} (htypes : PathForest.TypesLast s.catalog schema forest)
    {records : List Record} (hschema : forest ≠ .none → ∀ p ∈ records, schema = some p.schema)
    (t : σ × List Exchange) :
    ∃ o records' w' sent,
      ((s.recorded.loadForest forest).runOn records).run t = ((o, records'), (w', t.2 ++ sent)) ∧
      Loads s.catalog schema forest records o records' sent := by
  induction forest generalizing schema records t with
  | none =>
    refine ⟨.ok (), records, t.1, [], ?_, loads_none ..⟩
    rw [List.append_nil]
    rfl
  | relation name below rest ihBelow ihRest =>
    obtain ⟨hless, hbelow, hrest⟩ := hordered
    -- The names ascend, so what is loaded later has another name and leaves this relation alone.
    have hname : name ∉ rest.names := fun hmem => String.lt_irrefl name (hless name hmem)
    have hrecords := hschema PathForest.noConfusion
    obtain ⟨o, records₁, w₁, sent₁, hrun, hfirst, hnext⟩ := loadRelation_loads hrecords t
    unfold Session.loadForest
    cases o with
    | error e =>
      refine ⟨_, _, w₁, sent₁, Change.run_bind_error hrun, hfirst.stopped ?_ ?_⟩
      · exact List.singleton_sublist.mpr (List.mem_cons_self ..)
      · exact List.cons_subset_cons name (List.nil_subset _)
    | ok u =>
      -- All records that the relation found, whichever record they are of, are loaded at once.
      obtain ⟨o, found, w₂, sent₂, hreached, hinner⟩ := ihBelow hbelow htypes.below
        (fun hne => hnext rfl (htypes.first hne)) (w₁, t.2 ++ sent₁)
      have hupper := hfirst.withBelow hinner
      have hput := Change.run_within (fun rs => Record.putReached name rs) hreached
      rw [Change.run_bind_ok hrun]
      cases o with
      | error e =>
        refine ⟨_, _, w₂, sent₁ ++ sent₂, ?_, hupper.stopped ?_ ?_⟩
        · rw [← List.append_assoc]
          exact Change.run_bind_error hput
        · rw [PathForest.paths_relation name below rest]
          exact List.sublist_append_left ..
        · exact List.cons_subset_cons name (List.nil_subset _)
      | ok v =>
        have hkept := Record.schema_of_keeps hupper.kept hrecords
        obtain ⟨o, records₃, w₃, sent₃, hothers, houter⟩ := ihRest hrest htypes.rest
          (fun _ => hkept) (w₂, t.2 ++ sent₁ ++ sent₂)
        refine ⟨o, records₃, w₃, sent₁ ++ sent₂ ++ sent₃, ?_, hupper.withRest hname houter⟩
        rw [Change.run_bind_ok hput, hothers]
        simp only [List.append_assoc]

end Runs

/-! ## Loading paths -/

open PathForest (requested roots)

/-- A load sends few queries, as many as its paths cost, and leaves what was asked for. -/
structure LoadsFew (c : Catalog) (schema : Schema) (paths : List String) (records : List Record)
    (o : Outcome Unit) (records' : List Record) (sent : List Exchange) : Prop where
  queries : ∀ x ∈ sent, x.IsQuery
  few : sent.length ≤ ∑ path ∈ requested paths, c.pathCost (some schema) records' path
  /-- Without types to name, the number of records does not matter. -/
  constant : (∀ path ∈ requested paths, ∀ r, c.relationAt (some schema) path = some r →
    r.kind ≠ .morphTo) → sent.length ≤ (requested paths).card
  silent : records = [] → sent = []
  kept : List.Forall₂ (Record.Keeps (roots paths)) records records'
  loaded : o = .ok () → ∀ path name, path ++ [name] ∈ requested paths →
    ∀ r ∈ Record.along path records', (r.relation? name).isSome = true

section LoadsFew

variable {c : Catalog} {schema : Schema} {paths : List String} {records : List Record}

theorem loadsFew_of_loads {forest : PathForest} {records' : List Record} {o : Outcome Unit}
    {sent : List Exchange} (hread : PathForest.read paths = .ok forest)
    (h : Loads c (some schema) forest records o records' sent)
    (hsilent : records = [] → sent = []) : LoadsFew c schema paths records o records' sent := by
  obtain ⟨-, hnodup, hpaths⟩ := PathForest.toFinset_paths hread
  have hmem : ∀ path, path ∈ requested paths ↔ path ∈ forest.paths := by
    intro path
    rw [← hpaths, List.mem_toFinset]
  have hfew : sent.length ≤ ∑ path ∈ requested paths, c.pathCost (some schema) records' path := by
    rw [← hpaths, List.sum_toFinset _ hnodup]
    exact h.few
  constructor
  case queries => exact h.queries
  case few => exact hfew
  case constant =>
    intro hkinds
    calc sent.length
        ≤ ∑ path ∈ requested paths, c.pathCost (some schema) records' path := hfew
      _ = ∑ path ∈ requested paths, 1 := Finset.sum_congr rfl fun path hpath =>
          Catalog.pathCost_eq_one records' (hkinds path hpath)
      _ = (requested paths).card := Finset.card_eq_sum_ones _ |>.symm
  case silent => exact hsilent
  case kept =>
    refine Record.forall₂_keeps_mono h.kept fun name hname => PathForest.mem_roots ?_
    exact (hmem _).mpr (PathForest.mem_paths_of_mem_names hname)
  case loaded =>
    intro ho path name hpath
    exact h.loaded ho path name ((hmem _).mp hpath)

/-- Loading sends one query for each requested relation, however many records there are, and one for
each stored type where a path ends in a relation to rows of many types. -/
theorem load_few (s : Session σ) (schema : Schema) (records : List Record)
    (hschema : ∀ p ∈ records, p.schema = schema) (paths : List String)
    (htypes : ∀ path name, path ++ [name] ∈ requested paths → ∀ r,
      s.catalog.relationAt (some schema) path = some r → r.kind ≠ .morphTo) (w : σ) :
    ∃ o records' w' sent,
      ((s.recorded.load paths).runOn records).run (w, []) = ((o, records'), (w', sent)) ∧
      LoadsFew s.catalog schema paths records o records' sent := by
  unfold Session.load
  cases hread : PathForest.read paths with
  | error f =>
    refine ⟨_, records, w, [], Change.run_ofResult_bind_error f _ records (w, []), ?_⟩
    exact ⟨nothing_sent, Nat.zero_le _, fun _ => Nat.zero_le _, fun _ => rfl,
      Record.forall₂_keeps_refl _ records, nofun⟩
  | ok forest =>
    obtain ⟨hordered, -, hpaths⟩ := PathForest.toFinset_paths hread
    have hlast : PathForest.TypesLast s.catalog (some schema) forest := by
      intro path name hpath
      rw [← List.mem_toFinset, hpaths] at hpath
      exact htypes path name hpath
    obtain ⟨o, records', w', sent, hrun, hloads⟩ := loadForest_loads s hordered hlast
      (fun _ p hp => congrArg some (hschema p hp).symm) (w, [])
    refine ⟨o, records', w', sent, hrun, loadsFew_of_loads hread hloads ?_⟩
    rintro rfl
    rw [loadForest_nil] at hrun
    cases hrun
    rfl

/-! ### Owners of the posts of comments -/

def commentSchema : Schema :=
  { Schema.plain "comments" with
    relations := [{ Relation.plain "post" .belongsTo (some "Post") with foreignKey := "post_id" }] }

def ownedSchema : Schema :=
  { Schema.plain "posts" with relations := [Relation.plain "owner" .morphTo none] }

def someComments : List Record :=
  [.hydrate commentSchema ⟨["id", "post_id"], [.int64 1, .int64 10]⟩,
    .hydrate commentSchema ⟨["id", "post_id"], [.int64 2, .int64 20]⟩,
    .hydrate commentSchema ⟨["id", "post_id"], [.int64 3, .int64 10]⟩]

def ownedRows : List Row :=
  [⟨["id", "owner_type", "owner_id"], [.int64 10, .text "user", .int64 7]⟩,
    ⟨["id", "owner_type", "owner_id"], [.int64 20, .text "team", .int64 8]⟩]

def ownerSession : Session Script :=
  ⟨Script.world, .postgres, ⟨[("Post", ownedSchema)]⟩,
    (MorphMap.empty.register "user" (.plain "users")).register "team" (.plain "teams"),
    .none, .standard, 0⟩

def ownedBeginning : Script := (Script.startingAt ⟨0, ⟨0, 0⟩⟩).pushRows ownedRows

/-- Three comments on two posts take three queries, one for the posts and one for each type of
owner. -/
theorem load_few_owners :
    (∀ p ∈ someComments, p.schema = commentSchema) ∧
    (∀ path name, path ++ [name] ∈ requested ["post.owner"] → ∀ r,
      ownerSession.catalog.relationAt (some commentSchema) path = some r → r.kind ≠ .morphTo) ∧
    (((ownerSession.recorded.load ["post.owner"]).runOn someComments).run
      (ownedBeginning, [])).2.2.length = 3 ∧
    ∃ o records' w' sent,
      ((ownerSession.recorded.load ["post.owner"]).runOn someComments).run (ownedBeginning, []) =
        ((o, records'), (w', sent)) ∧
      LoadsFew ownerSession.catalog commentSchema ["post.owner"] someComments o records' sent := by
  have hschema : ∀ p ∈ someComments, p.schema = commentSchema := by
    intro p hp
    simp only [someComments, List.mem_cons, List.not_mem_nil, or_false] at hp
    rcases hp with rfl | rfl | rfl <;> rfl
  have htypes : ∀ path name, path ++ [name] ∈ requested ["post.owner"] → ∀ r,
      ownerSession.catalog.relationAt (some commentSchema) path = some r → r.kind ≠ .morphTo := by
    intro path name hpath r hr
    obtain ⟨dotted, hdotted, -, rest, hrest⟩ := PathForest.mem_requested.mp hpath
    have hsegments : PathForest.segments "post.owner" = ["post", "owner"] := by decide +kernel
    rw [List.mem_singleton.mp hdotted, hsegments] at hrest
    match path with
    | [] => cases hr
    | [first] =>
      cases hrest
      cases hr
      decide
    | first :: second :: more =>
      have hlength := congrArg List.length hrest
      simp only [List.length_append, List.length_cons, List.length_nil] at hlength
      omega
  have hthree : (((ownerSession.recorded.load ["post.owner"]).runOn someComments).run
      (ownedBeginning, [])).2.2.length = 3 := by
    decide +kernel
  exact ⟨hschema, htypes, hthree,
    load_few ownerSession commentSchema someComments hschema ["post.owner"] htypes ownedBeginning⟩

end LoadsFew

end RecordMapper
