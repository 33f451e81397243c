import Mathlib.Data.Finset.Card
import RecordMapper.Proofs.NameMap
import RecordMapper.Proofs.Related.Reached
import RecordMapper.Proofs.Session.Recorded

/-!
Questions that are asked for one relation.

* `Asks n a` says that an action sends nothing but queries, at most `n` of them.
* `Relation.cost` is the number of queries for a relation of records: one, or one for each type that
  is stored in them if the relation leads to rows of many types (`batch_asks`).
-/
namespace RecordMapper

set_option autoImplicit false

variable {σ α β : Type}

/-! ## Actions that ask -/

def Exchange.IsQuery (x : Exchange) : Prop := ∃ st, x.request = .query st

theorem nothing_sent : ∀ x ∈ ([] : List Exchange), x.IsQuery :=
  fun _ hx => absurd hx List.not_mem_nil

/-- The action sends at most `n` statements, and they are queries. -/
def Asks (n : Nat) (a : Action (σ × List Exchange) α) : Prop :=
  ∀ t, ∃ o w' sent, a.run t = (o, (w', t.2 ++ sent)) ∧ sent.length ≤ n ∧
    ∀ x ∈ sent, x.IsQuery

theorem Asks.mono {m n : Nat} {a : Action (σ × List Exchange) α} (h : Asks m a) (hle : m ≤ n) :
    Asks n a := by
  intro t
  obtain ⟨o, w', sent, hrun, hlength, hquery⟩ := h t
  exact ⟨o, w', sent, hrun, Nat.le_trans hlength hle, hquery⟩

theorem asks_nothing {a : Action (σ × List Exchange) α} (h : ∀ t, ∃ o, a.run t = (o, t)) :
    Asks 0 a := by
  intro t
  obtain ⟨o, hrun⟩ := h t
  exact ⟨o, t.1, [], by rw [hrun, List.append_nil], Nat.le_refl 0, nothing_sent⟩

theorem asks_pure (a : α) : Asks 0 (pure a : Action (σ × List Exchange) α) :=
  asks_nothing fun _ => ⟨_, rfl⟩

theorem asks_ofResult (r : Result α) :
    Asks 0 (Action.ofResult r : Action (σ × List Exchange) α) :=
  asks_nothing fun _ => ⟨_, rfl⟩

theorem Asks.bind {m n : Nat} {a : Action (σ × List Exchange) β}
    {f : β → Action (σ × List Exchange) α} (ha : Asks m a) (hf : ∀ b, Asks n (f b)) :
    Asks (m + n) (a >>= f) := by
  intro t
  obtain ⟨o, w', sent, hrun, hlength, hquery⟩ := ha t
  cases o with
  | error stop =>
    exact ⟨.error stop, w', sent, Action.run_bind_error hrun,
      Nat.le_trans hlength (Nat.le_add_right m n), hquery⟩
  | ok b =>
    obtain ⟨o, w'', more, hrest, hmore, hqueries⟩ := hf b (w', t.2 ++ sent)
    refine ⟨o, w'', sent ++ more, ?_, ?_, fun x hx => ?_⟩
    · rw [Action.run_bind_ok hrun, hrest, List.append_assoc]
    · rw [List.length_append]
      exact Nat.add_le_add hlength hmore
    · exact (List.mem_append.mp hx).elim (hquery x) (hqueries x)

theorem asks_query (s : Session σ) (st : Statement) : Asks 1 (s.recorded.query st) := by
  intro t
  refine ⟨_, _, _, s.run_query_recorded st t, Nat.le_refl 1, fun x hx => ?_⟩
  rw [List.mem_singleton.mp hx]
  exact ⟨st, rfl⟩

theorem asks_rows (s : Session σ) (q : Query) : Asks 1 (q.rows s.recorded) :=
  (asks_ofResult q.statement).bind fun st => asks_query s st

/-! ## One relation -/

namespace Relation

/-- The types that the records name for a relation. -/
def types (r : Relation) (records : List Record) : Finset String :=
  (records.filterMap fun p => (p.value r.morphTypeColumn).typeAlias?).toFinset

/-- The number of queries for a relation of records. -/
def cost (r : Relation) (records : List Record) : Nat :=
  if r.kind = .morphTo then (r.types records).card else 1

theorem batchOne_asks (s : Session σ) (r : Relation) (parent : Schema) (parents : List Record) :
    Asks 1 (r.batchOne s.recorded parent parents) := by
  unfold batchOne
  split
  · exact (asks_pure _).mono (Nat.zero_le 1)
  · exact (asks_ofResult _).bind fun related => (asks_ofResult _).bind fun q =>
      (asks_rows s q).bind fun rows => asks_pure _

theorem batchTypes_asks (s : Session σ) (r : Relation) (entries : List (String × List Value)) :
    Asks entries.length (r.batchTypes s.recorded entries) := by
  induction entries with
  | nil => exact asks_pure []
  | cons e rest ih =>
    obtain ⟨name, keys⟩ := e
    have htype : Asks 1 (r.batchType s.recorded name keys) :=
      (asks_ofResult _).bind fun related => (asks_ofResult _).bind fun q =>
        (asks_rows s q).bind fun rows => asks_pure _
    unfold batchTypes
    refine (htype.bind fun found => ih.bind fun others => asks_pure _).mono ?_
    rw [List.length_cons]
    omega

theorem mem_types {r : Relation} {records : List Record} {name : String} :
    name ∈ r.types records ↔
      ∃ p ∈ records, (p.value r.morphTypeColumn).typeAlias? = some name := by
  unfold types
  rw [List.mem_toFinset, List.mem_filterMap]

theorem mem_names_addByType {r : Relation} {types : NameMap (List Value)} {p : Record}
    {name : String} (h : name ∈ (r.addByType types p).names) :
    name ∈ types.names ∨ (p.value r.morphTypeColumn).typeAlias? = some name := by
  unfold addByType at h
  cases halias : (p.value r.morphTypeColumn).typeAlias? with
  | none =>
    simp only [halias] at h
    exact .inl h
  | some type =>
    simp only [halias] at h
    split at h
    · exact .inl h
    · obtain ⟨keys, hkeys⟩ := NameMap.mem_names_iff.mp h
      rw [NameMap.get?_insert] at hkeys
      split at hkeys
      · next hname =>
        subst hname
        exact .inr rfl
      · exact .inl (NameMap.mem_names_iff.mpr ⟨keys, hkeys⟩)

/-- Only types that a record names are asked for. -/
theorem mem_types_of_keysByType {r : Relation} {parents : List Record} {name : String}
    (h : name ∈ (r.keysByType parents).names) : name ∈ r.types parents := by
  have hfold : ∀ (rest : List Record) (types : NameMap (List Value)),
      name ∈ (rest.foldl r.addByType types).names → name ∈ types.names ∨ name ∈ r.types rest := by
    intro rest
    induction rest with
    | nil => exact fun types h => .inl h
    | cons p rest ih =>
      intro types h
      rcases ih (r.addByType types p) h with h | h
      · rcases mem_names_addByType h with h | h
        · exact .inl h
        · exact .inr (mem_types.mpr ⟨p, List.mem_cons_self .., h⟩)
      · obtain ⟨q, hq, hname⟩ := mem_types.mp h
        exact .inr (mem_types.mpr ⟨q, List.mem_cons_of_mem p hq, hname⟩)
  exact (hfold parents .empty h).resolve_left List.not_mem_nil

theorem length_keysByType (r : Relation) (parents : List Record) :
    (r.keysByType parents).entries.length ≤ (r.types parents).card := by
  have hnodup := (r.keysByType parents).nodup_names
  have hsubset : (r.keysByType parents).names.toFinset ⊆ r.types parents := by
    intro name hname
    exact mem_types_of_keysByType (List.mem_toFinset.mp hname)
  calc (r.keysByType parents).entries.length
      = (r.keysByType parents).names.length := (List.length_map _).symm
    _ = (r.keysByType parents).names.toFinset.card := (List.toFinset_card_of_nodup hnodup).symm
    _ ≤ (r.types parents).card := Finset.card_le_card hsubset

/-- One query for a relation, or one for each type the parents name. -/
theorem batch_asks (s : Session σ) (r : Relation) (parent : Schema) (parents : List Record) :
    Asks (r.cost parents) (r.batch s.recorded parent parents) := by
  unfold cost batch
  cases hkind : r.kind with
  | morphTo =>
    rw [if_pos rfl]
    exact ((batchTypes_asks s r _).bind fun found => asks_pure _).mono (length_keysByType r parents)
  | _ => exact batchOne_asks s r parent parents

theorem cost_of_keeps (r : Relation) {names : List String} {records records' : List Record}
    (h : List.Forall₂ (Record.Keeps names) records records') :
    r.cost records' = r.cost records := by
  have hvalues : (records'.filterMap fun p => (p.value r.morphTypeColumn).typeAlias?) =
      records.filterMap fun p => (p.value r.morphTypeColumn).typeAlias? := by
    induction h with
    | nil => rfl
    | cons hfirst _ ih => rw [List.filterMap_cons, List.filterMap_cons, hfirst.value, ih]
  unfold cost types
  rw [hvalues]

theorem related?_of_requireRelated {c : Catalog} {r : Relation} {related : Schema}
    (h : r.requireRelated c = .ok related) : c.related? r = some related := by
  unfold requireRelated at h
  cases hfound : c.related? r with
  | none =>
    rw [hfound] at h
    cases h
  | some schema =>
    rw [hfound] at h
    cases h
    rfl

theorem schema_of_filed {r : Relation} {related : Schema} {row : Row} {f : Key × Record}
    (h : r.filed? related row = some f) : f.2.schema = related := by
  unfold filed? at h
  obtain ⟨owner, -, h⟩ := Option.bind_eq_some_iff.mp h
  obtain ⟨key, -, h⟩ := Option.bind_eq_some_iff.mp h
  cases h
  rfl

/-- The records that are found belong to the related schema, unless a type was stored for each. -/
theorem schema_of_batch {s : Session σ} {r : Relation} {parent : Schema} {parents : List Record}
    {m : Matches} {w w' : σ} (hkind : r.kind ≠ .morphTo)
    (h : (r.batch s parent parents).run w = (.ok m, w')) :
    ∀ f ∈ m.found, s.catalog.related? r = some f.2.schema := by
  have hone : (r.batchOne s parent parents).run w = (.ok m, w') := by
    unfold batch at h
    split at h
    · next hmorph => exact absurd hmorph hkind
    · exact h
  unfold batchOne at hone
  split at hone
  · cases hone
    exact fun _ hf => absurd hf List.not_mem_nil
  · obtain ⟨related, w₁, hrelated, hone⟩ := Action.ok_of_run_bind hone
    obtain ⟨q, w₂, -, hone⟩ := Action.ok_of_run_bind hone
    obtain ⟨rows, w₃, -, hone⟩ := Action.ok_of_run_bind hone
    cases hone
    have hcatalog : s.catalog.related? r = some related :=
      related?_of_requireRelated (Action.ok_of_ofResult hrelated)
    intro f hf
    obtain ⟨row, -, hrow⟩ := List.mem_filterMap.mp hf
    rw [hcatalog, schema_of_filed hrow]

end Relation

end RecordMapper
