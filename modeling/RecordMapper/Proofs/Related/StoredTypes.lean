import RecordMapper.Proofs.Record.Casting
import RecordMapper.Proofs.Related.Agreement
import RecordMapper.Proofs.Related.Asking
import RecordMapper.Proofs.Related.Mixed

/-!
Loading related rows of many types, for many records or for one.

* `Schema.rowKey` is the primary key of a row as it was read; the record of the row has it cast.
* `Relation.AnswersTypes` is a database that finds rows by that key.
* Rows are filed under the type and the cast key. `Relation.Distinguishes` says that no two rows
  that differ for the database then become one, nor one that is asked for another.
* `load_types_agree` says that under this condition each record holds what its relation alone gives,
  and `types_misled` that it does not hold without.
-/
namespace RecordMapper

set_option autoImplicit false

/-! ## Keys of rows -/

/-- The primary key in a row, without the cast. -/
def Schema.rowKey (schema : Schema) (row : Row) : Value :=
  ((NameMap.ofList row.pairs).get? schema.primaryKey).getD .null

/-- A primary key that is not cast is that of the row. -/
theorem value_hydrate_of_uncast {schema : Schema} (h : schema.casts.get? schema.primaryKey = none)
    (row : Row) : (Record.hydrate schema row).value schema.primaryKey = schema.rowKey row := by
  have hcast : schema.castValue schema.primaryKey = id := by
    funext v
    unfold Schema.castValue
    rw [h]
    rfl
  show ((Record.castRow schema row).get? schema.primaryKey).getD .null = schema.rowKey row
  rw [get?_castRow, hcast, Option.map_id]
  rfl

/-! ## Keys of types and rows -/

theorem composite?_type (type : String) (v : Value) :
    Key.composite? [.text type, v] =
      v.keyChars?.map fun cs => ⟨String.ofList ('s' :: ':' :: (type.toList ++ '|' :: cs))⟩ := by
  unfold Key.composite?
  have htype : (Value.text type).keyChars? = some ('s' :: ':' :: type.toList) := by
    rw [Value.keyChars?]
  cases hv : v.keyChars? with
  | none => simp [htype, hv]
  | some cs => simp [htype, hv, Text.joinWith]

theorem exists_composite? (type : String) {v : Value} {k : Key} (hk : v.key? = some k) :
    ∃ composite, Key.composite? [.text type, v] = some composite := by
  obtain ⟨cs, hcs, -⟩ := Option.map_eq_some_iff.mp hk
  rw [composite?_type, hcs]
  exact ⟨_, rfl⟩

/-- Whether the type `b` is `a` with a bar and more behind it. -/
def ExtendsType (a b : String) : Prop := (a.toList ++ ['|']) <+: b.toList

/-- Types that do not extend each other have different keys. -/
theorem type_of_composite? {a b : String} {u v : Value} {k : Key} (hab : ¬ ExtendsType a b)
    (hba : ¬ ExtendsType b a) (hu : Key.composite? [.text a, u] = some k)
    (hv : Key.composite? [.text b, v] = some k) : a = b := by
  rw [composite?_type] at hu hv
  obtain ⟨cs, -, rfl⟩ := Option.map_eq_some_iff.mp hu
  obtain ⟨ds, -, hk⟩ := Option.map_eq_some_iff.mp hv
  have hchars := congrArg String.toList (congrArg Key.text hk)
  simp only [String.toList_ofList, List.cons.injEq, true_and] at hchars
  by_cases hne : a.toList = b.toList
  · exact String.toList_injective hne
  · rcases Text.prefix_of_append_eq hchars.symm hne with h | h
    · exact absurd h hab
    · exact absurd h hba

/-- Of one type, the keys of the rows are told apart. -/
theorem composite?_eq_iff {type : String} {u v : Value} {k : Key}
    (hv : Key.composite? [.text type, v] = some k) :
    Key.composite? [.text type, u] = some k ↔ u.key? = v.key? := by
  rw [composite?_type] at hv ⊢
  obtain ⟨ds, hds, rfl⟩ := Option.map_eq_some_iff.mp hv
  unfold Value.key?
  rw [hds]
  cases u.keyChars? with
  | none => simp
  | some cs => simp [String.ofList_inj]

/-! ## Databases that find rows by their keys -/

namespace Relation

variable {σ : Type}

/-- The rows under any of these keys. -/
def rowsUnder (related : Schema) (rows : List Row) (keys : List Value) : List Row :=
  rows.filter fun row => ∃ v ∈ keys, (related.rowKey row).key? = v.key?

/-- The query for the rows of one type. -/
def typeQuery (s : Session σ) (r : Relation) (related : Schema) (keys : List Value) :
    Result Query := do
  let q ← r.candidates related s.dialect
  r.ownedByAny related (Key.distinct id keys) none q

/-- A database that has these rows for each schema, and finds those of the keys that records refer
to. -/
def AnswersAny (r : Relation) (s : Session σ) (parents : List Record)
    (candidates : Schema → List Row) : Prop :=
  ∀ e ∈ (r.keysByType parents).entries,
    ∀ (related : Schema) (q : Query) (st : Statement) (w : σ),
      s.morphs.resolve e.1 = .ok related → r.typeQuery s related e.2 = .ok q →
      q.statement = .ok st →
      (s.world.query st w).1 = .ok (rowsUnder related (candidates related) (Key.distinct id e.2))

/-- A database that has these rows for each schema, and finds those whose key is asked for. -/
structure AnswersTypes (r : Relation) (s : Session σ) (parents : List Record)
    (candidates : Schema → List Row) : Prop where
  one : ∀ p ∈ parents, p.value r.parentColumn ≠ .default →
    ∀ (b : BoundRelation) (related : Schema) (q : Query) (st : Statement) (w : σ),
      s.bound r p = .ok b → b.related = some related → b.limited.query? = .ok (some q) →
      q.statement = .ok st →
      (s.world.query st w).1 =
        .ok ((rowsUnder related (candidates related) [p.value r.parentColumn]).take 1)
  any : ∀ e ∈ (r.keysByType parents).entries,
    ∀ (related : Schema) (q : Query) (st : Statement) (w : σ),
      s.morphs.resolve e.1 = .ok related → r.typeQuery s related e.2 = .ok q →
      q.statement = .ok st →
      (s.world.query st w).1 = .ok (rowsUnder related (candidates related) (Key.distinct id e.2))

/-- The rows that records refer to are told apart by the type that is stored for them and the
primary key their records have: the cast of a primary key keeps its key, and no type extends another
one. -/
structure Distinguishes (r : Relation) (s : Session σ) (parents : List Record)
    (candidates : Schema → List Row) : Prop where
  cast : ∀ type ∈ r.types parents, ∀ related, s.morphs.resolve type = .ok related →
    ∀ row ∈ candidates related,
      ((Record.hydrate related row).value related.primaryKey).key? = (related.rowKey row).key?
  types : ∀ a ∈ r.types parents, ∀ b ∈ r.types parents, ¬ ExtendsType a b

end Relation

section Types

variable {σ : Type} {s : Session σ} {r : Relation} {parents : List Record}
  {candidates : Schema → List Row}

/-! ## One record -/

theorem load_one_ok {b : BoundRelation} (hone : b.relation.kind.isToOne = true) {l : Loaded}
    {w w' : σ} (h : (b.load s).run w = (.ok l, w')) :
    b.limited.target? = .ok none ∧ l = .one none ∨
      ∃ related q st rows w₁, b.limited.target? = .ok (some (related, q)) ∧
        q.statement = .ok st ∧ (s.world.query st w₁).1 = .ok rows ∧
        l = .one (rows.map (Record.hydrate related)).head? := by
  have hlimited : b.limited = b.refine fun q => q.take 1 := if_pos hone
  unfold BoundRelation.load at h
  rw [if_pos hone] at h
  obtain ⟨found, w₁, hfirst, h⟩ := Action.ok_of_run_bind h
  cases h
  unfold BoundRelation.first? at hfirst
  rw [← hlimited] at hfirst
  obtain ⟨records, w₂, hrecords, hfirst⟩ := Action.ok_of_run_bind hfirst
  cases hfirst
  unfold BoundRelation.records BoundRelation.whenBound at hrecords
  obtain ⟨target, w₃, hbound, hrecords⟩ := Action.ok_of_run_bind hrecords
  have htarget := Action.ok_of_ofResult hbound
  clear hbound
  cases target with
  | none =>
    cases hrecords
    exact .inl ⟨htarget, rfl⟩
  | some found =>
    obtain ⟨related, q⟩ := found
    obtain ⟨rows, w₄, hrows, hrecords⟩ := Action.ok_of_run_bind hrecords
    cases hrecords
    unfold Query.rows at hrows
    obtain ⟨st, w₅, hst, hquery⟩ := Action.ok_of_run_bind hrows
    exact .inr ⟨related, q, st, rows, w₅, htarget, Action.ok_of_ofResult hst,
      congrArg Prod.fst hquery, rfl⟩

/-- What a record holds that refers to a row of this type and key. -/
def Relation.typed (r : Relation) (s : Session σ) (candidates : Schema → List Row) (p : Record) :
    Loaded :=
  match (p.value r.morphTypeColumn).typeAlias? with
  | none => .one none
  | some type =>
    if (p.value r.parentColumn).isNull then .one none
    else
      match s.morphs.resolve type with
      | .error _ => .one none
      | .ok related =>
        .one ((Relation.rowsUnder related (candidates related) [p.value r.parentColumn]).map
          (Record.hydrate related)).head?

/-- The relation of a record to a row of the type it names. -/
theorem bound_typed (hkind : r.kind = .morphTo) {p : Record} {b : BoundRelation}
    (hb : s.bound r p = .ok b) :
    b.relation = r ∧ b.key = p.value r.parentColumn ∧
      match (p.value r.morphTypeColumn).typeAlias? with
      | none => b.related = none
      | some type => ∃ related, s.morphs.resolve type = .ok related ∧ b.related = some related := by
  obtain ⟨⟨related?, type?⟩, htarget, hb⟩ := ok_of_bind hb
  have hparts : b.relation = r ∧ b.key = p.value r.parentColumn ∧ b.related = related? := by
    cases related? with
    | none =>
      cases hb
      exact ⟨rfl, rfl, rfl⟩
    | some related =>
      obtain ⟨q, -, hb⟩ := ok_of_bind hb
      cases hb
      exact ⟨rfl, rfl, rfl⟩
  refine ⟨hparts.1, hparts.2.1, ?_⟩
  rw [hparts.2.2]
  unfold BoundRelation.target at htarget
  rw [hkind] at htarget
  obtain ⟨named, hnamed, htarget⟩ := ok_of_bind htarget
  cases htarget
  unfold BoundRelation.namedType at hnamed
  cases htype : (p.value r.morphTypeColumn).typeAlias? with
  | none =>
    rw [htype] at hnamed
    cases hnamed
    rfl
  | some type =>
    rw [htype] at hnamed
    obtain ⟨related, hresolve, hnamed⟩ := ok_of_bind hnamed
    cases hnamed
    exact ⟨related, hresolve, rfl⟩

theorem loadAlone_typed (hkind : r.kind = .morphTo) (hanswers : r.AnswersTypes s parents candidates)
    {name : String} {p : Record} (hp : p ∈ parents) (hname : p.schema.relation name = .ok r)
    (hdefault : p.value r.parentColumn ≠ .default) {l : Loaded} {w w' : σ}
    (h : (s.loadAlone p name).run w = (.ok l, w')) : l = r.typed s candidates p := by
  unfold Session.loadAlone at h
  obtain ⟨b, w₁, hb, hload⟩ := Action.ok_of_run_bind h
  have hb : s.bound r p = .ok b := by
    have hrelated := Action.ok_of_ofResult hb
    unfold Session.related at hrelated
    rw [hname] at hrelated
    exact hrelated
  obtain ⟨hrelation, hkey, htyped⟩ := bound_typed hkind hb
  have hlimited : b.limited.related = b.related ∧ b.limited.key = b.key := by
    unfold BoundRelation.limited
    split <;> exact ⟨rfl, rfl⟩
  have hone : b.relation.kind.isToOne = true := by
    rw [hrelation, hkind]
    rfl
  have hloaded := load_one_ok hone hload
  unfold Relation.typed
  cases htype : (p.value r.morphTypeColumn).typeAlias? with
  | none =>
    rw [htype] at htyped
    have htarget : b.limited.target? = .ok none := by
      unfold BoundRelation.target?
      rw [hlimited.1, htyped]
    rcases hloaded with ⟨-, hl⟩ | ⟨related, q, st, rows, w₂, hsome, -⟩
    · exact hl
    · rw [htarget] at hsome
      cases hsome
  | some type =>
    rw [htype] at htyped
    obtain ⟨related, hresolve, hrelated⟩ := htyped
    simp only [hresolve]
    cases hnull : (p.value r.parentColumn).isNull with
    | true =>
      have htarget : b.limited.target? = .ok none :=
        target?_of_isNull (hlimited.1.trans hrelated) (by rw [hlimited.2, hkey, hnull])
      rcases hloaded with ⟨-, hl⟩ | ⟨related, q, st, rows, w₂, hsome, -⟩
      · exact hl
      · rw [htarget] at hsome
        cases hsome
    | false =>
      have htarget : b.limited.target? = (b.limited.relation.ownedBy related b.limited.key
          b.limited.type b.limited.query).map fun q =>
            some (related, b.limited.relation.settled related q) := by
        unfold BoundRelation.target?
        rw [hlimited.1, hrelated]
        simp only [hlimited.2, hkey, hnull]
        rfl
      rcases hloaded with ⟨hnone, -⟩ | ⟨related', q, st, rows, w₂, hsome, hst, hrows, hl⟩
      · rw [htarget] at hnone
        obtain ⟨q, -, hq⟩ := ok_of_map hnone
        cases hq
      · have hquery : b.limited.query? = .ok (some q) := by
          unfold BoundRelation.query?
          rw [hsome]
          rfl
        rw [htarget] at hsome
        obtain ⟨q', -, hq'⟩ := ok_of_map hsome
        cases hq'
        have hanswer := hanswers.one p hp hdefault b related _ st w₂ hb hrelated hquery hst
        rw [hrows] at hanswer
        cases hanswer
        rw [hl]
        cases Relation.rowsUnder related (candidates related) [p.value r.parentColumn] <;> rfl

/-! ## Many records -/

/-- What a batch finds for one type and the keys under it. -/
def Relation.foundOf (s : Session σ) (candidates : Schema → List Row) (e : String × List Value) :
    List (Key × Record) :=
  match s.morphs.resolve e.1 with
  | .error _ => []
  | .ok related =>
    (Relation.rowsUnder related (candidates related) (Key.distinct id e.2)).filterMap
      (Relation.filedByType? e.1 related)

theorem batchType_ok {e : String × List Value} {found : List (Key × Record)} {w w' : σ}
    (h : (r.batchType s e.1 e.2).run w = (.ok found, w')) :
    ∃ related q st rows w₁, s.morphs.resolve e.1 = .ok related ∧
      r.typeQuery s related e.2 = .ok q ∧ q.statement = .ok st ∧
      (s.world.query st w₁).1 = .ok rows ∧
      found = rows.filterMap (Relation.filedByType? e.1 related) := by
  unfold Relation.batchType at h
  obtain ⟨related, w₁, hresolve, h⟩ := Action.ok_of_run_bind h
  obtain ⟨q, w₂, hq, h⟩ := Action.ok_of_run_bind h
  obtain ⟨rows, w₃, hrows, h⟩ := Action.ok_of_run_bind h
  cases h
  unfold Query.rows at hrows
  obtain ⟨st, w₄, hst, hquery⟩ := Action.ok_of_run_bind hrows
  exact ⟨related, q, st, rows, w₄, Action.ok_of_ofResult hresolve, Action.ok_of_ofResult hq,
    Action.ok_of_ofResult hst, congrArg Prod.fst hquery, rfl⟩

theorem foundOf_of_batchType (hany : r.AnswersAny s parents candidates) {e : String × List Value}
    (he : e ∈ (r.keysByType parents).entries) {found : List (Key × Record)} {w w' : σ}
    (h : (r.batchType s e.1 e.2).run w = (.ok found, w')) :
    found = Relation.foundOf s candidates e := by
  obtain ⟨related, q, st, rows, w₁, hresolve, hq, hst, hrows, rfl⟩ := batchType_ok h
  have hanswer := hany e he related q st w₁ hresolve hq hst
  rw [hrows] at hanswer
  cases hanswer
  unfold Relation.foundOf
  rw [hresolve]

theorem batchTypes_ok (hany : r.AnswersAny s parents candidates)
    {entries : List (String × List Value)} (hentries : entries ⊆ (r.keysByType parents).entries)
    {found : List (Key × Record)} {w w' : σ}
    (h : (r.batchTypes s entries).run w = (.ok found, w')) :
    found = entries.flatMap (Relation.foundOf s candidates) := by
  induction entries generalizing found w with
  | nil =>
    cases h
    rfl
  | cons e rest ih =>
    obtain ⟨hfirst, hrest⟩ := List.cons_subset.mp hentries
    unfold Relation.batchTypes at h
    obtain ⟨first, w₁, hone, h⟩ := Action.ok_of_run_bind h
    obtain ⟨others, w₂, hothers, h⟩ := Action.ok_of_run_bind h
    cases h
    rw [List.flatMap_cons, foundOf_of_batchType hany hfirst hone, ih hrest hothers]

theorem batch_any_ok (hkind : r.kind = .morphTo) (hany : r.AnswersAny s parents candidates)
    {schema : Schema} {m : Matches} {w w' : σ}
    (h : (r.batch s schema parents).run w = (.ok m, w')) :
    m = ⟨true, (r.keysByType parents).entries.flatMap (Relation.foundOf s candidates)⟩ := by
  unfold Relation.batch at h
  rw [hkind] at h
  obtain ⟨found, w₁, hfound, h⟩ := Action.ok_of_run_bind h
  cases h
  rw [batchTypes_ok hany (List.Subset.refl _) hfound]

theorem batch_types_ok (hkind : r.kind = .morphTo) (hanswers : r.AnswersTypes s parents candidates)
    {schema : Schema} {m : Matches} {w w' : σ}
    (h : (r.batch s schema parents).run w = (.ok m, w')) :
    m = ⟨true, (r.keysByType parents).entries.flatMap (Relation.foundOf s candidates)⟩ :=
  batch_any_ok hkind hanswers.any h

/-- The key of a record is among those of the type it names. -/
theorem exists_keysByType {p : Record} (hp : p ∈ parents) {type : String}
    (htype : (p.value r.morphTypeColumn).typeAlias? = some type)
    (hnull : (p.value r.parentColumn).isNull = false) :
    ∃ keys, (type, keys) ∈ (r.keysByType parents).entries ∧ p.value r.parentColumn ∈ keys := by
  -- A key that has been added stays.
  have hkeep : ∀ (q : Record) (types : NameMap (List Value)),
      (∃ keys, types.get? type = some keys ∧ p.value r.parentColumn ∈ keys) →
      ∃ keys, (r.addByType types q).get? type = some keys ∧ p.value r.parentColumn ∈ keys := by
    rintro q types ⟨keys, hkeys, hmem⟩
    unfold Relation.addByType
    cases (q.value r.morphTypeColumn).typeAlias? with
    | none => exact ⟨keys, hkeys, hmem⟩
    | some other =>
      simp only
      split
      · exact ⟨keys, hkeys, hmem⟩
      · rw [NameMap.get?_insert]
        split
        · next hother =>
          subst hother
          rw [hkeys]
          exact ⟨_, rfl, List.mem_append_left _ hmem⟩
        · exact ⟨keys, hkeys, hmem⟩
  have hadd : ∀ types : NameMap (List Value),
      ∃ keys, (r.addByType types p).get? type = some keys ∧ p.value r.parentColumn ∈ keys := by
    intro types
    unfold Relation.addByType
    rw [htype]
    simp only [hnull]
    refine ⟨_, by rw [if_neg Bool.false_ne_true, NameMap.get?_insert, if_pos rfl], ?_⟩
    exact List.mem_append_right _ (List.mem_singleton.mpr rfl)
  have hfold : ∀ (rest : List Record) (types : NameMap (List Value)),
      p ∈ rest ∨ (∃ keys, types.get? type = some keys ∧ p.value r.parentColumn ∈ keys) →
      ∃ keys, (rest.foldl r.addByType types).get? type = some keys ∧
        p.value r.parentColumn ∈ keys := by
    intro rest
    induction rest with
    | nil =>
      rintro types (hmem | hfound)
      · cases hmem
      · exact hfound
    | cons q rest ih =>
      rintro types (hmem | hfound)
      · rcases List.mem_cons.mp hmem with rfl | hmem
        · exact ih _ (.inr (hadd types))
        · exact ih _ (.inl hmem)
      · exact ih _ (.inr (hkeep q types hfound))
  obtain ⟨keys, hkeys, hmem⟩ := hfold parents .empty (.inl hp)
  exact ⟨keys, Assoc.mem_of_get? hkeys, hmem⟩

theorem filedByType?_eq (type : String) (related : Schema) (row : Row) :
    Relation.filedByType? type related row =
      (Key.composite? [.text type, (Record.hydrate related row).value related.primaryKey]).map
        fun k => (k, Record.hydrate related row) :=
  (Option.map_eq_bind ..).symm

theorem recordsOf_filedByType (type : String) (related : Schema) (rows : List Row) (toOne : Bool)
    (k : Key) :
    Matches.recordsOf ⟨toOne, rows.filterMap (Relation.filedByType? type related)⟩ k =
      (rows.filter fun row => Key.composite? [.text type,
        (Record.hydrate related row).value related.primaryKey] = some k).map
          (Record.hydrate related) := by
  unfold Matches.recordsOf
  induction rows with
  | nil => rfl
  | cons row rest ih =>
    rw [List.filterMap_cons, filedByType?_eq]
    cases hkey : Key.composite? [.text type,
        (Record.hydrate related row).value related.primaryKey] with
    | none => simpa [hkey] using ih
    | some k' =>
      by_cases heq : k' = k
      · simpa [hkey, heq] using ih
      · simpa [hkey, heq] using ih

/-- Of what is found for a list of types, only one type matters for a key. -/
theorem recordsOf_flatMap {entries : List (String × List Value)}
    (hnodup : (entries.map Prod.fst).Nodup) {f : String × List Value → List (Key × Record)}
    {e : String × List Value} (he : e ∈ entries) {k : Key}
    (hothers : ∀ e' ∈ entries, e'.1 ≠ e.1 → ∀ x ∈ f e', x.1 ≠ k) (toOne : Bool) :
    Matches.recordsOf ⟨toOne, entries.flatMap f⟩ k = Matches.recordsOf ⟨toOne, f e⟩ k := by
  have hnone : ∀ some : List (String × List Value), (∀ e' ∈ some, e' ∈ entries ∧ e'.1 ≠ e.1) →
      ((some.flatMap f).filter fun x => x.1 = k) = [] := by
    intro some hsome
    refine List.filter_eq_nil_iff.mpr fun x hx hk => ?_
    obtain ⟨e', he', hx⟩ := List.mem_flatMap.mp hx
    exact hothers e' (hsome e' he').1 (hsome e' he').2 x hx (of_decide_eq_true hk)
  obtain ⟨before, after, rfl⟩ := List.append_of_mem he
  rw [List.map_append, List.map_cons, List.nodup_append, List.nodup_cons] at hnodup
  obtain ⟨-, ⟨hafter, -⟩, hbefore⟩ := hnodup
  have hfirst := hnone before fun e' he' => ⟨List.mem_append_left _ he', fun heq =>
    hbefore _ (List.mem_map.mpr ⟨e', he', rfl⟩) _ (List.mem_cons_self ..) heq⟩
  have hlast := hnone after fun e' he' => ⟨List.mem_append_right _ (List.mem_cons_of_mem _ he'),
    fun heq => hafter (List.mem_map.mpr ⟨e', he', heq⟩)⟩
  unfold Matches.recordsOf
  rw [List.flatMap_append, List.flatMap_cons, List.filter_append, List.filter_append, hfirst, hlast,
    List.append_nil, List.nil_append]

theorem exists_composite_of_mem_foundOf {e : String × List Value} {x : Key × Record}
    (h : x ∈ Relation.foundOf s candidates e) :
    ∃ v, Key.composite? [.text e.1, v] = some x.1 := by
  unfold Relation.foundOf at h
  split at h
  · cases h
  · obtain ⟨row, -, hrow⟩ := List.mem_filterMap.mp h
    rw [filedByType?_eq] at hrow
    obtain ⟨k, hk, rfl⟩ := Option.map_eq_some_iff.mp hrow
    exact ⟨_, hk⟩

/-- Of the rows under the keys of a type, those with the key of one record are left. -/
theorem filter_rowsUnder {related : Schema} {rows : List Row} {type : String} {keys : List Value}
    {v : Value} {key k : Key} (hv : v ∈ keys) (hkey : v.key? = some key)
    (hk : Key.composite? [.text type, v] = some k)
    (hcast : ∀ row ∈ rows, ((Record.hydrate related row).value related.primaryKey).key? =
      (related.rowKey row).key?) :
    ((Relation.rowsUnder related rows (Key.distinct id keys)).filter fun row =>
        Key.composite? [.text type, (Record.hydrate related row).value related.primaryKey] =
          some k) = Relation.rowsUnder related rows [v] := by
  unfold Relation.rowsUnder
  rw [List.filter_filter]
  refine List.filter_congr fun row hrow => ?_
  have hfiled : Key.composite? [.text type,
      (Record.hydrate related row).value related.primaryKey] = some k ↔
      (related.rowKey row).key? = v.key? := by
    rw [composite?_eq_iff hk, hcast row hrow]
  by_cases hrowKey : (related.rowKey row).key? = v.key?
  · obtain ⟨u, hu, hukey⟩ := exists_mem_distinct id hv hkey
    have hany : ∃ u ∈ Key.distinct id keys, (related.rowKey row).key? = u.key? :=
      ⟨u, hu, by rw [hrowKey, hkey]; exact hukey.symm⟩
    simp [hfiled, hrowKey] at hany ⊢
    exact hany
  · simp [hfiled, hrowKey]

theorem parentKey?_typed (hkind : r.kind = .morphTo) (p : Record) :
    r.parentKey? p = (p.value r.morphTypeColumn).typeAlias?.bind fun type =>
      Key.composite? [.text type, p.value r.parentColumn] := by
  unfold Relation.parentKey?
  rw [hkind]
  rfl

/-- A record finds in a batch what it would be given alone. -/
theorem loaded_typed (hkind : r.kind = .morphTo) (happart : r.Distinguishes s parents candidates)
    {p : Record} (hp : p ∈ parents) (hdefault : p.value r.parentColumn ≠ .default) :
    Matches.loaded ⟨true, (r.keysByType parents).entries.flatMap (Relation.foundOf s candidates)⟩
      (r.parentKey? p) = r.typed s candidates p := by
  rw [parentKey?_typed hkind p]
  unfold Relation.typed
  cases htype : (p.value r.morphTypeColumn).typeAlias? with
  | none => rfl
  | some type =>
    rw [Option.bind_some]
    cases hnull : (p.value r.parentColumn).isNull with
    | true =>
      have hnone : (p.value r.parentColumn).keyChars? = none := by
        cases hv : p.value r.parentColumn <;> rw [hv] at hnull <;> first | rfl | cases hnull
      rw [composite?_type, hnone]
      rfl
    | false =>
      obtain ⟨key, hkey⟩ := exists_key? hnull hdefault
      obtain ⟨k, hk⟩ := exists_composite? type hkey
      obtain ⟨keys, hentry, hmem⟩ := exists_keysByType hp htype hnull
      have hothers : ∀ e ∈ (r.keysByType parents).entries, e.1 ≠ type →
          ∀ x ∈ Relation.foundOf s candidates e, x.1 ≠ k := by
        rintro e he hne x hx rfl
        obtain ⟨v, hv⟩ := exists_composite_of_mem_foundOf hx
        have hstored : e.1 ∈ r.types parents :=
          Relation.mem_types_of_keysByType (List.mem_map.mpr ⟨e, he, rfl⟩)
        have hnamed : type ∈ r.types parents := Relation.mem_types.mpr ⟨p, hp, htype⟩
        exact hne (type_of_composite? (happart.types _ hstored _ hnamed)
          (happart.types _ hnamed _ hstored) hv hk)
      rw [hk]
      show Loaded.shaped true (Matches.recordsOf _ k) = _
      rw [recordsOf_flatMap (r.keysByType parents).nodup_names hentry hothers]
      unfold Relation.foundOf
      cases hresolve : s.morphs.resolve type with
      | error f => simp only [hresolve]; rfl
      | ok related =>
        have hcast := happart.cast type (Relation.mem_types.mpr ⟨p, hp, htype⟩) related hresolve
        simp only [hresolve]
        rw [recordsOf_filedByType, filter_rowsUnder hmem hkey hk hcast]
        rfl

/-! ## All records -/

/-- Each record that is loaded together with others holds what its relation alone gives, if the rows
they refer to are told apart. The records may be of several tables. -/
theorem load_types_agree {name : String} {paths : List String}
    (hkind : ∀ p ∈ parents, ∃ r, p.schema.relation name = .ok r ∧ r.kind = .morphTo)
    (hsame : ∀ p ∈ parents, ∀ q ∈ parents, p.schema.table = q.schema.table →
      p.schema.relation name = q.schema.relation name)
    (hanswers : ∀ p ∈ parents, ∀ r, p.schema.relation name = .ok r →
      r.AnswersTypes s (Record.ofTable p.schema.table parents) candidates)
    (happart : ∀ p ∈ parents, ∀ r, p.schema.relation name = .ok r →
      r.Distinguishes s (Record.ofTable p.schema.table parents) candidates)
    (hpaths : PathForest.read paths = .ok (.relation name .none .none)) (w : σ)
    (hload : (((s.load paths).runOn parents).run w).1.1 = .ok ()) (i : Nat) (p : Record)
    (hp : parents[i]? = some p) (r : Relation) (hname : p.schema.relation name = .ok r)
    (hdefault : p.value r.parentColumn ≠ .default) :
    ∃ p' l, (((s.load paths).runOn parents).run w).1.2[i]? = some p' ∧
      p'.relation? name = some l ∧
      ∀ w' l', ((s.loadAlone p name).run w').1 = .ok l' → l' = l := by
  rcases hrun : ((s.load paths).runOn parents).run w with ⟨⟨o, loaded⟩, w₁⟩
  rw [hrun] at hload
  cases hload
  have hmem : p ∈ parents := List.mem_of_getElem? hp
  obtain ⟨q, hq, htable, p₁, p', hreceives, hp', hrelation⟩ := load_single_ok hpaths hrun hp
  obtain ⟨r', m, w₂, w₃, hname', hbatch, rfl⟩ := hreceives
  rw [hsame q hq p hmem htable, hname] at hname'
  cases hname'
  obtain ⟨r', hr', hmorph⟩ := hkind p hmem
  rw [hname] at hr'
  cases hr'
  have hofTable : p ∈ Record.ofTable p.schema.table parents :=
    List.mem_filter.mpr ⟨hmem, decide_eq_true rfl⟩
  have hanswered := hanswers p hmem r hname
  rw [batch_types_ok hmorph hanswered hbatch,
    loaded_typed hmorph (happart p hmem r hname) hofTable hdefault,
    Record.relation?_setRelation] at hrelation
  refine ⟨p', _, hp', hrelation, fun w' l' halone => ?_⟩
  rcases hone : (s.loadAlone p name).run w' with ⟨o, w''⟩
  rw [hone] at halone
  cases halone
  exact loadAlone_typed hmorph hanswered hofTable hname hdefault hone

end Types

/-! ### Comments on posts and videos -/

section Comments

set_option maxRecDepth 100000

def commentable : Relation := Relation.plain "commentable" .morphTo none

def commentsOf (table : String) : Schema :=
  { Schema.plain table with relations := [commentable] }

def commentOn (table type : String) (id : Value) : Record :=
  .hydrate (commentsOf table) ⟨["commentable_type", "commentable_id"], [.text type, id]⟩

/-- A row that has nothing but a key. -/
def keyRow (id : Value) : Row := ⟨["id"], [id]⟩

/-- Posts have their key cast to a text. -/
def media : List (Schema × List Row) :=
  [({ Schema.plain "posts" with casts := NameMap.ofList [("id", .string)] },
      [keyRow (.int64 10)]),
    (.plain "videos", [keyRow (.text "v"), keyRow (.text "w")]),
    (.plain "albums", [keyRow (.text "c")])]

def schemaOf (table : String) : Schema :=
  ((media.map Prod.fst).find? fun schema => schema.table = table).getD (.plain table)

/-- The last type is the second one with a bar and more behind it. -/
def mediaTypes : MorphMap :=
  ⟨NameMap.ofList [("post", schemaOf "posts"), ("video", schemaOf "videos"),
    ("album", schemaOf "albums"), ("video|s:b", schemaOf "albums")]⟩

def mediaRows (schema : Schema) : List Row :=
  ((media.find? fun t => t.1.table = schema.table).map Prod.snd).getD []

/-- Answers with the rows under the keys that are bound. No key is in two tables. -/
def mediaWorld : World Unit where
  query st _ := (.ok (media.flatMap fun t => Relation.rowsUnder t.1 t.2 st.values), ())
  execute _ _ := (.ok ⟨0, none⟩, ())
  connect _ := (.ok (), ())
  disconnect _ := (.ok (), ())
  now _ := (⟨0, ⟨0, 0⟩⟩, ())
  freshUuid _ := (⟨0⟩, ())

def mediaSession : Session Unit :=
  ⟨mediaWorld, .sqlite, ⟨[]⟩, mediaTypes, .none, .standard, 0⟩

/-- Comments of two tables on rows that are told apart. -/
def plainComments : List Record :=
  [commentOn "comments" "video" (.text "w"), commentOn "notes" "album" (.text "c"),
    commentOn "comments" "album" (.text "d")]

/-- Comments on rows that are not told apart. -/
def misledComments : List Record :=
  [commentOn "comments" "post" (.int64 10), commentOn "comments" "video" (.text "b|s:c"),
    commentOn "comments" "video|s:b" (.text "c")]

def mediaEntries : List (String × List Value) :=
  [("post", [.int64 10]), ("video", [.text "b|s:c"]), ("video|s:b", [.text "c"]),
    ("album", [.text "d"]), ("video", [.text "w"]), ("album", [.text "c"])]

theorem media_answers {parents : List Record} (hparents : parents ⊆ plainComments ++ misledComments)
    (hentries : (commentable.keysByType parents).entries ⊆ mediaEntries) :
    commentable.AnswersTypes mediaSession parents mediaRows := by
  refine ⟨fun p hp _ b related q st w hb hrelated hq hst => ?_,
    fun e he related q st w hresolve hq hst => ?_⟩
  · have hp := hparents hp
    simp only [plainComments, misledComments, List.cons_append, List.nil_append, List.mem_cons,
      List.not_mem_nil, or_false] at hp
    rcases hp with rfl | rfl | rfl | rfl | rfl | rfl <;> cases hb <;> cases hrelated <;>
      cases hq <;> cases hst <;> rfl
  · have he := hentries he
    simp only [mediaEntries, List.mem_cons, List.not_mem_nil, or_false] at he
    rcases he with rfl | rfl | rfl | rfl | rfl | rfl <;> cases hresolve <;> cases hq <;>
      cases hst <;> rfl

theorem plainComments_distinguished {parents : List Record} (hparents : parents ⊆ plainComments) :
    commentable.Distinguishes mediaSession parents mediaRows := by
  have htypes : ∀ type ∈ commentable.types parents, type = "video" ∨ type = "album" := by
    intro type htype
    obtain ⟨p, hp, hname⟩ := Relation.mem_types.mp htype
    have hp := hparents hp
    simp only [plainComments, List.mem_cons, List.not_mem_nil, or_false] at hp
    rcases hp with rfl | rfl | rfl <;> cases hname
    · exact .inl rfl
    · exact .inr rfl
    · exact .inr rfl
  refine ⟨fun type htype related hresolve row _ => ?_, fun a ha b hb => ?_⟩
  · rcases htypes type htype with rfl | rfl <;> cases hresolve <;>
      exact congrArg Value.key? (value_hydrate_of_uncast rfl row)
  · unfold ExtendsType
    rcases htypes a ha with rfl | rfl <;> rcases htypes b hb with rfl | rfl <;> decide

theorem load_types_agree_media :
    (∀ p ∈ plainComments, ∃ r, p.schema.relation "commentable" = .ok r ∧ r.kind = .morphTo) ∧
    (∀ p ∈ plainComments, ∀ q ∈ plainComments, p.schema.table = q.schema.table →
      p.schema.relation "commentable" = q.schema.relation "commentable") ∧
    (∀ p ∈ plainComments, ∀ r, p.schema.relation "commentable" = .ok r →
      r.AnswersTypes mediaSession (Record.ofTable p.schema.table plainComments) mediaRows) ∧
    (∀ p ∈ plainComments, ∀ r, p.schema.relation "commentable" = .ok r →
      r.Distinguishes mediaSession (Record.ofTable p.schema.table plainComments) mediaRows) ∧
    PathForest.read ["commentable"] = .ok (.relation "commentable" .none .none) ∧
    (((mediaSession.load ["commentable"]).runOn plainComments).run ()).1.1 = .ok () ∧
    ∃ p' l, (((mediaSession.load ["commentable"]).runOn plainComments).run ()).1.2[0]? = some p' ∧
      p'.relation? "commentable" = some l ∧
      ((mediaSession.loadAlone (commentOn "comments" "video" (.text "w")) "commentable").run ()).1 =
        .ok l ∧ l.isEmpty = false := by
  have hrelation : ∀ p ∈ plainComments, p.schema.relation "commentable" = .ok commentable := by
    intro p hp
    simp only [plainComments, List.mem_cons, List.not_mem_nil, or_false] at hp
    rcases hp with rfl | rfl | rfl <;> rfl
  have hrelations : ∀ p ∈ plainComments, ∀ r, p.schema.relation "commentable" = .ok r →
      r = commentable := by
    intro p hp r hr
    rw [hrelation p hp] at hr
    exact (Except.ok.inj hr).symm
  have hkind : ∀ p ∈ plainComments,
      ∃ r, p.schema.relation "commentable" = .ok r ∧ r.kind = .morphTo :=
    fun p hp => ⟨commentable, hrelation p hp, rfl⟩
  have hsame : ∀ p ∈ plainComments, ∀ q ∈ plainComments, p.schema.table = q.schema.table →
      p.schema.relation "commentable" = q.schema.relation "commentable" :=
    fun p hp q hq _ => (hrelation p hp).trans (hrelation q hq).symm
  have hsome : ∀ table, Record.ofTable table plainComments ⊆ plainComments :=
    fun table p hp => (List.mem_filter.mp hp).1
  have hanswers : ∀ p ∈ plainComments, ∀ r, p.schema.relation "commentable" = .ok r →
      r.AnswersTypes mediaSession (Record.ofTable p.schema.table plainComments) mediaRows := by
    intro p hp r hr
    rw [hrelations p hp r hr]
    refine media_answers (List.subset_append_of_subset_left _ (hsome _)) ?_
    have hcomments : (commentable.keysByType (Record.ofTable "comments" plainComments)).entries =
        [("album", [.text "d"]), ("video", [.text "w"])] := rfl
    have hnotes : (commentable.keysByType (Record.ofTable "notes" plainComments)).entries =
        [("album", [.text "c"])] := rfl
    simp only [plainComments, List.mem_cons, List.not_mem_nil, or_false] at hp
    rcases hp with rfl | rfl | rfl
    · exact hcomments ▸ by simp [mediaEntries]
    · exact hnotes ▸ by simp [mediaEntries]
    · exact hcomments ▸ by simp [mediaEntries]
  have happart : ∀ p ∈ plainComments, ∀ r, p.schema.relation "commentable" = .ok r →
      r.Distinguishes mediaSession (Record.ofTable p.schema.table plainComments) mediaRows := by
    intro p hp r hr
    rw [hrelations p hp r hr]
    exact plainComments_distinguished (hsome _)
  have hpaths : PathForest.read ["commentable"] = .ok (.relation "commentable" .none .none) := rfl
  have hload : (((mediaSession.load ["commentable"]).runOn plainComments).run ()).1.1 = .ok () := by
    decide +kernel
  refine ⟨hkind, hsame, hanswers, happart, hpaths, hload, ?_⟩
  obtain ⟨p', l, hp', hl, halone⟩ := load_types_agree hkind hsame hanswers happart hpaths () hload 0
    (commentOn "comments" "video" (.text "w")) rfl commentable rfl (fun h => by cases h)
  have hfound : ((mediaSession.loadAlone (commentOn "comments" "video" (.text "w"))
      "commentable").run ()).1 =
        .ok (.one (some (.hydrate (schemaOf "videos") (keyRow (.text "w"))))) := rfl
  have hsame := halone () _ hfound
  refine ⟨p', l, hp', hl, ?_, ?_⟩
  · rw [← hsame]
    exact hfound
  · rw [← hsame]
    rfl

/-- What a relation of records holds, by the tables and keys. -/
def Loaded.shown (l : Loaded) : List (String × String) :=
  l.records.map fun p => (p.schema.table, (p.value "id").display)

/-- A post is not found although it is there, since its key is cast; and an album is taken for a
video, since the type of the one is that of the other with a bar behind it. -/
theorem types_misled :
    commentable.AnswersTypes mediaSession misledComments mediaRows ∧
    ((((mediaSession.load ["commentable"]).runOn misledComments).run ()).1.2.map fun p =>
      (p.relation? "commentable").map Loaded.shown) =
        [some [], some [("albums", "c")], some [("albums", "c")]] ∧
    (misledComments.map fun p =>
      ((mediaSession.loadAlone p "commentable").run ()).1.toOption.map Loaded.shown) =
        [some [("posts", "10")], some [], some [("albums", "c")]] := by
  refine ⟨media_answers (List.subset_append_right _ _) ?_, by decide +kernel, by decide +kernel⟩
  have hentries : (commentable.keysByType misledComments).entries =
      [("post", [.int64 10]), ("video", [.text "b|s:c"]), ("video|s:b", [.text "c"])] := rfl
  rw [hentries]
  simp [mediaEntries]

end Comments

end RecordMapper
