import RecordMapper.Proofs.Related.StoredTypes

/-!
Loading a relation of many records, or of each of them alone.

* The first record of a table speaks for all records of it: `Record.speaker?` is its schema.
* `Relation.Serves` is a database that has one list of rows, of which it gives those that name a
  parent whose key is asked for. It answers for one record as it does for many.
* A batch finds for each of its records what a batch of this record alone does (`batch_alone`).
* `load_as_alone`: so every record holds what it holds if it is loaded alone, provided that its
  schema declares the relation as the one that speaks for it. In `load_misspoken` one does not.
-/
namespace RecordMapper

set_option autoImplicit false

/-! ## Who speaks for a table -/

namespace Record

/-- The schema of the first record of a table. -/
def speaker? (table : String) (records : List Record) : Option Schema :=
  (records.find? fun p => p.schema.table = table).map Record.schema

theorem get?_tables (table : String) (records : List Record) :
    Assoc.get? table (tables records) = speaker? table records := by
  induction records with
  | nil => rfl
  | cons p rest ih =>
    have htables : tables (p :: rest) = Assoc.insert p.schema.table p.schema (tables rest) := by
      unfold tables Assoc.insertAll
      rw [List.reverse_cons, List.map_append, List.foldl_append]
      rfl
    rw [htables, Assoc.get?_insert, ih]
    unfold speaker?
    rw [List.find?_cons]
    by_cases htable : p.schema.table = table
    · rw [if_pos htable.symm, decide_eq_true htable]
      rfl
    · rw [if_neg (Ne.symm htable), decide_eq_false htable]

theorem exists_speaker? {p : Record} {records : List Record} (hp : p ∈ records) :
    ∃ schema, speaker? p.schema.table records = some schema := by
  obtain ⟨q, -, -, hget⟩ := exists_get?_tables hp
  exact ⟨q.schema, (get?_tables _ _).symm.trans hget⟩

theorem table_of_speaker? {table : String} {records : List Record} {schema : Schema}
    (h : speaker? table records = some schema) : schema.table = table := by
  obtain ⟨q, hq, rfl⟩ := Option.map_eq_some_iff.mp h
  have htable := List.find?_some hq
  exact of_decide_eq_true htable

theorem mem_of_get?_tables {table : String} {records : List Record} {schema : Schema}
    (h : Assoc.get? table (tables records) = some schema) : ∃ p ∈ records, p.schema = schema := by
  rw [get?_tables] at h
  obtain ⟨q, hq, rfl⟩ := Option.map_eq_some_iff.mp h
  exact ⟨q, List.mem_of_find?_eq_some hq, rfl⟩

end Record

/-! ## Databases -/

namespace Relation

variable {σ : Type}

/-- The key of the parent that a row of a batch names. -/
def filedKey? (r : Relation) (row : Row) : Option Key := (r.ownerOf row).1.bind Value.key?

/-- The rows that name a parent with any of these keys. -/
def rowsNaming (r : Relation) (rows : List Row) (keys : List Value) : List Row :=
  rows.filter fun row => (r.filedKey? row).any fun k => ∃ v ∈ keys, v.key? = some k

/-- A database that answers the batch of these records with the rows that name any of them. -/
structure Serves (r : Relation) (s : Session σ) (schema : Schema) (rows : Schema → List Row)
    (records : List Record) : Prop where
  named : r.kind ≠ .morphTo → ∀ (related : Schema) (q : Query) (st : Statement) (w : σ),
    s.catalog.related? r = some related →
    r.batchQuery s schema related (r.parentValues records) = .ok q → q.statement = .ok st →
    (s.world.query st w).1 = .ok (r.rowsNaming (rows related) (r.parentValues records))
  typed : r.kind = .morphTo → r.AnswersAny s records rows

end Relation

section Together

variable {σ : Type} {s : Session σ} {r : Relation} {schema : Schema} {rows : Schema → List Row}

/-! ## One related table -/

theorem filed?_key (r : Relation) (related : Schema) (row : Row) :
    (r.filed? related row).map Prod.fst = r.filedKey? row := by
  unfold Relation.filed? Relation.filedKey?
  obtain ⟨owner, kept⟩ := r.ownerOf row
  cases owner with
  | none => rfl
  | some v =>
    show (v.key?.bind fun k => some (k, _)).map Prod.fst = v.key?
    cases v.key? <;> rfl

/-- Rows that name other parents do not matter for a key. -/
theorem recordsOf_rowsNaming (r : Relation) (related : Schema) (found : List Row)
    {keys : List Value} {k : Key} (hk : ∃ v ∈ keys, v.key? = some k) (toOne : Bool) :
    Matches.recordsOf ⟨toOne, (r.rowsNaming found keys).filterMap (r.filed? related)⟩ k =
      Matches.recordsOf ⟨toOne, found.filterMap (r.filed? related)⟩ k := by
  unfold Matches.recordsOf Relation.rowsNaming
  refine congrArg (List.map Prod.snd) ?_
  induction found with
  | nil => rfl
  | cons row rest ih =>
    have hkey := filed?_key r related row
    rw [List.filter_cons, List.filterMap_cons]
    cases hfiled : r.filed? related row with
    | none =>
      rw [hfiled] at hkey
      have hnone : r.filedKey? row = none := hkey.symm
      rw [hnone]
      exact ih
    | some f =>
      rw [hfiled] at hkey
      have hsome : r.filedKey? row = some f.1 := hkey.symm
      rw [hsome, Option.any_some]
      by_cases hnamed : ∃ v ∈ keys, v.key? = some f.1
      · rw [if_pos (decide_eq_true hnamed), List.filterMap_cons, hfiled]
        simp only [List.filter_cons, ih]
      · have hother : f.1 ≠ k := fun heq => hnamed (heq ▸ hk)
        rw [if_neg (by simpa using hnamed), ih, List.filter_cons]
        simp [hother]

theorem declared_of_batchQuery (hkind : r.kind ≠ .morphTo) {related : Schema} {keys : List Value}
    {q : Query} (hrelated : s.catalog.related? r = some related)
    (h : r.batchQuery s schema related keys = .ok q) : r.Declared s.catalog related := by
  obtain ⟨candidates, hcandidates, -⟩ := ok_of_bind h
  refine ⟨hkind, hrelated, fun hk => ?_, fun hk => ?_⟩
  · cases hp : r.pivot with
    | some p => exact ⟨p, rfl⟩
    | none =>
      unfold Relation.candidates Relation.requirePivot at hcandidates
      rw [hk, hp] at hcandidates
      cases hcandidates
  · cases ht : r.through with
    | some t => exact ⟨t, rfl⟩
    | none =>
      unfold Relation.candidates Relation.throughCandidates Relation.requireThrough at hcandidates
      rcases hk with hk | hk <;> rw [hk, ht] at hcandidates <;> cases hcandidates

/-- Of a batch that succeeds, the related table has a name. -/
theorem table_of_batchQuery (hkind : r.kind ≠ .morphTo) {related : Schema} {keys : List Value}
    {q : Query} (hrelated : s.catalog.related? r = some related)
    (hq : r.batchQuery s schema related keys = .ok q) {st : Statement} (hst : q.statement = .ok st) :
    (Text.trim related.table).isEmpty = false := by
  obtain ⟨q', hq', hreads⟩ := (declared_of_batchQuery hkind hrelated hq).batchQuery schema keys
  rw [hq] at hq'
  cases hq'
  rw [← hreads.1]
  exact Query.table_of_statement hst

theorem related_of_required {catalog : Catalog} {related : Schema}
    (h : r.requireRelated catalog = .ok related) : catalog.related? r = some related := by
  unfold Relation.requireRelated at h
  cases hrelated : catalog.related? r with
  | none =>
    rw [hrelated] at h
    cases h
  | some related' =>
    rw [hrelated] at h
    cases h
    rfl

theorem batchOne_ok {records : List Record} {m : Matches} {w w' : σ}
    (h : (r.batchOne s schema records).run w = (.ok m, w')) :
    r.parentValues records = [] ∧ m = ⟨r.kind.isToOne, []⟩ ∨
      ∃ related q st found w₁, s.catalog.related? r = some related ∧
        r.batchQuery s schema related (r.parentValues records) = .ok q ∧ q.statement = .ok st ∧
        (s.world.query st w₁).1 = .ok found ∧
        m = ⟨r.kind.isToOne, found.filterMap (r.filed? related)⟩ := by
  unfold Relation.batchOne at h
  cases hvalues : r.parentValues records with
  | nil =>
    rw [hvalues] at h
    cases h
    exact .inl ⟨rfl, rfl⟩
  | cons v rest =>
    rw [hvalues] at h
    right
    obtain ⟨related, w₁, hrequire, h⟩ := Action.ok_of_run_bind h
    obtain ⟨q, w₂, hq, h⟩ := Action.ok_of_run_bind h
    obtain ⟨found, w₃, hrows, h⟩ := Action.ok_of_run_bind h
    cases h
    unfold Query.rows at hrows
    obtain ⟨st, w₄, hst, hquery⟩ := Action.ok_of_run_bind hrows
    exact ⟨related, q, st, found, w₄, related_of_required (Action.ok_of_ofResult hrequire),
      Action.ok_of_ofResult hq, Action.ok_of_ofResult hst, congrArg Prod.fst hquery, rfl⟩

theorem batchOne_run {records : List Record} {related : Schema} {q : Query} {st : Statement}
    {found : List Row} {w : σ} (hne : r.parentValues records ≠ [])
    (hrelated : s.catalog.related? r = some related)
    (hq : r.batchQuery s schema related (r.parentValues records) = .ok q)
    (hst : q.statement = .ok st) (hfound : (s.world.query st w).1 = .ok found) :
    (r.batchOne s schema records).run w =
      (.ok ⟨r.kind.isToOne, found.filterMap (r.filed? related)⟩, (s.world.query st w).2) := by
  have hrequire : r.requireRelated s.catalog = .ok related := by
    unfold Relation.requireRelated
    rw [hrelated]
  unfold Relation.batchOne
  cases hvalues : r.parentValues records with
  | nil => exact absurd hvalues hne
  | cons v rest =>
    rw [hvalues] at hq
    show (Action.ofResult (r.requireRelated s.catalog) >>= _).run w = _
    rw [hrequire]
    show (Action.ofResult (r.batchQuery s schema related (v :: rest)) >>= _).run w = _
    rw [hq]
    exact Action.run_bind_ok (rows_run hst hfound)

theorem parentValues_single (r : Relation) (p : Record) :
    r.parentValues [p] = if (p.value r.parentColumn).key?.isSome then [p.value r.parentColumn]
      else [] := by
  unfold Relation.parentValues Key.distinct
  cases hkey : (p.value r.parentColumn).key? <;> simp [Key.distinctFrom, hkey]

theorem batchOne_alone (hkind : r.kind ≠ .morphTo) {records : List Record} {p : Record}
    (hp : p ∈ records) (hall : r.Serves s schema rows records) (hone : r.Serves s schema rows [p])
    {m : Matches} {w w' : σ} (h : (r.batchOne s schema records).run w = (.ok m, w')) (w₁ : σ) :
    ∃ m' w₂, (r.batchOne s schema [p]).run w₁ = (.ok m', w₂) ∧
      m'.loaded (p.value r.parentColumn).key? = m.loaded (p.value r.parentColumn).key? := by
  have hsingle := parentValues_single r p
  have hrun := batchOne_ok h
  cases hkey : (p.value r.parentColumn).key? with
  | none =>
    rw [hkey] at hsingle
    have hnothing : (r.batchOne s schema [p]).run w₁ = (.ok ⟨r.kind.isToOne, []⟩, w₁) := by
      unfold Relation.batchOne
      rw [hsingle]
      rfl
    refine ⟨_, _, hnothing, ?_⟩
    rcases hrun with ⟨-, rfl⟩ | ⟨related, q, st, found, w₃, -, -, -, -, rfl⟩ <;> rfl
  | some k =>
    rw [hkey] at hsingle
    obtain ⟨v, hv, hvk⟩ := exists_mem_parentValues hp hkey
    rcases hrun with ⟨hnil, -⟩ | ⟨related, q, st, found, w₃, hrelated, hq, hst, hfound, rfl⟩
    · rw [hnil] at hv
      cases hv
    · have hmany := hall.named hkind related q st w₃ hrelated hq hst
      rw [hfound] at hmany
      cases hmany
      -- The query for one record differs only in its keys, so it has a statement too.
      have htable := table_of_batchQuery hkind hrelated hq hst
      obtain ⟨q₁, hq₁, hreads⟩ :=
        (declared_of_batchQuery hkind hrelated hq).batchQuery schema (r.parentValues [p])
      obtain ⟨st₁, hst₁⟩ := hreads.2.exists_statement (by rw [hreads.1]; exact htable)
      have hfew := hone.named hkind related q₁ st₁ w₁ hrelated hq₁ hst₁
      have hmem : p.value r.parentColumn ∈ r.parentValues [p] := by
        rw [hsingle]
        exact List.mem_singleton.mpr rfl
      refine ⟨_, _, batchOne_run (List.ne_nil_of_mem hmem) hrelated hq₁ hst₁ hfew, ?_⟩
      show Loaded.shaped _ (Matches.recordsOf _ k) = Loaded.shaped _ (Matches.recordsOf _ k)
      rw [recordsOf_rowsNaming r related _ ⟨_, hmem, hkey⟩,
        recordsOf_rowsNaming r related _ ⟨v, hv, hvk⟩]

/-! ## One table for each stored type -/

theorem typeQuery_reads (hkind : r.kind = .morphTo) (related : Schema) (keys : List Value) :
    ∃ q, r.typeQuery s related keys = .ok q ∧ Relation.Reads related q := by
  have hcandidates : r.candidates related s.dialect =
      .ok (Relation.withoutTrashed related (Relation.plainCandidates related s.dialect)) := by
    unfold Relation.candidates
    rw [hkind]
    rfl
  have hcolumn : r.keyColumn related = .ok (related.qualified related.primaryKey) := by
    unfold Relation.keyColumn
    rw [hkind]
  have hreads := (Relation.reads_plain related s.dialect).withoutTrashed
  refine ⟨_, ?_, ((hreads.withOwner (r := r) (related.qualified related.primaryKey)).scope
    fun d => Relation.exists_isIn (related.qualified related.primaryKey) (Key.distinct id keys)
      false d).ofParentType (r := r) none⟩
  unfold Relation.typeQuery Relation.ownedByAny
  rw [hcandidates, hcolumn]
  rfl

theorem batchTypes_parts {entries : List (String × List Value)} {found : List (Key × Record)}
    {w w' : σ} (h : (r.batchTypes s entries).run w = (.ok found, w')) :
    ∀ e ∈ entries, ∃ some w₁ w₂, (r.batchType s e.1 e.2).run w₁ = (.ok some, w₂) := by
  induction entries generalizing found w w' with
  | nil => exact fun e he => absurd he List.not_mem_nil
  | cons e rest ih =>
    unfold Relation.batchTypes at h
    obtain ⟨first, w₁, hone, h⟩ := Action.ok_of_run_bind h
    obtain ⟨others, w₂, hothers, -⟩ := Action.ok_of_run_bind h
    intro e' he'
    rcases List.mem_cons.mp he' with rfl | he'
    · exact ⟨first, _, _, hone⟩
    · exact ih hothers e' he'

theorem batchTypes_run {entries : List (String × List Value)}
    (h : ∀ e ∈ entries, ∀ w, ∃ found w', (r.batchType s e.1 e.2).run w = (.ok found, w')) (w : σ) :
    ∃ found w', (r.batchTypes s entries).run w = (.ok found, w') := by
  induction entries generalizing w with
  | nil => exact ⟨[], w, rfl⟩
  | cons e rest ih =>
    obtain ⟨first, w₁, hone⟩ := h e (List.mem_cons_self ..) w
    obtain ⟨others, w₂, hothers⟩ := ih (fun e he => h e (List.mem_cons_of_mem _ he)) w₁
    refine ⟨first ++ others, w₂, ?_⟩
    unfold Relation.batchTypes
    rw [Action.run_bind_ok hone, Action.run_bind_ok hothers]
    rfl

theorem batchType_run (hkind : r.kind = .morphTo) {records : List Record}
    (hany : r.AnswersAny s records rows) {e : String × List Value}
    (he : e ∈ (r.keysByType records).entries) {related : Schema}
    (hresolve : s.morphs.resolve e.1 = .ok related)
    (htable : (Text.trim related.table).isEmpty = false) (w : σ) :
    ∃ found w', (r.batchType s e.1 e.2).run w = (.ok found, w') := by
  obtain ⟨q, hq, hreads⟩ := typeQuery_reads (s := s) hkind related e.2
  obtain ⟨st, hst⟩ := hreads.2.exists_statement (by rw [hreads.1]; exact htable)
  have hrows := hany e he related q st w hresolve hq hst
  refine ⟨(Relation.rowsUnder related (rows related) (Key.distinct id e.2)).filterMap
    (Relation.filedByType? e.1 related), (s.world.query st w).2, ?_⟩
  unfold Relation.batchType
  show (Action.ofResult (s.morphs.resolve e.1) >>= _).run w = _
  rw [hresolve]
  show (Action.ofResult (r.typeQuery s related e.2) >>= _).run w = _
  rw [hq]
  exact Action.run_bind_ok (rows_run hst hrows)

/-- A record alone refers to one key of one type at most. -/
theorem of_mem_keysByType_single {p : Record} {e : String × List Value}
    (h : e ∈ (r.keysByType [p]).entries) :
    (p.value r.morphTypeColumn).typeAlias? = some e.1 ∧ (p.value r.parentColumn).isNull = false := by
  have hentries : e ∈ (r.addByType .empty p).entries := h
  unfold Relation.addByType at hentries
  cases halias : (p.value r.morphTypeColumn).typeAlias? with
  | none =>
    rw [halias] at hentries
    cases hentries
  | some type =>
    simp only [halias] at hentries
    cases hnull : (p.value r.parentColumn).isNull with
    | true =>
      rw [hnull] at hentries
      cases hentries
    | false =>
      rw [hnull] at hentries
      obtain rfl := List.mem_singleton.mp hentries
      exact ⟨rfl, rfl⟩

theorem distinguishes_single {records : List Record} {p : Record} (hp : p ∈ records)
    (h : r.Distinguishes s records rows) : r.Distinguishes s [p] rows := by
  have htypes : ∀ type ∈ r.types [p], type ∈ r.types records := by
    intro type htype
    obtain ⟨q, hq, hname⟩ := Relation.mem_types.mp htype
    obtain rfl := List.mem_singleton.mp hq
    exact Relation.mem_types.mpr ⟨q, hp, hname⟩
  exact ⟨fun type htype => h.cast type (htypes type htype),
    fun a ha b hb => h.types a (htypes a ha) b (htypes b hb)⟩

theorem batchTypes_alone (hkind : r.kind = .morphTo) {records : List Record} {p : Record}
    (hp : p ∈ records) (hall : r.AnswersAny s records rows) (hone : r.AnswersAny s [p] rows)
    (happart : r.Distinguishes s records rows) {m : Matches} {w w' : σ}
    (h : (r.batch s schema records).run w = (.ok m, w')) (w₁ : σ) :
    ∃ m' w₂, (r.batch s schema [p]).run w₁ = (.ok m', w₂) ∧
      m'.loaded (r.parentKey? p) = m.loaded (r.parentKey? p) := by
  have hrun : ∃ m' w₂, (r.batch s schema [p]).run w₁ = (.ok m', w₂) := by
    have hmany := h
    unfold Relation.batch at hmany ⊢
    rw [hkind] at hmany ⊢
    obtain ⟨found, w₃, hfound, -⟩ := Action.ok_of_run_bind hmany
    have hparts : ∀ e ∈ (r.keysByType [p]).entries, ∀ w,
        ∃ some w', (r.batchType s e.1 e.2).run w = (.ok some, w') := by
      intro e he w
      -- The type of the record is among those of all records, so it is known and has a table.
      obtain ⟨htype, hnull⟩ := of_mem_keysByType_single he
      obtain ⟨keys, hentry, -⟩ := exists_keysByType hp htype hnull
      obtain ⟨some, w₄, w₅, hpart⟩ := batchTypes_parts hfound _ hentry
      obtain ⟨related, q, st, -, -, hresolve, hq, hst, -, -⟩ := batchType_ok (e := (e.1, keys)) hpart
      obtain ⟨q', hq', hreads⟩ := typeQuery_reads (s := s) hkind related keys
      rw [hq] at hq'
      cases hq'
      have htable := Query.table_of_statement hst
      rw [hreads.1] at htable
      exact batchType_run hkind hone he hresolve htable w
    obtain ⟨found', w₂, hfound'⟩ := batchTypes_run hparts w₁
    exact ⟨_, w₂, Action.run_bind_ok hfound'⟩
  obtain ⟨m', w₂, hrun⟩ := hrun
  refine ⟨m', w₂, hrun, ?_⟩
  rw [batch_any_ok hkind hall h, batch_any_ok hkind hone hrun]
  by_cases hdefault : p.value r.parentColumn = .default
  · have hnone : r.parentKey? p = none := by
      rw [parentKey?_typed hkind, hdefault]
      cases (p.value r.morphTypeColumn).typeAlias? with
      | none => rfl
      | some type =>
        rw [Option.bind_some, composite?_type, Value.keyChars?]
        rfl
    rw [hnone]
    rfl
  · rw [loaded_typed hkind happart hp hdefault, loaded_typed hkind (distinguishes_single hp happart)
      (List.mem_singleton.mpr rfl) hdefault]

/-! ## Any relation -/

/-- Of the schema of its records a batch uses nothing but the table. -/
theorem batch_of_table {own : Schema} (h : own.table = schema.table) (records : List Record) :
    r.batch s own records = r.batch s schema records := by
  have htype : r.parentType? s.morphs own = r.parentType? s.morphs schema := by
    unfold Relation.parentType? MorphMap.typeName
    rw [h]
  unfold Relation.batch Relation.batchOne Relation.batchQuery
  rw [htype]

/-- A batch of many records finds for each of them what a batch of it alone does. -/
theorem batch_alone {records : List Record} {p : Record} (hp : p ∈ records)
    (hall : r.Serves s schema rows records) (hone : r.Serves s schema rows [p])
    (happart : r.kind = .morphTo → r.Distinguishes s records rows) {m : Matches} {w w' : σ}
    (h : (r.batch s schema records).run w = (.ok m, w')) (w₁ : σ) :
    ∃ m' w₂, (r.batch s schema [p]).run w₁ = (.ok m', w₂) ∧
      m'.loaded (r.parentKey? p) = m.loaded (r.parentKey? p) := by
  by_cases hkind : r.kind = .morphTo
  · exact batchTypes_alone hkind hp (hall.typed hkind) (hone.typed hkind) (happart hkind) h w₁
  · have hkey : r.parentKey? p = (p.value r.parentColumn).key? := by
      unfold Relation.parentKey?
      cases hk : r.kind <;> first | rfl | exact absurd hk hkind
    rw [batch_eq hkind] at h ⊢
    rw [hkey]
    exact batchOne_alone hkind hp hall hone h w₁

/-! ## What is not found -/

/-- The result is not missing because something was not found. -/
def Result.Found {α : Type} (x : Result α) : Prop := ∀ f, x = .error f → f.isNotFound = false

/-- The action does not halt because something was not found. -/
def Action.Finds {α : Type} (a : Action σ α) : Prop :=
  ∀ w f w', a.run w = (.error (.fault f), w') → f.isNotFound = false

section Finding

variable {α β : Type}

theorem found_ok (a : α) : Result.Found (.ok a) := fun _ h => by cases h

theorem found_misconfigured (cause : ConfigCause) :
    Result.Found (.error (.misconfigured cause) : Result α) := by
  intro f h
  cases h
  rfl

theorem Result.Found.bind {x : Result β} {g : β → Result α} (hx : x.Found)
    (hg : ∀ b, x = .ok b → (g b).Found) : Result.Found (x >>= g) := by
  intro f h
  cases hb : x with
  | error f' =>
    rw [hb] at h
    cases h
    exact hx f hb
  | ok b =>
    rw [hb] at h
    exact hg b hb f h

theorem finds_pure (a : α) : Action.Finds (pure a : Action σ α) := by
  intro w f w' h
  cases h

theorem finds_ofResult {x : Result α} (hx : x.Found) :
    Action.Finds (Action.ofResult x : Action σ α) := by
  intro w f w' h
  cases hb : x with
  | error f' =>
    rw [hb] at h
    cases h
    exact hx f hb
  | ok a =>
    rw [hb] at h
    cases h

theorem Action.Finds.bind {a : Action σ β} {g : β → Action σ α} (ha : a.Finds)
    (hg : ∀ b w w', a.run w = (.ok b, w') → (g b).Finds) : Action.Finds (a >>= g) := by
  intro w f w' h
  rcases Action.error_of_run_bind h with h | ⟨b, w₁, hb, h⟩
  · exact ha w f w' h
  · exact hg b w w₁ hb w₁ f w' h

end Finding

theorem requirePivot_found (r : Relation) : r.requirePivot.Found := by
  unfold Relation.requirePivot
  split
  · exact found_ok _
  · exact found_misconfigured _

theorem requireThrough_found (r : Relation) : r.requireThrough.Found := by
  unfold Relation.requireThrough
  split
  · exact found_ok _
  · exact found_misconfigured _

theorem requireRelated_found (r : Relation) (catalog : Catalog) :
    (r.requireRelated catalog).Found := by
  unfold Relation.requireRelated
  split
  · exact found_ok _
  · exact found_misconfigured _

theorem resolve_found (morphs : MorphMap) (type : String) : (morphs.resolve type).Found := by
  unfold MorphMap.resolve
  split
  · exact found_ok _
  · exact found_misconfigured _

theorem candidates_found (r : Relation) (related : Schema) (d : Dialect) :
    (r.candidates related d).Found := by
  have hthrough : (r.throughCandidates related d).Found :=
    (requireThrough_found r).bind fun t _ => found_ok _
  unfold Relation.candidates
  cases r.kind with
  | manyToMany => exact (requirePivot_found r).bind fun p _ => found_ok _
  | hasOneThrough => exact hthrough.bind fun q _ => found_ok _
  | hasManyThrough => exact hthrough.bind fun q _ => found_ok _
  | _ => exact found_ok _

theorem keyColumn_found (r : Relation) (related : Schema) : (r.keyColumn related).Found := by
  have hthrough : r.throughKeyColumn.Found := (requireThrough_found r).bind fun t _ => found_ok _
  unfold Relation.keyColumn
  cases r.kind with
  | manyToMany => exact (requirePivot_found r).bind fun p _ => found_ok _
  | hasOneThrough => exact hthrough
  | hasManyThrough => exact hthrough
  | _ => exact found_ok _

theorem ownedByAny_found (r : Relation) (related : Schema) (keys : List Value)
    (type : Option String) (q : Query) : (r.ownedByAny related keys type q).Found :=
  (keyColumn_found r related).bind fun _ _ => found_ok _

theorem statement_found {q : Query} (h : q.Compiles) : q.statement.Found := by
  intro f hf
  cases htable : (Text.trim q.table).isEmpty with
  | false =>
    obtain ⟨st, hst⟩ := h.exists_statement htable
    rw [hst] at hf
    cases hf
  | true =>
    -- All but the name of the table has a text, so it is this name that is missing.
    obtain ⟨columns, hcolumns⟩ := h.columns q.dialect
    obtain ⟨table, dialect, key, _, distinct, joins, filters, scopes, groups, havings, orders,
      limit, offset⟩ := q
    have hmissing : tableFragment table = .error (.cannotCompile .noTable) := by
      unfold tableFragment
      rw [htable]
      rfl
    unfold Query.statement at hf
    rw [Query.compile, hcolumns, hmissing] at hf
    cases hf
    rfl

theorem batchQuery_found (r : Relation) (schema related : Schema) (keys : List Value) :
    Result.Found (r.batchQuery s schema related keys) :=
  (candidates_found r related s.dialect).bind fun q _ =>
    (ownedByAny_found r related keys _ q).bind fun _ _ => found_ok _

section Answering

-- A database that finds nothing answers with no rows.
variable (hworld : ∀ st w f, (s.world.query st w).1 = .error (.fault f) → f.isNotFound = false)
include hworld

theorem rows_finds {q : Query} (h : q.Compiles) : Action.Finds (q.rows s) :=
  (finds_ofResult (statement_found h)).bind fun st _ _ _ w f _ hf =>
    hworld st w f (congrArg Prod.fst hf)

theorem batchTypes_finds (hkind : r.kind = .morphTo) (entries : List (String × List Value)) :
    Action.Finds (r.batchTypes s entries) := by
  have htype : ∀ e : String × List Value, Action.Finds (r.batchType s e.1 e.2) := by
    intro e
    refine (finds_ofResult (resolve_found s.morphs e.1)).bind fun related _ _ _ => ?_
    obtain ⟨q, hq, hreads⟩ := typeQuery_reads (s := s) hkind related e.2
    have hfound : Result.Found (r.typeQuery s related e.2) := hq ▸ found_ok q
    refine (finds_ofResult hfound).bind fun q' _ _ hq' => ?_
    obtain rfl : q' = q := Except.ok.inj ((Action.ok_of_ofResult hq').symm.trans hq)
    exact (rows_finds hworld hreads.2).bind fun rows _ _ _ => finds_pure _
  induction entries with
  | nil => exact finds_pure []
  | cons e rest ih =>
    exact (htype e).bind fun found _ _ _ => ih.bind fun others _ _ _ => finds_pure _

theorem batchOne_finds (hkind : r.kind ≠ .morphTo) (schema : Schema) (records : List Record) :
    Action.Finds (r.batchOne s schema records) := by
  unfold Relation.batchOne
  cases r.parentValues records with
  | nil => exact finds_pure _
  | cons v rest =>
    refine (finds_ofResult (requireRelated_found r s.catalog)).bind fun related _ _ hrequire => ?_
    refine (finds_ofResult (batchQuery_found r schema related _)).bind fun q _ _ hq => ?_
    have hq := Action.ok_of_ofResult hq
    have hdeclared := declared_of_batchQuery hkind
      (related_of_required (Action.ok_of_ofResult hrequire)) hq
    obtain ⟨q', hq', hreads⟩ := hdeclared.batchQuery schema (v :: rest)
    obtain rfl : q = q' := Except.ok.inj (hq.symm.trans hq')
    exact (rows_finds hworld hreads.2).bind fun rows _ _ _ => finds_pure _

theorem batch_finds (r : Relation) (schema : Schema) (records : List Record) :
    Action.Finds (r.batch s schema records) := by
  by_cases hkind : r.kind = .morphTo
  · unfold Relation.batch
    rw [hkind]
    exact (batchTypes_finds hworld hkind _).bind fun found _ _ _ => finds_pure _
  · rw [batch_eq hkind]
    exact batchOne_finds hworld hkind schema records

/-- If loading a relation halts because something is not found, the schema of a table does not
declare the relation. -/
theorem loadTables_missing {name : String} {tables : List (String × Schema)}
    {records left : List Record} {w w' : σ} {f : Fault}
    (h : ((s.loadTables name tables).runOn records).run w = ((.error (.fault f), left), w'))
    (hf : f.isNotFound = true) : ∃ e ∈ tables, ∃ g, e.2.relation name = .error g := by
  induction tables generalizing records w with
  | nil => cases h
  | cons e rest ih =>
    obtain ⟨table, schema⟩ := e
    cases hname : schema.relation name with
    | error g => exact ⟨_, List.mem_cons_self .., g, hname⟩
    | ok r =>
      have hlater : ∃ e ∈ rest, ∃ g, e.2.relation name = .error g := by
        unfold Session.loadTables at h
        rw [hname, Change.run_ofResult_bind_ok, Change.run_current_bind] at h
        rcases Change.error_of_run_bind h with h | ⟨m, records₁, w₁, -, h⟩
        · rw [Change.run_ofAction] at h
          rcases hbatch : (r.batch s schema (Record.ofTable table records)).run w with ⟨o, w₂⟩
          rw [hbatch] at h
          cases h
          rw [batch_finds hworld r schema _ w f _ hbatch] at hf
          cases hf
        · rcases Change.error_of_run_bind h with h | ⟨u, records₂, w₂, -, h⟩
          · cases h
          · exact ih h
      obtain ⟨e, he, hmissing⟩ := hlater
      exact ⟨e, List.mem_cons_of_mem _ he, hmissing⟩

end Answering

/-! ## Loading -/

/-- Loading these paths of the record alone succeeds, and then it has this for the relation. -/
def Session.LoadsAlone (s : Session σ) (paths : List String) (name : String) (p : Record)
    (l : Loaded) : Prop :=
  ∀ w, ∃ p' w', ((s.load paths).runOn [p]).run w = ((.ok (), [p']), w') ∧ p'.relation? name = some l

theorem loadsAlone_of_batch {paths : List String} {name : String}
    (hpaths : PathForest.read paths = .ok (.relation name .none .none)) {p : Record} {l : Loaded}
    (hname : p.schema.relation name = .ok r)
    (h : ∀ w, ∃ m w', (r.batch s p.schema [p]).run w = (.ok m, w') ∧ m.loaded (r.parentKey? p) = l) :
    s.LoadsAlone paths name p l := by
  intro w
  obtain ⟨m, w', hbatch, hl⟩ := h w
  have hschema : ∀ q ∈ [p], q.schema = p.schema := by
    intro q hq
    rw [List.mem_singleton.mp hq]
  have hrun := load_single_run hpaths
    (loadRelation_run hname hschema (List.cons_ne_nil p []) hbatch)
  have hcaches := Record.putReached_reached name
    ([p].map fun p => p.setRelation name (m.loaded (r.parentKey? p)))
  simp only [List.map_cons, List.map_nil, Record.relation?_setRelation] at hcaches hrun
  obtain ⟨p', hp', hrelation⟩ := List.map_eq_singleton_iff.mp hcaches
  rw [hp'] at hrun
  exact ⟨p', w', hrun, hrelation.trans (congrArg some hl)⟩

/-- When one relation is loaded of many records, each of them holds what it holds if it is loaded
alone with the schema that speaks for its table, and so with its own one if that declares the
relation alike. The load fails because something was not found only if a record does not declare the
relation. -/
theorem load_as_alone {name : String} {paths : List String} {parents : List Record}
    {candidates : String → Schema → List Row}
    (hpaths : PathForest.read paths = .ok (.relation name .none .none))
    (hserves : ∀ p ∈ parents, ∀ schema r,
      Record.speaker? p.schema.table parents = some schema → schema.relation name = .ok r →
      r.Serves s schema (candidates p.schema.table) (Record.ofTable p.schema.table parents) ∧
        r.Serves s schema (candidates p.schema.table) [p])
    (happart : ∀ p ∈ parents, ∀ schema r,
      Record.speaker? p.schema.table parents = some schema → schema.relation name = .ok r →
      r.kind = .morphTo →
      r.Distinguishes s (Record.ofTable p.schema.table parents) (candidates p.schema.table))
    (w : σ) :
    ((((s.load paths).runOn parents).run w).1.1 = .ok () →
      ∀ (i : Nat) (p : Record), parents[i]? = some p →
        ∃ schema p' l, Record.speaker? p.schema.table parents = some schema ∧
          (((s.load paths).runOn parents).run w).1.2[i]? = some p' ∧ p'.relation? name = some l ∧
          s.LoadsAlone paths name { p with schema } l ∧
          (p.schema.relation name = schema.relation name → s.LoadsAlone paths name p l)) ∧
    ((∀ st w f, (s.world.query st w).1 = .error (.fault f) → f.isNotFound = false) →
      ∀ f, (((s.load paths).runOn parents).run w).1.1 = .error (.fault f) → f.isNotFound = true →
        ∃ p ∈ parents, ∃ g, p.schema.relation name = .error g) := by
  rcases hrun : ((s.load paths).runOn parents).run w with ⟨⟨o, loaded⟩, w'⟩
  constructor
  · intro hload i p hi
    cases hload
    have hp : p ∈ parents := List.mem_of_getElem? hi
    obtain ⟨schema, hspeaker⟩ := Record.exists_speaker? hp
    obtain ⟨p₁, p', ⟨r, m, w₁, w₂, hname, hbatch, rfl⟩, hp', hrelation⟩ :=
      load_single_receives hpaths hrun hi ((Record.get?_tables _ _).trans hspeaker)
    rw [Record.relation?_setRelation] at hrelation
    have hmem : p ∈ Record.ofTable p.schema.table parents :=
      List.mem_filter.mpr ⟨hp, decide_eq_true rfl⟩
    obtain ⟨hall, hone⟩ := hserves p hp schema r hspeaker hname
    have htable : schema.table = p.schema.table := Record.table_of_speaker? hspeaker
    -- A batch reads nothing of a record but its attributes.
    have halone : ∀ q : Record, q.attributes = p.attributes → q.schema.table = schema.table →
        q.schema.relation name = .ok r →
        s.LoadsAlone paths name q (m.loaded (r.parentKey? p)) := by
      intro q hattributes hown hdeclares
      obtain ⟨own, attributes, snapshot, relations, persisted⟩ := q
      obtain ⟨speaks, _, snapshot', relations', persisted'⟩ := p
      cases hattributes
      refine loadsAlone_of_batch hpaths hdeclares fun w₃ => ?_
      rw [batch_of_table hown]
      exact batch_alone hmem hall hone (happart _ hp schema r hspeaker hname) hbatch w₃
    exact ⟨schema, p', _, hspeaker, hp', hrelation, halone { p with schema } rfl rfl hname,
      fun hsame => halone p rfl htable.symm (hsame.trans hname)⟩
  · intro hworld f hload hf
    cases hload
    rcases hlevel : ((s.loadRelation name).runOn parents).run w with ⟨⟨o, left⟩, w₁⟩
    cases o with
    | ok u =>
      rw [load_single_run hpaths hlevel] at hrun
      cases hrun
    | error e =>
      rw [load_single_run_error hpaths hlevel] at hrun
      cases hrun
      have htables : ((s.loadTables name (Record.tables parents)).runOn parents).run w =
          ((.error (.fault f), loaded), w') := hlevel
      obtain ⟨e, he, g, hmissing⟩ := loadTables_missing hworld htables hf
      obtain ⟨p, hp, hschema⟩ := Record.mem_of_get?_tables
        (Assoc.get?_of_mem (Record.ascending_tables parents) he)
      exact ⟨p, hp, g, hschema ▸ hmissing⟩

end Together

/-! ### Posts and drafts of users -/

section Library

set_option maxRecDepth 100000

/-- Posts name their user by the number. -/
def authored : Relation :=
  { Relation.plain "writings" .hasMany (some "Post") with foreignKey := "user" }

/-- Drafts name their user by the name. -/
def drafted : Relation :=
  { Relation.plain "writings" .hasMany (some "Draft") with
    foreignKey := "user", localKey := "name" }

def writer (table : String) (writings : Relation) (id : Int32) (name : String) : Record :=
  .hydrate { Schema.plain table with relations := [writings] }
    ⟨["id", "name"], [.int32 id, .text name]⟩

def writingRow (id user : Value) : Row := ⟨["id", "user"], [id, user]⟩

def writingRows (schema : Schema) : List Row :=
  if schema.table = "posts" then
    [writingRow (.int32 10) (.int32 1), writingRow (.int32 11) (.int32 2)]
  else
    [writingRow (.int32 20) (.text "bob"), writingRow (.int32 21) (.text "ann")]

def libraryRows : List Row := writingRows (.plain "posts") ++ writingRows (.plain "drafts")

/-- Answers by the users that are bound. Posts and drafts name them differently. -/
def libraryWorld : World Unit where
  query st _ := (.ok (authored.rowsNaming libraryRows st.values), ())
  execute _ _ := (.ok ⟨0, none⟩, ())
  connect _ := (.ok (), ())
  disconnect _ := (.ok (), ())
  now _ := (⟨0, ⟨0, 0⟩⟩, ())
  freshUuid _ := (⟨0⟩, ())

def librarySession : Session Unit :=
  ⟨libraryWorld, .sqlite, ⟨[("Post", .plain "posts"), ("Draft", .plain "drafts")]⟩, .empty, .none,
    .standard, 0⟩

/-- The batch of these users. -/
def ofUsers (table : String) (users : List Value) : Query :=
  (Relation.plainCandidates (.plain table) .sqlite).scope
    (.isIn (.column (table ++ "." ++ "user")) users false)

theorem library_serves {r : Relation} {records : List Record}
    (h : r = authored ∧ r.parentValues records ∈ [[.int32 1, .int32 2], [.int32 1], [.int32 2]] ∨
      r = drafted ∧ r.parentValues records = [.text "bob"]) (schema : Schema) :
    r.Serves librarySession schema writingRows records := by
  have hposts : ∀ users, authored.batchQuery librarySession schema (.plain "posts") users =
      .ok (ofUsers "posts" users) := fun _ => rfl
  have hdrafts : ∀ users, drafted.batchQuery librarySession schema (.plain "drafts") users =
      .ok (ofUsers "drafts" users) := fun _ => rfl
  constructor
  · intro _ related q st w hrelated hq hst
    generalize r.parentValues records = users at h hq ⊢
    obtain ⟨rfl, h⟩ | ⟨rfl, rfl⟩ := h
    · cases hrelated
      cases (hposts _).symm.trans hq
      simp only [List.mem_cons, List.not_mem_nil, or_false] at h
      obtain rfl | rfl | rfl := h <;> cases hst <;> rfl
    · cases hrelated
      cases (hdrafts _).symm.trans hq
      cases hst
      rfl
  · intro hkind
    obtain ⟨rfl, -⟩ | ⟨rfl, -⟩ := h <;> cases hkind

/-- Two authors and an editor. -/
def someWriters : List Record :=
  [writer "authors" authored 1 "ann", writer "editors" drafted 2 "bob",
    writer "authors" authored 2 "bob"]

theorem load_as_alone_someWriters :
    PathForest.read ["writings"] = .ok (.relation "writings" .none .none) ∧
    (∀ p ∈ someWriters, ∀ schema r, Record.speaker? p.schema.table someWriters = some schema →
      schema.relation "writings" = .ok r →
      r.Serves librarySession schema writingRows (Record.ofTable p.schema.table someWriters) ∧
        r.Serves librarySession schema writingRows [p]) ∧
    (∀ p ∈ someWriters, ∀ schema r, Record.speaker? p.schema.table someWriters = some schema →
      schema.relation "writings" = .ok r → r.kind = .morphTo →
      r.Distinguishes librarySession (Record.ofTable p.schema.table someWriters) writingRows) ∧
    (∃ p' l, (((librarySession.load ["writings"]).runOn someWriters).run ()).1.2[1]? = some p' ∧
      p'.relation? "writings" = some l ∧ l.shown = [("drafts", "20")] ∧
      librarySession.LoadsAlone ["writings"] "writings" (writer "editors" drafted 2 "bob") l) ∧
    ∀ f, (((librarySession.load ["writings"]).runOn someWriters).run ()).1.1 = .error (.fault f) →
      f.isNotFound = false := by
  have hpaths : PathForest.read ["writings"] = .ok (.relation "writings" .none .none) := rfl
  have hparts : ∀ p ∈ someWriters, ∀ schema r,
      Record.speaker? p.schema.table someWriters = some schema → schema.relation "writings" = .ok r →
      r.Serves librarySession schema writingRows (Record.ofTable p.schema.table someWriters) ∧
        r.Serves librarySession schema writingRows [p] ∧ r.kind ≠ .morphTo := by
    intro p hp schema r hspeaker hname
    simp only [someWriters, List.mem_cons, List.not_mem_nil, or_false] at hp
    obtain rfl | rfl | rfl := hp <;> cases hspeaker <;> cases hname
    · exact ⟨library_serves (.inl ⟨rfl, .head _⟩) _,
        library_serves (.inl ⟨rfl, .tail _ (.head _)⟩) _, nofun⟩
    · exact ⟨library_serves (.inr ⟨rfl, rfl⟩) _, library_serves (.inr ⟨rfl, rfl⟩) _, nofun⟩
    · exact ⟨library_serves (.inl ⟨rfl, .head _⟩) _,
        library_serves (.inl ⟨rfl, .tail _ (.tail _ (.head _))⟩) _, nofun⟩
  have hserves : ∀ p ∈ someWriters, ∀ schema r,
      Record.speaker? p.schema.table someWriters = some schema → schema.relation "writings" = .ok r →
      r.Serves librarySession schema writingRows (Record.ofTable p.schema.table someWriters) ∧
        r.Serves librarySession schema writingRows [p] := fun p hp schema r hspeaker hname =>
    ⟨(hparts p hp schema r hspeaker hname).1, (hparts p hp schema r hspeaker hname).2.1⟩
  have happart : ∀ p ∈ someWriters, ∀ schema r,
      Record.speaker? p.schema.table someWriters = some schema → schema.relation "writings" = .ok r →
      r.kind = .morphTo →
      r.Distinguishes librarySession (Record.ofTable p.schema.table someWriters) writingRows :=
    fun p hp schema r hspeaker hname hkind =>
      absurd hkind (hparts p hp schema r hspeaker hname).2.2
  have hload : (((librarySession.load ["writings"]).runOn someWriters).run ()).1.1 = .ok () := by
    decide +kernel
  have hshown : ((((librarySession.load ["writings"]).runOn someWriters).run ()).1.2[1]?.bind
      fun p => (p.relation? "writings").map Loaded.shown) = some [("drafts", "20")] := by
    decide +kernel
  have halone := @load_as_alone Unit librarySession "writings" ["writings"] someWriters
    (fun _ => writingRows) hpaths hserves happart ()
  obtain ⟨schema, p', l, hspeaker, hp', hl, -, hown⟩ :=
    halone.1 hload 1 (writer "editors" drafted 2 "bob") rfl
  cases hspeaker
  rw [hp', Option.bind_some, hl] at hshown
  refine ⟨hpaths, hserves, happart, ⟨p', l, hp', hl, Option.some.inj hshown, hown rfl⟩, ?_⟩
  intro f hf
  rw [hload] at hf
  cases hf

/-- Bob is a user who drafts, but ann speaks for the users: he is given posts. -/
theorem load_misspoken :
    (∀ p ∈ [writer "users" authored 1 "ann", writer "users" drafted 2 "bob"],
      ∃ r, p.schema.relation "writings" = .ok r) ∧
    (∀ schema, authored.Serves librarySession schema writingRows
      [writer "users" authored 1 "ann", writer "users" drafted 2 "bob"]) ∧
    (∀ schema, drafted.Serves librarySession schema writingRows [writer "users" drafted 2 "bob"]) ∧
    ((((librarySession.load ["writings"]).runOn
        [writer "users" authored 1 "ann", writer "users" drafted 2 "bob"]).run ()).1.2.map fun p =>
      (p.relation? "writings").map Loaded.shown) =
        [some [("posts", "10")], some [("posts", "11")]] ∧
    ((((librarySession.load ["writings"]).runOn [writer "users" drafted 2 "bob"]).run ()).1.2.map
      fun p => (p.relation? "writings").map Loaded.shown) = [some [("drafts", "20")]] := by
  refine ⟨?_, library_serves (.inl ⟨rfl, .head _⟩), library_serves (.inr ⟨rfl, rfl⟩), ?_, ?_⟩
  · intro p hp
    simp only [List.mem_cons, List.not_mem_nil, or_false] at hp
    obtain rfl | rfl := hp
    · exact ⟨authored, rfl⟩
    · exact ⟨drafted, rfl⟩
  · decide +kernel
  · decide +kernel
end Library

end RecordMapper
