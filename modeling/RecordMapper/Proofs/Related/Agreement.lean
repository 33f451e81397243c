import RecordMapper.Proofs.Query.Rows
import RecordMapper.Proofs.Related.Level
import RecordMapper.Proofs.Related.Owners
import RecordMapper.Proofs.Related.Queries

/-!
Loading a relation of many records agrees with reading it for each of them.

* `Relation.Answers` is a database that has one list of related rows: the query of a parent is
  answered with those that name it, the query for many with those that name any of them.
* `load_agrees` says that each record then holds what its relation alone gives.
-/
namespace RecordMapper

set_option autoImplicit false

namespace Relation

/-- The rows of a parent, as they are read for it alone. -/
def rowsOf (r : Relation) (candidates : List Row) (v : Value) : List Row :=
  (candidates.filter fun row => r.ownerKey? row = v.key?).map r.ownRow

/-- What is read for one parent, and no more than is wanted. -/
def answerFor (r : Relation) (candidates : List Row) (v : Value) : List Row :=
  if r.kind.isToOne then (r.rowsOf candidates v).take 1 else r.rowsOf candidates v

/-- What is read for the parents with any of these values. -/
def answerForAny (r : Relation) (candidates : List Row) (values : List Value) : List Row :=
  candidates.filter fun row => ∃ v ∈ values, r.ownerKey? row = v.key?

end Relation

/-- The bound relation as it is read when it is loaded. -/
def BoundRelation.limited (b : BoundRelation) : BoundRelation :=
  if b.relation.kind.isToOne then b.refine fun q => q.take 1 else b

/-- Reads a declared relation for one record. -/
def Session.loadAlone {σ : Type} (s : Session σ) (p : Record) (name : String) :
    Action σ Loaded := do
  let b ← .ofResult (s.related p name)
  b.load s

/-- A database with these related rows. A row carries the value that names its parent where a batch
reads it (`Relation.Declared.ownedByAny_eq`, `Relation.withOwner_eq`); read for one parent it does
not, unless the related table has it. -/
structure Relation.Answers {σ : Type} (r : Relation) (s : Session σ) (schema related : Schema)
    (parents : List Record) (candidates : List Row) : Prop where
  one : ∀ p ∈ parents, p.value r.parentColumn ≠ .default →
    ∀ (b : BoundRelation) (q : Query) (st : Statement) (w : σ),
      s.bound r p = .ok b → b.limited.query? = .ok (some q) → q.statement = .ok st →
      (s.world.query st w).1 = .ok (r.answerFor candidates (p.value r.parentColumn))
  any : ∀ (q : Query) (st : Statement) (w : σ),
    r.batchQuery s schema related (r.parentValues parents) = .ok q → q.statement = .ok st →
    (s.world.query st w).1 = .ok (r.answerForAny candidates (r.parentValues parents))

section Agreement

variable {σ : Type} {s : Session σ} {r : Relation} {schema related : Schema}

/-! ## One record -/

theorem records_run {b : BoundRelation} {q : Query} {st : Statement} {rows : List Row} {w : σ}
    (htarget : b.target? = .ok (some (related, q))) (hst : q.statement = .ok st)
    (hrows : (s.world.query st w).1 = .ok rows) :
    (b.records s).run w = (.ok (rows.map (Record.hydrate related)), (s.world.query st w).2) := by
  unfold BoundRelation.records BoundRelation.whenBound
  rw [htarget]
  exact Action.run_bind_ok (rows_run hst hrows)

theorem records_run_unbound {b : BoundRelation} (htarget : b.target? = .ok none) (w : σ) :
    (b.records s).run w = (.ok [], w) := by
  unfold BoundRelation.records BoundRelation.whenBound
  rw [htarget]
  rfl

/-- The relation of a record, with a query for all related rows. -/
theorem exists_bound (h : r.Declared s.catalog related) (p : Record) :
    ∃ b : BoundRelation, s.bound r p = .ok b ∧ b.relation = r ∧ b.related = some related ∧
      b.key = p.value r.parentColumn ∧ Relation.Reads related b.query := by
  obtain ⟨q, hq, hreads⟩ := h.candidates s.dialect
  have htarget : BoundRelation.target s.catalog s.morphs r p =
      .ok (some related, r.parentType? s.morphs p.schema) := by
    have hkind := h.kind
    unfold BoundRelation.target Relation.requireRelated
    rw [h.related]
    cases hk : r.kind <;> first | rfl | exact absurd hk hkind
  refine ⟨⟨r, p.schema, some related, p.value r.parentColumn,
    r.parentType? s.morphs p.schema, q⟩, ?_, rfl, rfl, rfl, hreads⟩
  unfold Session.bound BoundRelation.ofRecord
  rw [htarget]
  show (r.candidates related s.dialect >>= _) = _
  rw [hq]
  rfl

theorem target?_of_isNull {b : BoundRelation} (hrelated : b.related = some related)
    (hnull : b.key.isNull = true) : b.target? = .ok none := by
  unfold BoundRelation.target?
  rw [hrelated]
  simp only [hnull, if_true]

theorem exists_target? {b : BoundRelation} (h : b.relation.Declared s.catalog related)
    (hrelated : b.related = some related) (hnull : b.key.isNull = false)
    (hreads : Relation.Reads related b.query) :
    ∃ q, b.target? = .ok (some (related, q)) ∧ Relation.Reads related q := by
  obtain ⟨q, howned, hq⟩ := h.ownedBy hreads b.key b.type
  refine ⟨b.relation.settled related q, ?_, hq.settled⟩
  unfold BoundRelation.target?
  rw [hrelated]
  simp only [hnull]
  show (b.relation.ownedBy related b.key b.type b.query >>= _) = _
  rw [howned]
  rfl

theorem limited_eq (b : BoundRelation) (hreads : Relation.Reads related b.query) :
    ∃ q, b.limited = { b with query := q } ∧ Relation.Reads related q := by
  unfold BoundRelation.limited
  split
  · exact ⟨b.query.take 1, rfl, hreads.take 1⟩
  · exact ⟨b.query, rfl, hreads⟩

theorem load_run {b : BoundRelation} {found : List Record} {w w' : σ}
    (h : (b.limited.records s).run w = (.ok found, w')) :
    (b.load s).run w = (.ok (.shaped b.relation.kind.isToOne found), w') := by
  unfold BoundRelation.limited at h
  unfold BoundRelation.load
  cases hone : b.relation.kind.isToOne with
  | true =>
    rw [hone] at h
    have hfirst : (b.first? s).run w = (.ok found.head?, w') := Action.run_bind_ok h
    exact Action.run_bind_ok hfirst
  | false =>
    rw [hone] at h
    exact Action.run_bind_ok h

theorem shaped_answerFor (candidates : List Row) (v : Value) :
    Loaded.shaped r.kind.isToOne ((r.answerFor candidates v).map (Record.hydrate related)) =
      .shaped r.kind.isToOne ((r.rowsOf candidates v).map (Record.hydrate related)) := by
  unfold Relation.answerFor Loaded.shaped
  cases hone : r.kind.isToOne with
  | true => cases r.rowsOf candidates v <;> rfl
  | false => rfl

/-- What a record holds if it is loaded alone: the records of the rows that name it. -/
def Relation.expected (r : Relation) (related : Schema) (candidates : List Row) (v : Value) :
    Loaded :=
  .shaped r.kind.isToOne
    (if v.isNull then [] else (r.rowsOf candidates v).map (Record.hydrate related))

theorem loadAlone_run {name : String} {parents : List Record} {candidates : List Row}
    (h : r.Declared s.catalog related) (hanswers : r.Answers s schema related parents candidates)
    {p : Record} (hp : p ∈ parents) (hname : p.schema.relation name = .ok r)
    (hdefault : p.value r.parentColumn ≠ .default)
    (htable : (p.value r.parentColumn).isNull = false →
      (Text.trim related.table).isEmpty = false) (w : σ) :
    ((s.loadAlone p name).run w).1 =
      .ok (r.expected related candidates (p.value r.parentColumn)) := by
  obtain ⟨b, hb, hrelation, hrelated, hkey, hreads⟩ := exists_bound h p
  obtain ⟨q, hlimited, hq⟩ := limited_eq b hreads
  have hload : (s.loadAlone p name).run w = (b.load s).run w := by
    unfold Session.loadAlone Session.related
    rw [hname]
    show ((Action.ofResult (s.bound r p) >>= fun b => b.load s).run w) = _
    rw [hb]
    rfl
  rw [hload]
  unfold Relation.expected
  cases hnull : (p.value r.parentColumn).isNull with
  | true =>
    have htarget : b.limited.target? = .ok none :=
      target?_of_isNull (by rw [hlimited]; exact hrelated) (by rw [hlimited, ← hnull, ← hkey])
    rw [load_run (records_run_unbound htarget w), hrelation]
    rfl
  | false =>
    have hdeclared : b.limited.relation.Declared s.catalog related := by
      rw [hlimited]
      exact hrelation ▸ h
    obtain ⟨q', htarget, hq'⟩ := exists_target? hdeclared (by rw [hlimited]; exact hrelated)
      (by rw [hlimited, ← hnull, ← hkey]) (by rw [hlimited]; exact hq)
    obtain ⟨st, hst⟩ := hq'.2.exists_statement (by rw [hq'.1]; exact htable hnull)
    have hquery : b.limited.query? = .ok (some q') := by
      unfold BoundRelation.query?
      rw [htarget]
      rfl
    have hrows := hanswers.one p hp hdefault b q' st w hb hquery hst
    rw [load_run (records_run htarget hst hrows), hrelation, shaped_answerFor]
    rfl

/-! ## Many records -/

theorem batch_eq (hkind : r.kind ≠ .morphTo) (parents : List Record) :
    r.batch s schema parents = r.batchOne s schema parents := by
  unfold Relation.batch
  cases hk : r.kind <;> first | rfl | exact absurd hk hkind

/-- The rows of a batch, each under the key of its parent. -/
def Relation.filed (r : Relation) (related : Schema) (candidates : List Row)
    (parents : List Record) : Matches :=
  ⟨r.kind.isToOne,
    (r.answerForAny candidates (r.parentValues parents)).filterMap (r.filed? related)⟩

theorem batch_run {parents : List Record} {candidates : List Row}
    (h : r.Declared s.catalog related) (hanswers : r.Answers s schema related parents candidates)
    (hready : (Text.trim related.table).isEmpty = false ∨ r.parentValues parents = [])
    (w : σ) :
    ∃ w', (r.batch s schema parents).run w = (.ok (r.filed related candidates parents), w') := by
  rw [batch_eq h.kind]
  unfold Relation.batchOne Relation.filed
  cases hvalues : r.parentValues parents with
  | nil =>
    have hnone : r.answerForAny candidates [] = [] := by simp [Relation.answerForAny]
    exact ⟨w, by rw [hnone]; rfl⟩
  | cons v rest =>
    have htable : (Text.trim related.table).isEmpty = false := by
      rcases hready with htable | hnil
      · exact htable
      · rw [hvalues] at hnil
        cases hnil
    obtain ⟨q, hq, hreads⟩ := h.batchQuery schema (v :: rest)
    obtain ⟨st, hst⟩ := hreads.2.exists_statement (by rw [hreads.1]; exact htable)
    have hrows := hanswers.any q st w (by rw [hvalues]; exact hq) hst
    rw [hvalues] at hrows
    have hrelated : r.requireRelated s.catalog = .ok related := by
      unfold Relation.requireRelated
      rw [h.related]
    refine ⟨(s.world.query st w).2, ?_⟩
    show (Action.ofResult (r.requireRelated s.catalog) >>= _).run w = _
    rw [hrelated]
    show (Action.ofResult (r.batchQuery s schema related (v :: rest)) >>= _).run w = _
    rw [hq]
    exact Action.run_bind_ok (rows_run hst hrows)

theorem batch_run_error {parents : List Record} (h : r.Declared s.catalog related)
    (htable : (Text.trim related.table).isEmpty = true) (hvalues : r.parentValues parents ≠ [])
    (w : σ) : ∃ e w', (r.batch s schema parents).run w = (.error e, w') := by
  rw [batch_eq h.kind]
  unfold Relation.batchOne
  cases hcons : r.parentValues parents with
  | nil => exact absurd hcons hvalues
  | cons v rest =>
    obtain ⟨q, hq, hreads⟩ := h.batchQuery schema (v :: rest)
    have hrelated : r.requireRelated s.catalog = .ok related := by
      unfold Relation.requireRelated
      rw [h.related]
    show ∃ e w', (Action.ofResult (r.requireRelated s.catalog) >>= _).run w = (.error e, w')
    rw [hrelated]
    show ∃ e w', (Action.ofResult (r.batchQuery s schema related (v :: rest)) >>= _).run w =
      (.error e, w')
    rw [hq]
    show ∃ e w', (q.rows s >>= _).run w = (.error e, w')
    cases hst : q.statement with
    | ok st =>
      have htable' := Query.table_of_statement hst
      rw [hreads.1, htable] at htable'
      cases htable'
    | error e =>
      refine ⟨.fault e, w, Action.run_bind_error ?_⟩
      unfold Query.rows
      rw [hst]
      rfl

/-- The key of a parent is among those that are searched for. -/
theorem exists_mem_parentValues {parents : List Record} {p : Record} {k : Key} (hp : p ∈ parents)
    (hk : (p.value r.parentColumn).key? = some k) :
    ∃ v ∈ r.parentValues parents, v.key? = some k := by
  have hmem : p.value r.parentColumn ∈ parents.map fun p => p.value r.parentColumn :=
    List.mem_map.2 ⟨p, hp, rfl⟩
  exact exists_mem_distinct id hmem hk

/-- A record finds in a batch what it would be given alone. -/
theorem loaded_filed {parents : List Record} {candidates : List Row}
    (hkind : r.kind ≠ .morphTo) (hcolumns : ∀ row ∈ candidates, row.columns.Nodup) {p : Record}
    (hp : p ∈ parents) (hdefault : p.value r.parentColumn ≠ .default) :
    (r.filed related candidates parents).loaded (r.parentKey? p) =
      r.expected related candidates (p.value r.parentColumn) := by
  have hkey : r.parentKey? p = (p.value r.parentColumn).key? := by
    unfold Relation.parentKey?
    cases hk : r.kind <;> first | rfl | exact absurd hk hkind
  rw [hkey]
  unfold Relation.expected
  cases hnull : (p.value r.parentColumn).isNull with
  | true =>
    have hnone : (p.value r.parentColumn).key? = none := by
      cases hv : p.value r.parentColumn <;> rw [hv] at hnull <;> first | rfl | cases hnull
    rw [hnone]
    rfl
  | false =>
    obtain ⟨k, hk⟩ := exists_key? hnull hdefault
    obtain ⟨v, hv, hvk⟩ := exists_mem_parentValues hp hk
    have hrows : ∀ row ∈ r.answerForAny candidates (r.parentValues parents), row.columns.Nodup :=
      fun row hrow => hcolumns row (List.mem_filter.1 hrow).1
    have hfiltered : ((r.answerForAny candidates (r.parentValues parents)).filter
        fun row => r.ownerKey? row = some k) =
        candidates.filter fun row => r.ownerKey? row = some k := by
      unfold Relation.answerForAny
      rw [List.filter_filter]
      refine List.filter_congr fun row _ => ?_
      by_cases howner : r.ownerKey? row = some k
      · have hany : ∃ v ∈ r.parentValues parents, r.ownerKey? row = v.key? :=
          ⟨v, hv, howner.trans hvk.symm⟩
        rw [decide_eq_true howner, decide_eq_true hany]
        rfl
      · simp [howner]
    rw [hk]
    show Loaded.shaped r.kind.isToOne (Matches.recordsOf ⟨r.kind.isToOne, _⟩ k) = _
    rw [r.recordsOf_filed related hrows, hfiltered]
    unfold Relation.rowsOf
    rw [hk, List.map_map]
    rfl

/-- Loading a relation of records of one schema succeeds if the related table has a name, and then
every record whose value is not DEFAULT holds what its relation alone gives. -/
theorem load_agrees {name : String} {parents : List Record} {candidates : List Row}
    {paths : List String} (hdeclared : r.Declared s.catalog related)
    (hname : schema.relation name = .ok r) (hschema : ∀ p ∈ parents, p.schema = schema)
    (hcolumns : ∀ row ∈ candidates, row.columns.Nodup)
    (hanswers : r.Answers s schema related parents candidates)
    (hpaths : PathForest.read paths = .ok (.relation name .none .none)) (w : σ) :
    ((Text.trim related.table).isEmpty = false →
      (((s.load paths).runOn parents).run w).1.1 = .ok ()) ∧
    ((((s.load paths).runOn parents).run w).1.1 = .ok () →
      ∀ (i : Nat) (p : Record), parents[i]? = some p → p.value r.parentColumn ≠ .default →
        ∃ p' l, (((s.load paths).runOn parents).run w).1.2[i]? = some p' ∧
          p'.relation? name = some l ∧
          ∀ w', ((s.loadAlone p name).run w').1 = .ok l) := by
  by_cases hempty : parents = []
  · subst hempty
    have hrelation : ((s.loadRelation name).runOn []).run w = ((.ok (), []), w) := rfl
    rw [load_single_run hpaths hrelation]
    refine ⟨fun _ => rfl, fun _ i p hp => ?_⟩
    rw [List.getElem?_nil] at hp
    cases hp
  by_cases hready : (Text.trim related.table).isEmpty = false ∨ r.parentValues parents = []
  · obtain ⟨w', hbatch⟩ := batch_run hdeclared hanswers hready w
    rw [load_single_run hpaths (loadRelation_run hname hschema hempty hbatch)]
    refine ⟨fun _ => rfl, fun _ i p hi hdefault => ?_⟩
    have hp : p ∈ parents := List.mem_of_getElem? hi
    -- Going through what was reached changes no cache, so each record holds what the batch gave it.
    have hcaches := congrArg (fun ls => ls[i]?) (Record.putReached_reached name
      (parents.map fun p => p.setRelation name
        ((r.filed related candidates parents).loaded (r.parentKey? p))))
    simp only [List.getElem?_map, hi, Option.map_some, Record.relation?_setRelation] at hcaches
    obtain ⟨p', hp', hrelation⟩ := Option.map_eq_some_iff.1 hcaches
    refine ⟨p', _, hp', hrelation, fun w₁ => ?_⟩
    rw [loaded_filed hdeclared.kind hcolumns hp hdefault]
    refine loadAlone_run hdeclared hanswers hp (by rw [hschema p hp]; exact hname) hdefault ?_ w₁
    intro hnull
    rcases hready with htable | hnone
    · exact htable
    · obtain ⟨k, hk⟩ := exists_key? hnull hdefault
      obtain ⟨v, hv, -⟩ := exists_mem_parentValues hp hk
      rw [hnone] at hv
      cases hv
  · rw [not_or, Bool.not_eq_false] at hready
    obtain ⟨e, w', hbatch⟩ : ∃ e w', (r.batch s schema parents).run w = (.error e, w') :=
      batch_run_error hdeclared hready.1 hready.2 w
    rw [load_single_run_error hpaths (loadRelation_run_error hname hschema hempty hbatch)]
    refine ⟨fun htable => ?_, fun h => ?_⟩
    · rw [hready.1] at htable
      cases htable
    · cases h

end Agreement

/-! ### Roles of users -/

section Roles

set_option maxRecDepth 100000

def roles : Relation :=
  { Relation.plain "roles" .manyToMany (some "Role") with
    pivot := some ⟨"role_user", "user_id", "role_id", "id", "id"⟩ }

def users : Schema := { Schema.plain "users" with relations := [roles] }

def user (id : Value) : Record := .hydrate users ⟨["id"], [id]⟩

/-- Two users with one role in common, and one without a key. -/
def someUsers : List Record := [user (.text "ann"), user .null, user (.text "bob")]

def roleRows : List Row :=
  [⟨["id", "__pivot_key"], [.text "admin", .text "bob"]⟩,
    ⟨["id", "__pivot_key"], [.text "guest", .text "ann"]⟩,
    ⟨["id", "__pivot_key"], [.text "guest", .text "bob"]⟩]

/-- Answers by the bound values: one of them is the key of a parent. -/
def roleWorld : World Unit where
  query st _ :=
    (.ok (match st.values with
      | [v] => roles.answerFor roleRows v
      | vs => roles.answerForAny roleRows vs), ())
  execute _ _ := (.ok ⟨0, none⟩, ())
  connect _ := (.ok (), ())
  disconnect _ := (.ok (), ())
  now _ := (⟨0, ⟨0, 0⟩⟩, ())
  freshUuid _ := (⟨0⟩, ())

def roleSession : Session Unit :=
  ⟨roleWorld, .sqlite, ⟨[("Role", .plain "roles")]⟩, .empty, .none, .standard, 0⟩

theorem load_agrees_roles :
    roles.Declared roleSession.catalog (.plain "roles") ∧ users.relation "roles" = .ok roles ∧
    (∀ p ∈ someUsers, p.schema = users) ∧ (∀ row ∈ roleRows, row.columns.Nodup) ∧
    roles.Answers roleSession users (.plain "roles") someUsers roleRows ∧
    PathForest.read ["roles"] = .ok (.relation "roles" .none .none) ∧
    ∃ p' l, (((roleSession.load ["roles"]).runOn someUsers).run ()).1.2[2]? = some p' ∧
      p'.relation? "roles" = some l ∧
      ((roleSession.loadAlone (user (.text "bob")) "roles").run ()).1 = .ok l := by
  have hdeclared : roles.Declared roleSession.catalog (.plain "roles") :=
    ⟨by decide, rfl, fun _ => ⟨_, rfl⟩, fun h => by rcases h with h | h <;> cases h⟩
  have hschema : ∀ p ∈ someUsers, p.schema = users := by
    intro p hp
    simp only [someUsers, List.mem_cons, List.not_mem_nil, or_false] at hp
    rcases hp with rfl | rfl | rfl <;> rfl
  have hcolumns : ∀ row ∈ roleRows, row.columns.Nodup := by
    intro row hrow
    simp only [roleRows, List.mem_cons, List.not_mem_nil, or_false] at hrow
    rcases hrow with rfl | rfl | rfl <;> decide
  have hanswers : roles.Answers roleSession users (.plain "roles") someUsers roleRows := by
    refine ⟨fun p hp _ b q st w hb hq hst => ?_, fun q st w hq hst => ?_⟩
    · simp only [someUsers, List.mem_cons, List.not_mem_nil, or_false] at hp
      rcases hp with rfl | rfl | rfl <;> cases hb <;> cases hq <;> cases hst <;> rfl
    · cases hq
      cases hst
      rfl
  have hpaths : PathForest.read ["roles"] = .ok (.relation "roles" .none .none) := rfl
  refine ⟨hdeclared, rfl, hschema, hcolumns, hanswers, hpaths, ?_⟩
  obtain ⟨hok, hagrees⟩ := load_agrees hdeclared rfl hschema hcolumns hanswers hpaths ()
  obtain ⟨p', l, hp', hl, halone⟩ := hagrees (hok rfl) 2 _ rfl (fun h => by cases h)
  exact ⟨p', l, hp', hl, halone ()⟩

end Roles

end RecordMapper
