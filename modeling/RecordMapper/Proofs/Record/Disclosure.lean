import RecordMapper.Proofs.NameMap
import RecordMapper.Record.Json

/-!
What the JSON of a record tells, and what it keeps back.

* `Record.redacted` takes everything that is not shown out of a record and out of all records loaded
  below it. The JSON is that of the redacted record (`toJson_redacted`), so it cannot tell apart what
  redaction makes equal.
* A record of the tree is found by a path (`Record.at?`) and changed in its place (`Record.modifyAt`).
* `Record.Discloses` describes the fields of one object by look-ups, without the order in which they
  are written.
-/
namespace RecordMapper

set_option autoImplicit false

/-! ## Redaction -/

mutual

/-- The record with its shown attributes and its shown relations only. -/
def Record.redacted : Record → Record
  | { schema, attributes, relations, .. } =>
    { schema
      attributes := attributes.filter fun name _ => schema.shows name
      snapshot := .empty
      relations := redactedRelations schema relations
      persisted := false }

def redactedRelations (schema : Schema) : List (String × Loaded) → List (String × Loaded)
  | [] => []
  | (name, l) :: rest =>
    if schema.showsRelation name then (name, l.redacted) :: redactedRelations schema rest
    else redactedRelations schema rest

def Loaded.redacted : Loaded → Loaded
  | .one r => .one (redactedOne r)
  | .many rs => .many (redactedRecords rs)

def redactedOne : Option Record → Option Record
  | none => none
  | some r => some r.redacted

def redactedRecords : List Record → List Record
  | [] => []
  | r :: rest => r.redacted :: redactedRecords rest

end

theorem attributeFields_filter (schema : Schema) (attributes : Attributes) :
    Record.attributeFields schema (attributes.filter fun name _ => schema.shows name) =
      Record.attributeFields schema attributes := by
  unfold Record.attributeFields NameMap.filter
  rw [List.filter_filter]
  simp only [Bool.and_self]

mutual

theorem Record.toJson_redacted (r : Record) : r.redacted.toJson = r.toJson := by
  obtain ⟨schema, attributes, snapshot, relations, persisted⟩ := r
  unfold Record.redacted Record.toJson
  rw [attributeFields_filter, relationFields_redacted]

theorem relationFields_redacted (schema : Schema) (relations : List (String × Loaded)) :
    relationFields schema (redactedRelations schema relations) =
      relationFields schema relations := by
  match relations with
  | [] => rw [redactedRelations]
  | (name, l) :: rest =>
    rw [redactedRelations]
    cases hshown : schema.showsRelation name with
    | true =>
      rw [if_pos rfl, relationFields, relationFields, hshown, l.toJson_redacted,
        relationFields_redacted schema rest]
    | false =>
      rw [if_neg Bool.false_ne_true, relationFields, hshown, if_neg Bool.false_ne_true]
      exact relationFields_redacted schema rest

theorem Loaded.toJson_redacted (l : Loaded) : l.redacted.toJson = l.toJson := by
  match l with
  | .one none => rfl
  | .one (some r) => exact r.toJson_redacted
  | .many rs => rw [Loaded.redacted, Loaded.toJson, Loaded.toJson, recordsToJson_redacted]

theorem recordsToJson_redacted (rs : List Record) :
    recordsToJson (redactedRecords rs) = recordsToJson rs := by
  match rs with
  | [] => rw [redactedRecords]
  | r :: rest =>
    rw [redactedRecords, recordsToJson, recordsToJson, r.toJson_redacted,
      recordsToJson_redacted rest]

end

theorem redactedRecords_eq_map (rs : List Record) : redactedRecords rs = rs.map Record.redacted := by
  induction rs with
  | nil => rw [redactedRecords, List.map_nil]
  | cons r rest ih => rw [redactedRecords, List.map_cons, ih]

/-! ## Changes below a record -/

namespace Assoc

variable {α : Type}

/-- Changes the value that `get?` finds. -/
def modify (name : String) (f : α → α) : List (String × α) → List (String × α)
  | [] => []
  | (k, v) :: rest => if name = k then (k, f v) :: rest else (k, v) :: modify name f rest

theorem get?_modify (name : String) (f : α → α) (entries : List (String × α)) :
    get? name (modify name f entries) = (get? name entries).map f := by
  induction entries with
  | nil => rfl
  | cons e rest ih =>
    rw [modify, get?]
    by_cases hname : name = e.1
    · rw [if_pos hname, if_pos hname, get?, if_pos hname]
      rfl
    · rw [if_neg hname, if_neg hname, get?, if_neg hname, ih]

end Assoc

namespace Loaded

/-- Changes one of the records. -/
def modify (l : Loaded) (i : Nat) (f : Record → Record) : Loaded :=
  match l with
  | .one r => .one (if i = 0 then r.map f else r)
  | .many rs => .many (rs.modify i f)

variable {l : Loaded} {i : Nat} {f : Record → Record}

theorem getElem?_records_modify (l : Loaded) (i : Nat) (f : Record → Record) :
    (l.modify i f).records[i]? = l.records[i]?.map f := by
  match l, i with
  | .one none, _ => simp [modify, records]
  | .one (some r), 0 => simp [modify, records]
  | .one (some r), i + 1 => simp [modify, records]
  | .many rs, i => simp [modify, records]

theorem redacted_modify (h : ∀ q, l.records[i]? = some q → (f q).redacted = q.redacted) :
    (l.modify i f).redacted = l.redacted := by
  match l with
  | .one none => simp [modify]
  | .one (some r) =>
    by_cases hi : i = 0
    · subst hi
      have hr : (f r).redacted = r.redacted := h r rfl
      rw [modify, if_pos rfl, Option.map_some, redacted, redactedOne, redacted, redactedOne, hr]
    · rw [modify, if_neg hi]
  | .many rs =>
    have hmap : (rs.modify i f).map Record.redacted = rs.map Record.redacted := by
      refine List.ext_getElem? fun j => ?_
      rw [List.getElem?_map, List.getElem?_map, List.getElem?_modify]
      by_cases hj : i = j
      · subst hj
        cases hq : rs[i]? with
        | none => simp
        | some q => simp [h q hq]
      · simp [hj]
    rw [modify, redacted, redacted, redactedRecords_eq_map, redactedRecords_eq_map, hmap]

end Loaded

theorem redactedRelations_modify {schema : Schema} {name : String} {f : Loaded → Loaded}
    {relations : List (String × Loaded)}
    (h : ∀ l, Assoc.get? name relations = some l → (f l).redacted = l.redacted) :
    redactedRelations schema (Assoc.modify name f relations) =
      redactedRelations schema relations := by
  induction relations with
  | nil => rfl
  | cons e rest ih =>
    obtain ⟨k, l⟩ := e
    rw [Assoc.modify]
    by_cases hname : name = k
    · have hl : (f l).redacted = l.redacted := h l (by rw [Assoc.get?, if_pos hname])
      rw [if_pos hname, redactedRelations, redactedRelations, hl]
    · have hrest := ih fun l' hl' => h l' (by rw [Assoc.get?, if_neg hname, hl'])
      rw [if_neg hname, redactedRelations, redactedRelations, hrest]

namespace Record

/-- The record that a path leads to. Each step names a loaded relation and the place of a record in
it. -/
def at? (r : Record) : List (String × Nat) → Option Record
  | [] => some r
  | (name, i) :: path => ((r.relatedRecords name)[i]?).bind fun q => q.at? path

/-- Changes the record that a path leads to. -/
def modifyAt (f : Record → Record) (r : Record) : List (String × Nat) → Record
  | [] => f r
  | (name, i) :: path =>
    { r with relations := Assoc.modify name (fun l => l.modify i (modifyAt f · path)) r.relations }

theorem at?_modifyAt (f : Record → Record) (r : Record) (path : List (String × Nat)) :
    (modifyAt f r path).at? path = (r.at? path).map f := by
  induction path generalizing r with
  | nil => rfl
  | cons step path ih =>
    obtain ⟨name, i⟩ := step
    rw [modifyAt, at?, at?, relatedRecords, relatedRecords, relation?, relation?,
      Assoc.get?_modify]
    cases Assoc.get? name r.relations with
    | none => rfl
    | some l =>
      simp only [Option.map_some, Option.getD_some, Loaded.getElem?_records_modify]
      cases l.records[i]? with
      | none => rfl
      | some q => exact ih q

theorem redacted_eq (r : Record) :
    r.redacted =
      { schema := r.schema
        attributes := r.attributes.filter fun name _ => r.schema.shows name
        snapshot := .empty
        relations := redactedRelations r.schema r.relations
        persisted := false } := by
  obtain ⟨schema, attributes, snapshot, relations, persisted⟩ := r
  rw [redacted]

/-- What redaction does not see of one record it does not see of the whole. -/
theorem redacted_modifyAt {f : Record → Record} {r p : Record} {path : List (String × Nat)}
    (hat : r.at? path = some p) (hf : (f p).redacted = p.redacted) :
    (modifyAt f r path).redacted = r.redacted := by
  induction path generalizing r with
  | nil =>
    cases hat
    exact hf
  | cons step path ih =>
    obtain ⟨name, i⟩ := step
    have hbelow : ∀ l, Assoc.get? name r.relations = some l →
        (l.modify i (modifyAt f · path)).redacted = l.redacted := by
      intro l hl
      refine Loaded.redacted_modify fun q hq => ih ?_
      rw [at?, relatedRecords, relation?, hl, Option.map_some, Option.getD_some, hq] at hat
      exact hat
    rw [modifyAt, redacted_eq, redactedRelations_modify hbelow]
    exact r.redacted_eq.symm

/-! ## Attributes that are not shown -/

/-- The same record with other attributes. -/
def withAttributes (attributes : Attributes) (r : Record) : Record := { r with attributes }

/-- Other attributes, of which the shown ones are those of the record. -/
def ShownAlike (r : Record) (attributes : Attributes) : Prop :=
  ∀ name, r.schema.shows name = true → attributes.get? name = r.get? name

variable {r : Record} {name : String}

theorem shownAlike_insert (hname : r.schema.shows name = false) (v : Value) :
    r.ShownAlike (r.attributes.insert name v) := by
  intro other hother
  have hne : other ≠ name := by
    rintro rfl
    rw [hname] at hother
    cases hother
  rw [NameMap.get?_insert, if_neg hne, get?]

theorem shownAlike_erase (hname : r.schema.shows name = false) :
    r.ShownAlike (r.attributes.erase name) := by
  intro other hother
  have hne : other ≠ name := by
    rintro rfl
    rw [hname] at hother
    cases hother
  rw [NameMap.get?_erase, if_neg hne, get?]

theorem redacted_withAttributes {attributes : Attributes} (h : r.ShownAlike attributes) :
    (r.withAttributes attributes).redacted = r.redacted := by
  have hfilter : attributes.filter (fun name _ => r.schema.shows name) =
      r.attributes.filter fun name _ => r.schema.shows name := by
    refine NameMap.ext_get? fun name => ?_
    rw [NameMap.get?_filter, NameMap.get?_filter]
    cases hname : r.schema.shows name with
    | true => rw [h name hname, get?]
    | false =>
      have hnone : ∀ v? : Option Value, v?.filter (fun _ => false) = none := by
        intro v?
        cases v? <;> rfl
      exact (hnone _).trans (hnone _).symm
  rw [withAttributes, redacted_eq, hfilter]
  exact r.redacted_eq.symm

/-! ## The fields of an object -/

end Record

/-- The JSON of what a relation has, around the JSON of its records. -/
def Loaded.jsonOf (json : Record → Json) : Loaded → Json
  | .one r => (r.map json).getD .null
  | .many rs => .array (rs.map json)

theorem Loaded.toJson_eq_jsonOf (l : Loaded) : l.toJson = l.jsonOf Record.toJson := by
  match l with
  | .one none => rfl
  | .one (some r) => rfl
  | .many rs =>
    have hmap : ∀ rs, recordsToJson rs = rs.map Record.toJson := by
      intro rs
      induction rs with
      | nil => rw [recordsToJson, List.map_nil]
      | cons r rest ih => rw [recordsToJson, List.map_cons, ih]
    rw [Loaded.toJson, hmap, jsonOf]

theorem mem_relationFields {schema : Schema} {relations : List (String × Loaded)}
    {p : String × Json} :
    p ∈ relationFields schema relations ↔
      schema.showsRelation p.1 = true ∧ ∃ l, (p.1, l) ∈ relations ∧ p.2 = l.toJson := by
  induction relations with
  | nil => simp [relationFields]
  | cons e rest ih =>
    obtain ⟨k, l⟩ := e
    obtain ⟨name, j⟩ := p
    rw [relationFields]
    split
    · next hk =>
      rw [List.mem_cons, ih]
      constructor
      · rintro (heq | ⟨hname, l', hl', hj⟩)
        · cases heq
          exact ⟨hk, l, List.mem_cons_self .., rfl⟩
        · exact ⟨hname, l', List.mem_cons_of_mem _ hl', hj⟩
      · rintro ⟨hname, l', hl', hj⟩
        rcases List.mem_cons.mp hl' with heq | hl'
        · cases heq
          exact .inl (Prod.ext rfl hj)
        · exact .inr ⟨hname, l', hl', hj⟩
    · next hk =>
      rw [ih]
      constructor
      · rintro ⟨hname, l', hl', hj⟩
        exact ⟨hname, l', List.mem_cons_of_mem _ hl', hj⟩
      · rintro ⟨hname, l', hl', hj⟩
        rcases List.mem_cons.mp hl' with heq | hl'
        · cases heq
          exact absurd hname hk
        · exact ⟨hname, l', hl', hj⟩

namespace Record

/-- The record has a shown attribute of this name. -/
def HasShown (r : Record) (name : String) : Prop :=
  r.schema.shows name = true ∧ ∃ v, r.get? name = some v

/-- The record has a loaded relation of this name that is shown. -/
def HasShownRelation (r : Record) (name : String) : Prop :=
  r.schema.showsRelation name = true ∧ ∃ l, (name, l) ∈ r.relations

/-- The fields are the shown attributes, cast, and the shown relations, which stand in front of
attributes of the same name. -/
structure Discloses (r : Record) (fields : List (String × Json)) : Prop where
  ascending : Assoc.Ascending fields
  names : ∀ name, (∃ j, Assoc.get? name fields = some j) ↔ r.HasShown name ∨ r.HasShownRelation name
  relations : ∀ name, r.HasShownRelation name →
    ∃ l, (name, l) ∈ r.relations ∧ Assoc.get? name fields = some (l.jsonOf toJson)
  attributes : ∀ name v, r.schema.shows name = true → r.get? name = some v →
    ¬r.HasShownRelation name →
    Assoc.get? name fields = some (r.schema.castValue name v).toJson

theorem get?_attributeFields (r : Record) (name : String) :
    Assoc.get? name (attributeFields r.schema r.attributes) =
      ((r.get? name).filter fun _ => r.schema.shows name).map fun v =>
        (r.schema.castValue name v).toJson := by
  unfold attributeFields
  rw [Assoc.get?_map fun name v => (r.schema.castValue name v).toJson,
    Assoc.get?_filter (fun name _ => r.schema.shows name) name r.attributes.ascending]
  rfl

theorem ascending_attributeFields (schema : Schema) (attributes : Attributes) :
    Assoc.Ascending (attributeFields schema attributes) :=
  List.pairwise_map.mpr (List.Pairwise.filter _ attributes.ascending)

theorem discloses_toJson (r : Record) : ∃ fields, r.toJson = .object fields ∧ r.Discloses fields := by
  have hjson : r.toJson = .object (Assoc.insertAll (attributeFields r.schema r.attributes)
      (relationFields r.schema r.relations)) := by
    obtain ⟨schema, attributes, snapshot, relations, persisted⟩ := r
    rw [toJson]
  have hrelation : ∀ name, r.HasShownRelation name →
      ∃ l, (name, l) ∈ r.relations ∧
        Assoc.get? name (Assoc.insertAll (attributeFields r.schema r.attributes)
          (relationFields r.schema r.relations)) = some (l.jsonOf toJson) := by
    rintro name ⟨hname, l, hl⟩
    obtain ⟨p, hp, rfl, hget⟩ := Assoc.exists_get?_insertAll
      ⟨(name, l.toJson), mem_relationFields.mpr ⟨hname, l, hl, rfl⟩, rfl⟩
      (attributeFields r.schema r.attributes)
    obtain ⟨-, l', hl', hj⟩ := mem_relationFields.mp hp
    exact ⟨l', hl', by rw [hget, hj, l'.toJson_eq_jsonOf]⟩
  have hattribute : ∀ name, ¬r.HasShownRelation name →
      Assoc.get? name (Assoc.insertAll (attributeFields r.schema r.attributes)
        (relationFields r.schema r.relations)) =
        ((r.get? name).filter fun _ => r.schema.shows name).map fun v =>
          (r.schema.castValue name v).toJson := by
    intro name hname
    rw [Assoc.get?_insertAll_of_notMem ?_ _, get?_attributeFields]
    rintro p hp rfl
    obtain ⟨hshown, l, hl, -⟩ := mem_relationFields.mp hp
    exact hname ⟨hshown, l, hl⟩
  refine ⟨_, hjson, ?_, ?_, hrelation, ?_⟩
  · exact Assoc.ascending_insertAll _ (ascending_attributeFields _ _)
  · intro name
    by_cases hname : r.HasShownRelation name
    · obtain ⟨l, -, hget⟩ := hrelation name hname
      exact ⟨fun _ => .inr hname, fun _ => ⟨_, hget⟩⟩
    · rw [hattribute name hname]
      constructor
      · rintro ⟨j, hj⟩
        obtain ⟨v, hv, -⟩ := Option.map_eq_some_iff.mp hj
        obtain ⟨hget, hshown⟩ := Option.filter_eq_some_iff.mp hv
        exact .inl ⟨hshown, v, hget⟩
      · rintro (⟨hshown, v, hv⟩ | h)
        · rw [hv, hshown]
          exact ⟨_, rfl⟩
        · exact absurd h hname
  · intro name v hshown hv hname
    rw [hattribute name hname, hv, hshown]
    rfl

/-! ## The whole tree -/

/-- The JSON of a record does not depend on anything that is not shown, in itself or in a record at
any depth below, and every object in it has the fields that are shown. -/
theorem toJson_discreet (r : Record) :
    (∀ other : Record, other.redacted = r.redacted → other.toJson = r.toJson) ∧
      ∀ path p, r.at? path = some p →
        (∀ attributes, p.ShownAlike attributes →
          (r.modifyAt (withAttributes attributes) path).at? path =
              some (p.withAttributes attributes) ∧
            (r.modifyAt (withAttributes attributes) path).toJson = r.toJson) ∧
          ∃ fields, p.toJson = .object fields ∧ p.Discloses fields := by
  have hredacted : ∀ other : Record, other.redacted = r.redacted → other.toJson = r.toJson := by
    intro other hother
    rw [← other.toJson_redacted, hother, r.toJson_redacted]
  refine ⟨hredacted, fun path p hat => ⟨fun attributes halike => ⟨?_, ?_⟩, p.discloses_toJson⟩⟩
  · rw [at?_modifyAt, hat, Option.map_some]
  · exact hredacted _ (redacted_modifyAt hat (redacted_withAttributes halike))

/-! ### A blog -/

def bloggers : Schema := { Schema.plain "bloggers" with hidden := ["password", "sessions"] }

def articles : Schema := { Schema.plain "articles" with visible := some ["author", "title"] }

def author : Record :=
  .hydrate bloggers ⟨["id", "name", "password"], [.int32 1, .text "Ada", .text "x7f"]⟩

/-- The author is an attribute and a relation. -/
def article : Record :=
  (hydrate articles
    ⟨["author", "draft", "title"], [.int32 1, .text "Once", .text "Notes"]⟩).setRelation
    "author" (.one (some author))

def blog : Record :=
  ((hydrate bloggers ⟨["id", "name"], [.int32 2, .text "Bob"]⟩).setRelation "articles"
    (.many [article, .new articles])).setRelation "sessions" (.many [.new bloggers])

/-- Neither another password of the author nor the lack of one has an effect, and the article shows
its author from the relation. -/
theorem toJson_discreet_blog :
    blog.at? [("articles", 0), ("author", 0)] = some author ∧ bloggers.shows "password" = false ∧
      (blog.modifyAt (withAttributes (author.attributes.insert "password" (.text "y3k")))
        [("articles", 0), ("author", 0)]).toJson = blog.toJson ∧
      (blog.modifyAt (withAttributes (author.attributes.erase "password"))
        [("articles", 0), ("author", 0)]).toJson = blog.toJson ∧
      blog.at? [("articles", 0)] = some article ∧ article.HasShownRelation "author" ∧
      ∃ fields, article.toJson = .object fields ∧
        Assoc.get? "author" fields = some author.toJson := by
  have hauthor : blog.at? [("articles", 0), ("author", 0)] = some author := rfl
  have harticle : blog.at? [("articles", 0)] = some article := rfl
  have hhidden : bloggers.shows "password" = false := by decide
  have hchanged := ((toJson_discreet blog).2 _ _ hauthor).1 _
    (shownAlike_insert hhidden (.text "y3k"))
  have herased := ((toJson_discreet blog).2 _ _ hauthor).1 _ (shownAlike_erase hhidden)
  have hrelation : article.HasShownRelation "author" := ⟨rfl, _, List.mem_cons_self ..⟩
  obtain ⟨fields, hfields, hdiscloses⟩ := ((toJson_discreet blog).2 _ _ harticle).2
  obtain ⟨l, hl, hget⟩ := hdiscloses.relations "author" hrelation
  have hl : l = .one (some author) := by
    cases List.mem_singleton.mp hl
    rfl
  rw [hl] at hget
  exact ⟨hauthor, hhidden, hchanged.2, herased.2, harticle, hrelation, fields, hfields, hget⟩

end Record

end RecordMapper
