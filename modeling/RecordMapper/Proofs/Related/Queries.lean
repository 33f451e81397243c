import RecordMapper.Proofs.Query.Compiling
import RecordMapper.Proofs.Related.Owners

/-!
The queries of a declared relation can be compiled.

* `Relation.Declared` says that a relation has all that its kind needs, `Relation.Reads` that a query
  reads the related table and has a text but for the name of the table.
* The queries for one parent and for many, `Relation.ownedBy` and `Relation.batchQuery`, are such.
-/
namespace RecordMapper

set_option autoImplicit false

namespace Relation

/-- A relation to the rows of one schema, with the pivot or intermediate table its kind needs. -/
structure Declared (r : Relation) (catalog : Catalog) (related : Schema) : Prop where
  kind : r.kind ≠ .morphTo
  related : catalog.related? r = some related
  pivot : r.kind = .manyToMany → ∃ p, r.pivot = some p
  through : r.kind = .hasOneThrough ∨ r.kind = .hasManyThrough → ∃ t, r.through = some t

variable {r : Relation} {related : Schema} {q : Query}

/-- A query over the related table of which every part can be compiled. -/
def Reads (related : Schema) (q : Query) : Prop := q.table = related.table ∧ q.Compiles

theorem reads_plain (related : Schema) (d : Dialect) : Reads related (plainCandidates related d) :=
  ⟨rfl, (Query.compiles_on related.table d).keyedBy related.primaryKey⟩

theorem reads_joined (related : Schema) (d : Dialect) (table left right : String) :
    Reads related (joinedCandidates related d table left right) :=
  ⟨rfl, (((reads_plain related d).2.select _).join _)⟩

theorem Reads.scope (h : Reads related q) {c : Condition} (hc : ∀ d, ∃ f, c.compile d = .ok f) :
    Reads related (q.scope c) :=
  ⟨h.1, h.2.scope hc⟩

theorem exists_compare (column : String) (op : Comparison) (v : Value) (d : Dialect) :
    ∃ f, Condition.compile d (.compare (.column column) op v) = .ok f := by
  rw [Condition.compile]
  exact exists_ok_bind ⟨_, rfl⟩ fun f => ⟨_, rfl⟩

theorem exists_isNull (column : String) (negated : Bool) (d : Dialect) :
    ∃ f, Condition.compile d (.isNull (.column column) negated) = .ok f := by
  rw [Condition.compile]
  exact exists_ok_bind ⟨_, rfl⟩ fun f => ⟨_, rfl⟩

theorem exists_isIn (column : String) (values : List Value) (negated : Bool) (d : Dialect) :
    ∃ f, Condition.compile d (.isIn (.column column) values negated) = .ok f := by
  rw [Condition.compile]
  split
  · exact ⟨_, rfl⟩
  · exact exists_ok_bind ⟨_, rfl⟩ fun f => ⟨_, rfl⟩

theorem Reads.withoutTrashed (h : Reads related q) : Reads related (withoutTrashed related q) := by
  unfold Relation.withoutTrashed
  cases related.softDelete with
  | none => exact h
  | some column => exact h.scope fun d => exists_isNull _ _ d

theorem Reads.ofParentType (h : Reads related q) (type : Option String) :
    Reads related (r.ofParentType related type q) := by
  unfold Relation.ofParentType
  split
  · exact h.scope fun d => exists_compare _ _ _ d
  · exact h

theorem Reads.withOwner (h : Reads related q) (column : String) :
    Reads related (r.withOwner column q) := by
  rw [r.withOwner_eq]
  split
  · refine ⟨h.1, h.2.addExpr fun d => ?_⟩
    rw [Expr.compile]
    exact exists_ok_bind ⟨_, rfl⟩ fun f => ⟨_, rfl⟩
  · exact h

theorem Reads.settled (h : Reads related q) : Reads related (r.settled related q) := by
  unfold Relation.settled
  split
  · exact ⟨h.1, h.2.orderBy fun d => ⟨_, rfl⟩⟩
  · exact h

theorem Reads.take (h : Reads related q) (n : Nat) : Reads related (q.take n) := ⟨h.1, h.2.take n⟩

variable {catalog : Catalog}

theorem Declared.keyColumn (h : r.Declared catalog related) :
    ∃ column, r.keyColumn related = .ok column := by
  unfold Relation.keyColumn
  cases hk : r.kind with
  | manyToMany =>
    obtain ⟨p, hp⟩ := h.pivot hk
    exact ⟨_, by unfold requirePivot; rw [hp]; rfl⟩
  | hasOneThrough =>
    obtain ⟨t, ht⟩ := h.through (.inl hk)
    exact ⟨_, by unfold throughKeyColumn requireThrough; rw [ht]; rfl⟩
  | hasManyThrough =>
    obtain ⟨t, ht⟩ := h.through (.inr hk)
    exact ⟨_, by unfold throughKeyColumn requireThrough; rw [ht]; rfl⟩
  | _ => exact ⟨_, rfl⟩

theorem Declared.candidates (h : r.Declared catalog related) (d : Dialect) :
    ∃ q, r.candidates related d = .ok q ∧ Reads related q := by
  unfold Relation.candidates
  cases hk : r.kind with
  | manyToMany =>
    obtain ⟨p, hp⟩ := h.pivot hk
    refine ⟨_, by unfold requirePivot; rw [hp]; rfl, (reads_joined ..).withoutTrashed⟩
  | hasOneThrough =>
    obtain ⟨t, ht⟩ := h.through (.inl hk)
    refine ⟨_, by unfold throughCandidates requireThrough; rw [ht]; rfl,
      (reads_joined ..).withoutTrashed⟩
  | hasManyThrough =>
    obtain ⟨t, ht⟩ := h.through (.inr hk)
    refine ⟨_, by unfold throughCandidates requireThrough; rw [ht]; rfl,
      (reads_joined ..).withoutTrashed⟩
  | _ => exact ⟨_, rfl, (reads_plain related d).withoutTrashed⟩

theorem Declared.ownedBy (h : r.Declared catalog related) (hq : Reads related q) (key : Value)
    (type : Option String) :
    ∃ q', r.ownedBy related key type q = .ok q' ∧ Reads related q' := by
  obtain ⟨column, hcolumn⟩ := h.keyColumn
  unfold Relation.ownedBy
  rw [hcolumn]
  exact ⟨_, rfl, (hq.scope fun d => exists_compare _ _ _ d).ofParentType type⟩

/-- The query of a batch compares one column with the keys. It is the column of the owner, or else
it is added under the name of the owner. -/
theorem Declared.ownedByAny_eq (h : r.Declared catalog related) (keys : List Value)
    (type : Option String) (q : Query) :
    ∃ column, (r.addsOwner = false → column = related.qualified r.ownerName) ∧
      r.ownedByAny related keys type q = .ok (r.ofParentType related type
        ((r.withOwner column q).scope (.isIn (.column column) keys false))) := by
  obtain ⟨column, hcolumn⟩ := h.keyColumn
  refine ⟨column, fun hadds => ?_, ?_⟩
  · exact Except.ok.inj (hcolumn.symm.trans (r.keyColumn_eq_ownerName related h.kind hadds))
  · unfold Relation.ownedByAny
    rw [hcolumn]
    rfl

theorem Declared.ownedByAny (h : r.Declared catalog related) (hq : Reads related q)
    (keys : List Value) (type : Option String) :
    ∃ q', r.ownedByAny related keys type q = .ok q' ∧ Reads related q' := by
  obtain ⟨column, -, hquery⟩ := h.ownedByAny_eq keys type q
  exact ⟨_, hquery, ((hq.withOwner column).scope fun d => exists_isIn _ _ _ d).ofParentType type⟩

theorem Declared.batchQuery {σ : Type} {s : Session σ} (h : r.Declared s.catalog related)
    (parent : Schema) (keys : List Value) :
    ∃ q, r.batchQuery s parent related keys = .ok q ∧ Reads related q := by
  obtain ⟨q, hq, hreads⟩ := h.candidates s.dialect
  obtain ⟨q', hq', hreads'⟩ := h.ownedByAny hreads keys (r.parentType? s.morphs parent)
  unfold Relation.batchQuery
  rw [hq]
  refine ⟨r.settled related q', ?_, hreads'.settled⟩
  show (r.ownedByAny related keys _ q >>= _) = _
  rw [hq']
  rfl

end Relation

end RecordMapper
