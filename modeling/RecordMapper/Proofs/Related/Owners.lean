import RecordMapper.Related.Matching

/-!
Which rows of a batch belong to which parent.

* `Relation.ownerKey?` is the key of the parent that a row of a batch names, `Relation.ownRow` is the
  row as it is read for that parent alone. The column it is read from is the one that the query of
  the batch searches by (`keyColumn_eq_ownerName`) or adds (`withOwner_eq`).
* Rows are filed under these keys (`filed?_eq`), so a parent finds its rows in their order
  (`recordsOf_filed`).
-/
namespace RecordMapper

set_option autoImplicit false

/-! ## Columns of a row -/

namespace Row

theorem names_sublist (columns : List String) (values : List Value) :
    ((columns.zip values).map Prod.fst).Sublist columns := by
  induction columns generalizing values with
  | nil => exact List.Sublist.refl []
  | cons c rest ih =>
    cases values with
    | nil => exact List.nil_sublist _
    | cons v values => exact (ih values).cons_cons c

theorem lastIndex?_succ (name : String) (start : Nat) (columns : List String) :
    lastIndex? name (start + 1) columns = (lastIndex? name start columns).map (· + 1) := by
  induction columns generalizing start with
  | nil => rfl
  | cons c rest ih =>
    simp only [lastIndex?, ih]
    cases lastIndex? name start rest with
    | some i => rfl
    | none =>
      simp only [Option.map_none]
      split <;> rfl

theorem lastIndex?_eq_none {name : String} {columns : List String} (h : name ∉ columns)
    (start : Nat) : lastIndex? name start columns = none := by
  induction columns generalizing start with
  | nil => rfl
  | cons c rest ih =>
    rw [List.mem_cons, not_or] at h
    simp [lastIndex?, ih h.2, Ne.symm h.1]

/-- If no two columns have one name, the last column of a name is the first one too. -/
theorem named?_eq {row : Row} (h : row.columns.Nodup) (name : String) :
    row.named? name = Assoc.get? name row.pairs := by
  obtain ⟨columns, values⟩ := row
  unfold named? indexOf? get? pairs
  simp only at h ⊢
  induction columns generalizing values with
  | nil => rfl
  | cons c rest ih =>
    obtain ⟨hc, hrest⟩ := List.nodup_cons.1 h
    cases values with
    | nil => cases lastIndex? name 0 (c :: rest) <;> rfl
    | cons v values =>
      have ih := ih values hrest
      simp only [lastIndex?, List.zip_cons_cons, Assoc.get?, Nat.zero_add]
      rw [lastIndex?_succ, ← ih]
      by_cases hname : name = c
      · subst hname
        rw [lastIndex?_eq_none hc]
        simp
      · cases lastIndex? name 0 rest with
        | none => simp [hname, Ne.symm hname]
        | some i => simp [hname]

theorem takeFirst_eq {name : String} {pairs : List (String × Value)}
    (h : (pairs.map Prod.fst).Nodup) :
    takeFirst name pairs = (Assoc.get? name pairs, Assoc.erase name pairs) := by
  induction pairs with
  | nil => rfl
  | cons p rest ih =>
    obtain ⟨k, v⟩ := p
    obtain ⟨hk, hrest⟩ := List.nodup_cons.1 h
    by_cases hname : k = name
    · subst hname
      have herase : Assoc.erase k rest = rest := by
        refine List.filter_eq_self.2 fun e he => ?_
        have hne : e.1 ≠ k := fun heq => hk (heq ▸ List.mem_map.2 ⟨e, he, rfl⟩)
        simpa using hne
      simp [takeFirst, Assoc.get?, Assoc.erase]
      exact herase.symm
    · simp only [takeFirst, if_neg hname, ih hrest, Assoc.get?, if_neg (Ne.symm hname)]
      simp [Assoc.erase, hname]

theorem splitOff_eq {row : Row} (h : row.columns.Nodup) (name : String) :
    row.splitOff name =
      (Assoc.get? name row.pairs, ofPairs (Assoc.erase name row.pairs)) := by
  have hpairs : (row.pairs.map Prod.fst).Nodup := (names_sublist row.columns row.values).nodup h
  unfold splitOff
  rw [takeFirst_eq hpairs]

end Row

/-! ## Keys that are searched for -/

theorem exists_key? {v : Value} (hnull : v.isNull = false) (hdefault : v ≠ .default) :
    ∃ k, v.key? = some k := by
  cases v with
  | null => cases hnull
  | default => exact absurd rfl hdefault
  | _ => exact ⟨_, by unfold Value.key?; rw [Value.keyChars?]; rfl⟩

section Distinct

variable {α : Type} (value : α → Value)

theorem exists_mem_distinctFrom {items : List α} {a : α} {k : Key} (ha : a ∈ items)
    (hk : (value a).key? = some k) (seen : List Key) (hseen : k ∉ seen) :
    ∃ b ∈ Key.distinctFrom value seen items, (value b).key? = some k := by
  induction items generalizing seen with
  | nil => cases ha
  | cons b rest ih =>
    have hrest : (value b).key? ≠ some k → a ∈ rest := by
      intro hne
      rcases List.mem_cons.1 ha with rfl | ha
      · exact absurd hk hne
      · exact ha
    -- Another item with the key of `a` may come first; then it is the one that is kept.
    cases hb : (value b).key? with
    | none =>
      simp only [Key.distinctFrom, hb]
      exact ih (hrest (by simp [hb])) seen hseen
    | some k' =>
      by_cases heq : k' = k
      · subst heq
        simp only [Key.distinctFrom, hb, if_neg hseen]
        exact ⟨b, List.mem_cons_self .., hb⟩
      · have ha := hrest (by simp [hb, heq])
        simp only [Key.distinctFrom, hb]
        split
        · exact ih ha seen hseen
        · obtain ⟨c, hc, hkey⟩ := ih ha (k' :: seen) (by simp [Ne.symm heq, hseen])
          exact ⟨c, List.mem_cons_of_mem _ hc, hkey⟩

/-- Of the items with one key one is kept. -/
theorem exists_mem_distinct {items : List α} {a : α} {k : Key} (ha : a ∈ items)
    (hk : (value a).key? = some k) :
    ∃ b ∈ Key.distinct value items, (value b).key? = some k :=
  exists_mem_distinctFrom value ha hk [] (List.not_mem_nil)

theorem distinctFrom_sublist (items : List α) (seen : List Key) :
    (Key.distinctFrom value seen items).Sublist items := by
  induction items generalizing seen with
  | nil => exact List.Sublist.refl []
  | cons a rest ih =>
    rw [Key.distinctFrom]
    split
    · exact (ih seen).cons a
    · next k _ =>
      split
      · exact (ih seen).cons a
      · exact (ih (k :: seen)).cons_cons a

theorem mem_of_mem_distinct {items : List α} {a : α} (h : a ∈ Key.distinct value items) :
    a ∈ items :=
  (distinctFrom_sublist value items []).mem h

end Distinct

/-! ## Owners -/

namespace Relation

/-- The column under which a row of a batch carries the value that names its parent. -/
def ownerName (r : Relation) : String :=
  match r.kind with
  | .hasOne => r.foreignKey
  | .hasMany => r.foreignKey
  | .belongsTo => r.ownerKey
  | .manyToMany => pivotOwner
  | .hasOneThrough => throughOwner
  | .hasManyThrough => throughOwner
  | .morphOne => r.morphIdColumn
  | .morphMany => r.morphIdColumn
  | .morphTo => r.foreignKey

def ownerKey? (r : Relation) (row : Row) : Option Key :=
  (Assoc.get? r.ownerName row.pairs).bind Value.key?

/-- Whether the column of the owner is added to the rows of a batch only. -/
def addsOwner (r : Relation) : Bool :=
  match r.kind with
  | .manyToMany => true
  | .hasOneThrough => true
  | .hasManyThrough => true
  | _ => false

def ownRow (r : Relation) (row : Row) : Row :=
  if r.addsOwner then .ofPairs (Assoc.erase r.ownerName row.pairs) else row

/-- If the related table names the parent, a batch is searched by the column that does. -/
theorem keyColumn_eq_ownerName (r : Relation) (related : Schema) (hkind : r.kind ≠ .morphTo)
    (hadds : r.addsOwner = false) :
    r.keyColumn related = .ok (related.qualified r.ownerName) := by
  unfold addsOwner at hadds
  unfold keyColumn ownerName
  cases hk : r.kind <;> rw [hk] at hadds hkind <;>
    first | rfl | exact absurd rfl hkind | cases hadds

/-- If not, the column that is searched is read under the name of the owner. -/
theorem withOwner_eq (r : Relation) (column : String) (q : Query) :
    r.withOwner column q =
      if r.addsOwner then q.addExpr (.named (.column column) r.ownerName) else q := by
  unfold withOwner ownerAlias? ownerName addsOwner
  cases r.kind <;> rfl

theorem ownerOf_eq (r : Relation) {row : Row} (h : row.columns.Nodup) :
    r.ownerOf row = (Assoc.get? r.ownerName row.pairs, r.ownRow row) := by
  unfold ownerOf ownerAlias? ownerName ownRow addsOwner ownerColumn ownerName
  cases r.kind <;> simp only [Row.splitOff_eq h, Row.named?_eq h, if_true] <;> rfl

theorem filed?_eq (r : Relation) (related : Schema) {row : Row} (h : row.columns.Nodup) :
    r.filed? related row =
      (r.ownerKey? row).map fun k => (k, .hydrate related (r.ownRow row)) := by
  unfold filed? ownerKey?
  rw [r.ownerOf_eq h]
  cases Assoc.get? r.ownerName row.pairs with
  | none => rfl
  | some v =>
    show v.key?.bind _ = v.key?.map _
    cases v.key? <;> rfl

/-- A parent finds the rows that name it, in their order. -/
theorem recordsOf_filed (r : Relation) (related : Schema) {rows : List Row}
    (h : ∀ row ∈ rows, row.columns.Nodup) (toOne : Bool) (k : Key) :
    Matches.recordsOf ⟨toOne, rows.filterMap (r.filed? related)⟩ k =
      (rows.filter fun row => r.ownerKey? row = some k).map
        fun row => .hydrate related (r.ownRow row) := by
  unfold Matches.recordsOf
  induction rows with
  | nil => rfl
  | cons row rest ih =>
    have hrow := h row (List.mem_cons_self ..)
    have ih := ih fun row hrow => h row (List.mem_cons_of_mem _ hrow)
    rw [List.filterMap_cons, r.filed?_eq related hrow]
    cases hkey : r.ownerKey? row with
    | none => simpa [hkey] using ih
    | some k' =>
      by_cases heq : k' = k
      · simpa [hkey, heq] using ih
      · simpa [hkey, heq] using ih

end Relation

end RecordMapper
