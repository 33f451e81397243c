import RecordMapper.Proofs.Related.Owners
import RecordMapper.Proofs.Session.Tables
import RecordMapper.Related.Links

/-!
Synchronised links.

* The pivot table is a `Ledger` whose cells are compared by their keys.
* `BoundRelation.Synced` is what a synchronisation with a list of ids makes of the rows, and what it
  returns; `Exchange` is what it sends.
-/
namespace RecordMapper

set_option autoImplicit false

/-! ## Keys -/

/-- Whether two values have one key. -/
def Value.sharesKey (a b : Value) : Bool :=
  match a.key?, b.key? with
  | some k, some l => k = l
  | _, _ => false

theorem Value.sharesKey_iff {a b : Value} :
    a.sharesKey b = true ↔ ∃ k, a.key? = some k ∧ b.key? = some k := by
  unfold sharesKey
  cases ha : a.key? with
  | none => simp
  | some k =>
    cases hb : b.key? with
    | none => simp
    | some l => simp [eq_comm]

section Distinct

variable {α β : Type} (value : α → Value)

/-- The items that are kept have keys, each another one. -/
theorem distinctFrom_keys (items : List α) (seen : List Key) :
    ∃ keys : List Key,
      (Key.distinctFrom value seen items).map (fun a => (value a).key?) = keys.map some ∧
      keys.Nodup ∧ ∀ k ∈ keys, k ∉ seen := by
  induction items generalizing seen with
  | nil => exact ⟨[], rfl, List.nodup_nil, fun k hk => nomatch hk⟩
  | cons a rest ih =>
    cases ha : (value a).key? with
    | none =>
      simp only [Key.distinctFrom, ha]
      exact ih seen
    | some k =>
      by_cases hk : k ∈ seen
      · simp only [Key.distinctFrom, ha, if_pos hk]
        exact ih seen
      · obtain ⟨keys, hkeys, hnodup, hnew⟩ := ih (k :: seen)
        simp only [Key.distinctFrom, ha, if_neg hk]
        refine ⟨k :: keys, ?_, List.nodup_cons.mpr ⟨fun h => ?_, hnodup⟩, fun l hl => ?_⟩
        · rw [List.map_cons, List.map_cons, ha, hkeys]
        · exact hnew k h (List.mem_cons_self ..)
        · rcases List.mem_cons.mp hl with rfl | hl
          · exact hk
          · exact fun h => hnew l hl (List.mem_cons_of_mem k h)

theorem distinctFrom_map (f : β → α) (items : List β) (seen : List Key) :
    Key.distinctFrom value seen (items.map f) =
      (Key.distinctFrom (fun b => value (f b)) seen items).map f := by
  induction items generalizing seen with
  | nil => rfl
  | cons b rest ih =>
    rw [List.map_cons, Key.distinctFrom, Key.distinctFrom]
    cases (value (f b)).key? with
    | none => exact ih seen
    | some k =>
      simp only
      split
      · exact ih seen
      · exact congrArg (f b :: ·) (ih (k :: seen))

end Distinct

/-- The values without those that repeat the key of an earlier one. -/
def firsts : List Value → List Value
  | [] => []
  | v :: rest => v :: (firsts rest).filter fun v' => !v.sharesKey v'

theorem firsts_sublist (ids : List Value) : (firsts ids).Sublist ids := by
  induction ids with
  | nil => exact List.Sublist.refl []
  | cons v rest ih => exact (List.filter_sublist.trans ih).cons_cons v

theorem distinctFrom_eq_firsts (ids : List Value) (seen : List Key) :
    Key.distinctFrom id seen ids =
      (firsts ids).filter fun v => v.key?.any fun k => decide (k ∉ seen) := by
  induction ids generalizing seen with
  | nil => rfl
  | cons v rest ih =>
    rw [Key.distinctFrom, firsts, List.filter_cons, List.filter_filter, id]
    cases hv : v.key? with
    | none =>
      rw [ih]
      refine List.filter_congr fun v' _ => ?_
      simp [Value.sharesKey, hv]
    | some k =>
      by_cases hk : k ∈ seen
      · simp only [ih, Option.any_some, hk, not_true, decide_false]
        refine List.filter_congr fun v' _ => ?_
        cases hv' : v'.key? with
        | none => rfl
        | some k' =>
          by_cases hkk : k = k'
          · subst hkk
            simp [Value.sharesKey, hv, hv', hk]
          · simp [Value.sharesKey, hv, hv', hkk]
      · simp only [ih, Option.any_some, hk, not_false_iff, decide_true, if_true]
        refine congrArg (v :: ·) (List.filter_congr fun v' _ => ?_)
        cases hv' : v'.key? with
        | none => rfl
        | some k' =>
          by_cases hkk : k = k'
          · subst hkk
            simp [Value.sharesKey, hv, hv']
          · simp [Value.sharesKey, hv, hv', hkk, Ne.symm hkk]

/-- Whether a key is that of one of the ids. -/
def Requested (ids : List Value) (k : Key) : Prop := ∃ id ∈ ids, id.key? = some k

namespace BoundRelation

variable {σ : Type}

theorem isAmong_iff {ids : List Value} {id : Value} :
    isAmong ids id = true ↔ ∃ k, id.key? = some k ∧ Requested ids k := by
  unfold isAmong Requested
  cases id.key? with
  | none => simp
  | some k => simp

/-! ## Links in the table -/

/-- Whether a row is a link of the parent. -/
def owns (b : BoundRelation) (p : Pivot) (row : Attributes) : Bool :=
  b.key.sharesKey (cell row p.localKey)

/-- Whether the parent is linked to a key. -/
def LinkedTo (b : BoundRelation) (p : Pivot) (rows : List Attributes) (k : Key) : Prop :=
  ∃ row ∈ rows, b.owns p row = true ∧ (cell row p.foreignKey).key? = some k

/-- A link of the parent that is requested, and was there. -/
def Stays (b : BoundRelation) (p : Pivot) (ids : List Value) (before : List Attributes)
    (row : Attributes) : Prop :=
  b.owns p row = true ∧
    ∃ k, (cell row p.foreignKey).key? = some k ∧ b.LinkedTo p before k ∧ Requested ids k

open Classical in
/-- What becomes of the links of a parent, and what is reported of it. -/
structure Synced (b : BoundRelation) (p : Pivot) (ids : List Value)
    (before after : List Attributes) (changes : LinkChanges) : Prop where
  linked : ∀ k, b.LinkedTo p after k ↔ Requested ids k
  others : (after.filter fun row => !b.owns p row).Perm (before.filter fun row => !b.owns p row)
  stays : (after.filter (b.Stays p ids before)).Perm (before.filter (b.Stays p ids before))
  attached : ∃ keys : List Key, changes.attached.map Value.key? = keys.map some ∧ keys.Nodup ∧
    ∀ k, k ∈ keys ↔ Requested ids k ∧ ¬b.LinkedTo p before k
  inOrder : changes.attached.Sublist (firsts ids)
  detached : ∀ v, v ∈ changes.detached ↔
    ∃ row ∈ before, b.owns p row = true ∧ cell row p.foreignKey = v ∧
      ∃ k, v.key? = some k ∧ ¬Requested ids k
  updated : changes.updated = []

/-! ## What is sent -/

/-- A row that links the parent to an id. -/
def IsLink (b : BoundRelation) (p : Pivot) (id : Value) (row : Attributes) : Prop :=
  row.get? p.localKey = some b.key ∧ row.get? p.foreignKey = some id

section Statements

open RecordMapper.Action

variable {view : σ → Ledger} {s : Session σ} {b : BoundRelation} {p : Pivot}

/-- A parent and a pivot table whose links can be read and written. -/
structure Linkable (b : BoundRelation) (p : Pivot) : Prop where
  pivot : b.relation.requirePivot = .ok p
  table : (Text.trim p.table).isEmpty = false
  columns : p.localKey ≠ p.foreignKey
  notNull : b.key.isNull = false
  notDefault : b.key.isDefault = false

theorem Linkable.requireLinks (h : b.Linkable p) : b.requireLinks = .ok p := by
  unfold BoundRelation.requireLinks
  rw [h.pivot, h.notNull]
  rfl

theorem Linkable.asks (h : b.Linkable p) :
    (b.links p).Asks [(p.localKey, [b.key])] :=
  (Query.asks_on p.table b.query.dialect).filter (.eq p.localKey h.notNull h.notDefault)

theorem meets_links :
    Matching.meets Value.sharesKey [(p.localKey, [b.key])] = b.owns p := by
  funext row
  simp [Matching.meets, owns]

theorem columnOrFirst_single (name label : String) (v : Value) :
    Query.columnOrFirst name ⟨[label], [v]⟩ = v := by
  unfold Query.columnOrFirst Row.named? Row.indexOf?
  simp only [Row.lastIndex?]
  split <;> rfl

theorem gives_linkedIds
    (h : Tabular s.world b.query.dialect p.table Value.sharesKey view) (hb : b.Linkable p) (w : σ) :
    Gives view (b.linkedIds s) w fun current w' =>
      current.Perm (((view w).rows.filter (b.owns p)).map fun row => cell row p.foreignKey) ∧
      ∃ st, TableCommand.read b.query.dialect st =
          some (.select p.foreignKey p.table [(p.localKey, [b.key])]) ∧
        view w' = (view w).sending (.query st) := by
  obtain ⟨st, hst, hread⟩ := Query.read_pluck hb.asks hb.table p.foreignKey
  refine gives_ofResult_bind hb.requireLinks ?_
  have hselect : Gives view ((b.links p).withColumns [.column p.foreignKey] |>.rows s) w
      fun found w' =>
        Lists Value.sharesKey p.foreignKey [(p.localKey, [b.key])] (view w).rows found ∧
        view w' = (view w).sending (.query st) :=
    gives_ofResult_bind hst (h.gives_select hread w)
  refine hselect.bind fun found w' hfound => gives_pure ⟨?_, st, hread, hfound.2⟩
  obtain ⟨⟨label, hperm⟩, -⟩ := hfound
  have hcells := hperm.map (Query.columnOrFirst (Query.bareColumn p.foreignKey))
  simp only [List.map_map, Function.comp_def, columnOrFirst_single, meets_links] at hcells
  exact hcells

/-- Whether a row is a link of the parent to one of the ids. -/
def isLinkTo (b : BoundRelation) (p : Pivot) (ids : List Value) (row : Attributes) : Bool :=
  b.owns p row && ids.any fun id => id.sharesKey (cell row p.foreignKey)

theorem meets_linksTo (ids : List Value) (row : Attributes) :
    Matching.meets Value.sharesKey [(p.localKey, [b.key]), (p.foreignKey, ids)] row =
      b.isLinkTo p ids row := by
  simp [Matching.meets, owns, isLinkTo]

theorem not_isDefault_of_key? {v : Value} (h : v.key?.isSome = true) : v.isDefault = false := by
  cases v <;> first | rfl | cases h

theorem gives_detachAny
    (h : Tabular s.world b.query.dialect p.table Value.sharesKey view) (hb : b.Linkable p)
    {ids : List Value} (hids : ∀ id ∈ ids, id.key?.isSome = true) (w : σ) :
    Gives view (b.detachAny s ids) w fun _ w' =>
      ∃ writes rows, view w' = (view w).writing writes rows ∧
        rows.Perm ((view w).rows.filter fun row => !b.isLinkTo p ids row) ∧
        (ids = [] → writes = []) ∧
        ∀ st ∈ writes, ∃ m, TableCommand.read b.query.dialect st = some (.delete p.table m) ∧
          ∀ row, m.meets Value.sharesKey row = b.isLinkTo p ids row := by
  cases ids with
  | nil =>
    refine gives_pure ⟨[], (view w).rows, ?_, ?_, fun _ => rfl, fun st hst => nomatch hst⟩
    · unfold Ledger.writing
      rw [List.map_nil, List.append_nil]
    · have hall : ∀ row ∈ (view w).rows, (!b.isLinkTo p [] row) = true := by
        intro row _
        simp [isLinkTo]
      rw [List.filter_eq_self.mpr hall]
  | cons id ids =>
    have hasks := hb.asks.filter (.isIn p.foreignKey (List.cons_ne_nil id ids)
      fun v hv => not_isDefault_of_key? (hids v hv))
    obtain ⟨st, hst, hread⟩ := Query.read_deletion hasks hb.table
    have hdelete : Gives view (b.detach s (some (id :: ids))) w fun _ w' =>
        ∃ rows, view w' = (view w).writing [st] rows ∧
          rows.Perm ((view w).rows.filter fun row => !b.isLinkTo p (id :: ids) row) := by
      refine gives_ofResult_bind hb.requireLinks (gives_ofResult_bind hst ?_)
      refine (h.gives_write hread rfl w).bind fun e w' hrows => gives_pure ?_
      obtain ⟨rows, heffect, hview⟩ := hrows
      refine ⟨rows, hview, ?_⟩
      simpa only [TableCommand.Effect, List.cons_append, List.nil_append, meets_linksTo]
        using heffect
    refine hdelete.bind fun n w' hrows => gives_pure ?_
    obtain ⟨rows, hview, hperm⟩ := hrows
    refine ⟨[st], rows, hview, hperm, fun hnil => absurd hnil (List.cons_ne_nil id ids),
      fun st' hst' => ?_⟩
    rw [List.mem_singleton.mp hst']
    exact ⟨_, hread, meets_linksTo (id :: ids)⟩

/-! ### New links -/

theorem linkRow_entries (hne : p.localKey ≠ p.foreignKey) (id : Value) :
    (b.linkRow p (.bare id)).entries =
      if p.foreignKey < p.localKey then [(p.foreignKey, id), (p.localKey, b.key)]
      else [(p.localKey, b.key), (p.foreignKey, id)] := by
  unfold linkRow LinkEntry.bare NameMap.insert NameMap.empty
  simp only [Assoc.insert, if_neg (Ne.symm hne)]

/-- The columns of a link without attributes. -/
def linkColumns (p : Pivot) : List String :=
  if p.foreignKey < p.localKey then [p.foreignKey, p.localKey] else [p.localKey, p.foreignKey]

theorem linkRow_names (hne : p.localKey ≠ p.foreignKey) (id : Value) :
    (b.linkRow p (.bare id)).names = linkColumns p := by
  unfold NameMap.names linkColumns
  rw [linkRow_entries hne]
  split <;> rfl

theorem linkRow_values (hne : p.localKey ≠ p.foreignKey) {id v : Value}
    (hv : v ∈ (b.linkRow p (.bare id)).values) : v = id ∨ v = b.key := by
  unfold NameMap.values at hv
  rw [linkRow_entries hne] at hv
  split at hv <;> simpa [or_comm] using hv

theorem isLink_of_holds (hne : p.localKey ≠ p.foreignKey) {id : Value} {row : Attributes}
    (h : Holds (linkColumns p) (b.linkRow p (.bare id)).values row) : b.IsLink p id row := by
  rw [← linkRow_names (b := b) hne id] at h
  refine ⟨holds_names_values h ?_, holds_names_values h ?_⟩
  · unfold linkRow
    rw [NameMap.get?_insert, if_neg hne, NameMap.get?_insert, if_pos rfl]
  · unfold linkRow
    rw [NameMap.get?_insert, if_pos rfl]
    rfl

theorem batches_of_names {names : List String} {rows : List Attributes}
    (hrows : rows ≠ []) (hnames : ∀ row ∈ rows, row.names = names) :
    batches rows = [(names, rows)] := by
  have hmore : ∀ (more before : List Attributes), (∀ row ∈ more, row.names = names) →
      more.foldl (fun found row => addToBatch row found) [(names, before)] =
        [(names, before ++ more)] := by
    intro more
    induction more with
    | nil => simp
    | cons row rest ih =>
      intro before hmore
      have hrow := hmore row (List.mem_cons_self ..)
      have hstep : addToBatch row [(names, before)] = [(names, before ++ [row])] := by
        rw [addToBatch, hrow, if_neg (List.lt_irrefl names), if_pos rfl]
      rw [List.foldl_cons, hstep, ih _ fun row hrow => hmore row (List.mem_cons_of_mem _ hrow),
        List.append_assoc, List.singleton_append]
  cases rows with
  | nil => exact absurd rfl hrows
  | cons row rest =>
    have hrow := hnames row (List.mem_cons_self ..)
    have hrest := hmore rest [row] fun row hrow => hnames row (List.mem_cons_of_mem _ hrow)
    unfold batches
    rw [List.foldl_cons, addToBatch, hrow, hrest]
    rfl

/-- The rows of links without attributes go into one statement. -/
theorem exists_linkInsertion (hb : b.Linkable p) {ids : List Value} (hne : ids ≠ [])
    (hids : ∀ id ∈ ids, id.key?.isSome = true) :
    ∃ st, (Query.on p.table b.query.dialect).batchInsertion
        (ids.map fun id => b.linkRow p (.bare id)) = .ok st ∧
      TableCommand.read b.query.dialect st = some (.insert p.table (linkColumns p)
        (ids.map fun id => (b.linkRow p (.bare id)).values)) := by
  have hnames : ∀ row ∈ ids.map (fun id => b.linkRow p (.bare id)), row.names = linkColumns p := by
    intro row hrow
    obtain ⟨id, -, rfl⟩ := List.mem_map.mp hrow
    exact linkRow_names hb.columns id
  have hcolumns : linkColumns p ≠ [] := by
    unfold linkColumns
    split <;> exact List.cons_ne_nil _ _
  have hdefault : ∀ row ∈ ids.map (fun id => b.linkRow p (.bare id)), ∀ v ∈ row.values,
      v.isDefault = false := by
    intro row hrow v hv
    obtain ⟨id, hid, rfl⟩ := List.mem_map.mp hrow
    rcases linkRow_values hb.columns hv with rfl | rfl
    · exact not_isDefault_of_key? (hids _ hid)
    · exact hb.notDefault
  obtain ⟨st, hst, hread⟩ := Query.read_batchInsertion (q := .on p.table b.query.dialect) hb.table
    hcolumns (fun hnil => hne (List.map_eq_nil_iff.mp hnil)) hnames hdefault
  rw [List.map_map] at hread
  exact ⟨st, hst, hread⟩

theorem gives_insertLinks
    (h : Tabular s.world b.query.dialect p.table Value.sharesKey view) (hb : b.Linkable p)
    {ids : List Value} (hids : ∀ id ∈ ids, id.key?.isSome = true) (w : σ) :
    Gives view (b.insertLinks s (ids.map .bare)) w fun _ w' =>
      ∃ writes rows added, view w' = (view w).writing writes rows ∧
        List.Forall₂ (b.IsLink p) ids added ∧ rows.Perm ((view w).rows ++ added) ∧
        (ids = [] → writes = []) ∧
        ∀ st ∈ writes, ∃ c, TableCommand.read b.query.dialect st = some c ∧
          ∀ row, c.Touches Value.sharesKey row → ∃ id ∈ ids, b.IsLink p id row := by
  cases ids with
  | nil =>
    refine gives_pure ⟨[], (view w).rows, [], ?_, .nil, ?_, fun _ => rfl, fun st hst => nomatch hst⟩
    · unfold Ledger.writing
      rw [List.map_nil, List.append_nil]
    · rw [List.append_nil]
  | cons id ids =>
    have hne : id :: ids ≠ [] := List.cons_ne_nil id ids
    obtain ⟨st, hst, hread⟩ := exists_linkInsertion hb hne hids
    have hinsert : Gives view (b.insertLinks s ((id :: ids).map .bare)) w fun _ w' =>
        ∃ after, TableCommand.Effect Value.sharesKey (.insert p.table (linkColumns p)
            ((id :: ids).map fun id => (b.linkRow p (.bare id)).values)) (view w).rows after ∧
          view w' = (view w).writing [st] after := by
      refine gives_ofResult_bind hb.requireLinks ?_
      have hbatches : batches (((id :: ids).map LinkEntry.bare).map (b.linkRow p)) =
          [(linkColumns p, (id :: ids).map fun id => b.linkRow p (.bare id))] := by
        rw [List.map_map]
        refine batches_of_names (fun hnil => hne (List.map_eq_nil_iff.mp hnil)) fun row hrow => ?_
        obtain ⟨id, -, rfl⟩ := List.mem_map.mp hrow
        exact linkRow_names hb.columns id
      rw [hbatches]
      refine (gives_ofResult_bind hst (h.gives_write hread rfl w)).bind fun e w' hw' => ?_
      exact gives_pure hw'
    refine hinsert.mono fun n w' hw' => ?_
    obtain ⟨after, ⟨added, hadded, hperm⟩, hview⟩ := hw'
    refine ⟨[st], after, added, hview, ?_, hperm, fun hnil => absurd hnil hne, fun st' hst' => ?_⟩
    · rw [List.forall₂_map_left_iff] at hadded
      exact hadded.imp fun id row hrow => isLink_of_holds hb.columns hrow
    · rw [List.mem_singleton.mp hst']
      refine ⟨_, hread, fun row hrow => ?_⟩
      obtain ⟨values, hvalues, hholds⟩ := hrow
      obtain ⟨id, hid, rfl⟩ := List.mem_map.mp hvalues
      exact ⟨id, hid, isLink_of_holds hb.columns hholds⟩

theorem updateLinks_bare (ids : List Value) :
    b.updateLinks s p (ids.map .bare) = pure [] := by
  induction ids with
  | nil => rfl
  | cons id rest ih => exact ih

end Statements

/-! ## The whole synchronisation -/

/-- The requested ids that have no link yet, by the keys that are linked. -/
def fresh (current ids : List Value) : List Value :=
  (Key.distinct id ids).filter fun id => !isAmong current id

section Differences

variable {b : BoundRelation} {p : Pivot} {ids current : List Value} {before : List Attributes}

theorem requested_distinct {k : Key} : Requested (Key.distinct id ids) k ↔ Requested ids k := by
  constructor
  · rintro ⟨v, hv, hk⟩
    unfold Key.distinct at hv
    rw [distinctFrom_eq_firsts] at hv
    exact ⟨v, (List.filter_sublist.trans (firsts_sublist ids)).subset hv, hk⟩
  · rintro ⟨v, hv, hk⟩
    exact exists_mem_distinct id hv hk

theorem not_isAmong_iff (ids : List Value) {v : Value} {k : Key} (hk : v.key? = some k) :
    (!isAmong ids v) = true ↔ ¬Requested ids k := by
  rw [Bool.not_eq_true', Bool.eq_false_iff, ne_eq, isAmong_iff, not_iff_not]
  constructor
  · rintro ⟨l, hl, hrequested⟩
    rw [hk] at hl
    cases hl
    exact hrequested
  · exact fun hrequested => ⟨k, hk, hrequested⟩

theorem mem_unwanted {v : Value} :
    v ∈ unwanted current (Key.distinct id ids) ↔
      v ∈ current ∧ ∃ k, v.key? = some k ∧ ¬Requested ids k := by
  unfold unwanted
  rw [List.mem_filter]
  refine and_congr_right fun _ => ?_
  cases hv : v.key? with
  | none => simp
  | some k =>
    have hamong := not_isAmong_iff (Key.distinct id ids) hv
    rw [requested_distinct] at hamong
    rw [Option.isSome_some, Bool.true_and, hamong]
    constructor
    · exact fun h => ⟨k, rfl, h⟩
    · rintro ⟨l, hl, h⟩
      cases hl
      exact h

theorem exists_key_of_mem_distinct {v : Value} (h : v ∈ Key.distinct id ids) :
    ∃ k, v.key? = some k ∧ Requested ids k := by
  obtain ⟨keys, hkeys, -, -⟩ := distinctFrom_keys id ids []
  have hmem : v.key? ∈ keys.map some := hkeys ▸ List.mem_map.mpr ⟨v, h, rfl⟩
  obtain ⟨k, -, hk⟩ := List.mem_map.mp hmem
  exact ⟨k, hk.symm, requested_distinct.mp ⟨v, h, hk.symm⟩⟩

theorem mem_fresh {v : Value} (h : v ∈ fresh current ids) :
    ∃ k, v.key? = some k ∧ Requested ids k ∧ ¬Requested current k := by
  obtain ⟨hv, hamong⟩ := List.mem_filter.mp h
  obtain ⟨k, hk, hrequested⟩ := exists_key_of_mem_distinct hv
  exact ⟨k, hk, hrequested, (not_isAmong_iff _ hk).mp hamong⟩

theorem requested_fresh {k : Key} :
    Requested (fresh current ids) k ↔ Requested ids k ∧ ¬Requested current k := by
  constructor
  · rintro ⟨v, hv, hk⟩
    obtain ⟨l, hl, h⟩ := mem_fresh hv
    rw [hk] at hl
    cases hl
    exact h
  · rintro ⟨hrequested, hnew⟩
    obtain ⟨v, hv, hk⟩ := requested_distinct.mpr hrequested
    exact ⟨v, List.mem_filter.mpr ⟨hv, (not_isAmong_iff _ hk).mpr hnew⟩, hk⟩

theorem of_isLinkTo_unwanted {row : Attributes}
    (h : b.isLinkTo p (unwanted current (Key.distinct id ids)) row = true) :
    b.owns p row = true ∧ ∃ k, (cell row p.foreignKey).key? = some k ∧ ¬Requested ids k := by
  unfold isLinkTo at h
  rw [Bool.and_eq_true, List.any_eq_true] at h
  obtain ⟨howns, v, hv, hshares⟩ := h
  obtain ⟨-, k, hk, hnot⟩ := mem_unwanted.mp hv
  obtain ⟨l, hl, hcell⟩ := Value.sharesKey_iff.mp hshares
  rw [hk] at hl
  cases hl
  exact ⟨howns, k, hcell, hnot⟩

variable (hcurrent : current.Perm ((before.filter (b.owns p)).map fun row => cell row p.foreignKey))

include hcurrent

theorem mem_current {v : Value} :
    v ∈ current ↔ ∃ row ∈ before, b.owns p row = true ∧ cell row p.foreignKey = v := by
  rw [hcurrent.mem_iff, List.mem_map]
  simp only [List.mem_filter, and_assoc]

theorem requested_current {k : Key} : Requested current k ↔ b.LinkedTo p before k := by
  constructor
  · rintro ⟨v, hv, hk⟩
    obtain ⟨row, hrow, howns, rfl⟩ := (mem_current hcurrent).mp hv
    exact ⟨row, hrow, howns, hk⟩
  · rintro ⟨row, hrow, howns, hk⟩
    exact ⟨_, (mem_current hcurrent).mpr ⟨row, hrow, howns, rfl⟩, hk⟩

/-- The rows that are removed are the links of the parent that are not requested. -/
theorem isLinkTo_unwanted {row : Attributes} (hrow : row ∈ before) :
    b.isLinkTo p (unwanted current (Key.distinct id ids)) row = true ↔
      b.owns p row = true ∧ ∃ k, (cell row p.foreignKey).key? = some k ∧ ¬Requested ids k := by
  refine ⟨of_isLinkTo_unwanted, ?_⟩
  rintro ⟨howns, k, hk, hnot⟩
  have hmem := (mem_current hcurrent).mpr ⟨row, hrow, howns, rfl⟩
  have hunwanted := mem_unwanted.mpr ⟨hmem, k, hk, hnot⟩
  unfold isLinkTo
  rw [Bool.and_eq_true, List.any_eq_true]
  exact ⟨howns, _, hunwanted, Value.sharesKey_iff.mpr ⟨k, hk, hk⟩⟩

end Differences

section Result

variable {b : BoundRelation} {p : Pivot} {ids current : List Value}
  {before after : List Attributes}

theorem owns_of_isLink (hkey : b.key.key?.isSome = true) {id : Value} {row : Attributes}
    (h : b.IsLink p id row) : b.owns p row = true ∧ cell row p.foreignKey = id := by
  obtain ⟨k, hk⟩ := Option.isSome_iff_exists.mp hkey
  unfold owns cell
  rw [h.1, h.2]
  exact ⟨Value.sharesKey_iff.mpr ⟨k, hk, hk⟩, rfl⟩

/-- Two keys of one value are one key. -/
theorem key_unique {v : Value} {k l : Key} (hk : v.key? = some k) (hl : v.key? = some l) : k = l :=
  Option.some.inj (hk.symm.trans hl)

/-- The links of the parent to the ids that are `removed` are gone, and there is one more link to
each of those that are `added`. -/
def Swapped (b : BoundRelation) (p : Pivot) (removed added : List Value)
    (before after : List Attributes) : Prop :=
  ∃ rows links, rows.Perm (before.filter fun row => !b.isLinkTo p removed row) ∧
    List.Forall₂ (b.IsLink p) added links ∧ after.Perm (rows ++ links)

theorem isLinkTo_iff {removed : List Value} {row : Attributes} :
    b.isLinkTo p removed row = true ↔
      b.owns p row = true ∧ ∃ k, (cell row p.foreignKey).key? = some k ∧ Requested removed k := by
  unfold isLinkTo
  rw [Bool.and_eq_true, List.any_eq_true]
  constructor
  · rintro ⟨howns, id, hid, hshares⟩
    obtain ⟨k, hk, hcell⟩ := Value.sharesKey_iff.mp hshares
    exact ⟨howns, k, hcell, id, hid, hk⟩
  · rintro ⟨howns, k, hcell, id, hid, hk⟩
    exact ⟨howns, id, hid, Value.sharesKey_iff.mpr ⟨k, hk, hcell⟩⟩

namespace Swapped

variable {removed added : List Value} (h : b.Swapped p removed added before after)

include h

theorem linked (hkey : b.key.key?.isSome = true) (k : Key) :
    b.LinkedTo p after k ↔
      b.LinkedTo p before k ∧ ¬Requested removed k ∨ Requested added k := by
  obtain ⟨rows, links, hrows, hlinks, hafter⟩ := h
  constructor
  · rintro ⟨row, hrow, howns, hk⟩
    rcases List.mem_append.mp (hafter.mem_iff.mp hrow) with hrow | hrow
    · obtain ⟨hbefore, hkept⟩ := List.mem_filter.mp (hrows.mem_iff.mp hrow)
      refine .inl ⟨⟨row, hbefore, howns, hk⟩, ?_⟩
      intro hremoved
      rw [isLinkTo_iff.mpr ⟨howns, k, hk, hremoved⟩] at hkept
      cases hkept
    · obtain ⟨id, hid, hlink⟩ := exists_left_of_mem hlinks hrow
      exact .inr ⟨id, hid, (owns_of_isLink hkey hlink).2 ▸ hk⟩
  · rintro (⟨⟨row, hrow, howns, hk⟩, hnot⟩ | ⟨id, hid, hk⟩)
    · have hkept : (!b.isLinkTo p removed row) = true := by
        rw [Bool.not_eq_true', Bool.eq_false_iff, ne_eq, isLinkTo_iff]
        rintro ⟨-, l, hl, hremoved⟩
        exact hnot (key_unique hl hk ▸ hremoved)
      have hmem := hrows.mem_iff.mpr (List.mem_filter.mpr ⟨hrow, hkept⟩)
      exact ⟨row, hafter.mem_iff.mpr (List.mem_append_left _ hmem), howns, hk⟩
    · obtain ⟨row, hrow, hlink⟩ := exists_left_of_mem hlinks.flip hid
      obtain ⟨howns, hcell⟩ := owns_of_isLink hkey hlink
      exact ⟨row, hafter.mem_iff.mpr (List.mem_append_right _ hrow), howns, hcell ▸ hk⟩

/-- Rows of a kind that is neither removed nor added are what they were. -/
theorem filter_perm {P : Attributes → Bool}
    (hremoved : ∀ row ∈ before, P row = true → b.isLinkTo p removed row = false)
    (hadded : ∀ row id, id ∈ added → b.IsLink p id row → P row = false) :
    (after.filter P).Perm (before.filter P) := by
  obtain ⟨rows, links, hrows, hlinks, hafter⟩ := h
  have hnone : links.filter P = [] := List.filter_eq_nil_iff.mpr fun row hrow => by
    obtain ⟨id, hid, hlink⟩ := exists_left_of_mem hlinks hrow
    rw [hadded row id hid hlink]
    exact Bool.false_ne_true
  have hkept : (before.filter fun row => !b.isLinkTo p removed row).filter P =
      before.filter P := by
    rw [List.filter_filter]
    refine List.filter_congr fun row hrow => ?_
    cases hP : P row with
    | false => rfl
    | true => rw [hremoved row hrow hP]; rfl
  have hfirst := hafter.filter P
  rw [List.filter_append, hnone, List.append_nil] at hfirst
  exact hfirst.trans (hkept ▸ hrows.filter P)

end Swapped

/-- The rows before and after the links that are not wanted are removed and the missing ones are
added. -/
structure Relinked (b : BoundRelation) (p : Pivot) (ids current : List Value)
    (before after : List Attributes) : Prop where
  key : b.key.key?.isSome = true
  found : current.Perm ((before.filter (b.owns p)).map fun row => cell row p.foreignKey)
  rows : b.Swapped p (unwanted current (Key.distinct id ids)) (fresh current ids) before after

namespace Relinked

variable (h : Relinked b p ids current before after)

include h

theorem linkedTo_fresh {row : Attributes} {id : Value} (hid : id ∈ fresh current ids)
    (hlink : b.IsLink p id row) :
    b.owns p row = true ∧ ∃ k, (cell row p.foreignKey).key? = some k ∧
      Requested ids k ∧ ¬b.LinkedTo p before k := by
  obtain ⟨howns, hcell⟩ := owns_of_isLink h.key hlink
  obtain ⟨k, hk, hrequested, hnot⟩ := mem_fresh hid
  rw [requested_current h.found] at hnot
  exact ⟨howns, k, hcell ▸ hk, hrequested, hnot⟩

/-- A link that is requested is not removed. -/
theorem not_removed {row : Attributes} (hrow : row ∈ before) {k : Key}
    (hk : (cell row p.foreignKey).key? = some k) (hrequested : Requested ids k) :
    b.isLinkTo p (unwanted current (Key.distinct id ids)) row = false := by
  rw [Bool.eq_false_iff, ne_eq, isLinkTo_unwanted h.found hrow]
  rintro ⟨-, l, hl, hnot⟩
  exact hnot (key_unique hk hl ▸ hrequested)

theorem linked (k : Key) : b.LinkedTo p after k ↔ Requested ids k := by
  rw [h.rows.linked h.key, requested_fresh, requested_current h.found]
  have hremoved : Requested (unwanted current (Key.distinct id ids)) k ↔
      b.LinkedTo p before k ∧ ¬Requested ids k := by
    rw [← requested_current h.found]
    constructor
    · rintro ⟨v, hv, hk⟩
      obtain ⟨hmem, l, hl, hnot⟩ := mem_unwanted.mp hv
      exact ⟨⟨v, hmem, hk⟩, key_unique hl hk ▸ hnot⟩
    · rintro ⟨⟨v, hmem, hk⟩, hnot⟩
      exact ⟨v, mem_unwanted.mpr ⟨hmem, k, hk, hnot⟩, hk⟩
  rw [hremoved]
  by_cases hlinked : b.LinkedTo p before k <;> simp [hlinked]

theorem others :
    (after.filter fun row => !b.owns p row).Perm (before.filter fun row => !b.owns p row) := by
  refine h.rows.filter_perm (fun row _ hother => ?_) fun row id hid hlink => ?_
  · rw [Bool.not_eq_true'] at hother
    unfold isLinkTo
    rw [hother, Bool.false_and]
  · rw [(h.linkedTo_fresh hid hlink).1, Bool.not_true]

open Classical in
theorem stays :
    (after.filter (b.Stays p ids before)).Perm (before.filter (b.Stays p ids before)) := by
  refine h.rows.filter_perm (fun row hrow hstays => ?_) fun row id hid hlink => ?_
  · obtain ⟨-, k, hk, -, hrequested⟩ := of_decide_eq_true hstays
    exact h.not_removed hrow hk hrequested
  · obtain ⟨-, k, hk, -, hnot⟩ := h.linkedTo_fresh hid hlink
    refine decide_eq_false ?_
    rintro ⟨-, l, hl, hlinked, -⟩
    exact hnot (key_unique hl hk ▸ hlinked)

/-- The keys of the ids that are attached, each once. -/
theorem attached :
    ∃ keys : List Key, (fresh current ids).map Value.key? = keys.map some ∧ keys.Nodup ∧
      ∀ k, k ∈ keys ↔ Requested ids k ∧ ¬b.LinkedTo p before k := by
  obtain ⟨keys, hkeys, hnodup, -⟩ := distinctFrom_keys id ids []
  have hsub : ((fresh current ids).map Value.key?).Sublist (keys.map some) := by
    rw [← hkeys]
    exact List.filter_sublist.map Value.key?
  obtain ⟨freshKeys, hfresh, heq⟩ := List.sublist_map_iff.mp hsub
  refine ⟨freshKeys, heq, hnodup.sublist hfresh, fun k => ?_⟩
  rw [← requested_current h.found, ← requested_fresh]
  have hmap : some k ∈ freshKeys.map some ↔ k ∈ freshKeys := by simp
  rw [← hmap, ← heq]
  exact List.mem_map

theorem detached (v : Value) :
    v ∈ unwanted current (Key.distinct id ids) ↔
      ∃ row ∈ before, b.owns p row = true ∧ cell row p.foreignKey = v ∧
        ∃ k, v.key? = some k ∧ ¬Requested ids k := by
  rw [mem_unwanted, mem_current h.found]
  constructor
  · rintro ⟨⟨row, hrow, howns, hcell⟩, hkey⟩
    exact ⟨row, hrow, howns, hcell, hkey⟩
  · rintro ⟨row, hrow, howns, hcell, hkey⟩
    exact ⟨⟨row, hrow, howns, hcell⟩, hkey⟩

theorem synced :
    b.Synced p ids before after
      ⟨fresh current ids, unwanted current (Key.distinct id ids), []⟩ where
  linked := h.linked
  others := h.others
  stays := h.stays
  attached := h.attached
  inOrder := by
    have hdistinct : (Key.distinct id ids).Sublist (firsts ids) := by
      unfold Key.distinct
      rw [distinctFrom_eq_firsts]
      exact List.filter_sublist
    exact List.filter_sublist.trans hdistinct
  detached := h.detached
  updated := rfl

end Relinked

end Result

section Run

open RecordMapper.Action Session

variable {view : σ → Ledger} {s : Session σ} {b : BoundRelation} {p : Pivot}

theorem Linkable.key (h : b.Linkable p) : b.key.key?.isSome = true := by
  obtain ⟨k, hk⟩ := exists_key? h.notNull fun hdefault => by
    have hnot := h.notDefault
    rw [hdefault] at hnot
    cases hnot
  rw [hk]
  rfl

theorem not_removed_of_spared {ids current : List Value} {before : List Attributes}
    {row : Attributes} (h : b.owns p row = false ∨ b.Stays p ids before row) :
    ¬b.isLinkTo p (unwanted current (Key.distinct id ids)) row = true := by
  intro hremoved
  obtain ⟨howns, k, hk, hnot⟩ := of_isLinkTo_unwanted hremoved
  rcases h with hother | ⟨-, l, hl, -, hrequested⟩
  · rw [hother] at howns
    cases howns
  · exact hnot (key_unique hl hk ▸ hrequested)

theorem not_added_of_spared {ids current : List Value} {before after : List Attributes}
    {row : Attributes} (h : b.owns p row = false ∨ b.Stays p ids before row)
    (hlinks : Relinked b p ids current before after) {id : Value} (hid : id ∈ fresh current ids) :
    ¬b.IsLink p id row := by
  intro hlink
  obtain ⟨howns, k, hk, -, hnot⟩ := hlinks.linkedTo_fresh hid hlink
  rcases h with hother | ⟨-, l, hl, hlinked, -⟩
  · rw [hother] at howns
    cases howns
  · exact hnot (key_unique hl hk ▸ hlinked)

/-- Whether a statement leaves the links that stay alone, and those of other parents. -/
def Spares (b : BoundRelation) (p : Pivot) (ids : List Value) (before : List Attributes)
    (st : Statement) : Prop :=
  ∃ c, TableCommand.read b.query.dialect st = some c ∧
    ∀ row, b.owns p row = false ∨ b.Stays p ids before row → ¬c.Touches Value.sharesKey row

theorem fresh_keys {current ids : List Value} : ∀ v ∈ fresh current ids, v.key?.isSome = true := by
  intro v hv
  obtain ⟨k, hk, -⟩ := mem_fresh hv
  rw [hk]
  rfl

/-- Links are removed and added by statements that touch no other rows. -/
theorem gives_swap
    (h : Tabular s.world b.query.dialect p.table Value.sharesKey view) (hb : b.Linkable p)
    {removed added : List Value} (hremovable : ∀ id ∈ removed, id.key?.isSome = true)
    (haddable : ∀ id ∈ added, id.key?.isSome = true) (w : σ) {α : Type} {f : Nat → Action σ α}
    {Q : α → σ → Prop}
    (hf : ∀ n w' writes after, b.Swapped p removed added (view w).rows after →
      view w' = (view w).writing writes after → (removed = [] → added = [] → writes = []) →
      (∀ st ∈ writes, ∃ c, TableCommand.read b.query.dialect st = some c ∧
        ∀ row, c.Touches Value.sharesKey row →
          b.isLinkTo p removed row = true ∨ ∃ id ∈ added, b.IsLink p id row) →
      Gives view (f n) w' Q) :
    Gives view (b.detachAny s removed >>= fun _ => b.insertLinks s (added.map .bare) >>= f) w
      Q := by
  refine (gives_detachAny h hb hremovable w).bind fun _ w₁ hw₁ => ?_
  obtain ⟨deletes, rows, hview₁, hrows, hnone, hdeletes⟩ := hw₁
  refine (gives_insertLinks h hb haddable w₁).bind fun n w₂ hw₂ => ?_
  obtain ⟨inserts, after, links, hview₂, hlinks, hafter, hnone', hinserts⟩ := hw₂
  rw [hview₁] at hview₂ hafter
  have hview : view w₂ = (view w).writing (deletes ++ inserts) after := by
    rw [hview₂]
    simp only [Ledger.writing, List.map_append, List.append_assoc]
  apply hf n w₂ (deletes ++ inserts) after ⟨rows, links, hrows, hlinks, hafter⟩ hview
  · intro hremoved hadded
    rw [hnone hremoved, hnone' hadded, List.nil_append]
  · intro st hst
    rcases List.mem_append.mp hst with hst | hst
    · obtain ⟨m, hread, hmeets⟩ := hdeletes st hst
      exact ⟨_, hread, fun row htouch => .inl (hmeets row ▸ htouch)⟩
    · obtain ⟨c, hread, htouches⟩ := hinserts st hst
      exact ⟨c, hread, fun row htouch => .inr (htouches row htouch)⟩

theorem gives_applySync
    (h : Tabular s.world b.query.dialect p.table Value.sharesKey view) (hb : b.Linkable p)
    (ids : List Value) (w : σ) :
    Gives view (b.applySync (Key.distinct LinkEntry.id (ids.map .bare)) s) w fun changes w' =>
      b.Synced p ids (view w).rows (view w').rows changes ∧
      ∃ lookup writes,
        view w' = ((view w).sending (.query lookup)).writing writes (view w').rows ∧
        (changes.attached = [] → changes.detached = [] → writes = []) ∧
        ∀ st ∈ writes, b.Spares p ids (view w).rows st := by
  have hwanted : Key.distinct LinkEntry.id (ids.map LinkEntry.bare) =
      (Key.distinct id ids).map .bare := distinctFrom_map LinkEntry.id LinkEntry.bare ids []
  rw [hwanted]
  refine (gives_linkedIds h hb w).bind fun current w₁ hcurrent => ?_
  obtain ⟨hperm, lookup, -, hw₁⟩ := hcurrent
  -- The entries have no attributes, so that they are their ids and nothing is updated.
  have hbare : ∀ vs : List Value, (vs.map LinkEntry.bare).map LinkEntry.id = vs := by
    intro vs
    rw [List.map_map]
    exact List.map_id vs
  have hfresh : ((Key.distinct id ids).map LinkEntry.bare).filter
      (fun e => !isAmong current e.id) = (fresh current ids).map .bare := List.filter_map
  have hexisting : ((Key.distinct id ids).map LinkEntry.bare).filter
      (fun e => isAmong current e.id) =
        ((Key.distinct id ids).filter (isAmong current)).map .bare := List.filter_map
  simp only [hbare, hfresh, hexisting, updateLinks_bare]
  have hremovable : ∀ v ∈ unwanted current (Key.distinct id ids), v.key?.isSome = true := by
    intro v hv
    obtain ⟨-, k, hk, -⟩ := mem_unwanted.mp hv
    rw [hk]
    rfl
  refine gives_swap h hb hremovable fresh_keys w₁ fun _ w₂ writes after hswap hview hnone hwrites =>
    gives_ofResult_bind hb.requireLinks (gives_pure ?_)
  rw [hw₁] at hswap hview
  have hlinks : Relinked b p ids current (view w).rows after := ⟨hb.key, hperm, hswap⟩
  rw [hview]
  refine ⟨hlinks.synced, lookup, writes, rfl, fun hattached hdetached => hnone hdetached hattached,
    fun st hst => ?_⟩
  obtain ⟨c, hread, htouches⟩ := hwrites st hst
  refine ⟨c, hread, fun row hrow htouch => ?_⟩
  rcases htouches row htouch with hremoved | ⟨id, hid, hlink⟩
  · exact not_removed_of_spared hrow hremoved
  · exact not_added_of_spared hrow hlinks hid hlink

/-- What is sent for a synchronisation: the statement that opens the transaction, the look-up, the
changes, and the statement that closes it. -/
def exchange (s : Session σ) (lookup : Statement) (writes : List Statement) : List Request :=
  .execute ⟨openingSql s.depth, []⟩ :: .query lookup ::
    (writes.map .execute ++ [.execute ⟨keepingSql s.depth, []⟩])

theorem gives_sync
    (h : Tabular s.world b.query.dialect p.table Value.sharesKey view) (hb : b.Linkable p)
    (ids : List Value) (w : σ) :
    Gives view (b.sync s (ids.map .bare)) w fun changes w' =>
      b.Synced p ids (view w).rows (view w').rows changes ∧
      ∃ lookup writes, (view w').sent = (view w).sent ++ exchange s lookup writes ∧
        (changes.attached = [] → changes.detached = [] → writes = []) ∧
        ∀ st ∈ writes, b.Spares p ids (view w).rows st := by
  refine gives_ofResult_bind hb.requireLinks ?_
  have hsend := h.gives_transaction (b.applySync (Key.distinct LinkEntry.id (ids.map .bare))) w
    fun w₁ hw₁ => hw₁ ▸ gives_applySync (s := s.inner) h hb ids w₁
  refine hsend.mono fun changes w' hw' => ?_
  obtain ⟨w₂, ⟨hsynced, lookup, writes, hview₂, hnone, hspares⟩, hview'⟩ := hw'
  rw [hview']
  refine ⟨hsynced, lookup, writes, ?_, hnone, hspares⟩
  rw [hview₂]
  simp only [Ledger.sending, Ledger.writing, exchange, List.append_assoc, List.cons_append,
    List.nil_append]

/-- A synchronisation that is repeated finds nothing to do. -/
theorem Synced.repeated {ids : List Value} {before rows after : List Attributes}
    {changes changes' : LinkChanges} (h : b.Synced p ids before rows changes)
    (h' : b.Synced p ids rows after changes') : changes' = ⟨[], [], []⟩ := by
  have hattached : changes'.attached = [] := by
    obtain ⟨keys, hkeys, -, hmem⟩ := h'.attached
    have hnone : keys = [] := List.eq_nil_iff_forall_not_mem.mpr fun k hk => by
      obtain ⟨hrequested, hnot⟩ := (hmem k).mp hk
      exact hnot ((h.linked k).mpr hrequested)
    rw [hnone] at hkeys
    exact List.map_eq_nil_iff.mp hkeys
  have hdetached : changes'.detached = [] := List.eq_nil_iff_forall_not_mem.mpr fun v hv => by
    obtain ⟨row, hrow, howns, rfl, k, hk, hnot⟩ := (h'.detached v).mp hv
    exact hnot ((h.linked k).mp ⟨row, hrow, howns, hk⟩)
  obtain ⟨attached, detached, updated⟩ := changes'
  cases hattached
  cases hdetached
  cases h'.updated
  rfl

/-- Synchronising makes the linked keys exactly the requested ones and touches only what differs;
doing it again sends no change. -/
theorem sync_exact
    (h : Tabular s.world b.query.dialect p.table Value.sharesKey view) (hb : b.Linkable p)
    (ids : List Value) (w : σ)
    (hcalm : (view ((b.sync s (ids.map .bare)).run w).2).failed = false) :
    ∃ changes w', (b.sync s (ids.map .bare)).run w = (.ok changes, w') ∧
      b.Synced p ids (view w).rows (view w').rows changes ∧
      (∃ lookup writes, (view w').sent = (view w).sent ++ exchange s lookup writes ∧
        ∀ st ∈ writes, b.Spares p ids (view w).rows st) ∧
      ((view ((b.sync s (ids.map .bare)).run w').2).failed = false →
        ∃ w'' lookup, (b.sync s (ids.map .bare)).run w' = (.ok ⟨[], [], []⟩, w'') ∧
          (view w'').sent = (view w').sent ++ exchange s lookup []) := by
  obtain ⟨changes, w', hrun, hsynced, lookup, writes, hsent, -, hspares⟩ :=
    (gives_sync h hb ids w).of_calm hcalm
  refine ⟨changes, w', hrun, hsynced, ⟨lookup, writes, hsent, hspares⟩, fun hcalm' => ?_⟩
  obtain ⟨changes', w'', hrun', hsynced', lookup', writes', hsent', hnone', -⟩ :=
    (gives_sync h hb ids w').of_calm hcalm'
  have hnothing := hsynced.repeated hsynced'
  subst hnothing
  rw [hnone' rfl rfl] at hsent'
  exact ⟨w'', lookup', hrun', hsent'⟩

end Run

/-! ## Links of every kind -/

def roleLink (user role : Value) : Attributes :=
  (NameMap.empty.insert "user_id" user).insert "role_id" role

/-- A link twice, one of another parent, and one that leads nowhere. -/
def staleRoles : Ledger :=
  ⟨[roleLink (.int64 1) (.int64 10), roleLink (.int64 1) (.int64 10),
    roleLink (.int64 1) (.int64 11), roleLink (.int64 2) (.int64 10),
    roleLink (.int64 1) .null], [], false⟩

def rolePivot : Pivot := ⟨"role_user", "user_id", "role_id", "id", "id"⟩

def userRoles : BoundRelation where
  relation := { Relation.plain "roles" .manyToMany (some "roles") with pivot := some rolePivot }
  parent := .plain "users"
  related := some (.plain "roles")
  key := .int32 1
  type := none
  query := .on "roles" .sqlite

def rolesSession : Session Ledger :=
  ⟨Ledger.world .sqlite "role_user" Value.sharesKey none, .sqlite, ⟨[]⟩, .empty, .none, .standard,
    0⟩

/-- Of two ids with one key the first is attached; NULL is no id. -/
def wantedRoles : List Value := [.int32 11, .null, .int16 12, .int64 12]

theorem sync_exact_staleRoles :
    Tabular rolesSession.world userRoles.query.dialect rolePivot.table Value.sharesKey id ∧
    userRoles.Linkable rolePivot ∧
    ((userRoles.sync rolesSession (wantedRoles.map .bare)).run staleRoles).2.failed = false ∧
    ∃ changes after, (userRoles.sync rolesSession (wantedRoles.map .bare)).run staleRoles =
        (.ok changes, after) ∧
      userRoles.Synced rolePivot wantedRoles staleRoles.rows after.rows changes ∧
      ∃ again, (userRoles.sync rolesSession (wantedRoles.map .bare)).run after =
        (.ok ⟨[], [], []⟩, again) := by
  have hworld : Tabular rolesSession.world userRoles.query.dialect rolePivot.table
      Value.sharesKey id := Ledger.world_tabular .sqlite "role_user" Value.sharesKey none
  have hlinkable : userRoles.Linkable rolePivot :=
    ⟨rfl, by decide, by decide, rfl, rfl⟩
  obtain ⟨hcalm, hcalm'⟩ : ((userRoles.sync rolesSession (wantedRoles.map .bare)).run
      staleRoles).2.failed = false ∧
      ((userRoles.sync rolesSession (wantedRoles.map .bare)).run
        ((userRoles.sync rolesSession (wantedRoles.map .bare)).run staleRoles).2).2.failed =
        false := by
    decide +kernel
  have h := sync_exact hworld hlinkable wantedRoles staleRoles
  simp only [id_eq] at h
  obtain ⟨changes, after, hrun, hsynced, -, hagain⟩ := h hcalm
  rw [hrun] at hcalm'
  obtain ⟨again, -, hrun', -⟩ := hagain hcalm'
  exact ⟨hworld, hlinkable, hcalm, changes, after, hrun, hsynced, again, hrun'⟩

end BoundRelation

end RecordMapper
