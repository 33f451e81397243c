import RecordMapper.Proofs.Query.Compiling
import RecordMapper.Proofs.Record.Dirty
import RecordMapper.Proofs.Session.Keys

/-!
Records and their rows.

* `Run` is a record on its way through edits and saves, `InStep` says that it agrees with its row.
* `Tracks` is what holds at every point of a run. It is kept by an edit (`Tracks.edited`), by an
  insertion (`tracks_inserted`) and by an update (`tracks_updated`).
-/
namespace RecordMapper

set_option autoImplicit false

namespace Record

variable {σ : Type}

/-! ## Runs -/

/-- What is asked of a record at each point of a run: no statement has failed, no attribute is NaN
or the keyword, and an existing record has not lost its key. -/
structure Sound (view : σ → Ledger) (r : Record) (w : σ) : Prop where
  calm : (view w).failed = false
  clean : ∀ name v, r.get? name = some v → v.hasNan = false ∧ v.isDefault = false
  key : r.persisted = true → (present? (r.snapshot.get? r.schema.primaryKey)).isSome = true →
    r.key?.isSome = true

/-- What is asked of a save: an insertion ends with a key, and an existing record of which no key
is known is given that of an existing row. -/
structure SoundSave (eq : Value → Value → Bool) (view : σ → Ledger) (r : Record) (w : σ)
    (r' : Record) : Prop where
  inserted : r.persisted = false → r'.persisted = true → r'.key?.isSome = true
  addressed : r.persisted = true → present? (r.snapshot.get? r.schema.primaryKey) = none →
    ∀ k, r'.key? = some k →
      ∃ row ∈ (view w).rows, eq k (cell row r.schema.primaryKey) = true

/-- The records and worlds that are reached from a first one. -/
inductive Run (s : Session σ) (eq : Value → Value → Bool) (view : σ → Ledger) (first : Record)
    (begun : σ) : Record → σ → Prop
  | start (h : Sound view first begun) : Run s eq view first begun first begun
  | set {r : Record} {w : σ} (name : String) (v : Value) (hrun : Run s eq view first begun r w)
    (h : Sound view (r.set name v) w) : Run s eq view first begun (r.set name v) w
  | fill {r : Record} {w : σ} (data : List (String × Value))
    (hrun : Run s eq view first begun r w) (h : Sound view (r.fill data) w) :
    Run s eq view first begun (r.fill data) w
  | forceFill {r : Record} {w : σ} (data : List (String × Value))
    (hrun : Run s eq view first begun r w) (h : Sound view (r.forceFill data) w) :
    Run s eq view first begun (r.forceFill data) w
  | save {r r' : Record} {w w' : σ} {o : Outcome Bool} (hrun : Run s eq view first begun r w)
    (hsave : ((save s).runOn r).run w = ((o, r'), w')) (h : Sound view r' w')
    (hsound : SoundSave eq view r w r') : Run s eq view first begun r' w'

/-- A new record, or that of a row that was read; if the latter has a key, the table has a row with
it. -/
def Begins (schema : Schema) (eq : Value → Value → Bool) (rows : List Attributes) (r : Record) :
    Prop :=
  r = .new schema ∨ ∃ fetched, r = .hydrate schema fetched ∧
    ∀ k, r.key? = some k → ∃ row ∈ rows, eq k (cell row schema.primaryKey) = true

/-- A record agrees with the one row of its key on some columns, and has nothing to save. -/
structure InStep (eq : Value → Value → Bool) (columns : List String) (rows : List Attributes)
    (r : Record) : Prop where
  persisted : r.persisted = true
  clean : r.isDirty = false
  row : ∃ key row, r.key? = some key ∧
    rows.filter (fun row => eq key (cell row r.schema.primaryKey)) = [row] ∧
    ∀ column ∈ columns, ∃ stored current old,
      row.get? column = some stored ∧ r.get? column = some current ∧
      r.snapshot.get? column = some old ∧
      stored.same current = true ∧ stored.same old = true

/-! ## The invariant -/

/-- There is a row under the key of the snapshot, with what was written to some columns. -/
def Backed (eq : Value → Value → Bool) (columns : List String) (rows : List Attributes)
    (r : Record) : Prop :=
  ∃ k row, present? (r.snapshot.get? r.schema.primaryKey) = some k ∧ row ∈ rows ∧
    eq k (cell row r.schema.primaryKey) = true ∧
    ∀ column ∈ columns, ∃ old stored, r.snapshot.get? column = some old ∧
      (r.get? column).isSome = true ∧ row.get? column = some stored ∧ old.same stored = true

/-- What holds of a record and its table at any point of a run: there is a row behind the record, or
nothing was written so far and the record is new or was read without a key. -/
structure Tracks (d : Dialect) (schema : Schema) (eq : Value → Value → Bool)
    (before : List Request) (l : Ledger) (r : Record) : Prop where
  schema_eq : r.schema = schema
  clean : ∀ name v, r.snapshot.get? name = some v → v.hasNan = false ∧ v.isDefault = false
  keyed : IsKeyed eq schema.primaryKey l.rows
  backed : ∃ during, l.sent = before ++ during ∧
    (∀ q ∈ during, q.WritesTo d schema.table) ∧
    ((r.persisted = true ∧ Backed eq (written d during) l.rows r) ∨
      (written d during = [] ∧
        (r.persisted = true → present? (r.snapshot.get? r.schema.primaryKey) = none)))

section Steps

variable {d : Dialect} {schema : Schema} {eq : Value → Value → Bool} {before : List Request}
  {l : Ledger} {r r' : Record}

/-- An edit changes neither the row nor the snapshot. -/
theorem Tracks.edited (h : Tracks d schema eq before l r) (he : r.Edited r') :
    Tracks d schema eq before l r' := by
  obtain ⟨hschema, hclean, hkeyed, during, hsent, hwrites, hbacked⟩ := h
  refine ⟨he.schema.trans hschema, ?_, hkeyed, during, hsent, hwrites, ?_⟩
  · rw [he.snapshot]
    exact hclean
  · rw [he.persisted, he.snapshot, he.schema]
    refine hbacked.imp_left fun ⟨hpersisted, k, row, hk, hrow, hfound, hcolumns⟩ => ?_
    unfold Backed
    rw [he.snapshot, he.schema]
    refine ⟨hpersisted, k, row, hk, hrow, hfound, fun column hcolumn => ?_⟩
    obtain ⟨old, stored, hold, hsome, hstored, hsame⟩ := hcolumns column hcolumn
    exact ⟨old, stored, hold, he.keeps column hsome, hstored, hsame⟩

theorem tracks_new (hkeyed : IsKeyed eq schema.primaryKey l.rows) :
    Tracks d schema eq l.sent l (.new schema) where
  schema_eq := rfl
  clean _ _ hv := nomatch hv
  keyed := hkeyed
  backed := ⟨[], (List.append_nil _).symm, nofun, .inr ⟨rfl, nofun⟩⟩

theorem present?_eq_some {o : Option Value} {v : Value} :
    present? o = some v ↔ o = some v ∧ v.isNull = false := by
  unfold present?
  rw [Option.filter_eq_some_iff, Bool.not_eq_true']

theorem tracks_hydrate (hkeyed : IsKeyed eq schema.primaryKey l.rows) {fetched : Row}
    (hclean : ∀ name v, (hydrate schema fetched).get? name = some v →
      v.hasNan = false ∧ v.isDefault = false)
    (hrow : ∀ k, (hydrate schema fetched).key? = some k →
      ∃ row ∈ l.rows, eq k (cell row schema.primaryKey) = true) :
    Tracks d schema eq l.sent l (.hydrate schema fetched) := by
  refine ⟨rfl, hclean, hkeyed, [], (List.append_nil _).symm, nofun, ?_⟩
  cases hkey : (hydrate schema fetched).key? with
  | none => exact .inr ⟨rfl, fun _ => hkey⟩
  | some k =>
    obtain ⟨row, hmem, hfound⟩ := hrow k hkey
    exact .inl ⟨rfl, k, row, hkey, hmem, hfound, nofun⟩

theorem Begins.tracks (hkeyed : IsKeyed eq schema.primaryKey l.rows)
    (h : Begins schema eq l.rows r)
    (hclean : ∀ name v, r.get? name = some v → v.hasNan = false ∧ v.isDefault = false) :
    Tracks d schema eq l.sent l r := by
  rcases h with rfl | ⟨fetched, rfl, hrow⟩
  · exact tracks_new hkeyed
  · exact tracks_hydrate hkeyed hclean hrow

end Steps

section Writes

variable {s : Session σ} {view : σ → Ledger} {schema : Schema} {eq : Value → Value → Bool}
  {before : List Request} {r r₁ : Record} {w w₁ w' : σ} {st : Statement} {e : Execution}

/-- A statement for the table, after which there is a row behind the record. -/
theorem tracks_written (hw : Keyed s.world s.dialect schema.table schema.primaryKey eq view)
    {during : List Request} (hkeyed : IsKeyed eq schema.primaryKey (view w).rows)
    (hsent : (view w).sent = before ++ during)
    (hwrites : ∀ q ∈ during, q.WritesTo s.dialect schema.table)
    {c : TableCommand} (hread : TableCommand.read s.dialect st = some c)
    (htable : c.table = schema.table) (hrun : s.world.execute st w = (.ok e, w'))
    (hschema : r.schema = schema) (hpersisted : r.persisted = true)
    (hclean : ∀ name v, r.snapshot.get? name = some v → v.hasNan = false ∧ v.isDefault = false)
    (hbacked : Backed eq (written s.dialect during ++ c.columns) (view w').rows r) :
    Tracks s.dialect schema eq before (view w') r := by
  refine ⟨hschema, hclean, ?_, during ++ [.execute st], ?_, ?_, .inl ⟨hpersisted, ?_⟩⟩
  · have hunique := hw.unique st w c e hread htable (congrArg Prod.fst hrun) hkeyed
    rw [hrun] at hunique
    exact hunique
  · have hlog := (hw.execute st w).sent
    rw [hrun, hsent] at hlog
    rw [hlog, List.append_assoc]
  · intro q hq
    rcases List.mem_append.mp hq with hq | hq
    · exact hwrites q hq
    · exact ⟨st, c, List.mem_singleton.mp hq, hread, htable⟩
  · rw [written_concat hread]
    exact hbacked

/-! ### Insertions -/

/-- A row that holds what was given for it stands behind a record with the same attributes. -/
theorem backed_of_holds {rows : List Attributes} {given row : Attributes} {k : Value}
    (hkey : r.key? = some k) (hsync : r.snapshot = r.attributes) (hmem : row ∈ rows)
    (hfound : eq k (cell row r.schema.primaryKey) = true)
    (hholds : Holds given.names given.values row)
    (hgiven : ∀ name v, given.get? name = some v → r.get? name = some v ∧ v.hasNan = false) :
    Backed eq given.names rows r := by
  refine ⟨k, row, ?_, hmem, hfound, fun column hcolumn => ?_⟩
  · rw [hsync]
    exact hkey
  · obtain ⟨v, hv⟩ := NameMap.mem_names_iff.mp hcolumn
    obtain ⟨hattribute, hnan⟩ := hgiven column v hv
    refine ⟨v, v, ?_, ?_, holds_names_values hholds hv, Value.same_refl hnan⟩
    · rw [hsync]
      exact hattribute
    · rw [hattribute]
      rfl

theorem takeKey_eq {e : Execution} {r : Record} (h : r.key?.isSome = true) : takeKey e r = r := by
  unfold takeKey
  split
  · rw [if_neg]
    rw [Option.isNone_eq_false_iff.mpr h]
    simp
  · rfl

theorem takeKey_cases (e : Execution) (r : Record) :
    takeKey e r = r ∨ ∃ id, e.insertId = some id ∧ takeKey e r = r.set r.schema.primaryKey id := by
  unfold takeKey
  split
  · next id hid =>
    split
    · exact .inr ⟨id, hid, rfl⟩
    · exact .inl rfl
  · exact .inl rfl

theorem insertable_eq {r : Record} (h : r.key?.isSome = true) : r.insertable = r.attributes := by
  unfold insertable
  rw [Option.isNone_eq_false_iff.mpr h]
  rfl

theorem insertable_eq_erase {r : Record} (h : r.key? = none) :
    r.insertable = r.attributes.erase r.schema.primaryKey := by
  unfold insertable
  rw [h]
  rfl

theorem get?_takeKey_of_insertable (e : Execution) {r : Record} {name : String} {v : Value}
    (h : r.insertable.get? name = some v) : (takeKey e r).get? name = some v := by
  cases hkey : r.key? with
  | some k =>
    have hsome : r.key?.isSome = true := by rw [hkey]; rfl
    rw [insertable_eq hsome] at h
    rw [takeKey_eq hsome]
    exact h
  | none =>
    rw [insertable_eq_erase hkey, NameMap.get?_erase] at h
    split at h
    · cases h
    · next hname =>
      rcases takeKey_cases e r with htake | ⟨id, -, htake⟩
      · rw [htake]
        exact h
      · rw [htake, get?_set, if_neg hname]
        exact h

theorem exists_given (hw : Keyed s.world s.dialect r.schema.table r.schema.primaryKey eq view)
    (heq : KeyEquality eq)
    (hread : TableCommand.read s.dialect st =
      some (.insert r.schema.table r.insertable.names [r.insertable.values]))
    (hrun : s.world.execute st w = (.ok e, w')) {k : Value} (hkey : r.key? = some k)
    (hnan : k.hasNan = false) :
    ∃ row ∈ (view w').rows, Holds r.insertable.names r.insertable.values row ∧
      eq k (cell row r.schema.primaryKey) = true := by
  obtain ⟨hk, hnull⟩ := present?_eq_some.mp hkey
  obtain ⟨added, hadded, hperm⟩ := hw.write st w _ e hread rfl (congrArg Prod.fst hrun)
  rw [hrun] at hperm
  cases hadded with
  | @cons _ row _ _ hholds hrest =>
    cases hrest
    have hmem := hperm.mem_iff.mpr (List.mem_append_right _ (List.mem_singleton_self row))
    have hsome : r.key?.isSome = true := by rw [hkey]; rfl
    have hvalue : r.insertable.get? r.schema.primaryKey = some k := by
      rw [insertable_eq hsome]
      exact hk
    have hcell : cell row r.schema.primaryKey = k := by
      unfold cell
      rw [holds_names_values hholds hvalue]
      rfl
    refine ⟨row, hmem, hholds, ?_⟩
    rw [hcell]
    exact heq.of_same hnull (Value.same_refl hnan)

theorem exists_generated (hw : Keyed s.world s.dialect r.schema.table r.schema.primaryKey eq view)
    (hread : TableCommand.read s.dialect st =
      some (.insert r.schema.table r.insertable.names [r.insertable.values]))
    (hrun : s.world.execute st w = (.ok e, w')) (hkey : r.key? = none) {k : Value}
    (hk : e.insertId = some k) :
    ∃ row ∈ (view w').rows, Holds r.insertable.names r.insertable.values row ∧
      eq k (cell row r.schema.primaryKey) = true := by
  have hfree : r.schema.primaryKey ∉ r.insertable.names := by
    rw [insertable_eq_erase hkey, NameMap.mem_names_iff]
    rintro ⟨v, hv⟩
    rw [NameMap.get?_erase, if_pos rfl] at hv
    cases hv
  obtain ⟨row, hholds, hfound, hperm⟩ :=
    hw.generated st w _ _ e k hread hfree (congrArg Prod.fst hrun) hk
  rw [hrun] at hperm
  have hmem := hperm.mem_iff.mpr (List.mem_append_right _ (List.mem_singleton_self row))
  exact ⟨row, hmem, hholds, hfound⟩

/-- The row that an insertion adds has the key the record ends with. -/
theorem exists_inserted (hw : Keyed s.world s.dialect r.schema.table r.schema.primaryKey eq view)
    (heq : KeyEquality eq) (hsetter : r.schema.setters.get? r.schema.primaryKey = none)
    (hread : TableCommand.read s.dialect st =
      some (.insert r.schema.table r.insertable.names [r.insertable.values]))
    (hrun : s.world.execute st w = (.ok e, w'))
    (hclean : ∀ name v, (takeKey e r).get? name = some v → v.hasNan = false)
    {k : Value} (hkey : (takeKey e r).key? = some k) :
    ∃ row ∈ (view w').rows, Holds r.insertable.names r.insertable.values row ∧
      eq k (cell row r.schema.primaryKey) = true := by
  cases hgiven : r.key? with
  | some given =>
    have hsome : r.key?.isSome = true := by rw [hgiven]; rfl
    rw [takeKey_eq hsome] at hkey hclean
    exact exists_given hw heq hread hrun hkey (hclean _ k (present?_eq_some.mp hkey).1)
  | none =>
    rcases takeKey_cases e r with htake | ⟨id, hid, htake⟩
    · rw [htake, hgiven] at hkey
      cases hkey
    · have hset : (takeKey e r).get? (takeKey e r).schema.primaryKey = some id := by
        rw [schema_takeKey, htake, get?_set, if_pos rfl, Schema.setValue, hsetter]
      have hk : id = k := Option.some.inj (hset.symm.trans (present?_eq_some.mp hkey).1)
      exact exists_generated hw hread hrun hgiven (hk ▸ hid)

theorem read_rowInsert {d : Dialect} {row : Attributes}
    (hst : (schema.allRows d).insertion row = .ok st)
    (hvalues : ∀ v ∈ row.values, v.isDefault = false) :
    TableCommand.read d st = some (.insert schema.table row.names [row.values]) := by
  obtain ⟨f, hf, -⟩ := ok_of_map hst
  obtain ⟨t, ht, -⟩ := ok_of_bind hf
  have htable : (Text.trim schema.table).isEmpty = false := exists_tableFragment.mp ⟨t, ht⟩
  obtain ⟨st', hst', hread⟩ := Query.read_insertion (q := schema.allRows d) htable hvalues
  rw [hst'] at hst
  cases hst
  exact hread

theorem tracks_inserted (hw : Keyed s.world s.dialect schema.table schema.primaryKey eq view)
    (heq : KeyEquality eq) (hsetter : schema.setters.get? schema.primaryKey = none)
    (h : Tracks s.dialect schema eq before (view w) r) (hnew : r.persisted = false)
    (hedited : r.Edited r₁) (hview : view w₁ = view w)
    (hst : (r₁.schema.allRows s.dialect).insertion r₁.insertable = .ok st)
    (hrun : s.world.execute st w₁ = (.ok e, w'))
    (hclean : ∀ name v, (takeKey e r₁).get? name = some v →
      v.hasNan = false ∧ v.isDefault = false)
    (hkey : (takeKey e r₁).key?.isSome = true) :
    Tracks s.dialect schema eq before (view w') (takeKey e r₁).markPersisted := by
  obtain ⟨hschema, -, hkeyed, during, hsent, hwrites, hbacked⟩ := h
  rw [← hview] at hkeyed hsent
  obtain rfl : r₁.schema = schema := hedited.schema.trans hschema
  have hnothing : written s.dialect during = [] := by
    rcases hbacked with ⟨hpersisted, -⟩ | ⟨hnothing, -⟩
    · rw [hnew] at hpersisted
      cases hpersisted
    · exact hnothing
  have hread := read_rowInsert hst fun v hv => by
    obtain ⟨name, hname⟩ := NameMap.exists_get?_of_mem_values hv
    exact (hclean name v (get?_takeKey_of_insertable e hname)).2
  obtain ⟨k, hk⟩ := Option.isSome_iff_exists.mp hkey
  obtain ⟨row, hmem, hholds, hfound⟩ :=
    exists_inserted hw heq hsetter hread hrun (fun name v hv => (hclean name v hv).1) hk
  have htaken := schema_takeKey e r₁
  refine tracks_written hw hkeyed hsent hwrites hread rfl hrun htaken rfl hclean ?_
  rw [hnothing]
  refine backed_of_holds hk rfl hmem ?_ hholds fun name v hv => ?_
  · rw [show (takeKey e r₁).markPersisted.schema = r₁.schema from htaken]
    exact hfound
  · have hget := get?_takeKey_of_insertable e hv
    exact ⟨hget, (hclean name v hget).1⟩

/-! ### Updates -/

/-- An attribute that is not dirty is that of the snapshot. -/
theorem same_of_not_dirty {name : String} {v : Value} (hv : r.get? name = some v)
    (hdirty : r.dirty.get? name = none) :
    ∃ old, r.snapshot.get? name = some old ∧ old.same v = true := by
  rw [get?_dirty, hv, Option.filter_eq_none_iff] at hdirty
  have hsame : ¬differs r.snapshot name v = true := hdirty v rfl
  unfold differs at hsame
  split at hsame
  · next old hold => exact ⟨old, hold, by simpa using hsame⟩
  · exact absurd rfl hsame

/-- The row that was addressed stands behind the record when the dirty attributes are in it. -/
theorem backed_of_update {columns : List String} {rows : List Attributes} {row : Attributes}
    {k : Value} (hkey : r.key? = some k)
    (hmem : row.insertAll r.dirty.entries ∈ rows)
    (hfound : r.dirty.get? r.schema.primaryKey = none →
      eq k (cell row r.schema.primaryKey) = true)
    (hself : eq k k = true)
    (hclean : ∀ name v, r.get? name = some v → v.hasNan = false)
    (hcolumns : ∀ column ∈ columns, ∃ old stored, r.snapshot.get? column = some old ∧
      (r.get? column).isSome = true ∧ row.get? column = some stored ∧ old.same stored = true) :
    Backed eq (columns ++ r.dirty.names) rows r.markPersisted := by
  have hget : ∀ name, (row.insertAll r.dirty.entries).get? name =
      (r.dirty.get? name).or (row.get? name) :=
    NameMap.get?_insertAll_entries row r.dirty
  refine ⟨k, row.insertAll r.dirty.entries, hkey, hmem, ?_, fun column hcolumn => ?_⟩
  · show eq k (cell (row.insertAll r.dirty.entries) r.schema.primaryKey) = true
    unfold cell
    rw [hget]
    cases hdirty : r.dirty.get? r.schema.primaryKey with
    | none => exact hfound hdirty
    | some v =>
      have hv : v = k := Option.some.inj
        ((get?_of_dirty hdirty).symm.trans (present?_eq_some.mp hkey).1)
      rw [hv]
      exact hself
  · cases hdirty : r.dirty.get? column with
    | some v =>
      have hv := get?_of_dirty hdirty
      refine ⟨v, v, hv, ?_, ?_, Value.same_refl (hclean column v hv)⟩
      · show (r.get? column).isSome = true
        rw [hv]
        rfl
      · rw [hget, hdirty]
        rfl
    | none =>
      -- A column that is not written now was written before.
      have hbefore : column ∈ columns := by
        rcases List.mem_append.mp hcolumn with hcolumn | hcolumn
        · exact hcolumn
        · obtain ⟨v, hv⟩ := NameMap.mem_names_iff.mp hcolumn
          rw [hdirty] at hv
          cases hv
      obtain ⟨old, stored, hold, hsome, hstored, hsame⟩ := hcolumns column hbefore
      obtain ⟨v, hv⟩ := Option.isSome_iff_exists.mp hsome
      obtain ⟨old', hold', hsame'⟩ := same_of_not_dirty hv hdirty
      rw [hold] at hold'
      cases hold'
      refine ⟨v, stored, hv, ?_, ?_, Value.same_trans (Value.same_symm hsame') hsame⟩
      · show (r.get? column).isSome = true
        exact hsome
      · rw [hget, hdirty]
        exact hstored

theorem Stamped.key (h : r.Stamped r₁)
    (hsetter : r.schema.setters.get? r.schema.primaryKey = none) (hkey : r.key?.isSome = true) :
    r₁.key?.isSome = true := by
  rcases h with rfl | ⟨name, text, rfl⟩
  · exact hkey
  · show (present? ((r.set name (.text text)).get? r.schema.primaryKey)).isSome = true
    rw [get?_set]
    split
    · next hname =>
      subst hname
      rw [Schema.setValue, hsetter]
      rfl
    · exact hkey

theorem storedKey?_eq {k : Value} (h : present? (r.snapshot.get? r.schema.primaryKey) = some k) :
    r.storedKey? = some k := by
  unfold storedKey?
  rw [h]

theorem storedKey?_eq_key? (h : present? (r.snapshot.get? r.schema.primaryKey) = none) :
    r.storedKey? = r.key? := by
  unfold storedKey?
  rw [h]

theorem Stamped.key_of_stored (h : r.Stamped r₁)
    (hsetter : r.schema.setters.get? r.schema.primaryKey = none)
    (hhad : (present? (r.snapshot.get? r.schema.primaryKey)).isSome = true →
      r.key?.isSome = true)
    {k : Value} (hstored : r₁.storedKey? = some k) : r₁.key?.isSome = true := by
  cases hkey : present? (r₁.snapshot.get? r₁.schema.primaryKey) with
  | none =>
    rw [storedKey?_eq_key? hkey] at hstored
    rw [hstored]
    rfl
  | some old =>
    rw [h.edited.snapshot, h.edited.schema] at hkey
    refine h.key hsetter (hhad ?_)
    rw [hkey]
    rfl

/-- The key that addresses a row is a value a condition can ask for. -/
theorem storedKey?_proper
    (hsnapshot : ∀ name v, r.snapshot.get? name = some v → v.isDefault = false)
    (hclean : ∀ name v, r.get? name = some v → v.isDefault = false)
    {k : Value} (h : r.storedKey? = some k) : k.isNull = false ∧ k.isDefault = false := by
  cases hkey : present? (r.snapshot.get? r.schema.primaryKey) with
  | some old =>
    rw [storedKey?_eq hkey] at h
    cases h
    obtain ⟨hold, hnull⟩ := present?_eq_some.mp hkey
    exact ⟨hnull, hsnapshot _ k hold⟩
  | none =>
    rw [storedKey?_eq_key? hkey] at h
    obtain ⟨hk, hnull⟩ := present?_eq_some.mp h
    exact ⟨hnull, hclean _ k hk⟩

/-- The row under the stored key, and the columns it shares with the record. -/
theorem exists_addressed (heq : KeyEquality eq) {rows : List Attributes} {columns : List String}
    (hbacked : Backed eq columns rows r ∨
      (columns = [] ∧ present? (r.snapshot.get? r.schema.primaryKey) = none))
    (haddressed : present? (r.snapshot.get? r.schema.primaryKey) = none →
      ∀ k, r.key? = some k → ∃ row ∈ rows, eq k (cell row r.schema.primaryKey) = true)
    {k k' : Value} (hstored : r.storedKey? = some k) (hkey : r.key? = some k') :
    ∃ row ∈ rows, eq k (cell row r.schema.primaryKey) = true ∧
      (r.dirty.get? r.schema.primaryKey = none → eq k' (cell row r.schema.primaryKey) = true) ∧
      ∀ column ∈ columns, ∃ old stored, r.snapshot.get? column = some old ∧
        (r.get? column).isSome = true ∧ row.get? column = some stored ∧
        old.same stored = true := by
  rcases hbacked with ⟨old, row, hold, hmem, hfound, hcolumns⟩ | ⟨hnone, hkeyless⟩
  · rw [storedKey?_eq hold] at hstored
    cases hstored
    refine ⟨row, hmem, hfound, fun hdirty => ?_, hcolumns⟩
    -- The key has not changed, but it may have another width.
    obtain ⟨hget, hnull⟩ := present?_eq_some.mp hkey
    obtain ⟨old', hold', hsame⟩ := same_of_not_dirty hget hdirty
    rw [(present?_eq_some.mp hold).1] at hold'
    cases hold'
    exact heq.trans (heq.of_same hnull (Value.same_symm hsame)) hfound
  · rw [storedKey?_eq_key? hkeyless, hkey] at hstored
    cases hstored
    obtain ⟨row, hmem, hfound⟩ := haddressed hkeyless k hkey
    subst hnone
    exact ⟨row, hmem, hfound, fun _ => hfound, fun column hcolumn => nomatch hcolumn⟩

theorem read_rowUpdate {d : Dialect} {k : Value} {assignments : Attributes}
    (hst : ((schema.allRows d).filterEq schema.primaryKey k).updating assignments = .ok st)
    (hnull : k.isNull = false) (hdefault : k.isDefault = false)
    (hvalues : ∀ v ∈ assignments.values, v.isDefault = false) :
    TableCommand.read d st =
      some (.update schema.table assignments.entries [(schema.primaryKey, [k])]) := by
  have hasks : ((schema.allRows d).filterEq schema.primaryKey k).Asks
      [(schema.primaryKey, [k])] :=
    ((Query.asks_on schema.table d).keyedBy schema.primaryKey).filter
      (.eq schema.primaryKey hnull hdefault)
  obtain ⟨f, hf, -⟩ := ok_of_map hst
  unfold Query.updatingFragment at hf
  split at hf
  · cases hf
  · next hne =>
    obtain ⟨t, ht, -⟩ := ok_of_bind hf
    have htable : (Text.trim schema.table).isEmpty = false := exists_tableFragment.mp ⟨t, ht⟩
    obtain ⟨st', hst', hread⟩ :=
      Query.read_updating hasks htable (Bool.eq_false_iff.mpr hne) hvalues
    rw [hst'] at hst
    cases hst
    exact hread

theorem tracks_updated (hw : Keyed s.world s.dialect schema.table schema.primaryKey eq view)
    (heq : KeyEquality eq) (hsetter : schema.setters.get? schema.primaryKey = none)
    (h : Tracks s.dialect schema eq before (view w) r) (hpersisted : r.persisted = true)
    (hhad : (present? (r.snapshot.get? r.schema.primaryKey)).isSome = true →
      r.key?.isSome = true)
    (hstamped : r.Stamped r₁) (hview : view w₁ = view w) {k : Value}
    (hstored : r₁.storedKey? = some k)
    (hst : (r₁.rowQuery s k).updating r₁.dirty = .ok st)
    (hrun : s.world.execute st w₁ = (.ok e, w'))
    (hclean : ∀ name v, r₁.get? name = some v → v.hasNan = false ∧ v.isDefault = false)
    (haddressed : present? (r.snapshot.get? r.schema.primaryKey) = none →
      ∀ k, r₁.key? = some k →
        ∃ row ∈ (view w).rows, eq k (cell row r.schema.primaryKey) = true) :
    Tracks s.dialect schema eq before (view w') r₁.markPersisted := by
  have hedited := hstamped.edited
  obtain ⟨hschema, hsnapshot, hkeyed, during, hsent, hwrites, hbacked⟩ := h.edited hedited
  obtain ⟨hnull, hdefault⟩ := storedKey?_proper (fun name v hv => (hsnapshot name v hv).2)
    (fun name v hv => (hclean name v hv).2) hstored
  have hset : r.schema.setters.get? r.schema.primaryKey = none := h.schema_eq ▸ hsetter
  obtain ⟨k', hk'⟩ := Option.isSome_iff_exists.mp (hstamped.key_of_stored hset hhad hstored)
  have hread : TableCommand.read s.dialect st = some (.update schema.table r₁.dirty.entries
      [(schema.primaryKey, [k])]) := by
    rw [rowQuery, hschema] at hst
    exact read_rowUpdate hst hnull hdefault fun v hv => by
      obtain ⟨name, hname⟩ := NameMap.exists_get?_of_mem_values hv
      exact (hclean name v (get?_of_dirty hname)).2
  have hperm := hw.write st w₁ _ e hread rfl (congrArg Prod.fst hrun)
  rw [hview, hrun] at hperm
  have hbehind : Backed eq (written s.dialect during) (view w).rows r₁ ∨
      (written s.dialect during = [] ∧
        present? (r₁.snapshot.get? r₁.schema.primaryKey) = none) :=
    hbacked.imp And.right (And.imp_right fun h => h (hedited.persisted.trans hpersisted))
  rw [← hedited.snapshot, ← hedited.schema] at haddressed
  obtain ⟨row, hmem, hfound, hkept, hcolumns⟩ :=
    exists_addressed heq hbehind haddressed hstored hk'
  have hmeets : Matching.meets eq [(schema.primaryKey, [k])] row = true := by
    rw [hschema] at hfound
    simp only [Matching.meets, List.all_cons, List.all_nil, List.any_cons, List.any_nil, hfound,
      Bool.or_false, Bool.and_true]
  have hchanged : row.insertAll r₁.dirty.entries ∈ (view w').rows := by
    refine hperm.mem_iff.mpr (List.mem_map.mpr ⟨row, hmem, ?_⟩)
    rw [if_pos hmeets]
  obtain ⟨hget, hpresent⟩ := present?_eq_some.mp hk'
  have hself : eq k' k' = true := heq.of_same hpresent (Value.same_refl (hclean _ k' hget).1)
  rw [← hview] at hkeyed hsent
  exact tracks_written hw hkeyed hsent hwrites hread rfl hrun hschema rfl hclean
    (backed_of_update hk' hchanged hkept hself (fun name v hv => (hclean name v hv).1) hcolumns)

/-! ### Whole runs -/

theorem tracks_saved (hw : Keyed s.world s.dialect schema.table schema.primaryKey eq view)
    (heq : KeyEquality eq) (hsetter : schema.setters.get? schema.primaryKey = none)
    {o : Outcome Bool} {r' : Record} (h : Tracks s.dialect schema eq before (view w) r)
    (hbefore : Sound view r w) (hsave : SaveRun s view r w o r' w') (hafter : Sound view r' w')
    (hsound : SoundSave eq view r w r') : Tracks s.dialect schema eq before (view w') r' := by
  cases hsave with
  | clean => exact h
  | refused hedited hview =>
    rw [hview]
    exact h.edited hedited
  | failed hfailed =>
    rw [hafter.calm] at hfailed
    cases hfailed
  | inserted hnew hedited hview hst hrun =>
    exact tracks_inserted hw heq hsetter h hnew hedited hview hst hrun hafter.clean
      (hsound.inserted hnew rfl)
  | updated hpersisted hstamped hview hkey hst hrun =>
    exact tracks_updated hw heq hsetter h hpersisted (hbefore.key hpersisted) hstamped hview hkey
      hst hrun hafter.clean (hsound.addressed hpersisted)

theorem Run.sound {first : Record} {begun : σ} (h : Run s eq view first begun r w) :
    Sound view r w := by
  cases h with
  | start h => exact h
  | set name v hrun h => exact h
  | fill data hrun h => exact h
  | forceFill data hrun h => exact h
  | save hrun hsave h hsound => exact h

theorem Run.sound_first {first : Record} {begun : σ} (h : Run s eq view first begun r w) :
    Sound view first begun := by
  induction h with
  | start h => exact h
  | set _ _ _ _ ih => exact ih
  | fill _ _ _ ih => exact ih
  | forceFill _ _ _ ih => exact ih
  | save _ _ _ _ ih => exact ih

theorem Run.tracks (hw : Keyed s.world s.dialect schema.table schema.primaryKey eq view)
    (heq : KeyEquality eq) (hsetter : schema.setters.get? schema.primaryKey = none)
    (hhooks : NoHooks s schema) {first : Record} {begun : σ}
    (hfirst : Tracks s.dialect schema eq before (view begun) first)
    (h : Run s eq view first begun r w) : Tracks s.dialect schema eq before (view w) r := by
  induction h with
  | start => exact hfirst
  | set name v _ _ ih => exact ih.edited (edited_set _ name v)
  | fill data _ _ ih => exact ih.edited (edited_fill _ data)
  | forceFill data _ _ ih => exact ih.edited (edited_forceFill _ data)
  | save hrun hsave h hsound ih =>
    have hnone : NoHooks s _ := ih.schema_eq ▸ hhooks
    exact tracks_saved hw heq hsetter ih hrun.sound (save_run hw.toTabular hnone hsave) h hsound

theorem SaveRun.written {r' : Record} (h : SaveRun s view r w (.ok true) r' w')
    (hsetter : r.schema.setters.get? r.schema.primaryKey = none) (hbefore : Sound view r w)
    (hcalm : (view w').failed = false) (hsound : SoundSave eq view r w r') :
    r'.persisted = true ∧ r'.snapshot = r'.attributes ∧ r'.key?.isSome = true := by
  cases h with
  | failed hfailed =>
    rw [hcalm] at hfailed
    cases hfailed
  | inserted hnew => exact ⟨rfl, rfl, hsound.inserted hnew rfl⟩
  | updated hpersisted hstamped _ hkey =>
    exact ⟨rfl, rfl, hstamped.key_of_stored hsetter (hbefore.key hpersisted) hkey⟩

theorem isDirty_of_sync (hsync : r.snapshot = r.attributes)
    (hclean : ∀ name v, r.get? name = some v → v.hasNan = false) : r.isDirty = false := by
  have hnone : ∀ name, r.dirty.get? name = none := by
    intro name
    cases hdirty : r.dirty.get? name with
    | none => rfl
    | some v =>
      obtain ⟨hv, hdiffers⟩ := get?_dirty_eq_some.mp hdirty
      have hsame := Value.same_refl (hclean name v hv)
      unfold differs at hdiffers
      rw [hsync, show r.attributes.get? name = some v from hv] at hdiffers
      simp only [hsame, Bool.not_true] at hdiffers
      cases hdiffers
  have hempty : r.dirty = .empty := NameMap.ext_get? hnone
  unfold isDirty
  rw [hempty]
  rfl

/-- A record that has just been written agrees with its row. -/
theorem Tracks.inStep {d : Dialect} {l : Ledger} (h : Tracks d schema eq before l r)
    (heq : KeyEquality eq) (hpersisted : r.persisted = true)
    (hsync : r.snapshot = r.attributes)
    (hclean : ∀ name v, r.get? name = some v → v.hasNan = false)
    (hkey : r.key?.isSome = true) :
    ∃ during, l.sent = before ++ during ∧ (∀ q ∈ during, q.WritesTo d schema.table) ∧
      InStep eq (RecordMapper.written d during) l.rows r := by
  obtain ⟨hschema, -, hkeyed, during, hsent, hwrites, hbacked⟩ := h
  refine ⟨during, hsent, hwrites, hpersisted, isDirty_of_sync hsync hclean, ?_⟩
  have hbehind : Backed eq (RecordMapper.written d during) l.rows r := by
    rcases hbacked with ⟨-, hbehind⟩ | ⟨-, hkeyless⟩
    · exact hbehind
    · have hnone := hkeyless hpersisted
      rw [hsync, show present? (r.attributes.get? r.schema.primaryKey) = r.key? from rfl] at hnone
      rw [hnone] at hkey
      cases hkey
  obtain ⟨k, row, hk, hmem, hfound, hcolumns⟩ := hbehind
  have hkeyed' : IsKeyed eq r.schema.primaryKey l.rows := hschema ▸ hkeyed
  refine ⟨k, row, ?_, filter_eq_singleton heq hkeyed' hmem hfound, fun column hcolumn => ?_⟩
  · rw [hsync] at hk
    exact hk
  · obtain ⟨old, stored, hold, -, hstored, hsame⟩ := hcolumns column hcolumn
    have hcurrent : r.get? column = some old := by
      rw [hsync] at hold
      exact hold
    exact ⟨stored, old, old, hstored, hcurrent, hold, Value.same_symm hsame, Value.same_symm hsame⟩

/-- After any run of edits and saves, a save that wrote something leaves the record and its row in
step, and there is nothing left to save. -/
theorem save_inStep {g : HookRegistry}
    (hw : Keyed s.world s.dialect schema.table schema.primaryKey eq view) (heq : KeyEquality eq)
    (hhooks : s.hooks = g.hooks) (hlisteners : ∀ l ∈ g.listeners, ∀ r, l.2 r = (.ok (), r))
    (hnone : schema.hooks = []) (hsetter : schema.setters.get? schema.primaryKey = none)
    {first : Record} {begun : σ} (hkeyed : IsKeyed eq schema.primaryKey (view begun).rows)
    (hbegins : Begins schema eq (view begun).rows first) (hrun : Run s eq view first begun r w)
    {r' : Record} (hsave : ((save s).runOn r).run w = ((.ok true, r'), w'))
    (hafter : Sound view r' w') (hsound : SoundSave eq view r w r') :
    (∃ during, (view w').sent = (view begun).sent ++ during ∧
      (∀ q ∈ during, q.WritesTo s.dialect schema.table) ∧
      InStep eq (written s.dialect during) (view w').rows r') ∧
      ((save s).runOn r').run w' = ((.ok false, r'), w') := by
  have hquiet : NoHooks s schema := noHooks_of_registry hhooks hlisteners hnone
  have hfirst : Tracks s.dialect schema eq (view begun).sent (view begun) first :=
    hbegins.tracks hkeyed hrun.sound_first.clean
  have htracks := hrun.tracks hw heq hsetter hquiet hfirst
  have hcase := save_run hw.toTabular (htracks.schema_eq ▸ hquiet) hsave
  have htracks' := tracks_saved hw heq hsetter htracks hrun.sound hcase hafter hsound
  obtain ⟨hpersisted, hsync, hkey⟩ :=
    hcase.written (htracks.schema_eq ▸ hsetter) hrun.sound hafter.calm hsound
  have hnan : ∀ name v, r'.get? name = some v → v.hasNan = false :=
    fun name v hv => (hafter.clean name v hv).1
  have hclean : r'.isDirty = false := isDirty_of_sync hsync hnan
  exact ⟨htracks'.inStep heq hpersisted hsync hnan hkey,
    save_clean (htracks'.schema_eq ▸ hquiet) hpersisted hclean w'⟩

end Writes

/-! ### A generated key that is changed -/

def notes : Schema :=
  { Schema.plain "notes" with keyStrategy := .autoIncrement, timestamps := some .standard }

def notesSession : Session Ledger :=
  ⟨Ledger.world .sqlite "notes" Value.same (some "id"), .sqlite, ⟨[]⟩, .empty,
    HookRegistry.empty.hooks, .standard, 0⟩

def noNotes : Ledger := ⟨[], [], false⟩

def draft : Record := (new notes).fill [("id", .int32 5), ("title", .text "draft")]

def noted : (Outcome Bool × Record) × Ledger := ((save notesSession).runOn draft).run noNotes

def changed : Record := noted.1.2.set "id" (.int16 7)

def renumbered : (Outcome Bool × Record) × Ledger :=
  ((save notesSession).runOn changed).run noted.2

/-- What makes a record sound, in a form that can be evaluated. -/
def Passes (r : Record) (l : Ledger) : Prop :=
  l.failed = false ∧
  (∀ p ∈ r.attributes.entries, p.2.hasNan = false ∧ p.2.isDefault = false) ∧
  (r.persisted = true → (present? (r.snapshot.get? r.schema.primaryKey)).isSome = true →
    r.key?.isSome = true)

instance (r : Record) (l : Ledger) : Decidable (r.Passes l) :=
  inferInstanceAs (Decidable (_ ∧ _))

theorem Passes.sound {r : Record} {l : Ledger} (h : r.Passes l) : Sound id r l :=
  ⟨h.1, fun _ _ hv => h.2.1 _ (Assoc.mem_of_get? hv), h.2.2⟩

theorem save_inStep_renumbered :
    Keyed notesSession.world .sqlite notes.table notes.primaryKey Value.same id ∧
    Run notesSession Value.same id (new notes) noNotes changed noted.2 ∧
    renumbered.1.1 = .ok true ∧
    (∃ during, renumbered.2.sent = [] ++ during ∧
      (∀ q ∈ during, q.WritesTo .sqlite notes.table) ∧
      InStep Value.same (written .sqlite during) renumbered.2.rows renumbered.1.2) ∧
    ((save notesSession).runOn renumbered.1.2).run renumbered.2 =
      ((.ok false, renumbered.1.2), renumbered.2) := by
  have hworld : Keyed notesSession.world .sqlite notes.table notes.primaryKey Value.same id :=
    Ledger.world_keyed "id" keyEquality_same
  have hempty : IsKeyed Value.same notes.primaryKey noNotes.rows := .nil
  have hbegins : Begins notes Value.same noNotes.rows (new notes) := .inl rfl
  have hnew : (new notes).Passes noNotes := by decide +kernel
  have hdraft : draft.Passes noNotes := by decide +kernel
  have hnoted : noted.1.2.Passes noted.2 ∧ changed.Passes noted.2 ∧
      noted.1.2.key?.isSome = true ∧ changed.persisted = true ∧
      (present? (changed.snapshot.get? changed.schema.primaryKey)).isSome = true := by
    decide +kernel
  have hrenumbered : renumbered.1.2.Passes renumbered.2 ∧ renumbered.1.1 = .ok true := by
    decide +kernel
  obtain ⟨hpasses, hchanged, hkey, hpersisted, hknown⟩ := hnoted
  have hparts : ∀ run : (Outcome Bool × Record) × Ledger, run = ((run.1.1, run.1.2), run.2) :=
    fun _ => rfl
  have hrun : Run notesSession Value.same id (new notes) noNotes changed noted.2 :=
    .set "id" (.int16 7) (.save (.fill _ (.start hnew.sound) hdraft.sound) (hparts noted)
      hpasses.sound ⟨fun _ _ => hkey, nofun⟩) hchanged.sound
  have hsave : ((save notesSession).runOn changed).run noted.2 =
      ((.ok true, renumbered.1.2), renumbered.2) := by
    rw [← hrenumbered.2]
    exact hparts renumbered
  have hupdated : SoundSave Value.same id changed noted.2 renumbered.1.2 := by
    constructor
    · intro hfresh
      rw [hpersisted] at hfresh
      cases hfresh
    · intro _ hnone
      rw [hnone] at hknown
      cases hknown
  exact ⟨hworld, hrun, hrenumbered.2, save_inStep (g := .empty) hworld keyEquality_same rfl nofun
    rfl rfl hempty hbegins hrun hsave hrenumbered.1.sound hupdated⟩

end Record

end RecordMapper
