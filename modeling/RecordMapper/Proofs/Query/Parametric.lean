import RecordMapper.Proofs.Query.Masking

/-!
Statements whose text does not depend on values.

* `Query.commandFragment` is a statement before it is written. Two queries that are equal once they
  are masked, with commands that are, have one statement, once that is masked too
  (`Query.commandFragment_masked`).
* `Mask.values` hides every value but the keyword. What it hides is written as placeholders, so it
  never reaches the text (`Query.command_parametric`).
-/
namespace RecordMapper

set_option autoImplicit false

/-! ## Commands -/

/-- The columns and values of a row, in the order of the columns. -/
def Mask.row (m : Mask) (row : Attributes) : List (String × Value) :=
  row.entries.map fun e => (m.name e.1, m.value e.2)

/-- Commands that are equal once they are masked. -/
inductive Command.Alike (m : Mask) : Command → Command → Prop
  | read : Alike m .read .read
  | count : Alike m .count .count
  | insert {row row' : Attributes} (h : m.row row = m.row row') :
    Alike m (.insert row) (.insert row')
  | insertMany {rows rows' : List Attributes} (h : rows.map m.row = rows'.map m.row) :
    Alike m (.insertMany rows) (.insertMany rows')
  | update {row row' : Attributes} (h : m.row row = m.row row') :
    Alike m (.update row) (.update row')
  | delete : Alike m .delete .delete
  | upsert {rows rows' : List Attributes} {uniqueBy uniqueBy' update update' : List String}
    (h : rows.map m.row = rows'.map m.row)
    (hunique : uniqueBy.map m.name = uniqueBy'.map m.name)
    (hupdate : update.map m.name = update'.map m.name) :
    Alike m (.upsert rows uniqueBy update) (.upsert rows' uniqueBy' update')

namespace Query

/-- Whether all rows have the columns of the first. -/
def uniform (rows : List Attributes) : Bool :=
  match rows with
  | [] => true
  | first :: _ => (differingRow? first.names 0 rows).isNone

end Query

/-- Whether the rows of a command, if it has several, have the same columns. -/
def Command.uniform : Command → Bool
  | .insertMany rows => Query.uniform rows
  | .upsert rows _ _ => Query.uniform rows
  | _ => true

def Query.commandFragment (q : Query) : Command → Result Fragment
  | .read => q.compile q.dialect
  | .count => q.countingFragment
  | .insert row => q.insertionFragment row
  | .insertMany rows => q.batchInsertionFragment rows
  | .update assignments => q.updatingFragment assignments
  | .delete => q.deletionFragment
  | .upsert rows uniqueBy update => q.upsertionFragment rows uniqueBy update

theorem Query.command_eq (q : Query) (c : Command) :
    q.command c = (q.commandFragment c).map (Fragment.statement q.dialect 0) := by
  cases c <;> rfl

/-! ## Masked rows -/

namespace Mask

variable (m : Mask)

@[simp] theorem fragment_names (identifiers : List String) :
    m.fragment (Fragment.names identifiers) = Fragment.names (identifiers.map m.name) := by
  simp only [Fragment.names, fragment_joined, List.map_map]
  rfl

@[simp] theorem fragment_collision (d : Dialect) (uniqueBy update : List String) :
    m.fragment (Query.collision d uniqueBy update) =
      Query.collision d (uniqueBy.map m.name) (update.map m.name) := by
  have htext : ∀ sql : String, m.fragment (Fragment.text sql) = Fragment.text sql := fun _ => rfl
  unfold Query.collision
  split
  · cases update with
    | nil => cases uniqueBy <;> simp
    | cons c rest => simp [Function.comp_def]
  · cases update with
    | nil => simp [htext]
    | cons c rest => simp [Function.comp_def]

variable {m} {a b : Attributes} {rows rows' : List Attributes}

theorem names_of_row (h : m.row a = m.row b) : a.names.map m.name = b.names.map m.name := by
  have hnames := congrArg (List.map Prod.fst) h
  simpa only [row, NameMap.names, List.map_map, Function.comp_def] using hnames

theorem values_of_row (h : m.row a = m.row b) : a.values.map m.value = b.values.map m.value := by
  have hvalues := congrArg (List.map Prod.snd) h
  simpa only [row, NameMap.values, List.map_map, Function.comp_def] using hvalues

theorem isEmpty_of_row (h : m.row a = m.row b) : a.isEmpty = b.isEmpty := by
  have hempty := congrArg List.isEmpty h
  rwa [row, row, List.isEmpty_map, List.isEmpty_map] at hempty

namespace Fair

variable (h : m.Fair)

include h

theorem fragment_tuple (hrow : m.row a = m.row b) :
    m.fragment (Query.tuple a) = m.fragment (Query.tuple b) := by
  simp only [Query.tuple, fragment_parens, fragment_joined]
  rw [← h.map_bind a.values, ← h.map_bind b.values, values_of_row hrow]

theorem map_tuple (hrows : rows.map m.row = rows'.map m.row) :
    (rows.map Query.tuple).map m.fragment = (rows'.map Query.tuple).map m.fragment := by
  induction rows generalizing rows' with
  | nil =>
    cases rows' with
    | nil => rfl
    | cons b rest' => cases hrows
  | cons a rest ih =>
    cases rows' with
    | nil => cases hrows
    | cons b rest' =>
      obtain ⟨hrow, hrest⟩ := List.cons.inj hrows
      simp only [List.map_cons, h.fragment_tuple hrow]
      rw [ih hrest]

theorem map_assignment (hrow : m.row a = m.row b) :
    (a.entries.map fun e => Query.assignment e.1 e.2).map m.fragment =
      (b.entries.map fun e => Query.assignment e.1 e.2).map m.fragment := by
  have hmasked : ∀ row : Attributes,
      (row.entries.map fun e => Query.assignment e.1 e.2).map m.fragment =
        (m.row row).map fun e => .name e.1 :: .text " = " :: m.fragment (Fragment.bind e.2) := by
    intro row
    simp [Query.assignment, Mask.row, h.fragment_bind, Function.comp_def]
  rw [hmasked, hmasked, hrow]

end Fair

end Mask

/-! ## Masked statements -/

namespace Query

section Masked

variable {m : Mask} (h : m.Fair) {q q' : Query} (hq : q.masked m = q'.masked m)

include hq

theorem dialect_of_masked : q.dialect = q'.dialect := by
  cases q
  cases q'
  exact (mk.inj hq).2.1

include h

theorem compile_of_masked (d : Dialect) :
    (q.compile d).map m.fragment = (q'.compile d).map m.fragment := by
  rw [← q.compile_masked h d, ← q'.compile_masked h d, hq]

theorem table_of_masked :
    (tableFragment q.table).map m.fragment = (tableFragment q'.table).map m.fragment := by
  rw [← h.fragment_table q.table, ← h.fragment_table q'.table]
  have htable := congrArg Query.table hq
  cases q
  cases q'
  exact congrArg (fun t => (tableFragment t).map m.fragment) htable

theorem whereFragment_masked (d : Dialect) :
    (q.whereFragment d).map m.fragment = (q'.whereFragment d).map m.fragment := by
  obtain ⟨table, dialect, key, columns, distinct, joins, filters, scopes, groups, havings, orders,
    limit, offset⟩ := q
  obtain ⟨table', dialect', key', columns', distinct', joins', filters', scopes', groups', havings',
    orders', limit', offset'⟩ := q'
  obtain ⟨-, -, -, -, -, -, hfilters, hscopes, -⟩ := mk.inj hq
  have hempty : scopes.isEmpty = scopes'.isEmpty := by
    rw [← isEmpty_maskedConditions m scopes, hscopes, isEmpty_maskedConditions]
  have hlinks : (compileLinks d .empty filters).map m.chain =
      (compileLinks d .empty filters').map m.chain := by
    rw [← compileLinks_masked h d filters rfl, hfilters, compileLinks_masked h d filters' rfl]
  have hconditions : (compileScopes d scopes).map (List.map m.fragment) =
      (compileScopes d scopes').map (List.map m.fragment) := by
    rw [← compileScopes_masked h d scopes, hscopes, compileScopes_masked h d scopes']
  refine map_bind_congr (φ := Option.map m.fragment) ?_ fun f f' hf => congrArg Except.ok ?_
  · refine map_bind_congr hlinks fun chain chain' hchain => ?_
    refine map_bind_congr hconditions fun ss ss' hss => congrArg Except.ok ?_
    rw [Mask.fragment_conjunction, Mask.fragment_conjunction, hchain, hss, hempty]
  · rw [Mask.fragment_clause, Mask.fragment_clause, hf]

theorem insertionFragment_masked {a b : Attributes} (hrow : m.row a = m.row b) :
    (q.insertionFragment a).map m.fragment = (q'.insertionFragment b).map m.fragment := by
  refine map_bind_congr (table_of_masked h hq) fun t t' ht => ?_
  simp only [Mask.isEmpty_of_row hrow, dialect_of_masked hq]
  split
  · refine congrArg Except.ok ?_
    split <;> simp [ht, Fragment.text]
  · refine congrArg Except.ok ?_
    simp [ht, Mask.names_of_row hrow, h.fragment_tuple hrow]

theorem updatingFragment_masked {a b : Attributes} (hrow : m.row a = m.row b) :
    (q.updatingFragment a).toOption.map m.fragment =
      (q'.updatingFragment b).toOption.map m.fragment := by
  simp only [updatingFragment, Mask.isEmpty_of_row hrow]
  split
  · rfl
  · refine toOption_map_congr ?_
    refine map_bind_congr (table_of_masked h hq) fun t t' ht => ?_
    rw [dialect_of_masked hq]
    refine map_bind_congr (whereFragment_masked h hq q'.dialect) fun w w' hw =>
      congrArg Except.ok ?_
    simp only [Mask.fragment_append, Mask.fragment_text, Mask.fragment_joined, ht, hw,
      h.map_assignment hrow]

theorem deletionFragment_masked :
    q.deletionFragment.map m.fragment = q'.deletionFragment.map m.fragment := by
  refine map_bind_congr (table_of_masked h hq) fun t t' ht => ?_
  rw [dialect_of_masked hq]
  refine map_bind_congr (whereFragment_masked h hq q'.dialect) fun w w' hw => congrArg Except.ok ?_
  simp [ht, hw]

theorem batchInsertionFragment_masked {rows rows' : List Attributes}
    (hrows : rows.map m.row = rows'.map m.row) (huniform : uniform rows = uniform rows') :
    (q.batchInsertionFragment rows).toOption.map m.fragment =
      (q'.batchInsertionFragment rows').toOption.map m.fragment := by
  cases rows with
  | nil =>
    cases rows' with
    | nil => rfl
    | cons b rest' => cases hrows
  | cons a rest =>
    cases rows' with
    | nil => cases hrows
    | cons b rest' =>
      have hrow : m.row a = m.row b := (List.cons.inj hrows).1
      simp only [uniform] at huniform
      simp only [batchInsertionFragment, Mask.isEmpty_of_row hrow]
      split
      · rfl
      · cases hd : differingRow? a.names 0 (a :: rest) with
        | some i =>
          rw [hd] at huniform
          cases hd' : differingRow? b.names 0 (b :: rest') with
          | some i' => rfl
          | none => rw [hd'] at huniform; cases huniform
        | none =>
          rw [hd] at huniform
          cases hd' : differingRow? b.names 0 (b :: rest') with
          | some i' => rw [hd'] at huniform; cases huniform
          | none =>
            refine toOption_map_congr ?_
            refine map_bind_congr (table_of_masked h hq) fun t t' ht => congrArg Except.ok ?_
            simp only [Mask.fragment_append, Mask.fragment_text, Mask.fragment_joined,
              Mask.fragment_names, ht, Mask.names_of_row hrow, h.map_tuple hrows]

theorem upsertionFragment_masked {rows rows' : List Attributes}
    {uniqueBy uniqueBy' update update' : List String} (hrows : rows.map m.row = rows'.map m.row)
    (hunique : uniqueBy.map m.name = uniqueBy'.map m.name)
    (hupdate : update.map m.name = update'.map m.name) (huniform : uniform rows = uniform rows') :
    (q.upsertionFragment rows uniqueBy update).toOption.map m.fragment =
      (q'.upsertionFragment rows' uniqueBy' update').toOption.map m.fragment := by
  have hempty : uniqueBy.isEmpty = uniqueBy'.isEmpty := by
    rw [← List.isEmpty_map (f := m.name), hunique, List.isEmpty_map]
  simp only [upsertionFragment, hempty]
  split
  · rfl
  · refine toOption_bind_congr (batchInsertionFragment_masked h hq hrows huniform)
      fun f f' hf => congrArg some ?_
    simp [hf, hunique, hupdate, dialect_of_masked hq]

theorem countingFragment_masked :
    q.countingFragment.map m.fragment = q'.countingFragment.map m.fragment := by
  have hdialect : q.dialect = q'.dialect := dialect_of_masked hq
  obtain ⟨hgrouped, hunwindowed, haggregate⟩ :
      (q.distinct || q.isGrouped) = (q'.distinct || q'.isGrouped) ∧
      q.unwindowed.masked m = q'.unwindowed.masked m ∧
      (q.aggregateOf (.aggregate .count none false)).masked m =
        (q'.aggregateOf (.aggregate .count none false)).masked m := by
    obtain ⟨table, dialect, key, columns, distinct, joins, filters, scopes, groups, havings, orders,
      limit, offset⟩ := q
    obtain ⟨table', dialect', key', columns', distinct', joins', filters', scopes', groups',
      havings', orders', limit', offset'⟩ := q'
    obtain ⟨htable, rfl, hkey, hcolumns, rfl, hjoins, hfilters, hscopes, hgroups, hhavings, -⟩ :=
      mk.inj hq
    have hempty : groups.isEmpty = groups'.isEmpty := by
      rw [← List.isEmpty_map (f := m.path), hgroups, List.isEmpty_map]
    refine ⟨by simp only [isGrouped, hempty], ?_, ?_⟩
    · simp only [unwindowed, Query.masked, htable, hkey, hcolumns, hjoins, hfilters, hscopes,
        hgroups, hhavings]
    · simp only [aggregateOf, bare, withColumns, unwindowed, Query.masked, htable, hkey, hjoins,
        hfilters, hscopes, hgroups, hhavings]
  simp only [countingFragment, hgrouped, hdialect]
  split
  · refine map_bind_congr (compile_of_masked h hunwindowed q'.dialect) fun f f' hf =>
      congrArg Except.ok ?_
    simp [hf]
  · exact compile_of_masked h haggregate q'.dialect

/-- Both statements fail, or both have one text once it is masked. -/
theorem commandFragment_masked {c c' : Command} (hc : c.Alike m c')
    (huniform : c.uniform = c'.uniform) :
    (q.commandFragment c).toOption.map m.fragment =
      (q'.commandFragment c').toOption.map m.fragment := by
  cases hc with
  | read =>
    simp only [commandFragment, dialect_of_masked hq]
    exact toOption_map_congr (compile_of_masked h hq q'.dialect)
  | count => exact toOption_map_congr (countingFragment_masked h hq)
  | insert hrow => exact toOption_map_congr (insertionFragment_masked h hq hrow)
  | insertMany hrows => exact batchInsertionFragment_masked h hq hrows huniform
  | update hrow => exact updatingFragment_masked h hq hrow
  | delete => exact toOption_map_congr (deletionFragment_masked h hq)
  | upsert hrows hunique hupdate =>
    exact upsertionFragment_masked h hq hrows hunique hupdate huniform

end Masked

end Query

/-! ## Hidden values -/

namespace Mask

/-- Hides every value but the keyword, and of a path into JSON all but whether it can be read. -/
def values : Mask where
  name := id
  value := fun v => if v.isDefault then .default else .bool true
  path := id
  table := id
  number := fun _ => 0
  jsonPath := fun path => if (JsonPath.read path).isOk then "a" else path

theorem fair_values : values.Fair where
  name_name := fun _ => rfl
  value_value := fun v => by cases v <;> rfl
  isDefault_value := fun v => by cases v <;> rfl
  isNull_of_value := fun v => by cases v <;> exact fun h => nomatch h
  value_number := fun _ => rfl
  fragment_path := fun _ => rfl
  fragment_table := fun _ => rfl
  value_jsonPath := fun d path => by
    have hbound : ∀ steps : JsonPath, values.value (steps.bound d) = .bool true := by
      intro steps
      cases d <;> rfl
    have hread : JsonPath.read "a" = .ok [.key "a"] := rfl
    show Except.map _ (JsonPath.read (if (JsonPath.read path).isOk then "a" else path)) = _
    cases hpath : JsonPath.read path with
    | error e =>
      have hkept : (if (Except.error e : Result JsonPath).isOk then "a" else path) = path := rfl
      rw [hkept, hpath]
    | ok steps =>
      have hreplaced : (if (Except.ok steps : Result JsonPath).isOk then "a" else path) = "a" := rfl
      rw [hreplaced, hread]
      exact congrArg Except.ok ((hbound _).trans (hbound _).symm)

/-- A text is written alike whatever its values are, and keeps their number. -/
theorem writeFrom_values (d : Dialect) (bound : Nat) (f : Fragment) :
    (values.fragment f).writeFrom d bound = f.writeFrom d bound ∧
      (values.fragment f).values.length = f.values.length := by
  induction f generalizing bound with
  | nil => exact ⟨rfl, rfl⟩
  | cons p rest ih =>
    cases p with
    | text sql =>
      exact ⟨congrArg (sql.toList ++ ·) (ih bound).1, (ih bound).2⟩
    | name identifier =>
      exact ⟨congrArg (d.quoteChars identifier.toList ++ ·) (ih bound).1, (ih bound).2⟩
    | hole v =>
      exact ⟨congrArg (d.placeholder (bound + 1) ++ ·) (ih (bound + 1)).1,
        congrArg (· + 1) (ih (bound + 1)).2⟩

theorem eq_of_fragment_values {d : Dialect} {f g : Fragment}
    (h : values.fragment f = values.fragment g) :
    f.write d 0 = g.write d 0 ∧ f.values.length = g.values.length := by
  obtain ⟨hf, hf'⟩ := writeFrom_values d 0 f
  obtain ⟨hg, hg'⟩ := writeFrom_values d 0 g
  rw [h] at hf hf'
  exact ⟨congrArg String.ofList (hf.symm.trans hg), hf'.symm.trans hg'⟩

end Mask

namespace Query

variable {rows rows' : List Attributes}

theorem differingRow?_congr (columns : List String) (start : Nat)
    (h : rows.map NameMap.names = rows'.map NameMap.names) :
    differingRow? columns start rows = differingRow? columns start rows' := by
  induction rows generalizing rows' start with
  | nil =>
    cases rows' with
    | nil => rfl
    | cons b rest' => cases h
  | cons a rest ih =>
    cases rows' with
    | nil => cases h
    | cons b rest' =>
      obtain ⟨hnames, hrest⟩ := List.cons.inj h
      simp only [differingRow?, hnames, ih (start + 1) hrest]

theorem uniform_congr (h : rows.map NameMap.names = rows'.map NameMap.names) :
    uniform rows = uniform rows' := by
  cases rows with
  | nil =>
    cases rows' with
    | nil => rfl
    | cons b rest' => cases h
  | cons a rest =>
    cases rows' with
    | nil => cases h
    | cons b rest' =>
      have hnames : a.names = b.names := (List.cons.inj h).1
      simp only [uniform, hnames, differingRow?_congr b.names 0 h]

theorem uniform_of_values (h : rows.map Mask.values.row = rows'.map Mask.values.row) :
    uniform rows = uniform rows' := by
  have hmasked : ∀ rows : List Attributes,
      (rows.map Mask.values.row).map (List.map Prod.fst) = rows.map NameMap.names := by
    intro rows
    rw [List.map_map]
    refine List.map_congr_left fun row _ => ?_
    simp only [Function.comp_apply, Mask.row, List.map_map]
    rfl
  apply uniform_congr
  rw [← hmasked, ← hmasked, h]

end Query

theorem Command.uniform_of_values {c c' : Command} (h : c.Alike .values c') :
    c.uniform = c'.uniform := by
  cases h with
  | insertMany hrows => exact Query.uniform_of_values hrows
  | upsert hrows => exact Query.uniform_of_values hrows
  | _ => rfl

/-- Of two commands of two queries that differ only in values, either none has a statement or both
have one of the same text, with equally many values. -/
theorem Query.command_parametric (q q' : Query) (c c' : Command)
    (hq : q.masked .values = q'.masked .values) (hc : c.Alike .values c') :
    (∃ fault fault', q.command c = .error fault ∧ q'.command c' = .error fault') ∨
      ∃ st st', q.command c = .ok st ∧ q'.command c' = .ok st' ∧
        st.sql = st'.sql ∧ st.values.length = st'.values.length := by
  have hfragment := commandFragment_masked Mask.fair_values hq hc (Command.uniform_of_values hc)
  rw [command_eq, command_eq, dialect_of_masked hq]
  cases hf : q.commandFragment c with
  | error fault =>
    rw [hf] at hfragment
    cases hf' : q'.commandFragment c' with
    | error fault' => exact .inl ⟨fault, fault', rfl, rfl⟩
    | ok f' => rw [hf'] at hfragment; cases hfragment
  | ok f =>
    rw [hf] at hfragment
    cases hf' : q'.commandFragment c' with
    | error fault' => rw [hf'] at hfragment; cases hfragment
    | ok f' =>
      rw [hf'] at hfragment
      exact .inr ⟨_, _, rfl, rfl, Mask.eq_of_fragment_values (Option.some.inj hfragment)⟩

/-- The stores that sell a kind of item, and what each of its rivals earns there. -/
def storeReport (rate kind : Value) (tags : String) (digits : Int64) : Query :=
  (((Query.on "stores" .mariadb).withColumns
      [.case [⟨.compare (.literal rate) .lt (.column "share"), .json "info" tags⟩] none,
        .window (.aggregate .sum (some (.substring (.column "code") digits none)) false)
          [.column "city"] [⟨.literal rate, some .desc⟩]]).filter
    (.existsRow ((Query.on "items" .postgres).filterEq "kind" kind) false)).filter
      (.isIn (.subquery ((Query.on "rivals" .sqlite).filter (.marked "fee < ?" [rate])))
        [kind, .default] true)

theorem Query.command_parametric_storeReport :
    ∃ q q' : Query,
      q = storeReport (.int32 3) (.text "book'); --") "tags[0]" 2 ∧
      q' = storeReport .null (.bool false) "owner" (-1) ∧ (q.command .read).isOk = true ∧
      q.masked .values = q'.masked .values ∧ Command.Alike .values .read .read ∧
      ((∃ fault fault', q.command .read = .error fault ∧ q'.command .read = .error fault') ∨
        ∃ st st', q.command .read = .ok st ∧ q'.command .read = .ok st' ∧
          st.sql = st'.sql ∧ st.values.length = st'.values.length) :=
  ⟨_, _, rfl, rfl, rfl, rfl, .read, command_parametric _ _ .read .read rfl .read⟩

end RecordMapper
