import RecordMapper.Proofs.Query.TableCommands
import RecordMapper.Proofs.Statement.Slots

/-!
Several rows in one statement.

* `Rectangular` rows have the columns of the first one, which has some.
* `Dialect.tuples` is what is written for the values of rows, one row after another.
* `Query.AddsRows` describes a statement that adds rows: its columns, a tuple for each row, and the
  parameters in the order of the rows and, within a row, of the columns.
* `batchInsertion_exactly_rectangular`: rows are compiled to such a statement exactly if they are
  rectangular. The insertion of one row is that of several with one, and an upsert is the insertion
  with more text behind it.
-/
namespace RecordMapper

set_option autoImplicit false

/-- The rows have the columns of the first one, which has some. -/
def Rectangular (rows : List Attributes) : Prop :=
  ∃ first, rows.head? = some first ∧ first.isEmpty = false ∧
    ∀ row ∈ rows, ∀ name, row.contains name = first.contains name

theorem rectangular_iff {rows : List Attributes} :
    Rectangular rows ↔
      ∃ columns, columns ≠ [] ∧ rows ≠ [] ∧ ∀ row ∈ rows, row.names = columns := by
  unfold Rectangular
  constructor
  · rintro ⟨first, hfirst, hne, hrows⟩
    obtain ⟨rest, rfl⟩ := List.head?_eq_some_iff.mp hfirst
    exact ⟨first.names, NameMap.names_ne_nil.mpr hne, List.cons_ne_nil first rest,
      fun row hrow => NameMap.names_eq_iff.mpr (hrows row hrow)⟩
  · rintro ⟨columns, hcolumns, hrows, hnames⟩
    obtain ⟨first, rest, rfl⟩ := List.exists_cons_of_ne_nil hrows
    have hfirst : first.names = columns := hnames first (List.mem_cons_self ..)
    refine ⟨first, rfl, NameMap.names_ne_nil.mp (hfirst ▸ hcolumns), fun row hrow => ?_⟩
    exact NameMap.names_eq_iff.mp ((hnames row hrow).trans hfirst.symm)

/-! ## Tuples -/

/-- What is written for the values of rows. -/
def Dialect.tuples (d : Dialect) : Nat → List (List Value) → List (List String)
  | _, [] => []
  | bound, vs :: rest => d.slots bound vs :: d.tuples (bound + (boundOf vs).length) rest

namespace Dialect

variable (d : Dialect) (bound : Nat)

theorem length_tuples (rows : List (List Value)) : (d.tuples bound rows).length = rows.length := by
  induction rows generalizing bound with
  | nil => rfl
  | cons vs rest ih => rw [tuples, List.length_cons, List.length_cons, ih]

/-- A row is written behind the bound values of the rows in front of it. -/
theorem getElem?_tuples (rows : List (List Value)) (i : Nat) :
    (d.tuples bound rows)[i]? =
      rows[i]?.map (d.slots (bound + (boundOf (rows.take i).flatten).length)) := by
  induction rows generalizing bound i with
  | nil => rfl
  | cons vs rest ih =>
    cases i with
    | zero => rfl
    | succ i =>
      rw [tuples, List.getElem?_cons_succ, List.getElem?_cons_succ, ih, List.take_succ_cons,
        List.flatten_cons, boundOf_append, List.length_append, Nat.add_assoc]

theorem length_of_mem_tuples {rows : List (List Value)} {width : Nat}
    (h : ∀ vs ∈ rows, vs.length = width) {texts : List String} (ht : texts ∈ d.tuples bound rows) :
    texts.length = width := by
  obtain ⟨i, hi⟩ := List.mem_iff_getElem?.mp ht
  rw [getElem?_tuples] at hi
  obtain ⟨vs, hvs, rfl⟩ := Option.map_eq_some_iff.mp hi
  rw [length_slots]
  exact h vs (List.mem_of_getElem? hvs)

end Dialect

/-- A tuple of texts as it stands in a statement. -/
def tupleText (texts : List String) : String := "(" ++ Text.joined ", " texts ++ ")"

namespace Query

open Fragment

section Written

variable (d : Dialect) (bound : Nat)

theorem values_tuple (row : Attributes) : (tuple row).values = boundOf row.values := by
  simp [tuple, parens, flatMap_values_bind]

theorem write_tuple (row : Attributes) :
    (tuple row).write d bound = tupleText (d.slots bound row.values) := by
  simp [tuple, parens, writeAll_bind, tupleText, String.append_assoc]

theorem flatMap_values_tuple (rows : List Attributes) :
    (rows.map tuple).flatMap values = boundOf (rows.map NameMap.values).flatten := by
  induction rows with
  | nil => rfl
  | cons row rest ih =>
    rw [List.map_cons, List.flatMap_cons, ih, values_tuple, List.map_cons, List.flatten_cons,
      boundOf_append]

theorem writeAll_tuple (rows : List Attributes) :
    writeAll d bound (rows.map tuple) =
      (d.tuples bound (rows.map NameMap.values)).map tupleText := by
  induction rows generalizing bound with
  | nil => rfl
  | cons row rest ih =>
    rw [List.map_cons, writeAll, ih, write_tuple, values_tuple, List.map_cons, Dialect.tuples,
      List.map_cons]

theorem values_collision (uniqueBy update : List String) :
    (collision d uniqueBy update).values = [] := by
  have hjoined : ∀ part : String → Fragment, (∀ c, (part c).values = []) → ∀ columns : List String,
      (joined ", " (columns.map part)).values = [] := fun part hpart columns => by
    rw [values_joined, flatMap_values_map part hpart]
  unfold collision
  split
  · cases update with
    | nil => exact hjoined _ (fun _ => rfl) (uniqueBy.take 1)
    | cons c rest => exact hjoined _ (fun _ => rfl) (c :: rest)
  · rw [List.cons_append, values, values_append, values_names]
    · cases update with
      | nil => rfl
      | cons c rest => exact hjoined _ (fun _ => rfl) (c :: rest)
    · exact nofun

end Written

/-! ## Statements that add rows -/

/-- The values of the rows under some columns, one row after another. -/
def cells (columns : List String) (rows : List Attributes) : List Value :=
  rows.flatMap fun row => columns.filterMap row.get?

/-- How many values are bound in front of a place in the rows `front` and `row`. -/
def boundBefore (columns : List String) (front : List Attributes) (row : Attributes) (j : Nat) :
    Nat :=
  (boundOf (cells columns front ++ (columns.take j).filterMap row.get?)).length

/-- The statement adds these rows: `columns` are their names, and each row has a tuple of texts. -/
structure AddsRows (q : Query) (rows : List Attributes) (columns : List String)
    (tuples : List (List String)) (st : Statement) : Prop where
  names : ∀ row ∈ rows, ∀ name, name ∈ columns ↔ row.contains name = true
  nodup : columns.Nodup
  sql : st.sql = "INSERT INTO " ++ q.dialect.quotePath q.table ++ " (" ++
    Text.joined ", " (columns.map q.dialect.quoteName) ++ ") VALUES " ++
      Text.joined ", " (tuples.map tupleText)
  height : tuples.length = rows.length
  width : ∀ texts ∈ tuples, texts.length = columns.length
  parameters : st.values = boundOf (cells columns rows)
  /-- The text under a column is `DEFAULT`, or the placeholder of the parameter that is the value of
  the row. -/
  entry : ∀ i j row column, rows[i]? = some row → columns[j]? = some column →
    ∃ texts v, tuples[i]? = some texts ∧ row.get? column = some v ∧
      texts[j]? = some (q.dialect.slot (boundBefore columns (rows.take i) row j) v) ∧
      (v.isDefault = false → st.values[boundBefore columns (rows.take i) row j]? = some v)

section Rows

variable {columns : List String} {rows : List Attributes}
  (hnames : ∀ row ∈ rows, row.names = columns)

include hnames

theorem cells_eq : cells columns rows = (rows.map NameMap.values).flatten := by
  unfold cells
  rw [List.flatMap_def]
  refine congrArg List.flatten (List.map_congr_left fun row hrow => ?_)
  rw [← hnames row hrow]
  exact row.filterMap_names

/-- The parameter of a value has the number of the bound values in front of it. -/
theorem getElem?_boundOf_cells {i j : Nat} {row : Attributes} {column : String} {v : Value}
    (hrow : rows[i]? = some row) (hcolumn : columns[j]? = some column)
    (hget : row.get? column = some v) (hv : v.isDefault = false) :
    (boundOf (cells columns rows))[boundBefore columns (rows.take i) row j]? = some v := by
  have hsame : row.names = columns := hnames row (List.mem_of_getElem? hrow)
  subst hsame
  obtain ⟨hi, hat⟩ := List.getElem?_eq_some_iff.mp hrow
  have hsplit : cells row.names rows =
      cells row.names (rows.take i) ++ (row.values ++ cells row.names (rows.drop (i + 1))) := by
    have hrest : rows = rows.take i ++ row :: rows.drop (i + 1) := by
      rw [← hat, ← List.drop_eq_getElem_cons hi, List.take_append_drop]
    have hcells := congrArg (cells row.names) hrest
    unfold cells at hcells ⊢
    rwa [List.flatMap_append, List.flatMap_cons, row.filterMap_names] at hcells
  have hvalue : row.values[j]? = some v := (NameMap.getElem?_values hcolumn).trans hget
  have hplace := getElem?_boundOf hvalue hv
  have hinside : (boundOf (row.values.take j)).length < (boundOf row.values).length :=
    (List.getElem?_eq_some_iff.mp hplace).1
  unfold boundBefore
  rw [hsplit, row.filterMap_take_names, boundOf_append, boundOf_append, boundOf_append,
    List.length_append, List.getElem?_append_right (Nat.le_add_right ..), Nat.add_sub_cancel_left,
    List.getElem?_append_left hinside]
  exact hplace

/-- The text under a column is written behind the bound values in front of it. -/
theorem exists_entry (d : Dialect) {i j : Nat} {row : Attributes} {column : String}
    (hrow : rows[i]? = some row) (hcolumn : columns[j]? = some column) :
    ∃ texts v, (d.tuples 0 (rows.map NameMap.values))[i]? = some texts ∧
      row.get? column = some v ∧
      texts[j]? = some (d.slot (boundBefore columns (rows.take i) row j) v) := by
  have hfront : ((rows.map NameMap.values).take i).flatten = cells columns (rows.take i) := by
    rw [← List.map_take, cells_eq fun row hrow => hnames row (List.mem_of_mem_take hrow)]
  have hsame : row.names = columns := hnames row (List.mem_of_getElem? hrow)
  subst hsame
  obtain ⟨v, hv⟩ := NameMap.mem_names_iff.mp (List.mem_of_getElem? hcolumn)
  have hvalue : row.values[j]? = some v := (NameMap.getElem?_values hcolumn).trans hv
  refine ⟨d.slots (0 + (boundOf (cells row.names (rows.take i))).length) row.values, v, ?_, hv, ?_⟩
  · rw [Dialect.getElem?_tuples, List.getElem?_map, hrow, hfront]
    rfl
  · rw [Dialect.getElem?_slots, hvalue, boundBefore, boundOf_append, List.length_append,
      row.filterMap_take_names, Nat.zero_add]
    rfl

theorem addsRows_statement {q : Query} (hrows : rows ≠ []) :
    AddsRows q rows columns (q.dialect.tuples 0 (rows.map NameMap.values))
      ((rowsFragment q.table columns rows).statement q.dialect 0) := by
  have hparameters : (rowsFragment q.table columns rows).values = boundOf (cells columns rows) := by
    rw [cells_eq hnames, ← flatMap_values_tuple]
    simp [rowsFragment]
  constructor
  case names => exact fun row hrow name => by rw [← hnames row hrow, NameMap.contains_iff]
  case nodup =>
    obtain ⟨first, rest, rfl⟩ := List.exists_cons_of_ne_nil hrows
    rw [← hnames first (List.mem_cons_self ..)]
    exact first.nodup_names
  case sql =>
    simp [Fragment.statement, rowsFragment, writeAll_tuple,
      String.append_assoc]
  case height => rw [Dialect.length_tuples, List.length_map]
  case width =>
    refine fun texts ht => Dialect.length_of_mem_tuples _ _ (fun vs hvs => ?_) ht
    obtain ⟨row, hrow, rfl⟩ := List.mem_map.mp hvs
    rw [← hnames row hrow, NameMap.names, NameMap.values, List.length_map, List.length_map]
  case parameters => exact hparameters
  case entry =>
    intro i j row column hrow hcolumn
    obtain ⟨texts, v, htexts, hv, hslot⟩ := exists_entry hnames q.dialect hrow hcolumn
    refine ⟨texts, v, htexts, hv, hslot, fun hbound => ?_⟩
    show (rowsFragment q.table columns rows).values[_]? = some v
    rw [hparameters]
    exact getElem?_boundOf_cells hnames hrow hcolumn hv hbound

end Rows

/-! ## Commands -/

theorem batchInsertion_eq_ok {q : Query} {rows : List Attributes} {st : Statement} :
    q.batchInsertion rows = .ok st ↔
      ∃ columns, columns ≠ [] ∧ rows ≠ [] ∧ (∀ row ∈ rows, row.names = columns) ∧
        (Text.trim q.table).isEmpty = false ∧
        (rowsFragment q.table columns rows).statement q.dialect 0 = st := by
  unfold batchInsertion
  constructor
  · intro h
    obtain ⟨f, hf, heq⟩ := ok_of_map h
    obtain ⟨columns, hcolumns, hrows, hnames, htable, rfl⟩ := batchInsertionFragment_eq_ok.mp hf
    exact ⟨columns, hcolumns, hrows, hnames, htable, heq⟩
  · rintro ⟨columns, hcolumns, hrows, hnames, htable, rfl⟩
    rw [batchInsertionFragment_eq_ok.mpr ⟨columns, hcolumns, hrows, hnames, htable, rfl⟩]
    rfl

theorem isCompilation_of_batchInsertion {q : Query} {rows : List Attributes} {fault : Fault}
    (h : q.batchInsertion rows = .error fault) : fault.isCompilation = true := by
  have hfragment : q.batchInsertionFragment rows = .error fault := error_of_map h
  unfold batchInsertionFragment at hfragment
  split at hfragment
  · cases hfragment
    rfl
  · split at hfragment
    · cases hfragment
      rfl
    · split at hfragment
      · cases hfragment
        rfl
      · cases ht : tableFragment q.table with
        | error e =>
          rw [ht] at hfragment
          cases hfragment
          exact isCompilation_of_tableFragment ht
        | ok t =>
          rw [ht] at hfragment
          cases hfragment

theorem insertion_single {row : Attributes} (h : row.isEmpty = false) (q : Query) :
    q.insertion row = q.batchInsertion [row] := by
  unfold insertion batchInsertion insertionFragment batchInsertionFragment
  simp only [h, differingRow?, if_true, Bool.false_eq_true, if_false]
  rfl

/-- What becomes of a row that collides is written behind the rows, and has no values. -/
theorem upsertion_eq {uniqueBy : List String} (h : uniqueBy ≠ []) (q : Query)
    (rows : List Attributes) (update : List String) :
    q.upsertion rows uniqueBy update = (q.batchInsertion rows).map fun st =>
      ⟨st.sql ++ (collision q.dialect uniqueBy update).write q.dialect 0, st.values⟩ := by
  have hunique : uniqueBy.isEmpty = false := List.isEmpty_eq_false_iff.mpr h
  have hcollision := values_collision q.dialect uniqueBy update
  unfold upsertion upsertionFragment batchInsertion
  rw [hunique]
  cases q.batchInsertionFragment rows with
  | error fault => rfl
  | ok f =>
    show Except.ok (Fragment.statement q.dialect 0 (f ++ collision q.dialect uniqueBy update)) = _
    rw [Fragment.statement, write_append, values_append, hcollision, List.append_nil,
      write_of_values hcollision]
    rfl

/-- Rows are compiled to a statement that adds them exactly if they are rectangular and the table has
a name. One row that is not empty is the same as several with one, and an upsert is the insertion of
its rows with more text behind it. -/
theorem batchInsertion_exactly_rectangular (q : Query) (rows : List Attributes) :
    ((∃ st, q.batchInsertion rows = .ok st) ↔
      Rectangular rows ∧ (Text.trim q.table).isEmpty = false) ∧
    (∀ fault, q.batchInsertion rows = .error fault → fault.isCompilation = true) ∧
    (∀ st, q.batchInsertion rows = .ok st → ∃ columns tuples, AddsRows q rows columns tuples st) ∧
    (∀ row : Attributes, row.isEmpty = false → q.insertion row = q.batchInsertion [row]) ∧
    (∀ uniqueBy update, uniqueBy ≠ [] → ∃ behind, q.upsertion rows uniqueBy update =
      (q.batchInsertion rows).map fun st => ⟨st.sql ++ behind, st.values⟩) := by
  refine ⟨?_, fun fault h => isCompilation_of_batchInsertion h, fun st h => ?_,
    fun row hrow => insertion_single hrow q,
    fun uniqueBy update h => ⟨_, upsertion_eq h q rows update⟩⟩
  · rw [rectangular_iff]
    constructor
    · rintro ⟨st, h⟩
      obtain ⟨columns, hcolumns, hrows, hnames, htable, -⟩ := batchInsertion_eq_ok.mp h
      exact ⟨⟨columns, hcolumns, hrows, hnames⟩, htable⟩
    · rintro ⟨⟨columns, hcolumns, hrows, hnames⟩, htable⟩
      exact ⟨_, batchInsertion_eq_ok.mpr ⟨columns, hcolumns, hrows, hnames, htable, rfl⟩⟩
  · obtain ⟨columns, -, hrows, hnames, -, rfl⟩ := batchInsertion_eq_ok.mp h
    exact ⟨columns, _, addsRows_statement hnames hrows⟩

def items : List Attributes :=
  [.ofList [("a", .int32 1), ("b", .default)], .ofList [("b", .int32 3), ("a", .int32 2)]]

/-- A value that is left to its default takes no number. -/
theorem batchInsertion_exactly_rectangular_items :
    Rectangular items ∧ ¬ Rectangular (items ++ [.empty]) ∧
      ∃ columns tuples, AddsRows (on "items" .postgres) items columns tuples
        ⟨"INSERT INTO \"items\" (\"a\", \"b\") VALUES ($1, DEFAULT), ($2, $3)",
          [.int32 1, .int32 2, .int32 3]⟩ := by
  have hitems := batchInsertion_exactly_rectangular (on "items" .postgres) items
  have hragged := batchInsertion_exactly_rectangular (on "items" .postgres) (items ++ [.empty])
  have hrun : (on "items" .postgres).batchInsertion items = .ok
      ⟨"INSERT INTO \"items\" (\"a\", \"b\") VALUES ($1, DEFAULT), ($2, $3)",
        [.int32 1, .int32 2, .int32 3]⟩ := rfl
  have hrefused : (on "items" .postgres).batchInsertion (items ++ [.empty]) =
      .error (.cannotCompile (.batchRowDiffers 2 "items")) := rfl
  refine ⟨(hitems.1.mp ⟨_, hrun⟩).1, fun hrows => ?_, hitems.2.2.1 _ hrun⟩
  obtain ⟨st, hst⟩ := hragged.1.mpr ⟨hrows, by decide⟩
  rw [hrefused] at hst
  cases hst

end Query

end RecordMapper
