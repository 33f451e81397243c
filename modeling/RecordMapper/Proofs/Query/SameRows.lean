import RecordMapper.Proofs.Query.Compiling
import RecordMapper.Proofs.Query.Placeholders
import RecordMapper.Proofs.Statement.Written
import RecordMapper.Query.Write

/-!
A query updates and deletes the rows that it reads.

* `whereText` and `whereValues` are what a statement has of its condition. The text depends on the
  statement only through the number of values that are bound in front of it.
* `Statement.Limited` says that a statement is a front, the condition and a rest.
* `Query.scan` is the part of a query that is written in front of its condition, and
  `Query.unconditioned` is all but the condition.
-/
namespace RecordMapper

set_option autoImplicit false
set_option maxRecDepth 100000

/-! ## A condition inside a statement -/

/-- The condition of a statement behind its keyword, where `bound` values stand in front. -/
def whereText (d : Dialect) (bound : Nat) : Option Fragment → String
  | some f => " WHERE " ++ f.write d bound
  | none => ""

def whereValues : Option Fragment → List Value
  | some f => f.values
  | none => []

/-- The statement consists of `front`, the condition and `rest`. -/
structure Statement.Limited (s : Statement) (d : Dialect) (condition : Option Fragment)
    (front rest : Fragment) : Prop where
  sql : s.sql = front.write d 0 ++ whereText d front.values.length condition ++
    rest.write d (front.values.length + (whereValues condition).length)
  values : s.values = front.values ++ whereValues condition ++ rest.values

theorem write_clause (d : Dialect) (bound : Nat) (condition : Option Fragment) :
    Fragment.write d bound (clause " WHERE " condition) = whereText d bound condition := by
  cases condition with
  | none => rfl
  | some f =>
    have hkeyword := Fragment.write_append d bound (Fragment.text " WHERE ") f
    exact hkeyword

theorem values_clause (keyword : String) (condition : Option Fragment) :
    Fragment.values (clause keyword condition) = whereValues condition := by
  cases condition <;> rfl

theorem limited_statement (d : Dialect) (condition : Option Fragment) (front rest : Fragment) :
    ((front ++ clause " WHERE " condition ++ rest).statement d 0).Limited d condition front
      rest where
  sql := by
    show Fragment.write d 0 (front ++ clause " WHERE " condition ++ rest) = _
    rw [Fragment.write_append, Fragment.write_append, write_clause, Fragment.values_append,
      values_clause, List.length_append, Nat.zero_add, Nat.zero_add]
  values := by
    show Fragment.values (front ++ clause " WHERE " condition ++ rest) = _
    rw [Fragment.values_append, Fragment.values_append, values_clause]

/-! ## Parts of a query -/

namespace Query

/-- The rows of the joined tables with the columns that are read, without a condition. -/
def scan (q : Query) : Query :=
  { q.unwindowed with filters := [], scopes := [], groups := [], havings := [] }

def unconditioned (q : Query) : Query := { q with filters := [], scopes := [] }

/-- The fragment of a query in three parts. Neither the first nor the last depends on the
condition. -/
theorem compile_parts {q : Query} {d : Dialect} {f : Fragment} (h : q.compile d = .ok f) :
    ∃ front condition rest, q.scan.compile d = .ok front ∧ q.condition d = .ok condition ∧
      q.unconditioned.compile d = .ok (front ++ rest) ∧
      f = front ++ clause " WHERE " condition ++ rest := by
  obtain ⟨table, dialect, key, columns, distinct, joins, filters, scopes, groups, havings, orders,
    limit, offset⟩ := q
  rw [Query.compile] at h
  obtain ⟨cs, hcs, h⟩ := ok_of_bind h
  obtain ⟨t, ht, h⟩ := ok_of_bind h
  obtain ⟨chain, hchain, h⟩ := ok_of_bind h
  obtain ⟨ss, hss, h⟩ := ok_of_bind h
  obtain ⟨having', hhaving, h⟩ := ok_of_bind h
  obtain ⟨os, hos, h⟩ := ok_of_bind h
  have hf := (Except.ok.inj h).symm
  clear h
  let front : Fragment := .text (if distinct then "SELECT DISTINCT " else "SELECT ") ::
    (if columns.isEmpty then Fragment.text "*" else Fragment.joined ", " cs) ++
      .text " FROM " :: t ++ joins.flatMap (Join.compile d)
  let rest : Fragment := clause " GROUP BY "
      (if groups.isEmpty then none else some (Fragment.joined ", " (groups.map Fragment.path))) ++
    clause " HAVING " (conjunction having' false []) ++
    clause " ORDER BY " (if orders.isEmpty then none else some (Fragment.joined ", " os)) ++
    window d limit offset
  refine ⟨front, conjunction chain (!scopes.isEmpty) ss, rest, ?_, ?_, ?_, ?_⟩
  · rw [scan, unwindowed, Query.compile, hcs, ht]
    show Except.ok (front ++ [] ++ [] ++ [] ++ [] ++ []) = Except.ok front
    simp only [List.append_nil]
  · rw [condition, hchain, hss]
    rfl
  · rw [unconditioned, Query.compile, hcs, ht, hhaving, hos]
    show Except.ok (front ++ [] ++ _ ++ _ ++ _ ++ _) = Except.ok (front ++ rest)
    simp only [rest, List.append_assoc, List.nil_append]
  · rw [hf]
    simp only [front, rest, List.append_assoc]

/-- The values bound in front of the condition are those of the columns. -/
theorem scan_values {q : Query} {d : Dialect} {front : Fragment}
    (h : q.scan.compile d = .ok front) :
    front.values = Supplied.params (suppliedExprs d q.columns) := by
  have hread := q.scan.compile_reads d h
  have hsupplied : q.scan.supplied d = suppliedExprs d q.columns := by
    obtain ⟨_, _, _, columns, _⟩ := q
    simp only [scan, unwindowed, Query.supplied, suppliedLinks, suppliedConditions,
      suppliedSortKeys, List.append_nil]
  rw [hsupplied] at hread
  exact (hread.spells d 0).params_eq

/-- What an UPDATE has in front of its condition. -/
def assigning (q : Query) (assignments : Attributes) : Fragment :=
  .text "UPDATE " :: Fragment.path q.table ++ .text " SET " ::
    Fragment.joined ", " (assignments.entries.map fun e => assignment e.1 e.2)

/-- What a DELETE has in front of its condition. -/
def removing (q : Query) : Fragment := .text "DELETE FROM " :: Fragment.path q.table

theorem assigning_values (q : Query) (assignments : Attributes) :
    (q.assigning assignments).values = assignments.values.filter fun v => !v.isDefault := by
  have hsets := (assignments_reads assignments.entries).joined ", " rfl
  have hread : Fragment.Reads (Supplied.row assignments.values) (q.assigning assignments) :=
    ((Fragment.reads_path q.table).text "UPDATE " rfl).append (hsets.text " SET " rfl)
  have hvalues := (hread.spells q.dialect 0).params_eq
  have hrow : (Supplied.row assignments.values).filterMap Supplied.value? = assignments.values := by
    unfold Supplied.row
    rw [List.filterMap_map]
    exact List.filterMap_some
  rw [hvalues, Supplied.params, hrow]

theorem removing_values (q : Query) : q.removing.values = [] :=
  (((Fragment.reads_path q.table).text "DELETE FROM " rfl).spells q.dialect 0).params_eq

theorem table_of_compile {q : Query} {d : Dialect} {f : Fragment} (h : q.compile d = .ok f) :
    tableFragment q.table = .ok (Fragment.path q.table) := by
  have htable : ∃ t, tableFragment q.table = .ok t := by
    obtain ⟨table, dialect, key, columns, distinct, joins, filters, scopes, groups, havings,
      orders, limit, offset⟩ := q
    rw [Query.compile] at h
    obtain ⟨cs, -, h⟩ := ok_of_bind h
    obtain ⟨t, ht, -⟩ := ok_of_bind h
    exact ⟨t, ht⟩
  have hname := exists_tableFragment.mp htable
  unfold tableFragment
  rw [hname]
  rfl

/-! ## The three statements -/

theorem updatingFragment_of_condition {q : Query} {assignments : Attributes}
    {condition : Option Fragment} (ha : assignments.isEmpty = false)
    (ht : tableFragment q.table = .ok (Fragment.path q.table))
    (hc : q.condition q.dialect = .ok condition) :
    q.updatingFragment assignments =
      .ok (q.assigning assignments ++ clause " WHERE " condition ++ []) := by
  rw [updatingFragment, ha, ht, whereFragment, hc, List.append_nil]
  rfl

theorem deletionFragment_of_condition {q : Query} {condition : Option Fragment}
    (ht : tableFragment q.table = .ok (Fragment.path q.table))
    (hc : q.condition q.dialect = .ok condition) :
    q.deletionFragment = .ok (q.removing ++ clause " WHERE " condition ++ []) := by
  rw [deletionFragment, ht, whereFragment, hc, List.append_nil]
  rfl

/-- The SELECT, the UPDATE and the DELETE of a query with one condition. -/
structure OneCondition (q : Query) (assignments : Attributes) (read update delete : Statement)
    (condition : Option Fragment) (front rest : Fragment) : Prop where
  shared : q.condition q.dialect = .ok condition
  scan : q.scan.compile q.dialect = .ok front
  unconditioned : q.unconditioned.compile q.dialect = .ok (front ++ rest)
  read : read.Limited q.dialect condition front rest
  update : update.Limited q.dialect condition (q.assigning assignments) []
  delete : delete.Limited q.dialect condition q.removing []
  readFront : front.values = Supplied.params (suppliedExprs q.dialect q.columns)
  updateFront : (q.assigning assignments).values = assignments.values.filter fun v => !v.isDefault
  deleteFront : q.removing.values = []

/-- If a query has a SELECT, then it has a DELETE, and an UPDATE for any assignments, with the same
condition. Its holes are numbered on behind the values of the columns, from the first number on, and
behind the assignments that are not left to their defaults. -/
theorem writes_reach_read_rows (q : Query) (assignments : Attributes) (read : Statement)
    (ha : assignments.isEmpty = false) (hread : q.statement = .ok read) :
    ∃ update delete condition front rest,
      q.updating assignments = .ok update ∧ q.deletion = .ok delete ∧
      q.OneCondition assignments read update delete condition front rest := by
  obtain ⟨f, hf, rfl⟩ := ok_of_map hread
  obtain ⟨front, condition, rest, hscan, hcondition, hplain, rfl⟩ := compile_parts hf
  have ht := table_of_compile hf
  have hupdate := updatingFragment_of_condition ha ht hcondition
  have hdelete := deletionFragment_of_condition ht hcondition
  refine ⟨_, _, condition, front, rest, congrArg (Except.map _) hupdate,
    congrArg (Except.map _) hdelete, ?_⟩
  exact {
    shared := hcondition
    scan := hscan
    unconditioned := hplain
    read := limited_statement q.dialect condition front rest
    update := limited_statement q.dialect condition (q.assigning assignments) []
    delete := limited_statement q.dialect condition q.removing []
    readFront := scan_values hscan
    updateFront := q.assigning_values assignments
    deleteFront := q.removing_values }

/-- Open orders and those with a dear item, in one account, with their price in another currency. -/
def dearOrders : Query :=
  (((((on "orders" .postgres).withColumns
    [.named (.arithmetic (.column "price") .mul (.literal (.int32 3))) "foreign_price"]).filter
    (.compare (.column "state") .eq (.text "open"))).orFilter
    (.existsRow ((on "items" .postgres).filter (.compare (.column "price") .gt (.int32 100)))
      false)).scopeEq "account" (.int32 5)).take 10

def closing : Attributes := NameMap.ofList [("state", .text "closed"), ("seen", .default)]

def dearOrdersStatement : Statement where
  sql := "SELECT (\"price\" * $1) AS \"foreign_price\" FROM \"orders\" WHERE " ++
    "(\"state\" = $2 OR EXISTS (SELECT * FROM \"items\" WHERE \"price\" > $3)) AND " ++
    "\"account\" = $4 LIMIT 10"
  values := [.int32 3, .text "open", .int32 100, .int32 5]

def closingStatement : Statement where
  sql := "UPDATE \"orders\" SET \"seen\" = DEFAULT, \"state\" = $1 WHERE " ++
    "(\"state\" = $2 OR EXISTS (SELECT * FROM \"items\" WHERE \"price\" > $3)) AND " ++
    "\"account\" = $4"
  values := [.text "closed", .text "open", .int32 100, .int32 5]

theorem writes_reach_read_rows_dearOrders :
    closing.isEmpty = false ∧ dearOrders.statement = .ok dearOrdersStatement ∧
      dearOrders.updating closing = .ok closingStatement ∧
      ∃ update delete condition front rest,
        dearOrders.updating closing = .ok update ∧ dearOrders.deletion = .ok delete ∧
        dearOrders.OneCondition closing dearOrdersStatement update delete condition front rest := by
  have ha : closing.isEmpty = false := rfl
  have hread : dearOrders.statement = .ok dearOrdersStatement := rfl
  have hupdate : dearOrders.updating closing = .ok closingStatement := rfl
  exact ⟨ha, hread, hupdate,
    writes_reach_read_rows dearOrders closing dearOrdersStatement ha hread⟩

end Query

end RecordMapper
