import RecordMapper.Proofs.Outcome
import RecordMapper.Query.Build
import RecordMapper.Query.Write

/-!
When a query can be compiled.

* `Query.Compiles` says that every part of a query but its table has a text, whatever the dialect.
  The functions that build a query keep it.
* Such a query has a statement if its table has a name.
* `Query.CompilesIn` says for one dialect that every part has a text, which is the same as that the
  query has one (`exists_compile_iff`).
* The window is the last of the text (`compile_unlimited`): whether a query can be compiled, and why
  not, does not depend on it. A query that can be compiled can be counted (`exists_counting`);
  `Query.CountsAll` is what it takes the other way round.
-/
namespace RecordMapper

set_option autoImplicit false

theorem exists_tableFragment {table : String} :
    (∃ f, tableFragment table = .ok f) ↔ (Text.trim table).isEmpty = false := by
  unfold tableFragment
  cases (Text.trim table).isEmpty with
  | true => simp
  | false => simp

theorem isCompilation_of_tableFragment {table : String} {fault : Fault}
    (h : tableFragment table = .error fault) : fault.isCompilation = true := by
  unfold tableFragment at h
  split at h
  · cases h
    rfl
  · cases h

theorem exists_compileExprs_append (d : Dialect) {a b : List Expr}
    (ha : ∃ fs, compileExprs d a = .ok fs) (hb : ∃ fs, compileExprs d b = .ok fs) :
    ∃ fs, compileExprs d (a ++ b) = .ok fs := by
  induction a with
  | nil => exact hb
  | cons e rest ih =>
    obtain ⟨fs, h⟩ := ha
    obtain ⟨f, hf, h⟩ := ok_of_bind h
    obtain ⟨gs, hgs, -⟩ := ok_of_bind h
    rw [List.cons_append, compileExprs]
    exact exists_ok_bind ⟨f, hf⟩ fun f => exists_ok_bind (ih ⟨gs, hgs⟩) fun fs => ⟨f :: fs, rfl⟩

theorem exists_compileExprs_columns (d : Dialect) (columns : List String) :
    ∃ fs, compileExprs d (columns.map Expr.column) = .ok fs := by
  induction columns with
  | nil => exact ⟨[], rfl⟩
  | cons c rest ih =>
    rw [List.map_cons, compileExprs]
    exact exists_ok_bind ⟨_, rfl⟩ fun f => exists_ok_bind ih fun fs => ⟨f :: fs, rfl⟩

theorem exists_compileScopes_append (d : Dialect) {scopes : List Condition} {c : Condition}
    (h : ∃ fs, compileScopes d scopes = .ok fs) (hc : ∃ f, c.compile d = .ok f) :
    ∃ fs, compileScopes d (scopes ++ [c]) = .ok fs := by
  induction scopes with
  | nil =>
    rw [List.nil_append, compileScopes]
    exact exists_ok_bind hc fun f => ⟨f.toList ++ [], rfl⟩
  | cons c' rest ih =>
    obtain ⟨fs, h⟩ := h
    obtain ⟨f, hf, h⟩ := ok_of_bind h
    obtain ⟨gs, hgs, -⟩ := ok_of_bind h
    rw [List.cons_append, compileScopes]
    exact exists_ok_bind ⟨f, hf⟩ fun f =>
      exists_ok_bind (ih ⟨gs, hgs⟩) fun fs => ⟨f.toList ++ fs, rfl⟩

theorem exists_compileSortKeys_append (d : Dialect) {keys : List SortKey} {k : SortKey}
    (h : ∃ fs, compileSortKeys d keys = .ok fs) (hk : ∃ f, k.compile d = .ok f) :
    ∃ fs, compileSortKeys d (keys ++ [k]) = .ok fs := by
  induction keys with
  | nil =>
    rw [List.nil_append, compileSortKeys]
    exact exists_ok_bind hk fun f => ⟨[f], rfl⟩
  | cons k' rest ih =>
    obtain ⟨fs, h⟩ := h
    obtain ⟨f, hf, h⟩ := ok_of_bind h
    obtain ⟨gs, hgs, -⟩ := ok_of_bind h
    rw [List.cons_append, compileSortKeys]
    exact exists_ok_bind ⟨f, hf⟩ fun f => exists_ok_bind (ih ⟨gs, hgs⟩) fun fs => ⟨f :: fs, rfl⟩

theorem compileExprs_isEmpty {d : Dialect} {es : List Expr} {fs : List Fragment}
    (h : compileExprs d es = .ok fs) : fs.isEmpty = es.isEmpty := by
  cases es with
  | nil =>
    cases h
    rfl
  | cons e rest =>
    obtain ⟨g, hg, h⟩ := ok_of_bind h
    obtain ⟨gs, hgs, h⟩ := ok_of_bind h
    cases h
    rfl

theorem compileSortKeys_isEmpty {d : Dialect} {ks : List SortKey} {fs : List Fragment}
    (h : compileSortKeys d ks = .ok fs) : fs.isEmpty = ks.isEmpty := by
  cases ks with
  | nil =>
    cases h
    rfl
  | cons k rest =>
    obtain ⟨g, hg, h⟩ := ok_of_bind h
    obtain ⟨gs, hgs, h⟩ := ok_of_bind h
    cases h
    rfl

namespace Query

/-! ## One dialect -/

structure CompilesIn (q : Query) (d : Dialect) : Prop where
  columns : ∃ fs, compileExprs d q.columns = .ok fs
  table : ∃ f, tableFragment q.table = .ok f
  filters : ∃ chain, compileLinks d .empty q.filters = .ok chain
  scopes : ∃ fs, compileScopes d q.scopes = .ok fs
  havings : ∃ chain, compileLinks d .empty q.havings = .ok chain
  orders : ∃ fs, compileSortKeys d q.orders = .ok fs

/-- A query has a text if each of its parts has one. -/
theorem exists_compile_iff {q : Query} {d : Dialect} :
    (∃ f, q.compile d = .ok f) ↔ q.CompilesIn d := by
  obtain ⟨table, dialect, key, columns, distinct, joins, filters, scopes, groups, havings, orders,
    limit, offset⟩ := q
  constructor
  · rintro ⟨f, h⟩
    rw [Query.compile] at h
    obtain ⟨cs, hcs, h⟩ := ok_of_bind h
    obtain ⟨t, ht, h⟩ := ok_of_bind h
    obtain ⟨chain, hchain, h⟩ := ok_of_bind h
    obtain ⟨ss, hss, h⟩ := ok_of_bind h
    obtain ⟨having, hhaving, h⟩ := ok_of_bind h
    obtain ⟨os, hos, -⟩ := ok_of_bind h
    exact ⟨⟨cs, hcs⟩, ⟨t, ht⟩, ⟨chain, hchain⟩, ⟨ss, hss⟩, ⟨having, hhaving⟩, ⟨os, hos⟩⟩
  · intro h
    rw [Query.compile]
    exact exists_ok_bind h.columns fun cs => exists_ok_bind h.table fun t =>
      exists_ok_bind h.filters fun chain => exists_ok_bind h.scopes fun ss =>
      exists_ok_bind h.havings fun having => exists_ok_bind h.orders fun os => ⟨_, rfl⟩

theorem exists_statement_iff {q : Query} :
    (∃ st, q.statement = .ok st) ↔ q.CompilesIn q.dialect := by
  rw [← exists_compile_iff]
  constructor
  · rintro ⟨st, h⟩
    obtain ⟨f, hf, -⟩ := ok_of_map h
    exact ⟨f, hf⟩
  · rintro ⟨f, hf⟩
    exact ⟨f.statement q.dialect 0, by rw [statement, hf]; rfl⟩

namespace CompilesIn

variable {q : Query} {d : Dialect}

theorem scope (h : q.CompilesIn d) {c : Condition} (hc : ∃ f, c.compile d = .ok f) :
    (q.scope c).CompilesIn d :=
  { h with scopes := exists_compileScopes_append d h.scopes hc }

theorem orderBy (h : q.CompilesIn d) {e : Expr} {direction : Option Direction}
    (he : ∃ f, e.compile d = .ok f) : (q.orderBy e direction).CompilesIn d :=
  { h with
    orders := by
      refine exists_compileSortKeys_append d h.orders ?_
      rw [SortKey.compile]
      exact exists_ok_bind he fun f => ⟨_, rfl⟩ }

theorem unwindowed (h : q.CompilesIn d) : q.unwindowed.CompilesIn d :=
  { h with orders := ⟨[], rfl⟩ }

end CompilesIn

/-- A query that can be compiled can be counted. -/
theorem exists_counting {q : Query} (h : q.CompilesIn q.dialect) :
    ∃ st, q.counting = .ok st := by
  have hfragment : ∃ f, q.countingFragment = .ok f := by
    unfold countingFragment
    split
    · exact exists_ok_bind (exists_compile_iff.mpr h.unwindowed) fun f => ⟨_, rfl⟩
    · refine exists_compile_iff.mpr { h.unwindowed with columns := ⟨_, rfl⟩ }
  obtain ⟨f, hf⟩ := hfragment
  exact ⟨f.statement q.dialect 0, by rw [counting, hf]; rfl⟩

/-- What a count leaves out of a query can be compiled: the order, and the columns unless the rows are
counted in a derived table. -/
structure CountsAll (q : Query) : Prop where
  columns : (q.distinct || q.isGrouped) = false → ∃ fs, compileExprs q.dialect q.columns = .ok fs
  orders : ∃ fs, compileSortKeys q.dialect q.orders = .ok fs

theorem CountsAll.compilesIn {q : Query} {st : Statement} (h : q.CountsAll)
    (hst : q.counting = .ok st) : q.CompilesIn q.dialect := by
  obtain ⟨f, hf, -⟩ := ok_of_map hst
  unfold countingFragment at hf
  split at hf
  · obtain ⟨inner, hinner, -⟩ := ok_of_bind hf
    exact { exists_compile_iff.mp ⟨inner, hinner⟩ with orders := h.orders }
  · next hplain =>
    have hcolumns := h.columns (Bool.eq_false_iff.mpr hplain)
    exact { exists_compile_iff.mp ⟨f, hf⟩ with columns := hcolumns, orders := h.orders }

/-! ## Windows -/

/-- The query without its window. -/
def unlimited (q : Query) : Query := { q with limit := none, offset := none }

theorem values_window (d : Dialect) (limit offset : Option Nat) :
    Fragment.values (window d limit offset) = [] := by
  cases limit <;> cases offset <;> cases d <;> rfl

/-- The window is written behind all else. -/
theorem compile_unlimited (q : Query) (d : Dialect) :
    q.compile d = (q.unlimited.compile d).map (· ++ window d q.limit q.offset) := by
  obtain ⟨table, dialect, key, columns, distinct, joins, filters, scopes, groups, havings, orders,
    limit, offset⟩ := q
  simp only [unlimited, Query.compile]
  cases compileExprs d columns with
  | error e => rfl
  | ok cs =>
  cases tableFragment table with
  | error e => rfl
  | ok t =>
  cases compileLinks d .empty filters with
  | error e => rfl
  | ok chain =>
  cases compileScopes d scopes with
  | error e => rfl
  | ok ss =>
  cases compileLinks d .empty havings with
  | error e => rfl
  | ok having =>
  cases compileSortKeys d orders with
  | error e => rfl
  | ok os => exact congrArg Except.ok (congrArg (· ++ window d limit offset) (List.append_nil _).symm)

theorem unlimited_page (q : Query) (number size : Nat) :
    (q.page number size).unlimited = q.unlimited := rfl

/-- Queries that differ in their windows alone are refused for the same reason. -/
theorem statement_error_congr {p q : Query} (h : p.unlimited = q.unlimited) {e : Fault}
    (hq : q.statement = .error e) : p.statement = .error e := by
  have hdialect : p.unlimited.dialect = q.unlimited.dialect := congrArg Query.dialect h
  have hdialect : p.dialect = q.dialect := hdialect
  unfold statement at hq ⊢
  rw [compile_unlimited] at hq ⊢
  rw [h, hdialect]
  cases hf : q.unlimited.compile q.dialect with
  | error e' =>
    rw [hf] at hq
    exact hq
  | ok f =>
    rw [hf] at hq
    cases hq

theorem exists_statement_congr {p q : Query} (h : p.unlimited = q.unlimited)
    (hq : ∃ st, q.statement = .ok st) : ∃ st, p.statement = .ok st := by
  obtain ⟨st, hst⟩ := hq
  cases hp : p.statement with
  | ok st' => exact ⟨st', rfl⟩
  | error e =>
    rw [statement_error_congr h.symm hp] at hst
    cases hst

/-! ## All dialects -/

structure Compiles (q : Query) : Prop where
  columns : ∀ d, ∃ fs, compileExprs d q.columns = .ok fs
  filters : ∀ d, ∃ chain, compileLinks d .empty q.filters = .ok chain
  scopes : ∀ d, ∃ fs, compileScopes d q.scopes = .ok fs
  havings : ∀ d, ∃ chain, compileLinks d .empty q.havings = .ok chain
  orders : ∀ d, ∃ fs, compileSortKeys d q.orders = .ok fs

theorem compiles_on (table : String) (d : Dialect) : (on table d).Compiles :=
  ⟨fun _ => ⟨[], rfl⟩, fun _ => ⟨.empty, rfl⟩, fun _ => ⟨[], rfl⟩, fun _ => ⟨.empty, rfl⟩,
    fun _ => ⟨[], rfl⟩⟩

namespace Compiles

variable {q : Query}

theorem keyedBy (h : q.Compiles) (column : String) : (q.keyedBy column).Compiles :=
  { h with }

theorem select (h : q.Compiles) (columns : List String) : (q.select columns).Compiles :=
  { h with columns := fun d => exists_compileExprs_columns d columns }

theorem addExpr (h : q.Compiles) {e : Expr} (he : ∀ d, ∃ f, e.compile d = .ok f) :
    (q.addExpr e).Compiles :=
  { h with
    columns := fun d => by
      refine exists_compileExprs_append d (h.columns d) ?_
      rw [compileExprs]
      exact exists_ok_bind (he d) fun f => ⟨[f], rfl⟩ }

theorem join (h : q.Compiles) (j : Join) : (q.join j).Compiles := { h with }

theorem scope (h : q.Compiles) {c : Condition} (hc : ∀ d, ∃ f, c.compile d = .ok f) :
    (q.scope c).Compiles :=
  { h with scopes := fun d => exists_compileScopes_append d (h.scopes d) (hc d) }

theorem orderBy (h : q.Compiles) {e : Expr} {direction : Option Direction}
    (he : ∀ d, ∃ f, e.compile d = .ok f) : (q.orderBy e direction).Compiles :=
  { h with
    orders := fun d => by
      refine exists_compileSortKeys_append d (h.orders d) ?_
      rw [SortKey.compile]
      exact exists_ok_bind (he d) fun f => ⟨_, rfl⟩ }

theorem take (h : q.Compiles) (n : Nat) : (q.take n).Compiles := { h with }

/-- A query whose parts have a text has one itself if its table has a name. -/
theorem exists_compile (h : q.Compiles) (d : Dialect)
    (htable : (Text.trim q.table).isEmpty = false) : ∃ f, q.compile d = .ok f :=
  exists_compile_iff.mpr ⟨h.columns d, exists_tableFragment.mpr htable, h.filters d, h.scopes d,
    h.havings d, h.orders d⟩

theorem exists_statement (h : q.Compiles) (htable : (Text.trim q.table).isEmpty = false) :
    ∃ st, q.statement = .ok st := by
  obtain ⟨f, hf⟩ := h.exists_compile q.dialect htable
  exact ⟨f.statement q.dialect 0, by unfold statement; rw [hf]; rfl⟩

end Compiles

theorem table_of_statement {q : Query} {st : Statement} (h : q.statement = .ok st) :
    (Text.trim q.table).isEmpty = false := by
  obtain ⟨f, hf, -⟩ := ok_of_map h
  obtain ⟨table, dialect, key, columns, distinct, joins, filters, scopes, groups, havings, orders,
    limit, offset⟩ := q
  rw [Query.compile] at hf
  obtain ⟨cs, -, hf⟩ := ok_of_bind hf
  obtain ⟨t, ht, -⟩ := ok_of_bind hf
  exact exists_tableFragment.1 ⟨t, ht⟩

end Query

end RecordMapper
