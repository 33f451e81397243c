import RecordMapper.Proofs.Query.Compiling
import RecordMapper.Proofs.Query.Supplied

/-!
Every value of a query is bound once, in reading order.

* `Expr.compile_reads`, `Condition.compile_reads` and `Query.compile_reads`: the fragment of a tree
  reads what the tree supplies. They are one induction over the syntax.
* `Query.command_spells`: a statement spells what is supplied to it, with its placeholders numbered
  from one and its parameters in the same order.
-/
namespace RecordMapper

set_option autoImplicit false
set_option maxRecDepth 100000

/-! ## Parts without expressions -/

section Parts
open Fragment

variable {xs ys : List Supplied} {f g : Fragment}

theorem Comparison.between_reads (op : Comparison) (d : Dialect) (hf : Reads xs f)
    (hg : Reads ys g) : Reads (xs ++ ys) (op.between d f g) := by
  unfold Comparison.between
  split
  · exact (hf.call "LOWER" rfl).append ((hg.call "LOWER" rfl).text " LIKE " rfl)
  · exact hf.append (hg.text _ (by cases op <;> rfl))

theorem ColumnComparison.compile_reads (d : Dialect) (c : ColumnComparison) :
    Reads [] (c.compile d) :=
  c.op.between_reads d (reads_path c.left) (reads_path c.right)

theorem Join.compile_reads (d : Dialect) (j : Join) : Reads [] (j.compile d) := by
  obtain ⟨kind, table, label, on⟩ := j
  have hkind : isQuiet (" " ++ kind.sql ++ " ") = true := by cases kind <;> rfl
  have hon : Reads []
      (if on.isEmpty then []
        else .text " ON " :: joined " AND " (on.map (ColumnComparison.compile d))) := by
    split
    · exact .nil
    · exact ((ReadsAll.map_plain _ on (ColumnComparison.compile_reads d)).joined " AND "
        rfl).text " ON " rfl
  cases label with
  | none => exact (((reads_path table).append .nil).append hon).text _ hkind
  | some name =>
    have hname := (reads_name name).text " AS " rfl
    exact (((reads_path table).append hname).append hon).text _ hkind

theorem joins_reads (d : Dialect) (joins : List Join) :
    Reads [] (joins.flatMap (Join.compile d)) := by
  induction joins with
  | nil => exact .nil
  | cons j rest ih => exact (j.compile_reads d).append ih

theorem DatePart.extract_reads (part : DatePart) (d : Dialect) (hf : Reads xs f) :
    Reads xs (part.extract d f) := by
  cases d with
  | postgres => exact (hf.close ")" rfl).text _ (by cases part <;> rfl)
  | sqlite => exact (hf.close ") AS INTEGER)" rfl).text _ (by cases part <;> rfl)
  | mysql | mariadb =>
    cases part with
    | dayOfWeek => exact (hf.close ") - 1)" rfl).text "(DAYOFWEEK(" rfl
    | year | month | day | hour | minute | second => exact hf.call _ rfl

theorem dateOf_reads (d : Dialect) (hf : Reads xs f) : Reads xs (dateOf d f) := by
  cases d with
  | postgres => exact (hf.close " AS DATE)" rfl).text "CAST(" rfl
  | sqlite => exact hf.call "date" rfl
  | mysql | mariadb => exact hf.call "DATE" rfl

theorem currentMoment_reads (d : Dialect) : Reads [] (currentMoment d) := by
  cases d <;> exact Reads.nil.text _ rfl

theorem window_reads (d : Dialect) (limit offset : Option Nat) :
    Reads [] (window d limit offset) := by
  have hn : ∀ (a : String) (n : Nat), isQuiet a = true → isQuiet (a ++ Text.ofNat n) = true :=
    fun a n ha => isQuiet_append ha (isQuiet_ofNat n)
  cases limit with
  | none =>
    cases offset with
    | none => exact .nil
    | some k => cases d <;> exact Reads.nil.text _ (hn _ k rfl)
  | some n =>
    cases offset with
    | none => exact Reads.nil.text _ (hn _ n rfl)
    | some k =>
      exact Reads.nil.text _ (isQuiet_append (isQuiet_append (hn _ n rfl) rfl) (isQuiet_ofNat k))

theorem tableFragment_reads {table : String} (h : tableFragment table = .ok f) :
    Reads [] f := by
  unfold tableFragment at h
  split at h
  · cases h
  · cases h
    exact reads_path table

theorem JsonPath.extract_reads (path : JsonPath) (d : Dialect) (column : String) :
    Reads [.value (path.bound d)] (path.extract d column) := by
  have hb := fun before (h : isQuiet before = true) =>
    (reads_path column).append ((Reads.bind (path.bound d)).text before h)
  cases d with
  | postgres => exact ((hb " #>> " rfl).close ")" rfl).text "(" rfl
  | mysql => exact ((hb ", " rfl).close "))" rfl).text "JSON_UNQUOTE(JSON_EXTRACT(" rfl
  | mariadb => exact ((hb ", " rfl).close ")" rfl).text "JSON_VALUE(" rfl
  | sqlite => exact ((hb ", " rfl).close ")" rfl).text "json_extract(" rfl

end Parts

/-! ## Chains of conditions -/

namespace Fragment.ReadsAll

variable {xs : List Supplied} {fs : List Fragment}

/-- A list of its own behind a word, if there are any fragments. -/
theorem listed (hf : ReadsAll xs fs) (word : String) (h : isQuiet word = true) :
    ReadsAll xs (if fs.isEmpty then [] else [.text word :: Fragment.joined ", " fs]) := by
  split
  · next hn =>
    rw [List.isEmpty_iff.mp hn] at hf
    exact hf
  · exact .single (Reads.text word h (hf.joined ", " rfl))

end Fragment.ReadsAll

theorem Fragment.Reads.listOption {xs : List Supplied} {f : Option Fragment}
    (hf : Reads xs (f.getD [])) : ReadsAll xs f.toList := by
  cases f with
  | none =>
    rw [hf.eq_nil_of_isBlank rfl]
    exact .nil
  | some g => exact .single hf

section Chains
open Fragment

variable {xs ys : List Supplied} {f : Fragment} {fs : List Fragment}

theorem Chain.append_reads {chain : Chain} (hc : Reads xs chain.fragment) (connective : Connective)
    (hf : Reads ys f) : Reads (xs ++ ys) (chain.append connective f).fragment := by
  unfold Chain.append
  split
  · next hb =>
    rw [hc.eq_nil_of_isBlank hb]
    exact hf
  · exact hc.append (hf.text _ (by cases connective <;> rfl))

theorem clause_reads (hf : ReadsAll xs fs) (empty : Bool) (he : fs.isEmpty = empty)
    (keyword separator : String) (hk : isQuiet keyword = true) (hs : isQuiet separator = true) :
    Reads xs (clause keyword (if empty then none else some (joined separator fs))) := by
  split
  · next hn =>
    rw [hn, List.isEmpty_iff] at he
    rw [he] at hf
    exact hf.joined separator hs
  · exact (hf.joined separator hs).text keyword hk

theorem conjunction_reads {chain : Chain} (hc : Reads xs chain.fragment) (grouped : Bool)
    (hf : ReadsAll ys fs) (keyword : String) (hk : isQuiet keyword = true) :
    Reads (xs ++ ys) (clause keyword (conjunction chain grouped fs)) := by
  refine clause_reads (ReadsAll.append ?_ hf) _ rfl keyword " AND " hk rfl
  split
  · next hb =>
    rw [hc.eq_nil_of_isBlank hb]
    exact .nil
  · split
    · exact .single hc.parens
    · exact .single hc

end Chains

/-! ## Trees -/

section Trees
open Fragment

theorem columns_reads {d : Dialect} {columns : List Expr} {cs : List Fragment}
    (hc : ReadsAll (suppliedExprs d columns) cs) :
    Reads (suppliedExprs d columns)
      (if columns.isEmpty then Fragment.text "*" else joined ", " cs) := by
  cases columns with
  | nil => exact Reads.nil.text "*" rfl
  | cons e rest => exact hc.joined ", " rfl

mutual

theorem Expr.compile_reads (d : Dialect) (e : Expr) {f : Fragment} (h : e.compile d = .ok f) :
    Reads (e.supplied d) f := by
  cases e with
  | column path =>
    cases h
    exact reads_path path
  | literal value =>
    cases h
    exact .bind value
  | named e name =>
    obtain ⟨g, hg, h⟩ := ok_of_bind h
    cases h
    have hn := (e.compile_reads d hg).append ((reads_name name).text " AS " rfl)
    rw [List.append_nil] at hn
    exact hn
  | marked sql values => exact Marked.compile_reads h
  | cast e type =>
    obtain ⟨g, hg, h⟩ := ok_of_bind h
    cases h
    exact ((e.compile_reads d hg).close _ (by cases type <;> cases d <;> rfl)).text "CAST(" rfl
  | arithmetic left op right =>
    obtain ⟨l, hl, h⟩ := ok_of_bind h
    obtain ⟨r, hr, h⟩ := ok_of_bind h
    cases h
    exact (((left.compile_reads d hl).append
      ((right.compile_reads d hr).text _ (by cases op <;> rfl))).close ")" rfl).text "(" rfl
  | compare left op right =>
    obtain ⟨l, hl, h⟩ := ok_of_bind h
    obtain ⟨r, hr, h⟩ := ok_of_bind h
    cases h
    exact (op.between_reads d (left.compile_reads d hl) (right.compile_reads d hr)).parens
  | concat parts =>
    simp only [Expr.compile] at h
    split at h
    · cases h
    · obtain ⟨fs, hfs, h⟩ := ok_of_bind h
      have hp := compileExprs_reads d parts hfs
      cases h
      simp only [Expr.supplied]
      split
      · exact (hp.joined ", " rfl).call "CONCAT" rfl
      · exact (hp.joined " || " rfl).parens
  | textCall function e =>
    obtain ⟨g, hg, h⟩ := ok_of_bind h
    cases h
    exact (e.compile_reads d hg).call _ (by cases function <;> cases d <;> rfl)
  | substring e start length =>
    obtain ⟨g, hg, h⟩ := ok_of_bind h
    cases h
    have hs := (e.compile_reads d hg).append ((Reads.bind (.int64 start)).text ", " rfl)
    refine Reads.call _ (by split <;> rfl) ?_
    cases length with
    | none =>
      have hn := hs.append .nil
      rw [List.append_assoc] at hn
      exact hn
    | some n =>
      have hn := hs.append ((Reads.bind (.int64 n)).text ", " rfl)
      rw [List.append_assoc] at hn
      exact hn
  | replace e pattern replacement =>
    obtain ⟨g, hg, h⟩ := ok_of_bind h
    obtain ⟨p, hp, h⟩ := ok_of_bind h
    obtain ⟨r, hr, h⟩ := ok_of_bind h
    cases h
    exact (((ReadsAll.single (replacement.compile_reads d hr)).cons
      (pattern.compile_reads d hp)).cons (e.compile_reads d hg)).joined ", " rfl |>.call "REPLACE" rfl
  | extract part e =>
    obtain ⟨g, hg, h⟩ := ok_of_bind h
    cases h
    exact part.extract_reads d (e.compile_reads d hg)
  | dateOf e =>
    obtain ⟨g, hg, h⟩ := ok_of_bind h
    cases h
    exact dateOf_reads d (e.compile_reads d hg)
  | now =>
    cases h
    exact currentMoment_reads d
  | coalesce choices =>
    obtain ⟨fs, hfs, h⟩ := ok_of_bind h
    cases h
    exact ((compileExprs_reads d choices hfs).joined ", " rfl).call "COALESCE" rfl
  | nullIf left right =>
    obtain ⟨l, hl, h⟩ := ok_of_bind h
    obtain ⟨r, hr, h⟩ := ok_of_bind h
    cases h
    exact (((ReadsAll.single (right.compile_reads d hr)).cons
      (left.compile_reads d hl)).joined ", " rfl).call "NULLIF" rfl
  | aggregate function argument distinct =>
    obtain ⟨g, hg, h⟩ := ok_of_bind h
    have ha := compileArgument_reads d argument hg
    cases h
    simp only [Expr.supplied]
    split
    · exact (ha.text "DISTINCT " rfl).call _ (by cases function <;> rfl)
    · exact ha.call _ (by cases function <;> rfl)
  | case branches otherwise =>
    simp only [Expr.compile] at h
    split at h
    · cases h
    · obtain ⟨bs, hbs, h⟩ := ok_of_bind h
      obtain ⟨o, ho, h⟩ := ok_of_bind h
      cases h
      exact (((compileBranches_reads d branches hbs).append
        (compileOtherwise_reads d otherwise ho)).close " END" rfl).text "CASE" rfl
  | json column path =>
    obtain ⟨steps, hs, h⟩ := ok_of_bind h
    cases h
    simp only [Expr.supplied, JsonPath.supplied, hs]
    exact steps.extract_reads d column
  | subquery query =>
    obtain ⟨g, hg, h⟩ := ok_of_bind h
    cases h
    exact (query.compile_reads d hg).parens
  | window e partition order =>
    obtain ⟨g, hg, h⟩ := ok_of_bind h
    obtain ⟨ps, hps, h⟩ := ok_of_bind h
    obtain ⟨os, hos, h⟩ := ok_of_bind h
    cases h
    have ho := ((compileExprs_reads d partition hps).listed "PARTITION BY " rfl).append
      ((compileSortKeys_reads d order hos).listed "ORDER BY " rfl)
    exact ((e.compile_reads d hg).append ((ho.joined " " rfl).text " OVER (" rfl)).close ")" rfl
termination_by structural e

theorem compileExprs_reads (d : Dialect) (es : List Expr) {fs : List Fragment}
    (h : compileExprs d es = .ok fs) : ReadsAll (suppliedExprs d es) fs := by
  cases es with
  | nil =>
    cases h
    exact .nil
  | cons e rest =>
    obtain ⟨g, hg, h⟩ := ok_of_bind h
    obtain ⟨gs, hgs, h⟩ := ok_of_bind h
    cases h
    exact (compileExprs_reads d rest hgs).cons (e.compile_reads d hg)
termination_by structural es

theorem compileArgument_reads (d : Dialect) (argument : Option Expr) {f : Fragment}
    (h : compileArgument d argument = .ok f) : Reads (suppliedOption d argument) f := by
  cases argument with
  | none =>
    cases h
    exact Reads.nil.text "*" rfl
  | some e => exact e.compile_reads d h
termination_by structural argument

theorem compileBranches_reads (d : Dialect) (bs : List Branch) {f : Fragment}
    (h : compileBranches d bs = .ok f) : Reads (suppliedBranches d bs) f := by
  cases bs with
  | nil =>
    cases h
    exact .nil
  | cons b rest =>
    obtain ⟨g, hg, h⟩ := ok_of_bind h
    obtain ⟨gs, hgs, h⟩ := ok_of_bind h
    cases h
    exact (b.compile_reads d hg).append (compileBranches_reads d rest hgs)
termination_by structural bs

theorem Branch.compile_reads (d : Dialect) (b : Branch) {f : Fragment}
    (h : b.compile d = .ok f) : Reads (b.supplied d) f := by
  cases b with
  | mk condition result =>
    obtain ⟨c, hc, h⟩ := ok_of_bind h
    obtain ⟨r, hr, h⟩ := ok_of_bind h
    cases h
    exact ((condition.compile_reads d hc).append
      ((result.compile_reads d hr).text " THEN " rfl)).text " WHEN " rfl
termination_by structural b

theorem compileOtherwise_reads (d : Dialect) (otherwise : Option Expr) {f : Fragment}
    (h : compileOtherwise d otherwise = .ok f) : Reads (suppliedOption d otherwise) f := by
  cases otherwise with
  | none =>
    cases h
    exact .nil
  | some e =>
    obtain ⟨g, hg, h⟩ := ok_of_bind h
    cases h
    exact (e.compile_reads d hg).text " ELSE " rfl
termination_by structural otherwise

theorem SortKey.compile_reads (d : Dialect) (k : SortKey) {f : Fragment}
    (h : k.compile d = .ok f) : Reads (k.supplied d) f := by
  cases k with
  | mk e direction =>
    obtain ⟨g, hg, h⟩ := ok_of_bind h
    cases h
    cases direction with
    | none => exact e.compile_reads d hg
    | some direction => exact (e.compile_reads d hg).close _ (by cases direction <;> rfl)
termination_by structural k

theorem compileSortKeys_reads (d : Dialect) (ks : List SortKey) {fs : List Fragment}
    (h : compileSortKeys d ks = .ok fs) : ReadsAll (suppliedSortKeys d ks) fs := by
  cases ks with
  | nil =>
    cases h
    exact .nil
  | cons k rest =>
    obtain ⟨g, hg, h⟩ := ok_of_bind h
    obtain ⟨gs, hgs, h⟩ := ok_of_bind h
    cases h
    exact (compileSortKeys_reads d rest hgs).cons (k.compile_reads d hg)
termination_by structural ks

theorem Condition.compile_reads (d : Dialect) (c : Condition) {f : Option Fragment}
    (h : c.compile d = .ok f) : Reads (c.supplied d) (f.getD []) := by
  cases c with
  | compare target op value =>
    obtain ⟨g, hg, h⟩ := ok_of_bind h
    have ht := target.compile_reads d hg
    cases h
    simp only [Condition.supplied, Option.getD_some]
    split
    · rw [List.append_nil]
      exact ht.close " IS NULL" rfl
    · rw [List.append_nil]
      exact ht.close " IS NOT NULL" rfl
    · next h1 h2 =>
      -- The values may be told apart by the same match as the texts.
      try split
      all_goals first
        | exact (h1 rfl rfl).elim
        | exact (h2 rfl rfl).elim
        | exact op.between_reads d ht (.bind value)
  | isIn target values negated =>
    simp only [Condition.compile] at h
    simp only [Condition.supplied]
    split at h
    · next hv =>
      cases h
      rw [if_pos hv]
      cases negated with
      | true => exact .nil
      | false => exact Reads.nil.text "1 = 0" rfl
    · next hv =>
      obtain ⟨g, hg, h⟩ := ok_of_bind h
      cases h
      rw [if_neg hv]
      exact ((target.compile_reads d hg).append (((ReadsAll.map_bind values).joined ", " rfl).text _
        (by cases negated <;> rfl))).close ")" rfl
  | isNull target negated =>
    obtain ⟨g, hg, h⟩ := ok_of_bind h
    cases h
    exact (target.compile_reads d hg).close _ (by cases negated <;> rfl)
  | between target low high negated =>
    obtain ⟨g, hg, h⟩ := ok_of_bind h
    cases h
    have hb := ((target.compile_reads d hg).append ((Reads.bind low).text
      (" " ++ negatable negated "BETWEEN" ++ " ") (by cases negated <;> rfl))).append
        ((Reads.bind high).text " AND " rfl)
    rw [List.append_assoc] at hb
    exact hb
  | columns comparison =>
    cases h
    exact comparison.compile_reads d
  | marked sql values =>
    obtain ⟨g, hg, h⟩ := ok_of_bind h
    cases h
    exact (Marked.compile_reads hg).parens
  | existsRow query negated =>
    obtain ⟨g, hg, h⟩ := ok_of_bind h
    cases h
    exact (query.compile_reads d hg).call _ (by cases negated <;> rfl)
  | holds e =>
    obtain ⟨g, hg, h⟩ := ok_of_bind h
    cases h
    exact e.compile_reads d hg
termination_by structural c

theorem compileLinks_reads (d : Dialect) (links : List Link) {xs : List Supplied}
    {chain after : Chain} (hc : Reads xs chain.fragment)
    (h : compileLinks d chain links = .ok after) :
    Reads (xs ++ suppliedLinks d links) after.fragment := by
  cases links with
  | nil =>
    cases h
    simpa [suppliedLinks] using hc
  | cons l rest =>
    obtain ⟨next, hn, h⟩ := ok_of_bind h
    have hl := compileLinks_reads d rest (l.compile_reads d hc hn) h
    rw [List.append_assoc] at hl
    exact hl
termination_by structural links

theorem Link.compile_reads (d : Dialect) (l : Link) {xs : List Supplied} {chain after : Chain}
    (hc : Reads xs chain.fragment) (h : l.compile d chain = .ok after) :
    Reads (xs ++ l.supplied d) after.fragment := by
  cases l with
  | mk connective condition =>
    obtain ⟨f, hf, h⟩ := ok_of_bind h
    have hr := condition.compile_reads d hf
    cases h
    cases f with
    | none =>
      have hn := hc.append hr
      rw [Option.getD_none, List.append_nil] at hn
      exact hn
    | some g => exact Chain.append_reads hc connective hr
termination_by structural l

theorem compileScopes_reads (d : Dialect) (cs : List Condition) {fs : List Fragment}
    (h : compileScopes d cs = .ok fs) : ReadsAll (suppliedConditions d cs) fs := by
  cases cs with
  | nil =>
    cases h
    exact .nil
  | cons c rest =>
    obtain ⟨g, hg, h⟩ := ok_of_bind h
    obtain ⟨gs, hgs, h⟩ := ok_of_bind h
    cases h
    exact (c.compile_reads d hg).listOption.append (compileScopes_reads d rest hgs)
termination_by structural cs

theorem Query.compile_reads (d : Dialect) (q : Query) {f : Fragment}
    (h : q.compile d = .ok f) : Reads (q.supplied d) f := by
  cases q with
  | mk table dialect key columns distinct joins filters scopes groups havings orders limit offset =>
    obtain ⟨cs, hcs, h⟩ := ok_of_bind h
    obtain ⟨t, ht, h⟩ := ok_of_bind h
    obtain ⟨chain, hchain, h⟩ := ok_of_bind h
    obtain ⟨ss, hss, h⟩ := ok_of_bind h
    obtain ⟨having', hhaving, h⟩ := ok_of_bind h
    obtain ⟨os, hos, h⟩ := ok_of_bind h
    have hread := (columns_reads (compileExprs_reads d columns hcs)).text
      (if distinct then "SELECT DISTINCT " else "SELECT ") (by split <;> rfl)
    have hfrom := (hread.append ((tableFragment_reads ht).text " FROM " rfl)).append
      (joins_reads d joins)
    have hwhere := hfrom.append (conjunction_reads (compileLinks_reads d filters .nil hchain)
      (!scopes.isEmpty) (compileScopes_reads d scopes hss) " WHERE " rfl)
    have hgroup := hwhere.append (clause_reads (ReadsAll.map_plain path groups reads_path)
      groups.isEmpty List.isEmpty_map " GROUP BY " ", " rfl rfl)
    have hhave := hgroup.append (conjunction_reads (compileLinks_reads d havings .nil hhaving)
      false .nil " HAVING " rfl)
    have horder := (hhave.append (clause_reads (compileSortKeys_reads d orders hos) orders.isEmpty
      (compileSortKeys_isEmpty hos) " ORDER BY " ", " rfl rfl)).append (window_reads d limit offset)
    cases h
    simpa only [Query.supplied, List.append_assoc, List.append_nil, List.nil_append] using horder
termination_by structural q

end

end Trees

/-! ## Statements -/

namespace Query

/-- The values of a statement that reads rows are what the query is supplied with. -/
theorem statement_values {q : Query} {st : Statement} (h : q.statement = .ok st) :
    st.values = Supplied.params (q.supplied q.dialect) := by
  obtain ⟨f, hf, rfl⟩ := ok_of_map h
  exact ((q.compile_reads q.dialect hf).spells q.dialect 0).params_eq

section Fragments
open Fragment

variable {q : Query} {f : Fragment}

theorem tuple_reads (row : Attributes) : Reads (Supplied.row row.values) (tuple row) :=
  ((ReadsAll.map_bind row.values).joined ", " rfl).parens

theorem tuples_reads (rows : List Attributes) :
    ReadsAll (rows.flatMap fun row => Supplied.row row.values) (rows.map tuple) := by
  induction rows with
  | nil => exact .nil
  | cons row rest ih => exact ih.cons (tuple_reads row)

theorem insertionFragment_reads {row : Attributes} (h : q.insertionFragment row = .ok f) :
    Reads (Supplied.row row.values) f := by
  obtain ⟨t, ht, h⟩ := ok_of_bind h
  have hinto := (tableFragment_reads ht).text "INSERT INTO " rfl
  split at h
  · next he =>
    cases h
    have hrow : row.values = [] := by
      unfold NameMap.values
      rw [List.isEmpty_iff.mp he, List.map_nil]
    rw [hrow]
    exact hinto.append (Reads.nil.text _ (by split <;> rfl))
  · cases h
    exact (hinto.append ((reads_names row.names).text " (" rfl)).append
      ((tuple_reads row).text ") VALUES " rfl)

theorem batchInsertionFragment_reads {rows : List Attributes}
    (h : q.batchInsertionFragment rows = .ok f) :
    Reads (rows.flatMap fun row => Supplied.row row.values) f := by
  cases rows with
  | nil => cases h
  | cons first rest =>
    simp only [batchInsertionFragment] at h
    split at h
    · cases h
    · split at h
      · cases h
      · obtain ⟨t, ht, h⟩ := ok_of_bind h
        cases h
        exact (((tableFragment_reads ht).text "INSERT INTO " rfl).append
          ((reads_names first.names).text " (" rfl)).append
            (((tuples_reads (first :: rest)).joined ", " rfl).text ") VALUES " rfl)

theorem whereFragment_reads (h : q.whereFragment q.dialect = .ok f) :
    Reads q.suppliedWhere f := by
  obtain ⟨condition, hc, h⟩ := ok_of_bind h
  obtain ⟨chain, hchain, hc⟩ := ok_of_bind hc
  obtain ⟨ss, hss, hc⟩ := ok_of_bind hc
  cases hc
  cases h
  exact conjunction_reads (compileLinks_reads q.dialect q.filters .nil hchain) (!q.scopes.isEmpty)
    (compileScopes_reads q.dialect q.scopes hss) " WHERE " rfl

theorem assignments_reads (entries : List (String × Value)) :
    ReadsAll (Supplied.row (entries.map Prod.snd))
      (entries.map fun e => assignment e.1 e.2) := by
  induction entries with
  | nil => exact .nil
  | cons e rest ih =>
    exact ih.cons ((reads_name e.1).append ((Reads.bind e.2).text " = " rfl))

theorem updatingFragment_reads {assignments : Attributes}
    (h : q.updatingFragment assignments = .ok f) :
    Reads (Supplied.row assignments.values ++ q.suppliedWhere) f := by
  simp only [updatingFragment] at h
  split at h
  · cases h
  · obtain ⟨t, ht, h⟩ := ok_of_bind h
    obtain ⟨condition, hc, h⟩ := ok_of_bind h
    cases h
    exact (((tableFragment_reads ht).text "UPDATE " rfl).append
      (((assignments_reads assignments.entries).joined ", " rfl).text " SET " rfl)).append
        (whereFragment_reads hc)

theorem deletionFragment_reads (h : q.deletionFragment = .ok f) :
    Reads q.suppliedWhere f := by
  obtain ⟨t, ht, h⟩ := ok_of_bind h
  obtain ⟨condition, hc, h⟩ := ok_of_bind h
  cases h
  exact ((tableFragment_reads ht).text "DELETE FROM " rfl).append (whereFragment_reads hc)

theorem collision_reads (d : Dialect) (uniqueBy update : List String) :
    Reads [] (collision d uniqueBy update) := by
  have htext : ∀ c word, isQuiet word = true → Reads [] [.name c, .text word, .name c] :=
    fun c word hw => (reads_name c).append ((reads_name c).text word hw)
  unfold collision
  split
  · refine (ReadsAll.joined ?_ ", " rfl).text " ON DUPLICATE KEY UPDATE " rfl
    cases update with
    | nil => exact ReadsAll.map_plain _ _ fun c => htext c " = " rfl
    | cons a rest => exact ReadsAll.map_plain _ _ fun c => (htext c " = VALUES(" rfl).close ")" rfl
  · refine ((reads_names uniqueBy).append (Reads.text ")" rfl ?_)).text " ON CONFLICT (" rfl
    cases update with
    | nil => exact Reads.nil.text " DO NOTHING" rfl
    | cons a rest =>
      exact ((ReadsAll.map_plain _ _ fun c => htext c " = EXCLUDED." rfl).joined ", " rfl).text
        " DO UPDATE SET " rfl

theorem upsertionFragment_reads {rows : List Attributes} {uniqueBy update : List String}
    (h : q.upsertionFragment rows uniqueBy update = .ok f) :
    Reads (rows.flatMap fun row => Supplied.row row.values) f := by
  simp only [upsertionFragment] at h
  split at h
  · cases h
  · obtain ⟨g, hg, h⟩ := ok_of_bind h
    cases h
    have hr := (batchInsertionFragment_reads hg).append (collision_reads q.dialect uniqueBy update)
    rw [List.append_nil] at hr
    exact hr

theorem countingFragment_reads (h : q.countingFragment = .ok f) :
    Reads (q.suppliedBy .count) f := by
  simp only [countingFragment] at h
  split at h
  · next hd =>
    obtain ⟨g, hg, h⟩ := ok_of_bind h
    cases h
    have he : q.unwindowed.supplied q.dialect = q.suppliedBy .count := by
      simp only [suppliedBy, suppliedWhere, hd, if_true, Query.supplied, unwindowed,
        suppliedSortKeys, List.append_assoc, List.append_nil]
    have hr := (q.unwindowed.compile_reads q.dialect hg).append
      ((reads_name "aggregate_table").text ") AS " rfl)
    rw [he, List.append_nil] at hr
    exact ((hr.text " FROM (" rfl).plain (.name aggregateName) rfl).text
      "SELECT COUNT(*) AS " rfl
  · next hd =>
    have he : (q.aggregateOf (.aggregate .count none false)).supplied q.dialect =
        q.suppliedBy .count := by
      simp only [suppliedBy, suppliedWhere, hd, Bool.false_eq_true, if_false, aggregateOf, bare,
        withColumns, Query.supplied, unwindowed, suppliedExprs, Expr.supplied, suppliedOption,
        suppliedSortKeys, List.append_assoc, List.append_nil, List.nil_append]
    rw [← he]
    exact (q.aggregateOf (.aggregate .count none false)).compile_reads q.dialect h

theorem command_reads {c : Command} {s : Statement} (h : q.command c = .ok s) :
    ∃ f, Reads (q.suppliedBy c) f ∧ s = f.statement q.dialect 0 := by
  cases c with
  | read =>
    obtain ⟨f, hf, rfl⟩ := ok_of_map h
    exact ⟨f, q.compile_reads q.dialect hf, rfl⟩
  | count =>
    obtain ⟨f, hf, rfl⟩ := ok_of_map h
    exact ⟨f, countingFragment_reads hf, rfl⟩
  | insert row =>
    obtain ⟨f, hf, rfl⟩ := ok_of_map h
    exact ⟨f, insertionFragment_reads hf, rfl⟩
  | insertMany rows =>
    obtain ⟨f, hf, rfl⟩ := ok_of_map h
    exact ⟨f, batchInsertionFragment_reads hf, rfl⟩
  | update assignments =>
    obtain ⟨f, hf, rfl⟩ := ok_of_map h
    exact ⟨f, updatingFragment_reads hf, rfl⟩
  | delete =>
    obtain ⟨f, hf, rfl⟩ := ok_of_map h
    exact ⟨f, deletionFragment_reads hf, rfl⟩
  | upsert rows uniqueBy update =>
    obtain ⟨f, hf, rfl⟩ := ok_of_map h
    exact ⟨f, upsertionFragment_reads hf, rfl⟩

end Fragments

/-- The text and the parameters of a statement spell what is supplied to it, from the first
placeholder on, and the parameters are all values that are not left to their defaults. -/
theorem command_spells (q : Query) (c : Command) (s : Statement) (h : q.command c = .ok s) :
    Spells q.dialect 0 (q.suppliedBy c) s.sql.toList s.values ∧
      s.values = Supplied.params (q.suppliedBy c) := by
  obtain ⟨f, hf, rfl⟩ := command_reads h
  have hs : Spells q.dialect 0 (q.suppliedBy c) (f.statement q.dialect 0).sql.toList
      (f.statement q.dialect 0).values := by
    simp only [Fragment.statement, Fragment.write, String.toList_ofList]
    exact hf.spells q.dialect 0
  exact ⟨hs, hs.params_eq⟩

/-- Orders by their price, by their number or by their tags, of which no item is a book. -/
def pricedOrders : Query :=
  ((((on "orders" .postgres).filter
    (.compare (.arithmetic (.literal (.int32 2)) .mul (.column "price")) .gt (.text "9"))).orFilter
    (.isIn (.column "id") [.int32 1, .default] false)).filter
    (.marked "tags ?? ?" [.text "new"])).scope
    (.existsRow ((on "items" .mysql).filterEq "kind" (.text "book")) true)

def reopening : Command :=
  .update (NameMap.ofList [("state", .text "open"), ("seen", .default)])

/-- The keyword among the assignments and the one in the list take no number. -/
def reopeningStatement : Statement where
  sql := "UPDATE \"orders\" SET \"seen\" = DEFAULT, \"state\" = $1 WHERE " ++
    "(($2 * \"price\") > $3 OR \"id\" IN ($4, DEFAULT) AND (tags ? $5)) AND " ++
    "NOT EXISTS (SELECT * FROM \"items\" WHERE \"kind\" = $6)"
  values := [.text "open", .int32 2, .text "9", .int32 1, .text "new", .text "book"]

theorem command_spells_pricedOrders :
    pricedOrders.command reopening = .ok reopeningStatement ∧
      Spells .postgres 0 (pricedOrders.suppliedBy reopening) reopeningStatement.sql.toList
        reopeningStatement.values ∧
      reopeningStatement.values = Supplied.params (pricedOrders.suppliedBy reopening) := by
  have h : pricedOrders.command reopening = .ok reopeningStatement := rfl
  exact ⟨h, command_spells pricedOrders reopening reopeningStatement h⟩

end Query

end RecordMapper
