import RecordMapper.Proofs.Query.Compiling
import RecordMapper.Proofs.Query.OnePass

/-!
What stands in front of a tree shifts the numbers of its placeholders and nothing else.

* `Fragment.added` is a fragment behind the values of a list: its text, and the list with the
  values of the fragment.
* `Expr.compileInto_run`, `Condition.compileInto_run` and `Query.compileInto_run`: what is compiled
  in one pass is the fragment of the tree, added to the list. They are one induction over the
  syntax.
* `ShiftsNumbers` says what this means for offsets and lists, and `compileInto_shifts` that it holds
  of expressions, conditions and queries.
-/
namespace RecordMapper

set_option autoImplicit false

/-! ## What is written -/

namespace Fragment

variable (d : Dialect) (offset : Nat) (params : List Value)

/-- The text of a fragment after `offset` values and those of a list, and the list with the values
of the fragment. -/
def added (f : Fragment) : String × List Value :=
  (f.write d (offset + params.length), params ++ f.values)

def allAdded (fs : List Fragment) : List String × List Value :=
  (writeAll d (offset + params.length) fs, params ++ fs.flatMap values)

def optionAdded (f : Option Fragment) : Option String × List Value :=
  (f.map (write d (offset + params.length)), params ++ (f.map values).getD [])

end Fragment

/-! ## Steps -/

section Steps

variable {α β γ δ : Type} {params : List Value}

/-- After a step that is the same in both ways of compiling, only the rest is to be compared. -/
theorem run_bind_of_ok {m : Compiling α} {k : α → Compiling γ} {c : Result β} {g : β → Result δ}
    {written : β → α × List Value} {r : δ → γ × List Value} (hm : m.run params = c.map written)
    (hk : ∀ b, c = .ok b → (k (written b).1).run (written b).2 = (g b).map r) :
    (m >>= k).run params = (c >>= g).map r := by
  rw [StateT.run_bind, hm]
  cases c with
  | error e => rfl
  | ok b => exact hk b rfl

theorem run_bind {m : Compiling α} {k : α → Compiling γ} {c : Result β} {g : β → Result δ}
    {written : β → α × List Value} {r : δ → γ × List Value} (hm : m.run params = c.map written)
    (hk : ∀ b, (k (written b).1).run (written b).2 = (g b).map r) :
    (m >>= k).run params = (c >>= g).map r :=
  run_bind_of_ok hm fun b _ => hk b

theorem run_pure {a : α} {b : β} {written : β → α × List Value} (h : (a, params) = written b) :
    (pure a : Compiling α).run params = (pure b : Result β).map written :=
  congrArg Except.ok h

variable (d : Dialect) (offset : Nat)

theorem Compiling.bind_run (v : Value) :
    (Compiling.bind d offset v).run params = .ok ((Fragment.bind v).added d offset params) := by
  cases v <;> simp [Compiling.bind, Fragment.bind, Fragment.added, Nat.add_assoc] <;> rfl

/-- A value is no step of its own for a fragment. -/
theorem run_bind_value (v : Value) {k : String → Compiling γ} {c : Result δ}
    {r : δ → γ × List Value}
    (hk : (k ((Fragment.bind v).write d (offset + params.length))).run
      (params ++ (Fragment.bind v).values) = c.map r) :
    (Compiling.bind d offset v >>= k).run params = c.map r := by
  rw [StateT.run_bind, Compiling.bind_run]
  exact hk

theorem run_bind_values (values : List Value) {k : List String → Compiling γ} {c : Result δ}
    {r : δ → γ × List Value}
    (hk : (k (Fragment.allAdded d offset params (values.map Fragment.bind)).1).run
      (Fragment.allAdded d offset params (values.map Fragment.bind)).2 = c.map r) :
    (values.mapM (Compiling.bind d offset) >>= k).run params = c.map r := by
  induction values generalizing params k with
  | nil =>
    rw [List.mapM_nil, pure_bind]
    simpa [Fragment.allAdded, Fragment.writeAll] using hk
  | cons v rest ih =>
    rw [List.mapM_cons, bind_assoc]
    refine run_bind_value d offset v ?_
    rw [bind_assoc]
    refine ih ?_
    rw [pure_bind]
    simpa [Fragment.allAdded, Fragment.writeAll, Nat.add_assoc] using hk

end Steps

/-! ## Parts -/

section Parts

open Fragment

variable (d : Dialect) (bound : Nat)

@[simp] theorem write_call (function : String) (f : Fragment) :
    write d bound (call function f) = callText function (f.write d bound) := by
  simp [call, parens, callText, String.append_assoc]

@[simp] theorem values_call (function : String) (f : Fragment) :
    values (call function f) = f.values := by
  simp [call, parens]

@[simp] theorem write_between (op : Comparison) (f g : Fragment) :
    write d bound (op.between d f g) =
      op.textBetween d (f.write d bound) (g.write d (bound + f.values.length)) := by
  unfold Comparison.between Comparison.textBetween
  split <;> simp [String.append_assoc]

@[simp] theorem values_between (op : Comparison) (f g : Fragment) :
    values (op.between d f g) = f.values ++ g.values := by
  unfold Comparison.between
  split <;> simp

theorem values_comparison (c : ColumnComparison) : values (c.compile d) = [] := by
  simp [ColumnComparison.compile]

theorem write_comparison (c : ColumnComparison) : write d bound (c.compile d) = c.sql d := by
  simp [ColumnComparison.compile, ColumnComparison.sql]

theorem values_join (j : Join) : values (j.compile d) = [] := by
  obtain ⟨kind, table, label, on⟩ := j
  have hon := flatMap_values_map (ColumnComparison.compile d) (values_comparison d) on
  cases label <;> simp only [Join.compile] <;> split <;> simp [hon]

theorem write_join (j : Join) : write d bound (j.compile d) = j.sql d := by
  obtain ⟨kind, table, label, on⟩ := j
  have hon := writeAll_map d bound (ColumnComparison.compile d) (values_comparison d) on
  have hsql : (on.map fun c => (c.compile d).write d bound) = on.map (ColumnComparison.sql d) :=
    List.map_congr_left fun c _ => write_comparison d bound c
  rw [hsql] at hon
  cases label <;> simp only [Join.compile, Join.sql] <;> split <;>
    simp [hon, String.append_assoc]

theorem values_joins (joins : List Join) : values (joins.flatMap (Join.compile d)) = [] := by
  induction joins with
  | nil => rfl
  | cons j rest ih => simp [values_join, ih]

theorem write_joins (joins : List Join) :
    write d bound (joins.flatMap (Join.compile d)) = String.join (joins.map (Join.sql d)) := by
  induction joins with
  | nil => rfl
  | cons j rest ih => simp [write_join, values_join, ih]

@[simp] theorem write_extract (part : DatePart) (f : Fragment) :
    write d bound (part.extract d f) = part.sql d (f.write d bound) := by
  unfold DatePart.extract DatePart.sql
  cases d with
  | postgres | sqlite => simp [String.append_assoc]
  | mysql | mariadb => by_cases hpart : part = .dayOfWeek <;> simp [hpart, String.append_assoc]

@[simp] theorem values_extract (part : DatePart) (f : Fragment) :
    values (part.extract d f) = f.values := by
  cases d <;> cases part <;> simp [DatePart.extract]

@[simp] theorem write_dateOf (f : Fragment) :
    write d bound (dateOf d f) = dateText d (f.write d bound) := by
  cases d <;> simp [dateOf, dateText, String.append_assoc]

@[simp] theorem values_dateOf (f : Fragment) : values (dateOf d f) = f.values := by
  cases d <;> simp [dateOf]

@[simp] theorem write_currentMoment :
    write d bound (currentMoment d) = currentMomentText d := by
  cases d <;> simp [currentMoment, currentMomentText, Fragment.text]

@[simp] theorem values_currentMoment : values (currentMoment d) = [] := by
  cases d <;> rfl

theorem write_window (limit offset : Option Nat) :
    write d bound (window d limit offset) = windowText d limit offset := by
  unfold window windowText
  cases limit <;> cases offset <;> cases d <;> simp [Fragment.text]

theorem joined_pair (separator a b : String) :
    Text.joined separator [a, b] = a ++ separator ++ b := by
  rw [Text.joined_cons_cons, Text.joined_singleton]

theorem joined_triple (separator a b c : String) :
    Text.joined separator [a, b, c] = a ++ separator ++ b ++ separator ++ c := by
  rw [Text.joined_cons_cons, joined_pair]
  simp only [String.append_assoc]

end Parts

section Steps

variable (d : Dialect) (offset : Nat) (params : List Value)

theorem run_lift {α : Type} (c : Result α) :
    (liftM c : Compiling α).run params = c.map fun a => (a, params) := by
  cases c <;> rfl

theorem run_table (table : String) :
    (liftM (tableText d table) : Compiling String).run params =
      (tableFragment table).map (Fragment.added d offset params) := by
  rw [run_lift]
  unfold tableText tableFragment
  split
  · rfl
  · exact congrArg Except.ok (by simp [Fragment.added])

theorem JsonPath.extractInto_run (path : JsonPath) (column : String) :
    (path.extractInto d offset column).run params =
      (pure (path.extract d column) : Result Fragment).map (Fragment.added d offset params) := by
  cases d <;>
    exact run_bind_value _ offset _ (run_pure (by
      simp [JsonPath.extract, Fragment.added, String.append_assoc]))

/-! ## Trusted SQL -/

namespace Marked

/-- The pieces of a text that has a value for each marker. -/
def piecesOr (more : Fault) (cs : List Char) (values : List Value) : Result (Fragment × Nat) :=
  (pieces cs values).elim (.error more) pure

theorem map_piecesOr {more : Fault} {cs rest : List Char} {values after : List Value}
    {h : Fragment × Nat → Fragment × Nat} (hcs : pieces cs values = (pieces rest after).map h) :
    piecesOr more cs values = piecesOr more rest after >>= fun q => pure (h q) := by
  unfold piecesOr
  rw [hcs]
  cases pieces rest after <;> rfl

theorem replaced_run (more : Fault) (cs : List Char) (values : List Value) :
    (replaced d offset more cs values).run params =
      (piecesOr more cs values).map fun q =>
        (((q.1.added d offset params).1, q.2), (q.1.added d offset params).2) := by
  induction cs, values using pieces.induct generalizing params with
  | case1 values => exact run_pure (by simp [Fragment.added])
  | case2 rest values ih =>
    have hpieces : pieces ('?' :: '?' :: rest) values =
        (pieces rest values).map fun q => (.text "?" :: q.1, q.2) := by
      rw [pieces]
    rw [replaced, map_piecesOr hpieces]
    exact run_bind (ih params) fun q => run_pure (by simp [Fragment.added])
  | case3 rest hrest =>
    rw [replaced, piecesOr, pieces]
    · rfl
    all_goals exact hrest
  | case4 rest v values hrest ih =>
    have hpieces : pieces ('?' :: rest) (v :: values) =
        (pieces rest values).map fun q => (Fragment.bind v ++ q.1, q.2 + 1) := by
      rw [pieces]
      exact hrest
    rw [replaced, map_piecesOr hpieces]
    · exact run_bind_value d offset v (run_bind (ih _) fun q =>
        run_pure (by simp [Fragment.added, Nat.add_assoc]))
    · exact hrest
  | case5 c rest values h₁ h₂ h₃ ih =>
    have hpieces : pieces (c :: rest) values =
        (pieces rest values).map fun q => (.text c.toString :: q.1, q.2) := by
      rw [pieces]
      all_goals assumption
    rw [replaced, map_piecesOr hpieces]
    · exact run_bind (ih params) fun q => run_pure (by simp [Fragment.added])
    all_goals assumption

theorem compileInto_run (sql : String) (values : List Value) :
    (Marked.compileInto d offset sql values).run params =
      (Marked.compile sql values).map (Fragment.added d offset params) := by
  have hcompile : Marked.compile sql values =
      piecesOr (moreMarkers sql values) sql.toList values >>= fun q =>
        if q.2 = values.length then pure q.1 else .error (fewerMarkers sql q.2 values) := by
    unfold Marked.compile piecesOr
    cases pieces sql.toList values <;> rfl
  rw [hcompile]
  refine run_bind (replaced_run d offset params _ _ _) fun q => ?_
  by_cases hused : q.2 = values.length
  · simp only [if_pos hused]
    exact run_pure rfl
  · simp only [if_neg hused]
    rfl

end Marked

end Steps

/-! ## Chains -/

section Chains

open Fragment

variable (d : Dialect) (bound : Nat)

theorem values_eq_nil_of_isBlank {f : Fragment} (h : f.isBlank = true) : f.values = [] := by
  induction f with
  | nil => rfl
  | cons p rest ih =>
    simp only [isBlank, List.all_cons, Bool.and_eq_true] at h
    cases p with
    | text sql => exact ih h.2
    | name identifier => exact (Bool.false_ne_true h.1).elim
    | hole v => exact (Bool.false_ne_true h.1).elim

theorem isEmpty_append (a b : String) : (a ++ b).isEmpty = (a.isEmpty && b.isEmpty) := by
  rw [Bool.eq_iff_iff]
  simp

theorem isEmpty_write (f : Fragment) : (f.write d bound).isEmpty = f.isBlank := by
  induction f generalizing bound with
  | nil => rfl
  | cons p rest ih =>
    cases p with
    | text sql => rw [write_text, isEmpty_append, ih]; rfl
    | name identifier =>
      rw [write_name, isEmpty_append]
      have hname : (d.quoteName identifier).isEmpty = false := by
        simp [Dialect.quoteName, Dialect.quoteChars]
      rw [hname]; rfl
    | hole v =>
      rw [write_hole, isEmpty_append]
      have hname : (String.ofList (d.placeholder (bound + 1))).isEmpty = false := by
        cases d <;> simp [Dialect.placeholder]
      rw [hname]; rfl

/-- The text of a chain. -/
def Chain.written (chain : Chain) : TextChain := ⟨chain.fragment.write d bound, chain.hasOr⟩

theorem Chain.written_empty : Chain.empty.written d bound = ⟨"", false⟩ := rfl

theorem Chain.values_empty : Chain.empty.fragment.values = [] := rfl

theorem Chain.written_append (chain : Chain) (connective : Connective) (f : Fragment) :
    (chain.append connective f).written d bound =
      (chain.written d bound).append connective
        (f.write d (bound + chain.fragment.values.length)) := by
  unfold Chain.append TextChain.append Chain.written
  rw [isEmpty_write]
  split
  · next hblank => simp [values_eq_nil_of_isBlank hblank]
  · simp [String.append_assoc]

theorem Chain.values_append (chain : Chain) (connective : Connective) (f : Fragment) :
    (chain.append connective f).fragment.values = chain.fragment.values ++ f.values := by
  unfold Chain.append
  split
  · next hblank => simp [values_eq_nil_of_isBlank hblank]
  · simp

theorem write_listed (keyword separator : String) (empty : Bool) (fs : List Fragment) :
    write d bound (clause keyword (if empty then none else some (joined separator fs))) =
      clauseText keyword
        (if empty then none else some (Text.joined separator (writeAll d bound fs))) := by
  cases empty <;> simp [clause, clauseText]

theorem values_listed (keyword separator : String) {empty : Bool} {fs : List Fragment}
    (h : fs.isEmpty = empty) :
    values (clause keyword (if empty then none else some (joined separator fs))) =
      fs.flatMap values := by
  subst h
  cases fs <;> simp [clause]

theorem writeAll_paths (paths : List String) :
    writeAll d bound (paths.map path) = paths.map d.quotePath := by
  rw [writeAll_map d bound path values_path]
  exact List.map_congr_left fun p _ => write_path d bound p

theorem values_groups (groups : List String) :
    values (clause " GROUP BY "
      (if groups.isEmpty then none else some (joined ", " (groups.map path)))) = [] := by
  rw [values_listed _ _ List.isEmpty_map, flatMap_values_map path values_path]

/-- A list of its own behind a word, if there are any fragments. -/
theorem writeAll_headed (word : String) (fs : List Fragment) :
    writeAll d bound (if fs.isEmpty then [] else [.text word :: joined ", " fs]) =
      if fs.isEmpty then [] else [word ++ Text.joined ", " (writeAll d bound fs)] := by
  cases fs <;> simp [writeAll]

theorem flatMap_values_headed (word : String) (fs : List Fragment) :
    List.flatMap values (if fs.isEmpty then [] else [.text word :: joined ", " fs]) =
      fs.flatMap values := by
  cases fs <;> simp

theorem write_columns (empty : Bool) (fs : List Fragment) :
    write d bound (if empty then Fragment.text "*" else joined ", " fs) =
      if empty then "*" else Text.joined ", " (writeAll d bound fs) := by
  cases empty <;> simp [Fragment.text]

theorem values_columns {empty : Bool} {fs : List Fragment} (h : fs.isEmpty = empty) :
    values (if empty then Fragment.text "*" else joined ", " fs) = fs.flatMap values := by
  subst h
  cases fs <;> simp [Fragment.text]

theorem write_conjunction (keyword : String) (chain : Chain) (grouped : Bool)
    (fs : List Fragment) :
    write d bound (clause keyword (conjunction chain grouped fs)) =
      clauseText keyword (conjunctionText (chain.written d bound) grouped
        (writeAll d (bound + chain.fragment.values.length) fs)) := by
  unfold conjunction conjunctionText Chain.written
  rw [isEmpty_write]
  split
  · next hblank =>
    simp only [List.nil_append, isEmpty_writeAll, values_eq_nil_of_isBlank hblank,
      List.length_nil, Nat.add_zero]
    exact write_listed d bound keyword " AND " _ fs
  · split <;> simp [writeAll, parens, String.append_assoc, clauseText, clause]

theorem values_conjunction (keyword : String) (chain : Chain) (grouped : Bool)
    (fs : List Fragment) :
    values (clause keyword (conjunction chain grouped fs)) =
      chain.fragment.values ++ fs.flatMap values := by
  unfold conjunction
  rw [values_listed keyword " AND " rfl]
  split
  · next hblank => simp [values_eq_nil_of_isBlank hblank]
  · split <;> simp [parens]

end Chains

/-! ## Trees -/

section Trees

open Fragment

mutual

theorem Expr.compileInto_run (d : Dialect) (offset : Nat) (e : Expr) (params : List Value) :
    (e.compileInto d offset).run params = (e.compile d).map (added d offset params) := by
  cases e with
  | column path => exact run_pure (by simp [added])
  | literal value => exact Compiling.bind_run d offset value
  | named e name =>
    exact run_bind (e.compileInto_run d offset params) fun f => run_pure (by
      simp [added, String.append_assoc])
  | marked sql values => exact Marked.compileInto_run d offset params sql values
  | cast e type =>
    exact run_bind (e.compileInto_run d offset params) fun f => run_pure (by
      simp [added, String.append_assoc])
  | arithmetic left op right =>
    exact run_bind (left.compileInto_run d offset params) fun l =>
      run_bind (right.compileInto_run d offset _) fun r => run_pure (by
        simp [added, Nat.add_assoc, String.append_assoc])
  | compare left op right =>
    exact run_bind (left.compileInto_run d offset params) fun l =>
      run_bind (right.compileInto_run d offset _) fun r => run_pure (by
        simp [added, parens, Nat.add_assoc, String.append_assoc])
  | concat parts =>
    simp only [Expr.compileInto, Expr.compile]
    split
    · rfl
    · refine run_bind (compileExprsInto_run d offset parts params) fun fs => run_pure ?_
      split <;> simp [added, allAdded, parens, String.append_assoc]
  | textCall function e =>
    exact run_bind (e.compileInto_run d offset params) fun f => run_pure (by simp [added])
  | substring e start length =>
    refine run_bind (e.compileInto_run d offset params) fun f => ?_
    refine run_bind_value d offset (.int64 start) ?_
    cases length with
    | none => exact run_pure (by simp [added, Nat.add_assoc, String.append_assoc])
    | some n =>
      exact run_bind_value d offset (.int64 n) (run_pure (by
        simp [added, Nat.add_assoc, String.append_assoc]))
  | replace e pattern replacement =>
    exact run_bind (e.compileInto_run d offset params) fun f =>
      run_bind (pattern.compileInto_run d offset _) fun p =>
        run_bind (replacement.compileInto_run d offset _) fun r => run_pure (by
          simp [added, writeAll, joined_triple, Nat.add_assoc, String.append_assoc])
  | extract part e =>
    exact run_bind (e.compileInto_run d offset params) fun f => run_pure (by simp [added])
  | dateOf e =>
    exact run_bind (e.compileInto_run d offset params) fun f => run_pure (by simp [added])
  | now => exact run_pure (by simp [added])
  | coalesce choices =>
    exact run_bind (compileExprsInto_run d offset choices params) fun fs =>
      run_pure (by simp [added, allAdded])
  | nullIf left right =>
    exact run_bind (left.compileInto_run d offset params) fun l =>
      run_bind (right.compileInto_run d offset _) fun r => run_pure (by
        simp [added, writeAll, joined_pair, Nat.add_assoc])
  | aggregate function argument distinct =>
    refine run_bind (compileArgumentInto_run d offset argument params) fun f => run_pure ?_
    cases distinct <;> simp [added]
  | case branches otherwise =>
    simp only [Expr.compileInto, Expr.compile]
    split
    · rfl
    · exact run_bind (compileBranchesInto_run d offset branches params) fun bs =>
        run_bind (compileOtherwiseInto_run d offset otherwise _) fun o => run_pure (by
          simp [added, Nat.add_assoc, String.append_assoc])
  | json column path =>
    exact run_bind (run_lift params (JsonPath.read path)) fun steps =>
      steps.extractInto_run d offset params column
  | subquery query =>
    exact run_bind (query.compileInto_run d offset params) fun f => run_pure (by
      simp [added, parens, String.append_assoc])
  | window e partition order =>
    refine run_bind (e.compileInto_run d offset params) fun f =>
      run_bind (compileExprsInto_run d offset partition _) fun ps =>
        run_bind (compileSortKeysInto_run d offset order _) fun os => run_pure ?_
    simp only [added, allAdded, write_append, write_text, write_nil, write_joined, writeAll_append,
      writeAll_headed, values_append, values, values_joined, flatMap_values_headed,
      List.flatMap_append, List.length_append, isEmpty_writeAll, List.append_assoc,
      List.append_nil, Nat.add_assoc, String.append_assoc, String.append_empty]
termination_by structural e

theorem compileExprsInto_run (d : Dialect) (offset : Nat) (es : List Expr) (params : List Value) :
    (compileExprsInto d offset es).run params =
      (compileExprs d es).map (allAdded d offset params) := by
  cases es with
  | nil => exact run_pure (by simp [allAdded, writeAll])
  | cons e rest =>
    exact run_bind (e.compileInto_run d offset params) fun f =>
      run_bind (compileExprsInto_run d offset rest _) fun fs => run_pure (by
        simp [added, allAdded, writeAll, Nat.add_assoc])
termination_by structural es

theorem compileArgumentInto_run (d : Dialect) (offset : Nat) (argument : Option Expr)
    (params : List Value) :
    (compileArgumentInto d offset argument).run params =
      (compileArgument d argument).map (added d offset params) := by
  cases argument with
  | none => exact run_pure (by simp [added, Fragment.text])
  | some e => exact e.compileInto_run d offset params
termination_by structural argument

theorem compileBranchesInto_run (d : Dialect) (offset : Nat) (bs : List Branch)
    (params : List Value) :
    (compileBranchesInto d offset bs).run params =
      (compileBranches d bs).map (added d offset params) := by
  cases bs with
  | nil => exact run_pure (by simp [added])
  | cons b rest =>
    exact run_bind (b.compileInto_run d offset params) fun f =>
      run_bind (compileBranchesInto_run d offset rest _) fun fs => run_pure (by
        simp [added, Nat.add_assoc])
termination_by structural bs

theorem Branch.compileInto_run (d : Dialect) (offset : Nat) (b : Branch) (params : List Value) :
    (b.compileInto d offset).run params = (b.compile d).map (added d offset params) := by
  cases b with
  | mk condition result =>
    exact run_bind (condition.compileInto_run d offset params) fun c =>
      run_bind (result.compileInto_run d offset _) fun r => run_pure (by
        simp [added, Nat.add_assoc, String.append_assoc])
termination_by structural b

theorem compileOtherwiseInto_run (d : Dialect) (offset : Nat) (otherwise : Option Expr)
    (params : List Value) :
    (compileOtherwiseInto d offset otherwise).run params =
      (compileOtherwise d otherwise).map (added d offset params) := by
  cases otherwise with
  | none => exact run_pure (by simp [added])
  | some e =>
    exact run_bind (e.compileInto_run d offset params) fun f => run_pure (by simp [added])
termination_by structural otherwise

theorem SortKey.compileInto_run (d : Dialect) (offset : Nat) (k : SortKey) (params : List Value) :
    (k.compileInto d offset).run params = (k.compile d).map (added d offset params) := by
  cases k with
  | mk e direction =>
    refine run_bind (e.compileInto_run d offset params) fun f => run_pure ?_
    cases direction <;> simp [added, String.append_assoc]
termination_by structural k

theorem compileSortKeysInto_run (d : Dialect) (offset : Nat) (ks : List SortKey)
    (params : List Value) :
    (compileSortKeysInto d offset ks).run params =
      (compileSortKeys d ks).map (allAdded d offset params) := by
  cases ks with
  | nil => exact run_pure (by simp [allAdded, writeAll])
  | cons k rest =>
    exact run_bind (k.compileInto_run d offset params) fun f =>
      run_bind (compileSortKeysInto_run d offset rest _) fun fs => run_pure (by
        simp [added, allAdded, writeAll, Nat.add_assoc])
termination_by structural ks

theorem Condition.compileInto_run (d : Dialect) (offset : Nat) (c : Condition)
    (params : List Value) :
    (c.compileInto d offset).run params = (c.compile d).map (optionAdded d offset params) := by
  cases c with
  | compare target op value =>
    refine run_bind (target.compileInto_run d offset params) fun f => ?_
    split
    · exact run_pure (by simp [added, optionAdded])
    · exact run_pure (by simp [added, optionAdded])
    · next h₁ h₂ =>
      refine run_bind_value d offset value (run_pure ?_)
      -- The fragment is chosen by the same match, of which two cases are excluded here.
      try split
      all_goals first
        | exact (h₁ rfl rfl).elim
        | exact (h₂ rfl rfl).elim
        | simp [added, optionAdded, Nat.add_assoc]
  | isIn target values negated =>
    simp only [Condition.compileInto, Condition.compile]
    split
    · cases negated <;> exact run_pure (by simp [optionAdded, Fragment.text])
    · refine run_bind (target.compileInto_run d offset params) fun f => ?_
      exact run_bind_values d offset values (run_pure (by
        simp [added, allAdded, optionAdded, Nat.add_assoc, String.append_assoc]))
  | isNull target negated =>
    exact run_bind (target.compileInto_run d offset params) fun f => run_pure (by
      simp [added, optionAdded, String.append_assoc])
  | between target low high negated =>
    exact run_bind (target.compileInto_run d offset params) fun f =>
      run_bind_value d offset low (run_bind_value d offset high (run_pure (by
        simp [added, optionAdded, Nat.add_assoc, String.append_assoc])))
  | columns comparison =>
    exact run_pure (by simp [optionAdded, write_comparison, values_comparison])
  | marked sql values =>
    exact run_bind (Marked.compileInto_run d offset params sql values) fun f => run_pure (by
      simp [added, optionAdded, parens, String.append_assoc])
  | existsRow query negated =>
    exact run_bind (query.compileInto_run d offset params) fun f => run_pure (by
      simp [added, optionAdded])
  | holds e =>
    exact run_bind (e.compileInto_run d offset params) fun f => run_pure (by
      simp [added, optionAdded])
termination_by structural c

theorem compileLinksInto_run (d : Dialect) (offset : Nat) (chain : Chain) (links : List Link)
    (params : List Value) :
    (compileLinksInto d offset (chain.written d (offset + params.length)) links).run
        (params ++ chain.fragment.values) =
      (compileLinks d chain links).map fun chain =>
        (chain.written d (offset + params.length), params ++ chain.fragment.values) := by
  cases links with
  | nil => exact run_pure rfl
  | cons l rest =>
    exact run_bind (l.compileInto_run d offset chain params) fun chain =>
      compileLinksInto_run d offset chain rest params
termination_by structural links

theorem Link.compileInto_run (d : Dialect) (offset : Nat) (chain : Chain) (l : Link)
    (params : List Value) :
    (l.compileInto d offset (chain.written d (offset + params.length))).run
        (params ++ chain.fragment.values) =
      (l.compile d chain).map fun chain =>
        (chain.written d (offset + params.length), params ++ chain.fragment.values) := by
  cases l with
  | mk connective condition =>
    refine run_bind (condition.compileInto_run d offset _) fun f => run_pure ?_
    cases f with
    | none => simp [optionAdded]
    | some f => simp [optionAdded, Chain.written_append, Chain.values_append, Nat.add_assoc]
termination_by structural l

theorem compileScopesInto_run (d : Dialect) (offset : Nat) (cs : List Condition)
    (params : List Value) :
    (compileScopesInto d offset cs).run params =
      (compileScopes d cs).map (allAdded d offset params) := by
  cases cs with
  | nil => exact run_pure (by simp [allAdded, writeAll])
  | cons c rest =>
    refine run_bind (c.compileInto_run d offset params) fun f =>
      run_bind (compileScopesInto_run d offset rest _) fun fs => run_pure ?_
    cases f <;> simp [optionAdded, allAdded, writeAll, Nat.add_assoc]
termination_by structural cs

theorem Query.compileInto_run (d : Dialect) (offset : Nat) (q : Query) (params : List Value) :
    (q.compileInto d offset).run params = (q.compile d).map (added d offset params) := by
  cases q with
  | mk table dialect key columns distinct joins filters scopes groups havings orders limit
      skipped =>
    have hfilters := compileLinksInto_run d offset .empty filters
    have hhavings := compileLinksInto_run d offset .empty havings
    simp only [Chain.written_empty, Chain.values_empty, List.append_nil] at hfilters hhavings
    refine run_bind_of_ok (compileExprsInto_run d offset columns params) fun cs hcs =>
      run_bind (run_table d offset _ table) fun t =>
        run_bind (hfilters _) fun chain =>
          run_bind (compileScopesInto_run d offset scopes _) fun ss =>
            run_bind (hhavings _) fun having =>
              run_bind_of_ok (compileSortKeysInto_run d offset orders _) fun os hos =>
                run_pure ?_
    -- Whether there are columns and orders is asked of the query, not of what they compile to.
    simp only [added, allAdded, write_append, write_text, write_columns, write_joins,
      write_conjunction, write_listed, write_window, writeAll, writeAll_paths, values_append,
      values, values_columns (compileExprs_isEmpty hcs), values_joins, values_conjunction,
      values_groups,
      values_listed " ORDER BY " ", " (compileSortKeys_isEmpty hos), Query.values_window,
      List.cons_append, List.nil_append, List.append_nil, List.append_assoc, List.flatMap_nil,
      List.length_append, List.length_nil, Nat.add_zero, Nat.add_assoc, String.append_assoc]
termination_by structural q

end

end Trees

/-! ## Offsets -/

/-- Texts with a place for a value between each two. -/
structure Template where
  texts : List String
  values : List Value
  fits : texts.length = values.length + 1

def Fragment.template (d : Dialect) (f : Fragment) : Template :=
  ⟨f.cuts d, f.values, length_cuts d f⟩

/-- The text behind `offset` values, and the values. -/
def Template.filled (d : Dialect) (offset : Nat) : Option Template → Option String × List Value
  | some t => (some (d.fill offset t.texts), t.values)
  | none => (none, [])

/-- What is compiled in one pass is `compiled`, whatever the offset and the values in front. They
count for the numbers of the placeholders alone. -/
structure ShiftsNumbers (d : Dialect) (compiled : Result (Option Fragment))
    (pass : Nat → Compiling (Option String)) : Prop where
  written : ∀ offset params,
    (pass offset).run params = compiled.map (Fragment.optionAdded d offset params)
  /-- Values in front count as the offset does. They stay, and the values of the tree follow. -/
  appends : ∀ offset params, (pass offset).run params =
    ((pass (offset + params.length)).run []).map fun (sql, values) => (sql, params ++ values)
  /-- All offsets have one error, or the same texts between the placeholders and the same values. -/
  shifts : ∃ outcome : Result (Option Template),
    ∀ offset, (pass offset).run [] = outcome.map (Template.filled d offset)
  /-- Placeholders without numbers do not change at all. -/
  unnumbered : d ≠ .postgres →
    ∀ offset offset' params, (pass offset).run params = (pass offset').run params

section Offsets

open Fragment

variable {d : Dialect} {compiled : Result (Option Fragment)}
  {pass : Nat → Compiling (Option String)}

theorem optionAdded_eq (offset : Nat) (params : List Value) (f : Option Fragment) :
    optionAdded d offset params f =
      ((optionAdded d (offset + params.length) [] f).1,
        params ++ (optionAdded d (offset + params.length) [] f).2) := by
  simp [optionAdded]

theorem optionAdded_nil (offset : Nat) (f : Option Fragment) :
    optionAdded d offset [] f = Template.filled d offset (f.map (template d)) := by
  cases f with
  | none => rfl
  | some f => simp [optionAdded, Template.filled, template, write_eq_fill]

theorem optionAdded_unnumbered (h : d ≠ .postgres) (offset offset' : Nat) (params : List Value)
    (f : Option Fragment) : optionAdded d offset params f = optionAdded d offset' params f := by
  cases f with
  | none => rfl
  | some f =>
    have hfill := Dialect.fill_unnumbered h (offset + params.length) (offset' + params.length)
      (f.cuts d)
    rw [← write_eq_fill, ← write_eq_fill] at hfill
    simp [optionAdded, hfill]

theorem ShiftsNumbers.of_written
    (h : ∀ offset params, (pass offset).run params = compiled.map (optionAdded d offset params)) :
    ShiftsNumbers d compiled pass where
  written := h
  appends offset params := by
    rw [h, h]
    cases compiled with
    | error e => rfl
    | ok f => exact congrArg Except.ok (optionAdded_eq offset params f)
  shifts := by
    refine ⟨compiled.map (Option.map (template d)), fun offset => ?_⟩
    rw [h]
    cases compiled with
    | error e => rfl
    | ok f => exact congrArg Except.ok (optionAdded_nil offset f)
  unnumbered hd offset offset' params := by
    rw [h, h]
    cases compiled with
    | error e => rfl
    | ok f => exact congrArg Except.ok (optionAdded_unnumbered hd offset offset' params f)

/-- A text that is always there. -/
theorem run_some {m : Compiling String} {c : Result Fragment} {offset : Nat} {params : List Value}
    (h : m.run params = c.map (added d offset params)) :
    (some <$> m).run params = (c.map some).map (optionAdded d offset params) := by
  rw [StateT.run_map, h]
  cases c <;> rfl

end Offsets

theorem compileInto_shifts (d : Dialect) :
    (∀ e : Expr, ShiftsNumbers d ((e.compile d).map some) fun offset =>
      some <$> e.compileInto d offset) ∧
    (∀ c : Condition, ShiftsNumbers d (c.compile d) fun offset => c.compileInto d offset) ∧
    (∀ q : Query, ShiftsNumbers d ((q.compile d).map some) fun offset =>
      some <$> q.compileInto d offset) :=
  ⟨fun e => .of_written fun offset params => run_some (e.compileInto_run d offset params),
    fun c => .of_written fun offset params => c.compileInto_run d offset params,
    fun q => .of_written fun offset params => run_some (q.compileInto_run d offset params)⟩

/-- Behind three values the first placeholder is the fourth. -/
example : ((Expr.compare (.arithmetic (.column "a") .add (.literal (.int32 1))) .gt
      (.literal (.text "x"))).compileInto .postgres 3).run [] =
    .ok ("((\"a\" + $4) > $5)", [.int32 1, .text "x"]) := by
  rfl

end RecordMapper
