import RecordMapper.Proofs.Query.Compiling
import RecordMapper.Proofs.Query.Supplied
import RecordMapper.Proofs.Statement.Lexemes

/-!
Every identifier of a query is written once, in reading order and in quotes of its own.

* `Expr.identifiers`, `Condition.identifiers` and `Query.identifiers` are the names of a tree in the
  order in which they are read. A condition about an empty list asks nothing of its target and has
  no names.
* `Expr.isBuilt`, `Condition.isBuilt` and `Query.isBuilt` tell whether a tree is free of trusted
  SQL.
* `Expr.compile_fenced`, `Condition.compile_fenced` and `Query.compile_fenced`: the fragment of such
  a tree has the names of the tree, apart from each other. They are one induction over the syntax.
-/
namespace RecordMapper

set_option autoImplicit false
set_option maxRecDepth 100000

open Fragment (segments)

/-! ## Names -/

def ColumnComparison.identifiers (c : ColumnComparison) : List String :=
  segments c.left ++ segments c.right

def Join.identifiers (j : Join) : List String :=
  segments j.table ++ (j.label.toList ++ j.on.flatMap ColumnComparison.identifiers)

mutual

def Expr.identifiers : Expr → List String
  | .column path => segments path
  | .literal _ => []
  | .named e name => e.identifiers ++ [name]
  | .marked _ _ => []
  | .cast e _ => e.identifiers
  | .arithmetic left _ right => left.identifiers ++ right.identifiers
  | .compare left _ right => left.identifiers ++ right.identifiers
  | .concat parts => identifiersOfExprs parts
  | .textCall _ e => e.identifiers
  | .substring e _ _ => e.identifiers
  | .replace e pattern replacement =>
    e.identifiers ++ (pattern.identifiers ++ replacement.identifiers)
  | .extract _ e => e.identifiers
  | .dateOf e => e.identifiers
  | .now => []
  | .coalesce choices => identifiersOfExprs choices
  | .nullIf left right => left.identifiers ++ right.identifiers
  | .aggregate _ argument _ => identifiersOfOption argument
  | .case branches otherwise => identifiersOfBranches branches ++ identifiersOfOption otherwise
  | .json column _ => segments column
  | .subquery query => query.identifiers
  | .window e partition order =>
    e.identifiers ++ (identifiersOfExprs partition ++ identifiersOfSortKeys order)

def identifiersOfExprs : List Expr → List String
  | [] => []
  | e :: rest => e.identifiers ++ identifiersOfExprs rest

def identifiersOfOption : Option Expr → List String
  | none => []
  | some e => e.identifiers

def Branch.identifiers : Branch → List String
  | { condition, result } => condition.identifiers ++ result.identifiers

def identifiersOfBranches : List Branch → List String
  | [] => []
  | b :: rest => b.identifiers ++ identifiersOfBranches rest

def SortKey.identifiers : SortKey → List String
  | { e, .. } => e.identifiers

def identifiersOfSortKeys : List SortKey → List String
  | [] => []
  | k :: rest => k.identifiers ++ identifiersOfSortKeys rest

def Condition.identifiers : Condition → List String
  | .compare target _ _ => target.identifiers
  | .isIn target values _ => if values.isEmpty then [] else target.identifiers
  | .isNull target _ => target.identifiers
  | .between target _ _ _ => target.identifiers
  | .columns comparison => comparison.identifiers
  | .marked _ _ => []
  | .existsRow query _ => query.identifiers
  | .holds e => e.identifiers

def Link.identifiers : Link → List String
  | { condition, .. } => condition.identifiers

def identifiersOfLinks : List Link → List String
  | [] => []
  | l :: rest => l.identifiers ++ identifiersOfLinks rest

def identifiersOfConditions : List Condition → List String
  | [] => []
  | c :: rest => c.identifiers ++ identifiersOfConditions rest

def Query.identifiers : Query → List String
  | { table, columns, joins, filters, scopes, groups, havings, orders, .. } =>
    identifiersOfExprs columns ++ (segments table ++ (joins.flatMap Join.identifiers ++
      (identifiersOfLinks filters ++ (identifiersOfConditions scopes ++
        (groups.flatMap segments ++ (identifiersOfLinks havings ++
          identifiersOfSortKeys orders))))))
termination_by structural x => x

end

/-! ## Trusted SQL -/

mutual

def Expr.isBuilt : Expr → Bool
  | .column _ => true
  | .literal _ => true
  | .named e _ => e.isBuilt
  | .marked _ _ => false
  | .cast e _ => e.isBuilt
  | .arithmetic left _ right => left.isBuilt && right.isBuilt
  | .compare left _ right => left.isBuilt && right.isBuilt
  | .concat parts => areBuiltExprs parts
  | .textCall _ e => e.isBuilt
  | .substring e _ _ => e.isBuilt
  | .replace e pattern replacement => e.isBuilt && (pattern.isBuilt && replacement.isBuilt)
  | .extract _ e => e.isBuilt
  | .dateOf e => e.isBuilt
  | .now => true
  | .coalesce choices => areBuiltExprs choices
  | .nullIf left right => left.isBuilt && right.isBuilt
  | .aggregate _ argument _ => isBuiltOption argument
  | .case branches otherwise => areBuiltBranches branches && isBuiltOption otherwise
  | .json _ _ => true
  | .subquery query => query.isBuilt
  | .window e partition order =>
    e.isBuilt && (areBuiltExprs partition && areBuiltSortKeys order)

def areBuiltExprs : List Expr → Bool
  | [] => true
  | e :: rest => e.isBuilt && areBuiltExprs rest

def isBuiltOption : Option Expr → Bool
  | none => true
  | some e => e.isBuilt

def Branch.isBuilt : Branch → Bool
  | { condition, result } => condition.isBuilt && result.isBuilt

def areBuiltBranches : List Branch → Bool
  | [] => true
  | b :: rest => b.isBuilt && areBuiltBranches rest

def SortKey.isBuilt : SortKey → Bool
  | { e, .. } => e.isBuilt

def areBuiltSortKeys : List SortKey → Bool
  | [] => true
  | k :: rest => k.isBuilt && areBuiltSortKeys rest

def Condition.isBuilt : Condition → Bool
  | .compare target _ _ => target.isBuilt
  | .isIn target _ _ => target.isBuilt
  | .isNull target _ => target.isBuilt
  | .between target _ _ _ => target.isBuilt
  | .columns _ => true
  | .marked _ _ => false
  | .existsRow query _ => query.isBuilt
  | .holds e => e.isBuilt

def Link.isBuilt : Link → Bool
  | { condition, .. } => condition.isBuilt

def areBuiltLinks : List Link → Bool
  | [] => true
  | l :: rest => l.isBuilt && areBuiltLinks rest

def areBuiltConditions : List Condition → Bool
  | [] => true
  | c :: rest => c.isBuilt && areBuiltConditions rest

def Query.isBuilt : Query → Bool
  | { columns, filters, scopes, havings, orders, .. } =>
    areBuiltExprs columns && (areBuiltLinks filters && (areBuiltConditions scopes &&
      (areBuiltLinks havings && areBuiltSortKeys orders)))
termination_by structural x => x

end

/-! ## Parts without expressions -/

section Parts
open Fragment

variable {xs ys : List String} {f g : Fragment}

theorem Comparison.between_fenced (op : Comparison) (d : Dialect) (hf : Fenced 0 0 xs f)
    (hg : Fenced 0 0 ys g) : Fenced 0 0 (xs ++ ys) (op.between d f g) := by
  unfold Comparison.between
  split
  · exact (hf.call "LOWER" rfl).append (.text " LIKE " rfl (hg.call "LOWER" rfl)) rfl
  · exact hf.append (.text _ (by cases op <;> rfl) hg) rfl

theorem ColumnComparison.compile_fenced (d : Dialect) (c : ColumnComparison) :
    Fenced 0 0 c.identifiers (c.compile d) :=
  c.op.between_fenced d (fenced_path c.left) (fenced_path c.right)

theorem Join.compile_fenced (d : Dialect) (j : Join) :
    Fenced 0 0 j.identifiers (j.compile d) := by
  obtain ⟨kind, table, label, on⟩ := j
  have hkind : nests 0 0 (" " ++ kind.sql ++ " ") = true := by cases kind <;> rfl
  have hlabel : Fenced 0 0 label.toList
      (label.elim [] fun name => [.text " AS ", .name name]) := by
    cases label with
    | none => exact .nil 0
    | some name => exact .text " AS " rfl (.of_name name)
  have hon : Fenced 0 0 (on.flatMap ColumnComparison.identifiers)
      (if on.isEmpty then []
        else .text " ON " :: joined " AND " (on.map (ColumnComparison.compile d))) := by
    have hall := FencedAll.flatMap ColumnComparison.identifiers (ColumnComparison.compile d) on
      (ColumnComparison.compile_fenced d)
    cases on with
    | nil => exact .nil 0
    | cons c rest => exact .text " ON " rfl (hall.joined " AND " rfl)
  have h := ((fenced_path table).append hlabel (by cases label <;> rfl)).append hon
    (by cases on <;> rfl)
  rw [List.append_assoc] at h
  cases label <;> exact .text _ hkind h

theorem joins_fenced (d : Dialect) (joins : List Join) :
    Fenced 0 0 (joins.flatMap Join.identifiers) (joins.flatMap (Join.compile d)) ∧
      opensPlain (joins.flatMap (Join.compile d)) = true := by
  induction joins with
  | nil => exact ⟨.nil 0, rfl⟩
  | cons j rest ih => exact ⟨(j.compile_fenced d).append ih.1 ih.2, rfl⟩

theorem DatePart.extract_fenced (part : DatePart) (d : Dialect) (hf : Fenced 0 0 xs f) :
    Fenced 0 0 xs (part.extract d f) := by
  cases d with
  | postgres => exact hf.wrap _ ")" 1 (by cases part <;> rfl) rfl
  | sqlite => exact hf.wrap _ ") AS INTEGER)" 2 (by cases part <;> rfl) rfl
  | mysql | mariadb =>
    cases part with
    | dayOfWeek => exact hf.wrap "(DAYOFWEEK(" ") - 1)" 2 rfl rfl
    | year | month | day | hour | minute | second => exact hf.call _ rfl

theorem dateOf_fenced (d : Dialect) (hf : Fenced 0 0 xs f) : Fenced 0 0 xs (dateOf d f) := by
  cases d with
  | postgres => exact hf.wrap "CAST(" " AS DATE)" 1 rfl rfl
  | sqlite => exact hf.call "date" rfl
  | mysql | mariadb => exact hf.call "DATE" rfl

theorem currentMoment_fenced (d : Dialect) : Fenced 0 0 [] (currentMoment d) := by
  cases d <;> exact .text _ rfl (.nil 0)

theorem window_fenced (d : Dialect) (limit offset : Option Nat) :
    Fenced 0 0 [] (window d limit offset) := by
  have hn : ∀ (a : String) (n : Nat), nests 0 0 a = true →
      nests 0 0 (a ++ Text.ofNat n) = true :=
    fun a n ha => nests_append ha (nests_ofNat n)
  cases limit with
  | none =>
    cases offset with
    | none => exact .nil 0
    | some k => cases d <;> exact .text _ (hn _ k rfl) (.nil 0)
  | some n =>
    cases offset with
    | none => exact .text _ (hn _ n rfl) (.nil 0)
    | some k =>
      exact .text _ (nests_append (nests_append (hn _ n rfl) rfl) (nests_ofNat k)) (.nil 0)

theorem opensPlain_window (d : Dialect) (limit offset : Option Nat) :
    opensPlain (window d limit offset) = true := by
  cases limit <;> cases offset <;> cases d <;> rfl

theorem tableFragment_fenced {table : String} (h : tableFragment table = .ok f) :
    Fenced 0 0 (segments table) f := by
  unfold tableFragment at h
  split at h
  · cases h
  · cases h
    exact fenced_path table

theorem JsonPath.extract_fenced (path : JsonPath) (d : Dialect) (column : String) :
    Fenced 0 0 (segments column) (path.extract d column) := by
  have hb := fun before (h : nests 0 0 before = true) =>
    (fenced_path column).append (.text before h (Fenced.bind (path.bound d))) rfl
  simp only [List.append_nil] at hb
  cases d with
  | postgres => exact (hb " #>> " rfl).wrap "(" ")" 1 rfl rfl
  | mysql => exact (hb ", " rfl).wrap "JSON_UNQUOTE(JSON_EXTRACT(" "))" 2 rfl rfl
  | mariadb => exact (hb ", " rfl).wrap "JSON_VALUE(" ")" 1 rfl rfl
  | sqlite => exact (hb ", " rfl).wrap "json_extract(" ")" 1 rfl rfl

end Parts

/-! ## Chains of conditions -/

section Chains
open Fragment

variable {xs ys : List String} {f : Fragment} {fs : List Fragment}

theorem Chain.append_fenced {chain : Chain} (hc : Fenced 0 0 xs chain.fragment)
    (connective : Connective) (hf : Fenced 0 0 ys f) :
    Fenced 0 0 (xs ++ ys) (chain.append connective f).fragment := by
  unfold Chain.append
  split
  · next hb =>
    rw [hc.eq_nil_of_isBlank hb]
    exact hf
  · exact hc.append (.text _ (by cases connective <;> rfl) hf) rfl

theorem opensPlain_clause (keyword : String) (f : Option Fragment) :
    opensPlain (clause keyword f) = true := by
  cases f <;> rfl

theorem clause_fenced (hf : FencedAll xs fs) (empty : Bool) (he : fs.isEmpty = empty)
    (keyword separator : String) (hk : nests 0 0 keyword = true)
    (hs : nests 0 0 separator = true) :
    Fenced 0 0 xs (clause keyword (if empty then none else some (joined separator fs))) := by
  split
  · next hn =>
    rw [hn, List.isEmpty_iff] at he
    rw [he] at hf
    exact hf.joined separator hs
  · exact .text keyword hk (hf.joined separator hs)

theorem conjunction_fenced {chain : Chain} (hc : Fenced 0 0 xs chain.fragment) (grouped : Bool)
    (hf : FencedAll ys fs) (keyword : String) (hk : nests 0 0 keyword = true) :
    Fenced 0 0 (xs ++ ys) (clause keyword (conjunction chain grouped fs)) := by
  refine clause_fenced (FencedAll.append ?_ hf) _ rfl keyword " AND " hk rfl
  split
  · next hb =>
    rw [hc.eq_nil_of_isBlank hb]
    exact .nil
  · split
    · exact .single hc.parens
    · exact .single hc

/-- A list of its own behind a word, if there are any fragments. -/
theorem FencedAll.listed (hf : FencedAll xs fs) (word : String) (h : nests 0 0 word = true) :
    FencedAll xs (if fs.isEmpty then [] else [.text word :: joined ", " fs]) := by
  split
  · next hn =>
    rw [List.isEmpty_iff.mp hn] at hf
    exact hf
  · exact .single (.text word h (hf.joined ", " rfl))

theorem Fenced.listOption {f : Option Fragment} (hf : Fenced 0 0 xs (f.getD [])) :
    FencedAll xs f.toList := by
  cases f with
  | none =>
    rw [hf.eq_nil_of_isBlank rfl]
    exact .nil
  | some g => exact .single hf

end Chains

/-! ## Trees -/

section Trees
open Fragment

theorem opensPlain_compileBranches {d : Dialect} {bs : List Branch} {f : Fragment}
    (h : compileBranches d bs = .ok f) : f.opensPlain = true := by
  cases bs with
  | nil =>
    cases h
    rfl
  | cons b rest =>
    obtain ⟨g, hg, h⟩ := ok_of_bind h
    obtain ⟨gs, hgs, h⟩ := ok_of_bind h
    cases h
    cases b with
    | mk condition result =>
      obtain ⟨c, hc, hg⟩ := ok_of_bind hg
      obtain ⟨r, hr, hg⟩ := ok_of_bind hg
      cases hg
      rfl

theorem opensPlain_compileOtherwise {d : Dialect} {otherwise : Option Expr} {f : Fragment}
    (h : compileOtherwise d otherwise = .ok f) : f.opensPlain = true := by
  cases otherwise with
  | none =>
    cases h
    rfl
  | some e =>
    obtain ⟨g, hg, h⟩ := ok_of_bind h
    cases h
    rfl

theorem columns_fenced {columns : List Expr} {cs : List Fragment}
    (hc : FencedAll (identifiersOfExprs columns) cs) :
    Fenced 0 0 (identifiersOfExprs columns)
      (if columns.isEmpty then Fragment.text "*" else joined ", " cs) := by
  cases columns with
  | nil => exact .text "*" rfl (.nil 0)
  | cons e rest => exact hc.joined ", " rfl

mutual

theorem Expr.compile_fenced (d : Dialect) (e : Expr) {f : Fragment} (hb : e.isBuilt = true)
    (h : e.compile d = .ok f) : Fenced 0 0 e.identifiers f := by
  cases e with
  | column path =>
    cases h
    exact fenced_path path
  | literal value =>
    cases h
    exact .bind value
  | named e name =>
    obtain ⟨g, hg, h⟩ := ok_of_bind h
    cases h
    exact (e.compile_fenced d hb hg).append (.text " AS " rfl (.of_name name)) rfl
  | marked sql values => cases hb
  | cast e type =>
    obtain ⟨g, hg, h⟩ := ok_of_bind h
    cases h
    exact (e.compile_fenced d hb hg).wrap "CAST(" _ 1 rfl (by cases type <;> cases d <;> rfl)
  | arithmetic left op right =>
    obtain ⟨hbl, hbr⟩ := Bool.and_eq_true _ _ ▸ hb
    obtain ⟨l, hl, h⟩ := ok_of_bind h
    obtain ⟨r, hr, h⟩ := ok_of_bind h
    cases h
    exact ((left.compile_fenced d hbl hl).append
      (.text _ (by cases op <;> rfl) (right.compile_fenced d hbr hr)) rfl).wrap "(" ")" 1 rfl rfl
  | compare left op right =>
    obtain ⟨hbl, hbr⟩ := Bool.and_eq_true _ _ ▸ hb
    obtain ⟨l, hl, h⟩ := ok_of_bind h
    obtain ⟨r, hr, h⟩ := ok_of_bind h
    cases h
    exact (op.between_fenced d (left.compile_fenced d hbl hl)
      (right.compile_fenced d hbr hr)).parens
  | concat parts =>
    simp only [Expr.compile] at h
    split at h
    · cases h
    · obtain ⟨fs, hfs, h⟩ := ok_of_bind h
      have hp := compileExprs_fenced d parts hb hfs
      cases h
      simp only [Expr.identifiers]
      split
      · exact (hp.joined ", " rfl).call "CONCAT" rfl
      · exact (hp.joined " || " rfl).parens
  | textCall function e =>
    obtain ⟨g, hg, h⟩ := ok_of_bind h
    cases h
    exact (e.compile_fenced d hb hg).call _ (by cases function <;> cases d <;> rfl)
  | substring e start length =>
    obtain ⟨g, hg, h⟩ := ok_of_bind h
    cases h
    have hs := (e.compile_fenced d hb hg).append (.text ", " rfl (.bind (.int64 start))) rfl
    rw [List.append_nil] at hs
    refine Fenced.call ?_ _ (by split <;> rfl)
    cases length with
    | none =>
      have hn := hs.append (.nil 0) rfl
      rw [List.append_nil] at hn
      exact hn
    | some n =>
      have hn := hs.append (.text ", " rfl (.bind (.int64 n))) rfl
      rw [List.append_nil] at hn
      exact hn
  | replace e pattern replacement =>
    obtain ⟨hbe, hb⟩ := Bool.and_eq_true _ _ ▸ hb
    obtain ⟨hbp, hbr⟩ := Bool.and_eq_true _ _ ▸ hb
    obtain ⟨g, hg, h⟩ := ok_of_bind h
    obtain ⟨p, hp, h⟩ := ok_of_bind h
    obtain ⟨r, hr, h⟩ := ok_of_bind h
    cases h
    have hall := FencedAll.cons (e.compile_fenced d hbe hg)
      (.cons (pattern.compile_fenced d hbp hp) (.single (replacement.compile_fenced d hbr hr)))
    exact (hall.joined ", " rfl).call "REPLACE" rfl
  | extract part e =>
    obtain ⟨g, hg, h⟩ := ok_of_bind h
    cases h
    exact part.extract_fenced d (e.compile_fenced d hb hg)
  | dateOf e =>
    obtain ⟨g, hg, h⟩ := ok_of_bind h
    cases h
    exact dateOf_fenced d (e.compile_fenced d hb hg)
  | now =>
    cases h
    exact currentMoment_fenced d
  | coalesce choices =>
    obtain ⟨fs, hfs, h⟩ := ok_of_bind h
    cases h
    exact ((compileExprs_fenced d choices hb hfs).joined ", " rfl).call "COALESCE" rfl
  | nullIf left right =>
    obtain ⟨hbl, hbr⟩ := Bool.and_eq_true _ _ ▸ hb
    obtain ⟨l, hl, h⟩ := ok_of_bind h
    obtain ⟨r, hr, h⟩ := ok_of_bind h
    cases h
    have hall := FencedAll.cons (left.compile_fenced d hbl hl)
      (.single (right.compile_fenced d hbr hr))
    exact (hall.joined ", " rfl).call "NULLIF" rfl
  | aggregate function argument distinct =>
    obtain ⟨g, hg, h⟩ := ok_of_bind h
    have ha := compileArgument_fenced d argument hb hg
    cases h
    simp only [Expr.identifiers]
    refine Fenced.call ?_ _ (by cases function <;> rfl)
    split
    · exact .text "DISTINCT " rfl ha
    · exact ha
  | case branches otherwise =>
    obtain ⟨hbb, hbo⟩ := Bool.and_eq_true _ _ ▸ hb
    simp only [Expr.compile] at h
    split at h
    · cases h
    · obtain ⟨bs, hbs, h⟩ := ok_of_bind h
      obtain ⟨o, ho, h⟩ := ok_of_bind h
      cases h
      have hboth := (compileBranches_fenced d branches hbb hbs).append
        (compileOtherwise_fenced d otherwise hbo ho) (opensPlain_compileOtherwise ho)
      exact .text "CASE" rfl (hboth.close " END" rfl)
  | json column path =>
    obtain ⟨steps, hs, h⟩ := ok_of_bind h
    cases h
    exact steps.extract_fenced d column
  | subquery query =>
    obtain ⟨g, hg, h⟩ := ok_of_bind h
    cases h
    exact (query.compile_fenced d hb hg).parens
  | window e partition order =>
    obtain ⟨hbe, hb⟩ := Bool.and_eq_true _ _ ▸ hb
    obtain ⟨hbp, hbo⟩ := Bool.and_eq_true _ _ ▸ hb
    obtain ⟨g, hg, h⟩ := ok_of_bind h
    obtain ⟨ps, hps, h⟩ := ok_of_bind h
    obtain ⟨os, hos, h⟩ := ok_of_bind h
    cases h
    have ho := (FencedAll.listed (compileExprs_fenced d partition hbp hps) "PARTITION BY "
      rfl).append (FencedAll.listed (compileSortKeys_fenced d order hbo hos) "ORDER BY " rfl)
    have hover := (e.compile_fenced d hbe hg).append
      ((ho.joined " " rfl).wrap " OVER (" ")" 1 rfl rfl) rfl
    rw [← List.append_assoc g] at hover
    exact hover
termination_by structural e

theorem compileExprs_fenced (d : Dialect) (es : List Expr) {fs : List Fragment}
    (hb : areBuiltExprs es = true) (h : compileExprs d es = .ok fs) :
    FencedAll (identifiersOfExprs es) fs := by
  cases es with
  | nil =>
    cases h
    exact .nil
  | cons e rest =>
    obtain ⟨hbe, hbr⟩ := Bool.and_eq_true _ _ ▸ hb
    obtain ⟨g, hg, h⟩ := ok_of_bind h
    obtain ⟨gs, hgs, h⟩ := ok_of_bind h
    cases h
    exact .cons (e.compile_fenced d hbe hg) (compileExprs_fenced d rest hbr hgs)
termination_by structural es

theorem compileArgument_fenced (d : Dialect) (argument : Option Expr) {f : Fragment}
    (hb : isBuiltOption argument = true) (h : compileArgument d argument = .ok f) :
    Fenced 0 0 (identifiersOfOption argument) f := by
  cases argument with
  | none =>
    cases h
    exact .text "*" rfl (.nil 0)
  | some e => exact e.compile_fenced d hb h
termination_by structural argument

theorem compileBranches_fenced (d : Dialect) (bs : List Branch) {f : Fragment}
    (hb : areBuiltBranches bs = true) (h : compileBranches d bs = .ok f) :
    Fenced 0 0 (identifiersOfBranches bs) f := by
  cases bs with
  | nil =>
    cases h
    exact .nil 0
  | cons b rest =>
    obtain ⟨hbb, hbr⟩ := Bool.and_eq_true _ _ ▸ hb
    obtain ⟨g, hg, h⟩ := ok_of_bind h
    obtain ⟨gs, hgs, h⟩ := ok_of_bind h
    cases h
    exact (b.compile_fenced d hbb hg).append (compileBranches_fenced d rest hbr hgs)
      (opensPlain_compileBranches hgs)
termination_by structural bs

theorem Branch.compile_fenced (d : Dialect) (b : Branch) {f : Fragment} (hb : b.isBuilt = true)
    (h : b.compile d = .ok f) : Fenced 0 0 b.identifiers f := by
  cases b with
  | mk condition result =>
    obtain ⟨hbc, hbr⟩ := Bool.and_eq_true _ _ ▸ hb
    obtain ⟨c, hc, h⟩ := ok_of_bind h
    obtain ⟨r, hr, h⟩ := ok_of_bind h
    cases h
    exact .text " WHEN " rfl ((condition.compile_fenced d hbc hc).append
      (.text " THEN " rfl (result.compile_fenced d hbr hr)) rfl)
termination_by structural b

theorem compileOtherwise_fenced (d : Dialect) (otherwise : Option Expr) {f : Fragment}
    (hb : isBuiltOption otherwise = true) (h : compileOtherwise d otherwise = .ok f) :
    Fenced 0 0 (identifiersOfOption otherwise) f := by
  cases otherwise with
  | none =>
    cases h
    exact .nil 0
  | some e =>
    obtain ⟨g, hg, h⟩ := ok_of_bind h
    cases h
    exact .text " ELSE " rfl (e.compile_fenced d hb hg)
termination_by structural otherwise

theorem SortKey.compile_fenced (d : Dialect) (k : SortKey) {f : Fragment}
    (hb : k.isBuilt = true) (h : k.compile d = .ok f) : Fenced 0 0 k.identifiers f := by
  cases k with
  | mk e direction =>
    obtain ⟨g, hg, h⟩ := ok_of_bind h
    cases h
    cases direction with
    | none => exact e.compile_fenced d hb hg
    | some direction => exact (e.compile_fenced d hb hg).close _ (by cases direction <;> rfl)
termination_by structural k

theorem compileSortKeys_fenced (d : Dialect) (ks : List SortKey) {fs : List Fragment}
    (hb : areBuiltSortKeys ks = true) (h : compileSortKeys d ks = .ok fs) :
    FencedAll (identifiersOfSortKeys ks) fs := by
  cases ks with
  | nil =>
    cases h
    exact .nil
  | cons k rest =>
    obtain ⟨hbk, hbr⟩ := Bool.and_eq_true _ _ ▸ hb
    obtain ⟨g, hg, h⟩ := ok_of_bind h
    obtain ⟨gs, hgs, h⟩ := ok_of_bind h
    cases h
    exact .cons (k.compile_fenced d hbk hg) (compileSortKeys_fenced d rest hbr hgs)
termination_by structural ks

theorem Condition.compile_fenced (d : Dialect) (c : Condition) {f : Option Fragment}
    (hb : c.isBuilt = true) (h : c.compile d = .ok f) :
    Fenced 0 0 c.identifiers (f.getD []) := by
  cases c with
  | compare target op value =>
    obtain ⟨g, hg, h⟩ := ok_of_bind h
    have ht := target.compile_fenced d hb hg
    cases h
    simp only [Condition.identifiers, Option.getD_some]
    split
    · exact ht.close " IS NULL" rfl
    · exact ht.close " IS NOT NULL" rfl
    · have hboth := op.between_fenced d ht (.bind value)
      rwa [List.append_nil] at hboth
  | isIn target values negated =>
    simp only [Condition.compile] at h
    simp only [Condition.identifiers]
    split at h
    · next hv =>
      cases h
      rw [if_pos hv]
      cases negated with
      | true => exact .nil 0
      | false => exact .text "1 = 0" rfl (.nil 0)
    · next hv =>
      obtain ⟨g, hg, h⟩ := ok_of_bind h
      cases h
      rw [if_neg hv]
      have hlist := ((FencedAll.map_bind values).joined ", " rfl).wrap
        (" " ++ negatable negated "IN" ++ " (") ")" 1 (by cases negated <;> rfl) rfl
      have hboth := (target.compile_fenced d hb hg).append hlist rfl
      rw [List.append_nil, ← List.append_assoc] at hboth
      exact hboth
  | isNull target negated =>
    obtain ⟨g, hg, h⟩ := ok_of_bind h
    cases h
    exact (target.compile_fenced d hb hg).close _ (by cases negated <;> rfl)
  | between target low high negated =>
    obtain ⟨g, hg, h⟩ := ok_of_bind h
    cases h
    have hlow := (target.compile_fenced d hb hg).append
      (.text (" " ++ negatable negated "BETWEEN" ++ " ") (by cases negated <;> rfl)
        (.bind low)) rfl
    have hboth := hlow.append (.text " AND " rfl (.bind high)) rfl
    rw [List.append_nil, List.append_nil] at hboth
    exact hboth
  | columns comparison =>
    cases h
    exact comparison.compile_fenced d
  | marked sql values => cases hb
  | existsRow query negated =>
    obtain ⟨g, hg, h⟩ := ok_of_bind h
    cases h
    exact (query.compile_fenced d hb hg).call _ (by cases negated <;> rfl)
  | holds e =>
    obtain ⟨g, hg, h⟩ := ok_of_bind h
    cases h
    exact e.compile_fenced d hb hg
termination_by structural c

theorem compileLinks_fenced (d : Dialect) (links : List Link) {xs : List String}
    {chain after : Chain} (hb : areBuiltLinks links = true) (hc : Fenced 0 0 xs chain.fragment)
    (h : compileLinks d chain links = .ok after) :
    Fenced 0 0 (xs ++ identifiersOfLinks links) after.fragment := by
  cases links with
  | nil =>
    cases h
    simpa [identifiersOfLinks] using hc
  | cons l rest =>
    obtain ⟨hbl, hbr⟩ := Bool.and_eq_true _ _ ▸ hb
    obtain ⟨next, hn, h⟩ := ok_of_bind h
    have hl := compileLinks_fenced d rest hbr (l.compile_fenced d hbl hc hn) h
    rw [List.append_assoc] at hl
    exact hl
termination_by structural links

theorem Link.compile_fenced (d : Dialect) (l : Link) {xs : List String} {chain after : Chain}
    (hb : l.isBuilt = true) (hc : Fenced 0 0 xs chain.fragment)
    (h : l.compile d chain = .ok after) : Fenced 0 0 (xs ++ l.identifiers) after.fragment := by
  cases l with
  | mk connective condition =>
    obtain ⟨f, hf, h⟩ := ok_of_bind h
    have hr := condition.compile_fenced d hb hf
    cases h
    cases f with
    | none =>
      have hn := hc.append hr rfl
      rw [Option.getD_none, List.append_nil] at hn
      exact hn
    | some g => exact Chain.append_fenced hc connective hr
termination_by structural l

theorem compileScopes_fenced (d : Dialect) (cs : List Condition) {fs : List Fragment}
    (hb : areBuiltConditions cs = true) (h : compileScopes d cs = .ok fs) :
    FencedAll (identifiersOfConditions cs) fs := by
  cases cs with
  | nil =>
    cases h
    exact .nil
  | cons c rest =>
    obtain ⟨hbc, hbr⟩ := Bool.and_eq_true _ _ ▸ hb
    obtain ⟨g, hg, h⟩ := ok_of_bind h
    obtain ⟨gs, hgs, h⟩ := ok_of_bind h
    cases h
    exact (Fenced.listOption (c.compile_fenced d hbc hg)).append
      (compileScopes_fenced d rest hbr hgs)
termination_by structural cs

theorem Query.compile_fenced (d : Dialect) (q : Query) {f : Fragment} (hb : q.isBuilt = true)
    (h : q.compile d = .ok f) : Fenced 0 0 q.identifiers f := by
  cases q with
  | mk table dialect key columns distinct joins filters scopes groups havings orders limit offset =>
    obtain ⟨hbcolumns, hb⟩ := Bool.and_eq_true _ _ ▸ hb
    obtain ⟨hbfilters, hb⟩ := Bool.and_eq_true _ _ ▸ hb
    obtain ⟨hbscopes, hb⟩ := Bool.and_eq_true _ _ ▸ hb
    obtain ⟨hbhavings, hborders⟩ := Bool.and_eq_true _ _ ▸ hb
    obtain ⟨cs, hcs, h⟩ := ok_of_bind h
    obtain ⟨t, ht, h⟩ := ok_of_bind h
    obtain ⟨chain, hchain, h⟩ := ok_of_bind h
    obtain ⟨ss, hss, h⟩ := ok_of_bind h
    obtain ⟨having', hhaving, h⟩ := ok_of_bind h
    obtain ⟨os, hos, h⟩ := ok_of_bind h
    have hselect : nests 0 0 (if distinct then "SELECT DISTINCT " else "SELECT ") = true := by
      split <;> rfl
    have hread := Fenced.text _ hselect
      (columns_fenced (compileExprs_fenced d columns hbcolumns hcs))
    have hfrom := (hread.append (.text " FROM " rfl (tableFragment_fenced ht)) rfl).append
      (joins_fenced d joins).1 (joins_fenced d joins).2
    have hwhere := hfrom.append (conjunction_fenced
      (compileLinks_fenced d filters hbfilters (.nil 0) hchain) (!scopes.isEmpty)
      (compileScopes_fenced d scopes hbscopes hss) " WHERE " rfl) (opensPlain_clause _ _)
    have hgroup := hwhere.append (clause_fenced (FencedAll.flatMap segments path groups fenced_path)
      groups.isEmpty List.isEmpty_map " GROUP BY " ", " rfl rfl) (opensPlain_clause _ _)
    have hhave := hgroup.append (conjunction_fenced
      (compileLinks_fenced d havings hbhavings (.nil 0) hhaving) false .nil " HAVING " rfl)
      (opensPlain_clause _ _)
    have horder := (hhave.append (clause_fenced (compileSortKeys_fenced d orders hborders hos)
      orders.isEmpty (compileSortKeys_isEmpty hos) " ORDER BY " ", " rfl rfl)
      (opensPlain_clause _ _)).append (window_fenced d limit offset) (opensPlain_window d _ _)
    cases h
    simpa only [Query.identifiers, List.append_assoc, List.append_nil, List.nil_append] using horder
termination_by structural q

end

end Trees

end RecordMapper
