import Mathlib.Data.List.Forall2
import RecordMapper.Proofs.NameMap
import RecordMapper.Proofs.Query.Compiling
import RecordMapper.Proofs.Statement.Tokens

/-!
Statements about the rows of one table, as the database understands them.

* `TableCommand` is such a statement: rows are found by the values of their columns, all of which
  are bound. `TableCommand.read` finds it in a statement.
* `TableCommand.readOf` reads rows and assignments by a reader of single values. That of
  `TableCommand.read` knows bound values only; `Token.readOrDefault` knows `DEFAULT` too.
* `Query.Asks` is a query for such rows. What it is compiled to is read as it is meant:
  `read_insertion`, `read_batchInsertion`, `read_updating`, `read_deletion` and `read_pluck`.
-/
namespace RecordMapper

set_option autoImplicit false
set_option maxRecDepth 100000

/-- Columns and the values they may have. -/
abbrev Matching := List (String × List Value)

inductive TableCommand where
  | select (column table : String) (matching : Matching)
  | insert (table : String) (columns : List String) (rows : List (List Value))
  | update (table : String) (assignments : List (String × Value)) (matching : Matching)
  | delete (table : String) (matching : Matching)

/-! ## Readers -/

namespace Token

variable {α : Type}

def list (item : List Token → Option (α × List Token)) (separator : String) (ts : List Token) :
    Option (List α × List Token) :=
  separated item separator (ts.length + 1) ts

def readSegment : List Token → Option (String × List Token)
  | .name s :: rest => some (s, rest)
  | .plain '*' :: rest => some ("*", rest)
  | _ => none

def readPath (ts : List Token) : Option (String × List Token) := do
  let (segments, ts) ← list readSegment "." ts
  return (Text.joined "." segments, ts)

def readName : List Token → Option (String × List Token)
  | .name s :: rest => some (s, rest)
  | _ => none

def readValue : List Token → Option (Value × List Token)
  | .value v :: rest => some (v, rest)
  | _ => none

def readTuple (ts : List Token) : Option (List Value × List Token) := do
  let ts ← expect "(" ts
  let (values, ts) ← list readValue ", " ts
  let ts ← expect ")" ts
  return (values, ts)

def readAssignment (ts : List Token) : Option ((String × Value) × List Token) := do
  let (column, ts) ← readName ts
  let ts ← expect " = " ts
  let (v, ts) ← readValue ts
  return ((column, v), ts)

/-- A column with one value, or with one of several. -/
def readMatch (ts : List Token) : Option ((String × List Value) × List Token) := do
  let (column, ts) ← readPath ts
  match expect " = " ts with
  | some ts =>
    let (v, ts) ← readValue ts
    return ((column, [v]), ts)
  | none =>
    let ts ← expect " IN " ts
    let (values, ts) ← readTuple ts
    return ((column, values), ts)

/-- The rest of a statement: nothing, or a condition on rows. -/
def readWhere (ts : List Token) : Option Matching :=
  match ts with
  | [] => some []
  | ts => do
    let ts ← expect " WHERE " ts
    match ← list readMatch " AND " ts with
    | (matching, []) => return matching
    | _ => none

end Token

namespace TableCommand

open Token

def readSelect (ts : List Token) : Option TableCommand := do
  let ts ← expect "SELECT " ts
  let (column, ts) ← readPath ts
  let ts ← expect " FROM " ts
  let (table, ts) ← readPath ts
  let matching ← readWhere ts
  return .select column table matching

/-- A row without values leaves all columns to their defaults. -/
def readInsert (ts : List Token) : Option TableCommand := do
  let ts ← expect "INSERT INTO " ts
  let (table, ts) ← readPath ts
  match expect " DEFAULT VALUES" ts, expect " () VALUES ()" ts with
  | some [], _ => return .insert table [] [[]]
  | _, some [] => return .insert table [] [[]]
  | _, _ =>
    let ts ← expect " (" ts
    let (columns, ts) ← list readName ", " ts
    let ts ← expect ") VALUES " ts
    match ← list readTuple ", " ts with
    | (rows, []) => return .insert table columns rows
    | _ => none

def readUpdate (ts : List Token) : Option TableCommand := do
  let ts ← expect "UPDATE " ts
  let (table, ts) ← readPath ts
  let ts ← expect " SET " ts
  let (assignments, ts) ← list readAssignment ", " ts
  let matching ← readWhere ts
  return .update table assignments matching

def readDelete (ts : List Token) : Option TableCommand := do
  let ts ← expect "DELETE FROM " ts
  let (table, ts) ← readPath ts
  let matching ← readWhere ts
  return .delete table matching

def read (d : Dialect) (st : Statement) : Option TableCommand := do
  let ts ← st.tokens d
  readSelect ts <|> readInsert ts <|> readUpdate ts <|> readDelete ts

end TableCommand

example : TableCommand.read .mysql
    ⟨"UPDATE `t` SET `a` = ?, `b` = ? WHERE `s`.`k` = ? AND `l` IN (?, ?)",
      [.int8 1, .null, .int8 2, .int8 3, .int8 4]⟩ =
    some (.update "t" [("a", .int8 1), ("b", .null)]
      [("s.k", [.int8 2]), ("l", [.int8 3, .int8 4])]) := by
  rfl

/-! ### Rows and assignments of values of a kind -/

namespace Token

variable (value : List Token → Option (Value × List Token))

/-- A bound value, or the keyword by which the database takes the default of the column. -/
def readOrDefault : List Token → Option (Value × List Token)
  | .value v :: rest => some (v, rest)
  | ts => (expect "DEFAULT" ts).map fun rest => (.default, rest)

def tupleOf (ts : List Token) : Option (List Value × List Token) := do
  let ts ← expect "(" ts
  let (values, ts) ← list value ", " ts
  let ts ← expect ")" ts
  return (values, ts)

def assignmentOf (ts : List Token) : Option ((String × Value) × List Token) := do
  let (column, ts) ← readName ts
  let ts ← expect " = " ts
  let (v, ts) ← value ts
  return ((column, v), ts)

end Token

namespace TableCommand

open Token

variable (value : List Token → Option (Value × List Token))

def insertOf (ts : List Token) : Option TableCommand := do
  let ts ← expect "INSERT INTO " ts
  let (table, ts) ← readPath ts
  match expect " DEFAULT VALUES" ts, expect " () VALUES ()" ts with
  | some [], _ => return .insert table [] [[]]
  | _, some [] => return .insert table [] [[]]
  | _, _ =>
    let ts ← expect " (" ts
    let (columns, ts) ← list readName ", " ts
    let ts ← expect ") VALUES " ts
    match ← list (tupleOf value) ", " ts with
    | (rows, []) => return .insert table columns rows
    | _ => none

def updateOf (ts : List Token) : Option TableCommand := do
  let ts ← expect "UPDATE " ts
  let (table, ts) ← readPath ts
  let ts ← expect " SET " ts
  let (assignments, ts) ← list (assignmentOf value) ", " ts
  let matching ← readWhere ts
  return .update table assignments matching

def readOf (d : Dialect) (st : Statement) : Option TableCommand := do
  let ts ← st.tokens d
  readSelect ts <|> insertOf value ts <|> updateOf value ts <|> readDelete ts

theorem readOf_readValue (d : Dialect) (st : Statement) : readOf readValue d st = read d st := rfl

end TableCommand

example : TableCommand.readOf Token.readOrDefault .postgres
    ⟨"INSERT INTO \"t\" (\"a\", \"b\") VALUES ($1, DEFAULT), (DEFAULT, $2)", [.int8 1, .null]⟩ =
    some (.insert "t" ["a", "b"] [[.int8 1, .default], [.default, .null]]) := by
  rfl

/-! ## Reading what was written -/

namespace Token

open Fragment

variable {α : Type} {item : List Token → Option (α × List Token)} {separator : String}

/-- The readers find what a fragment stands for, wherever what follows is `Free`. -/
def Finds (item : List Token → Option (α × List Token)) (free : Fragment → Prop) (a : α)
    (f : Fragment) : Prop :=
  ∀ rest, free rest → item (tokens (f ++ rest)) = some (a, tokens rest)

variable {free : Fragment → Prop}

theorem separated_joined {fs : List Fragment} {found : List α}
    (h : List.Forall₂ (Finds item free) found fs) (hne : fs ≠ [])
    (hseparator : ∀ f, free (.text separator :: f)) {rest : Fragment} (hfree : free rest)
    (hend : expect separator (tokens rest) = none) {bound : Nat} (hbound : fs.length ≤ bound) :
    separated item separator bound (tokens (joined separator fs ++ rest)) =
      some (found, tokens rest) := by
  induction h generalizing bound with
  | nil => exact absurd rfl hne
  | @cons a f found fs hf h ih =>
    cases bound with
    | zero => cases hbound
    | succ bound =>
      cases h with
      | nil =>
        have hread := hf rest hfree
        rw [joined, separated, hread]
        simp only [Option.bind_some, hend]
      | @cons b g found fs hg h =>
        have hread := hf (.text separator :: (joined separator (g :: fs) ++ rest))
          (hseparator _)
        have hnext := ih (List.cons_ne_nil g fs) (Nat.le_of_succ_le_succ hbound)
        rw [joined, List.append_assoc, List.cons_append, separated, hread]
        simp only [Option.bind_some, expect_text, hnext, Option.map_some]

theorem length_le_tokens (hseparator : separator.toList ≠ []) (fs : List Fragment)
    (rest : Fragment) :
    fs.length ≤ (tokens (joined separator fs ++ rest)).length + 1 := by
  induction fs with
  | nil => exact Nat.zero_le _
  | cons f fs ih =>
    cases fs with
    | nil => simp
    | cons g fs =>
      have hlength : 0 < separator.toList.length := List.length_pos_iff.mpr hseparator
      rw [joined, List.append_assoc, List.cons_append, tokens_append, tokens]
      simp only [List.length_append, List.length_map, List.length_cons] at ih ⊢
      omega

theorem list_joined {fs : List Fragment} {found : List α}
    (h : List.Forall₂ (Finds item free) found fs) (hne : fs ≠ [])
    (hseparator : ∀ f, free (.text separator :: f)) (hnonempty : separator.toList ≠ [])
    {rest : Fragment} (hfree : free rest) (hend : expect separator (tokens rest) = none) :
    list item separator (tokens (joined separator fs ++ rest)) = some (found, tokens rest) :=
  separated_joined h hne hseparator hfree hend (length_le_tokens hnonempty fs rest)

/-- No dot follows. -/
def noDot (rest : Fragment) : Prop := expect "." (tokens rest) = none

theorem readPath_path (p : String) : Finds readPath noDot p (path p) := by
  intro rest hrest
  have hsegment : ∀ s : String, Finds readSegment (fun _ => True) s [Fragment.segment s] := by
    intro s rest _
    unfold Fragment.segment
    split
    · next hs =>
      rw [hs]
      rfl
    · rfl
  have hall : List.Forall₂ (Finds readSegment fun _ => True) (Text.fields '.' p)
      ((Text.fields '.' p).map fun s => [Fragment.segment s]) :=
    List.forall₂_map_right_iff.mpr (List.forall₂_same.mpr fun s _ => hsegment s)
  have hne : ((Text.fields '.' p).map fun s => [Fragment.segment s]) ≠ [] := fun h =>
    Text.fields_ne_nil '.' p (List.map_eq_nil_iff.mp h)
  have hread := list_joined hall hne (fun _ => trivial) (by decide : ".".toList ≠ []) trivial hrest
  unfold readPath path
  rw [hread]
  exact congrArg (fun q => some (q, tokens rest)) (Text.joined_fields p)

/-- Wherever a name, a value or a closing parenthesis stands, anything may follow. -/
abbrev anything (_ : Fragment) : Prop := True

theorem readNames_names {columns : List String} (hne : columns ≠ []) {rest : Fragment}
    (hend : expect ", " (tokens rest) = none) :
    list readName ", " (tokens (names columns ++ rest)) = some (columns, tokens rest) := by
  have hname : ∀ s : String, Finds readName anything s (Fragment.name s) := fun s rest _ => rfl
  have hall : List.Forall₂ (Finds readName anything) columns (columns.map Fragment.name) :=
    List.forall₂_map_right_iff.mpr (List.forall₂_same.mpr fun s _ => hname s)
  exact list_joined hall (fun h => hne (List.map_eq_nil_iff.mp h)) (fun _ => trivial) (by decide)
    trivial hend

theorem readValue_bind {v : Value} (hv : v.isDefault = false) :
    Finds readValue anything v (bind v) := by
  intro rest _
  rw [Fragment.bind_of_isDefault hv]
  rfl

theorem readOrDefault_bind (v : Value) : Finds readOrDefault anything v (bind v) := by
  intro rest _
  cases hv : v.isDefault with
  | false =>
    rw [Fragment.bind_of_isDefault hv]
    rfl
  | true =>
    have hdefault : v = .default := by
      cases v <;> first | rfl | cases hv
    subst hdefault
    have hread : readOrDefault (tokens (.text "DEFAULT" :: rest)) =
        (expect "DEFAULT" (tokens (.text "DEFAULT" :: rest))).map fun ts => (.default, ts) := rfl
    exact hread.trans (congrArg _ (expect_text "DEFAULT" rest))

section ValuesOfKind

variable {value : List Token → Option (Value × List Token)}

theorem tupleOf_values {vs : List Value} (hne : vs ≠ [])
    (hvalues : ∀ v ∈ vs, Finds value anything v (bind v)) :
    Finds (tupleOf value) anything vs (parens (joined ", " (vs.map bind))) := by
  intro rest _
  have hall : List.Forall₂ (Finds value anything) vs (vs.map bind) :=
    List.forall₂_map_right_iff.mpr (List.forall₂_same.mpr hvalues)
  have hread : list value ", " (tokens (joined ", " (vs.map bind) ++ .text ")" :: rest)) =
      some (vs, tokens (.text ")" :: rest)) :=
    list_joined hall (fun h => hne (List.map_eq_nil_iff.mp h)) (fun _ => trivial) (by decide)
      trivial rfl
  simp only [tupleOf, parens, List.cons_append, List.append_assoc, List.nil_append, expect_text,
    hread, Option.bind_eq_bind, Option.bind_some, Option.pure_def]

theorem assignmentOf_assignment {e : String × Value} (hv : Finds value anything e.2 (bind e.2)) :
    Finds (assignmentOf value) anything e (Query.assignment e.1 e.2) := by
  intro rest _
  have hvalue := hv rest trivial
  have hname : readName (tokens (.name e.1 :: .text " = " :: (bind e.2 ++ rest))) =
      some (e.1, tokens (.text " = " :: (bind e.2 ++ rest))) := rfl
  simp only [assignmentOf, Query.assignment, List.cons_append, hname, expect_text, hvalue,
    Option.bind_eq_bind, Option.bind_some, Option.pure_def]

end ValuesOfKind

theorem readTuple_values {vs : List Value} (hne : vs ≠ [])
    (hdefault : ∀ v ∈ vs, v.isDefault = false) :
    Finds readTuple anything vs (parens (joined ", " (vs.map bind))) :=
  tupleOf_values hne fun v hv => readValue_bind (hdefault v hv)

/-! ### Conditions -/

theorem readMatch_eq (column : String) {v : Value} (hv : v.isDefault = false) :
    Finds readMatch anything (column, [v]) (path column ++ .text " = " :: bind v) := by
  intro rest _
  have hpath := readPath_path column (.text " = " :: (bind v ++ rest)) rfl
  have hvalue := readValue_bind hv rest trivial
  simp only [readMatch, List.append_assoc, List.cons_append, hpath, expect_text, hvalue,
    Option.bind_eq_bind, Option.bind_some, Option.pure_def]

theorem readMatch_isIn (column : String) {vs : List Value} (hne : vs ≠ [])
    (hdefault : ∀ v ∈ vs, v.isDefault = false) :
    Finds readMatch anything (column, vs)
      (path column ++ .text " IN (" :: joined ", " (vs.map bind) ++ [.text ")"]) := by
  intro rest _
  have htuple := readTuple_values hne hdefault rest trivial
  have hpath := readPath_path column (.text " IN " :: (parens (joined ", " (vs.map bind)) ++ rest))
    rfl
  have hnot : expect " = " (tokens (.text " IN " :: (parens (joined ", " (vs.map bind)) ++ rest))) =
      none := rfl
  -- The blank and the parenthesis behind the word are written as one text.
  have htokens : tokens (path column ++ .text " IN (" :: joined ", " (vs.map bind) ++
      [.text ")"] ++ rest) =
      tokens (path column ++ .text " IN " :: (parens (joined ", " (vs.map bind)) ++ rest)) := by
    simp only [tokens_append, tokens, parens, List.append_assoc, List.cons_append]
    rfl
  rw [htokens]
  simp only [readMatch, hpath, hnot, expect_text, htuple, Option.bind_eq_bind, Option.bind_some,
    Option.pure_def]

end Token

/-! ## Queries for rows of one table -/

theorem exists_left_of_mem {α β : Type} {R : α → β → Prop} {as : List α} {bs : List β}
    (h : List.Forall₂ R as bs) {b : β} (hb : b ∈ bs) : ∃ a ∈ as, R a b := by
  induction h with
  | nil => cases hb
  | @cons a b' as bs hab h ih =>
    rcases List.mem_cons.mp hb with rfl | hb
    · exact ⟨a, List.mem_cons_self .., hab⟩
    · obtain ⟨a', ha', hr⟩ := ih hb
      exact ⟨a', List.mem_cons_of_mem a ha', hr⟩

/-- A condition that a column has one of some values. -/
inductive Condition.Asks : String × List Value → Condition → Prop
  | eq (column : String) {v : Value} (hnull : v.isNull = false) (hdefault : v.isDefault = false) :
    Asks (column, [v]) (.compare (.column column) .eq v)
  | isIn (column : String) {vs : List Value} (hne : vs ≠ [])
    (hdefault : ∀ v ∈ vs, v.isDefault = false) : Asks (column, vs) (.isIn (.column column) vs false)

/-- A query over one table for the rows whose columns match. -/
structure Query.Asks (matching : Matching) (q : Query) : Prop where
  shape : q = { Query.on q.table q.dialect with key := q.key, filters := q.filters }
  filters : List.Forall₂ (fun m l => l.connective = .and ∧ l.condition.Asks m) matching q.filters

section Conditions

open Fragment Token

/-- A fragment that stands for a condition. -/
structure Written (m : String × List Value) (f : Fragment) : Prop where
  finds : Finds readMatch anything m f
  legible : f.isLegible = true
  isBlank : f.isBlank = false

theorem isLegible_bind (v : Value) : isLegible (bind v) = true := by
  cases v <;> rfl

theorem isLegible_values (vs : List Value) : isLegible (joined ", " (vs.map bind)) = true := by
  refine isLegible_joined ?_ rfl rfl rfl
  intro f hf
  obtain ⟨v, -, rfl⟩ := List.mem_map.mp hf
  exact isLegible_bind v

theorem Condition.Asks.written {m : String × List Value} {c : Condition} (h : c.Asks m)
    (d : Dialect) : ∃ f, c.compile d = .ok (some f) ∧ Written m f := by
  cases h with
  | @eq column v hnull hdefault =>
    have hcompile : (Condition.compare (.column column) .eq v).compile d =
        .ok (some (path column ++ .text " = " :: bind v)) := by
      cases v <;> first | rfl | cases hnull
    refine ⟨_, hcompile, readMatch_eq column hdefault, ?_, ?_⟩
    · refine isLegible_append (isLegible_path column) ?_ rfl
      simp only [isLegible, isLegible_bind v]
      rfl
    · rw [isBlank_append]
      exact Bool.and_false _
  | @isIn column vs hne hdefault =>
    have hempty : vs.isEmpty = false := List.isEmpty_eq_false_iff.mpr hne
    have hcompile : (Condition.isIn (.column column) vs false).compile d =
        .ok (some (path column ++ .text " IN (" :: joined ", " (vs.map bind) ++ [.text ")"])) := by
      simp only [Condition.compile, hempty]
      rfl
    refine ⟨_, hcompile, readMatch_isIn column hne hdefault, ?_, ?_⟩
    · refine isLegible_append (isLegible_append (isLegible_path column) ?_ rfl) rfl rfl
      simp only [isLegible, isLegible_values vs]
      rfl
    · rw [isBlank_append]
      exact Bool.and_false _

theorem joined_concat (separator : String) {fs : List Fragment} (hne : fs ≠ []) (f : Fragment) :
    joined separator (fs ++ [f]) = joined separator fs ++ .text separator :: f := by
  induction fs with
  | nil => exact absurd rfl hne
  | cons g rest ih =>
    cases rest with
    | nil => rfl
    | cons h rest =>
      rw [List.cons_append, List.cons_append, joined, ← List.cons_append,
        ih (List.cons_ne_nil h rest), joined, List.append_assoc, List.cons_append]

theorem isBlank_joined {separator : String} {f : Fragment} (hf : f.isBlank = false)
    (rest : List Fragment) : isBlank (joined separator (f :: rest)) = false := by
  cases rest with
  | nil => exact hf
  | cons g rest =>
    rw [joined, isBlank_append, hf]
    rfl

/-- A further condition on a chain without an OR. -/
theorem Chain.append_joined {before : List Fragment} (hbefore : ∀ f ∈ before, f.isBlank = false)
    (f : Fragment) :
    (Chain.mk (joined " AND " before) false).append .and f =
      ⟨joined " AND " (before ++ [f]), false⟩ := by
  cases before with
  | nil => rfl
  | cons g rest =>
    have hblank : isBlank (joined " AND " (g :: rest)) = false :=
      isBlank_joined (hbefore g (List.mem_cons_self ..)) rest
    rw [joined_concat " AND " (List.cons_ne_nil g rest)]
    unfold Chain.append
    simp only [hblank]
    rfl

theorem compileLinks_asks {matching : Matching} {links : List Link}
    (h : List.Forall₂ (fun m l => l.connective = .and ∧ l.condition.Asks m) matching links)
    (d : Dialect) :
    ∃ fs, List.Forall₂ Written matching fs ∧
      ∀ before : List Fragment, (∀ f ∈ before, f.isBlank = false) →
        compileLinks d ⟨joined " AND " before, false⟩ links =
          .ok ⟨joined " AND " (before ++ fs), false⟩ := by
  induction h with
  | nil =>
    refine ⟨[], .nil, fun before _ => ?_⟩
    rw [List.append_nil]
    rfl
  | @cons m l matching links hl h ih =>
    obtain ⟨fs, hfs, hlinks⟩ := ih
    obtain ⟨connective, condition⟩ := l
    obtain ⟨rfl, hasks⟩ := hl
    obtain ⟨f, hf, hwritten⟩ := hasks.written d
    refine ⟨f :: fs, .cons hwritten hfs, fun before hbefore => ?_⟩
    have hnext : ∀ g ∈ before ++ [f], g.isBlank = false := by
      intro g hg
      rcases List.mem_append.mp hg with hg | hg
      · exact hbefore g hg
      · rw [List.mem_singleton.mp hg]
        exact hwritten.isBlank
    have hstep : (Link.mk .and condition).compile d ⟨joined " AND " before, false⟩ =
        .ok ⟨joined " AND " (before ++ [f]), false⟩ := by
      rw [Link.compile, hf, ← Chain.append_joined hbefore f]
      rfl
    have hrest := hlinks (before ++ [f]) hnext
    rw [List.append_assoc, List.singleton_append] at hrest
    rw [compileLinks, hstep]
    exact hrest

theorem names_eq_cons {columns : List String} (hne : columns ≠ []) :
    ∃ c g, names columns = .name c :: g := by
  match columns, hne with
  | [c], _ => exact ⟨c, _, rfl⟩
  | c :: c' :: rest, _ => exact ⟨c, _, rfl⟩

theorem isLegible_names (columns : List String) : isLegible (names columns) = true := by
  refine isLegible_joined ?_ rfl rfl rfl
  intro f hf
  obtain ⟨s, -, rfl⟩ := List.mem_map.mp hf
  rfl

theorem readWhere_of_expect {ts rest : List Token} {matching : Matching}
    (hwhere : expect " WHERE " ts = some rest)
    (hread : list readMatch " AND " rest = some (matching, [])) : readWhere ts = some matching := by
  cases ts with
  | nil => cases hwhere
  | cons t ts =>
    simp only [readWhere, hwhere, hread, Option.bind_eq_bind, Option.bind_some, Option.pure_def]

/-- The condition of a query as it is written, behind its keyword. -/
structure WrittenWhere (matching : Matching) (f : Fragment) : Prop where
  reads : readWhere f.tokens = some matching
  legible : f.isLegible = true
  opens : f.opensText = true
  noDot : expect "." f.tokens = none
  noComma : expect ", " f.tokens = none

theorem Query.Asks.where_written {matching : Matching} {q : Query} (h : q.Asks matching)
    (d : Dialect) : ∃ f, q.whereFragment d = .ok f ∧ WrittenWhere matching f := by
  obtain ⟨fs, hfs, hlinks⟩ := compileLinks_asks h.filters d
  have hchain : compileLinks d .empty q.filters = .ok ⟨joined " AND " fs, false⟩ :=
    hlinks [] (fun f hf => nomatch hf)
  have hscopes : q.scopes = [] := by rw [h.shape]; rfl
  cases hfs with
  | nil =>
    refine ⟨[], ?_, rfl, rfl, rfl, rfl, rfl⟩
    unfold whereFragment condition
    rw [hchain, hscopes]
    rfl
  | @cons m f matching fs hf hfs =>
    have hblank : isBlank (joined " AND " (f :: fs)) = false := isBlank_joined hf.isBlank fs
    have hwhere : q.whereFragment d = .ok (.text " WHERE " :: joined " AND " (f :: fs)) := by
      unfold whereFragment condition
      rw [hchain, hscopes]
      show Except.ok (clause " WHERE " (conjunction ⟨joined " AND " (f :: fs), false⟩ _ [])) = _
      simp only [conjunction, hblank]
      rfl
    have hall : List.Forall₂ Written (m :: matching) (f :: fs) := .cons hf hfs
    have hfinds : List.Forall₂ (Finds readMatch anything) (m :: matching) (f :: fs) :=
      hall.imp fun _ _ hw => hw.finds
    have hread : list readMatch " AND " (tokens (joined " AND " (f :: fs) ++ [])) =
        some (m :: matching, []) :=
      list_joined hfinds (List.cons_ne_nil f fs) (fun _ => trivial) (by decide) trivial rfl
    rw [List.append_nil] at hread
    refine ⟨_, hwhere, readWhere_of_expect (expect_text " WHERE " _) hread, ?_, rfl, rfl, rfl⟩
    have hconditions : isLegible (joined " AND " (f :: fs)) = true := by
      refine isLegible_joined (fun g hg => ?_) rfl rfl rfl
      obtain ⟨m', -, hw⟩ := exists_left_of_mem hall hg
      exact hw.legible
    simp only [isLegible, hconditions]
    rfl

end Conditions

/-! ## Statements -/

namespace TableCommand

open Token

section Keywords

variable {ts : List Token} {value : List Token → Option (Value × List Token)}

theorem readSelect_eq_none (h : expect "SELECT " ts = none) : readSelect ts = none := by
  simp only [readSelect, h, Option.bind_eq_bind, Option.bind_none]

theorem insertOf_eq_none (h : expect "INSERT INTO " ts = none) : insertOf value ts = none := by
  simp only [insertOf, h, Option.bind_eq_bind, Option.bind_none]

theorem updateOf_eq_none (h : expect "UPDATE " ts = none) : updateOf value ts = none := by
  simp only [updateOf, h, Option.bind_eq_bind, Option.bind_none]

end Keywords

section Dispatch

open Fragment

variable {d : Dialect} {f : Fragment} {c : TableCommand}
  {value : List Token → Option (Value × List Token)}

theorem read_select (hlegible : isLegible (.text "SELECT " :: f) = true)
    (hread : readSelect (tokens (.text "SELECT " :: f)) = some c) :
    read d (statement d 0 (.text "SELECT " :: f)) = some c := by
  simp only [read, tokens_statement hlegible, hread, Option.bind_eq_bind, Option.bind_some,
    HOrElse.hOrElse, OrElse.orElse, Option.orElse]

theorem readOf_insert (hlegible : isLegible (.text "INSERT INTO " :: f) = true)
    (hread : insertOf value (tokens (.text "INSERT INTO " :: f)) = some c) :
    readOf value d (statement d 0 (.text "INSERT INTO " :: f)) = some c := by
  have hselect := readSelect_eq_none (expect_text_none (by decide) f :
    expect "SELECT " (tokens (.text "INSERT INTO " :: f)) = none)
  simp only [readOf, tokens_statement hlegible, hselect, hread, Option.bind_eq_bind,
    Option.bind_some, HOrElse.hOrElse, OrElse.orElse, Option.orElse]

theorem readOf_update (hlegible : isLegible (.text "UPDATE " :: f) = true)
    (hread : updateOf value (tokens (.text "UPDATE " :: f)) = some c) :
    readOf value d (statement d 0 (.text "UPDATE " :: f)) = some c := by
  have hselect := readSelect_eq_none (expect_text_none (by decide) f :
    expect "SELECT " (tokens (.text "UPDATE " :: f)) = none)
  have hinsert : insertOf value (tokens (.text "UPDATE " :: f)) = none :=
    insertOf_eq_none (expect_text_none (by decide) f)
  simp only [readOf, tokens_statement hlegible, hselect, hinsert, hread, Option.bind_eq_bind,
    Option.bind_some, HOrElse.hOrElse, OrElse.orElse, Option.orElse]

theorem readOf_delete (hlegible : isLegible (.text "DELETE FROM " :: f) = true)
    (hread : readDelete (tokens (.text "DELETE FROM " :: f)) = some c) :
    readOf value d (statement d 0 (.text "DELETE FROM " :: f)) = some c := by
  have hselect := readSelect_eq_none (expect_text_none (by decide) f :
    expect "SELECT " (tokens (.text "DELETE FROM " :: f)) = none)
  have hinsert : insertOf value (tokens (.text "DELETE FROM " :: f)) = none :=
    insertOf_eq_none (expect_text_none (by decide) f)
  have hupdate : updateOf value (tokens (.text "DELETE FROM " :: f)) = none :=
    updateOf_eq_none (expect_text_none (by decide) f)
  simp only [readOf, tokens_statement hlegible, hselect, hinsert, hupdate, hread,
    Option.bind_eq_bind, Option.bind_some, HOrElse.hOrElse, OrElse.orElse, Option.orElse]

end Dispatch

end TableCommand

namespace Query

open Fragment Token

variable {q : Query} {matching : Matching}

theorem asks_on (table : String) (d : Dialect) : (on table d).Asks [] := ⟨rfl, .nil⟩

theorem Asks.keyedBy (h : q.Asks matching) (column : String) : (q.keyedBy column).Asks matching :=
  ⟨congrArg (·.keyedBy column) h.shape, h.filters⟩

theorem Asks.filter (h : q.Asks matching) {m : String × List Value} {c : Condition}
    (hc : c.Asks m) : (q.filter c).Asks (matching ++ [m]) :=
  ⟨congrArg (·.filter c) h.shape, List.rel_append h.filters (.cons ⟨rfl, hc⟩ .nil)⟩

theorem tableFragment_ok {table : String} (h : (Text.trim table).isEmpty = false) :
    tableFragment table = .ok (path table) := by
  unfold tableFragment
  rw [h]
  rfl

theorem read_deletion (h : q.Asks matching) (htable : (Text.trim q.table).isEmpty = false) :
    ∃ st, q.deletion = .ok st ∧
      TableCommand.read q.dialect st = some (.delete q.table matching) := by
  obtain ⟨f, hf, hw⟩ := h.where_written q.dialect
  have hcompile : q.deletionFragment = .ok (.text "DELETE FROM " :: path q.table ++ f) := by
    unfold deletionFragment
    rw [tableFragment_ok htable, hf]
    rfl
  have hlegible : isLegible (.text "DELETE FROM " :: path q.table ++ f) = true := by
    have hrest := isLegible_append (isLegible_path q.table) hw.legible hw.opens
    simp only [List.cons_append, isLegible, hrest]
    rfl
  refine ⟨_, congrArg (Except.map (Fragment.statement q.dialect 0)) hcompile, ?_⟩
  have hpath := readPath_path q.table f hw.noDot
  have hread : TableCommand.readDelete (tokens (.text "DELETE FROM " :: path q.table ++ f)) =
      some (.delete q.table matching) := by
    simp only [TableCommand.readDelete, List.cons_append, expect_text, hpath, hw.reads,
      Option.bind_eq_bind, Option.bind_some, Option.pure_def]
  exact TableCommand.readOf_delete hlegible hread

theorem isLegible_assignment (e : String × Value) : isLegible (assignment e.1 e.2) = true := by
  simp only [assignment, isLegible, isLegible_bind e.2]
  rfl

section ValuesOfKind

variable {value : List Token → Option (Value × List Token)}

theorem readOf_updating (h : q.Asks matching) (htable : (Text.trim q.table).isEmpty = false)
    {assignments : Attributes} (hne : assignments.isEmpty = false)
    (hvalues : ∀ v ∈ assignments.values, Finds value anything v (bind v)) :
    ∃ st, q.updating assignments = .ok st ∧
      TableCommand.readOf value q.dialect st =
        some (.update q.table assignments.entries matching) := by
  obtain ⟨f, hf, hw⟩ := h.where_written q.dialect
  obtain ⟨set, hset⟩ : ∃ set : List Fragment,
      set = assignments.entries.map fun e => assignment e.1 e.2 := ⟨_, rfl⟩
  have hnonempty : set ≠ [] := by
    rw [hset]
    exact fun he => List.isEmpty_eq_false_iff.mp hne (List.map_eq_nil_iff.mp he)
  have hcompile : q.updatingFragment assignments =
      .ok (.text "UPDATE " :: path q.table ++ .text " SET " :: joined ", " set ++ f) := by
    unfold updatingFragment
    rw [hne, tableFragment_ok htable, hf, hset]
    rfl
  have hlegible : isLegible (.text "UPDATE " :: path q.table ++ .text " SET " :: joined ", " set ++
      f) = true := by
    have hset' : isLegible (joined ", " set) = true := by
      refine isLegible_joined ?_ rfl rfl rfl
      intro g hg
      rw [hset] at hg
      obtain ⟨e, -, rfl⟩ := List.mem_map.mp hg
      exact isLegible_assignment e
    have hrest := isLegible_append hset' hw.legible hw.opens
    have hall : isLegible (path q.table ++ .text " SET " :: (joined ", " set ++ f)) = true := by
      refine isLegible_append (isLegible_path q.table) ?_ rfl
      simp only [isLegible, hrest]
      rfl
    simp only [List.cons_append, List.append_assoc, isLegible, hall]
    rfl
  refine ⟨_, congrArg (Except.map (Fragment.statement q.dialect 0)) hcompile, ?_⟩
  have hfinds : List.Forall₂ (Finds (assignmentOf value) anything) assignments.entries set := by
    rw [hset]
    exact List.forall₂_map_right_iff.mpr (List.forall₂_same.mpr fun e he =>
      assignmentOf_assignment (hvalues e.2 (List.mem_map.mpr ⟨e, he, rfl⟩)))
  have hassign := list_joined hfinds hnonempty (fun _ => trivial) (by decide : ", ".toList ≠ [])
    trivial hw.noComma
  have hpath := readPath_path q.table (.text " SET " :: (joined ", " set ++ f))
    (expect_text_none (by decide) _)
  have hread : TableCommand.updateOf value (tokens (.text "UPDATE " :: path q.table ++
      .text " SET " :: joined ", " set ++ f)) =
      some (.update q.table assignments.entries matching) := by
    simp only [TableCommand.updateOf, List.cons_append, List.append_assoc, expect_text, hpath,
      hassign, hw.reads, Option.bind_eq_bind, Option.bind_some, Option.pure_def]
  exact TableCommand.readOf_update hlegible hread

/-- An insertion of rows, read behind the name of its table. -/
theorem readOf_rows (table : String) {columns : List String} (hcolumns : columns ≠ [])
    {rows : List (List Value)} (hrows : rows ≠ []) (hwidth : ∀ vs ∈ rows, vs ≠ [])
    (hvalues : ∀ vs ∈ rows, ∀ v ∈ vs, Finds value anything v (bind v)) (d : Dialect) :
    TableCommand.readOf value d (Fragment.statement d 0 (.text "INSERT INTO " :: path table ++
      .text " (" :: names columns ++ .text ") VALUES " ::
        joined ", " (rows.map fun vs => parens (joined ", " (vs.map bind))))) =
      some (.insert table columns rows) := by
  obtain ⟨tuples, htuples⟩ : ∃ tuples : List Fragment,
      tuples = rows.map fun vs => parens (joined ", " (vs.map bind)) := ⟨_, rfl⟩
  rw [← htuples]
  have hlegible : isLegible (.text "INSERT INTO " :: path table ++ .text " (" :: names columns ++
      .text ") VALUES " :: joined ", " tuples) = true := by
    have htail : isLegible (joined ", " tuples) = true := by
      refine isLegible_joined ?_ rfl rfl rfl
      intro g hg
      rw [htuples] at hg
      obtain ⟨vs, -, rfl⟩ := List.mem_map.mp hg
      have htuple : isLegible (.text "(" :: joined ", " (vs.map bind)) = true := by
        simp only [isLegible, isLegible_values vs]
        rfl
      exact isLegible_append htuple rfl rfl
    have hnames : isLegible (names columns ++ .text ") VALUES " :: joined ", " tuples) = true := by
      refine isLegible_append (isLegible_names columns) ?_ rfl
      simp only [isLegible, htail]
      rfl
    have hpath : isLegible (path table ++ .text " (" :: (names columns ++ .text ") VALUES " ::
        joined ", " tuples)) = true := by
      refine isLegible_append (isLegible_path table) ?_ rfl
      simp only [isLegible, hnames]
      rfl
    simp only [List.cons_append, List.append_assoc, isLegible, hpath]
    rfl
  have hfinds : List.Forall₂ (Finds (tupleOf value) anything) rows tuples := by
    rw [htuples]
    exact List.forall₂_map_right_iff.mpr (List.forall₂_same.mpr fun vs hvs =>
      tupleOf_values (hwidth vs hvs) (hvalues vs hvs))
  have hnonempty : tuples ≠ [] := fun he => hrows (List.map_eq_nil_iff.mp (htuples ▸ he))
  have htuple : list (tupleOf value) ", " (tokens (joined ", " tuples ++ [])) = some (rows, []) :=
    list_joined hfinds hnonempty (fun _ => trivial) (by decide) trivial rfl
  rw [List.append_nil] at htuple
  have hnames : list readName ", " (tokens (names columns ++ .text ") VALUES " ::
      joined ", " tuples)) = some (columns, tokens (.text ") VALUES " :: joined ", " tuples)) :=
    readNames_names hcolumns (expect_text_none (by decide) _)
  have hpath := readPath_path table (.text " (" :: (names columns ++ .text ") VALUES " ::
    joined ", " tuples)) (expect_text_none (by decide) _)
  have hdefaults : expect " DEFAULT VALUES" (tokens (.text " (" :: (names columns ++
      .text ") VALUES " :: joined ", " tuples))) = none := expect_text_none (by decide) _
  have hempty : expect " () VALUES ()" (tokens (.text " (" :: (names columns ++
      .text ") VALUES " :: joined ", " tuples))) = none := by
    obtain ⟨c, g, hg⟩ := names_eq_cons hcolumns
    rw [hg]
    rfl
  have hread : TableCommand.insertOf value (tokens (.text "INSERT INTO " :: path table ++
      .text " (" :: names columns ++ .text ") VALUES " :: joined ", " tuples)) =
      some (.insert table columns rows) := by
    simp only [TableCommand.insertOf, List.cons_append, List.append_assoc, expect_text, hpath,
      hdefaults, hempty, hnames, htuple, Option.bind_eq_bind, Option.bind_some, Option.pure_def]
  exact TableCommand.readOf_insert hlegible hread

theorem differingRow?_eq_none {columns : List String} {rows : List Attributes} {start : Nat} :
    differingRow? columns start rows = none ↔ ∀ row ∈ rows, row.names = columns := by
  induction rows generalizing start with
  | nil => exact ⟨fun _ => nofun, fun _ => rfl⟩
  | cons row rest ih =>
    rw [List.forall_mem_cons, differingRow?]
    split
    · next hrow => rw [ih, and_iff_right hrow]
    · next hrow => exact ⟨nofun, fun h => absurd h.1 hrow⟩

/-- Several rows, all of them with these columns. -/
def rowsFragment (table : String) (columns : List String) (rows : List Attributes) : Fragment :=
  .text "INSERT INTO " :: path table ++ .text " (" :: names columns ++
    .text ") VALUES " :: joined ", " (rows.map tuple)

/-- Rows are compiled if all have the same columns, at least one, and the table has a name. -/
theorem batchInsertionFragment_eq_ok {rows : List Attributes} {f : Fragment} :
    q.batchInsertionFragment rows = .ok f ↔
      ∃ columns, columns ≠ [] ∧ rows ≠ [] ∧ (∀ row ∈ rows, row.names = columns) ∧
        (Text.trim q.table).isEmpty = false ∧ rowsFragment q.table columns rows = f := by
  unfold batchInsertionFragment
  constructor
  · intro h
    cases rows with
    | nil => cases h
    | cons first rest =>
      simp only [] at h
      split at h
      · cases h
      · next hne =>
        split at h
        · cases h
        · next hdiffering =>
          obtain ⟨t, ht, heq⟩ := ok_of_bind h
          have htable := exists_tableFragment.mp ⟨t, ht⟩
          rw [tableFragment_ok htable] at ht
          cases ht
          cases heq
          exact ⟨first.names, NameMap.names_ne_nil.mpr (Bool.eq_false_iff.mpr hne),
            List.cons_ne_nil first rest, differingRow?_eq_none.mp hdiffering, htable, rfl⟩
  · rintro ⟨columns, hcolumns, hrows, hnames, htable, rfl⟩
    obtain ⟨first, rest, rfl⟩ := List.exists_cons_of_ne_nil hrows
    have hfirst : first.names = columns := hnames first (List.mem_cons_self ..)
    have hne : first.isEmpty = false := NameMap.names_ne_nil.mp (hfirst ▸ hcolumns)
    simp only [hne, hfirst, differingRow?_eq_none.mpr hnames, tableFragment_ok htable]
    rfl

theorem readOf_batchInsertion (htable : (Text.trim q.table).isEmpty = false)
    {columns : List String} (hcolumns : columns ≠ []) {rows : List Attributes} (hrows : rows ≠ [])
    (hnames : ∀ row ∈ rows, row.names = columns)
    (hvalues : ∀ row ∈ rows, ∀ v ∈ row.values, Finds value anything v (bind v)) :
    ∃ st, q.batchInsertion rows = .ok st ∧
      TableCommand.readOf value q.dialect st =
        some (.insert q.table columns (rows.map NameMap.values)) := by
  have hcompile : q.batchInsertionFragment rows = .ok (.text "INSERT INTO " :: path q.table ++
      .text " (" :: names columns ++ .text ") VALUES " ::
        joined ", " ((rows.map NameMap.values).map fun vs =>
          parens (joined ", " (vs.map bind)))) := by
    refine batchInsertionFragment_eq_ok.mpr ⟨columns, hcolumns, hrows, hnames, htable, ?_⟩
    rw [rowsFragment, List.map_map]
    rfl
  refine ⟨_, congrArg (Except.map (Fragment.statement q.dialect 0)) hcompile, ?_⟩
  refine readOf_rows q.table hcolumns (fun he => hrows (List.map_eq_nil_iff.mp he)) ?_ ?_ q.dialect
  · intro vs hvs he
    obtain ⟨row, hrow, rfl⟩ := List.mem_map.mp hvs
    refine hcolumns ?_
    rw [← hnames row hrow]
    exact List.map_eq_nil_iff.mpr (List.map_eq_nil_iff.mp he)
  · intro vs hvs
    obtain ⟨row, hrow, rfl⟩ := List.mem_map.mp hvs
    exact hvalues row hrow

end ValuesOfKind

theorem read_updating (h : q.Asks matching) (htable : (Text.trim q.table).isEmpty = false)
    {assignments : Attributes} (hne : assignments.isEmpty = false)
    (hdefault : ∀ v ∈ assignments.values, v.isDefault = false) :
    ∃ st, q.updating assignments = .ok st ∧
      TableCommand.read q.dialect st = some (.update q.table assignments.entries matching) :=
  readOf_updating h htable hne fun v hv => readValue_bind (hdefault v hv)

theorem read_batchInsertion (htable : (Text.trim q.table).isEmpty = false)
    {columns : List String} (hcolumns : columns ≠ []) {rows : List Attributes} (hrows : rows ≠ [])
    (hnames : ∀ row ∈ rows, row.names = columns)
    (hdefault : ∀ row ∈ rows, ∀ v ∈ row.values, v.isDefault = false) :
    ∃ st, q.batchInsertion rows = .ok st ∧
      TableCommand.read q.dialect st =
        some (.insert q.table columns (rows.map NameMap.values)) :=
  readOf_batchInsertion htable hcolumns hrows hnames fun row hrow v hv =>
    readValue_bind (hdefault row hrow v hv)

theorem read_insertion (htable : (Text.trim q.table).isEmpty = false) {row : Attributes}
    (hdefault : ∀ v ∈ row.values, v.isDefault = false) :
    ∃ st, q.insertion row = .ok st ∧
      TableCommand.read q.dialect st = some (.insert q.table row.names [row.values]) := by
  by_cases hrow : row.isEmpty = true
  · -- The keywords for a row without values depend on the dialect.
    obtain ⟨keywords, hkeywords⟩ : ∃ keywords : String, keywords =
        if q.dialect.isMysqlFamily then " () VALUES ()" else " DEFAULT VALUES" := ⟨_, rfl⟩
    have hentries : row.entries = [] := List.isEmpty_iff.mp hrow
    have hcompile : q.insertionFragment row =
        .ok (.text "INSERT INTO " :: path q.table ++ [.text keywords]) := by
      unfold insertionFragment
      rw [tableFragment_ok htable, hrow, hkeywords]
      rfl
    refine ⟨_, congrArg (Except.map (Fragment.statement q.dialect 0)) hcompile, ?_⟩
    have hcases : keywords = " () VALUES ()" ∨ keywords = " DEFAULT VALUES" := by
      rw [hkeywords]
      split
      · exact .inl rfl
      · exact .inr rfl
    have hlegible :
        isLegible (.text "INSERT INTO " :: path q.table ++ [.text keywords]) = true := by
      have htail : isLegible (path q.table ++ [.text keywords]) = true := by
        refine isLegible_append (isLegible_path q.table) ?_ ?_ <;>
          rcases hcases with rfl | rfl <;> rfl
      simp only [List.cons_append, isLegible, htail]
      rfl
    have hpath := readPath_path q.table [.text keywords]
      (by rcases hcases with rfl | rfl <;> rfl)
    have hread : TableCommand.insertOf readValue (tokens (.text "INSERT INTO " :: path q.table ++
        [.text keywords])) = some (.insert q.table [] [[]]) := by
      simp only [TableCommand.insertOf, List.cons_append, expect_text, hpath,
        Option.bind_eq_bind, Option.bind_some]
      rcases hcases with rfl | rfl <;> rfl
    unfold NameMap.names NameMap.values
    rw [hentries]
    exact TableCommand.readOf_insert hlegible hread
  · have hne : row.entries ≠ [] := fun he => hrow (List.isEmpty_iff.mpr he)
    have hcompile : q.insertionFragment row = .ok (.text "INSERT INTO " :: path q.table ++
        .text " (" :: names row.names ++ .text ") VALUES " ::
          joined ", " ([row.values].map fun vs => parens (joined ", " (vs.map bind)))) := by
      unfold insertionFragment
      rw [tableFragment_ok htable]
      simp only [hrow]
      rfl
    refine ⟨_, congrArg (Except.map (Fragment.statement q.dialect 0)) hcompile, ?_⟩
    refine readOf_rows q.table (fun he => hne (List.map_eq_nil_iff.mp he)) (List.cons_ne_nil _ _)
      ?_ ?_ q.dialect
    · intro vs hvs he
      rw [List.mem_singleton.mp hvs] at he
      exact hne (List.map_eq_nil_iff.mp he)
    · intro vs hvs
      rw [List.mem_singleton.mp hvs]
      exact fun v hv => readValue_bind (hdefault v hv)

theorem read_pluck (h : q.Asks matching) (htable : (Text.trim q.table).isEmpty = false)
    (column : String) :
    ∃ st, (q.withColumns [.column column]).statement = .ok st ∧
      TableCommand.read q.dialect st = some (.select column q.table matching) := by
  obtain ⟨f, hf, hw⟩ := h.where_written q.dialect
  have hcompile : (q.withColumns [.column column]).compile q.dialect =
      .ok (.text "SELECT " :: path column ++ .text " FROM " :: path q.table ++ f) := by
    obtain ⟨table, dialect, key, filters, rfl⟩ : ∃ (table : String) (dialect : Dialect)
        (key : String) (filters : List Link),
        q = ⟨table, dialect, key, [], false, [], filters, [], [], [], [], none, none⟩ :=
      ⟨_, _, _, _, h.shape⟩
    obtain ⟨condition, hcondition, hf⟩ := ok_of_bind hf
    obtain ⟨chain, hchain, hcondition⟩ := ok_of_bind hcondition
    cases hcondition
    cases hf
    have hcolumn : compileExprs dialect [.column column] = .ok [path column] := rfl
    have hall : (.text "SELECT " :: path column ++ .text " FROM " :: path table ++ [] ++
        clause " WHERE " (conjunction chain false []) ++ [] ++ [] ++ [] ++ [] : Fragment) =
        .text "SELECT " :: path column ++ .text " FROM " :: path table ++
          clause " WHERE " (conjunction chain false []) := by
      simp only [List.append_nil]
    rw [withColumns, Query.compile, hcolumn, tableFragment_ok htable, hchain]
    exact congrArg Except.ok hall
  have hlegible : isLegible (.text "SELECT " :: path column ++ .text " FROM " :: path q.table ++
      f) = true := by
    have htail := isLegible_append (isLegible_path q.table) hw.legible hw.opens
    have hrest : isLegible (path column ++ .text " FROM " :: (path q.table ++ f)) = true := by
      refine isLegible_append (isLegible_path column) ?_ rfl
      simp only [isLegible, htail]
      rfl
    simp only [List.cons_append, List.append_assoc, isLegible, hrest]
    rfl
  refine ⟨_, congrArg (Except.map (Fragment.statement q.dialect 0)) hcompile, ?_⟩
  have hcolumn := readPath_path column (.text " FROM " :: (path q.table ++ f))
    (expect_text_none (by decide) _)
  have hpath := readPath_path q.table f hw.noDot
  have hread : TableCommand.readSelect (tokens (.text "SELECT " :: path column ++
      .text " FROM " :: path q.table ++ f)) = some (.select column q.table matching) := by
    simp only [TableCommand.readSelect, List.cons_append, List.append_assoc, expect_text, hcolumn,
      hpath, hw.reads, Option.bind_eq_bind, Option.bind_some, Option.pure_def]
  exact TableCommand.read_select hlegible hread

end Query

end RecordMapper
