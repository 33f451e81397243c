import RecordMapper.Proofs.Query.Identifiers
import RecordMapper.Proofs.Query.Parametric

/-!
Identifiers stay inside their quotes.

* `Query.commandFragment_fenced`: a statement without trusted SQL has the names of its query and its
  command, each of them in quotes of its own.
* `Mask.names` hides every name and value. What it hides stands in quotes or is a placeholder, so
  it never changes the text outside of them (`Query.command_quoted`).
-/
namespace RecordMapper

set_option autoImplicit false
set_option maxRecDepth 100000

open Fragment (segments)

namespace Query

/-! ## Names of statements -/

/-- Whether what a command reads of a query is free of trusted SQL. -/
def isBuiltFor (q : Query) : Command → Bool
  | .read => q.isBuilt
  | .count =>
    if q.distinct || q.isGrouped then q.unwindowed.isBuilt
    else (q.aggregateOf (.aggregate .count none false)).isBuilt
  | .update _ => areBuiltLinks q.filters && areBuiltConditions q.scopes
  | .delete => areBuiltLinks q.filters && areBuiltConditions q.scopes
  | .insert _ => true
  | .insertMany _ => true
  | .upsert _ _ _ => true

/-- The columns of several rows are those of the first. -/
def columnsOf (rows : List Attributes) : List String :=
  match rows with
  | [] => []
  | first :: _ => first.names

def identifiersOfCollision (d : Dialect) (uniqueBy update : List String) : List String :=
  if d.isMysqlFamily then
    match update with
    | [] => (uniqueBy.take 1).flatMap fun c => [c, c]
    | columns => columns.flatMap fun c => [c, c]
  else uniqueBy ++ update.flatMap fun c => [c, c]

/-- The names a statement is written with, in reading order. -/
def identifiersFor (q : Query) : Command → List String
  | .read => q.identifiers
  | .count =>
    if q.distinct || q.isGrouped then
      aggregateName :: (q.unwindowed.identifiers ++ ["aggregate_table"])
    else (q.aggregateOf (.aggregate .count none false)).identifiers
  | .insert row => segments q.table ++ row.names
  | .insertMany rows => segments q.table ++ columnsOf rows
  | .update assignments =>
    segments q.table ++ (assignments.names ++
      (identifiersOfLinks q.filters ++ identifiersOfConditions q.scopes))
  | .delete =>
    segments q.table ++ (identifiersOfLinks q.filters ++ identifiersOfConditions q.scopes)
  | .upsert rows uniqueBy update =>
    segments q.table ++ (columnsOf rows ++ identifiersOfCollision q.dialect uniqueBy update)

section Fragments
open Fragment

variable {q : Query} {f : Fragment}

theorem tuple_fenced (row : Attributes) : Fenced 0 0 [] (tuple row) :=
  ((FencedAll.map_bind row.values).joined ", " rfl).parens

theorem tuples_fenced (rows : List Attributes) : FencedAll [] (rows.map tuple) := by
  induction rows with
  | nil => exact .nil
  | cons row rest ih => exact .cons (tuple_fenced row) ih

/-- The names of the columns of new rows, and their values. -/
theorem columns_values_fenced (columns : List String) {values : Fragment}
    (hv : Fenced 0 0 [] values) :
    Fenced 0 0 columns
      (.text " (" :: names columns ++ .text ") VALUES " :: values) := by
  have h := ((fenced_names columns).lift 1).append
    (.text (a := 1) ") VALUES " rfl hv) rfl
  rw [List.append_nil] at h
  exact .text " (" rfl h

theorem insertionFragment_fenced {row : Attributes} (h : q.insertionFragment row = .ok f) :
    Fenced 0 0 (segments q.table ++ row.names) f := by
  obtain ⟨t, ht, h⟩ := ok_of_bind h
  have hinto := Fenced.text (a := 0) "INSERT INTO " rfl (tableFragment_fenced ht)
  split at h
  · next he =>
    cases h
    have hrow : row.names = [] := by
      unfold NameMap.names
      rw [List.isEmpty_iff.mp he, List.map_nil]
    rw [hrow]
    exact hinto.append (.text _ (by split <;> rfl) (.nil 0)) rfl
  · cases h
    have hboth := hinto.append (columns_values_fenced row.names (tuple_fenced row)) rfl
    rw [← List.append_assoc] at hboth
    exact hboth

theorem batchInsertionFragment_fenced {rows : List Attributes}
    (h : q.batchInsertionFragment rows = .ok f) :
    Fenced 0 0 (segments q.table ++ columnsOf rows) f := by
  cases rows with
  | nil => cases h
  | cons first rest =>
    simp only [batchInsertionFragment] at h
    split at h
    · cases h
    · split at h
      · cases h
      · obtain ⟨t, ht, h⟩ := ok_of_bind h
        cases h
        have hboth := (Fenced.text (a := 0) "INSERT INTO " rfl (tableFragment_fenced ht)).append
          (columns_values_fenced first.names ((tuples_fenced (first :: rest)).joined ", " rfl)) rfl
        rw [← List.append_assoc] at hboth
        exact hboth

theorem whereFragment_fenced (hb : areBuiltLinks q.filters && areBuiltConditions q.scopes)
    (h : q.whereFragment q.dialect = .ok f) :
    Fenced 0 0 (identifiersOfLinks q.filters ++ identifiersOfConditions q.scopes) f ∧
      f.opensPlain = true := by
  obtain ⟨hbfilters, hbscopes⟩ := Bool.and_eq_true _ _ ▸ hb
  obtain ⟨condition, hc, h⟩ := ok_of_bind h
  obtain ⟨chain, hchain, hc⟩ := ok_of_bind hc
  obtain ⟨ss, hss, hc⟩ := ok_of_bind hc
  cases hc
  cases h
  exact ⟨conjunction_fenced (compileLinks_fenced q.dialect q.filters hbfilters (.nil 0) hchain)
    (!q.scopes.isEmpty) (compileScopes_fenced q.dialect q.scopes hbscopes hss) " WHERE " rfl,
    opensPlain_clause _ _⟩

theorem updatingFragment_fenced {assignments : Attributes}
    (hb : areBuiltLinks q.filters && areBuiltConditions q.scopes)
    (h : q.updatingFragment assignments = .ok f) :
    Fenced 0 0 (q.identifiersFor (.update assignments)) f := by
  simp only [updatingFragment] at h
  split at h
  · cases h
  · obtain ⟨t, ht, h⟩ := ok_of_bind h
    obtain ⟨condition, hc, h⟩ := ok_of_bind h
    cases h
    have hassignment : ∀ e : String × Value, Fenced 0 0 [e.1] (assignment e.1 e.2) := fun e =>
      .name e.1 rfl (.text " = " rfl (.bind e.2))
    have hset := (FencedAll.flatMap (fun e : String × Value => [e.1])
      (fun e => assignment e.1 e.2) assignments.entries hassignment).joined ", " rfl
    rw [← List.map_eq_flatMap] at hset
    have hboth := ((Fenced.text (a := 0) "UPDATE " rfl (tableFragment_fenced ht)).append
      (.text " SET " rfl hset) rfl).append (whereFragment_fenced hb hc).1
        (whereFragment_fenced hb hc).2
    rw [List.append_assoc] at hboth
    exact hboth

theorem deletionFragment_fenced (hb : areBuiltLinks q.filters && areBuiltConditions q.scopes)
    (h : q.deletionFragment = .ok f) : Fenced 0 0 (q.identifiersFor .delete) f := by
  obtain ⟨t, ht, h⟩ := ok_of_bind h
  obtain ⟨condition, hc, h⟩ := ok_of_bind h
  cases h
  exact (Fenced.text "DELETE FROM " rfl (tableFragment_fenced ht)).append
    (whereFragment_fenced hb hc).1 (whereFragment_fenced hb hc).2

theorem collision_fenced (d : Dialect) (uniqueBy update : List String) :
    Fenced 0 0 (identifiersOfCollision d uniqueBy update) (collision d uniqueBy update) ∧
      (collision d uniqueBy update).opensPlain = true := by
  have hpair : ∀ (c word : String), nests 0 0 word = true →
      Fenced 0 0 [c, c] [.name c, .text word, .name c] :=
    fun c word hword => .name c rfl (.text word hword (.of_name c))
  have hcall : ∀ c : String,
      Fenced 0 0 [c, c] [.name c, .text " = VALUES(", .name c, .text ")"] := fun c =>
    .name c rfl (.text (b := 1) " = VALUES(" rfl
      (.name c rfl (.text ")" rfl (.nil 0))))
  unfold collision identifiersOfCollision
  split
  · refine ⟨.text " ON DUPLICATE KEY UPDATE " rfl (FencedAll.joined ?_ ", " rfl), rfl⟩
    cases update with
    | nil => exact .flatMap _ _ _ fun c => hpair c " = " rfl
    | cons a rest => exact .flatMap _ _ _ hcall
  · refine ⟨.text (b := 1) " ON CONFLICT (" rfl (((fenced_names uniqueBy).lift 1).append ?_ rfl),
      rfl⟩
    refine .text (b := 0) ")" rfl ?_
    cases update with
    | nil => exact .text " DO NOTHING" rfl (.nil 0)
    | cons a rest =>
      exact .text " DO UPDATE SET " rfl
        ((FencedAll.flatMap _ _ _ fun c => hpair c " = EXCLUDED." rfl).joined ", " rfl)

theorem upsertionFragment_fenced {rows : List Attributes} {uniqueBy update : List String}
    (h : q.upsertionFragment rows uniqueBy update = .ok f) :
    Fenced 0 0 (q.identifiersFor (.upsert rows uniqueBy update)) f := by
  simp only [upsertionFragment] at h
  split at h
  · cases h
  · obtain ⟨g, hg, h⟩ := ok_of_bind h
    cases h
    have hboth := (batchInsertionFragment_fenced hg).append
      (collision_fenced q.dialect uniqueBy update).1 (collision_fenced q.dialect uniqueBy update).2
    rw [List.append_assoc] at hboth
    exact hboth

theorem countingFragment_fenced (hb : q.isBuiltFor .count = true)
    (h : q.countingFragment = .ok f) : Fenced 0 0 (q.identifiersFor .count) f := by
  simp only [countingFragment] at h
  simp only [isBuiltFor] at hb
  simp only [identifiersFor]
  split at h
  · next hd =>
    obtain ⟨g, hg, h⟩ := ok_of_bind h
    cases h
    rw [if_pos hd] at hb ⊢
    have hinner := ((q.unwindowed.compile_fenced q.dialect hb hg).lift 1).append
      (.text (c := 0) ") AS " rfl (.of_name "aggregate_table")) rfl
    exact .text "SELECT COUNT(*) AS " rfl
      (.name aggregateName rfl (.text (a := 0) " FROM (" rfl hinner))
  · next hd =>
    rw [if_neg hd] at hb ⊢
    exact compile_fenced q.dialect _ hb h

theorem commandFragment_fenced {c : Command} (hb : q.isBuiltFor c = true)
    (h : q.commandFragment c = .ok f) : Fenced 0 0 (q.identifiersFor c) f := by
  cases c with
  | read => exact q.compile_fenced q.dialect hb h
  | count => exact countingFragment_fenced hb h
  | insert row => exact insertionFragment_fenced h
  | insertMany rows => exact batchInsertionFragment_fenced h
  | update assignments => exact updatingFragment_fenced hb h
  | delete => exact deletionFragment_fenced hb h
  | upsert rows uniqueBy update => exact upsertionFragment_fenced h

end Fragments

end Query

/-! ## Hidden names -/

/-- A segment of a path with its text left out; a star is no name. -/
def maskedSegment (s : String) : String := if s = "*" then "*" else "x"

def maskedPath (p : String) : String :=
  Text.joined "." ((Text.fields '.' p).map maskedSegment)

theorem fields_maskedPath (p : String) :
    Text.fields '.' (maskedPath p) = (Text.fields '.' p).map maskedSegment := by
  have hne : ((Text.fields '.' p).map maskedSegment).map String.toList ≠ [] := fun h =>
    Text.fields_ne_nil '.' p (List.map_eq_nil_iff.mp (List.map_eq_nil_iff.mp h))
  have hdots : ∀ part ∈ ((Text.fields '.' p).map maskedSegment).map String.toList,
      '.' ∉ part := by
    intro part hpart
    simp only [List.map_map, List.mem_map, Function.comp_apply] at hpart
    obtain ⟨s, -, rfl⟩ := hpart
    unfold maskedSegment
    split <;> decide
  unfold maskedPath Text.joined
  rw [Text.fields, String.toList_ofList]
  rw [show ".".toList = ['.'] from rfl, Text.fieldsAt_joinWith hne hdots, List.map_map]
  simp [Function.comp_def]

theorem trim_maskedPath (p : String) : (Text.trim (maskedPath p)).isEmpty = false := by
  obtain ⟨first, rest, hfields⟩ := List.exists_cons_of_ne_nil (Text.fields_ne_nil '.' p)
  have hopens : ∃ c cs, (maskedPath p).toList = c :: cs ∧ Text.isBlank c = false := by
    unfold maskedPath Text.joined
    rw [hfields, String.toList_ofList]
    have hfirst : ∃ c, (maskedSegment first).toList = [c] ∧ Text.isBlank c = false := by
      unfold maskedSegment
      split
      · exact ⟨'*', rfl, by decide⟩
      · exact ⟨'x', rfl, by decide⟩
    obtain ⟨c, hc, hblank⟩ := hfirst
    cases rest with
    | nil => exact ⟨c, [], hc, hblank⟩
    | cons second rest =>
      refine ⟨c, '.' :: Text.joinWith ['.'] (((second :: rest).map maskedSegment).map
        String.toList), ?_, hblank⟩
      rw [List.map_cons, List.map_cons, List.map_cons, List.map_cons, Text.joinWith, hc]
      rfl
  obtain ⟨c, cs, hchars, hblank⟩ := hopens
  exact Text.trim_ne_empty hchars hblank

namespace Mask

/-- Hides every name and every value. A table that has no name still has none. -/
def names : Mask :=
  { values with
    name := fun _ => "x"
    path := maskedPath
    table := fun t => if (Text.trim t).isEmpty then t else maskedPath t }

theorem fragment_names_path (p : String) :
    names.fragment (Fragment.path (maskedPath p)) = names.fragment (Fragment.path p) := by
  have hsegment : ∀ s : String, names.fragment [Fragment.segment (maskedSegment s)] =
      names.fragment [Fragment.segment s] := by
    intro s
    unfold maskedSegment
    split
    · next hs => rw [hs]
    · next hs =>
      unfold Fragment.segment
      rw [if_neg hs]
      rfl
  unfold Fragment.path
  rw [fields_maskedPath, fragment_joined, fragment_joined, List.map_map, List.map_map, List.map_map]
  exact congrArg _ (List.map_congr_left fun s _ => hsegment s)

theorem fragment_names_table (t : String) :
    (tableFragment (names.table t)).map names.fragment = (tableFragment t).map names.fragment := by
  simp only [names]
  split
  · rfl
  · next ht =>
    rw [tableFragment, tableFragment, trim_maskedPath, if_neg Bool.false_ne_true, if_neg ht]
    exact congrArg Except.ok (fragment_names_path t)

theorem fair_names : names.Fair where
  name_name := fun _ => rfl
  value_value := fair_values.value_value
  isDefault_value := fair_values.isDefault_value
  isNull_of_value := fair_values.isNull_of_value
  value_number := fair_values.value_number
  fragment_path := fragment_names_path
  fragment_table := fragment_names_table
  value_jsonPath := fair_values.value_jsonPath

end Mask

/-! ## Quotes -/

theorem Fragment.blanked_lexemes (m : Mask) (d : Dialect) (bound : Nat) (f : Fragment) :
    ((m.fragment f).lexemes d bound).map Lexeme.blanked =
      (f.lexemes d bound).map Lexeme.blanked := by
  induction f generalizing bound with
  | nil => rfl
  | cons p rest ih =>
    cases p with
    | text sql =>
      rw [Mask.fragment_text, Fragment.lexemes, Fragment.lexemes, List.map_append, List.map_append,
        ih]
    | name identifier => exact congrArg (Lexeme.name "" :: ·) (ih bound)
    | hole v =>
      show (Fragment.lexemes d bound (.hole (m.value v) :: m.fragment rest)).map _ = _
      rw [Fragment.lexemes, Fragment.lexemes, List.map_append, List.map_append, ih]

/-- Several rows are written only if they have the same columns. -/
theorem Query.uniform_of_commandFragment {q : Query} {c : Command} {f : Fragment}
    (h : q.commandFragment c = .ok f) : c.uniform = true := by
  have hbatch : ∀ {rows : List Attributes} {f : Fragment},
      q.batchInsertionFragment rows = .ok f → uniform rows = true := by
    intro rows f h
    cases rows with
    | nil => rfl
    | cons first rest =>
      simp only [batchInsertionFragment] at h
      split at h
      · cases h
      · split at h
        · cases h
        · next hd => exact congrArg Option.isNone hd
  cases c with
  | insertMany rows => exact hbatch h
  | upsert rows uniqueBy update =>
    simp only [commandFragment, upsertionFragment] at h
    split at h
    · cases h
    · obtain ⟨g, hg, -⟩ := ok_of_bind h
      exact hbatch hg
  | _ => rfl

/-- A statement without trusted SQL ends outside of quotes. What it quotes are its names, in reading
order, and what it does not quote closes every parenthesis it opens. Other names change nothing but
what is quoted, as long as a row still has the keyword at the same places. -/
theorem Query.command_quoted (q : Query) (c : Command) (st : Statement)
    (hb : q.isBuiltFor c = true) (h : q.command c = .ok st) :
    ∃ ls, lexemes q.dialect.quoteChar st.sql = some ls ∧
      ls.filterMap Lexeme.content? = q.identifiersFor c ∧
      nesting 0 (ls.filterMap Lexeme.plain?) = some 0 ∧
      ∀ (q' : Query) (c' : Command) (st' : Statement), q'.isBuiltFor c' = true →
        q.masked .names = q'.masked .names → c.Alike .names c' → q'.command c' = .ok st' →
        ∃ ls', lexemes q'.dialect.quoteChar st'.sql = some ls' ∧
          ls'.map Lexeme.blanked = ls.map Lexeme.blanked := by
  have hread : ∀ {q : Query} {c : Command} {st : Statement}, q.isBuiltFor c = true →
      q.command c = .ok st → ∃ f, q.commandFragment c = .ok f ∧
        Fragment.Fenced 0 0 (q.identifiersFor c) f ∧
        lexemes q.dialect.quoteChar st.sql = some (f.lexemes q.dialect 0) := by
    intro q c st hb h
    rw [command_eq] at h
    obtain ⟨f, hf, rfl⟩ := ok_of_map h
    have hfenced := commandFragment_fenced hb hf
    refine ⟨f, hf, hfenced, ?_⟩
    unfold lexemes Fragment.statement Fragment.write
    rw [String.toList_ofList, Fragment.lexemes_eq hfenced.isApart q.dialect 0]
  obtain ⟨f, hf, hfenced, hlexemes⟩ := hread hb h
  refine ⟨_, hlexemes, hfenced.names_eq q.dialect 0, hfenced.nesting_eq q.dialect 0, ?_⟩
  intro q' c' st' hb' hq hc h'
  obtain ⟨f', hf', -, hlexemes'⟩ := hread hb' h'
  refine ⟨_, hlexemes', ?_⟩
  have huniform : c.uniform = c'.uniform :=
    (uniform_of_commandFragment hf).trans (uniform_of_commandFragment hf').symm
  have hfragment := commandFragment_masked Mask.fair_names hq hc huniform
  rw [hf, hf'] at hfragment
  rw [← Fragment.blanked_lexemes .names _ _ f', ← Fragment.blanked_lexemes .names _ _ f,
    ← dialect_of_masked hq, Option.some.inj hfragment]

/-- A query whose names try to close their quotes. -/
def disguisedNames : Query :=
  ((Query.on "shop.or\"ders" .postgres).withColumns
    [.column "o.*", .named (.aggregate .count (some (.column "i`d")) true) "n\") --"]).filter
      (.isIn (.column "a b.c(") [.text "x", .default] false)

def disguisedStatement : Statement where
  sql := "SELECT \"o\".*, COUNT(DISTINCT \"i`d\") AS \"n\"\") --\" FROM \"shop\".\"or\"\"ders\" " ++
    "WHERE \"a b\".\"c(\" IN ($1, DEFAULT)"
  values := [.text "x"]

theorem Query.command_quoted_disguisedNames :
    disguisedNames.isBuiltFor .read = true ∧
      disguisedNames.command .read = .ok disguisedStatement ∧
      ∃ ls, lexemes disguisedNames.dialect.quoteChar disguisedStatement.sql = some ls ∧
        ls.filterMap Lexeme.content? = disguisedNames.identifiersFor .read ∧
        nesting 0 (ls.filterMap Lexeme.plain?) = some 0 ∧
        ∀ (q' : Query) (c' : Command) (st' : Statement), q'.isBuiltFor c' = true →
          disguisedNames.masked .names = q'.masked .names → Command.Alike .names .read c' →
          q'.command c' = .ok st' →
          ∃ ls', lexemes q'.dialect.quoteChar st'.sql = some ls' ∧
            ls'.map Lexeme.blanked = ls.map Lexeme.blanked := by
  have hbuilt : disguisedNames.isBuiltFor .read = true := rfl
  have hcommand : disguisedNames.command .read = .ok disguisedStatement := rfl
  exact ⟨hbuilt, hcommand, command_quoted disguisedNames .read disguisedStatement hbuilt hcommand⟩

/-- A row is written in the order of its names, so that another name can move the keyword among its
values. And the target of an empty list is not written at all. -/
theorem Query.renamed_column_moves_keyword :
    let q := Query.on "t" .postgres
    let row : Attributes := NameMap.ofList [("a", .default), ("b", .int64 1)]
    let renamed : Attributes :=
      NameMap.ofList (row.entries.map fun e => (if e.1 = "a" then "c" else e.1, e.2))
    let outside := fun sql : String =>
      (lexemes '"' sql).map fun ls => ls.filterMap Lexeme.plain?
    let quoted := fun sql : String =>
      (lexemes '"' sql).map fun ls => ls.filterMap Lexeme.content?
    ((q.command (.insert row)).toOption.map Statement.sql).bind outside =
        some "INSERT INTO  (, ) VALUES (DEFAULT, $1)".toList ∧
      ((q.command (.insert renamed)).toOption.map Statement.sql).bind outside =
        some "INSERT INTO  (, ) VALUES ($1, DEFAULT)".toList ∧
      (((q.filter (.isIn (.column "id") [] false)).command .read).toOption.map
        Statement.sql).bind quoted = some ["t"] := by
  decide +kernel

end RecordMapper
