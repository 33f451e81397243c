import RecordMapper.Proofs.Query.Parametric

/-!
One dialect for a whole statement.

* `Query.mapDialects` changes the dialects that are stored in a query and in all queries nested in
  it; `Query.dialects` lists them (`Query.dialects_mapDialects`).
* `Query.compile_mapDialects`: what a tree is compiled to depends on the dialect it is compiled for
  and on no dialect that is stored in it. It is one induction over the syntax.
* `Query.mapNested` leaves the dialect of the query itself, by which a statement is compiled. It
  changes no statement (`Query.command_mapNested`).
-/
namespace RecordMapper

set_option autoImplicit false

/-! ## Stored dialects -/

mutual

def Expr.mapDialects (f : Dialect → Dialect) : Expr → Expr
  | .column path => .column path
  | .literal value => .literal value
  | .named e name => .named (e.mapDialects f) name
  | .marked sql values => .marked sql values
  | .cast e type => .cast (e.mapDialects f) type
  | .arithmetic left op right => .arithmetic (left.mapDialects f) op (right.mapDialects f)
  | .compare left op right => .compare (left.mapDialects f) op (right.mapDialects f)
  | .concat parts => .concat (mapExprs f parts)
  | .textCall function e => .textCall function (e.mapDialects f)
  | .substring e start length => .substring (e.mapDialects f) start length
  | .replace e pattern replacement =>
    .replace (e.mapDialects f) (pattern.mapDialects f) (replacement.mapDialects f)
  | .extract part e => .extract part (e.mapDialects f)
  | .dateOf e => .dateOf (e.mapDialects f)
  | .now => .now
  | .coalesce choices => .coalesce (mapExprs f choices)
  | .nullIf left right => .nullIf (left.mapDialects f) (right.mapDialects f)
  | .aggregate function argument distinct => .aggregate function (mapOption f argument) distinct
  | .case branches otherwise => .case (mapBranches f branches) (mapOption f otherwise)
  | .json column path => .json column path
  | .subquery query => .subquery (query.mapDialects f)
  | .window e partition order =>
    .window (e.mapDialects f) (mapExprs f partition) (mapSortKeys f order)

def mapExprs (f : Dialect → Dialect) : List Expr → List Expr
  | [] => []
  | e :: rest => e.mapDialects f :: mapExprs f rest

def mapOption (f : Dialect → Dialect) : Option Expr → Option Expr
  | none => none
  | some e => some (e.mapDialects f)

def Branch.mapDialects (f : Dialect → Dialect) : Branch → Branch
  | { condition, result } =>
    { condition := condition.mapDialects f, result := result.mapDialects f }

def mapBranches (f : Dialect → Dialect) : List Branch → List Branch
  | [] => []
  | b :: rest => b.mapDialects f :: mapBranches f rest

def SortKey.mapDialects (f : Dialect → Dialect) : SortKey → SortKey
  | { e, direction } => { e := e.mapDialects f, direction }

def mapSortKeys (f : Dialect → Dialect) : List SortKey → List SortKey
  | [] => []
  | k :: rest => k.mapDialects f :: mapSortKeys f rest

def Condition.mapDialects (f : Dialect → Dialect) : Condition → Condition
  | .compare target op value => .compare (target.mapDialects f) op value
  | .isIn target values negated => .isIn (target.mapDialects f) values negated
  | .isNull target negated => .isNull (target.mapDialects f) negated
  | .between target low high negated => .between (target.mapDialects f) low high negated
  | .columns comparison => .columns comparison
  | .marked sql values => .marked sql values
  | .existsRow query negated => .existsRow (query.mapDialects f) negated
  | .holds e => .holds (e.mapDialects f)

def Link.mapDialects (f : Dialect → Dialect) : Link → Link
  | { connective, condition } => { connective, condition := condition.mapDialects f }

def mapLinks (f : Dialect → Dialect) : List Link → List Link
  | [] => []
  | l :: rest => l.mapDialects f :: mapLinks f rest

def mapConditions (f : Dialect → Dialect) : List Condition → List Condition
  | [] => []
  | c :: rest => c.mapDialects f :: mapConditions f rest

def Query.mapDialects (f : Dialect → Dialect) : Query → Query
  | { table, dialect, key, columns, distinct, joins, filters, scopes, groups, havings, orders,
      limit, offset } =>
    { table, dialect := f dialect, key, columns := mapExprs f columns, distinct, joins,
      filters := mapLinks f filters, scopes := mapConditions f scopes, groups,
      havings := mapLinks f havings, orders := mapSortKeys f orders, limit, offset }
termination_by structural x => x

end

mutual

/-- The dialects of the queries in a tree, in reading order. -/
def Expr.dialects : Expr → List Dialect
  | .column _ => []
  | .literal _ => []
  | .named e _ => e.dialects
  | .marked _ _ => []
  | .cast e _ => e.dialects
  | .arithmetic left _ right => left.dialects ++ right.dialects
  | .compare left _ right => left.dialects ++ right.dialects
  | .concat parts => dialectsOfExprs parts
  | .textCall _ e => e.dialects
  | .substring e _ _ => e.dialects
  | .replace e pattern replacement =>
    e.dialects ++ (pattern.dialects ++ replacement.dialects)
  | .extract _ e => e.dialects
  | .dateOf e => e.dialects
  | .now => []
  | .coalesce choices => dialectsOfExprs choices
  | .nullIf left right => left.dialects ++ right.dialects
  | .aggregate _ argument _ => dialectsOfOption argument
  | .case branches otherwise => dialectsOfBranches branches ++ dialectsOfOption otherwise
  | .json _ _ => []
  | .subquery query => query.dialects
  | .window e partition order =>
    e.dialects ++ (dialectsOfExprs partition ++ dialectsOfSortKeys order)

def dialectsOfExprs : List Expr → List Dialect
  | [] => []
  | e :: rest => e.dialects ++ dialectsOfExprs rest

def dialectsOfOption : Option Expr → List Dialect
  | none => []
  | some e => e.dialects

def Branch.dialects : Branch → List Dialect
  | { condition, result } => condition.dialects ++ result.dialects

def dialectsOfBranches : List Branch → List Dialect
  | [] => []
  | b :: rest => b.dialects ++ dialectsOfBranches rest

def SortKey.dialects : SortKey → List Dialect
  | { e, .. } => e.dialects

def dialectsOfSortKeys : List SortKey → List Dialect
  | [] => []
  | k :: rest => k.dialects ++ dialectsOfSortKeys rest

def Condition.dialects : Condition → List Dialect
  | .compare target _ _ => target.dialects
  | .isIn target _ _ => target.dialects
  | .isNull target _ => target.dialects
  | .between target _ _ _ => target.dialects
  | .columns _ => []
  | .marked _ _ => []
  | .existsRow query _ => query.dialects
  | .holds e => e.dialects

def Link.dialects : Link → List Dialect
  | { condition, .. } => condition.dialects

def dialectsOfLinks : List Link → List Dialect
  | [] => []
  | l :: rest => l.dialects ++ dialectsOfLinks rest

def dialectsOfConditions : List Condition → List Dialect
  | [] => []
  | c :: rest => c.dialects ++ dialectsOfConditions rest

/-- The dialect of a query, and then those of the queries nested in it. -/
def Query.dialects : Query → List Dialect
  | { dialect, columns, filters, scopes, havings, orders, .. } =>
    dialect :: (dialectsOfExprs columns ++ (dialectsOfLinks filters ++
      (dialectsOfConditions scopes ++ (dialectsOfLinks havings ++ dialectsOfSortKeys orders))))
termination_by structural x => x

end

/-! ## Compiling -/

section Lists

variable (f : Dialect → Dialect)

theorem isEmpty_mapExprs (es : List Expr) : (mapExprs f es).isEmpty = es.isEmpty := by
  cases es <;> rfl

theorem isEmpty_mapBranches (bs : List Branch) : (mapBranches f bs).isEmpty = bs.isEmpty := by
  cases bs <;> rfl

theorem isEmpty_mapSortKeys (ks : List SortKey) : (mapSortKeys f ks).isEmpty = ks.isEmpty := by
  cases ks <;> rfl

theorem isEmpty_mapConditions (cs : List Condition) :
    (mapConditions f cs).isEmpty = cs.isEmpty := by
  cases cs <;> rfl

end Lists

mutual

theorem Expr.compile_mapDialects (f : Dialect → Dialect) (d : Dialect) (e : Expr) :
    (e.mapDialects f).compile d = e.compile d := by
  cases e with
  | column path => rfl
  | literal value => rfl
  | named e name => simp only [Expr.mapDialects, Expr.compile, e.compile_mapDialects f d]
  | marked sql values => rfl
  | cast e type => simp only [Expr.mapDialects, Expr.compile, e.compile_mapDialects f d]
  | arithmetic left op right =>
    simp only [Expr.mapDialects, Expr.compile, left.compile_mapDialects f d,
      right.compile_mapDialects f d]
  | compare left op right =>
    simp only [Expr.mapDialects, Expr.compile, left.compile_mapDialects f d,
      right.compile_mapDialects f d]
  | concat parts =>
    simp only [Expr.mapDialects, Expr.compile, isEmpty_mapExprs, compileExprs_map f d parts]
  | textCall function e => simp only [Expr.mapDialects, Expr.compile, e.compile_mapDialects f d]
  | substring e start length =>
    simp only [Expr.mapDialects, Expr.compile, e.compile_mapDialects f d]
  | replace e pattern replacement =>
    simp only [Expr.mapDialects, Expr.compile, e.compile_mapDialects f d,
      pattern.compile_mapDialects f d, replacement.compile_mapDialects f d]
  | extract part e => simp only [Expr.mapDialects, Expr.compile, e.compile_mapDialects f d]
  | dateOf e => simp only [Expr.mapDialects, Expr.compile, e.compile_mapDialects f d]
  | now => rfl
  | coalesce choices => simp only [Expr.mapDialects, Expr.compile, compileExprs_map f d choices]
  | nullIf left right =>
    simp only [Expr.mapDialects, Expr.compile, left.compile_mapDialects f d,
      right.compile_mapDialects f d]
  | aggregate function argument distinct =>
    simp only [Expr.mapDialects, Expr.compile, compileArgument_map f d argument]
  | case branches otherwise =>
    simp only [Expr.mapDialects, Expr.compile, isEmpty_mapBranches,
      compileBranches_map f d branches, compileOtherwise_map f d otherwise]
  | json column path => rfl
  | subquery query => simp only [Expr.mapDialects, Expr.compile, query.compile_mapDialects f d]
  | window e partition order =>
    simp only [Expr.mapDialects, Expr.compile, e.compile_mapDialects f d,
      compileExprs_map f d partition, compileSortKeys_map f d order]
termination_by structural e

theorem compileExprs_map (f : Dialect → Dialect) (d : Dialect) (es : List Expr) :
    compileExprs d (mapExprs f es) = compileExprs d es := by
  cases es with
  | nil => rfl
  | cons e rest =>
    simp only [mapExprs, compileExprs, e.compile_mapDialects f d, compileExprs_map f d rest]
termination_by structural es

theorem compileArgument_map (f : Dialect → Dialect) (d : Dialect) (argument : Option Expr) :
    compileArgument d (mapOption f argument) = compileArgument d argument := by
  cases argument with
  | none => rfl
  | some e => exact e.compile_mapDialects f d
termination_by structural argument

theorem compileBranches_map (f : Dialect → Dialect) (d : Dialect) (bs : List Branch) :
    compileBranches d (mapBranches f bs) = compileBranches d bs := by
  cases bs with
  | nil => rfl
  | cons b rest =>
    simp only [mapBranches, compileBranches, b.compile_mapDialects f d,
      compileBranches_map f d rest]
termination_by structural bs

theorem Branch.compile_mapDialects (f : Dialect → Dialect) (d : Dialect) (b : Branch) :
    (b.mapDialects f).compile d = b.compile d := by
  cases b with
  | mk condition result =>
    simp only [Branch.mapDialects, Branch.compile, condition.compile_mapDialects f d,
      result.compile_mapDialects f d]
termination_by structural b

theorem compileOtherwise_map (f : Dialect → Dialect) (d : Dialect) (otherwise : Option Expr) :
    compileOtherwise d (mapOption f otherwise) = compileOtherwise d otherwise := by
  cases otherwise with
  | none => rfl
  | some e => simp only [mapOption, compileOtherwise, e.compile_mapDialects f d]
termination_by structural otherwise

theorem SortKey.compile_mapDialects (f : Dialect → Dialect) (d : Dialect) (k : SortKey) :
    (k.mapDialects f).compile d = k.compile d := by
  cases k with
  | mk e direction => simp only [SortKey.mapDialects, SortKey.compile, e.compile_mapDialects f d]
termination_by structural k

theorem compileSortKeys_map (f : Dialect → Dialect) (d : Dialect) (ks : List SortKey) :
    compileSortKeys d (mapSortKeys f ks) = compileSortKeys d ks := by
  cases ks with
  | nil => rfl
  | cons k rest =>
    simp only [mapSortKeys, compileSortKeys, k.compile_mapDialects f d,
      compileSortKeys_map f d rest]
termination_by structural ks

theorem Condition.compile_mapDialects (f : Dialect → Dialect) (d : Dialect) (c : Condition) :
    (c.mapDialects f).compile d = c.compile d := by
  cases c with
  | compare target op value =>
    simp only [Condition.mapDialects, Condition.compile, target.compile_mapDialects f d]
  | isIn target values negated =>
    simp only [Condition.mapDialects, Condition.compile, target.compile_mapDialects f d]
  | isNull target negated =>
    simp only [Condition.mapDialects, Condition.compile, target.compile_mapDialects f d]
  | between target low high negated =>
    simp only [Condition.mapDialects, Condition.compile, target.compile_mapDialects f d]
  | columns comparison => rfl
  | marked sql values => rfl
  | existsRow query negated =>
    simp only [Condition.mapDialects, Condition.compile, query.compile_mapDialects f d]
  | holds e => simp only [Condition.mapDialects, Condition.compile, e.compile_mapDialects f d]
termination_by structural c

theorem compileLinks_map (f : Dialect → Dialect) (d : Dialect) (chain : Chain)
    (links : List Link) : compileLinks d chain (mapLinks f links) = compileLinks d chain links := by
  cases links with
  | nil => rfl
  | cons l rest =>
    simp only [mapLinks, compileLinks, l.compile_mapDialects f d chain,
      compileLinks_map f d _ rest]
termination_by structural links

theorem Link.compile_mapDialects (f : Dialect → Dialect) (d : Dialect) (chain : Chain)
    (l : Link) : (l.mapDialects f).compile d chain = l.compile d chain := by
  cases l with
  | mk connective condition =>
    simp only [Link.mapDialects, Link.compile, condition.compile_mapDialects f d]
termination_by structural l

theorem compileScopes_map (f : Dialect → Dialect) (d : Dialect) (cs : List Condition) :
    compileScopes d (mapConditions f cs) = compileScopes d cs := by
  cases cs with
  | nil => rfl
  | cons c rest =>
    simp only [mapConditions, compileScopes, c.compile_mapDialects f d,
      compileScopes_map f d rest]
termination_by structural cs

/-- What a query is compiled to, for one dialect, does not depend on the stored ones. -/
theorem Query.compile_mapDialects (f : Dialect → Dialect) (d : Dialect) (q : Query) :
    (q.mapDialects f).compile d = q.compile d := by
  cases q with
  | mk table dialect key columns distinct joins filters scopes groups havings orders limit offset =>
    simp only [Query.mapDialects, Query.compile, isEmpty_mapExprs, isEmpty_mapConditions,
      isEmpty_mapSortKeys, compileExprs_map f d columns, compileLinks_map f d _ filters,
      compileScopes_map f d scopes, compileLinks_map f d _ havings, compileSortKeys_map f d orders]
termination_by structural q

end

/-! ## What becomes of a tree -/

mutual

theorem Expr.dialects_mapDialects (f : Dialect → Dialect) (e : Expr) :
    (e.mapDialects f).dialects = e.dialects.map f := by
  cases e with
  | column path => rfl
  | literal value => rfl
  | named e name => exact e.dialects_mapDialects f
  | marked sql values => rfl
  | cast e type => exact e.dialects_mapDialects f
  | arithmetic left op right =>
    simp only [Expr.mapDialects, Expr.dialects, List.map_append, left.dialects_mapDialects f,
      right.dialects_mapDialects f]
  | compare left op right =>
    simp only [Expr.mapDialects, Expr.dialects, List.map_append, left.dialects_mapDialects f,
      right.dialects_mapDialects f]
  | concat parts => exact dialectsOfExprs_map f parts
  | textCall function e => exact e.dialects_mapDialects f
  | substring e start length => exact e.dialects_mapDialects f
  | replace e pattern replacement =>
    simp only [Expr.mapDialects, Expr.dialects, List.map_append, e.dialects_mapDialects f,
      pattern.dialects_mapDialects f, replacement.dialects_mapDialects f]
  | extract part e => exact e.dialects_mapDialects f
  | dateOf e => exact e.dialects_mapDialects f
  | now => rfl
  | coalesce choices => exact dialectsOfExprs_map f choices
  | nullIf left right =>
    simp only [Expr.mapDialects, Expr.dialects, List.map_append, left.dialects_mapDialects f,
      right.dialects_mapDialects f]
  | aggregate function argument distinct => exact dialectsOfOption_map f argument
  | case branches otherwise =>
    simp only [Expr.mapDialects, Expr.dialects, List.map_append, dialectsOfBranches_map f branches,
      dialectsOfOption_map f otherwise]
  | json column path => rfl
  | subquery query => exact query.dialects_mapDialects f
  | window e partition order =>
    simp only [Expr.mapDialects, Expr.dialects, List.map_append, e.dialects_mapDialects f,
      dialectsOfExprs_map f partition, dialectsOfSortKeys_map f order]
termination_by structural e

theorem dialectsOfExprs_map (f : Dialect → Dialect) (es : List Expr) :
    dialectsOfExprs (mapExprs f es) = (dialectsOfExprs es).map f := by
  cases es with
  | nil => rfl
  | cons e rest =>
    simp only [mapExprs, dialectsOfExprs, List.map_append, e.dialects_mapDialects f,
      dialectsOfExprs_map f rest]
termination_by structural es

theorem dialectsOfOption_map (f : Dialect → Dialect) (e? : Option Expr) :
    dialectsOfOption (mapOption f e?) = (dialectsOfOption e?).map f := by
  cases e? with
  | none => rfl
  | some e => exact e.dialects_mapDialects f
termination_by structural e?

theorem dialectsOfBranches_map (f : Dialect → Dialect) (bs : List Branch) :
    dialectsOfBranches (mapBranches f bs) = (dialectsOfBranches bs).map f := by
  cases bs with
  | nil => rfl
  | cons b rest =>
    simp only [mapBranches, dialectsOfBranches, List.map_append, b.dialects_mapDialects f,
      dialectsOfBranches_map f rest]
termination_by structural bs

theorem Branch.dialects_mapDialects (f : Dialect → Dialect) (b : Branch) :
    (b.mapDialects f).dialects = b.dialects.map f := by
  cases b with
  | mk condition result =>
    simp only [Branch.mapDialects, Branch.dialects, List.map_append,
      condition.dialects_mapDialects f, result.dialects_mapDialects f]
termination_by structural b

theorem SortKey.dialects_mapDialects (f : Dialect → Dialect) (k : SortKey) :
    (k.mapDialects f).dialects = k.dialects.map f := by
  cases k with
  | mk e direction => exact e.dialects_mapDialects f
termination_by structural k

theorem dialectsOfSortKeys_map (f : Dialect → Dialect) (ks : List SortKey) :
    dialectsOfSortKeys (mapSortKeys f ks) = (dialectsOfSortKeys ks).map f := by
  cases ks with
  | nil => rfl
  | cons k rest =>
    simp only [mapSortKeys, dialectsOfSortKeys, List.map_append, k.dialects_mapDialects f,
      dialectsOfSortKeys_map f rest]
termination_by structural ks

theorem Condition.dialects_mapDialects (f : Dialect → Dialect) (c : Condition) :
    (c.mapDialects f).dialects = c.dialects.map f := by
  cases c with
  | compare target op value => exact target.dialects_mapDialects f
  | isIn target values negated => exact target.dialects_mapDialects f
  | isNull target negated => exact target.dialects_mapDialects f
  | between target low high negated => exact target.dialects_mapDialects f
  | columns comparison => rfl
  | marked sql values => rfl
  | existsRow query negated => exact query.dialects_mapDialects f
  | holds e => exact e.dialects_mapDialects f
termination_by structural c

theorem Link.dialects_mapDialects (f : Dialect → Dialect) (l : Link) :
    (l.mapDialects f).dialects = l.dialects.map f := by
  cases l with
  | mk connective condition => exact condition.dialects_mapDialects f
termination_by structural l

theorem dialectsOfLinks_map (f : Dialect → Dialect) (links : List Link) :
    dialectsOfLinks (mapLinks f links) = (dialectsOfLinks links).map f := by
  cases links with
  | nil => rfl
  | cons l rest =>
    simp only [mapLinks, dialectsOfLinks, List.map_append, l.dialects_mapDialects f,
      dialectsOfLinks_map f rest]
termination_by structural links

theorem dialectsOfConditions_map (f : Dialect → Dialect) (cs : List Condition) :
    dialectsOfConditions (mapConditions f cs) = (dialectsOfConditions cs).map f := by
  cases cs with
  | nil => rfl
  | cons c rest =>
    simp only [mapConditions, dialectsOfConditions, List.map_append, c.dialects_mapDialects f,
      dialectsOfConditions_map f rest]
termination_by structural cs

theorem Query.dialects_mapDialects (f : Dialect → Dialect) (q : Query) :
    (q.mapDialects f).dialects = q.dialects.map f := by
  cases q with
  | mk table dialect key columns distinct joins filters scopes groups havings orders limit offset =>
    simp only [Query.mapDialects, Query.dialects, List.map_cons, List.map_append,
      dialectsOfExprs_map f columns, dialectsOfLinks_map f filters,
      dialectsOfConditions_map f scopes, dialectsOfLinks_map f havings,
      dialectsOfSortKeys_map f orders]
termination_by structural q

end

/-! ## Statements -/

namespace Query

/-- The query with other dialects in the queries nested in it. -/
def mapNested (f : Dialect → Dialect) (q : Query) : Query :=
  { q.mapDialects f with dialect := q.dialect }

/-- The query, where every query nested in it has the dialect `d`. -/
def nestedIn (d : Dialect) (q : Query) : Query := q.mapNested fun _ => d

/-- The dialects of the queries nested in a query. -/
def nestedDialects (q : Query) : List Dialect := q.dialects.tail

variable (q : Query) (f : Dialect → Dialect)

theorem nestedDialects_mapNested : (q.mapNested f).nestedDialects = q.nestedDialects.map f := by
  have h := q.dialects_mapDialects f
  cases q
  exact (List.cons.inj h).2

example : ((on "users" .mysql).addExpr (.subquery ((on "posts" .sqlite).scope
    (.existsRow (on "tags" .postgres) false)))).nestedDialects = [.sqlite, .postgres] := rfl

/-- The dialect of a query is read where its statement is written, and not where it is compiled. -/
theorem compile_mapNested (d : Dialect) : (q.mapNested f).compile d = q.compile d := by
  rw [← q.compile_mapDialects f d]
  cases q
  rfl

theorem dialect_mapNested : (q.mapNested f).dialect = q.dialect := rfl

theorem table_mapNested : (q.mapNested f).table = q.table := by
  cases q
  rfl

theorem unwindowed_mapNested : (q.mapNested f).unwindowed = q.unwindowed.mapNested f := by
  cases q
  rfl

theorem aggregateOf_count_mapNested :
    (q.mapNested f).aggregateOf (.aggregate .count none false) =
      (q.aggregateOf (.aggregate .count none false)).mapNested f := by
  cases q
  rfl

theorem countsRows_mapNested :
    ((q.mapNested f).distinct || (q.mapNested f).isGrouped) = (q.distinct || q.isGrouped) := by
  cases q
  rfl

theorem whereFragment_mapNested (d : Dialect) :
    (q.mapNested f).whereFragment d = q.whereFragment d := by
  cases q with
  | mk table dialect key columns distinct joins filters scopes groups havings orders limit offset =>
    simp only [whereFragment, condition, mapNested, mapDialects, isEmpty_mapConditions,
      compileLinks_map f d _ filters, compileScopes_map f d scopes]

theorem countingFragment_mapNested : (q.mapNested f).countingFragment = q.countingFragment := by
  simp only [countingFragment, countsRows_mapNested, unwindowed_mapNested,
    aggregateOf_count_mapNested, compile_mapNested, dialect_mapNested]

theorem batchInsertionFragment_mapNested (rows : List Attributes) :
    (q.mapNested f).batchInsertionFragment rows = q.batchInsertionFragment rows := by
  simp only [batchInsertionFragment, table_mapNested]

theorem commandFragment_mapNested (c : Command) :
    (q.mapNested f).commandFragment c = q.commandFragment c := by
  cases c with
  | read => exact q.compile_mapNested f q.dialect
  | count => exact q.countingFragment_mapNested f
  | insert row =>
    simp only [commandFragment, insertionFragment, table_mapNested]
    rfl
  | insertMany rows => exact q.batchInsertionFragment_mapNested f rows
  | update assignments =>
    simp only [commandFragment, updatingFragment, table_mapNested, whereFragment_mapNested,
      dialect_mapNested]
  | delete =>
    simp only [commandFragment, deletionFragment, table_mapNested, whereFragment_mapNested,
      dialect_mapNested]
  | upsert rows uniqueBy update =>
    simp only [commandFragment, upsertionFragment, batchInsertionFragment_mapNested,
      table_mapNested, dialect_mapNested]

theorem command_mapNested (c : Command) : (q.mapNested f).command c = q.command c := by
  rw [command_eq, command_eq, commandFragment_mapNested, dialect_mapNested]

/-- The dialect of a query governs the whole of its statements. Whatever dialects the queries nested
in it have, its statements are those that it has when all of these have its own dialect, and where
it has none it fails in the same way. -/
theorem command_nestedIn (c : Command) :
    (q.nestedIn q.dialect).command c = q.command c ∧
      (q.nestedIn q.dialect).nestedDialects = q.nestedDialects.map fun _ => q.dialect :=
  ⟨q.command_mapNested _ c, q.nestedDialects_mapNested _⟩

end Query

end RecordMapper
