import RecordMapper.Query.Basic
import RecordMapper.Query.JsonPath
import RecordMapper.Query.Marked

/-!
Compiling queries that read rows.

* `Expr.compile`, `Condition.compile` and `Query.compile` turn a tree into a fragment, for one
  dialect; the dialect stored in a nested query is of no account.
* `Query.condition` joins the filters and the scopes of a query. The filters stand in parentheses
  if an OR joins two of them, so that every scope governs the whole condition.
-/
namespace RecordMapper

set_option autoImplicit false

open RecordMapper.Text

/-! ## Parts without expressions -/

def ColumnComparison.compile (d : Dialect) (c : ColumnComparison) : Fragment :=
  c.op.between d (Fragment.path c.left) (Fragment.path c.right)

/-- A join, with a blank in front. -/
def Join.compile (d : Dialect) (j : Join) : Fragment :=
  .text (" " ++ j.kind.sql ++ " ") :: Fragment.path j.table ++
    (match j.label with
      | some name => [.text " AS ", .name name]
      | none => []) ++
    (if j.on.isEmpty then []
      else .text " ON " :: Fragment.joined " AND " (j.on.map (ColumnComparison.compile d)))

def negatable (negated : Bool) (word : String) : String :=
  if negated then "NOT " ++ word else word

/-- The rows to pass over and how many to take. Only in PostgreSQL can an offset stand alone. -/
def window (d : Dialect) (limit offset : Option Nat) : Fragment :=
  match limit, offset with
  | some n, some k => Fragment.text (" LIMIT " ++ ofNat n ++ " OFFSET " ++ ofNat k)
  | some n, none => Fragment.text (" LIMIT " ++ ofNat n)
  | none, some k =>
    match d with
    | .postgres => Fragment.text (" OFFSET " ++ ofNat k)
    | .sqlite => Fragment.text (" LIMIT -1 OFFSET " ++ ofNat k)
    | _ => Fragment.text (" LIMIT 18446744073709551615 OFFSET " ++ ofNat k)
  | none, none => []

/-- The table of a query. -/
def tableFragment (table : String) : Result Fragment :=
  if (trim table).isEmpty then .error (.cannotCompile .noTable) else .ok (Fragment.path table)

/-! ## Chains of conditions -/

/-- A chain of conditions as text, and whether an OR joins two of them. -/
structure Chain where
  fragment : Fragment
  hasOr : Bool

def Chain.empty : Chain := ⟨[], false⟩

/-- Adds a condition at the end. The first one loses its connective. -/
def Chain.append (chain : Chain) (connective : Connective) (condition : Fragment) : Chain :=
  if chain.fragment.isBlank then ⟨condition, chain.hasOr⟩
  else
    ⟨chain.fragment ++ .text (" " ++ connective.sql ++ " ") :: condition,
      chain.hasOr || connective == .or⟩

/-- The filters and scopes of a query as one condition; `grouped` asks for parentheses around
filters with an OR. -/
def conjunction (filters : Chain) (grouped : Bool) (scopes : List Fragment) : Option Fragment :=
  let filters :=
    if filters.fragment.isBlank then []
    else if filters.hasOr && grouped then [Fragment.parens filters.fragment]
    else [filters.fragment]
  let parts := filters ++ scopes
  if parts.isEmpty then none else some (Fragment.joined " AND " parts)

def clause (keyword : String) (condition : Option Fragment) : Fragment :=
  match condition with
  | some f => .text keyword :: f
  | none => []

/-! ## Compiling -/

mutual

def Expr.compile (d : Dialect) : Expr → Result Fragment
  | .column path => .ok (Fragment.path path)
  | .literal value => .ok (Fragment.bind value)
  | .named e name => do
    let f ← e.compile d
    return f ++ [.text " AS ", .name name]
  | .marked sql values => Marked.compile sql values
  | .cast e type => do
    let f ← e.compile d
    return .text "CAST(" :: f ++ [.text (" AS " ++ type.sql d ++ ")")]
  | .arithmetic left op right => do
    let l ← left.compile d
    let r ← right.compile d
    return .text "(" :: l ++ .text (" " ++ op.sql ++ " ") :: r ++ [.text ")"]
  | .compare left op right => do
    let l ← left.compile d
    let r ← right.compile d
    return Fragment.parens (op.between d l r)
  | .concat parts =>
    if parts.isEmpty then .error (.cannotCompile .emptyConcat)
    else do
      let fs ← compileExprs d parts
      return if d.isMysqlFamily then Fragment.call "CONCAT" (Fragment.joined ", " fs)
        else Fragment.parens (Fragment.joined " || " fs)
  | .textCall function e => do
    let f ← e.compile d
    return Fragment.call (function.sql d) f
  | .substring e start length => do
    let f ← e.compile d
    let name := if d = .sqlite then "SUBSTR" else "SUBSTRING"
    let count : Fragment :=
      match length with
      | some n => .text ", " :: Fragment.bind (.int64 n)
      | none => []
    return Fragment.call name (f ++ .text ", " :: Fragment.bind (.int64 start) ++ count)
  | .replace e pattern replacement => do
    let f ← e.compile d
    let p ← pattern.compile d
    let r ← replacement.compile d
    return Fragment.call "REPLACE" (Fragment.joined ", " [f, p, r])
  | .extract part e => do
    let f ← e.compile d
    return part.extract d f
  | .dateOf e => do
    let f ← e.compile d
    return RecordMapper.dateOf d f
  | .now => .ok (currentMoment d)
  | .coalesce choices => do
    let fs ← compileExprs d choices
    return Fragment.call "COALESCE" (Fragment.joined ", " fs)
  | .nullIf left right => do
    let l ← left.compile d
    let r ← right.compile d
    return Fragment.call "NULLIF" (Fragment.joined ", " [l, r])
  | .aggregate function argument distinct => do
    let f ← compileArgument d argument
    return Fragment.call function.sql (if distinct then .text "DISTINCT " :: f else f)
  | .case branches otherwise =>
    if branches.isEmpty then .error (.cannotCompile .caseWithoutBranches)
    else do
      let bs ← compileBranches d branches
      let o ← compileOtherwise d otherwise
      return .text "CASE" :: bs ++ o ++ [.text " END"]
  | .json column path => do
    let steps ← JsonPath.read path
    return steps.extract d column
  | .subquery query => do
    let f ← query.compile d
    return Fragment.parens f
  | .window e partition order => do
    let f ← e.compile d
    let ps ← compileExprs d partition
    let os ← compileSortKeys d order
    let partition : List Fragment :=
      if ps.isEmpty then [] else [.text "PARTITION BY " :: Fragment.joined ", " ps]
    let order : List Fragment :=
      if os.isEmpty then [] else [.text "ORDER BY " :: Fragment.joined ", " os]
    return f ++ .text " OVER (" :: Fragment.joined " " (partition ++ order) ++ [.text ")"]

def compileExprs (d : Dialect) : List Expr → Result (List Fragment)
  | [] => .ok []
  | e :: rest => do
    let f ← e.compile d
    let fs ← compileExprs d rest
    return f :: fs

/-- The argument of an aggregate; whole rows are a star. -/
def compileArgument (d : Dialect) : Option Expr → Result Fragment
  | none => .ok (Fragment.text "*")
  | some e => e.compile d

def compileBranches (d : Dialect) : List Branch → Result Fragment
  | [] => .ok []
  | b :: rest => do
    let f ← b.compile d
    let fs ← compileBranches d rest
    return f ++ fs

def Branch.compile (d : Dialect) : Branch → Result Fragment
  | { condition, result } => do
    let c ← condition.compile d
    let r ← result.compile d
    return .text " WHEN " :: c ++ .text " THEN " :: r

def compileOtherwise (d : Dialect) : Option Expr → Result Fragment
  | none => .ok []
  | some e => do
    let f ← e.compile d
    return .text " ELSE " :: f

def SortKey.compile (d : Dialect) : SortKey → Result Fragment
  | { e, direction } => do
    let f ← e.compile d
    return match direction with
      | some direction => f ++ [.text (" " ++ direction.sql)]
      | none => f

def compileSortKeys (d : Dialect) : List SortKey → Result (List Fragment)
  | [] => .ok []
  | k :: rest => do
    let f ← k.compile d
    let fs ← compileSortKeys d rest
    return f :: fs

/-- A condition as text; a list that excludes nothing has none. -/
def Condition.compile (d : Dialect) : Condition → Result (Option Fragment)
  | .compare target op value => do
    let f ← target.compile d
    return some (match op, value with
      | .eq, .null => f ++ [.text " IS NULL"]
      | .ne, .null => f ++ [.text " IS NOT NULL"]
      | op, v => op.between d f (Fragment.bind v))
  | .isIn target values negated =>
    if values.isEmpty then .ok (if negated then none else some (Fragment.text "1 = 0"))
    else do
      let f ← target.compile d
      return some (f ++ .text (" " ++ negatable negated "IN" ++ " (") ::
        Fragment.joined ", " (values.map Fragment.bind) ++ [.text ")"])
  | .isNull target negated => do
    let f ← target.compile d
    return some (f ++ [.text (" IS " ++ negatable negated "NULL")])
  | .between target low high negated => do
    let f ← target.compile d
    return some (f ++ .text (" " ++ negatable negated "BETWEEN" ++ " ") ::
      Fragment.bind low ++ .text " AND " :: Fragment.bind high)
  | .columns comparison => .ok (some (comparison.compile d))
  | .marked sql values => do
    let f ← Marked.compile sql values
    return some (Fragment.parens f)
  | .existsRow query negated => do
    let f ← query.compile d
    return some (Fragment.call (negatable negated "EXISTS ") f)
  | .holds e => do
    let f ← e.compile d
    return some f

/-- The links from the front, after what `chain` holds. -/
def compileLinks (d : Dialect) (chain : Chain) : List Link → Result Chain
  | [] => .ok chain
  | l :: rest => do
    let chain ← l.compile d chain
    compileLinks d chain rest

def Link.compile (d : Dialect) (chain : Chain) : Link → Result Chain
  | { connective, condition } => do
    let f ← condition.compile d
    return match f with
      | some f => chain.append connective f
      | none => chain

/-- The conditions that have a text. -/
def compileScopes (d : Dialect) : List Condition → Result (List Fragment)
  | [] => .ok []
  | c :: rest => do
    let f ← c.compile d
    let fs ← compileScopes d rest
    return f.toList ++ fs

/-- The query as a SELECT. -/
def Query.compile (d : Dialect) : Query → Result Fragment
  | { table, columns, distinct, joins, filters, scopes, groups, havings, orders, limit, offset,
      .. } => do
    let cs ← compileExprs d columns
    let t ← tableFragment table
    let chain ← compileLinks d .empty filters
    let ss ← compileScopes d scopes
    let having ← compileLinks d .empty havings
    let os ← compileSortKeys d orders
    return .text (if distinct then "SELECT DISTINCT " else "SELECT ") ::
      (if columns.isEmpty then Fragment.text "*" else Fragment.joined ", " cs) ++
      .text " FROM " :: t ++ joins.flatMap (Join.compile d) ++
      clause " WHERE " (conjunction chain (!scopes.isEmpty) ss) ++
      clause " GROUP BY "
        (if groups.isEmpty then none
          else some (Fragment.joined ", " (groups.map Fragment.path))) ++
      clause " HAVING " (conjunction having false []) ++
      clause " ORDER BY "
        (if orders.isEmpty then none else some (Fragment.joined ", " os)) ++
      window d limit offset
termination_by structural x => x

end

/-- The condition on rows that a query stands for, if it has any. -/
def Query.condition (d : Dialect) (q : Query) : Result (Option Fragment) := do
  let chain ← compileLinks d .empty q.filters
  let ss ← compileScopes d q.scopes
  return conjunction chain (!q.scopes.isEmpty) ss

/-- The statement that reads the rows of a query. -/
def Query.statement (q : Query) : Result Statement :=
  (q.compile q.dialect).map (Fragment.statement q.dialect 0)

end RecordMapper
