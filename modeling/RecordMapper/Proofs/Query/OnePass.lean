import RecordMapper.Proofs.Statement.Written

/-!
Compiling in one pass.

* `Compiling` compiles with one list of values, to which every part of a statement adds its own; the
  number of a placeholder is that of the values in front of the list and in it.
* `Expr.compileInto`, `Condition.compileInto` and `Query.compileInto` give a text and no fragment.
* `Expr.compileInto_run` and its like: this is the fragment, written after the values that are
  there, and its values behind them. They are one induction over the syntax.
-/
namespace RecordMapper

set_option autoImplicit false

/-- Compiling with the values that are bound so far. -/
abbrev Compiling := StateT (List Value) Result

/-! ## Texts -/

def callText (function arguments : String) : String := function ++ "(" ++ arguments ++ ")"

def Comparison.textBetween (op : Comparison) (d : Dialect) (left right : String) : String :=
  if op = .ilike ∧ !d.hasIlike then callText "LOWER" left ++ " LIKE " ++ callText "LOWER" right
  else left ++ " " ++ op.sql ++ " " ++ right

def ColumnComparison.sql (d : Dialect) (c : ColumnComparison) : String :=
  c.op.textBetween d (d.quotePath c.left) (d.quotePath c.right)

def Join.sql (d : Dialect) (j : Join) : String :=
  " " ++ j.kind.sql ++ " " ++ d.quotePath j.table ++
    (match j.label with
      | some name => " AS " ++ d.quoteName name
      | none => "") ++
    (if j.on.isEmpty then ""
      else " ON " ++ Text.joined " AND " (j.on.map (ColumnComparison.sql d)))

def DatePart.sql (part : DatePart) (d : Dialect) (moment : String) : String :=
  match d with
  | .postgres => "EXTRACT(" ++ part.field ++ " FROM " ++ moment ++ ")"
  | .sqlite => "CAST(strftime('" ++ part.timeFormat ++ "', " ++ moment ++ ") AS INTEGER)"
  | _ =>
    if part = .dayOfWeek then "(DAYOFWEEK(" ++ moment ++ ") - 1)"
    else callText part.field moment

def dateText (d : Dialect) (moment : String) : String :=
  match d with
  | .postgres => "CAST(" ++ moment ++ " AS DATE)"
  | .sqlite => callText "date" moment
  | _ => callText "DATE" moment

def currentMomentText (d : Dialect) : String :=
  match d with
  | .sqlite => "CURRENT_TIMESTAMP"
  | _ => "NOW()"

def windowText (d : Dialect) (limit offset : Option Nat) : String :=
  match limit, offset with
  | some n, some k => " LIMIT " ++ Text.ofNat n ++ " OFFSET " ++ Text.ofNat k
  | some n, none => " LIMIT " ++ Text.ofNat n
  | none, some k =>
    match d with
    | .postgres => " OFFSET " ++ Text.ofNat k
    | .sqlite => " LIMIT -1 OFFSET " ++ Text.ofNat k
    | _ => " LIMIT 18446744073709551615 OFFSET " ++ Text.ofNat k
  | none, none => ""

def tableText (d : Dialect) (table : String) : Result String :=
  if (Text.trim table).isEmpty then .error (.cannotCompile .noTable) else .ok (d.quotePath table)

/-- A chain of conditions as text, and whether an OR joins two of them. -/
structure TextChain where
  text : String
  hasOr : Bool

def TextChain.append (chain : TextChain) (connective : Connective) (condition : String) :
    TextChain :=
  if chain.text.isEmpty then ⟨condition, chain.hasOr⟩
  else
    ⟨chain.text ++ " " ++ connective.sql ++ " " ++ condition,
      chain.hasOr || connective == .or⟩

def conjunctionText (filters : TextChain) (grouped : Bool) (scopes : List String) :
    Option String :=
  let filters :=
    if filters.text.isEmpty then []
    else if filters.hasOr && grouped then ["(" ++ filters.text ++ ")"]
    else [filters.text]
  let parts := filters ++ scopes
  if parts.isEmpty then none else some (Text.joined " AND " parts)

def clauseText (keyword : String) (condition : Option String) : String :=
  match condition with
  | some sql => keyword ++ sql
  | none => ""

/-! ## Values -/

section Values

variable (d : Dialect) (offset : Nat)

/-- Adds a value at the end and gives its placeholder. -/
def Compiling.bind (value : Value) : Compiling String :=
  match value with
  | .default => return "DEFAULT"
  | v => do
    modify (· ++ [v])
    let params ← get
    return String.ofList (d.placeholder (offset + params.length))

/-- The text with a placeholder for each marker, and the count of the markers. -/
def Marked.replaced (more : Fault) : List Char → List Value → Compiling (String × Nat)
  | [], _ => return ("", 0)
  | '?' :: '?' :: rest, values => do
    let (sql, n) ← replaced more rest values
    return ("?" ++ sql, n)
  | '?' :: _, [] => throw more
  | '?' :: rest, v :: values => do
    let placeholder ← Compiling.bind d offset v
    let (sql, n) ← replaced more rest values
    return (placeholder ++ sql, n + 1)
  | c :: rest, values => do
    let (sql, n) ← replaced more rest values
    return (c.toString ++ sql, n)

def Marked.compileInto (sql : String) (values : List Value) : Compiling String := do
  let (text, used) ← replaced d offset (moreMarkers sql values) sql.toList values
  if used = values.length then return text else throw (fewerMarkers sql used values)

def JsonPath.extractInto (path : JsonPath) (column : String) : Compiling String := do
  let column := d.quotePath column
  match d with
  | .postgres =>
    let placeholder ← Compiling.bind d offset (.array (path.map stepText))
    return "(" ++ column ++ " #>> " ++ placeholder ++ ")"
  | .mysql =>
    let placeholder ← Compiling.bind d offset (.text path.dollar)
    return "JSON_UNQUOTE(JSON_EXTRACT(" ++ column ++ ", " ++ placeholder ++ "))"
  | .mariadb =>
    let placeholder ← Compiling.bind d offset (.text path.dollar)
    return "JSON_VALUE(" ++ column ++ ", " ++ placeholder ++ ")"
  | .sqlite =>
    let placeholder ← Compiling.bind d offset (.text path.dollar)
    return "json_extract(" ++ column ++ ", " ++ placeholder ++ ")"

end Values

/-! ## Trees -/

mutual

/-- Compiles an expression where `offset` values are bound in front of those in the list. -/
def Expr.compileInto (d : Dialect) (offset : Nat) : Expr → Compiling String
  | .column path => return d.quotePath path
  | .literal value => Compiling.bind d offset value
  | .named e name => do
    let sql ← e.compileInto d offset
    return sql ++ " AS " ++ d.quoteName name
  | .marked sql values => Marked.compileInto d offset sql values
  | .cast e type => do
    let sql ← e.compileInto d offset
    return "CAST(" ++ sql ++ " AS " ++ type.sql d ++ ")"
  | .arithmetic left op right => do
    let l ← left.compileInto d offset
    let r ← right.compileInto d offset
    return "(" ++ l ++ " " ++ op.sql ++ " " ++ r ++ ")"
  | .compare left op right => do
    let l ← left.compileInto d offset
    let r ← right.compileInto d offset
    return "(" ++ op.textBetween d l r ++ ")"
  | .concat parts =>
    if parts.isEmpty then throw (.cannotCompile .emptyConcat)
    else do
      let texts ← compileExprsInto d offset parts
      return if d.isMysqlFamily then callText "CONCAT" (Text.joined ", " texts)
        else "(" ++ Text.joined " || " texts ++ ")"
  | .textCall function e => do
    let sql ← e.compileInto d offset
    return callText (function.sql d) sql
  | .substring e start length => do
    let sql ← e.compileInto d offset
    let name := if d = .sqlite then "SUBSTR" else "SUBSTRING"
    let start ← Compiling.bind d offset (.int64 start)
    match length with
    | some n =>
      let length ← Compiling.bind d offset (.int64 n)
      return callText name (sql ++ ", " ++ start ++ ", " ++ length)
    | none => return callText name (sql ++ ", " ++ start)
  | .replace e pattern replacement => do
    let sql ← e.compileInto d offset
    let p ← pattern.compileInto d offset
    let r ← replacement.compileInto d offset
    return callText "REPLACE" (sql ++ ", " ++ p ++ ", " ++ r)
  | .extract part e => do
    let sql ← e.compileInto d offset
    return part.sql d sql
  | .dateOf e => do
    let sql ← e.compileInto d offset
    return dateText d sql
  | .now => return currentMomentText d
  | .coalesce choices => do
    let texts ← compileExprsInto d offset choices
    return callText "COALESCE" (Text.joined ", " texts)
  | .nullIf left right => do
    let l ← left.compileInto d offset
    let r ← right.compileInto d offset
    return callText "NULLIF" (l ++ ", " ++ r)
  | .aggregate function argument distinct => do
    let sql ← compileArgumentInto d offset argument
    return callText function.sql (if distinct then "DISTINCT " ++ sql else sql)
  | .case branches otherwise =>
    if branches.isEmpty then throw (.cannotCompile .caseWithoutBranches)
    else do
      let sql ← compileBranchesInto d offset branches
      let rest ← compileOtherwiseInto d offset otherwise
      return "CASE" ++ sql ++ rest ++ " END"
  | .json column path => do
    let steps ← (JsonPath.read path : Compiling JsonPath)
    steps.extractInto d offset column
  | .subquery query => do
    let sql ← query.compileInto d offset
    return "(" ++ sql ++ ")"
  | .window e partition order => do
    let sql ← e.compileInto d offset
    let ps ← compileExprsInto d offset partition
    let os ← compileSortKeysInto d offset order
    let partition : List String :=
      if ps.isEmpty then [] else ["PARTITION BY " ++ Text.joined ", " ps]
    let order : List String :=
      if os.isEmpty then [] else ["ORDER BY " ++ Text.joined ", " os]
    return sql ++ " OVER (" ++ Text.joined " " (partition ++ order) ++ ")"

def compileExprsInto (d : Dialect) (offset : Nat) : List Expr → Compiling (List String)
  | [] => return []
  | e :: rest => do
    let sql ← e.compileInto d offset
    let texts ← compileExprsInto d offset rest
    return sql :: texts

def compileArgumentInto (d : Dialect) (offset : Nat) : Option Expr → Compiling String
  | none => return "*"
  | some e => e.compileInto d offset

def compileBranchesInto (d : Dialect) (offset : Nat) : List Branch → Compiling String
  | [] => return ""
  | b :: rest => do
    let sql ← b.compileInto d offset
    let texts ← compileBranchesInto d offset rest
    return sql ++ texts

def Branch.compileInto (d : Dialect) (offset : Nat) : Branch → Compiling String
  | { condition, result } => do
    let c ← condition.compileInto d offset
    let r ← result.compileInto d offset
    return " WHEN " ++ c ++ " THEN " ++ r

def compileOtherwiseInto (d : Dialect) (offset : Nat) : Option Expr → Compiling String
  | none => return ""
  | some e => do
    let sql ← e.compileInto d offset
    return " ELSE " ++ sql

def SortKey.compileInto (d : Dialect) (offset : Nat) : SortKey → Compiling String
  | { e, direction } => do
    let sql ← e.compileInto d offset
    return match direction with
      | some direction => sql ++ " " ++ direction.sql
      | none => sql

def compileSortKeysInto (d : Dialect) (offset : Nat) : List SortKey → Compiling (List String)
  | [] => return []
  | k :: rest => do
    let sql ← k.compileInto d offset
    let texts ← compileSortKeysInto d offset rest
    return sql :: texts

def Condition.compileInto (d : Dialect) (offset : Nat) : Condition → Compiling (Option String)
  | .compare target op value => do
    let sql ← target.compileInto d offset
    match op, value with
    | .eq, .null => return some (sql ++ " IS NULL")
    | .ne, .null => return some (sql ++ " IS NOT NULL")
    | op, v =>
      let placeholder ← Compiling.bind d offset v
      return some (op.textBetween d sql placeholder)
  | .isIn target values negated =>
    if values.isEmpty then return if negated then none else some "1 = 0"
    else do
      let sql ← target.compileInto d offset
      let placeholders ← values.mapM (Compiling.bind d offset)
      return some (sql ++ " " ++ negatable negated "IN" ++ " (" ++
        Text.joined ", " placeholders ++ ")")
  | .isNull target negated => do
    let sql ← target.compileInto d offset
    return some (sql ++ " IS " ++ negatable negated "NULL")
  | .between target low high negated => do
    let sql ← target.compileInto d offset
    let low ← Compiling.bind d offset low
    let high ← Compiling.bind d offset high
    return some (sql ++ " " ++ negatable negated "BETWEEN" ++ " " ++ low ++ " AND " ++ high)
  | .columns comparison => return some (comparison.sql d)
  | .marked sql values => do
    let text ← Marked.compileInto d offset sql values
    return some ("(" ++ text ++ ")")
  | .existsRow query negated => do
    let sql ← query.compileInto d offset
    return some (callText (negatable negated "EXISTS ") sql)
  | .holds e => do
    let sql ← e.compileInto d offset
    return some sql

def compileLinksInto (d : Dialect) (offset : Nat) (chain : TextChain) :
    List Link → Compiling TextChain
  | [] => return chain
  | l :: rest => do
    let chain ← l.compileInto d offset chain
    compileLinksInto d offset chain rest

def Link.compileInto (d : Dialect) (offset : Nat) (chain : TextChain) : Link → Compiling TextChain
  | { connective, condition } => do
    let sql ← condition.compileInto d offset
    return match sql with
      | some sql => chain.append connective sql
      | none => chain

def compileScopesInto (d : Dialect) (offset : Nat) : List Condition → Compiling (List String)
  | [] => return []
  | c :: rest => do
    let sql ← c.compileInto d offset
    let texts ← compileScopesInto d offset rest
    return sql.toList ++ texts

/-- Compiles the query as a SELECT. -/
def Query.compileInto (d : Dialect) (offset : Nat) : Query → Compiling String
  | { table, columns, distinct, joins, filters, scopes, groups, havings, orders, limit,
      offset := skipped, .. } => do
    let cs ← compileExprsInto d offset columns
    let t ← (tableText d table : Compiling String)
    let chain ← compileLinksInto d offset ⟨"", false⟩ filters
    let ss ← compileScopesInto d offset scopes
    let having ← compileLinksInto d offset ⟨"", false⟩ havings
    let os ← compileSortKeysInto d offset orders
    return (if distinct then "SELECT DISTINCT " else "SELECT ") ++
      (if columns.isEmpty then "*" else Text.joined ", " cs) ++
      " FROM " ++ t ++ String.join (joins.map (Join.sql d)) ++
      clauseText " WHERE " (conjunctionText chain (!scopes.isEmpty) ss) ++
      clauseText " GROUP BY "
        (if groups.isEmpty then none
          else some (Text.joined ", " (groups.map d.quotePath))) ++
      clauseText " HAVING " (conjunctionText having false []) ++
      clauseText " ORDER BY "
        (if orders.isEmpty then none else some (Text.joined ", " os)) ++
      windowText d limit skipped
termination_by structural x => x

end

end RecordMapper
