import RecordMapper.Query.Operator

/-!
Queries as trees.

* `Expr` is an expression, `Condition` a condition on rows, `Link` a condition with the word that
  joins it to the one before.
* `Query` is a query over one table; the same tree serves to read, update and delete rows. Its
  `filters` are the flat chain a caller builds, its `scopes` the conditions that hold besides.
-/
namespace RecordMapper

set_option autoImplicit false

inductive Connective where
  | and
  | or
  deriving DecidableEq, Repr

def Connective.sql : Connective → String
  | .and => "AND"
  | .or => "OR"

inductive JoinKind where
  | inner
  | left
  | right
  | cross
  deriving DecidableEq, Repr

def JoinKind.sql : JoinKind → String
  | .inner => "INNER JOIN"
  | .left => "LEFT JOIN"
  | .right => "RIGHT JOIN"
  | .cross => "CROSS JOIN"

/-- A comparison of two columns. -/
structure ColumnComparison where
  left : String
  op : Comparison
  right : String
  deriving DecidableEq, Repr

/-- A joined table, under another name if it has a label; all of its comparisons hold. -/
structure Join where
  kind : JoinKind
  table : String
  label : Option String
  on : List ColumnComparison
  deriving DecidableEq, Repr

mutual

inductive Expr where
  /-- A column; a dotted path names its table too. -/
  | column (path : String)
  /-- A value, always bound. -/
  | literal (value : Value)
  | named (e : Expr) (name : String)
  /-- Trusted SQL with a marker for each value. -/
  | marked (sql : String) (values : List Value)
  | cast (e : Expr) (type : ColumnType)
  | arithmetic (left : Expr) (op : Arithmetic) (right : Expr)
  | compare (left : Expr) (op : Comparison) (right : Expr)
  | concat (parts : List Expr)
  | textCall (function : TextFunction) (e : Expr)
  /-- A part of a text from `start`, counted from one. -/
  | substring (e : Expr) (start : Int64) (length : Option Int64)
  | replace (e pattern replacement : Expr)
  | extract (part : DatePart) (e : Expr)
  | dateOf (e : Expr)
  | now
  | coalesce (choices : List Expr)
  | nullIf (left right : Expr)
  /-- An aggregate of an argument, or of whole rows. -/
  | aggregate (function : Aggregate) (argument : Option Expr) (distinct : Bool)
  | case (branches : List Branch) (otherwise : Option Expr)
  /-- The text at a path of a JSON column. -/
  | json (column path : String)
  | subquery (query : Query)
  /-- A function over the rows of a partition. -/
  | window (e : Expr) (partition : List Expr) (order : List SortKey)

structure Branch where
  condition : Expr
  result : Expr

/-- What rows are ordered by; trusted SQL may carry its own direction. -/
structure SortKey where
  e : Expr
  direction : Option Direction

inductive Condition where
  /-- Equality with NULL, and its opposite, ask whether the target is NULL. -/
  | compare (target : Expr) (op : Comparison) (value : Value)
  /-- No value is in the empty list. -/
  | isIn (target : Expr) (values : List Value) (negated : Bool)
  | isNull (target : Expr) (negated : Bool)
  | between (target : Expr) (low high : Value) (negated : Bool)
  | columns (comparison : ColumnComparison)
  /-- Trusted SQL with a marker for each value. -/
  | marked (sql : String) (values : List Value)
  | existsRow (query : Query) (negated : Bool)
  | holds (e : Expr)

structure Link where
  connective : Connective
  condition : Condition

structure Query where
  table : String
  dialect : Dialect
  /-- The column by which a row is found. -/
  key : String
  /-- All columns if empty. -/
  columns : List Expr
  distinct : Bool
  joins : List Join
  filters : List Link
  scopes : List Condition
  groups : List String
  havings : List Link
  orders : List SortKey
  limit : Option Nat
  offset : Option Nat

end

deriving instance Inhabited for Expr, Condition, Query

end RecordMapper
