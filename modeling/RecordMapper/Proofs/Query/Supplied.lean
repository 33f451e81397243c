import RecordMapper.Proofs.Statement.Supplied
import RecordMapper.Query.Write

/-!
What a caller supplies to a query.

* `Expr.supplied`, `Condition.supplied` and `Query.supplied` are the values and the trusted SQL of a
  tree in the order in which they are read. A condition about an empty list asks nothing of its
  target and supplies nothing.
* `Command` is what can be made of a query, `Query.command` is its statement, and `Query.suppliedBy`
  is what the statement is supplied with.
-/
namespace RecordMapper

set_option autoImplicit false

/-! ## Trees -/

/-- The value bound for a path into a JSON column. -/
def JsonPath.bound (d : Dialect) (path : JsonPath) : Value :=
  if d = .postgres then .array (path.map stepText) else .text path.dollar

def JsonPath.supplied (d : Dialect) (path : String) : List Supplied :=
  match JsonPath.read path with
  | .ok steps => [.value (steps.bound d)]
  | .error _ => []

mutual

def Expr.supplied (d : Dialect) : Expr → List Supplied
  | .column _ => []
  | .literal value => [.value value]
  | .named e _ => e.supplied d
  | .marked sql values => Marked.reading sql.toList values
  | .cast e _ => e.supplied d
  | .arithmetic left _ right => left.supplied d ++ right.supplied d
  | .compare left _ right => left.supplied d ++ right.supplied d
  | .concat parts => suppliedExprs d parts
  | .textCall _ e => e.supplied d
  | .substring e start length =>
    e.supplied d ++ Supplied.row (.int64 start :: (length.map Value.int64).toList)
  | .replace e pattern replacement =>
    e.supplied d ++ (pattern.supplied d ++ replacement.supplied d)
  | .extract _ e => e.supplied d
  | .dateOf e => e.supplied d
  | .now => []
  | .coalesce choices => suppliedExprs d choices
  | .nullIf left right => left.supplied d ++ right.supplied d
  | .aggregate _ argument _ => suppliedOption d argument
  | .case branches otherwise => suppliedBranches d branches ++ suppliedOption d otherwise
  | .json _ path => JsonPath.supplied d path
  | .subquery query => query.supplied d
  | .window e partition order =>
    e.supplied d ++ (suppliedExprs d partition ++ suppliedSortKeys d order)

def suppliedExprs (d : Dialect) : List Expr → List Supplied
  | [] => []
  | e :: rest => e.supplied d ++ suppliedExprs d rest

def suppliedOption (d : Dialect) : Option Expr → List Supplied
  | none => []
  | some e => e.supplied d

def Branch.supplied (d : Dialect) : Branch → List Supplied
  | { condition, result } => condition.supplied d ++ result.supplied d

def suppliedBranches (d : Dialect) : List Branch → List Supplied
  | [] => []
  | b :: rest => b.supplied d ++ suppliedBranches d rest

def SortKey.supplied (d : Dialect) : SortKey → List Supplied
  | { e, .. } => e.supplied d

def suppliedSortKeys (d : Dialect) : List SortKey → List Supplied
  | [] => []
  | k :: rest => k.supplied d ++ suppliedSortKeys d rest

def Condition.supplied (d : Dialect) : Condition → List Supplied
  | .compare target op value =>
    target.supplied d ++
      match op, value with
      | .eq, .null => []
      | .ne, .null => []
      | _, v => [.value v]
  | .isIn target values _ =>
    if values.isEmpty then [] else target.supplied d ++ Supplied.row values
  | .isNull target _ => target.supplied d
  | .between target low high _ => target.supplied d ++ Supplied.row [low, high]
  | .columns _ => []
  | .marked sql values => Marked.reading sql.toList values
  | .existsRow query _ => query.supplied d
  | .holds e => e.supplied d

def Link.supplied (d : Dialect) : Link → List Supplied
  | { condition, .. } => condition.supplied d

def suppliedLinks (d : Dialect) : List Link → List Supplied
  | [] => []
  | l :: rest => l.supplied d ++ suppliedLinks d rest

def suppliedConditions (d : Dialect) : List Condition → List Supplied
  | [] => []
  | c :: rest => c.supplied d ++ suppliedConditions d rest

def Query.supplied (d : Dialect) : Query → List Supplied
  | { columns, filters, scopes, havings, orders, .. } =>
    suppliedExprs d columns ++ (suppliedLinks d filters ++ (suppliedConditions d scopes ++
      (suppliedLinks d havings ++ suppliedSortKeys d orders)))
termination_by structural x => x

end

/-! ## Statements -/

/-- What can be made of a query. -/
inductive Command where
  | read
  | count
  | insert (row : Attributes)
  | insertMany (rows : List Attributes)
  | update (assignments : Attributes)
  | delete
  | upsert (rows : List Attributes) (uniqueBy update : List String)

namespace Query

def command (q : Query) : Command → Result Statement
  | .read => q.statement
  | .count => q.counting
  | .insert row => q.insertion row
  | .insertMany rows => q.batchInsertion rows
  | .update assignments => q.updating assignments
  | .delete => q.deletion
  | .upsert rows uniqueBy update => q.upsertion rows uniqueBy update

/-- What the condition on the rows of a query supplies. -/
def suppliedWhere (q : Query) : List Supplied :=
  suppliedLinks q.dialect q.filters ++ suppliedConditions q.dialect q.scopes

/-- What a statement is supplied with, in reading order. A count reads the columns of a query only
where rows are counted in a derived table, and never its order. -/
def suppliedBy (q : Query) : Command → List Supplied
  | .read => q.supplied q.dialect
  | .count =>
    (if q.distinct || q.isGrouped then suppliedExprs q.dialect q.columns else []) ++
      (q.suppliedWhere ++ suppliedLinks q.dialect q.havings)
  | .insert row => Supplied.row row.values
  | .insertMany rows => rows.flatMap fun row => Supplied.row row.values
  | .update assignments => Supplied.row assignments.values ++ q.suppliedWhere
  | .delete => q.suppliedWhere
  | .upsert rows _ _ => rows.flatMap fun row => Supplied.row row.values

end Query

end RecordMapper
