import RecordMapper.NameMap
import RecordMapper.Query.Build
import RecordMapper.Query.Select

/-!
Compiling statements that write rows.

* `Query.insertion` and `Query.batchInsertion` add rows, `Query.upsertion` adds rows or updates
  those that collide.
* `Query.updating` and `Query.deletion` change the rows the query would read.
* Every value is bound; a value `DEFAULT` is written as the keyword.
-/
namespace RecordMapper

set_option autoImplicit false

/-- The attributes of a row. -/
abbrev Attributes := NameMap Value

namespace Query

/-- The values of a row in the order of its columns. -/
def tuple (row : Attributes) : Fragment :=
  Fragment.parens (Fragment.joined ", " (row.values.map Fragment.bind))

def insertionFragment (q : Query) (row : Attributes) : Result Fragment := do
  let t ← tableFragment q.table
  if row.isEmpty then
    return .text "INSERT INTO " :: t ++
      Fragment.text (if q.dialect.isMysqlFamily then " () VALUES ()" else " DEFAULT VALUES")
  else
    return .text "INSERT INTO " :: t ++ .text " (" :: Fragment.names row.names ++
      .text ") VALUES " :: tuple row

/-- The position of the first row with other columns than these. -/
def differingRow? (columns : List String) (start : Nat) : List Attributes → Option Nat
  | [] => none
  | row :: rest =>
    if row.names = columns then differingRow? columns (start + 1) rest else some start

/-- Several rows at once; all of them have the columns of the first. -/
def batchInsertionFragment (q : Query) (rows : List Attributes) : Result Fragment :=
  match rows with
  | [] => .error (.cannotCompile (.batchWithoutRows q.table))
  | first :: _ =>
    if first.isEmpty then .error (.cannotCompile (.batchWithoutColumns q.table))
    else
      match differingRow? first.names 0 rows with
      | some i => .error (.cannotCompile (.batchRowDiffers i q.table))
      | none => do
        let t ← tableFragment q.table
        return .text "INSERT INTO " :: t ++ .text " (" :: Fragment.names first.names ++
          .text ") VALUES " :: Fragment.joined ", " (rows.map tuple)

/-- The condition of a query behind its keyword, or nothing. -/
def whereFragment (q : Query) (d : Dialect) : Result Fragment := do
  let condition ← q.condition d
  return clause " WHERE " condition

def assignment (column : String) (value : Value) : Fragment :=
  .name column :: .text " = " :: Fragment.bind value

def updatingFragment (q : Query) (assignments : Attributes) : Result Fragment :=
  if assignments.isEmpty then .error (.cannotCompile (.emptyUpdate q.table))
  else do
    let t ← tableFragment q.table
    let condition ← q.whereFragment q.dialect
    return .text "UPDATE " :: t ++ .text " SET " ::
      Fragment.joined ", " (assignments.entries.map fun e => assignment e.1 e.2) ++ condition

def deletionFragment (q : Query) : Result Fragment := do
  let t ← tableFragment q.table
  let condition ← q.whereFragment q.dialect
  return .text "DELETE FROM " :: t ++ condition

/-- What becomes of a row that collides with another one. In MySQL it needs an assignment, which may
change nothing. -/
def collision (d : Dialect) (uniqueBy update : List String) : Fragment :=
  if d.isMysqlFamily then
    let assignments :=
      match update with
      | [] => (uniqueBy.take 1).map fun c => [.name c, .text " = ", .name c]
      | columns => columns.map fun c => [.name c, .text " = VALUES(", .name c, .text ")"]
    .text " ON DUPLICATE KEY UPDATE " :: Fragment.joined ", " assignments
  else
    .text " ON CONFLICT (" :: Fragment.names uniqueBy ++ .text ")" ::
      match update with
      | [] => Fragment.text " DO NOTHING"
      | columns =>
        .text " DO UPDATE SET " ::
          Fragment.joined ", "
            (columns.map fun c => [.name c, .text " = EXCLUDED.", .name c])

def upsertionFragment (q : Query) (rows : List Attributes) (uniqueBy update : List String) :
    Result Fragment :=
  if uniqueBy.isEmpty then .error (.cannotCompile (.upsertWithoutUnique q.table))
  else do
    let f ← q.batchInsertionFragment rows
    return f ++ collision q.dialect uniqueBy update

/-! ## Counting -/

def aggregateName : String := "aggregate"

/-- The query for one number over the rows, without order and window. -/
def aggregateOf (q : Query) (e : Expr) : Query :=
  q.bare.withColumns [.named e aggregateName]

/-- The count of the rows. Those of a query with DISTINCT or GROUP BY are counted in a derived
table. -/
def countingFragment (q : Query) : Result Fragment :=
  if q.distinct || q.isGrouped then do
    let inner ← q.unwindowed.compile q.dialect
    return .text "SELECT COUNT(*) AS " :: .name aggregateName :: .text " FROM (" :: inner ++
      [.text ") AS ", .name "aggregate_table"]
  else (q.aggregateOf (.aggregate .count none false)).compile q.dialect

/-! ## Statements -/

def insertion (q : Query) (row : Attributes) : Result Statement :=
  (q.insertionFragment row).map (Fragment.statement q.dialect 0)

def batchInsertion (q : Query) (rows : List Attributes) : Result Statement :=
  (q.batchInsertionFragment rows).map (Fragment.statement q.dialect 0)

def updating (q : Query) (assignments : Attributes) : Result Statement :=
  (q.updatingFragment assignments).map (Fragment.statement q.dialect 0)

def deletion (q : Query) : Result Statement :=
  q.deletionFragment.map (Fragment.statement q.dialect 0)

def upsertion (q : Query) (rows : List Attributes) (uniqueBy update : List String) :
    Result Statement :=
  (q.upsertionFragment rows uniqueBy update).map (Fragment.statement q.dialect 0)

def counting (q : Query) : Result Statement :=
  q.countingFragment.map (Fragment.statement q.dialect 0)

end Query

end RecordMapper
