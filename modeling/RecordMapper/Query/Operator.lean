import RecordMapper.Statement.Fragment

/-!
Operators and function names, and how each dialect spells them.
-/
namespace RecordMapper

set_option autoImplicit false

open RecordMapper.Text

/-! ## Comparison -/

inductive Comparison where
  | eq
  | ne
  | lt
  | le
  | gt
  | ge
  | like
  | notLike
  /-- A comparison by pattern that ignores case. -/
  | ilike
  deriving DecidableEq, Repr

namespace Comparison

def sql : Comparison → String
  | .eq => "="
  | .ne => "<>"
  | .lt => "<"
  | .le => "<="
  | .gt => ">"
  | .ge => ">="
  | .like => "LIKE"
  | .notLike => "NOT LIKE"
  | .ilike => "ILIKE"

/-- Case and the amount of blanks between words are of no account. -/
def read (text : String) : Result Comparison :=
  let word := upper (joined " " (words text))
  if word = "=" ∨ word = "==" then .ok .eq
  else if word = "!=" ∨ word = "<>" then .ok .ne
  else if word = "<" then .ok .lt
  else if word = "<=" then .ok .le
  else if word = ">" then .ok .gt
  else if word = ">=" then .ok .ge
  else if word = "LIKE" then .ok .like
  else if word = "NOT LIKE" then .ok .notLike
  else if word = "ILIKE" then .ok .ilike
  else .error (.cannotCompile (.unknownOperator text))

/-- A dialect without `ILIKE` compares both sides in lower case. -/
def between (op : Comparison) (d : Dialect) (left right : Fragment) : Fragment :=
  if op = .ilike ∧ !d.hasIlike then
    Fragment.call "LOWER" left ++ .text " LIKE " :: Fragment.call "LOWER" right
  else left ++ .text (" " ++ op.sql ++ " ") :: right

end Comparison

/-! ## Arithmetic and order -/

inductive Arithmetic where
  | add
  | sub
  | mul
  | div
  | mod
  deriving DecidableEq, Repr

def Arithmetic.sql : Arithmetic → String
  | .add => "+"
  | .sub => "-"
  | .mul => "*"
  | .div => "/"
  | .mod => "%"

inductive Direction where
  | asc
  | desc
  deriving DecidableEq, Repr

def Direction.sql : Direction → String
  | .asc => "ASC"
  | .desc => "DESC"

/-! ## Functions -/

inductive Aggregate where
  | count
  | sum
  | avg
  | min
  | max
  deriving DecidableEq, Repr

def Aggregate.sql : Aggregate → String
  | .count => "COUNT"
  | .sum => "SUM"
  | .avg => "AVG"
  | .min => "MIN"
  | .max => "MAX"

/-- Functions from text to text or to a number. -/
inductive TextFunction where
  | upper
  | lower
  | length
  | trim
  deriving DecidableEq, Repr

def TextFunction.sql (f : TextFunction) (d : Dialect) : String :=
  match f with
  | .upper => "UPPER"
  | .lower => "LOWER"
  | .trim => "TRIM"
  | .length => if d.isMysqlFamily then "CHAR_LENGTH" else "LENGTH"

inductive DatePart where
  | year
  | month
  | day
  | hour
  | minute
  | second
  /-- Sunday is 0 in every dialect. -/
  | dayOfWeek
  deriving DecidableEq, Repr

namespace DatePart

def field : DatePart → String
  | .year => "YEAR"
  | .month => "MONTH"
  | .day => "DAY"
  | .hour => "HOUR"
  | .minute => "MINUTE"
  | .second => "SECOND"
  | .dayOfWeek => "DOW"

def timeFormat : DatePart → String
  | .year => "%Y"
  | .month => "%m"
  | .day => "%d"
  | .hour => "%H"
  | .minute => "%M"
  | .second => "%S"
  | .dayOfWeek => "%w"

/-- The part of a moment, as a number. -/
def extract (part : DatePart) (d : Dialect) (moment : Fragment) : Fragment :=
  match d with
  | .postgres => .text ("EXTRACT(" ++ part.field ++ " FROM ") :: moment ++ [.text ")"]
  | .sqlite =>
    .text ("CAST(strftime('" ++ part.timeFormat ++ "', ") :: moment ++ [.text ") AS INTEGER)"]
  | _ =>
    if part = .dayOfWeek then .text "(DAYOFWEEK(" :: moment ++ [.text ") - 1)"]
    else Fragment.call part.field moment

end DatePart

/-- The date of a moment. -/
def dateOf (d : Dialect) (moment : Fragment) : Fragment :=
  match d with
  | .postgres => .text "CAST(" :: moment ++ [.text " AS DATE)"]
  | .sqlite => Fragment.call "date" moment
  | _ => Fragment.call "DATE" moment

def currentMoment (d : Dialect) : Fragment :=
  match d with
  | .sqlite => Fragment.text "CURRENT_TIMESTAMP"
  | _ => Fragment.text "NOW()"

/-! ## Types -/

/-- The types an expression can be cast to. -/
inductive ColumnType where
  | text
  | integer
  | bigInt
  | float
  | decimal
  | boolean
  | date
  | dateTime
  | json
  | uuid
  deriving DecidableEq, Repr

namespace ColumnType

def inPostgres : ColumnType → String
  | .text => "TEXT"
  | .integer => "INTEGER"
  | .bigInt => "BIGINT"
  | .float => "DOUBLE PRECISION"
  | .decimal => "NUMERIC"
  | .boolean => "BOOLEAN"
  | .date => "DATE"
  | .dateTime => "TIMESTAMP"
  | .json => "JSONB"
  | .uuid => "UUID"

def inMysql : ColumnType → String
  | .text => "CHAR"
  | .integer => "SIGNED"
  | .bigInt => "SIGNED"
  | .float => "DOUBLE"
  | .decimal => "DECIMAL"
  | .boolean => "UNSIGNED"
  | .date => "DATE"
  | .dateTime => "DATETIME"
  | .json => "JSON"
  | .uuid => "CHAR(36)"

def inSqlite : ColumnType → String
  | .text => "TEXT"
  | .integer => "INTEGER"
  | .bigInt => "INTEGER"
  | .float => "REAL"
  | .decimal => "NUMERIC"
  | .boolean => "INTEGER"
  | .date => "TEXT"
  | .dateTime => "TEXT"
  | .json => "TEXT"
  | .uuid => "TEXT"

def sql (t : ColumnType) (d : Dialect) : String :=
  match d with
  | .postgres => t.inPostgres
  | .sqlite => t.inSqlite
  | _ => t.inMysql

end ColumnType

end RecordMapper
