import RecordMapper.Fault
import RecordMapper.Text.Split

/-!
The variants of SQL.

* `Dialect` governs how a statement is written: quoting, placeholders, the spelling of functions.
* `Dialect.quoteName` writes one identifier, `Dialect.quotePath` a dotted path of them.
* `Dialect.read` and `Dialect.ofUrl` find a dialect by its name or by the scheme of a connection
  address.
-/
namespace RecordMapper

set_option autoImplicit false

open RecordMapper.Text

inductive Dialect where
  | postgres
  | mysql
  | mariadb
  | sqlite
  deriving DecidableEq, Repr, Inhabited

namespace Dialect

def name : Dialect → String
  | .postgres => "postgres"
  | .mysql => "mysql"
  | .mariadb => "mariadb"
  | .sqlite => "sqlite"

/-- MySQL, and MariaDB which mostly follows it. -/
def isMysqlFamily : Dialect → Bool
  | .mysql => true
  | .mariadb => true
  | _ => false

/-- Whether there is a comparison that ignores case. -/
def hasIlike : Dialect → Bool
  | .postgres => true
  | _ => false

def quoteChar (d : Dialect) : Char := if d.isMysqlFamily then '`' else '"'

/-! ## Identifiers -/

/-- Writes a character twice if it is the quote. -/
def doubled (quote c : Char) : List Char :=
  if c = quote then [c, c] else [c]

def quoteChars (d : Dialect) (name : List Char) : List Char :=
  d.quoteChar :: name.flatMap (doubled d.quoteChar) ++ [d.quoteChar]

/-- An identifier in quotes; a quote inside it is written twice. -/
def quoteName (d : Dialect) (name : String) : String :=
  String.ofList (d.quoteChars name.toList)

/-- A segment of a path; a star stands for all columns and has no quotes. -/
def quoteSegment (d : Dialect) (segment : List Char) : List Char :=
  if segment = ['*'] then segment else d.quoteChars segment

/-- A dotted path, each of its segments quoted by itself. -/
def quotePath (d : Dialect) (path : String) : String :=
  String.ofList (joinWith ['.'] ((fieldsAt '.' path.toList).map d.quoteSegment))

/-! ## Placeholders -/

/-- The mark for the bound value with this number, counted from one. -/
def placeholder (d : Dialect) (index : Nat) : List Char :=
  match d with
  | .postgres => '$' :: natChars index
  | _ => ['?']

/-! ## Choosing a dialect -/

def read (text : String) : Result Dialect :=
  let name := lower (trim text)
  if name = "postgres" ∨ name = "postgresql" ∨ name = "pg" then .ok .postgres
  else if name = "mysql" then .ok .mysql
  else if name = "mariadb" then .ok .mariadb
  else if name = "sqlite" ∨ name = "sqlite3" then .ok .sqlite
  else .error (.misconfigured (.unknownDialect name))

/-- The dialect named by the scheme, which ends at the first colon. -/
def ofUrl (url : String) : Result Dialect :=
  if url.toList.contains ':' then read (String.ofList (url.toList.takeWhile (· != ':')))
  else .error (.misconfigured (.urlWithoutScheme url))

end Dialect

end RecordMapper
