import RecordMapper.Text.Digits

/-!
What can go wrong, as causes.

* `Fault` has one constructor for each kind of failure; compilation and configuration failures name
  their cause.
* `Fault.message` holds all wording.
-/
namespace RecordMapper

set_option autoImplicit false

open RecordMapper.Text

/-- Why a statement cannot be built. -/
inductive CompileCause where
  | unknownOperator (text : String)
  | emptyConcat
  | caseWithoutBranches
  | moreMarkersThanValues (values : Nat)
  | fewerMarkersThanValues (markers values : Nat)
  | malformedPath
  | pathIndexOutOfRange (path : String)
  | noTable
  | batchWithoutRows (table : String)
  | batchWithoutColumns (table : String)
  | batchRowDiffers (row : Nat) (table : String)
  | emptyUpdate (table : String)
  | upsertWithoutUnique (table : String)
  | zeroPerPage
  | zeroChunkSize
  | unorderedChunk
  | cursorMissing (column : String)
  | invalidLoadPath (path : String)
  | other (message : String)
  deriving DecidableEq, Repr

/-- What is missing or inconsistent in the declarations. -/
inductive ConfigCause where
  | unknownCast (name : String)
  | unknownDialect (name : String)
  | urlWithoutScheme (url : String)
  | noPivot (relation : String)
  | noThrough (relation : String)
  | noRelated (relation : String)
  | pivotParentWithoutKey (relation : String)
  | unknownMorphType (name : String)
  | invalidHookName (name : String)
  | unknownHook (name phase table : String)
  | noPersistedKey (table : String)
  | noSoftDelete (table : String)
  | noConnection
  | noDialect
  | other (message : String)
  deriving DecidableEq, Repr

inductive Fault where
  /-- Found while a statement is built; `fragment` is the text in question. -/
  | compilation (cause : CompileCause) (fragment : Option String)
  /-- A strict look-up matched no row. -/
  | recordNotFound (table message : String)
  | relationNotFound (table relation : String)
  | config (cause : ConfigCause) (source : Option String)
  | connection (message : String) (source : Option String)
  | query (message : String) (sql sqlState source : Option String)
  | transaction (message : String)
  | type (expected actual : String) (column : Option String)
  | serialization (message : String)
  | custom (message : String)
  deriving DecidableEq, Repr

abbrev Result (α : Type) := Except Fault α

def CompileCause.message : CompileCause → String
  | .unknownOperator text => "unknown operator '" ++ text ++ "'"
  | .emptyConcat => "CONCAT requires at least one argument"
  | .caseWithoutBranches => "CASE requires at least one WHEN branch"
  | .moreMarkersThanValues values =>
    "raw SQL has more '?' markers than the " ++ ofNat values ++ " bound values"
  | .fewerMarkersThanValues markers values =>
    "raw SQL has " ++ ofNat markers ++ " '?' markers but " ++ ofNat values ++ " bound values"
  | .malformedPath => "malformed JSON path"
  | .pathIndexOutOfRange path => "JSON path index out of range in '" ++ path ++ "'"
  | .noTable => "query has no table; call from() first"
  | .batchWithoutRows table => "batch INSERT into '" ++ table ++ "' has no rows"
  | .batchWithoutColumns _ => "batch INSERT rows have no columns"
  | .batchRowDiffers row _ =>
    "batch INSERT row " ++ ofNat row ++ " has a different column set than the first row"
  | .emptyUpdate table => "UPDATE on '" ++ table ++ "' has no assignments"
  | .upsertWithoutUnique _ => "upsert requires at least one unique column"
  | .zeroPerPage => "per_page must be greater than zero"
  | .zeroChunkSize => "chunk size must be greater than zero"
  | .unorderedChunk => "chunk requires an ORDER BY clause for stable paging"
  | .cursorMissing column =>
    "chunk_by_id column '" ++ column ++ "' is missing from the results"
  | .invalidLoadPath path => "invalid eager load path '" ++ path ++ "'"
  | .other message => message

def ConfigCause.message : ConfigCause → String
  | .unknownCast name => "unknown cast '" ++ name ++ "'"
  | .unknownDialect name => "unknown SQL dialect '" ++ name ++ "'"
  | .urlWithoutScheme url => "connection url '" ++ url ++ "' has no scheme"
  | .noPivot relation =>
    "relation '" ++ relation ++ "' is many-to-many but declares no pivot table"
  | .noThrough relation =>
    "relation '" ++ relation ++ "' is a through relation but declares no intermediate table"
  | .noRelated relation => "relation '" ++ relation ++ "' declares no related model"
  | .pivotParentWithoutKey relation =>
    "relation '" ++ relation ++ "' cannot manage pivot rows for a parent without a key"
  | .unknownMorphType name => "morph type '" ++ name ++ "' is not registered"
  | .invalidHookName name => "invalid hook name '" ++ name ++ "'"
  | .unknownHook name phase table =>
    "hook '" ++ name ++ "' listed for " ++ phase ++ " on '" ++ table ++ "' is not registered"
  | .noPersistedKey table =>
    "record of '" ++ table ++ "' has no primary key to address"
  | .noSoftDelete table => "'" ++ table ++ "' does not use soft deletes; nothing to restore"
  | .noConnection => "session requires a database connection"
  | .noDialect => "session requires a SQL dialect"
  | .other message => message

namespace Fault

def message : Fault → String
  | .compilation cause none => "Compilation error: " ++ cause.message
  | .compilation cause (some fragment) =>
    "Compilation error: " ++ cause.message ++ " (in `" ++ fragment ++ "`)"
  | .recordNotFound _ message => "Not found: " ++ message
  | .relationNotFound table relation =>
    "Not found: relation '" ++ relation ++ "' is not declared on '" ++ table ++ "'"
  | .config cause _ => "Configuration error: " ++ cause.message
  | .connection message _ => "Connection error: " ++ message
  | .query message _ none _ => "Query error: " ++ message
  | .query message _ (some state) _ =>
    "Query error: " ++ message ++ " (SQLSTATE " ++ state ++ ")"
  | .transaction message => "Transaction error: " ++ message
  | .type expected actual none =>
    "Type error: expected " ++ expected ++ ", found " ++ actual
  | .type expected actual (some column) =>
    "Type error: expected " ++ expected ++ " for column '" ++ column ++ "', found " ++ actual
  | .serialization message => "Serialization error: " ++ message
  | .custom message => message

def isCompilation : Fault → Bool
  | .compilation .. => true
  | _ => false

def isNotFound : Fault → Bool
  | .recordNotFound .. => true
  | .relationNotFound .. => true
  | _ => false

def isConfig : Fault → Bool
  | .config .. => true
  | _ => false

/-- Whether the failure came back from the database. -/
def isFromDatabase : Fault → Bool
  | .connection .. => true
  | .query .. => true
  | .transaction .. => true
  | _ => false

def sqlState? : Fault → Option String
  | .query _ _ state _ => state
  | _ => none

/-- The statement that failed, or the fragment that could not be compiled. -/
def sql? : Fault → Option String
  | .query _ sql _ _ => sql
  | .compilation _ fragment => fragment
  | _ => none

/-- The text of the failure below this one. -/
def source? : Fault → Option String
  | .config _ source => source
  | .connection _ source => source
  | .query _ _ _ source => source
  | _ => none

/-- Whether a unique constraint was violated; only a failed statement can tell. -/
def isUniqueViolation? : Fault → Option Bool
  | .query _ _ state _ => some (state == some "23505")
  | _ => none

/-- A failure to compile that quotes no fragment. -/
def cannotCompile (cause : CompileCause) : Fault := .compilation cause none

def misconfigured (cause : ConfigCause) : Fault := .config cause none

/-- The same failure with the column named, if it is one of types. -/
def inColumn (column : String) : Fault → Fault
  | .type expected actual _ => .type expected actual (some column)
  | fault => fault

end Fault

end RecordMapper
