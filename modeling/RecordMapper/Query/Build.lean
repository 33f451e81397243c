import RecordMapper.Query.Basic

/-!
Building queries step by step.

* `Query.on` starts a query over a table; every other function returns the query with one more part.
* Conditions a caller chains go into the filters, by `filter` and `orFilter`; conditions that hold
  besides the chain go into the scopes, by `scope`.
-/
namespace RecordMapper.Query

set_option autoImplicit false

/-- All rows of a table. -/
def on (table : String) (dialect : Dialect) : Query :=
  { table, dialect, key := "id", columns := [], distinct := false, joins := [], filters := [],
    scopes := [], groups := [], havings := [], orders := [], limit := none, offset := none }

def fromTable (q : Query) (table : String) : Query := { q with table }

def keyedBy (q : Query) (column : String) : Query := { q with key := column }

/-! ## Conditions -/

def link (q : Query) (connective : Connective) (c : Condition) : Query :=
  { q with filters := q.filters ++ [⟨connective, c⟩] }

def filter (q : Query) (c : Condition) : Query := q.link .and c

def orFilter (q : Query) (c : Condition) : Query := q.link .or c

def filterEq (q : Query) (column : String) (value : Value) : Query :=
  q.filter (.compare (.column column) .eq value)

/-- A condition that holds besides the chain of filters. -/
def scope (q : Query) (c : Condition) : Query := { q with scopes := q.scopes ++ [c] }

def scopeEq (q : Query) (column : String) (value : Value) : Query :=
  q.scope (.compare (.column column) .eq value)

/-- Asks for a row of another query, which `build` makes from one without a table. -/
def existsIn (q : Query) (negated : Bool) (build : Query → Query) : Query :=
  q.scope (.existsRow (build (on "" q.dialect)) negated)

/-! ## What is read -/

def select (q : Query) (columns : List String) : Query :=
  { q with columns := columns.map .column }

def addColumns (q : Query) (columns : List String) : Query :=
  { q with columns := q.columns ++ columns.map .column }

def addExpr (q : Query) (e : Expr) : Query := { q with columns := q.columns ++ [e] }

def withColumns (q : Query) (columns : List Expr) : Query := { q with columns }

def unique (q : Query) : Query := { q with distinct := true }

def join (q : Query) (j : Join) : Query := { q with joins := q.joins ++ [j] }

def joinOn (q : Query) (kind : JoinKind) (table left : String) (op : Comparison)
    (right : String) : Query :=
  q.join ⟨kind, table, none, [⟨left, op, right⟩]⟩

def groupBy (q : Query) (columns : List String) : Query :=
  { q with groups := q.groups ++ columns }

def having (q : Query) (c : Condition) : Query :=
  { q with havings := q.havings ++ [⟨.and, c⟩] }

/-! ## Order and window -/

def orderBy (q : Query) (e : Expr) (direction : Option Direction) : Query :=
  { q with orders := q.orders ++ [⟨e, direction⟩] }

def ascending (q : Query) (column : String) : Query := q.orderBy (.column column) (some .asc)

def descending (q : Query) (column : String) : Query := q.orderBy (.column column) (some .desc)

def unordered (q : Query) : Query := { q with orders := [] }

def take (q : Query) (n : Nat) : Query := { q with limit := some n }

def skip (q : Query) (n : Nat) : Query := { q with offset := some n }

/-- The rows of a page; pages are counted from one, and page 0 is the first one too. -/
def page (q : Query) (number perPage : Nat) : Query :=
  (q.skip ((max number 1 - 1) * perPage)).take perPage

/-- The query without order and window. -/
def unwindowed (q : Query) : Query :=
  { q with orders := [], limit := none, offset := none }

/-- The query without columns, order and window. -/
def bare (q : Query) : Query := { q.unwindowed with columns := [] }

def isOrdered (q : Query) : Bool := !q.orders.isEmpty

def isGrouped (q : Query) : Bool := !q.groups.isEmpty

end RecordMapper.Query
