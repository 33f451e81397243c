import RecordMapper.Fault

/-!
Pages of a result: some items, and where they stand in the whole.
-/
namespace RecordMapper

set_option autoImplicit false

structure Page (α : Type) where
  items : List α
  number : Nat
  perPage : Nat
  total : Nat
  deriving DecidableEq, Repr

namespace Page

variable {α β : Type}

/-- As many pages as it takes to hold all items; none if a page holds nothing. -/
def totalPages (p : Page α) : Nat :=
  if p.perPage = 0 then 0 else (p.total + p.perPage - 1) / p.perPage

def hasPrevious (p : Page α) : Bool := decide (1 < p.number)

def hasNext (p : Page α) : Bool := decide (p.number < p.totalPages)

def map (f : α → β) (p : Page α) : Page β := { p with items := p.items.map f }

/-- The converted items, or the first failure. -/
def tryMap (f : α → Result β) (p : Page α) : Result (Page β) := do
  let items ← p.items.mapM f
  return { p with items }

end Page

end RecordMapper
