import RecordMapper.Session.World

/-!
Actions that work on a value.

* `Change` is an action that reads and replaces a value of type `τ`, such as a record. What it
  changed before it halted stays changed.
* `Change.within` lets a change of a part work on the whole.
-/
namespace RecordMapper

set_option autoImplicit false

abbrev Change (σ τ α : Type) := ExceptT Halt (StateT τ (StateM σ)) α

namespace Change

variable {σ τ υ α : Type}

/-- The outcome and the value after the change. -/
def runOn (c : Change σ τ α) (t : τ) : StateM σ (Outcome α × τ) := c.run.run t

/-- A change given by what it makes of a value. -/
def of (f : τ → StateM σ (Outcome α × τ)) : Change σ τ α := ExceptT.mk f

/-- An action that leaves the value alone. -/
def ofAction (a : Action σ α) : Change σ τ α := of fun t => do
  let o ← a.run
  return (o, t)

def ofResult (r : Result α) : Change σ τ α := ofAction (.ofResult r)

/-- The value as it is now. -/
def current : Change σ τ τ := of fun t => pure (.ok t, t)

def modify (f : τ → τ) : Change σ τ Unit := of fun t => pure (.ok (), f t)

/-- A change of the part that `view` shows and `put` writes back. -/
def within (view : τ → υ) (put : τ → υ → τ) (c : Change σ υ α) : Change σ τ α := of fun t => do
  let (o, u) ← c.runOn (view t)
  return (o, put t u)

end Change

end RecordMapper
