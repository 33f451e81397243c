import RecordMapper.Calendar.Moment
import RecordMapper.Row
import RecordMapper.Statement.Fragment

/-!
What a session talks to.

* `World` answers statements, tells the time and gives out UUIDs. Its state is of any type, so that
  a table in memory, a script of answers or a log can stand in for a database. `World.within` makes
  it a part of a larger state.
* `Outcome` is a result or the reason why there is none.
* `Action` is a computation in a world that can halt.
-/
namespace RecordMapper

set_option autoImplicit false

open RecordMapper.Calendar

/-- Why a computation did not come to its end. -/
inductive Halt where
  | fault (f : Fault)
  | cancelled
  | panicked (message : String)
  deriving DecidableEq, Repr

abbrev Outcome (α : Type) := Except Halt α

/-- What a statement that writes reports back. -/
structure Execution where
  affected : Nat
  /-- The key the database generated. -/
  insertId : Option Value
  deriving Inhabited

structure World (σ : Type) where
  query : Statement → σ → Outcome (List Row) × σ
  execute : Statement → σ → Outcome Execution × σ
  connect : σ → Outcome Unit × σ
  disconnect : σ → Outcome Unit × σ
  now : σ → Moment × σ
  freshUuid : σ → Uuid × σ

/-- The world of a part, as the world of the whole. -/
def World.within {σ τ : Type} (world : World σ) (view : τ → σ) (put : τ → σ → τ) : World τ where
  query st t := ((world.query st (view t)).1, put t (world.query st (view t)).2)
  execute st t := ((world.execute st (view t)).1, put t (world.execute st (view t)).2)
  connect t := ((world.connect (view t)).1, put t (world.connect (view t)).2)
  disconnect t := ((world.disconnect (view t)).1, put t (world.disconnect (view t)).2)
  now t := ((world.now (view t)).1, put t (world.now (view t)).2)
  freshUuid t := ((world.freshUuid (view t)).1, put t (world.freshUuid (view t)).2)

abbrev Action (σ α : Type) := ExceptT Halt (StateM σ) α

namespace Action

variable {σ α : Type}

def ofOutcome (o : Outcome α) : Action σ α := ExceptT.mk (pure o)

def ofResult (r : Result α) : Action σ α :=
  ofOutcome (match r with
    | .ok a => .ok a
    | .error f => .error (.fault f))

def fail (f : Fault) : Action σ α := ofOutcome (.error (.fault f))

/-- A step of the world that may halt. -/
def ofStep (step : σ → Outcome α × σ) : Action σ α := ExceptT.mk step

/-- A step of the world that always succeeds. -/
def ofState (step : σ → α × σ) : Action σ α := ExceptT.mk fun s => ((.ok (step s).1), (step s).2)

/-- The outcome of an action, as a value. -/
def outcome (a : Action σ α) : Action σ (Outcome α) := ExceptT.mk fun s =>
  (.ok (a.run s).1, (a.run s).2)

end Action

end RecordMapper
