import RecordMapper.Proofs.Session.Action
import RecordMapper.Session.Basic
import RecordMapper.Session.Script

/-!
Sessions that keep account of what they send.

* `Exchange` is a statement that was sent, and what stopped it if it failed.
* `World.recorded` answers as a world does, and has the exchanges beside its state.
-/
namespace RecordMapper

set_option autoImplicit false

variable {σ : Type}

structure Exchange where
  request : Request
  stop : Option Halt

/-- Why there is no result. -/
def stopOf {α : Type} : Outcome α → Option Halt
  | .ok _ => none
  | .error stop => some stop

/-- The world whose state is that of `world` and the exchanges so far. -/
def World.recorded (world : World σ) : World (σ × List Exchange) :=
  { world.within Prod.fst (fun t w => (w, t.2)) with
    query := fun st t =>
      ((world.query st t.1).1,
        ((world.query st t.1).2, t.2 ++ [⟨.query st, stopOf (world.query st t.1).1⟩]))
    execute := fun st t =>
      ((world.execute st t.1).1,
        ((world.execute st t.1).2, t.2 ++ [⟨.execute st, stopOf (world.execute st t.1).1⟩])) }

def Session.recorded (s : Session σ) : Session (σ × List Exchange) :=
  { s with world := s.world.recorded }

namespace Session

theorem run_query_recorded (s : Session σ) (st : Statement) (t : σ × List Exchange) :
    (s.recorded.query st).run t =
      ((s.world.query st t.1).1,
        ((s.world.query st t.1).2, t.2 ++ [⟨.query st, stopOf (s.world.query st t.1).1⟩])) := rfl

theorem run_execute_recorded (s : Session σ) (st : Statement) (t : σ × List Exchange) :
    (s.recorded.execute st).run t =
      ((s.world.execute st t.1).1,
        ((s.world.execute st t.1).2, t.2 ++ [⟨.execute st, stopOf (s.world.execute st t.1).1⟩])) :=
  rfl

end Session

end RecordMapper
