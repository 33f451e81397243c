import RecordMapper.Proofs.Session.Action
import RecordMapper.Session.Transaction

/-!
Programs of nested transactions.

* `Program` is a tree of statements and transactions. What follows each of them may depend on its
  outcome, so that a failure can be swallowed or passed on.
* `Program.action` runs a program with a session; the body of a transaction is run with the session
  that was handed to it.
* `run_transaction_ok` and `run_transaction_error` say what a transaction sends.
-/
namespace RecordMapper

set_option autoImplicit false

inductive Program : Type → Type 1 where
  | done {α : Type} (o : Outcome α) : Program α
  | execute {α : Type} (st : Statement) (rest : Outcome Execution → Program α) : Program α
  | query {α : Type} (st : Statement) (rest : Outcome (List Row) → Program α) : Program α
  | transaction {α β : Type} (body : Program β) (rest : Outcome β → Program α) : Program α

def Program.action {σ α : Type} : Program α → Session σ → Action σ α
  | .done o, _ => .ofOutcome o
  | .execute st rest, s => do
    let o ← (s.execute st).outcome
    (rest o).action s
  | .query st rest, s => do
    let o ← (s.query st).outcome
    (rest o).action s
  | .transaction body rest, s => do
    let o ← (s.transaction body.action).outcome
    (rest o).action s

namespace Session

variable {σ α : Type}

theorem run_control_ok (s : Session σ) {sql : String} {w w' : σ} {e : Execution}
    (h : s.world.execute ⟨sql, []⟩ w = (.ok e, w')) : (s.control sql).run w = (.ok (), w') :=
  Action.run_bind_ok h

theorem run_control_outcome (s : Session σ) (sql : String) (w : σ) :
    (s.control sql).outcome.run w =
      (.ok ((s.control sql).run w).1, (s.world.execute ⟨sql, []⟩ w).2) := by
  have hstate : ((s.control sql).run w).2 = (s.world.execute ⟨sql, []⟩ w).2 := by
    rcases h : s.world.execute ⟨sql, []⟩ w with ⟨_ | e, w'⟩
    · exact congrArg Prod.snd (Action.run_bind_error h)
    · exact congrArg Prod.snd (run_control_ok s h)
  rw [Action.run_outcome, hstate]

theorem run_transaction_ok (s : Session σ) (body : Session σ → Action σ α) {w w₁ w₂ w₃ : σ}
    {a : α} {e e' : Execution}
    (hopen : s.world.execute ⟨openingSql s.depth, []⟩ w = (.ok e, w₁))
    (hbody : (body s.inner).run w₁ = (.ok a, w₂))
    (hclose : s.world.execute ⟨keepingSql s.depth, []⟩ w₂ = (.ok e', w₃)) :
    (s.transaction body).run w = (.ok a, w₃) := by
  unfold transaction
  rw [Action.run_bind_ok (run_control_ok s hopen), Action.run_outcome_bind, hbody]
  exact Action.run_bind_ok (run_control_ok s hclose)

theorem run_transaction_error (s : Session σ) (body : Session σ → Action σ α) {w w₁ w₂ : σ}
    {h : Halt} {e : Execution}
    (hopen : s.world.execute ⟨openingSql s.depth, []⟩ w = (.ok e, w₁))
    (hbody : (body s.inner).run w₁ = (.error h, w₂)) :
    (s.transaction body).run w =
      (.error h, (s.world.execute ⟨undoingSql s.depth, []⟩ w₂).2) := by
  unfold transaction
  rw [Action.run_bind_ok (run_control_ok s hopen), Action.run_outcome_bind, hbody]
  exact Action.run_bind_ok (run_control_outcome s _ w₂)

end Session

end RecordMapper
