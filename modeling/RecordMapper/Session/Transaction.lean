import RecordMapper.Session.Basic

/-!
Transactions.

`Session.transaction` runs a body between an opening and a closing statement. The outermost
transaction is one of the database, those within it are savepoints named for their depth. A body
that halts is rolled back, and its outcome is returned as it is, whether the rollback succeeds or
not.
-/
namespace RecordMapper.Session

set_option autoImplicit false

open RecordMapper.Text

variable {σ α : Type}

def savepointName (depth : Nat) : String := "sqlrecord_sp_" ++ ofNat depth

def openingSql (depth : Nat) : String :=
  if depth = 0 then "BEGIN" else "SAVEPOINT " ++ savepointName depth

def keepingSql (depth : Nat) : String :=
  if depth = 0 then "COMMIT" else "RELEASE SAVEPOINT " ++ savepointName depth

def undoingSql (depth : Nat) : String :=
  if depth = 0 then "ROLLBACK" else "ROLLBACK TO SAVEPOINT " ++ savepointName depth

/-- Sends a statement that opens or closes a transaction. -/
def control (s : Session σ) (sql : String) : Action σ Unit := do
  let _ ← s.execute ⟨sql, []⟩
  return ()

/-- The session a body is run with. -/
def inner (s : Session σ) : Session σ := { s with depth := s.depth + 1 }

def transaction (s : Session σ) (body : Session σ → Action σ α) : Action σ α := do
  s.control (openingSql s.depth)
  match ← (body s.inner).outcome with
  | .ok a =>
    s.control (keepingSql s.depth)
    return a
  | .error h =>
    let _ ← (s.control (undoingSql s.depth)).outcome
    .ofOutcome (.error h)

end RecordMapper.Session
