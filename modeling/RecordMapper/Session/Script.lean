import RecordMapper.Session.World
import RecordMapper.Text.Split

/-!
A database that answers from a script.

* `Script.query` gives the next scripted rows, and none once they are used up.
* `Script.execute` gives the next scripted report, and once they are used up one affected row with
  the next number as its key.
* A statement that holds one of the `failures` fails and uses up nothing.
* All statements are logged.
* `Script.world` is the world of a script. Its clock stands still until it is set, and its UUIDs are
  counted.
-/
namespace RecordMapper

set_option autoImplicit false

open RecordMapper.Calendar RecordMapper.Text

inductive Request where
  | query (s : Statement)
  | execute (s : Statement)
  deriving Inhabited

structure Script where
  rows : List (List Row)
  executions : List Execution
  failures : List String
  /-- The last number given out as a key. -/
  lastId : Int
  log : List Request
  clock : Moment
  /-- How many UUIDs were given out. -/
  uuids : Nat

namespace Script

def startingAt (clock : Moment) : Script := ⟨[], [], [], 0, [], clock, 0⟩

def pushRows (s : Script) (rows : List Row) : Script := { s with rows := s.rows ++ [rows] }

def pushExecution (s : Script) (e : Execution) : Script :=
  { s with executions := s.executions ++ [e] }

def failWhen (s : Script) (fragment : String) : Script :=
  { s with failures := s.failures ++ [fragment] }

def record (s : Script) (r : Request) : Script := { s with log := s.log ++ [r] }

def fails (s : Script) (sql : String) : Bool :=
  s.failures.any fun f => containsRun f.toList sql.toList

def failure (sql : String) : Halt := .fault (.query "scripted failure" (some sql) none none)

def query (statement : Statement) (s : Script) : Outcome (List Row) × Script :=
  let s := s.record (.query statement)
  if s.fails statement.sql then (.error (failure statement.sql), s)
  else (.ok (s.rows.headD []), { s with rows := s.rows.tail })

def execute (statement : Statement) (s : Script) : Outcome Execution × Script :=
  let s := s.record (.execute statement)
  if s.fails statement.sql then (.error (failure statement.sql), s)
  else
    match s.executions with
    | e :: rest => (.ok e, { s with executions := rest })
    | [] => (.ok ⟨1, some (.ofInt (s.lastId + 1))⟩, { s with lastId := s.lastId + 1 })

/-- The UUID with this number. It has the version and variant marks of a random one. -/
def uuid (number : Nat) : Uuid :=
  ⟨BitVec.ofNat 128 (0x88888888888848888888000000000000 + number)⟩

def world : World Script where
  query := query
  execute := execute
  connect s := (.ok (), s)
  disconnect s := (.ok (), s)
  now s := (s.clock, s)
  freshUuid s := (uuid s.uuids, { s with uuids := s.uuids + 1 })

end Script

end RecordMapper
