import RecordMapper.Schema.Morph
import RecordMapper.Session.Hooks
import RecordMapper.Session.World

/-!
Sessions.

* `Session` holds all that a query or a record needs when it meets the database. It is passed
  along; there is no hidden one.
* `SessionPlan.build` makes one, if a database and a dialect are given.
-/
namespace RecordMapper

set_option autoImplicit false

structure Settings where
  dialect : Option Dialect
  /-- The size of a page where a caller names none. -/
  perPage : Nat
  /-- The size of a chunk where a caller names none. -/
  chunkSize : Nat
  /-- Whether the bound values may be logged. -/
  logValues : Bool
  deriving Repr

def Settings.standard : Settings := ⟨none, 15, 100, false⟩

structure Session (σ : Type) where
  world : World σ
  dialect : Dialect
  catalog : Catalog
  morphs : MorphMap
  hooks : Hooks
  settings : Settings
  /-- How many transactions are open around the session. -/
  depth : Nat

structure SessionPlan (σ : Type) where
  world : Option (World σ)
  settings : Settings
  catalog : Catalog
  morphs : MorphMap
  hooks : Hooks

namespace SessionPlan

variable {σ : Type}

def empty : SessionPlan σ := ⟨none, .standard, ⟨[]⟩, .empty, .none⟩

def connectedTo (p : SessionPlan σ) (world : World σ) : SessionPlan σ := { p with world }

def inDialect (p : SessionPlan σ) (d : Dialect) : SessionPlan σ :=
  { p with settings := { p.settings with dialect := some d } }

/-- Replaces the settings; a dialect chosen before stays unless the new settings name one. -/
def configured (p : SessionPlan σ) (settings : Settings) : SessionPlan σ :=
  { p with settings := { settings with dialect := settings.dialect.or p.settings.dialect } }

def build (p : SessionPlan σ) : Result (Session σ) :=
  match p.world, p.settings.dialect with
  | none, _ => .error (.misconfigured .noConnection)
  | _, none => .error (.misconfigured .noDialect)
  | some world, some dialect =>
    .ok ⟨world, dialect, p.catalog, p.morphs, p.hooks, p.settings, 0⟩

end SessionPlan

namespace Session

variable {σ : Type}

def inTransaction (s : Session σ) : Bool := decide (0 < s.depth)

def query (s : Session σ) (st : Statement) : Action σ (List Row) :=
  .ofStep (s.world.query st)

def execute (s : Session σ) (st : Statement) : Action σ Execution :=
  .ofStep (s.world.execute st)

def connect (s : Session σ) : Action σ Unit := .ofStep s.world.connect

def disconnect (s : Session σ) : Action σ Unit := .ofStep s.world.disconnect

/-- The present moment as records store it. -/
def now (s : Session σ) : Action σ Value :=
  .ofState fun w =>
    let (m, w) := s.world.now w
    (.text (String.ofList m.write), w)

/-- A fresh primary key. -/
def freshKey (s : Session σ) : Action σ Value :=
  .ofState fun w =>
    let (id, w) := s.world.freshUuid w
    (.text id.text, w)

end Session

end RecordMapper
