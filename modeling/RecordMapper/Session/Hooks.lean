import RecordMapper.Record.Basic

/-!
Hooks: what happens to a record before and after it is saved or deleted.

* `Hook` may change a record and may fail; what it changed before it failed stays changed.
* `HookRegistry` runs the hooks a schema lists for a phase, by name and in order, and then those
  that listen to the phase.
-/
namespace RecordMapper

set_option autoImplicit false

abbrev Hook := Record → Result Unit × Record

/-- What is run at each phase. -/
structure Hooks where
  run : Phase → Hook

def Hooks.none : Hooks := ⟨fun _ r => (.ok (), r)⟩

structure HookRegistry where
  named : NameMap Hook
  listeners : List (Phase × Hook)

namespace HookRegistry

def empty : HookRegistry := ⟨.empty, []⟩

def isNameStart (c : Char) : Bool := c.isAlpha || c == '_'

def isNameChar (c : Char) : Bool :=
  c.isAlphanum || c == '_' || c == '.' || c == ':' || c == '-'

/-- A name begins with a letter or an underscore; digits, dots, colons and hyphens may follow. -/
def isValidName (name : String) : Bool :=
  match name.toList with
  | [] => false
  | c :: rest => isNameStart c && rest.all isNameChar

def register (g : HookRegistry) (name : String) (hook : Hook) : Result HookRegistry :=
  if isValidName name then .ok { g with named := g.named.insert name hook }
  else .error (.misconfigured (.invalidHookName name))

def listen (g : HookRegistry) (phase : Phase) (hook : Hook) : HookRegistry :=
  { g with listeners := g.listeners ++ [(phase, hook)] }

/-- Runs hooks one after the other, up to the first that fails. -/
def runAll : List Hook → Hook
  | [], r => (.ok (), r)
  | hook :: rest, r =>
    match hook r with
    | (.ok (), r) => runAll rest r
    | (.error f, r) => (.error f, r)

/-- The hook of this name, or one that only fails. -/
def lookUp (g : HookRegistry) (phase : Phase) (table name : String) : Hook :=
  match g.named.get? name with
  | some hook => hook
  | none => fun r => (.error (.misconfigured (.unknownHook name phase.name table)), r)

def hooks (g : HookRegistry) : Hooks :=
  ⟨fun phase r =>
    runAll ((r.schema.hooksFor phase).map (g.lookUp phase r.schema.table) ++
      (g.listeners.filter fun l => l.1 = phase).map Prod.snd) r⟩

end HookRegistry

end RecordMapper
