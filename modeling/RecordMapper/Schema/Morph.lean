import RecordMapper.Schema.Basic

/-!
Names of types, as they are stored in rows that can belong to rows of many types.

* `MorphMap` takes a stored name to a schema.
* `MorphMap.typeName` is the name under which a schema is stored: the first of its aliases, or its
  table.
-/
namespace RecordMapper

set_option autoImplicit false

structure MorphMap where
  types : NameMap Schema

namespace MorphMap

def empty : MorphMap := ⟨.empty⟩

/-- Later registrations of an alias replace earlier ones. -/
def register (m : MorphMap) (name : String) (schema : Schema) : MorphMap :=
  ⟨m.types.insert name schema⟩

def size (m : MorphMap) : Nat := m.types.entries.length

def isEmpty (m : MorphMap) : Bool := m.types.isEmpty

def resolve (m : MorphMap) (name : String) : Result Schema :=
  match m.types.get? name with
  | some schema => .ok schema
  | none => .error (.misconfigured (.unknownMorphType name))

/-- The first alias, in ascending order, of a schema with this table. -/
def aliasFor? (m : MorphMap) (table : String) : Option String :=
  (m.types.entries.find? fun e => e.2.table == table).map Prod.fst

def typeName (m : MorphMap) (schema : Schema) : String :=
  (m.aliasFor? schema.table).getD schema.table

end MorphMap

end RecordMapper
