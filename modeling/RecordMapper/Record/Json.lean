import RecordMapper.Record.Basic

/-!
Records as JSON.

`Record.toJson` is an object of the shown attributes, each of them cast, and of the shown relations;
a relation stands in the place of an attribute of its name.
-/
namespace RecordMapper

set_option autoImplicit false

/-- The fields of the shown attributes of a record. -/
def Record.attributeFields (schema : Schema) (attributes : Attributes) : List (String × Json) :=
  (attributes.entries.filter fun e => schema.shows e.1).map fun e =>
    (e.1, (schema.castValue e.1 e.2).toJson)

mutual

def Record.toJson : Record → Json
  | { schema, attributes, relations, .. } =>
    .object (Assoc.insertAll (Record.attributeFields schema attributes)
      (relationFields schema relations))

/-- The fields of the shown relations. -/
def relationFields (schema : Schema) : List (String × Loaded) → List (String × Json)
  | [] => []
  | (name, l) :: rest =>
    if schema.showsRelation name then (name, l.toJson) :: relationFields schema rest
    else relationFields schema rest

def Loaded.toJson : Loaded → Json
  | .one r => oneToJson r
  | .many rs => .array (recordsToJson rs)

def oneToJson : Option Record → Json
  | none => .null
  | some r => r.toJson

def recordsToJson : List Record → List Json
  | [] => []
  | r :: rest => r.toJson :: recordsToJson rest

end

end RecordMapper
