import RecordMapper.Proofs.Cast.Twice
import RecordMapper.Proofs.Record.Disclosure

/-!
Casts of the attributes of a record.

* `get?_castRow`: an attribute of a row that was read is the cast of the last value of its name.
* `castValue_of_read`: the cast leaves it as it is from then on.
* `shown_as_read`: so the JSON of a record that was just read shows what the record holds, although
  the casts are made again.
-/
namespace RecordMapper

set_option autoImplicit false

theorem get?_castRow (schema : Schema) (row : Row) (name : String) :
    (Record.castRow schema row).get? name =
      ((NameMap.ofList row.pairs).get? name).map (schema.castValue name) :=
  Assoc.get?_insertAll_map schema.castValue name row.pairs rfl

theorem Schema.castValue_twice (schema : Schema) (name : String) (v : Value) :
    schema.castValue name (schema.castValue name v) = schema.castValue name v := by
  unfold castValue
  split
  · exact Cast.apply_twice _ v
  · rfl

namespace Record

theorem castValue_of_read {schema : Schema} {row : Row} {name : String} {v : Value}
    (h : (hydrate schema row).get? name = some v) : schema.castValue name v = v := by
  have hread := get?_castRow schema row name
  rw [show (castRow schema row).get? name = some v from h] at hread
  obtain ⟨u, -, rfl⟩ := Option.map_eq_some_iff.mp hread.symm
  exact schema.castValue_twice name u

/-- A second cast changes nothing. The fields of a record that was just read are the shown ones of
the values that it holds. -/
theorem shown_as_read :
    (∀ (cast : Cast) (v : Value), cast.apply (cast.apply v) = cast.apply v) ∧
    ∀ (schema : Schema) (row : Row), ∃ fields, (hydrate schema row).toJson = .object fields ∧
      ∀ name, Assoc.get? name fields =
        (((hydrate schema row).get? name).filter fun _ => schema.shows name).map Value.toJson := by
  refine ⟨Cast.apply_twice, fun schema row => ?_⟩
  refine ⟨attributeFields schema (castRow schema row), by rw [hydrate, toJson]; rfl, fun name => ?_⟩
  refine (get?_attributeFields (hydrate schema row) name).trans (Option.map_congr fun v hv => ?_)
  exact congrArg Value.toJson (castValue_of_read (Option.mem_filter_iff.mp hv).1)

end Record

end RecordMapper
