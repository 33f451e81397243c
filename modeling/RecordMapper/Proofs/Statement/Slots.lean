import RecordMapper.Proofs.Statement.Supplied
import RecordMapper.Proofs.Statement.Written

/-!
What is written for values that stand in a row.

* `boundOf` are the values that are bound; `Dialect.slot` is what is written for one value, and
  `Dialect.slots` for each of several.
* `getElem?_slots` and `getElem?_boundOf`: the slot of a value has the number of the parameter that
  holds it.
-/
namespace RecordMapper

set_option autoImplicit false

/-- The values that are not left to their defaults. -/
def boundOf (vs : List Value) : List Value := vs.filter fun v => !v.isDefault

theorem boundOf_append (vs ws : List Value) : boundOf (vs ++ ws) = boundOf vs ++ boundOf ws :=
  List.filter_append vs ws

/-- The place of a bound value among the parameters is the number of those in front of it. -/
theorem getElem?_boundOf {vs : List Value} {i : Nat} {v : Value} (h : vs[i]? = some v)
    (hv : v.isDefault = false) : (boundOf vs)[(boundOf (vs.take i)).length]? = some v := by
  obtain ⟨hi, hget⟩ := List.getElem?_eq_some_iff.mp h
  have hrest : vs.drop i = v :: vs.drop (i + 1) := by
    rw [List.drop_eq_getElem_cons hi, hget]
  have hsplit : boundOf vs = boundOf (vs.take i) ++ v :: boundOf (vs.drop (i + 1)) := by
    have happend := boundOf_append (vs.take i) (vs.drop i)
    have hhead : boundOf (v :: vs.drop (i + 1)) = v :: boundOf (vs.drop (i + 1)) := by
      simp [boundOf, hv]
    rwa [List.take_append_drop, hrest, hhead] at happend
  rw [hsplit, List.getElem?_append_right (Nat.le_refl _), Nat.sub_self]
  rfl

namespace Dialect

variable (d : Dialect)

/-- What is written for a value behind `bound` placeholders. -/
def slot (bound : Nat) (v : Value) : String :=
  if v.isDefault then "DEFAULT" else String.ofList (d.placeholder (bound + 1))

def slots (d : Dialect) : Nat → List Value → List String
  | _, [] => []
  | bound, v :: rest => d.slot bound v :: slots d (bound + (boundOf [v]).length) rest

theorem length_slots (bound : Nat) (vs : List Value) : (d.slots bound vs).length = vs.length := by
  induction vs generalizing bound with
  | nil => rfl
  | cons v rest ih => rw [slots, List.length_cons, List.length_cons, ih]

/-- Each value is written behind the bound ones in front of it. -/
theorem getElem?_slots (bound : Nat) (vs : List Value) (i : Nat) :
    (d.slots bound vs)[i]? = vs[i]?.map (d.slot (bound + (boundOf (vs.take i)).length)) := by
  induction vs generalizing bound i with
  | nil => rfl
  | cons v rest ih =>
    cases i with
    | zero => rfl
    | succ i =>
      have hfront : boundOf (v :: rest.take i) = boundOf [v] ++ boundOf (rest.take i) :=
        boundOf_append [v] _
      rw [slots, List.getElem?_cons_succ, List.getElem?_cons_succ, ih, List.take_succ_cons, hfront,
        List.length_append, Nat.add_assoc]

end Dialect

namespace Fragment

variable (d : Dialect) (bound : Nat)

theorem values_bind (v : Value) : (bind v).values = boundOf [v] := by
  cases v <;> rfl

theorem write_bind (v : Value) : (bind v).write d bound = d.slot bound v := by
  cases hv : v.isDefault with
  | true =>
    cases v <;> first | rfl | cases hv
  | false => simp [bind_of_isDefault hv, Dialect.slot, hv]

theorem flatMap_values_bind (vs : List Value) : (vs.map bind).flatMap values = boundOf vs := by
  induction vs with
  | nil => rfl
  | cons v rest ih =>
    rw [List.map_cons, List.flatMap_cons, ih, values_bind]
    exact (boundOf_append [v] rest).symm

theorem writeAll_bind (vs : List Value) : writeAll d bound (vs.map bind) = d.slots bound vs := by
  induction vs generalizing bound with
  | nil => rfl
  | cons v rest ih => rw [List.map_cons, writeAll, write_bind, values_bind, ih, Dialect.slots]

end Fragment

end RecordMapper
