import RecordMapper.Cast
import RecordMapper.Proofs.Calendar.Reading

/-!
Casts made twice.

* `momentOf?_writeDate`, `momentOf?_write`: what a cast writes of a moment is read as a moment that is
  written in the same way, or not at all.
* `apply_twice`: so no cast changes what it has made.
-/
namespace RecordMapper.Cast

set_option autoImplicit false

open RecordMapper.Number RecordMapper.Text RecordMapper.Calendar

/-! ## Moments -/

theorem proper_momentOf? {v : Value} {m : Moment} (h : momentOf? v = some m) : m.Proper := by
  unfold momentOf? at h
  split at h
  · exact proper_ofMicros? h
  · exact proper_ofMicros? h
  · exact proper_ofSeconds? (by decide) h
  · exact proper_readMoment h
  · cases h

/-- Nothing of a written form is trimmed. -/
theorem momentOf?_text {cs : List Char} (h : ∀ c ∈ cs, isBlank c = false) :
    momentOf? (.text (String.ofList cs)) = readMoment cs := by
  simp only [momentOf?, String.toList_ofList, trimChars_of_unblank h]

variable {m : Moment} (hm : m.Proper)

include hm

theorem momentOf?_writeDate :
    momentOf? (.text (String.ofList m.writeDate)) = some ⟨m.day, ⟨0, 0⟩⟩ := by
  rw [momentOf?_text (isBlank_of_mem_writeDate m), readMoment_writeDate hm]

theorem momentOf?_write {m' : Moment} (h : momentOf? (.text (String.ofList m.write)) = some m') :
    m'.write = m.write := by
  rw [momentOf?_text (isBlank_of_mem_write m)] at h
  by_cases hyear : 0 ≤ (dateOfDay m.day).year ∧ (dateOfDay m.day).year ≤ 9999
  · rw [readMoment_write hm hyear] at h
    obtain rfl := Option.some.inj h
    exact write_toMillis m
  · rw [readMoment_write_none hm hyear] at h
    cases h

omit hm

/-! ## All casts -/

/-- What a cast makes of a value that it can convert. -/
def made? (cast : Cast) (v : Value) : Option Value :=
  match v with
  | .null => none
  | v =>
    match cast with
    | .boolean => some (.bool (isTrue v))
    | .integer => (integerOf? v).map Value.ofInt
    | .float => (doubleOf? v).map Value.double
    | .string => some (.text v.display)
    | .json => some (toJson v)
    | .array => some (toArray v)
    | .date => (momentOf? v).map fun m => .text (String.ofList m.writeDate)
    | .dateTime => (momentOf? v).map fun m => .text (String.ofList m.write)

theorem apply_eq (cast : Cast) (v : Value) : cast.apply v = (cast.made? v).getD v := by
  cases v <;> cases cast <;> rfl

theorem asArray_twice (j : Json) : asArray (asArray j) = asArray j := by
  cases j <;> rfl

/-- JSON, or a text that is none. -/
theorem toJson_twice (v : Value) : json.apply (toJson v) = toJson v := by
  unfold toJson
  split
  · rfl
  · next s =>
    split
    · rfl
    · next hread =>
      show toJson (.text s) = .text s
      simp only [toJson, hread]
  · rfl

theorem toArray_twice (v : Value) : array.apply (toArray v) = toArray v := by
  obtain ⟨j, hj⟩ : ∃ j, toArray v = .json (asArray j) := by
    unfold toArray
    split
    · exact ⟨_, rfl⟩
    · split
      · exact ⟨_, rfl⟩
      · exact ⟨.array _, rfl⟩
    · exact ⟨_, rfl⟩
  rw [hj]
  exact congrArg Value.json (asArray_twice j)

theorem apply_made {cast : Cast} {v w : Value} (h : cast.made? v = some w) : cast.apply w = w := by
  unfold made? at h
  split at h
  · cases h
  · cases cast with
    | boolean =>
      obtain rfl := Option.some.inj h
      rfl
    | integer =>
      obtain ⟨n, -, rfl⟩ := Option.map_eq_some_iff.mp h
      exact congrArg Value.int64 (Int64.ofInt_toInt (Int64.ofInt n))
    | float =>
      obtain ⟨x, -, rfl⟩ := Option.map_eq_some_iff.mp h
      rfl
    | string =>
      obtain rfl := Option.some.inj h
      rfl
    | json =>
      obtain rfl := Option.some.inj h
      exact toJson_twice _
    | array =>
      obtain rfl := Option.some.inj h
      exact toArray_twice _
    | date =>
      obtain ⟨m, hm, rfl⟩ := Option.map_eq_some_iff.mp h
      unfold apply
      dsimp only
      rw [momentOf?_writeDate (proper_momentOf? hm)]
      rfl
    | dateTime =>
      obtain ⟨m, hm, rfl⟩ := Option.map_eq_some_iff.mp h
      unfold apply
      dsimp only
      cases hread : momentOf? (.text (String.ofList m.write)) with
      | none => rfl
      | some m' =>
        rw [Option.map_some, Option.getD_some, momentOf?_write (proper_momentOf? hm) hread]

/-- A cast leaves alone what it has made, and what it could not convert it cannot convert again. -/
theorem apply_twice (cast : Cast) (v : Value) : cast.apply (cast.apply v) = cast.apply v := by
  cases hv : cast.made? v with
  | none =>
    have hkept : cast.apply v = v := by rw [apply_eq, hv, Option.getD_none]
    rw [hkept, hkept]
  | some w =>
    have hmade : cast.apply v = w := by rw [apply_eq, hv, Option.getD_some]
    rw [hmade, apply_made hv]

/-- A leap second with an offset, and a year that is written with a sign. -/
example : dateTime.apply (.text " 2016-12-31T23:59:60.1239+01:00") = .text "2016-12-31T22:59:60.123Z" ∧
    dateTime.apply (.text "+10000-01-01T00:30:00.000Z") = .text "+10000-01-01T00:30:00.000Z" :=
  ⟨rfl, rfl⟩

end RecordMapper.Cast
