import RecordMapper.Cast
import RecordMapper.Proofs.Number.Integers
import RecordMapper.Proofs.Number.Numerals

/-!
The cast to an integer, of the numerals of 64-bit integers.

* `integer_text`: a text that spells an integer is cast to it, also between blanks.
* `integer_decimal`: a decimal that spells an integer is cast to its double, without the fraction.
* `integer_of_numeral`: so the cast of a decimal is exact only where a double holds the integer.
-/
namespace RecordMapper

set_option autoImplicit false

open RecordMapper.Number RecordMapper.Text

theorem within_int64 (n : Int64) : Int64.least ≤ n.toInt ∧ n.toInt ≤ Int64.greatest :=
  ⟨n.le_toInt, n.toInt_le⟩

theorem Value.ofInt_toInt (n : Int64) : Value.ofInt n.toInt = .int64 n :=
  congrArg Value.int64 (Int64.ofInt_toInt n)

namespace Cast

theorem integer_text (n : Int64) {front back : List Char}
    (hfront : ∀ c ∈ front, isBlank c = true) (hback : ∀ c ∈ back, isBlank c = true) :
    integer.apply (.text (String.ofList (front ++ intChars n.toInt ++ back))) = .int64 n := by
  have htrim : trimChars (front ++ intChars n.toInt ++ back) = intChars n.toInt :=
    trimChars_surrounded hfront (fun c hc => isBlank_of_mem_intChars hc) hback
  have hread : integerOf? (.text (String.ofList (front ++ intChars n.toInt ++ back))) =
      some n.toInt := by
    simp only [integerOf?, Value.integer?, Value.number?, Value.double?, Value.text?,
      Option.map_none, String.toList_ofList, htrim, readInt64_intChars (within_int64 n)]
  unfold apply
  simp only [hread, Option.map_some, Option.getD_some, Value.ofInt_toInt]

/-- The numeric view of a decimal comes before its text. -/
theorem integer_decimal (n : Int64) :
    integer.apply (.decimal (Text.ofInt n.toInt)) =
      .ofInt (Binary64.ofInt n.toInt).toInteger := by
  have hbounds := within_int64 n
  have hleast : Int64.least = -2 ^ 63 := rfl
  have hgreatest : Int64.greatest = 2 ^ 63 - 1 := rfl
  have hmagnitude : n.toInt.natAbs < 10 ^ 19 := by omega
  have hlength : (natChars n.toInt.natAbs).length ≤ 310 :=
    Nat.le_trans (length_natChars_le (by decide) hmagnitude) (by decide)
  have hread : integerOf? (.decimal (Text.ofInt n.toInt)) =
      some (Binary64.ofInt n.toInt).toInteger := by
    simp only [integerOf?, Value.integer?, Value.number?, Value.double?, Text.ofInt,
      String.toList_ofList, readBinary64_intChars hlength]
  unfold apply
  simp only [hread, Option.map_some, Option.getD_some]

/-- A text that spells a 64-bit integer is cast to that integer. A decimal that spells it is cast to
it exactly if a double holds the integer, or if it is the greatest one. -/
theorem integer_of_numeral (n : Int64) :
    (∀ front back : List Char, (∀ c ∈ front, isBlank c = true) →
      (∀ c ∈ back, isBlank c = true) →
      integer.apply (.text (String.ofList (front ++ intChars n.toInt ++ back))) = .int64 n) ∧
    (integer.apply (.decimal (Text.ofInt n.toInt)) = .int64 n ↔
      n.toInt = Int64.greatest ∨ IsScaled n.toInt.natAbs) := by
  refine ⟨fun front back hfront hback => integer_text n hfront hback, ?_⟩
  have hbounds := toInteger_bounds (Binary64.ofInt n.toInt)
  rw [integer_decimal, ← toInteger_ofInt_eq_iff (within_int64 n)]
  constructor
  · intro h
    have hcast : Int64.ofInt (Binary64.ofInt n.toInt).toInteger = n := Value.int64.inj h
    calc (Binary64.ofInt n.toInt).toInteger
        = (Int64.ofInt (Binary64.ofInt n.toInt).toInteger).toInt :=
          (Int64.toInt_ofInt_of_le hbounds.1 (Int.lt_of_le_of_lt hbounds.2 (by decide))).symm
      _ = n.toInt := congrArg Int64.toInt hcast
  · intro h
    rw [h, Value.ofInt_toInt]

theorem integer_of_numeral_greatest :
    integer.apply (.text " \t9223372036854775807\n") = .int64 9223372036854775807 ∧
    integer.apply (.decimal "9223372036854775807") = .int64 9223372036854775807 :=
  ⟨(integer_of_numeral 9223372036854775807).1 [' ', '\t'] ['\n'] (List.all_eq_true.mp rfl)
      (List.all_eq_true.mp rfl),
    (integer_of_numeral 9223372036854775807).2.mpr (.inl rfl)⟩

/-- The least integer between two doubles. As a text it is kept. -/
theorem decimal_loses_last_digit :
    Text.ofInt 9007199254740993 = "9007199254740993" ∧
    integer.apply (.decimal "9007199254740993") = .int64 9007199254740992 ∧
    integer.apply (.text "9007199254740993") = .int64 9007199254740993 := by
  refine ⟨by decide, ?_, rfl⟩
  have hread : integerOf? (.decimal "9007199254740993") = some 9007199254740992 := by
    decide +kernel
  unfold apply
  simp only [hread]
  rfl

end Cast

end RecordMapper
