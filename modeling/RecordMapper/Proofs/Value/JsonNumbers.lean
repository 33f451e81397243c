import RecordMapper.Proofs.Number.Integers
import RecordMapper.Value.Json

/-!
JSON that becomes a value and JSON again.

* `Json.numbersFit`: every integer fits in 64 bits, signed or unsigned, and every floating-point
  number is finite.
* An integer that needs all 64 bits becomes a double, and the doubles there are 2048 apart
  (`ofInt_of_unsigned`).
* `toJson_ofJson_iff`: all other JSON survives, and so do these integers within arrays and objects.
-/
namespace RecordMapper

set_option autoImplicit false

open RecordMapper.Number

/-! ## Numbers that fit -/

namespace Json

mutual

def numbersFit : Json → Bool
  | .integer n => decide (Int64.least ≤ n) && decide (n < UInt64.size)
  | .float x => x.isFinite
  | .array items => itemsFit items
  | .object fields => fieldsFit fields
  | _ => true

def itemsFit : List Json → Bool
  | [] => true
  | j :: rest => j.numbersFit && itemsFit rest

def fieldsFit : List (String × Json) → Bool
  | [] => true
  | (_, j) :: rest => j.numbersFit && fieldsFit rest

end

theorem bounds_of_numbersFit {n : Int} (h : (integer n).numbersFit = true) :
    Int64.least ≤ n ∧ n < UInt64.size :=
  (Bool.and_eq_true_iff.mp h).imp of_decide_eq_true of_decide_eq_true

/-- An integer that fits in 64 bits without a sign only. -/
def IsUnsigned (j : Json) : Prop := ∃ n, j = .integer n ∧ Int64.greatest < n

/-- A floating-point number next to the integer. Where an integer needs all 64 bits these numbers
are 2048 apart. -/
def IsRounded (n : Int) (j : Json) : Prop :=
  ∃ (x : Binary64) (m : Int), j = .float x ∧ x.integer? = some m ∧ 2048 ∣ m ∧
    (m - n).natAbs ≤ 1024

end Json

/-! ## Integers beyond the signed ones -/

namespace Number

theorem log2_of_unsigned {n : Nat} (h : 2 ^ 63 ≤ n) (h' : n < 2 ^ 64) : n.log2 = 63 := by
  have hne : n ≠ 0 := by omega
  have hlow : 63 ≤ n.log2 := (Nat.le_log2 hne).mpr h
  have hhigh : n.log2 < 64 := (Nat.log2_lt hne).mpr h'
  omega

theorem spacing_of_unsigned {n : Nat} (h : 2 ^ 63 ≤ n) (h' : n < 2 ^ 64) : spacing n = 2048 := by
  unfold spacing
  rw [log2_of_unsigned h h']
  rfl

/-- A pattern without places behind the point denotes an integer. -/
theorem integer?_of_decode {x : Binary64} {negative : Bool} {m k : Nat}
    (h : x.decode = .finite negative m k) : x.integer? = some (towardZero negative m k) := by
  have hdown : (-(k : Int)).toNat = 0 := by omega
  unfold Binary64.integer?
  rw [h]
  simp only [hdown]
  rw [if_pos (Nat.mod_one _)]

/-- Such an integer becomes a finite number, one of the two multiples of 2048 next to it. -/
theorem ofInt_of_unsigned {n : Int} (h : Int64.greatest < n) (h' : n < UInt64.size) :
    (Binary64.ofInt n).isFinite = true ∧
      ∃ m : Int, (Binary64.ofInt n).integer? = some m ∧ 2048 ∣ m ∧ (m - n).natAbs ≤ 1024 := by
  have hgreatest : Int64.greatest = 2 ^ 63 - 1 := rfl
  have hsize : ((UInt64.size : Nat) : Int) = 2 ^ 64 := rfl
  have hlow : 2 ^ 63 ≤ n.natAbs := by omega
  have hhigh : n.natAbs < 2 ^ 64 := by omega
  have hlog := log2_of_unsigned hlow hhigh
  obtain ⟨m, k, hdecode, hvalue⟩ :=
    decode_nearest_scaled (decide (n < 0)) (n := n.natAbs) (by omega) (by omega)
  have hbits := (decode_ofInt n).trans hdecode
  rw [decide_eq_false (show ¬n < 0 by omega)] at hbits
  have hnear := roundQuotient_near .toEven n.natAbs (spacing_pos n.natAbs)
  have hmultiple : nearestMultiple n.natAbs = roundQuotient .toEven n.natAbs 2048 * 2048 := by
    unfold nearestMultiple
    rw [spacing_of_unsigned hlow hhigh]
  rw [spacing_of_unsigned hlow hhigh] at hnear
  refine ⟨?_, nearestMultiple n.natAbs, ?_, ?_, ?_⟩
  · unfold Binary64.isFinite
    rw [hbits]
  · rw [integer?_of_decode hbits, towardZero_natCast, hvalue]
    rfl
  · rw [hmultiple]
    omega
  · omega

end Number

/-! ## Round trips -/

namespace Value

theorem toJson_ofJson_integer {n : Int} (h : Int64.least ≤ n ∧ n ≤ Int64.greatest) :
    (ofJson (.integer n)).toJson = .integer n := by
  rw [ofJson, if_pos h, ofInt, toJson,
    Int64.toInt_ofInt_of_le h.1 (Int.lt_of_le_of_lt h.2 (by decide))]

theorem toJson_ofJson_unsigned {n : Int} (h : Int64.greatest < n) (h' : n < UInt64.size) :
    (ofJson (.integer n)).toJson = .float (.ofInt n) := by
  rw [ofJson, if_neg (fun hsigned => absurd hsigned.2 (Int.not_le.mpr h)), toJson, jsonOfDouble,
    if_pos (ofInt_of_unsigned h h').1]

theorem isRounded_of_unsigned {n : Int} (h : Int64.greatest < n) (h' : n < UInt64.size) :
    (ofJson (.integer n)).toJson.IsRounded n := by
  obtain ⟨-, m, hm⟩ := ofInt_of_unsigned h h'
  exact ⟨.ofInt n, m, toJson_ofJson_unsigned h h', hm⟩

theorem toJson_ofJson_of_signed {j : Json} (h : j.numbersFit = true) (hsigned : ¬j.IsUnsigned) :
    (ofJson j).toJson = j := by
  cases j with
  | integer n =>
    have hgreatest : n ≤ Int64.greatest := Int.not_lt.mp fun hgreat => hsigned ⟨n, rfl, hgreat⟩
    exact toJson_ofJson_integer ⟨(Json.bounds_of_numbersFit h).1, hgreatest⟩
  | float x =>
    have hfinite : x.isFinite = true := h
    rw [ofJson, toJson, jsonOfDouble, if_pos hfinite]
  | _ => rw [ofJson, toJson]

/-- JSON survives exactly if it is no bare integer that needs all 64 bits. Such an integer comes
back as a floating-point number next to it. -/
theorem toJson_ofJson_iff {j : Json} (h : j.numbersFit = true) :
    ((ofJson j).toJson = j ↔ ¬j.IsUnsigned) ∧
    ∀ n, j = .integer n → Int64.greatest < n → (ofJson j).toJson.IsRounded n := by
  refine ⟨⟨?_, toJson_ofJson_of_signed h⟩, ?_⟩
  · rintro hkept ⟨n, rfl, hgreat⟩
    obtain ⟨x, m, hshown, -⟩ := isRounded_of_unsigned hgreat (Json.bounds_of_numbersFit h).2
    rw [hkept] at hshown
    cases hshown
  · rintro n rfl hgreat
    exact isRounded_of_unsigned hgreat (Json.bounds_of_numbersFit h).2

/-- The least signed integer and minus zero, each bare, and the greatest unsigned integer within an
array, all survive. -/
theorem toJson_ofJson_iff_kept :
    ((Json.integer (-9223372036854775808)).numbersFit = true ∧
      (ofJson (.integer (-9223372036854775808))).toJson = .integer (-9223372036854775808)) ∧
    ((Json.float ⟨0x8000000000000000⟩).numbersFit = true ∧
      (ofJson (.float ⟨0x8000000000000000⟩)).toJson = .float ⟨0x8000000000000000⟩) ∧
    ((Json.array [.integer 18446744073709551615]).numbersFit = true ∧
      (ofJson (.array [.integer 18446744073709551615])).toJson =
        .array [.integer 18446744073709551615]) ∧
    ((Json.integer 18446744073709551615).numbersFit = true ∧
      (ofJson (.integer 18446744073709551615)).toJson.IsRounded 18446744073709551615) := by
  have hleast : (Json.integer (-9223372036854775808)).numbersFit = true := rfl
  have hzero : (Json.float ⟨0x8000000000000000⟩).numbersFit = true := rfl
  have harray : (Json.array [.integer 18446744073709551615]).numbersFit = true := rfl
  have hgreatest : (Json.integer 18446744073709551615).numbersFit = true := rfl
  refine ⟨⟨hleast, (toJson_ofJson_iff hleast).1.mpr ?_⟩,
    ⟨hzero, (toJson_ofJson_iff hzero).1.mpr ?_⟩,
    ⟨harray, (toJson_ofJson_iff harray).1.mpr ?_⟩, hgreatest,
    (toJson_ofJson_iff hgreatest).2 _ rfl (by decide)⟩
  · rintro ⟨n, hn, hgreat⟩
    obtain rfl := Json.integer.inj hn
    exact absurd hgreat (by decide)
  · rintro ⟨n, hn, -⟩
    cases hn
  · rintro ⟨n, hn, -⟩
    cases hn

/-- The greatest unsigned integer comes back as `2 ^ 64`, which no 64 bits hold. -/
theorem unsigned_integer_lost :
    (Json.integer 18446744073709551615).numbersFit = true ∧
    (ofJson (.integer 18446744073709551615)).toJson = .float ⟨0x43f0000000000000⟩ ∧
    Binary64.integer? ⟨0x43f0000000000000⟩ = some 18446744073709551616 ∧
    (ofJson (.integer 18446744073709551615)).toJson ≠ .integer 18446744073709551615 ∧
    (ofJson (.integer 18446744073709551615)).toJson.same (.integer 18446744073709551615) =
      false := by
  have hshown : (ofJson (.integer 18446744073709551615)).toJson =
      .float ⟨0x43f0000000000000⟩ := by
    have hbits : Binary64.ofInt 18446744073709551615 = ⟨0x43f0000000000000⟩ := by decide +kernel
    rw [toJson_ofJson_unsigned (by decide) (by decide), hbits]
  refine ⟨rfl, hshown, by decide +kernel, ?_, ?_⟩
  · rw [hshown]
    exact nofun
  · rw [hshown]
    rfl

end Value

end RecordMapper
