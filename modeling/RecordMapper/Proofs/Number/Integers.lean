import Mathlib.Algebra.Group.Nat.Defs
import RecordMapper.Number.Binary

/-!
Integers as floating-point numbers.

* `spacing n` is the distance of the doubles around `n`, and `nearestMultiple n` is the multiple of it
  that is nearest to `n`.
* `toInteger_ofInt`: an integer becomes the double of that multiple, which is then held within 64
  bits.
* `toInteger_ofInt_eq_iff`: a 64-bit integer comes back exactly if it is a mantissa of 53 bits times
  a power of two, or the greatest one of all, where the range ends.
-/
namespace RecordMapper.Number

set_option autoImplicit false

/-! ## Rounding -/

theorem Tie.choose_cases (tie : Tie) (lower : Nat) :
    tie.choose lower = lower ∨ tie.choose lower = lower + 1 := by
  cases tie with
  | toEven =>
    simp only [choose]
    split
    · exact .inl rfl
    · exact .inr rfl
  | awayFromZero => exact .inr rfl

theorem roundQuotient_bounds (tie : Tie) (num den : Nat) :
    num / den ≤ roundQuotient tie num den ∧ roundQuotient tie num den ≤ num / den + 1 := by
  have hchoose := tie.choose_cases (num / den)
  unfold roundQuotient
  simp only
  split
  · omega
  · split
    · omega
    · omega

theorem roundQuotient_of_dvd (tie : Tie) {num den : Nat} (hden : 0 < den) (h : den ∣ num) :
    roundQuotient tie num den = num / den := by
  unfold roundQuotient
  rw [Nat.mod_eq_zero_of_dvd h]
  simp [hden]

/-- A rounded quotient is at most half a unit off. -/
theorem roundQuotient_near (tie : Tie) (num : Nat) {den : Nat} (hden : 0 < den) :
    2 * (roundQuotient tie num den * den) ≤ 2 * num + den ∧
      2 * num ≤ 2 * (roundQuotient tie num den * den) + den := by
  have hsplit : num / den * den + num % den = num := Nat.div_add_mod' num den
  have hrest : num % den < den := Nat.mod_lt num hden
  have hnext : (num / den + 1) * den = num / den * den + den := Nat.succ_mul _ _
  unfold roundQuotient
  dsimp only
  split
  · omega
  · split
    · omega
    · rcases tie.choose_cases (num / den) with h | h <;> rw [h] <;> omega

/-! ## The doubles around an integer -/

def spacing (n : Nat) : Nat := 2 ^ (n.log2 - 52)

def nearestMultiple (n : Nat) : Nat := roundQuotient .toEven n (spacing n) * spacing n

/-- A mantissa of 53 bits, scaled by a power of two. -/
def IsScaled (n : Nat) : Prop := ∃ m k, m < 2 ^ 53 ∧ n = m * 2 ^ k

theorem spacing_pos (n : Nat) : 0 < spacing n := Nat.two_pow_pos _

theorem div_spacing_lt (n : Nat) : n / spacing n < 2 ^ 53 := by
  have hbound : n < 2 ^ (n.log2 + 1) := Nat.lt_log2_self
  refine Nat.div_lt_of_lt_mul ?_
  unfold spacing
  rw [← Nat.pow_add]
  exact Nat.lt_of_lt_of_le hbound (Nat.pow_le_pow_right (by decide) (by omega))

/-- The multiples of the spacing are the integers that a double can hold. -/
theorem spacing_dvd_iff {n : Nat} : spacing n ∣ n ↔ IsScaled n := by
  constructor
  · intro h
    exact ⟨n / spacing n, n.log2 - 52, div_spacing_lt n, (Nat.div_mul_cancel h).symm⟩
  · rintro ⟨m, k, hm, rfl⟩
    refine Nat.dvd_trans (Nat.pow_dvd_pow 2 ?_) (Nat.dvd_mul_left _ _)
    by_cases hzero : m * 2 ^ k = 0
    · rw [hzero]
      simp
    · have hbound : m * 2 ^ k < 2 ^ (53 + k) := by
        rw [Nat.pow_add]
        exact Nat.mul_lt_mul_of_pos_right hm (Nat.two_pow_pos k)
      have hlog : (m * 2 ^ k).log2 < 53 + k := (Nat.log2_lt hzero).mpr hbound
      omega

theorem nearestMultiple_eq_iff {n : Nat} : nearestMultiple n = n ↔ IsScaled n := by
  rw [← spacing_dvd_iff]
  constructor
  · intro h
    exact ⟨roundQuotient .toEven n (spacing n), by rw [Nat.mul_comm]; exact h.symm⟩
  · intro h
    unfold nearestMultiple
    rw [roundQuotient_of_dvd .toEven (spacing_pos n) h]
    exact Nat.div_mul_cancel h

/-- Rounding does not pass over a power of two. -/
theorem nearestMultiple_le {n e : Nat} (h : n < 2 ^ e) : nearestMultiple n ≤ 2 ^ e := by
  by_cases hzero : n = 0
  · rw [hzero]
    exact Nat.zero_le _
  · have hlog : n.log2 < e := (Nat.log2_lt hzero).mpr h
    have hsplit : 2 ^ e = 2 ^ (e - (n.log2 - 52)) * spacing n := by
      unfold spacing
      rw [← Nat.pow_add]
      congr 1
      omega
    have hquotient : n / spacing n < 2 ^ (e - (n.log2 - 52)) := by
      rw [Nat.div_lt_iff_lt_mul (spacing_pos n), ← hsplit]
      exact h
    have hround := (roundQuotient_bounds .toEven n (spacing n)).2
    unfold nearestMultiple
    rw [hsplit]
    exact Nat.mul_le_mul_right _ (by omega)

/-! ## Bit patterns -/

theorem decode_double (bits : Nat) :
    double.decode bits =
      if bits / 2 ^ 52 % 2 ^ 11 = 2047 then
        if bits % 2 ^ 52 = 0 then .infinite (decide (2 ^ 63 ≤ bits)) else .nan
      else if bits / 2 ^ 52 % 2 ^ 11 = 0 then
        .finite (decide (2 ^ 63 ≤ bits)) (bits % 2 ^ 52) (-1074)
      else .finite (decide (2 ^ 63 ≤ bits)) (2 ^ 52 + bits % 2 ^ 52)
        (-1074 + ((bits / 2 ^ 52 % 2 ^ 11 : Nat) - 1)) := rfl

theorem signed_double (negative : Bool) (bits : Nat) :
    double.signed negative bits = if negative then 2 ^ 63 + bits else bits := rfl

theorem decode_normal (negative : Bool) {k m : Nat} (hm : 2 ^ 52 ≤ m) (hm' : m < 2 ^ 53)
    (hk : k < 2046) :
    double.decode (double.signed negative (k * 2 ^ 52 + m)) = .finite negative m (k - 1074) := by
  have hsigned : ∃ bits, double.signed negative (k * 2 ^ 52 + m) = bits ∧
      bits / 2 ^ 52 % 2 ^ 11 = k + 1 ∧ bits % 2 ^ 52 = m - 2 ^ 52 ∧
      decide (2 ^ 63 ≤ bits) = negative := by
    refine ⟨_, rfl, ?_⟩
    cases negative <;> simp only [signed_double, if_true, if_false, Bool.false_eq_true,
      decide_eq_true_eq, decide_eq_false_iff_not] <;> omega
  obtain ⟨bits, hbits, hexponent, hfraction, hnegative⟩ := hsigned
  have hmantissa : 2 ^ 52 + (m - 2 ^ 52) = m := by omega
  have hplace : -1074 + (((k + 1 : Nat) : Int) - 1) = k - 1074 := by omega
  rw [hbits, decode_double, hexponent, hfraction, hnegative, if_neg (by omega), if_neg (by omega),
    hmantissa, hplace]

theorem floorLog2_one {n : Nat} (h : n ≠ 0) : floorLog2 n 1 = n.log2 := by
  have hlog : Nat.pow 2 n.log2 ≤ n := Nat.log2_self_le h
  have hdifference : (n.log2 : Int) - (Nat.log2 1 : Nat) = n.log2 := by
    rw [show Nat.log2 1 = 0 by decide]
    omega
  have hup : (-(n.log2 : Int)).toNat = 0 := by omega
  unfold floorLog2
  simp only [hdifference, hup, Int.toNat_natCast, Nat.one_mul]
  rw [if_pos]
  exact Nat.le_trans hlog (Nat.le_mul_of_pos_right n (by decide))

/-- The mantissa of the double nearest to `n`; it can be the next power of two. -/
def mantissaOf (n : Nat) : Nat := roundQuotient .toEven (n * 2 ^ (52 - n.log2)) (spacing n)

theorem mantissaOf_bounds {n : Nat} (h : n ≠ 0) : 2 ^ 52 ≤ mantissaOf n ∧ mantissaOf n ≤ 2 ^ 53 := by
  have hround := roundQuotient_bounds .toEven (n * 2 ^ (52 - n.log2)) (spacing n)
  have hlow : 2 ^ n.log2 ≤ n := Nat.log2_self_le h
  have hhigh : n < 2 ^ (n.log2 + 1) := Nat.lt_log2_self
  have hquotient : 2 ^ 52 ≤ n * 2 ^ (52 - n.log2) / spacing n ∧
      n * 2 ^ (52 - n.log2) / spacing n < 2 ^ 53 := by
    constructor
    · rw [Nat.le_div_iff_mul_le (spacing_pos n)]
      calc 2 ^ 52 * spacing n = 2 ^ n.log2 * 2 ^ (52 - n.log2) := by
            unfold spacing
            rw [← Nat.pow_add, ← Nat.pow_add]
            congr 1
            omega
        _ ≤ n * 2 ^ (52 - n.log2) := Nat.mul_le_mul_right _ hlow
    · rw [Nat.div_lt_iff_lt_mul (spacing_pos n)]
      calc n * 2 ^ (52 - n.log2) < 2 ^ (n.log2 + 1) * 2 ^ (52 - n.log2) :=
            Nat.mul_lt_mul_of_pos_right hhigh (Nat.two_pow_pos _)
        _ = 2 ^ 53 * spacing n := by
            unfold spacing
            rw [← Nat.pow_add, ← Nat.pow_add]
            congr 1
            omega
  unfold mantissaOf
  omega

theorem magnitude_double {n : Nat} (h : n ≠ 0) (hlog : n.log2 ≤ 1000) :
    double.magnitude n 1 = (n.log2 + 1022) * 2 ^ 52 + mantissaOf n := by
  have hplace : max (floorLog2 n 1 - double.fractionBits) double.leastExponent = n.log2 - 52 := by
    rw [floorLog2_one h]
    show max ((n.log2 : Int) - 52) (-1074) = n.log2 - 52
    omega
  have hdown : (-((n.log2 : Int) - 52)).toNat = 52 - n.log2 := by omega
  have hup : ((n.log2 : Int) - 52).toNat = n.log2 - 52 := by omega
  have hfield : ((n.log2 : Int) - 52 - double.leastExponent).toNat = n.log2 + 1022 := by
    show ((n.log2 : Int) - 52 - (-1074)).toNat = n.log2 + 1022
    omega
  have hmantissa := (mantissaOf_bounds h).2
  unfold BinaryFormat.magnitude
  simp only [h, if_false, hplace, hdown, hup, hfield, Nat.one_mul]
  show min ((n.log2 + 1022) * 2 ^ 52 + mantissaOf n) (2047 * 2 ^ 52) = _
  omega

/-! ## Values -/

theorem towardZero_natCast (negative : Bool) (m k : Nat) :
    towardZero negative m k = if negative then -((m * 2 ^ k : Nat) : Int) else (m * 2 ^ k : Nat) := by
  have hdown : (-(k : Int)).toNat = 0 := by omega
  have hvalue : m * Nat.pow 2 (k : Int).toNat / Nat.pow 2 (-(k : Int)).toNat = m * 2 ^ k := by
    rw [hdown, Int.toNat_natCast]
    exact Nat.div_one _
  unfold towardZero
  rw [hvalue]

/-- Below the spacing 1 the mantissa has places behind the point, which are all zero. -/
theorem towardZero_shifted (negative : Bool) (m k : Nat) :
    towardZero negative (m * 2 ^ k) (-(k : Int)) = if negative then -(m : Int) else m := by
  have hup : (-(k : Int)).toNat = 0 := by omega
  have hdown : (- -(k : Int)).toNat = k := by omega
  have hvalue : m * 2 ^ k * Nat.pow 2 (-(k : Int)).toNat / Nat.pow 2 (- -(k : Int)).toNat = m := by
    rw [hup, hdown]
    show m * 2 ^ k * 1 / 2 ^ k = m
    rw [Nat.mul_one, Nat.mul_div_cancel _ (Nat.two_pow_pos k)]
  unfold towardZero
  rw [hvalue]

theorem towardZero_zero (negative : Bool) (q : Int) : towardZero negative 0 q = 0 := by
  unfold towardZero
  rw [Nat.zero_mul, Nat.zero_div]
  cases negative <;> rfl

theorem roundQuotient_one (tie : Tie) (n : Nat) : roundQuotient tie n 1 = n := by
  rw [roundQuotient_of_dvd tie (by decide) (Nat.one_dvd n), Nat.div_one]

section Nearest

variable (negative : Bool) {n : Nat} (hne : n ≠ 0)

include hne

theorem nearest_eq (hlog : n.log2 ≤ 1000) : double.nearest negative n 1 =
    double.signed negative ((n.log2 + 1022) * 2 ^ 52 + mantissaOf n) := by
  unfold BinaryFormat.nearest
  rw [magnitude_double hne hlog]

/-- Up to 53 bits the mantissa is shifted and holds the integer exactly. -/
theorem decode_nearest_small (hlog : n.log2 < 53) :
    ∃ m q, double.decode (double.nearest negative n 1) = .finite negative m q ∧
      towardZero negative m q =
        if negative then -(nearestMultiple n : Int) else nearestMultiple n := by
  have hspacing : spacing n = 1 := by
    unfold spacing
    rw [show n.log2 - 52 = 0 by omega, Nat.pow_zero]
  have hexact : mantissaOf n = n * 2 ^ (52 - n.log2) := by
    unfold mantissaOf
    rw [hspacing, roundQuotient_one]
  have hkept : nearestMultiple n = n := by
    unfold nearestMultiple
    rw [hspacing, roundQuotient_one, Nat.mul_one]
  have hbelow : mantissaOf n < 2 ^ 53 := by
    have hbound : n < 2 ^ (n.log2 + 1) := Nat.lt_log2_self
    rw [hexact]
    calc n * 2 ^ (52 - n.log2) < 2 ^ (n.log2 + 1) * 2 ^ (52 - n.log2) :=
          Nat.mul_lt_mul_of_pos_right hbound (Nat.two_pow_pos _)
      _ = 2 ^ 53 := by
          rw [← Nat.pow_add]
          congr 1
          omega
  have hplace : ((n.log2 + 1022 : Nat) : Int) - 1074 = -((52 - n.log2 : Nat) : Int) := by omega
  rw [nearest_eq negative hne (by omega)]
  refine ⟨_, _, decode_normal negative (mantissaOf_bounds hne).1 hbelow (by omega), ?_⟩
  rw [hplace, hexact, towardZero_shifted, hkept]

/-- Beyond 53 bits the mantissa counts multiples of the spacing. -/
theorem decode_nearest_scaled (hlog : 53 ≤ n.log2 ∧ n.log2 ≤ 1000) :
    ∃ m k : Nat, double.decode (double.nearest negative n 1) = .finite negative m k ∧
      m * 2 ^ k = nearestMultiple n := by
  have hmantissa := mantissaOf_bounds hne
  have hmultiple : mantissaOf n * 2 ^ (n.log2 - 52) = nearestMultiple n := by
    unfold mantissaOf nearestMultiple
    rw [show 52 - n.log2 = 0 by omega, Nat.pow_zero, Nat.mul_one]
    rfl
  rw [nearest_eq negative hne hlog.2]
  rcases Nat.lt_or_ge (mantissaOf n) (2 ^ 53) with hbelow | hcarry
  · have hplace : ((n.log2 + 1022 : Nat) : Int) - 1074 = ((n.log2 - 52 : Nat) : Int) := by omega
    refine ⟨mantissaOf n, n.log2 - 52, ?_, hmultiple⟩
    rw [decode_normal negative hmantissa.1 hbelow (by omega), hplace]
  · -- The mantissa was rounded up to the next power of two and carries.
    have htop : mantissaOf n = 2 ^ 53 := Nat.le_antisymm hmantissa.2 hcarry
    have hbits : (n.log2 + 1022) * 2 ^ 52 + mantissaOf n = (n.log2 + 1023) * 2 ^ 52 + 2 ^ 52 := by
      omega
    have hplace : ((n.log2 + 1023 : Nat) : Int) - 1074 = ((n.log2 - 51 : Nat) : Int) := by omega
    have hshift : 2 ^ 52 * 2 ^ (n.log2 - 51) = 2 ^ 53 * 2 ^ (n.log2 - 52) := by
      rw [show n.log2 - 51 = n.log2 - 52 + 1 by omega, Nat.pow_succ]
      omega
    refine ⟨2 ^ 52, n.log2 - 51, ?_, by rw [hshift, ← htop, hmultiple]⟩
    rw [hbits, decode_normal negative (by decide) (by decide) (by omega), hplace]

theorem decode_nearest_large (hlog : 53 ≤ n.log2 ∧ n.log2 ≤ 1000) :
    ∃ m q, double.decode (double.nearest negative n 1) = .finite negative m q ∧
      towardZero negative m q =
        if negative then -(nearestMultiple n : Int) else nearestMultiple n := by
  obtain ⟨m, k, hdecode, hvalue⟩ := decode_nearest_scaled negative hne hlog
  exact ⟨m, k, hdecode, by rw [towardZero_natCast, hvalue]⟩

end Nearest

/-- The pattern nearest to an integer denotes the nearest multiple of the spacing. -/
theorem decode_nearest (negative : Bool) {n : Nat} (hlog : n.log2 ≤ 1000) :
    ∃ m q, double.decode (double.nearest negative n 1) = .finite negative m q ∧
      towardZero negative m q =
        if negative then -(nearestMultiple n : Int) else nearestMultiple n := by
  by_cases hzero : n = 0
  · subst hzero
    cases negative
    · exact ⟨0, -1074, rfl, towardZero_zero false (-1074)⟩
    · exact ⟨0, -1074, rfl, towardZero_zero true (-1074)⟩
  · rcases Nat.lt_or_ge n.log2 53 with hsmall | hlarge
    · exact decode_nearest_small negative hzero hsmall
    · exact decode_nearest_large negative hzero ⟨hlarge, hlog⟩

theorem nearest_lt (negative : Bool) (num den : Nat) : double.nearest negative num den < 2 ^ 64 := by
  have hmagnitude : double.magnitude num den ≤ 2047 * 2 ^ 52 := by
    unfold BinaryFormat.magnitude
    split
    · exact Nat.zero_le _
    · exact Nat.min_le_right _ _
  unfold BinaryFormat.nearest
  rw [signed_double]
  split <;> omega

theorem decode_ofInt (n : Int) :
    (Binary64.ofInt n).decode = double.decode (double.nearest (decide (n < 0)) n.natAbs 1) := by
  unfold Binary64.ofInt Binary64.ofRatio Binary64.decode
  rw [UInt64.toNat_ofNat', Nat.mod_eq_of_lt (nearest_lt _ _ _)]

/-- The double nearest to an integer, as a 64-bit integer again. -/
theorem toInteger_ofInt {n : Int} (h : n.natAbs.log2 ≤ 1000) :
    (Binary64.ofInt n).toInteger = max Int64.least (min Int64.greatest
      (if n < 0 then -(nearestMultiple n.natAbs : Int) else nearestMultiple n.natAbs)) := by
  obtain ⟨m, q, hdecode, hvalue⟩ := decode_nearest (decide (n < 0)) h
  unfold Binary64.toInteger
  rw [decode_ofInt, hdecode]
  simp only [hvalue, decide_eq_true_eq]

theorem toInteger_bounds (x : Binary64) :
    Int64.least ≤ x.toInteger ∧ x.toInteger ≤ Int64.greatest := by
  have hends : Int64.least ≤ Int64.greatest := by decide
  unfold Binary64.toInteger
  split
  · decide
  · split
    · exact ⟨Int.le_refl _, hends⟩
    · exact ⟨hends, Int.le_refl _⟩
  · omega

theorem nearestMultiple_le_of_int64 {n : Nat} (h : n ≤ 2 ^ 63) : nearestMultiple n ≤ 2 ^ 63 := by
  rcases Nat.eq_or_lt_of_le h with rfl | hlt
  · have hscaled : IsScaled (2 ^ 63) := ⟨1, 63, by decide, by decide⟩
    exact Nat.le_of_eq (nearestMultiple_eq_iff.mpr hscaled)
  · exact nearestMultiple_le hlt

theorem log2_le_of_int64 {n : Nat} (h : n ≤ 2 ^ 63) : n.log2 ≤ 1000 := by
  by_cases hzero : n = 0
  · rw [hzero]
    decide
  · have hlog : n.log2 < 64 := (Nat.log2_lt hzero).mpr (by omega)
    omega

/-- A 64-bit integer that was made a double is read back exactly if a double can hold it. The
greatest one is rounded up, out of the range, and is taken for the end of the range. -/
theorem toInteger_ofInt_eq_iff {n : Int} (h : Int64.least ≤ n ∧ n ≤ Int64.greatest) :
    (Binary64.ofInt n).toInteger = n ↔ n = Int64.greatest ∨ IsScaled n.natAbs := by
  have hleast : Int64.least = -2 ^ 63 := rfl
  have hgreatest : Int64.greatest = 2 ^ 63 - 1 := rfl
  have hmagnitude : n.natAbs ≤ 2 ^ 63 := by omega
  have hrounded := nearestMultiple_le_of_int64 hmagnitude
  rw [toInteger_ofInt (log2_le_of_int64 hmagnitude), ← nearestMultiple_eq_iff]
  by_cases hnegative : n < 0
  · rw [if_pos hnegative]
    omega
  · rw [if_neg hnegative]
    by_cases hgreat : n = Int64.greatest
    · have hvalue : n.natAbs = 2 ^ 63 - 1 := by omega
      have htop : nearestMultiple (2 ^ 63 - 1) = 2 ^ 63 := by decide
      rw [hvalue, htop]
      omega
    · omega

end RecordMapper.Number
