import RecordMapper.Number.Layout

/-!
Bit patterns of floating-point numbers.

* `BinaryFormat.pattern_decode`: a bit pattern is found again from what it denotes, unless that is
  no number.
* `Binary32.sameNumber_cases`, `Binary64.sameNumber_cases`: equal numbers have one pattern, or they
  are the two zeros. The zeros have two texts (`write_jsonNumber_zero`).
-/
namespace RecordMapper.Number

set_option autoImplicit false

/-! ## Formats -/

def Decoded.isZero : Decoded → Bool
  | .finite _ m _ => m == 0
  | _ => false

theorem Decoded.sameNumber_cases {x y : Decoded} (h : x.sameNumber y = true) :
    x = y ∧ x ≠ .nan ∨ ∃ a q b p, x = .finite a 0 q ∧ y = .finite b 0 p := by
  cases x with
  | nan => cases h
  | infinite a =>
    cases y with
    | infinite b => exact .inl ⟨congrArg _ (eq_of_beq h), nofun⟩
    | nan => cases h
    | finite b n p => cases h
  | finite a m q =>
    cases y with
    | finite b n p =>
      simp only [sameNumber, Bool.or_eq_true, Bool.and_eq_true, beq_iff_eq] at h
      rcases h with ⟨rfl, rfl⟩ | ⟨⟨rfl, rfl⟩, rfl⟩
      · exact .inr ⟨a, q, b, p, rfl, rfl⟩
      · exact .inl ⟨rfl, nofun⟩
    | nan => cases h
    | infinite b => cases h

namespace BinaryFormat

variable (F : BinaryFormat) {bits bits' : Nat}

/-- The pattern of a number of the format, from its sign, mantissa and exponent. -/
def pattern : Decoded → Nat
  | .nan => F.quiet
  | .infinite negative => F.signed negative F.infinity
  | .finite negative mantissa exponent => F.signed negative
      ((exponent - F.leastExponent).toNat * Nat.pow 2 F.fractionBits + mantissa)

/-- A pattern is the sign, the exponent field and the fraction field. -/
theorem signed_fields (h : bits < 2 * F.signWeight) :
    F.signed (decide (F.signWeight ≤ bits))
      (bits / Nat.pow 2 F.fractionBits % Nat.pow 2 F.exponentBits * Nat.pow 2 F.fractionBits +
        bits % Nat.pow 2 F.fractionBits) = bits := by
  have hweight : F.signWeight = Nat.pow 2 F.fractionBits * Nat.pow 2 F.exponentBits :=
    Nat.pow_add 2 F.fractionBits F.exponentBits
  have hfields : bits / Nat.pow 2 F.fractionBits % Nat.pow 2 F.exponentBits *
      Nat.pow 2 F.fractionBits + bits % Nat.pow 2 F.fractionBits = bits % F.signWeight := by
    rw [hweight, Nat.mod_mul, Nat.mul_comm, Nat.add_comm]
  rw [hfields, signed]
  by_cases hnegative : F.signWeight ≤ bits
  · rw [decide_eq_true hnegative, if_pos rfl, Nat.mod_eq_sub_mod hnegative,
      Nat.mod_eq_of_lt (by omega)]
    omega
  · rw [decide_eq_false hnegative, if_neg Bool.false_ne_true, Nat.mod_eq_of_lt (by omega)]

theorem pattern_decode (h : bits < 2 * F.signWeight) (hnan : F.decode bits ≠ .nan) :
    F.pattern (F.decode bits) = bits := by
  have hfields := F.signed_fields h
  unfold decode at hnan ⊢
  dsimp only at hnan ⊢
  split at hnan
  · next htop =>
    split at hnan
    · next hzero =>
      rw [if_pos htop, if_pos hzero]
      rwa [htop, hzero] at hfields
    · exact absurd rfl hnan
  · next htop =>
    rw [if_neg htop]
    split
    · next hleast =>
      rw [hleast] at hfields
      rw [pattern, Int.sub_self]
      exact hfields
    · next hleast =>
      -- The leading bit of the mantissa stands for one in the exponent field.
      obtain ⟨k, hk⟩ := Nat.exists_eq_succ_of_ne_zero hleast
      have hplace : (F.leastExponent + ((k.succ : Nat) - 1 : Int) - F.leastExponent).toNat = k := by
        omega
      rw [hk, Nat.succ_mul, Nat.add_assoc] at hfields
      rwa [hk, pattern, hplace]

theorem exponent_of_decode_zero {negative : Bool} {q : Int}
    (h : F.decode bits = .finite negative 0 q) : q = F.leastExponent := by
  have hpositive : 0 < Nat.pow 2 F.fractionBits := Nat.pow_pos (by decide)
  unfold decode at h
  dsimp only at h
  split at h
  · split at h <;> cases h
  · split at h
    · exact (Decoded.finite.inj h).2.2.symm
    · have hmantissa := (Decoded.finite.inj h).2.1
      omega

variable {F}

theorem bits_of_decode (hbits : bits < 2 * F.signWeight) (hbits' : bits' < 2 * F.signWeight)
    (h : F.decode bits = F.decode bits') (hnan : F.decode bits ≠ .nan) : bits = bits' := by
  have hpattern := F.pattern_decode hbits hnan
  rw [h] at hpattern hnan
  exact hpattern.symm.trans (F.pattern_decode hbits' hnan)

theorem bits_or_zeros (hbits : bits < 2 * F.signWeight) (hbits' : bits' < 2 * F.signWeight)
    (h : (F.decode bits).sameNumber (F.decode bits') = true) :
    bits = bits' ∨ ∃ negative q, F.decode bits = .finite negative 0 q ∧
      F.decode bits' = .finite (!negative) 0 q := by
  rcases Decoded.sameNumber_cases h with ⟨heq, hnan⟩ | ⟨a, q, b, p, hx, hy⟩
  · exact .inl (bits_of_decode hbits hbits' heq hnan)
  · obtain rfl := F.exponent_of_decode_zero hx
    obtain rfl := F.exponent_of_decode_zero hy
    by_cases hsign : b = a
    · subst hsign
      exact .inl (bits_of_decode hbits hbits' (hx.trans hy.symm) (by rw [hx]; exact nofun))
    · obtain rfl := Bool.eq_not.mpr hsign
      exact .inr ⟨a, F.leastExponent, hx, hy⟩

end BinaryFormat

/-! ## The two formats in use -/

theorem Binary32.sameNumber_cases {x y : Binary32} (h : x.sameNumber y = true) :
    x = y ∨ ∃ negative q, x.decode = .finite negative 0 q ∧ y.decode = .finite (!negative) 0 q := by
  rcases single.bits_or_zeros x.bits.toNat_lt y.bits.toNat_lt h with hbits | hzeros
  · exact .inl (congrArg Binary32.mk (UInt32.toNat_inj.mp hbits))
  · exact .inr hzeros

theorem Binary64.sameNumber_cases {x y : Binary64} (h : x.sameNumber y = true) :
    x = y ∨ ∃ negative q, x.decode = .finite negative 0 q ∧ y.decode = .finite (!negative) 0 q := by
  rcases double.bits_or_zeros x.bits.toNat_lt y.bits.toNat_lt h with hbits | hzeros
  · exact .inl (congrArg Binary64.mk (UInt64.toNat_inj.mp hbits))
  · exact .inr hzeros

/-- A zero stays a zero in the wider format. -/
theorem decode_widen_zero {x : Binary32} {negative : Bool} {q : Int}
    (h : x.decode = .finite negative 0 q) : x.widen.decode = .finite negative 0 (-1074) := by
  have hbits : double.encode (.finite negative 0 q) = double.signed negative 0 := by
    show double.nearest negative (0 * _) _ = _
    rw [Nat.zero_mul]
    rfl
  unfold Binary32.widen Binary64.ofDecoded Binary64.decode
  rw [h, hbits]
  cases negative <;> rfl

theorem write_jsonNumber_zero {x : Binary64} {negative : Bool} {q : Int}
    (h : x.decode = .finite negative 0 q) :
    jsonNumber.write x = (if negative then ['-'] else []) ++ ['0', '.', '0'] := by
  unfold FloatLayout.write
  rw [h]
  rfl

end RecordMapper.Number
