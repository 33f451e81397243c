import RecordMapper.Number.Reader
import RecordMapper.Proofs.Text

/-!
Reading the numerals of integers.

* `readInt64_intChars`: a numeral is read as the integer it was written for.
* `readBinary64_intChars`: read as a floating-point number it gives the one nearest to the integer.
-/
namespace RecordMapper.Number

set_option autoImplicit false

open RecordMapper.Text

/-! ## Signs -/

theorem splitSign_of_digit {c : Char} (h : c.isDigit = true) (rest : List Char) :
    splitSign (c :: rest) = (false, c :: rest) := by
  unfold splitSign
  split
  · next heq =>
    cases heq
    cases h
  · next heq =>
    cases heq
    cases h
  · rfl

/-- The first character of a numeral without its sign is a digit. -/
theorem exists_natChars_cons (n : Nat) :
    ∃ c rest, natChars n = c :: rest ∧ c.isDigit = true :=
  exists_digit_cons (fun _ hc => isDigit_of_mem_natChars hc) (natChars_ne_nil n)

theorem splitSign_intChars (n : Int) :
    splitSign (intChars n) = (decide (n < 0), natChars n.natAbs) := by
  unfold intChars
  split
  · next hnegative => rw [decide_eq_true hnegative, splitSign]
  · next hnegative =>
    obtain ⟨c, rest, hcons, hc⟩ := exists_natChars_cons n.natAbs
    rw [decide_eq_false hnegative, hcons, splitSign_of_digit hc]

/-- No character of a numeral is a blank. -/
theorem isBlank_of_mem_intChars {n : Int} {c : Char} (h : c ∈ intChars n) : isBlank c = false := by
  have hdigits : ∀ {m : Nat}, c ∈ natChars m → isBlank c = false :=
    fun hc => isBlank_of_isDigit (isDigit_of_mem_natChars hc)
  unfold intChars at h
  split at h
  · rcases List.mem_cons.mp h with rfl | h
    · decide
    · exact hdigits h
  · exact hdigits h

/-! ## Integers -/

theorem readInt_intChars (n : Int) : readInt (intChars n) = some n := by
  have hvalue : (if n < 0 then -(n.natAbs : Int) else n.natAbs) = n := by omega
  unfold readInt
  rw [splitSign_intChars]
  simp only [readNat_natChars, decide_eq_true_eq]
  exact congrArg some hvalue

theorem readInt64_intChars {n : Int} (h : Int64.least ≤ n ∧ n ≤ Int64.greatest) :
    readInt64 (intChars n) = some n := by
  unfold readInt64
  rw [readInt_intChars, Option.bind_some, if_pos h]

/-! ## Floating-point numbers -/

/-- Zeros in front do not count. -/
theorem foldDigits_dropZeros (cs : List Char) :
    foldDigits 0 (cs.dropWhile (· == '0')) = foldDigits 0 cs := by
  induction cs with
  | nil => rfl
  | cons c rest ih =>
    rw [List.dropWhile_cons]
    split
    · next hzero =>
      rw [ih, eq_of_beq hzero]
      rfl
    · rfl

/-- A run of digits, of which not too many count, spells a number that is rounded once. -/
theorem ofDecimalDigits_whole {digits : List Char} (negative : Bool) (h : digits.length ≤ 310) :
    ofDecimalDigits negative digits 0 = .ofRatio negative (foldDigits 0 digits) 1 := by
  unfold ofDecimalDigits
  cases digits with
  | nil => rfl
  | cons c rest =>
    rw [if_neg (by simp), if_neg (by omega), if_neg (by omega)]
    simp

theorem readUnsigned_digits {digits : List Char} (negative : Bool) (hne : digits ≠ [])
    (hdigits : ∀ c ∈ digits, c.isDigit = true) (hlength : digits.length ≤ 310) :
    readUnsigned negative digits = some (.ofRatio negative (foldDigits 0 digits) 1) := by
  have hnonempty : digits.isEmpty = false := List.isEmpty_eq_false_iff.mpr hne
  have hshort : (digits.dropWhile (· == '0')).length ≤ 310 :=
    Nat.le_trans (List.dropWhile_sublist _).length_le hlength
  unfold readUnsigned
  rw [takeWhile_digits hdigits, dropWhile_digits hdigits]
  simp only [List.append_nil, hnonempty, Bool.false_and, Bool.false_eq_true, if_false,
    List.length_nil, Int.ofNat_zero, Int.neg_zero]
  rw [ofDecimalDigits_whole negative hshort, foldDigits_dropZeros]

theorem toLower_of_isDigit {c : Char} (h : c.isDigit = true) : c.toLower = c := by
  have hrange : 48 ≤ c.toNat ∧ c.toNat ≤ 57 := Char.isDigit_iff_toNat.mp h
  refine dif_neg fun hupper => ?_
  have hleast : 65 ≤ c.toNat := UInt32.le_iff_toNat_le.mp hupper.1
  omega

/-- What begins with a digit is none of the words for an infinity or for what is not a number. -/
theorem readBinary64_unsigned {cs rest : List Char} {c : Char} {negative : Bool}
    (h : splitSign cs = (negative, c :: rest)) (hc : c.isDigit = true) :
    readBinary64 cs = readUnsigned negative (c :: rest) := by
  have hword : ∀ {d : Char} {ds : List Char}, d.isDigit = false →
      String.ofList ((c :: rest).map Char.toLower) ≠ String.ofList (d :: ds) := by
    intro d ds hd heq
    have hlower : c.toLower = d := (List.cons.inj (String.ofList_injective heq)).1
    rw [← hlower, toLower_of_isDigit hc, hc] at hd
    cases hd
  unfold readBinary64
  rw [h]
  simp only
  rw [if_neg, if_neg]
  · exact hword (d := 'n') rfl
  · rintro (hinf | hinf)
    · exact hword (d := 'i') rfl hinf
    · exact hword (d := 'i') rfl hinf

theorem readBinary64_intChars {n : Int} (h : (natChars n.natAbs).length ≤ 310) :
    readBinary64 (intChars n) = some (.ofInt n) := by
  obtain ⟨c, rest, hcons, hc⟩ := exists_natChars_cons n.natAbs
  have hsplit : splitSign (intChars n) = (decide (n < 0), c :: rest) := by
    rw [splitSign_intChars, hcons]
  rw [readBinary64_unsigned hsplit hc, ← hcons,
    readUnsigned_digits _ (natChars_ne_nil _) (fun c hc => isDigit_of_mem_natChars hc) h,
    foldDigits_natChars]
  rfl

end RecordMapper.Number
