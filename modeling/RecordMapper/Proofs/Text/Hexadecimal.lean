import Mathlib.Data.List.Induction
import RecordMapper.Proofs.Text

/-!
Numerals in hexadecimal digits.

* `hexValue` is the number that lower-case hexadecimal digits spell.
* `hexValue_hexPlaces` and `hexPlaces_hexValue`: on a given number of places each number has one
  spelling.
* `hexBytes_injective`: bytes are told by their pairs of digits.
-/
namespace RecordMapper.Text

set_option autoImplicit false

/-! ## Digits -/

def hexDigits : List Char :=
  ['0', '1', '2', '3', '4', '5', '6', '7', '8', '9', 'a', 'b', 'c', 'd', 'e', 'f']

def hexDigitValue (c : Char) : Nat := hexDigits.idxOf c

theorem hexChar_spec : ∀ d < 16, hexChar d ∈ hexDigits ∧ hexDigitValue (hexChar d) = d := by
  decide

theorem hexDigit_spec {c : Char} (h : c ∈ hexDigits) :
    hexDigitValue c < 16 ∧ hexChar (hexDigitValue c) = c := by
  have hdigits : hexDigits = (List.range 16).map hexChar := by decide
  rw [hdigits] at h
  obtain ⟨d, hd, rfl⟩ := List.mem_map.mp h
  have hbound := List.mem_range.mp hd
  rw [(hexChar_spec d hbound).2]
  exact ⟨hbound, rfl⟩

theorem hexChar_mod (n : Nat) : hexChar (n % 16) = hexChar n := by
  unfold hexChar
  rw [Nat.mod_mod]

/-! ## Numerals -/

/-- The number whose hexadecimal digits, most significant first, are `cs`. -/
def hexValue (cs : List Char) : Nat := cs.foldl (fun n c => 16 * n + hexDigitValue c) 0

theorem hexValue_concat (cs : List Char) (c : Char) :
    hexValue (cs ++ [c]) = 16 * hexValue cs + hexDigitValue c := by
  simp [hexValue]

@[simp] theorem length_hexPlaces (width n : Nat) : (hexPlaces width n).length = width := by
  induction width generalizing n with
  | zero => rfl
  | succ width ih => simp [hexPlaces, ih]

theorem mem_hexDigits_of_mem_hexPlaces {width n : Nat} {c : Char} (h : c ∈ hexPlaces width n) :
    c ∈ hexDigits := by
  induction width generalizing n with
  | zero => exact absurd h List.not_mem_nil
  | succ width ih =>
    obtain hfront | hlast := List.mem_append.mp h
    · exact ih hfront
    · rw [List.mem_singleton.mp hlast, ← hexChar_mod]
      exact (hexChar_spec _ (Nat.mod_lt n (by decide))).1

theorem hexValue_hexPlaces {width n : Nat} (h : n < 16 ^ width) :
    hexValue (hexPlaces width n) = n := by
  induction width generalizing n with
  | zero =>
    have hzero : n = 0 := by simpa using h
    rw [hzero]
    rfl
  | succ width ih =>
    have hfront : hexValue (hexPlaces width (n / 16)) = n / 16 :=
      ih (Nat.div_lt_of_lt_mul (by rwa [Nat.mul_comm, ← Nat.pow_succ]))
    have hlast : hexDigitValue (hexChar n) = n % 16 := by
      rw [← hexChar_mod]
      exact (hexChar_spec _ (Nat.mod_lt n (by decide))).2
    rw [hexPlaces, hexValue_concat, hfront, hlast]
    omega

/-- A number has no other spelling on as many places. -/
theorem hexPlaces_hexValue {cs : List Char} (h : ∀ c ∈ cs, c ∈ hexDigits) :
    hexPlaces cs.length (hexValue cs) = cs := by
  induction cs using List.reverseRecOn with
  | nil => rfl
  | append_singleton cs c ih =>
    obtain ⟨hfront, hlast⟩ := List.forall_mem_append.mp h
    obtain ⟨hvalue, hchar⟩ := hexDigit_spec (hlast c (List.mem_singleton_self c))
    have hrest : (16 * hexValue cs + hexDigitValue c) / 16 = hexValue cs := by omega
    have hdigit : (16 * hexValue cs + hexDigitValue c) % 16 = hexDigitValue c := by omega
    rw [hexValue_concat, List.length_append, List.length_singleton, hexPlaces, hrest, ih hfront,
      ← hexChar_mod, hdigit, hchar]

theorem hexPlaces_injective {width m n : Nat} (hm : m < 16 ^ width) (hn : n < 16 ^ width)
    (h : hexPlaces width m = hexPlaces width n) : m = n := by
  rw [← hexValue_hexPlaces hm, h, hexValue_hexPlaces hn]

/-! ## Bytes -/

theorem hexBytes_injective {as bs : List UInt8} (h : hexBytes as = hexBytes bs) : as = bs := by
  unfold hexBytes at h
  induction as generalizing bs with
  | nil =>
    cases bs with
    | nil => rfl
    | cons b bs => simp [hexPlaces] at h
  | cons a as ih =>
    cases bs with
    | nil => simp [hexPlaces] at h
    | cons b bs =>
      rw [List.flatMap_cons, List.flatMap_cons] at h
      obtain ⟨hfirst, hrest⟩ := List.append_inj h (by simp)
      have hbyte : a = b := UInt8.toNat_inj.mp
        (hexPlaces_injective (UInt8.toNat_lt a) (UInt8.toNat_lt b) hfirst)
      rw [hbyte, ih hrest]

end RecordMapper.Text
