import RecordMapper.Json.Reader
import RecordMapper.Json.Text
import RecordMapper.Proofs.Text.Hexadecimal

/-!
Strings in JSON text.

`readString_quoted`: a quoted string is read back, whatever characters it has, and so no two strings
are written alike.
-/
namespace RecordMapper.Json

set_option autoImplicit false

open RecordMapper.Text

theorem hexDigit?_hexChar (n : Nat) : hexDigit? (hexChar n) = some (n % 16) := by
  have hdigits : ∀ d < 16, hexDigit? (hexChar d) = some d := by decide
  rw [← hexChar_mod, hdigits _ (Nat.mod_lt n (by decide))]

theorem readHex4_hexPlaces {n : Nat} (h : n < 65536) (rest : List Char) :
    readHex4 (hexPlaces 4 n ++ rest) = some (n, rest) := by
  have hvalue :
      ((n / 16 / 16 / 16 % 16 * 16 + n / 16 / 16 % 16) * 16 + n / 16 % 16) * 16 + n % 16 = n := by
    omega
  simp [hexPlaces, readHex4, hexDigit?_hexChar, hvalue]

/-- One character is read from its escape. -/
theorem readString_escape (c : Char) (fuel : Nat) (done rest : List Char) :
    readString (fuel + 1) done (escape c ++ rest) = readString fuel (c :: done) rest := by
  unfold escape
  split
  · rfl
  · rfl
  · rfl
  · rfl
  · rfl
  · rfl
  · rfl
  · next hquote hbackslash _ _ _ _ _ =>
    split
    · next hcontrol =>
      have hunit : readEscape ('u' :: (hexPlaces 4 c.toNat ++ rest)) = some (c, rest) := by
        have hlow : ¬(0xDC00 ≤ c.toNat ∧ c.toNat ≤ 0xDFFF) := by omega
        have hhigh : ¬(0xD800 ≤ c.toNat ∧ c.toNat ≤ 0xDBFF) := by omega
        simp only [readEscape, readUnit, readHex4_hexPlaces (show c.toNat < 65536 by omega),
          Option.bind_eq_bind, Option.bind_some, if_neg hlow, if_neg hhigh, Char.ofNat_toNat]
      simp only [List.cons_append, List.nil_append, readString, hunit, Option.bind_eq_bind,
        Option.bind_some]
    · next hplain =>
      rw [List.singleton_append, readString, if_neg hplain]
      · exact hquote
      · exact hbackslash

theorem readString_quoted (cs : List Char) (fuel : Nat) (done rest : List Char) :
    readString (fuel + 1 + cs.length) done (cs.flatMap escape ++ '"' :: rest) =
      some (String.ofList (done.reverse ++ cs), rest) := by
  induction cs generalizing done with
  | nil => simp [readString]
  | cons c cs ih =>
    rw [List.flatMap_cons, List.append_assoc, List.length_cons, ← Nat.add_assoc, readString_escape,
      ih, List.reverse_cons, List.append_assoc, List.singleton_append]

theorem quoted_injective {s t : String} (h : quoted s = quoted t) : s = t := by
  have hread : ∀ (u : String) (fuel : Nat),
      readString (fuel + 1 + u.toList.length) [] (u.toList.flatMap escape ++ ['"']) =
        some (u, []) := by
    intro u fuel
    rw [readString_quoted, List.reverse_nil, List.nil_append, String.ofList_toList]
  have hchars : s.toList.flatMap escape ++ ['"'] = t.toList.flatMap escape ++ ['"'] := by
    simpa [quoted] using h
  have hs := hread s t.toList.length
  have ht := hread t s.toList.length
  have hfuel : t.toList.length + 1 + s.toList.length = s.toList.length + 1 + t.toList.length := by
    omega
  rw [hchars, hfuel, ht] at hs
  exact (congrArg Prod.fst (Option.some.inj hs)).symm

end RecordMapper.Json
