import Mathlib.Data.List.Flatten
import RecordMapper.Proofs.Number.Numerals
import RecordMapper.Proofs.Text.Hexadecimal
import RecordMapper.Value.Key

/-!
Keys of identifiers.

* `Uuid.IsHyphenated` is the written form of a UUID; each has exactly one.
* `Identity` is what truth values, integers, decimals, texts, bytes and UUIDs stand for when rows
  are matched, and `Value.Denotes` says which value stands for what.
* `key_eq_iff_denote_same`: two such values have one key exactly if they stand for the same.
-/
namespace RecordMapper

set_option autoImplicit false

open RecordMapper.Number RecordMapper.Text

/-! ## Written UUIDs -/

namespace Uuid

/-- Five groups of lower-case hexadecimal digits that spell the number. -/
structure IsGrouped (id : Uuid) (groups : List (List Char)) : Prop where
  lengths : groups.map List.length = [8, 4, 4, 4, 12]
  digits : ∀ c ∈ groups.flatten, c ∈ hexDigits
  value : hexValue groups.flatten = id.number.toNat

/-- The groups with hyphens between them. -/
def IsHyphenated (id : Uuid) (cs : List Char) : Prop :=
  ∃ groups, id.IsGrouped groups ∧ cs = joinWith ['-'] groups

theorem IsGrouped.flatten_eq {id : Uuid} {groups : List (List Char)} (h : id.IsGrouped groups) :
    groups.flatten = hexPlaces 32 id.number.toNat := by
  have hlength : groups.flatten.length = 32 := by
    rw [List.length_flatten, h.lengths]
    rfl
  rw [← h.value, ← hlength, hexPlaces_hexValue h.digits]

theorem IsGrouped.unique {id : Uuid} {groups groups' : List (List Char)} (h : id.IsGrouped groups)
    (h' : id.IsGrouped groups') : groups = groups' :=
  List.eq_iff_flatten_eq.mpr
    ⟨h.flatten_eq.trans h'.flatten_eq.symm, h.lengths.trans h'.lengths.symm⟩

/-- The groups that are written. -/
def groups (id : Uuid) : List (List Char) :=
  let digits := hexPlaces 32 id.number.toNat
  [digits.take 8, (digits.drop 8).take 4, (digits.drop 12).take 4, (digits.drop 16).take 4,
    digits.drop 20]

theorem flatten_groups (id : Uuid) : id.groups.flatten = hexPlaces 32 id.number.toNat := by
  unfold groups
  generalize hexPlaces 32 id.number.toNat = digits
  have hsplit : ∀ k n, digits.drop k = (digits.drop k).take n ++ digits.drop (k + n) := by
    intro k n
    rw [← List.drop_drop, List.take_append_drop]
  simp only [List.flatten_cons, List.flatten_nil, List.append_nil]
  rw [← hsplit 16 4, ← hsplit 12 4, ← hsplit 8 4, List.take_append_drop]

theorem isGrouped_groups (id : Uuid) : id.IsGrouped id.groups where
  lengths := by simp [groups]
  digits c hc := by
    rw [flatten_groups] at hc
    exact mem_hexDigits_of_mem_hexPlaces hc
  value := by
    have hbound : id.number.toNat < 16 ^ 32 :=
      Nat.lt_of_lt_of_eq id.number.isLt (by decide)
    rw [flatten_groups]
    exact hexValue_hexPlaces hbound

theorem write_eq_joinWith (id : Uuid) : id.write = joinWith ['-'] id.groups := by
  simp [write, groups, joinWith]

theorem isHyphenated_iff {id : Uuid} {cs : List Char} : id.IsHyphenated cs ↔ cs = id.write := by
  rw [write_eq_joinWith]
  constructor
  · rintro ⟨groups, hgroups, rfl⟩
    rw [hgroups.unique id.isGrouped_groups]
  · intro h
    exact ⟨id.groups, id.isGrouped_groups, h⟩

end Uuid

/-! ## What identifiers stand for -/

inductive Identity where
  | truth (b : Bool)
  | number (n : Int)
  | decimal (digits : String)
  | content (bytes : List UInt8)
  | name (s : String)
  deriving DecidableEq, Repr

namespace Identity

def chars : Identity → List Char
  | .truth b => 'b' :: ':' :: (if b then ['t', 'r', 'u', 'e'] else ['f', 'a', 'l', 's', 'e'])
  | .number n => 'i' :: ':' :: intChars n
  | .decimal digits => 'd' :: ':' :: digits.toList
  | .content bytes => 'x' :: ':' :: hexBytes bytes
  | .name s => 's' :: ':' :: s.toList

theorem chars_injective {i j : Identity} (h : i.chars = j.chars) : i = j := by
  -- The first letter tells the kinds apart.
  cases i with
  | truth b =>
    cases j with
    | truth c => revert h; revert b c; decide
    | _ => simp [chars] at h
  | number m =>
    cases j with
    | number n =>
      have hchars : intChars m = intChars n := by simpa [chars] using h
      have hread := readInt_intChars m
      rw [hchars, readInt_intChars n] at hread
      rw [Option.some.inj hread]
    | _ => simp [chars] at h
  | decimal s =>
    cases j with
    | decimal t =>
      have hchars : s.toList = t.toList := by simpa [chars] using h
      rw [String.toList_injective hchars]
    | _ => simp [chars] at h
  | content as =>
    cases j with
    | content bs =>
      have hchars : hexBytes as = hexBytes bs := by simpa [chars] using h
      rw [hexBytes_injective hchars]
    | _ => simp [chars] at h
  | name s =>
    cases j with
    | name t =>
      have hchars : s.toList = t.toList := by simpa [chars] using h
      rw [String.toList_injective hchars]
    | _ => simp [chars] at h

end Identity

namespace Value

def isIdentifier : Value → Bool
  | .bool _ | .int8 _ | .int16 _ | .int32 _ | .int64 _ | .decimal _ | .text _ | .bytes _ |
    .uuid _ => true
  | _ => false

/-- An integer stands for its number whatever its width, a text for itself, and a UUID for its
written form. -/
inductive Denotes : Value → Identity → Prop
  | bool (b : Bool) : Denotes (.bool b) (.truth b)
  | integer {v : Value} {n : Int} : v.number? = some n → Denotes v (.number n)
  | decimal (digits : String) : Denotes (.decimal digits) (.decimal digits)
  | bytes (bs : List UInt8) : Denotes (.bytes bs) (.content bs)
  | text (s : String) : Denotes (.text s) (.name s)
  | uuid {id : Uuid} {s : String} : id.IsHyphenated s.toList → Denotes (.uuid id) (.name s)

theorem exists_denotes {v : Value} (h : v.isIdentifier = true) : ∃ i, v.Denotes i := by
  cases v with
  | bool b => exact ⟨_, .bool b⟩
  | int8 n => exact ⟨_, .integer rfl⟩
  | int16 n => exact ⟨_, .integer rfl⟩
  | int32 n => exact ⟨_, .integer rfl⟩
  | int64 n => exact ⟨_, .integer rfl⟩
  | decimal digits => exact ⟨_, .decimal digits⟩
  | text s => exact ⟨_, .text s⟩
  | bytes bs => exact ⟨_, .bytes bs⟩
  | uuid id => exact ⟨_, .uuid (Uuid.isHyphenated_iff.mpr (String.toList_ofList (l := id.write)))⟩
  | _ => cases h

theorem keyChars?_of_number {v : Value} {n : Int} (h : v.number? = some n) :
    v.keyChars? = some ('i' :: ':' :: intChars n) := by
  cases v with
  | int8 m => rw [← Option.some.inj h, keyChars?]
  | int16 m => rw [← Option.some.inj h, keyChars?]
  | int32 m => rw [← Option.some.inj h, keyChars?]
  | int64 m => rw [← Option.some.inj h, keyChars?]
  | _ => cases h

theorem keyChars?_of_denotes {v : Value} {i : Identity} (h : v.Denotes i) :
    v.keyChars? = some i.chars := by
  cases h with
  | bool b => rw [keyChars?, Identity.chars]
  | integer hn => exact keyChars?_of_number hn
  | decimal digits => rw [keyChars?, Identity.chars]
  | bytes bs => rw [keyChars?, Identity.chars]
  | text s => rw [keyChars?, Identity.chars]
  | uuid hid => rw [keyChars?, Identity.chars, Uuid.isHyphenated_iff.mp hid]

/-- The key of a value is known from its characters. -/
theorem key?_eq_iff {v w : Value} : v.key? = w.key? ↔ v.keyChars? = w.keyChars? := by
  unfold key?
  constructor
  · intro h
    refine Option.map_injective (fun cs ds heq => ?_) h
    exact String.ofList_injective (congrArg Key.text heq)
  · intro h
    rw [h]

/-- The key of an identifier tells what it stands for, and nothing else. -/
theorem key_eq_iff_denote_same {v w : Value} (hv : v.isIdentifier = true)
    (hw : w.isIdentifier = true) : v.key? = w.key? ↔ ∃ i, v.Denotes i ∧ w.Denotes i := by
  obtain ⟨i, hi⟩ := exists_denotes hv
  obtain ⟨j, hj⟩ := exists_denotes hw
  rw [key?_eq_iff]
  constructor
  · intro h
    rw [keyChars?_of_denotes hi, keyChars?_of_denotes hj] at h
    obtain rfl := Identity.chars_injective (Option.some.inj h)
    exact ⟨i, hi, hj⟩
  · rintro ⟨k, hvk, hwk⟩
    rw [keyChars?_of_denotes hvk, keyChars?_of_denotes hwk]

/-- A UUID and its written form share a key, and so do two widths of an integer. -/
theorem key_eq_iff_denote_same_mixed :
    ((uuid ⟨0x0f1e2d3c4b5a69788796a5b4c3d2e1f0⟩).isIdentifier = true ∧
      (text "0f1e2d3c-4b5a-6978-8796-a5b4c3d2e1f0").isIdentifier = true ∧
      (uuid ⟨0x0f1e2d3c4b5a69788796a5b4c3d2e1f0⟩).key? =
        (text "0f1e2d3c-4b5a-6978-8796-a5b4c3d2e1f0").key?) ∧
    ((int8 (-7)).isIdentifier = true ∧ (int64 (-7)).isIdentifier = true ∧
      (int8 (-7)).key? = (int64 (-7)).key?) ∧
    ((int8 1).isIdentifier = true ∧ (bool true).isIdentifier = true ∧
      (int8 1).key? ≠ (bool true).key?) := by
  refine ⟨⟨rfl, rfl, ?_⟩, ⟨rfl, rfl, ?_⟩, rfl, rfl, fun h => ?_⟩
  · exact (key_eq_iff_denote_same rfl rfl).mpr
      ⟨.name _, .uuid (Uuid.isHyphenated_iff.mpr (by decide)), .text _⟩
  · exact (key_eq_iff_denote_same rfl rfl).mpr ⟨.number (-7), .integer rfl, .integer rfl⟩
  · obtain ⟨i, hnumber, htruth⟩ := (key_eq_iff_denote_same rfl rfl).mp h
    cases htruth with
    | bool => cases hnumber
    | integer hn => cases hn

end Value

end RecordMapper
