import Mathlib.Algebra.Group.Nat.Defs
import RecordMapper.Text.Digits
import RecordMapper.Text.Split

/-!
Fields of a text, blanks around a text, and numerals.
-/
namespace RecordMapper.Text

set_option autoImplicit false

/-! ## Fields -/

theorem fieldsFrom_of_notMem {separator : Char} {cs : List Char} (h : separator ∉ cs)
    (part : List Char) : fieldsFrom separator part cs = [part.reverse ++ cs] := by
  induction cs generalizing part with
  | nil => simp [fieldsFrom]
  | cons c rest ih =>
    rw [List.mem_cons, not_or] at h
    rw [fieldsFrom, if_neg (Ne.symm h.1), ih h.2]
    simp

/-- A separator ends the fields in front of it. -/
theorem fieldsFrom_concat (separator : Char) (part cs rest : List Char) :
    fieldsFrom separator part (cs ++ separator :: rest) =
      fieldsFrom separator part cs ++ fieldsFrom separator [] rest := by
  induction cs generalizing part with
  | nil => simp [fieldsFrom]
  | cons c cs ih =>
    rw [List.cons_append, fieldsFrom, fieldsFrom, ih, ih]
    split
    · rfl
    · rfl

/-- What stands in front of the first separator is the first field. -/
theorem fieldsFrom_append {separator : Char} {cs : List Char} (h : separator ∉ cs)
    (part rest : List Char) :
    fieldsFrom separator part (cs ++ separator :: rest) =
      (part.reverse ++ cs) :: fieldsFrom separator [] rest := by
  rw [fieldsFrom_concat, fieldsFrom_of_notMem h]
  rfl

theorem fields_of_notMem {separator : Char} {s : String} (h : separator ∉ s.toList) :
    fields separator s = [s] := by
  unfold fields fieldsAt
  rw [fieldsFrom_of_notMem h]
  simp

theorem fields_concat {separator : Char} {front rear : String} (back : String)
    (hfront : front.toList = rear.toList ++ [separator]) :
    fields separator (front ++ back) = fields separator rear ++ fields separator back := by
  unfold fields fieldsAt
  rw [String.toList_append, hfront, List.append_assoc, List.singleton_append, fieldsFrom_concat,
    List.map_append]

theorem fields_append {separator : Char} {front word : String} (rest : String)
    (hfront : front.toList = word.toList ++ [separator]) (h : separator ∉ word.toList) :
    fields separator (front ++ rest) = word :: fields separator rest := by
  rw [fields_concat rest hfront, fields_of_notMem h]
  rfl

theorem fieldsFrom_ne_nil (separator : Char) (part cs : List Char) :
    fieldsFrom separator part cs ≠ [] := by
  induction cs generalizing part with
  | nil => exact List.cons_ne_nil _ _
  | cons c rest ih =>
    rw [fieldsFrom]
    split
    · exact List.cons_ne_nil _ _
    · exact ih (c :: part)

theorem fields_ne_nil (separator : Char) (s : String) : fields separator s ≠ [] := by
  unfold fields fieldsAt
  exact fun h => fieldsFrom_ne_nil separator [] s.toList (List.map_eq_nil_iff.mp h)

/-- Texts without the separator are the fields of what they are joined to. -/
theorem fieldsAt_joinWith {separator : Char} {parts : List (List Char)} (hne : parts ≠ [])
    (h : ∀ part ∈ parts, separator ∉ part) :
    fieldsAt separator (joinWith [separator] parts) = parts := by
  induction parts with
  | nil => exact absurd rfl hne
  | cons a rest ih =>
    have ha : separator ∉ a := h a (List.mem_cons_self ..)
    unfold fieldsAt at ih ⊢
    cases rest with
    | nil =>
      rw [joinWith, fieldsFrom_of_notMem ha]
      rfl
    | cons b rest =>
      have hrest := ih (List.cons_ne_nil b rest) fun part hpart =>
        h part (List.mem_cons_of_mem a hpart)
      rw [joinWith, List.append_assoc, List.singleton_append, fieldsFrom_append ha, hrest]
      rfl

theorem joinWith_fieldsFrom (separator : Char) (part cs : List Char) :
    joinWith [separator] (fieldsFrom separator part cs) = part.reverse ++ cs := by
  induction cs generalizing part with
  | nil => simp [fieldsFrom, joinWith]
  | cons c rest ih =>
    rw [fieldsFrom]
    split
    · next hc =>
      obtain ⟨first, others, hfields⟩ :=
        List.exists_cons_of_ne_nil (fieldsFrom_ne_nil separator [] rest)
      have hrest := ih []
      rw [hfields] at hrest ⊢
      rw [joinWith, hrest, hc]
      simp
    · rw [ih (c :: part), List.reverse_cons, List.append_assoc, List.singleton_append]

/-- A text is its fields with the separator between them. -/
theorem joined_fields (s : String) : joined "." (fields '.' s) = s := by
  unfold joined fields fieldsAt
  rw [List.map_map]
  have hchars : String.toList ∘ String.ofList = id := by
    funext cs
    exact String.toList_ofList
  rw [hchars, List.map_id, show ".".toList = ['.'] from rfl, joinWith_fieldsFrom]
  exact String.ofList_toList

/-! ## Joined texts -/

/-- Of two texts in front of a separator one may go on behind the other's separator. -/
theorem prefix_of_append_eq {separator : Char} {as bs cs ds : List Char}
    (h : as ++ separator :: cs = bs ++ separator :: ds) (hne : as ≠ bs) :
    (as ++ [separator]) <+: bs ∨ (bs ++ [separator]) <+: as := by
  rcases List.append_eq_append_iff.mp h with ⟨more, rfl, hmore⟩ | ⟨more, rfl, hmore⟩
  · cases more with
    | nil => exact absurd (List.append_nil as).symm hne
    | cons c rest =>
      obtain ⟨rfl, -⟩ := List.cons.inj hmore
      exact .inl ⟨rest, by simp⟩
  · cases more with
    | nil => exact absurd (List.append_nil bs) hne
    | cons c rest =>
      obtain ⟨rfl, -⟩ := List.cons.inj hmore
      exact .inr ⟨rest, by simp⟩

theorem append_cancel_of_count {separator : Char} {as bs cs ds : List Char}
    (hcount : as.count separator = bs.count separator)
    (h : as ++ separator :: cs = bs ++ separator :: ds) : as = bs ∧ cs = ds := by
  by_cases heq : as = bs
  · subst heq
    exact ⟨rfl, (List.cons.inj (List.append_cancel_left h)).2⟩
  · obtain ⟨more, rfl⟩ | ⟨more, rfl⟩ := prefix_of_append_eq h heq
    · simp at hcount
    · simp at hcount

/-- Joined texts are told apart if separators stand equally often in each of them. -/
theorem joinWith_injective {separator : Char} {ps qs : List (List Char)}
    (hcount : ps.map (List.count separator) = qs.map (List.count separator))
    (h : joinWith [separator] ps = joinWith [separator] qs) : ps = qs := by
  induction ps generalizing qs with
  | nil => exact (List.map_eq_nil_iff.mp hcount.symm).symm
  | cons a rest ih =>
    cases qs with
    | nil => simp at hcount
    | cons b others =>
      obtain ⟨hfirst, hrest⟩ := List.cons.inj hcount
      cases rest with
      | nil =>
        obtain rfl := List.map_eq_nil_iff.mp hrest.symm
        exact congrArg (fun cs => [cs]) h
      | cons a' rest =>
        cases others with
        | nil => simp at hrest
        | cons b' others =>
          rw [joinWith, joinWith, List.append_assoc, List.append_assoc] at h
          obtain ⟨rfl, hjoined⟩ := append_cancel_of_count hfirst h
          rw [ih hrest hjoined]

/-! ## Blanks -/

theorem trim_ne_empty {s : String} {c : Char} {rest : List Char} (hs : s.toList = c :: rest)
    (hc : isBlank c = false) : (trim s).isEmpty = false := by
  have hkept : dropBlanks s.toList = s.toList := by
    rw [hs, dropBlanks, List.dropWhile_cons_of_neg (by simp [hc])]
  have hne : ∀ cs : List Char, dropBlanks (cs ++ [c]) ≠ [] := by
    intro cs
    induction cs with
    | nil => simp [dropBlanks, hc]
    | cons b cs ih =>
      unfold dropBlanks at ih ⊢
      rw [List.cons_append, List.dropWhile_cons]
      split
      · exact ih
      · exact List.cons_ne_nil b _
  have hchars : (trim s).toList ≠ [] := by
    unfold trim trimChars
    rw [String.toList_ofList, hkept, hs, List.reverse_cons]
    exact fun hnil => hne rest.reverse (List.reverse_eq_nil_iff.mp hnil)
  cases hempty : (trim s).isEmpty with
  | false => rfl
  | true =>
    rw [String.isEmpty_iff] at hempty
    exact absurd (by rw [hempty]; rfl) hchars

theorem isBlank_of_isDigit {c : Char} (h : c.isDigit = true) : isBlank c = false := by
  have hrange : 48 ≤ c.toNat ∧ c.toNat ≤ 57 := Char.isDigit_iff_toNat.mp h
  simp only [isBlank, inRanges, blankRanges, List.any_cons, List.any_nil, Bool.or_false,
    Bool.or_eq_false_iff, Bool.and_eq_false_iff, decide_eq_false_iff_not]
  omega

theorem dropBlanks_of_blank {cs : List Char} (h : ∀ c ∈ cs, isBlank c = true) (rest : List Char) :
    dropBlanks (cs ++ rest) = dropBlanks rest :=
  List.dropWhile_append_of_pos h

theorem dropBlanks_of_head {c : Char} (h : isBlank c = false) (rest : List Char) :
    dropBlanks (c :: rest) = c :: rest :=
  List.dropWhile_cons_of_neg (by simp [h])

/-- Of a text without blanks only the blanks around it are trimmed. -/
theorem trimChars_surrounded {front cs back : List Char} (hfront : ∀ c ∈ front, isBlank c = true)
    (hcs : ∀ c ∈ cs, isBlank c = false) (hback : ∀ c ∈ back, isBlank c = true) :
    trimChars (front ++ cs ++ back) = cs := by
  have hrear : ∀ c ∈ back.reverse, isBlank c = true := fun c hc => hback c (List.mem_reverse.mp hc)
  unfold trimChars
  rw [List.append_assoc, dropBlanks_of_blank hfront]
  cases cs with
  | nil =>
    have hnone : dropBlanks back = [] := by
      have h := dropBlanks_of_blank hback []
      rwa [List.append_nil] at h
    rw [List.nil_append, hnone]
    rfl
  | cons c rest =>
    have hlast : dropBlanks (c :: rest).reverse = (c :: rest).reverse := by
      obtain ⟨last, others, hrest⟩ :=
        List.exists_cons_of_ne_nil (List.reverse_ne_nil_iff.mpr (List.cons_ne_nil c rest))
      have hmem : last ∈ c :: rest := by
        rw [← List.mem_reverse, hrest]
        exact List.mem_cons_self ..
      rw [hrest, dropBlanks_of_head (hcs last hmem)]
    rw [List.cons_append, dropBlanks_of_head (hcs c (List.mem_cons_self ..)), ← List.cons_append,
      List.reverse_append, dropBlanks_of_blank hrear, hlast, List.reverse_reverse]

theorem trimChars_of_unblank {cs : List Char} (h : ∀ c ∈ cs, isBlank c = false) :
    trimChars cs = cs := by
  have htrim : trimChars ([] ++ cs ++ []) = cs := trimChars_surrounded nofun h nofun
  rwa [List.nil_append, List.append_nil] at htrim

/-! ## Numerals -/

theorem natChars_injective {m n : Nat} (h : natChars m = natChars n) : m = n := by
  have hvalue := congrArg (fun cs => Nat.ofDigitChars 10 cs 0) h
  simpa [natChars] using hvalue

theorem ofNat_injective {m n : Nat} (h : ofNat m = ofNat n) : m = n :=
  natChars_injective (String.ofList_injective h)

/-- The number that a numeral stands for. -/
def numeral (word : String) : Nat := Nat.ofDigitChars 10 word.toList 0

@[simp] theorem numeral_ofNat (n : Nat) : numeral (ofNat n) = n := by
  simp [numeral, ofNat, natChars]

theorem isDigit_of_mem_natChars {n : Nat} {c : Char} (h : c ∈ natChars n) : c.isDigit = true :=
  Nat.isDigit_of_mem_toDigits (by omega) (by omega) h

/-- A run of characters of one kind ends in front of the first character of another kind. -/
theorem takeWhile_run {p : Char → Bool} {run rest : List Char} (hrun : ∀ c ∈ run, p c = true)
    (hrest : ∀ c, rest.head? = some c → p c = false) :
    (run ++ rest).takeWhile p = run ∧ (run ++ rest).dropWhile p = rest := by
  rw [List.takeWhile_append_of_pos hrun, List.dropWhile_append_of_pos hrun]
  cases rest with
  | nil => simp
  | cons c rest => simp [hrest c rfl]

section Runs

variable {digits : List Char} (h : ∀ c ∈ digits, c.isDigit = true)

include h

theorem exists_digit_cons (hne : digits ≠ []) :
    ∃ c rest, digits = c :: rest ∧ c.isDigit = true := by
  obtain ⟨c, rest, rfl⟩ := List.exists_cons_of_ne_nil hne
  exact ⟨c, rest, rfl, h c (List.mem_cons_self ..)⟩

theorem takeWhile_digits : digits.takeWhile Char.isDigit = digits := by
  have hall : (digits ++ []).takeWhile Char.isDigit = digits ++ [] := List.takeWhile_append_of_pos h
  rwa [List.append_nil] at hall

theorem dropWhile_digits : digits.dropWhile Char.isDigit = [] := by
  have hall : (digits ++ []).dropWhile Char.isDigit = [] := List.dropWhile_append_of_pos h
  rwa [List.append_nil] at hall

end Runs

theorem foldDigits_natChars (n : Nat) : foldDigits 0 (natChars n) = n :=
  Nat.ofDigitChars_ten_toDigits

theorem natChars_ne_nil (n : Nat) : natChars n ≠ [] := Nat.toDigits_ne_nil

theorem readNat_eq_some {cs : List Char} {n : Nat} :
    readNat cs = some n ↔ cs ≠ [] ∧ (∀ c ∈ cs, c.isDigit = true) ∧ foldDigits 0 cs = n := by
  unfold readNat
  split
  · next h =>
    refine ⟨nofun, fun ⟨hne, hdigits, _⟩ => ?_⟩
    rcases Bool.or_eq_true_iff.mp h with hempty | hother
    · exact absurd (List.isEmpty_iff.mp hempty) hne
    · rw [List.all_eq_true.mpr hdigits] at hother
      cases hother
  · next h =>
    rw [Bool.or_eq_true_iff, not_or, Bool.not_eq_true', Bool.not_eq_false] at h
    simp only [Option.some.injEq]
    exact ⟨fun heq => ⟨fun hnil => h.1 (List.isEmpty_iff.mpr hnil), List.all_eq_true.mp h.2, heq⟩,
      fun hread => hread.2.2⟩

/-- A numeral is read back. -/
theorem readNat_natChars (n : Nat) : readNat (natChars n) = some n :=
  readNat_eq_some.mpr
    ⟨natChars_ne_nil n, fun _ hc => isDigit_of_mem_natChars hc, foldDigits_natChars n⟩

theorem length_natChars_le {n k : Nat} (hk : 0 < k) (h : n < 10 ^ k) : (natChars n).length ≤ k :=
  (Nat.length_toDigits_le_iff (by decide) hk).mpr h

theorem foldDigits_append (n : Nat) (cs ds : List Char) :
    foldDigits n (cs ++ ds) = foldDigits (foldDigits n cs) ds :=
  List.foldl_append

theorem digitValue_le {c : Char} (h : c.isDigit = true) : digitValue c ≤ 9 := by
  have hrange : 48 ≤ c.toNat ∧ c.toNat ≤ 57 := Char.isDigit_iff_toNat.mp h
  unfold digitValue
  omega

theorem foldDigits_lt {cs : List Char} (h : ∀ c ∈ cs, c.isDigit = true) (n : Nat) :
    foldDigits n cs < (n + 1) * 10 ^ cs.length := by
  induction cs generalizing n with
  | nil => simp [foldDigits]
  | cons c rest ih =>
    have hvalue := digitValue_le (h c (List.mem_cons_self ..))
    calc foldDigits n (c :: rest) = foldDigits (10 * n + digitValue c) rest := rfl
      _ < (10 * n + digitValue c + 1) * 10 ^ rest.length :=
        ih (fun d hd => h d (List.mem_cons_of_mem c hd)) _
      _ ≤ ((n + 1) * 10) * 10 ^ rest.length := Nat.mul_le_mul_right _ (by omega)
      _ = (n + 1) * 10 ^ (c :: rest).length := by
        rw [List.length_cons, Nat.pow_succ, Nat.mul_assoc, Nat.mul_comm 10]

theorem natChars_digitValue {c : Char} (h : c.isDigit = true) : natChars (digitValue c) = [c] := by
  have hrange : 48 ≤ c.toNat ∧ c.toNat ≤ 57 := Char.isDigit_iff_toNat.mp h
  have hchar : ∀ d < 10, Nat.digitChar d = Char.ofNat (48 + d) := by decide
  have hvalue : digitValue c < 10 := Nat.lt_succ_of_le (digitValue_le h)
  have hcode : 48 + digitValue c = c.toNat := by
    unfold digitValue
    omega
  rw [natChars, Nat.toDigits_of_lt_base hvalue, hchar _ hvalue, hcode, Char.ofNat_toNat]

/-- Digits behind a number are the last digits of its numeral. -/
theorem natChars_foldDigits {ds : List Char} (h : ∀ c ∈ ds, c.isDigit = true) {n : Nat}
    (hn : 0 < n) : natChars (foldDigits n ds) = natChars n ++ ds := by
  induction ds generalizing n with
  | nil => exact (List.append_nil _).symm
  | cons c rest ih =>
    obtain ⟨hc, hrest⟩ := List.forall_mem_cons.mp h
    have hvalue : digitValue c < 10 := Nat.lt_succ_of_le (digitValue_le hc)
    have hnext : 0 < 10 * n + digitValue c := by omega
    calc natChars (foldDigits n (c :: rest))
        = natChars (10 * n + digitValue c) ++ rest := ih hrest hnext
      _ = natChars n ++ natChars (digitValue c) ++ rest := by
        rw [natChars, natChars, natChars, Nat.toDigits_append_toDigits (by decide) hn hvalue]
      _ = natChars n ++ c :: rest := by
        rw [natChars_digitValue hc, List.append_assoc, List.singleton_append]

/-- Digits without a zero in front are the numeral of their number. -/
theorem natChars_foldDigits_zero {c : Char} {ds : List Char} (hc : c ≠ '0')
    (h : ∀ d ∈ c :: ds, d.isDigit = true) : natChars (foldDigits 0 (c :: ds)) = c :: ds := by
  obtain ⟨hdigit, hds⟩ := List.forall_mem_cons.mp h
  have hpositive : 0 < digitValue c := by
    have hrange : 48 ≤ c.toNat ∧ c.toNat ≤ 57 := Char.isDigit_iff_toNat.mp hdigit
    have hne : c.toNat ≠ 48 := fun heq => hc (Char.toNat_inj.mp heq)
    unfold digitValue
    omega
  have hfold : foldDigits 0 (c :: ds) = foldDigits (digitValue c) ds := by
    simp [foldDigits]
  rw [hfold, natChars_foldDigits hds hpositive, natChars_digitValue hdigit, List.singleton_append]

/-! ## Numerals on a number of places -/

theorem digitChar_spec : ∀ d < 10, (digitChar d).isDigit = true ∧ digitValue (digitChar d) = d := by
  decide

@[simp] theorem length_places (width n : Nat) : (places width n).length = width := by
  induction width generalizing n with
  | zero => rfl
  | succ width ih => simp [places, ih]

theorem isDigit_of_mem_places {width n : Nat} {c : Char} (h : c ∈ places width n) :
    c.isDigit = true := by
  induction width generalizing n with
  | zero => exact absurd h List.not_mem_nil
  | succ width ih =>
    rcases List.mem_append.mp h with hfront | hlast
    · exact ih hfront
    · rw [List.mem_singleton.mp hlast]
      exact (digitChar_spec _ (Nat.mod_lt _ (by decide))).1

theorem foldDigits_places {width n : Nat} (h : n < 10 ^ width) :
    foldDigits 0 (places width n) = n := by
  induction width generalizing n with
  | zero =>
    have hzero : n = 0 := by simpa using h
    rw [hzero]
    rfl
  | succ width ih =>
    have hfront : foldDigits 0 (places width (n / 10)) = n / 10 :=
      ih (Nat.div_lt_of_lt_mul (by rw [Nat.mul_comm, ← Nat.pow_succ]; exact h))
    have hlast := (digitChar_spec _ (Nat.mod_lt n (by decide))).2
    unfold places
    rw [foldDigits_append, hfront]
    show 10 * (n / 10) + digitValue (digitChar (n % 10)) = n
    omega

theorem isDigit_of_mem_padded {width n : Nat} {c : Char} (h : c ∈ padded width n) :
    c.isDigit = true := by
  rcases List.mem_append.mp h with hzeros | hdigits
  · rw [(List.mem_replicate.mp hzeros).2]
    rfl
  · exact isDigit_of_mem_natChars hdigits

theorem foldDigits_padded (width n : Nat) : foldDigits 0 (padded width n) = n := by
  have hzeros : ∀ k, foldDigits 0 (List.replicate k '0') = 0 := by
    intro k
    induction k with
    | zero => rfl
    | succ k ih => exact ih
  unfold padded
  rw [foldDigits_append, hzeros, foldDigits_natChars]

theorem le_length_padded (width n : Nat) : width ≤ (padded width n).length := by
  simp only [padded, List.length_append, List.length_replicate]
  omega

theorem length_padded {width n : Nat} (hwidth : 0 < width) (h : n < 10 ^ width) :
    (padded width n).length = width := by
  have hlength := length_natChars_le hwidth h
  simp only [padded, List.length_append, List.length_replicate]
  omega

theorem blank_notMem_ofNat (n : Nat) : ' ' ∉ (ofNat n).toList := by
  unfold ofNat
  rw [String.toList_ofList]
  exact fun h => absurd (isDigit_of_mem_natChars h) (by decide)

end RecordMapper.Text
