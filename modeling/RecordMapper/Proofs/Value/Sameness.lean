import RecordMapper.Value.Basic

/-!
Sameness of values.

`Value.same` is symmetric and transitive, and reflexive exactly for values that hold no NaN.
-/
namespace RecordMapper

set_option autoImplicit false

open RecordMapper.Number

/-! ## Floating-point numbers -/

namespace Number

def Decoded.isNan : Decoded → Bool
  | .nan => true
  | _ => false

namespace Decoded

theorem sameNumber_refl {x : Decoded} (h : x.isNan = false) : x.sameNumber x = true := by
  cases x with
  | nan => cases h
  | infinite negative => exact beq_self_eq_true negative
  | finite negative m q => simp [sameNumber]

theorem isNan_of_sameNumber {x y : Decoded} (h : x.sameNumber y = true) : x.isNan = false := by
  cases x with
  | nan => cases h
  | _ => rfl

theorem sameNumber_symm {x y : Decoded} (h : x.sameNumber y = true) : y.sameNumber x = true := by
  cases x with
  | nan => cases h
  | infinite a =>
    cases y with
    | infinite b => rw [eq_of_beq h]; exact beq_self_eq_true b
    | nan => cases h
    | finite b n p => cases h
  | finite a m q =>
    cases y with
    | finite b n p =>
      simp only [sameNumber, Bool.or_eq_true, Bool.and_eq_true, beq_iff_eq] at h ⊢
      rcases h with ⟨hm, hn⟩ | ⟨⟨hs, hm⟩, hq⟩
      · exact .inl ⟨hn, hm⟩
      · exact .inr ⟨⟨hs.symm, hm.symm⟩, hq.symm⟩
    | nan => cases h
    | infinite b => cases h

theorem sameNumber_trans {x y z : Decoded} (hxy : x.sameNumber y = true)
    (hyz : y.sameNumber z = true) : x.sameNumber z = true := by
  cases y with
  | nan => cases hyz
  | infinite b =>
    cases x with
    | infinite a => rw [eq_of_beq hxy]; exact hyz
    | nan => cases hxy
    | finite a m q => cases hxy
  | finite b n p =>
    cases x with
    | finite a m q =>
      cases z with
      | finite c l r =>
        simp only [sameNumber, Bool.or_eq_true, Bool.and_eq_true, beq_iff_eq] at hxy hyz ⊢
        rcases hxy with ⟨hm, hn⟩ | ⟨⟨rfl, rfl⟩, rfl⟩
        · rcases hyz with ⟨-, hl⟩ | ⟨⟨-, hl⟩, -⟩
          · exact .inl ⟨hm, hl⟩
          · exact .inl ⟨hm, hl ▸ hn⟩
        · exact hyz
      | nan => cases hyz
      | infinite c => cases hyz
    | nan => cases hxy
    | infinite a => cases hxy

end Decoded

end Number

/-! ## JSON -/

namespace Json

mutual

/-- Whether there is a number that is not a number in it. -/
def hasNan : Json → Bool
  | .float x => x.decode.isNan
  | .array items => itemsHaveNan items
  | .object fields => fieldsHaveNan fields
  | _ => false

def itemsHaveNan : List Json → Bool
  | [] => false
  | j :: rest => j.hasNan || itemsHaveNan rest

def fieldsHaveNan : List (String × Json) → Bool
  | [] => false
  | (_, j) :: rest => j.hasNan || fieldsHaveNan rest

end

mutual

theorem same_refl : ∀ {j : Json}, j.hasNan = false → j.same j = true
  | .null, _ => rfl
  | .bool b, _ => beq_self_eq_true b
  | .integer n, _ => beq_self_eq_true n
  | .float _, h => Decoded.sameNumber_refl h
  | .string s, _ => beq_self_eq_true s
  | .array _, h => sameItems_refl h
  | .object _, h => sameFields_refl h

theorem sameItems_refl : ∀ {items : List Json}, itemsHaveNan items = false →
    sameItems items items = true
  | [], _ => rfl
  | j :: rest, h => by
    obtain ⟨hj, hrest⟩ := Bool.or_eq_false_iff.mp h
    exact Bool.and_eq_true_iff.mpr ⟨same_refl hj, sameItems_refl hrest⟩

theorem sameFields_refl : ∀ {fields : List (String × Json)}, fieldsHaveNan fields = false →
    sameFields fields fields = true
  | [], _ => rfl
  | (k, j) :: rest, h => by
    obtain ⟨hj, hrest⟩ := Bool.or_eq_false_iff.mp h
    simp only [sameFields, same_refl hj, sameFields_refl hrest, beq_self_eq_true, Bool.and_self]

end

/-- Two values of JSON that are the same have one form. -/
theorem same_cases {a b : Json} (h : a.same b = true) :
    a = b ∨ (∃ x y, a = .float x ∧ b = .float y ∧ x.sameNumber y = true) ∨
      (∃ as bs, a = .array as ∧ b = .array bs ∧ sameItems as bs = true) ∨
      ∃ as bs, a = .object as ∧ b = .object bs ∧ sameFields as bs = true := by
  cases a <;> cases b <;> first
    | exact .inl rfl
    | cases h
    | exact .inl (congrArg _ (eq_of_beq h))
    | exact .inr (.inl ⟨_, _, rfl, rfl, h⟩)
    | exact .inr (.inr (.inl ⟨_, _, rfl, rfl, h⟩))
    | exact .inr (.inr (.inr ⟨_, _, rfl, rfl, h⟩))

mutual

theorem same_symm {a b : Json} (h : a.same b = true) : b.same a = true := by
  rcases same_cases h with
    rfl | ⟨x, y, rfl, rfl, h⟩ | ⟨as, bs, rfl, rfl, h⟩ | ⟨as, bs, rfl, rfl, h⟩
  · exact h
  · exact Decoded.sameNumber_symm h
  · exact sameItems_symm h
  · exact sameFields_symm h
termination_by sizeOf a

theorem sameItems_symm {as bs : List Json} (h : sameItems as bs = true) :
    sameItems bs as = true := by
  match as, bs, h with
  | [], [], _ => rfl
  | a :: as, b :: bs, h =>
    obtain ⟨hab, hrest⟩ := Bool.and_eq_true_iff.mp h
    exact Bool.and_eq_true_iff.mpr ⟨same_symm hab, sameItems_symm hrest⟩
termination_by sizeOf as

theorem sameFields_symm {as bs : List (String × Json)} (h : sameFields as bs = true) :
    sameFields bs as = true := by
  match as, bs, h with
  | [], [], _ => rfl
  | (k, a) :: as, (l, b) :: bs, h =>
    simp only [sameFields, Bool.and_eq_true, beq_iff_eq] at h ⊢
    exact ⟨⟨h.1.1.symm, same_symm h.1.2⟩, sameFields_symm h.2⟩
termination_by sizeOf as

end

mutual

/-- What is the same as anything holds no NaN. -/
theorem hasNan_of_same {a b : Json} (h : a.same b = true) : a.hasNan = false := by
  cases a with
  | float x =>
    cases b with
    | float y => exact Decoded.isNan_of_sameNumber h
    | _ => cases h
  | array as =>
    cases b with
    | array bs => exact itemsHaveNan_of_same h
    | _ => cases h
  | object as =>
    cases b with
    | object bs => exact fieldsHaveNan_of_same h
    | _ => cases h
  | _ => rfl
termination_by sizeOf a

theorem itemsHaveNan_of_same {as bs : List Json} (h : sameItems as bs = true) :
    itemsHaveNan as = false := by
  match as, bs, h with
  | [], [], _ => rfl
  | a :: as, b :: bs, h =>
    obtain ⟨hab, hrest⟩ := Bool.and_eq_true_iff.mp h
    exact Bool.or_eq_false_iff.mpr ⟨hasNan_of_same hab, itemsHaveNan_of_same hrest⟩
termination_by sizeOf as

theorem fieldsHaveNan_of_same {as bs : List (String × Json)} (h : sameFields as bs = true) :
    fieldsHaveNan as = false := by
  match as, bs, h with
  | [], [], _ => rfl
  | (k, a) :: as, (l, b) :: bs, h =>
    simp only [sameFields, Bool.and_eq_true] at h
    exact Bool.or_eq_false_iff.mpr ⟨hasNan_of_same h.1.2, fieldsHaveNan_of_same h.2⟩
termination_by sizeOf as

end

mutual

theorem same_trans {a b c : Json} (hab : a.same b = true) (hbc : b.same c = true) :
    a.same c = true := by
  rcases same_cases hab with
    rfl | ⟨x, y, rfl, rfl, h⟩ | ⟨as, bs, rfl, rfl, h⟩ | ⟨as, bs, rfl, rfl, h⟩
  · exact hbc
  · cases c with
    | float z => exact Decoded.sameNumber_trans h hbc
    | _ => cases hbc
  · cases c with
    | array cs => exact sameItems_trans h hbc
    | _ => cases hbc
  · cases c with
    | object cs => exact sameFields_trans h hbc
    | _ => cases hbc
termination_by sizeOf a

theorem sameItems_trans {as bs cs : List Json} (hab : sameItems as bs = true)
    (hbc : sameItems bs cs = true) : sameItems as cs = true := by
  match as, bs, cs, hab, hbc with
  | [], [], [], _, _ => rfl
  | a :: as, b :: bs, c :: cs, hab, hbc =>
    obtain ⟨hab, hrest⟩ := Bool.and_eq_true_iff.mp hab
    obtain ⟨hbc, hrest'⟩ := Bool.and_eq_true_iff.mp hbc
    exact Bool.and_eq_true_iff.mpr ⟨same_trans hab hbc, sameItems_trans hrest hrest'⟩
termination_by sizeOf as

theorem sameFields_trans {as bs cs : List (String × Json)} (hab : sameFields as bs = true)
    (hbc : sameFields bs cs = true) : sameFields as cs = true := by
  match as, bs, cs, hab, hbc with
  | [], [], [], _, _ => rfl
  | (k, a) :: as, (l, b) :: bs, (m, c) :: cs, hab, hbc =>
    simp only [sameFields, Bool.and_eq_true, beq_iff_eq] at hab hbc ⊢
    exact ⟨⟨hab.1.1.trans hbc.1.1, same_trans hab.1.2 hbc.1.2⟩, sameFields_trans hab.2 hbc.2⟩
termination_by sizeOf as

end

end Json

/-! ## Values -/

namespace Value

mutual

/-- Whether there is a number that is not a number in it. -/
def hasNan : Value → Bool
  | .single x => x.decode.isNan
  | .double x => x.decode.isNan
  | .json j => j.hasNan
  | .array items => itemsHaveNan items
  | _ => false

def itemsHaveNan : List Value → Bool
  | [] => false
  | v :: rest => v.hasNan || itemsHaveNan rest

end

mutual

theorem equal_refl {v : Value} (h : v.hasNan = false) : v.equal v = true := by
  cases v with
  | single x => exact Decoded.sameNumber_refl h
  | double x => exact Decoded.sameNumber_refl h
  | json j => exact Json.same_refl h
  | array items => exact equalItems_refl h
  | null => rfl
  | default => rfl
  | _ => exact beq_self_eq_true _
termination_by sizeOf v

theorem equalItems_refl {items : List Value} (h : itemsHaveNan items = false) :
    equalItems items items = true := by
  match items, h with
  | [], _ => rfl
  | v :: rest, h =>
    obtain ⟨hv, hrest⟩ := Bool.or_eq_false_iff.mp h
    exact Bool.and_eq_true_iff.mpr ⟨equal_refl hv, equalItems_refl hrest⟩
termination_by sizeOf items

end

/-- Two values that are equal have one form. -/
theorem equal_cases {a b : Value} (h : a.equal b = true) :
    a = b ∨ (∃ x y, a = .single x ∧ b = .single y ∧ x.sameNumber y = true) ∨
      (∃ x y, a = .double x ∧ b = .double y ∧ x.sameNumber y = true) ∨
      (∃ i j, a = .json i ∧ b = .json j ∧ i.same j = true) ∨
      ∃ as bs, a = .array as ∧ b = .array bs ∧ equalItems as bs = true := by
  cases a <;> cases b <;> first
    | exact .inl rfl
    | cases h
    | exact .inl (congrArg _ (eq_of_beq h))
    | exact .inr (.inl ⟨_, _, rfl, rfl, h⟩)
    | exact .inr (.inr (.inl ⟨_, _, rfl, rfl, h⟩))
    | exact .inr (.inr (.inr (.inl ⟨_, _, rfl, rfl, h⟩)))
    | exact .inr (.inr (.inr (.inr ⟨_, _, rfl, rfl, h⟩)))

mutual

theorem equal_symm {a b : Value} (h : a.equal b = true) : b.equal a = true := by
  rcases equal_cases h with
    rfl | ⟨x, y, rfl, rfl, h⟩ | ⟨x, y, rfl, rfl, h⟩ | ⟨i, j, rfl, rfl, h⟩ | ⟨as, bs, rfl, rfl, h⟩
  · exact h
  · exact Decoded.sameNumber_symm h
  · exact Decoded.sameNumber_symm h
  · exact Json.same_symm h
  · exact equalItems_symm h
termination_by sizeOf a

theorem equalItems_symm {as bs : List Value} (h : equalItems as bs = true) :
    equalItems bs as = true := by
  match as, bs, h with
  | [], [], _ => rfl
  | a :: as, b :: bs, h =>
    obtain ⟨hab, hrest⟩ := Bool.and_eq_true_iff.mp h
    exact Bool.and_eq_true_iff.mpr ⟨equal_symm hab, equalItems_symm hrest⟩
termination_by sizeOf as

end

mutual

theorem hasNan_of_equal {a b : Value} (h : a.equal b = true) : a.hasNan = false := by
  cases a with
  | single x =>
    cases b with
    | single y => exact Decoded.isNan_of_sameNumber h
    | _ => cases h
  | double x =>
    cases b with
    | double y => exact Decoded.isNan_of_sameNumber h
    | _ => cases h
  | json i =>
    cases b with
    | json j => exact Json.hasNan_of_same h
    | _ => cases h
  | array as =>
    cases b with
    | array bs => exact itemsHaveNan_of_equal h
    | _ => cases h
  | _ => rfl
termination_by sizeOf a

theorem itemsHaveNan_of_equal {as bs : List Value} (h : equalItems as bs = true) :
    itemsHaveNan as = false := by
  match as, bs, h with
  | [], [], _ => rfl
  | a :: as, b :: bs, h =>
    obtain ⟨hab, hrest⟩ := Bool.and_eq_true_iff.mp h
    exact Bool.or_eq_false_iff.mpr ⟨hasNan_of_equal hab, itemsHaveNan_of_equal hrest⟩
termination_by sizeOf as

end

mutual

theorem equal_trans {a b c : Value} (hab : a.equal b = true) (hbc : b.equal c = true) :
    a.equal c = true := by
  rcases equal_cases hab with
    rfl | ⟨x, y, rfl, rfl, h⟩ | ⟨x, y, rfl, rfl, h⟩ | ⟨i, j, rfl, rfl, h⟩ | ⟨as, bs, rfl, rfl, h⟩
  · exact hbc
  · cases c with
    | single z => exact Decoded.sameNumber_trans h hbc
    | _ => cases hbc
  · cases c with
    | double z => exact Decoded.sameNumber_trans h hbc
    | _ => cases hbc
  · cases c with
    | json k => exact Json.same_trans h hbc
    | _ => cases hbc
  · cases c with
    | array cs => exact equalItems_trans h hbc
    | _ => cases hbc
termination_by sizeOf a

theorem equalItems_trans {as bs cs : List Value} (hab : equalItems as bs = true)
    (hbc : equalItems bs cs = true) : equalItems as cs = true := by
  match as, bs, cs, hab, hbc with
  | [], [], [], _, _ => rfl
  | a :: as, b :: bs, c :: cs, hab, hbc =>
    obtain ⟨hab, hrest⟩ := Bool.and_eq_true_iff.mp hab
    obtain ⟨hbc, hrest'⟩ := Bool.and_eq_true_iff.mp hbc
    exact Bool.and_eq_true_iff.mpr ⟨equal_trans hab hbc, equalItems_trans hrest hrest'⟩
termination_by sizeOf as

end

/-! ### Integers of any width -/

theorem number?_of_equal {a b : Value} (h : a.equal b = true) : a.number? = b.number? := by
  rcases equal_cases h with
    rfl | ⟨x, y, rfl, rfl, -⟩ | ⟨x, y, rfl, rfl, -⟩ | ⟨i, j, rfl, rfl, -⟩ |
      ⟨as, bs, rfl, rfl, -⟩ <;> rfl

theorem same_iff {a b : Value} :
    a.same b = true ↔ a.equal b = true ∨ ∃ n, a.number? = some n ∧ b.number? = some n := by
  unfold same
  rw [Bool.or_eq_true]
  refine or_congr_right ?_
  cases a.number? with
  | none => simp
  | some m =>
    cases b.number? with
    | none => simp
    | some n =>
      constructor
      · intro h
        exact ⟨n, congrArg some (eq_of_beq h), rfl⟩
      · rintro ⟨k, hm, hn⟩
        cases hm
        cases hn
        exact beq_self_eq_true _

theorem same_refl {v : Value} (h : v.hasNan = false) : v.same v = true :=
  same_iff.mpr (.inl (equal_refl h))

theorem same_self_iff {v : Value} : v.same v = true ↔ v.hasNan = false := by
  refine ⟨?_, same_refl⟩
  intro h
  rcases same_iff.mp h with h | ⟨n, hn, -⟩
  · exact hasNan_of_equal h
  · cases v with
    | single x => cases hn
    | double x => cases hn
    | json j => cases hn
    | array items => cases hn
    | _ => rfl

theorem same_symm {a b : Value} (h : a.same b = true) : b.same a = true := by
  rcases same_iff.mp h with h | ⟨n, ha, hb⟩
  · exact same_iff.mpr (.inl (equal_symm h))
  · exact same_iff.mpr (.inr ⟨n, hb, ha⟩)

theorem same_comm (a b : Value) : a.same b = b.same a :=
  Bool.eq_iff_iff.mpr ⟨same_symm, same_symm⟩

theorem same_trans {a b c : Value} (hab : a.same b = true) (hbc : b.same c = true) :
    a.same c = true := by
  rcases same_iff.mp hab with hab | ⟨m, ha, hb⟩
  · rcases same_iff.mp hbc with hbc | ⟨n, hb, hc⟩
    · exact same_iff.mpr (.inl (equal_trans hab hbc))
    · exact same_iff.mpr (.inr ⟨n, (number?_of_equal hab).trans hb, hc⟩)
  · rcases same_iff.mp hbc with hbc | ⟨n, hb', hc⟩
    · exact same_iff.mpr (.inr ⟨m, ha, (number?_of_equal hbc).symm.trans hb⟩)
    · rw [hb] at hb'
      cases hb'
      exact same_iff.mpr (.inr ⟨m, ha, hc⟩)

end Value

end RecordMapper
