import RecordMapper.Proofs.Number.Integers
import RecordMapper.Proofs.Number.Patterns
import RecordMapper.Proofs.Related.StoredTypes
import RecordMapper.Proofs.Value.Identifiers
import RecordMapper.Proofs.Value.Sameness

/-!
Keys and texts of values that are the same.

* `Value.IsPlain`: a value that holds neither a NaN nor JSON, at any depth of arrays.
* `key?_of_same`: values that are the same have one key, JSON apart, in which the two zeros are
  written differently.
* `typeAlias?_eq_iff`: they name one type, unless a zero has changed its sign. A type is named by a
  text, which shows the sign, and not by a key.
* `same_respects_keys`: sameness of plain values is an equivalence. An attribute that is not dirty
  files its record where the snapshot would file it, that one case apart (`flipped_zero_misled`).
-/
namespace RecordMapper

set_option autoImplicit false

open RecordMapper.Number RecordMapper.Text

namespace Value

/-! ## Keys of numbers -/

theorem keyOfDouble_zero {x : Binary64} {negative : Bool} {q : Int}
    (h : x.decode = .finite negative 0 q) : keyOfDouble x = ['i', ':', '0'] := by
  have hinteger : x.integer? = some 0 := by
    unfold Binary64.integer?
    rw [h]
    simp only [Nat.zero_mul, Nat.zero_mod, if_true, towardZero_zero]
  unfold keyOfDouble
  rw [hinteger]
  rfl

theorem keyOfDouble_of_same {x y : Binary64} (h : x.sameNumber y = true) :
    keyOfDouble x = keyOfDouble y := by
  rcases Binary64.sameNumber_cases h with rfl | ⟨negative, q, hx, hy⟩
  · rfl
  · rw [keyOfDouble_zero hx, keyOfDouble_zero hy]

theorem keyOfDouble_widen_of_same {x y : Binary32} (h : x.sameNumber y = true) :
    keyOfDouble x.widen = keyOfDouble y.widen := by
  rcases Binary32.sameNumber_cases h with rfl | ⟨negative, q, hx, hy⟩
  · rfl
  · rw [keyOfDouble_zero (decode_widen_zero hx), keyOfDouble_zero (decode_widen_zero hy)]

/-! ## Keys of values -/

mutual

/-- Whether there is JSON in it. -/
def hasJson : Value → Bool
  | .json _ => true
  | .array items => itemsHaveJson items
  | _ => false

def itemsHaveJson : List Value → Bool
  | [] => false
  | v :: rest => v.hasJson || itemsHaveJson rest

end

/-- Neither a NaN nor JSON, at any depth. -/
structure IsPlain (v : Value) : Prop where
  noNan : v.hasNan = false
  noJson : v.hasJson = false

mutual

theorem keyChars?_of_equal {a b : Value} (hjson : a.hasJson = false) (h : a.equal b = true) :
    a.keyChars? = b.keyChars? := by
  rcases equal_cases h with
    rfl | ⟨x, y, rfl, rfl, h⟩ | ⟨x, y, rfl, rfl, h⟩ | ⟨i, j, rfl, rfl, -⟩ | ⟨as, bs, rfl, rfl, h⟩
  · rfl
  · rw [keyChars?, keyChars?, keyOfDouble_widen_of_same h]
  · rw [keyChars?, keyChars?, keyOfDouble_of_same h]
  · cases hjson
  · rw [keyChars?, keyChars?, itemKeys_of_equal hjson h]
termination_by sizeOf a

theorem itemKeys_of_equal {as bs : List Value} (hjson : itemsHaveJson as = false)
    (h : equalItems as bs = true) : itemKeys as = itemKeys bs := by
  match as, bs, hjson, h with
  | [], [], _, _ => rfl
  | a :: as, b :: bs, hjson, h =>
    obtain ⟨ha, hrest⟩ := Bool.or_eq_false_iff.mp hjson
    obtain ⟨hab, hitems⟩ := Bool.and_eq_true_iff.mp h
    rw [itemKeys, itemKeys, keyChars?_of_equal ha hab, itemKeys_of_equal hrest hitems]
termination_by sizeOf as

end

theorem key?_of_same {a b : Value} (hjson : a.hasJson = false) (h : a.same b = true) :
    a.key? = b.key? := by
  rw [key?_eq_iff]
  rcases same_iff.mp h with h | ⟨n, ha, hb⟩
  · exact keyChars?_of_equal hjson h
  · rw [keyChars?_of_number ha, keyChars?_of_number hb]

/-- The zeros of JSON are the same and have two keys. -/
example : (json (.float ⟨0⟩)).same (json (.float ⟨0x8000000000000000⟩)) = true ∧
    (json (.float ⟨0⟩)).key? ≠ (json (.float ⟨0x8000000000000000⟩)).key? := by
  decide +kernel

/-! ## Zeros -/

mutual

/-- Whether a floating-point zero of the one has the other sign in the other. -/
def flipsZero : Value → Value → Bool
  | .single x, .single y => x.decode.isZero && decide (x ≠ y)
  | .double x, .double y => x.decode.isZero && decide (x ≠ y)
  | .array as, .array bs => itemsFlipZero as bs
  | _, _ => false

def itemsFlipZero : List Value → List Value → Bool
  | a :: as, b :: bs => a.flipsZero b || itemsFlipZero as bs
  | _, _ => false

end

mutual

theorem flipsZero_self (v : Value) : v.flipsZero v = false := by
  cases v with
  | single x => simp [flipsZero]
  | double x => simp [flipsZero]
  | array items =>
    rw [flipsZero]
    exact itemsFlipZero_self items
  | _ => rfl

theorem itemsFlipZero_self (items : List Value) : itemsFlipZero items items = false := by
  cases items with
  | nil => rfl
  | cons v rest => rw [itemsFlipZero, v.flipsZero_self, itemsFlipZero_self rest, Bool.or_false]

end

theorem flipsZero_of_number {v : Value} {n : Int} (h : v.number? = some n) (w : Value) :
    v.flipsZero w = false := by
  cases v with
  | int8 m => cases w <;> rfl
  | int16 m => cases w <;> rfl
  | int32 m => cases w <;> rfl
  | int64 m => cases w <;> rfl
  | _ => cases h

theorem eq_of_same_double {x y : Binary64} (h : x.sameNumber y = true)
    (hflip : (x.decode.isZero && decide (x ≠ y)) = false) : x = y := by
  rcases Binary64.sameNumber_cases h with heq | ⟨negative, q, hx, -⟩
  · exact heq
  · rw [hx] at hflip
    exact not_not.mp (of_decide_eq_false hflip)

theorem eq_of_same_single {x y : Binary32} (h : x.sameNumber y = true)
    (hflip : (x.decode.isZero && decide (x ≠ y)) = false) : x = y := by
  rcases Binary32.sameNumber_cases h with heq | ⟨negative, q, hx, -⟩
  · exact heq
  · rw [hx] at hflip
    exact not_not.mp (of_decide_eq_false hflip)

mutual

/-- Equal values whose zeros have the same signs are one value. -/
theorem eq_of_equal {a b : Value} (hjson : a.hasJson = false) (hflip : a.flipsZero b = false)
    (h : a.equal b = true) : a = b := by
  rcases equal_cases h with
    rfl | ⟨x, y, rfl, rfl, h⟩ | ⟨x, y, rfl, rfl, h⟩ | ⟨i, j, rfl, rfl, -⟩ | ⟨as, bs, rfl, rfl, h⟩
  · rfl
  · rw [eq_of_same_single h hflip]
  · rw [eq_of_same_double h hflip]
  · cases hjson
  · rw [eq_of_equalItems hjson hflip h]
termination_by sizeOf a

theorem eq_of_equalItems {as bs : List Value} (hjson : itemsHaveJson as = false)
    (hflip : itemsFlipZero as bs = false) (h : equalItems as bs = true) : as = bs := by
  match as, bs, hjson, hflip, h with
  | [], [], _, _, _ => rfl
  | a :: as, b :: bs, hjson, hflip, h =>
    obtain ⟨hjson, hjsons⟩ := Bool.or_eq_false_iff.mp hjson
    obtain ⟨hflip, hflips⟩ := Bool.or_eq_false_iff.mp hflip
    obtain ⟨hab, hitems⟩ := Bool.and_eq_true_iff.mp h
    rw [eq_of_equal hjson hflip hab, eq_of_equalItems hjsons hflips hitems]
termination_by sizeOf as

end

/-! ## Texts -/

theorem write_zero {x : Binary64} {negative : Bool} {q : Int}
    (h : x.decode = .finite negative 0 q) :
    (jsonOfDouble x).write = (if negative then ['-'] else []) ++ ['0', '.', '0'] := by
  have hfinite : x.isFinite = true := by
    unfold Binary64.isFinite
    rw [h]
  rw [jsonOfDouble, if_pos hfinite, Json.write, write_jsonNumber_zero h]

/-- The texts of the two zeros differ in their first character. -/
theorem write_zeros_ne {x y : Binary64} {negative : Bool} {q p : Int}
    (hx : x.decode = .finite negative 0 q) (hy : y.decode = .finite (!negative) 0 p)
    (r s : List Char) : (jsonOfDouble x).write ++ r ≠ (jsonOfDouble y).write ++ s := by
  rw [write_zero hx, write_zero hy]
  cases negative with
  | false => exact fun h => absurd (List.cons.inj h).1 (by decide)
  | true => exact fun h => absurd (List.cons.inj h).1 (by decide)

mutual

/-- Equal values with one text are one value. What stands behind the texts does not matter. -/
theorem eq_of_write_append {a b : Value} (hjson : a.hasJson = false) (h : a.equal b = true)
    {r s : List Char} (htext : a.toJson.write ++ r = b.toJson.write ++ s) : a = b ∧ r = s := by
  rcases equal_cases h with
    rfl | ⟨x, y, rfl, rfl, h⟩ | ⟨x, y, rfl, rfl, h⟩ | ⟨i, j, rfl, rfl, -⟩ | ⟨as, bs, rfl, rfl, h⟩
  · exact ⟨rfl, List.append_cancel_left htext⟩
  · rcases Binary32.sameNumber_cases h with rfl | ⟨negative, q, hx, hy⟩
    · exact ⟨rfl, List.append_cancel_left htext⟩
    · rw [toJson, toJson] at htext
      exact absurd htext (write_zeros_ne (decode_widen_zero hx) (decode_widen_zero hy) r s)
  · rcases Binary64.sameNumber_cases h with rfl | ⟨negative, q, hx, hy⟩
    · exact ⟨rfl, List.append_cancel_left htext⟩
    · rw [toJson, toJson] at htext
      exact absurd htext (write_zeros_ne hx hy r s)
  · cases hjson
  · rw [toJson, toJson, Json.write, Json.write, List.cons_append, List.cons_append,
      List.cons_append, List.cons_append, List.append_assoc, List.append_assoc] at htext
    obtain ⟨rfl, hrest⟩ := eq_of_writeItems_append hjson h (List.cons.inj htext).2
    exact ⟨rfl, (List.cons.inj hrest).2⟩
termination_by sizeOf a

theorem eq_of_writeItems_append {as bs : List Value} (hjson : itemsHaveJson as = false)
    (h : equalItems as bs = true) {r s : List Char}
    (htext : Json.writeItems (itemsToJson as) ++ r = Json.writeItems (itemsToJson bs) ++ s) :
    as = bs ∧ r = s := by
  match as, bs, hjson, h, htext with
  | [], [], _, _, htext => exact ⟨rfl, htext⟩
  | [a], [b], hjson, h, htext =>
    obtain ⟨rfl, hrest⟩ := eq_of_write_append (Bool.or_eq_false_iff.mp hjson).1
      (Bool.and_eq_true_iff.mp h).1 htext
    exact ⟨rfl, hrest⟩
  | [a], b :: b' :: bs, _, h, _ => cases (Bool.and_eq_true_iff.mp h).2
  | a :: a' :: as, [b], _, h, _ => cases (Bool.and_eq_true_iff.mp h).2
  | a :: a' :: as, b :: b' :: bs, hjson, h, htext =>
    obtain ⟨hjson, hjsons⟩ := Bool.or_eq_false_iff.mp hjson
    obtain ⟨hab, hitems⟩ := Bool.and_eq_true_iff.mp h
    simp only [itemsToJson, Json.writeItems, List.append_assoc, List.cons_append] at htext
    obtain ⟨rfl, hrest⟩ := eq_of_write_append hjson hab htext
    obtain ⟨heq, hrest⟩ := eq_of_writeItems_append hjsons hitems (List.cons.inj hrest).2
    exact ⟨by rw [heq], hrest⟩
termination_by sizeOf as

end

theorem eq_of_text {a b : Value} (hjson : a.hasJson = false) (h : a.equal b = true)
    (htext : a.toJson.text = b.toJson.text) : a = b := by
  have hwrite : a.toJson.write = b.toJson.write := String.ofList_injective htext
  exact (eq_of_write_append hjson h (congrArg (· ++ []) hwrite)).1

/-! ## Types -/

theorem typeAlias?_of_number {v : Value} {n : Int} (h : v.number? = some n) :
    v.typeAlias? = some (Json.integer n).text := by
  cases v with
  | int8 m => rw [← Option.some.inj h]; rfl
  | int16 m => rw [← Option.some.inj h]; rfl
  | int32 m => rw [← Option.some.inj h]; rfl
  | int64 m => rw [← Option.some.inj h]; rfl
  | _ => cases h

theorem eq_of_typeAlias? {a b : Value} (hjson : a.hasJson = false) (h : a.equal b = true)
    (hname : a.typeAlias? = b.typeAlias?) : a = b := by
  rcases equal_cases h with
    rfl | ⟨x, y, rfl, rfl, -⟩ | ⟨x, y, rfl, rfl, -⟩ | ⟨i, j, rfl, rfl, -⟩ | ⟨as, bs, rfl, rfl, -⟩
  · rfl
  · exact eq_of_text hjson h (Option.some.inj hname)
  · exact eq_of_text hjson h (Option.some.inj hname)
  · cases hjson
  · exact eq_of_text hjson h (Option.some.inj hname)

/-- Values that are the same name one type, unless a zero has changed its sign. -/
theorem typeAlias?_eq_iff {a b : Value} (hjson : a.hasJson = false) (h : a.same b = true) :
    a.typeAlias? = b.typeAlias? ↔ a.flipsZero b = false := by
  rcases same_iff.mp h with h | ⟨n, ha, hb⟩
  · constructor
    · intro hname
      rw [eq_of_typeAlias? hjson h hname]
      exact flipsZero_self b
    · intro hflip
      rw [eq_of_equal hjson hflip h]
  · refine iff_of_true ?_ (flipsZero_of_number ha b)
    rw [typeAlias?_of_number ha, typeAlias?_of_number hb]

end Value

/-! ## Records -/

namespace Record

/-- The record as its row was last read or written. -/
def asStored (p : Record) : Record := { p with attributes := p.snapshot }

/-- The attribute is not dirty, and its value is plain. -/
structure IsUnchanged (p : Record) (name : String) : Prop where
  plain : (p.value name).IsPlain
  clean : p.isAttributeDirty name = false

theorem IsUnchanged.same {p : Record} {name : String} (h : p.IsUnchanged name) :
    (p.value name).same (p.asStored.value name) = true := by
  have hclean := h.clean
  unfold isAttributeDirty at hclean
  unfold value
  show ((p.get? name).getD .null).same ((p.snapshot.get? name).getD .null) = true
  cases hcurrent : p.get? name with
  | none =>
    cases hold : p.snapshot.get? name with
    | none => rfl
    | some old => rw [hcurrent, hold] at hclean; cases hclean
  | some current =>
    cases hold : p.snapshot.get? name with
    | none => rw [hcurrent, hold] at hclean; cases hclean
    | some old =>
      rw [hcurrent, hold] at hclean
      simpa using hclean

theorem IsUnchanged.key?_eq {p : Record} {name : String} (h : p.IsUnchanged name) :
    (p.value name).key? = (p.asStored.value name).key? :=
  Value.key?_of_same h.plain.noJson h.same

theorem IsUnchanged.typeAlias?_eq_iff {p : Record} {name : String} (h : p.IsUnchanged name) :
    (p.value name).typeAlias? = (p.asStored.value name).typeAlias? ↔
      (p.value name).flipsZero (p.asStored.value name) = false :=
  Value.typeAlias?_eq_iff h.plain.noJson h.same

end Record

/-! ## Related records -/

/-- The key of a type and a parent determines the type. If the parent has no key, there is none. -/
theorem typedKey_eq_iff {s t : Option String} {u v : Value} (hkey : u.key? = v.key?) :
    (s.bind fun type => Key.composite? [.text type, u]) =
        (t.bind fun type => Key.composite? [.text type, v]) ↔ u.key? = none ∨ s = t := by
  have hchars := Value.key?_eq_iff.mp hkey
  simp only [composite?_type, hchars, Value.key?, Option.map_eq_none_iff]
  cases v.keyChars? with
  | none => simp
  | some cs => cases s <;> cases t <;> simp

namespace Relation

variable {r : Relation} {p : Record}

/-- The attributes by which the related records of a record are found are unchanged. -/
structure IsSettled (r : Relation) (p : Record) : Prop where
  key : p.IsUnchanged r.parentColumn
  type : r.kind = .morphTo → p.IsUnchanged r.morphTypeColumn

theorem parentKey?_untyped (hkind : r.kind ≠ .morphTo) (p : Record) :
    r.parentKey? p = (p.value r.parentColumn).key? := by
  unfold parentKey?
  split
  · next heq => exact absurd heq hkind
  · rfl

theorem parentKey?_asStored_ne_iff (h : r.IsSettled p) :
    r.parentKey? p ≠ r.parentKey? p.asStored ↔
      r.kind = .morphTo ∧ (p.value r.parentColumn).key? ≠ none ∧
        (p.value r.morphTypeColumn).flipsZero (p.asStored.value r.morphTypeColumn) = true := by
  have hkey := h.key.key?_eq
  by_cases hkind : r.kind = .morphTo
  · have htype := (h.type hkind).typeAlias?_eq_iff
    rw [parentKey?_typed hkind, parentKey?_typed hkind, Ne, typedKey_eq_iff hkey, not_or, htype,
      Bool.not_eq_false]
    exact (and_iff_right hkind).symm
  · have heq : r.parentKey? p = r.parentKey? p.asStored := by
      rw [parentKey?_untyped hkind, parentKey?_untyped hkind, hkey]
    exact iff_of_false (not_not.mpr heq) fun hflip => hkind hflip.1

end Relation

/-- Sameness of plain values is an equivalence that keys respect. So a record whose attributes are
unchanged is given the related records that it is given as stored, unless they are found by a type
in which a zero has changed its sign. -/
theorem Value.same_respects_keys :
    Equivalence (fun a b : { v : Value // v.IsPlain } => a.val.same b.val = true) ∧
    (∀ a b : Value, a.IsPlain → b.IsPlain → a.same b = true → a.key? = b.key?) ∧
    ∀ (p : Record) (r : Relation), r.IsSettled p →
      (r.parentKey? p ≠ r.parentKey? p.asStored ↔
        r.kind = .morphTo ∧ (p.value r.parentColumn).key? ≠ none ∧
          (p.value r.morphTypeColumn).flipsZero (p.asStored.value r.morphTypeColumn) = true) := by
  refine ⟨⟨fun v => same_refl v.property.noNan, same_symm, same_trans⟩, ?_, ?_⟩
  · intro a b ha _ hsame
    exact key?_of_same ha.noJson hsame
  · intro p r hsettled
    exact r.parentKey?_asStored_ne_iff hsettled

/-- A comment on post 7, whose key is then given another width. -/
def widenedComment : Record :=
  (Record.hydrate (.plain "comments") ⟨["about_id", "about_type"], [.int32 7, .text "post"]⟩).set
    "about_id" (.int64 7)

/-- The two zeros within an array, and a key of another width. -/
theorem Value.same_respects_keys_widened :
    ((array [double ⟨0⟩, array [text "x", null]]).IsPlain ∧
      (array [double ⟨0x8000000000000000⟩, array [text "x", null]]).IsPlain ∧
      (array [double ⟨0⟩, array [text "x", null]]).same
        (array [double ⟨0x8000000000000000⟩, array [text "x", null]]) = true ∧
      (array [double ⟨0⟩, array [text "x", null]]).key? =
        (array [double ⟨0x8000000000000000⟩, array [text "x", null]]).key?) ∧
    ((Relation.plain "about" .morphTo none).IsSettled widenedComment ∧
      (Relation.plain "about" .morphTo none).parentKey? widenedComment =
        (Relation.plain "about" .morphTo none).parentKey? widenedComment.asStored) := by
  have hfirst : (array [double ⟨0⟩, array [text "x", null]]).IsPlain := ⟨rfl, rfl⟩
  have hsecond : (array [double ⟨0x8000000000000000⟩, array [text "x", null]]).IsPlain := ⟨rfl, rfl⟩
  have hsame : (array [double ⟨0⟩, array [text "x", null]]).same
      (array [double ⟨0x8000000000000000⟩, array [text "x", null]]) = true := rfl
  have hsettled : (Relation.plain "about" .morphTo none).IsSettled widenedComment :=
    ⟨⟨⟨rfl, rfl⟩, rfl⟩, fun _ => ⟨⟨rfl, rfl⟩, rfl⟩⟩
  refine ⟨⟨hfirst, hsecond, hsame, same_respects_keys.2.1 _ _ hfirst hsecond hsame⟩, hsettled, ?_⟩
  by_contra hne
  obtain ⟨-, -, hflip⟩ := (same_respects_keys.2.2 _ _ hsettled).mp hne
  cases hflip

/-- A comment on the post 7, where the type of posts is a zero that is then given the other sign. -/
def flippedComment : Record :=
  (Record.hydrate (.plain "comments") ⟨["about_id", "about_type"], [.int64 7, .double ⟨0⟩]⟩).set
    "about_type" (.double ⟨0x8000000000000000⟩)

/-- Nothing is dirty, and the related record is searched for under another type. -/
theorem flipped_zero_misled :
    (Relation.plain "about" .morphTo none).IsSettled flippedComment ∧
    (Relation.plain "about" .morphTo none).parentKey? flippedComment.asStored =
      some ⟨"s:0.0|i:7"⟩ ∧
    (Relation.plain "about" .morphTo none).parentKey? flippedComment = some ⟨"s:-0.0|i:7"⟩ ∧
    ¬∀ (p : Record) (r : Relation), r.IsSettled p → r.parentKey? p = r.parentKey? p.asStored := by
  have hsettled : (Relation.plain "about" .morphTo none).IsSettled flippedComment :=
    ⟨⟨⟨rfl, rfl⟩, rfl⟩, fun _ => ⟨⟨rfl, rfl⟩, rfl⟩⟩
  have hstored : (Relation.plain "about" .morphTo none).parentKey? flippedComment.asStored =
      some ⟨"s:0.0|i:7"⟩ := by decide +kernel
  have hgiven : (Relation.plain "about" .morphTo none).parentKey? flippedComment =
      some ⟨"s:-0.0|i:7"⟩ := by decide +kernel
  refine ⟨hsettled, hstored, hgiven, fun h => ?_⟩
  have hsame := h flippedComment _ hsettled
  rw [hstored, hgiven] at hsame
  exact absurd hsame (by decide)

end RecordMapper
