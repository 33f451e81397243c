import RecordMapper.Query.Marked
import RecordMapper.Statement.Fragment

/-!
What a caller supplies to a statement, and how it is spelled.

* `Supplied` is a value, or a character of trusted SQL; everything else in a statement is written by
  this library and has no character of a placeholder in it outside of quoted identifiers.
* `Spells d n xs sql params`: the text `sql` with the parameters `params` spells `xs` from left to
  right behind `n` placeholders. Each value is either the keyword DEFAULT, or a placeholder with the
  next number and the next parameter.
* `Fragment.Reads xs f`: the pieces of a fragment are those of `xs`, in their order, between pieces
  that are plain; `Fragment.Reads.spells` writes it.
-/
namespace RecordMapper

set_option autoImplicit false

open RecordMapper.Text

inductive Supplied where
  | value (v : Value)
  | trusted (c : Char)

namespace Supplied

def value? : Supplied → Option Value
  | .value v => some v
  | .trusted _ => none

/-- The values that are bound, in order. -/
def params (xs : List Supplied) : List Value :=
  (xs.filterMap value?).filter fun v => !v.isDefault

/-- The values of a row. -/
def row (values : List Value) : List Supplied := values.map value

end Supplied

/-! ## Plain pieces -/

/-- Neither a question mark nor a dollar sign occurs in the text. -/
def isQuiet (sql : String) : Bool := sql.toList.all fun c => c != '?' && c != '$'

theorem isQuiet_append {a b : String} (ha : isQuiet a = true) (hb : isQuiet b = true) :
    isQuiet (a ++ b) = true := by
  unfold isQuiet at *
  rw [String.toList_append, List.all_append, ha, hb]
  rfl

theorem isQuiet_ofNat (n : Nat) : isQuiet (ofNat n) = true := by
  unfold isQuiet ofNat natChars
  rw [String.toList_ofList, List.all_eq_true]
  intro c hc
  have hd : c.isDigit = true := Nat.isDigit_of_mem_toDigits (by omega) (by omega) hc
  rw [Bool.and_eq_true, bne_iff_ne, bne_iff_ne]
  constructor <;> (rintro rfl; exact absurd hd (by decide))

/-- Whether a piece can hold no placeholder outside of quotes. -/
def Piece.isPlain : Piece → Bool
  | .text sql => isQuiet sql
  | .name _ => true
  | .hole _ => false

def Piece.writePlain (d : Dialect) : Piece → List Char
  | .text sql => sql.toList
  | .name identifier => d.quoteChars identifier.toList
  | .hole _ => []

/-! ## Spelling -/

inductive Spells (d : Dialect) : Nat → List Supplied → List Char → List Value → Prop where
  | nil (n : Nat) : Spells d n [] [] []
  /-- Text of this library, or an identifier in quotes. -/
  | plain {n : Nat} {xs : List Supplied} {sql : List Char} {params : List Value} (p : Piece)
      (hp : p.isPlain = true) (h : Spells d n xs sql params) :
      Spells d n xs (p.writePlain d ++ sql) params
  | trusted {n : Nat} {xs : List Supplied} {sql : List Char} {params : List Value} (c : Char)
      (h : Spells d n xs sql params) : Spells d n (.trusted c :: xs) (c :: sql) params
  | default {n : Nat} {xs : List Supplied} {sql : List Char} {params : List Value}
      (h : Spells d n xs sql params) :
      Spells d n (.value .default :: xs) ("DEFAULT".toList ++ sql) params
  | bound {n : Nat} {xs : List Supplied} {sql : List Char} {params : List Value} (v : Value)
      (hv : v.isDefault = false) (h : Spells d (n + 1) xs sql params) :
      Spells d n (.value v :: xs) (d.placeholder (n + 1) ++ sql) (v :: params)

/-- The parameters are the values that are not left to their defaults. -/
theorem Spells.params_eq {d : Dialect} {n : Nat} {xs : List Supplied} {sql : List Char}
    {params : List Value} (h : Spells d n xs sql params) : params = Supplied.params xs := by
  induction h with
  | nil n => rfl
  | plain p hp h ih => exact ih
  | trusted c h ih => exact ih
  | default h ih => exact ih
  | bound v hv h ih =>
    rw [ih]
    simp [Supplied.params, Supplied.value?, hv]

namespace Fragment

theorem isBlank_append (f g : Fragment) : (f ++ g).isBlank = (f.isBlank && g.isBlank) :=
  List.all_append

theorem bind_of_isDefault {v : Value} (h : v.isDefault = false) : bind v = [.hole v] := by
  cases v <;> first | rfl | cases h

/-! ## Reading a fragment -/

inductive Reads : List Supplied → Fragment → Prop where
  | nil : Reads [] []
  | plain {xs : List Supplied} {f : Fragment} (p : Piece) (hp : p.isPlain = true)
      (h : Reads xs f) : Reads xs (p :: f)
  | trusted {xs : List Supplied} {f : Fragment} (c : Char) (h : Reads xs f) :
      Reads (.trusted c :: xs) (.text c.toString :: f)
  | value {xs : List Supplied} {f : Fragment} (v : Value) (h : Reads xs f) :
      Reads (.value v :: xs) (bind v ++ f)

namespace Reads

variable {xs ys : List Supplied} {f g : Fragment}

theorem append (hf : Reads xs f) (hg : Reads ys g) : Reads (xs ++ ys) (f ++ g) := by
  induction hf with
  | nil => exact hg
  | plain p hp h ih => exact ih.plain p hp
  | trusted c h ih => exact ih.trusted c
  | value v h ih =>
    rw [List.append_assoc]
    exact ih.value v

/-- Text of this library in front. -/
theorem text (sql : String) (h : isQuiet sql = true) (hf : Reads xs f) :
    Reads xs (.text sql :: f) :=
  hf.plain (.text sql) h

theorem bind (v : Value) : Reads [.value v] (bind v) := by
  have h := Reads.nil.value v
  rw [List.append_nil] at h
  exact h

/-- Text of this library behind. -/
theorem close (hf : Reads xs f) (sql : String) (h : isQuiet sql = true) :
    Reads xs (f ++ [.text sql]) := by
  have hc := hf.append (Reads.nil.text sql h)
  rw [List.append_nil] at hc
  exact hc

theorem parens (hf : Reads xs f) : Reads xs (parens f) :=
  (hf.text "(" rfl).close ")" rfl

theorem call (function : String) (h : isQuiet function = true) (hf : Reads xs f) :
    Reads xs (call function f) :=
  hf.parens.text function h

/-- Nothing of what is supplied is lost where nothing is written. -/
theorem eq_nil_of_isBlank (hf : Reads xs f) (h : f.isBlank = true) : xs = [] := by
  induction hf with
  | nil => rfl
  | plain p hp hf ih =>
    simp only [isBlank, List.all_cons, Bool.and_eq_true] at h
    exact ih h.2
  | trusted c hf ih => simp [isBlank] at h
  | value v hf ih => cases v <;> simp [isBlank, Fragment.bind] at h

/-- The text of a fragment behind `n` placeholders, and its values, spell what it reads. -/
theorem spells (d : Dialect) (n : Nat) (hf : Reads xs f) :
    Spells d n xs (writeFrom d n f) (values f) := by
  induction hf generalizing n with
  | nil => exact .nil n
  | plain p hp hf ih =>
    cases p with
    | text sql => exact .plain (.text sql) hp (ih n)
    | name identifier => exact .plain (.name identifier) hp (ih n)
    | hole v => simp [Piece.isPlain] at hp
  | trusted c hf ih =>
    have h := Spells.trusted c (ih n)
    simpa [writeFrom, values] using h
  | @value xs f v hf ih =>
    by_cases hv : v = .default
    · subst hv
      exact .default (ih n)
    · have hd : v.isDefault = false := by
        cases v <;> first | rfl | exact absurd rfl hv
      have hb : Fragment.bind v = [.hole v] := by
        cases v <;> first | rfl | exact absurd rfl hv
      rw [hb]
      exact .bound v hd (ih (n + 1))

end Reads

/-! ## Fragments side by side -/

inductive ReadsAll : List Supplied → List Fragment → Prop where
  | nil : ReadsAll [] []
  | cons {xs ys : List Supplied} {f : Fragment} {fs : List Fragment} (hf : Reads xs f)
      (hfs : ReadsAll ys fs) : ReadsAll (xs ++ ys) (f :: fs)

namespace ReadsAll

variable {xs ys : List Supplied} {fs gs : List Fragment}

theorem single {f : Fragment} (hf : Reads xs f) : ReadsAll xs [f] := by
  have h := ReadsAll.nil.cons hf
  rw [List.append_nil] at h
  exact h

theorem append (hf : ReadsAll xs fs) (hg : ReadsAll ys gs) : ReadsAll (xs ++ ys) (fs ++ gs) := by
  induction hf with
  | nil => exact hg
  | cons hf hfs ih =>
    rw [List.append_assoc]
    exact ih.cons hf

theorem joined (hf : ReadsAll xs fs) (separator : String)
    (h : isQuiet separator = true) : Reads xs (joined separator fs) := by
  induction hf with
  | nil => exact .nil
  | @cons xs ys f fs hf hfs ih =>
    cases fs with
    | nil =>
      cases hfs
      rw [List.append_nil]
      exact hf
    | cons g rest => exact hf.append (ih.text separator h)

/-- Fragments in which nothing is supplied. -/
theorem map_plain {α : Type} (f : α → Fragment) (items : List α) (h : ∀ a, Reads [] (f a)) :
    ReadsAll [] (items.map f) := by
  induction items with
  | nil => exact .nil
  | cons a rest ih => exact ih.cons (h a)

theorem map_bind (vs : List Value) : ReadsAll (Supplied.row vs) (vs.map bind) := by
  induction vs with
  | nil => exact .nil
  | cons v rest ih => exact ih.cons (Reads.bind v)

end ReadsAll

/-! ## Identifiers -/

theorem reads_name (identifier : String) : Reads [] (name identifier) :=
  Reads.nil.plain (.name identifier) rfl

theorem reads_names (identifiers : List String) : Reads [] (names identifiers) :=
  (ReadsAll.map_plain name identifiers reads_name).joined ", " rfl

theorem reads_path (p : String) : Reads [] (path p) := by
  refine (ReadsAll.map_plain _ (fields '.' p) fun s => ?_).joined "." rfl
  unfold segment
  split
  · next h => exact Reads.nil.text s (by rw [h]; rfl)
  · exact reads_name s

end Fragment

/-! ## Trusted SQL -/

namespace Marked

/-- A marked text with a value for each marker; values without a marker stand at the end. -/
def reading : List Char → List Value → List Supplied
  | [], values => Supplied.row values
  | '?' :: '?' :: rest, values => .trusted '?' :: reading rest values
  | '?' :: rest, v :: values => .value v :: reading rest values
  | c :: rest, values => .trusted c :: reading rest values

theorem pieces_reads (cs : List Char) (vs : List Value) (f : Fragment)
    (h : pieces cs vs = some (f, vs.length)) : Fragment.Reads (reading cs vs) f := by
  induction cs, vs using pieces.induct generalizing f with
  | case1 vs =>
    simp only [pieces, Option.some.injEq, Prod.mk.injEq] at h
    obtain ⟨rfl, hn⟩ := h
    rw [List.length_eq_zero_iff.mp hn.symm]
    exact .nil
  | case2 vs rest ih =>
    simp only [pieces, Option.map_eq_some_iff, Prod.exists, Prod.mk.injEq] at h
    obtain ⟨g, n, hg, rfl, rfl⟩ := h
    exact (ih g hg).trusted '?'
  | case3 rest hr => simp [pieces] at h
  | case4 rest v vs hr ih =>
    simp only [pieces, Option.map_eq_some_iff, Prod.exists, Prod.mk.injEq] at h
    obtain ⟨g, n, hg, rfl, hn⟩ := h
    rw [List.length_cons, Nat.add_right_cancel_iff] at hn
    rw [hn] at hg
    simp only [reading]
    exact (ih g hg).value v
  | case5 c rest vs h1 h2 h3 ih =>
    simp only [pieces, Option.map_eq_some_iff, Prod.exists, Prod.mk.injEq] at h
    obtain ⟨g, n, hg, rfl, rfl⟩ := h
    simp only [reading]
    exact (ih g hg).trusted c

theorem compile_reads {sql : String} {vs : List Value} {f : Fragment}
    (h : compile sql vs = .ok f) : Fragment.Reads (reading sql.toList vs) f := by
  unfold compile at h
  split at h
  · cases h
  · next g used hp =>
    split at h
    · next hu =>
      cases h
      subst hu
      exact pieces_reads sql.toList vs f hp
    · cases h

end Marked

end RecordMapper
