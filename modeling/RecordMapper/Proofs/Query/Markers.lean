import RecordMapper.Proofs.Query.Offsets
import RecordMapper.Proofs.Statement.Slots

/-!
How the markers of trusted SQL are replaced.

* `marks` reads a text from left to right: two question marks side by side are one that is written,
  any other is the place of a value. `fill` writes what was read, with a text at each such place.
* `pieces_spec`: the pieces of a text with enough values are what was read, filled with the slots of
  the values.
* `markers_replaced_exactly`: a text is compiled exactly if it has a marker for each value.
-/
namespace RecordMapper

set_option autoImplicit false

namespace Marked

/-! ## Reading -/

/-- What stands at a place of a text. -/
inductive Mark where
  | char (c : Char)
  /-- A question mark that is written; it stands there twice. -/
  | question
  /-- The place of a value. -/
  | marker
  deriving DecidableEq

def marks : List Char → List Mark
  | [] => []
  | '?' :: '?' :: rest => .question :: marks rest
  | '?' :: rest => .marker :: marks rest
  | c :: rest => .char c :: marks rest

def markers (cs : List Char) : Nat := (marks cs).count .marker

/-- The text with the next of some texts at each marker. -/
def fill : List Mark → List String → String
  | [], _ => ""
  | .char c :: rest, texts => c.toString ++ fill rest texts
  | .question :: rest, texts => "?" ++ fill rest texts
  | .marker :: rest, text :: texts => text ++ fill rest texts
  | .marker :: _, [] => ""

theorem marks_question (rest : List Char) : marks ('?' :: '?' :: rest) = .question :: marks rest := by
  rw [marks]

theorem marks_marker {rest : List Char} (h : ∀ more, rest = '?' :: more → False) :
    marks ('?' :: rest) = .marker :: marks rest := by
  rw [marks]
  exact h

theorem marks_char {c : Char} (h : c ≠ '?') (rest : List Char) :
    marks (c :: rest) = .char c :: marks rest := by
  rw [marks]
  · exact fun _ hc _ => h hc
  · exact h

theorem markers_question (rest : List Char) : markers ('?' :: '?' :: rest) = markers rest := by
  simp [markers, marks_question]

theorem markers_marker {rest : List Char} (h : ∀ more, rest = '?' :: more → False) :
    markers ('?' :: rest) = markers rest + 1 := by
  simp [markers, marks_marker h]

theorem markers_char {c : Char} (h : c ≠ '?') (rest : List Char) :
    markers (c :: rest) = markers rest := by
  simp [markers, marks_char h]

/-! ## Pieces -/

/-- The fragment is the text with the slots of the first values at its markers. -/
structure Replaces (cs : List Char) (vs : List Value) (f : Fragment) : Prop where
  values : f.values = boundOf (vs.take (markers cs))
  written : ∀ d bound, f.write d bound = fill (marks cs) (Dialect.slots d bound vs)

namespace Replaces

variable {cs rest : List Char} {vs : List Value} {f : Fragment}

theorem char (h : Replaces rest vs f) {c : Char} (hc : c ≠ '?') :
    Replaces (c :: rest) vs (.text c.toString :: f) where
  values := by
    rw [markers_char hc, ← h.values]
    rfl
  written d bound := by
    rw [marks_char hc, Fragment.write_text, h.written, fill]

theorem question (h : Replaces rest vs f) : Replaces ('?' :: '?' :: rest) vs (.text "?" :: f) where
  values := by
    rw [markers_question, ← h.values]
    rfl
  written d bound := by
    rw [marks_question, Fragment.write_text, h.written, fill]

theorem value (h : Replaces rest vs f) (hrest : ∀ more, rest = '?' :: more → False) (v : Value) :
    Replaces ('?' :: rest) (v :: vs) (Fragment.bind v ++ f) where
  values := by
    rw [Fragment.values_append, Fragment.values_bind, h.values, markers_marker hrest,
      List.take_succ_cons]
    exact (boundOf_append [v] _).symm
  written d bound := by
    rw [marks_marker hrest, Fragment.write_append, Fragment.write_bind, Fragment.values_bind,
      h.written, Dialect.slots, fill]

end Replaces

/-- A text is in pieces exactly if there is a value for each of its markers. -/
theorem pieces_spec (cs : List Char) (values : List Value) :
    (markers cs ≤ values.length →
      ∃ f, pieces cs values = some (f, markers cs) ∧ Replaces cs values f) ∧
    (values.length < markers cs → pieces cs values = none) := by
  induction cs, values using pieces.induct with
  | case1 values =>
    have hempty : Replaces [] values [] := ⟨rfl, fun _ _ => rfl⟩
    exact ⟨fun _ => ⟨[], rfl, hempty⟩, fun h => absurd h (Nat.not_lt_zero _)⟩
  | case2 rest values ih =>
    rw [markers_question, pieces]
    constructor
    · intro h
      obtain ⟨f, hf, hreplaces⟩ := ih.1 h
      exact ⟨_, by rw [hf]; rfl, hreplaces.question⟩
    · intro h
      rw [ih.2 h]
      rfl
  | case3 rest hrest =>
    have hpieces : pieces ('?' :: rest) [] = none := by
      rw [pieces]
      exact hrest
    rw [markers_marker hrest]
    exact ⟨fun h => absurd h (Nat.not_succ_le_zero _), fun _ => hpieces⟩
  | case4 rest v values hrest ih =>
    have hpieces : pieces ('?' :: rest) (v :: values) =
        (pieces rest values).map fun q => (Fragment.bind v ++ q.1, q.2 + 1) := by
      rw [pieces]
      exact hrest
    rw [markers_marker hrest, hpieces, List.length_cons]
    constructor
    · intro h
      obtain ⟨f, hf, hreplaces⟩ := ih.1 (Nat.le_of_succ_le_succ h)
      exact ⟨_, by rw [hf]; rfl, hreplaces.value hrest v⟩
    · intro h
      rw [ih.2 (Nat.lt_of_succ_lt_succ h)]
      rfl
  | case5 c rest values hquestion hnone hvalue ih =>
    have hc : c ≠ '?' := by
      rintro rfl
      cases values with
      | nil => exact hnone rfl rfl
      | cons v values => exact hvalue v values rfl rfl
    have hpieces : pieces (c :: rest) values =
        (pieces rest values).map fun q => (.text c.toString :: q.1, q.2) := by
      rw [pieces]
      all_goals assumption
    rw [markers_char hc, hpieces]
    constructor
    · intro h
      obtain ⟨f, hf, hreplaces⟩ := ih.1 h
      exact ⟨_, by rw [hf]; rfl, hreplaces.char hc⟩
    · intro h
      rw [ih.2 h]
      rfl

/-! ## Compiling -/

theorem compile_eq (sql : String) (values : List Value) :
    (markers sql.toList = values.length →
      ∃ f, compile sql values = .ok f ∧ f.values = boundOf values ∧
        ∀ d bound, f.write d bound = fill (marks sql.toList) (Dialect.slots d bound values)) ∧
    (markers sql.toList ≠ values.length →
      ∃ fault, compile sql values = .error fault ∧ fault.isCompilation = true) := by
  obtain ⟨henough, hmissing⟩ := pieces_spec sql.toList values
  unfold compile
  constructor
  · intro h
    obtain ⟨f, hf, hreplaces⟩ := henough (Nat.le_of_eq h)
    have hvalues := hreplaces.values
    rw [h, List.take_length] at hvalues
    rw [hf]
    exact ⟨f, if_pos h, hvalues, hreplaces.written⟩
  · intro h
    rcases Nat.lt_or_gt_of_ne h with hfewer | hmore
    · obtain ⟨f, hf, -⟩ := henough (Nat.le_of_lt hfewer)
      rw [hf]
      exact ⟨_, if_neg h, rfl⟩
    · rw [hmissing hmore]
      exact ⟨_, rfl, rfl⟩

theorem compileInto_filled (d : Dialect) (offset : Nat) (params : List Value) {sql : String}
    {values : List Value} (h : markers sql.toList = values.length) :
    (compileInto d offset sql values).run params =
      .ok (fill (marks sql.toList) (d.slots (offset + params.length) values),
        params ++ boundOf values) := by
  obtain ⟨f, hf, hvalues, hwritten⟩ := (compile_eq sql values).1 h
  rw [compileInto_run, hf]
  show Except.ok (f.write d (offset + params.length), params ++ f.values) = _
  rw [hwritten, hvalues]

/-- Each question mark twice. -/
def doubledMarks (text : String) : String :=
  String.ofList (text.toList.flatMap (Dialect.doubled '?'))

/-- A text with each question mark twice is the text itself: it has no markers. -/
theorem marks_doubled (cs : List Char) :
    markers (cs.flatMap (Dialect.doubled '?')) = 0 ∧
      fill (marks (cs.flatMap (Dialect.doubled '?'))) [] = String.ofList cs := by
  induction cs with
  | nil => exact ⟨rfl, rfl⟩
  | cons c rest ih =>
    have hfirst : c.toString ++ String.ofList rest = String.ofList (c :: rest) := by
      apply String.ext
      simp
    rw [List.flatMap_cons]
    by_cases hc : c = '?'
    · have htwice : Dialect.doubled '?' c = ['?', '?'] := by simp [Dialect.doubled, hc]
      rw [htwice, List.cons_append, List.cons_append, List.nil_append, markers_question,
        marks_question, fill, ih.2, ← hfirst, hc]
      exact ⟨ih.1, rfl⟩
    · have honce : Dialect.doubled '?' c = [c] := if_neg hc
      rw [honce, List.singleton_append, markers_char hc, marks_char hc, fill, ih.2, hfirst]
      exact ⟨ih.1, rfl⟩

/-- Trusted SQL behind `offset` values and those of a list. It is compiled exactly if it has a marker
for each value; all else is refused as not to be compiled. The slots of the values stand in place of
the markers, a question mark in place of each two, and the bound values are added to the list. So a
text whose question marks are all written twice is written as it was, and binds nothing. -/
theorem markers_replaced_exactly (d : Dialect) (offset : Nat) (params : List Value) (sql : String)
    (values : List Value) :
    ((compileInto d offset sql values).run params =
      (compile sql values).map (Fragment.added d offset params)) ∧
    (markers sql.toList = values.length →
      (compileInto d offset sql values).run params =
        .ok (fill (marks sql.toList) (d.slots (offset + params.length) values),
          params ++ boundOf values)) ∧
    (markers sql.toList ≠ values.length →
      ∃ fault, (compileInto d offset sql values).run params = .error fault ∧
        fault.isCompilation = true) ∧
    (∀ text, (compileInto d offset (doubledMarks text) []).run params = .ok (text, params)) := by
  have hrun := compileInto_run d offset params sql values
  refine ⟨hrun, compileInto_filled d offset params, fun h => ?_, fun text => ?_⟩
  · obtain ⟨fault, hfault, hcompilation⟩ := (compile_eq sql values).2 h
    rw [hrun, hfault]
    exact ⟨fault, rfl, hcompilation⟩
  · have hchars : (doubledMarks text).toList = text.toList.flatMap (Dialect.doubled '?') :=
      String.toList_ofList
    obtain ⟨hnone, htext⟩ := marks_doubled text.toList
    rw [← hchars] at hnone htext
    have hcount : markers (doubledMarks text).toList = ([] : List Value).length := hnone
    have hsame := compileInto_filled d offset params hcount
    rw [Dialect.slots, htext, String.ofList_toList] at hsame
    simpa [boundOf] using hsame

/-- Three question marks in a row are one that is written and a marker. -/
theorem markers_replaced_exactly_jsonOperators :
    marks "a ??| ? = ???".toList =
        [.char 'a', .char ' ', .question, .char '|', .char ' ', .marker, .char ' ', .char '=',
          .char ' ', .question, .marker] ∧
      (compileInto .postgres 2 "a ??| ? = ???" [.default, .int8 7]).run [.null] =
        .ok ("a ?| DEFAULT = ?$4", [.null, .int8 7]) := by
  have hexact := markers_replaced_exactly .postgres 2 [.null] "a ??| ? = ???" [.default, .int8 7]
  exact ⟨by decide, hexact.2.1 (by decide)⟩

end Marked

end RecordMapper
