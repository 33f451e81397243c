import RecordMapper.Proofs.Statement.Lexemes
import RecordMapper.Proofs.Statement.Supplied

/-!
A statement as the database gets it: characters, names, and values in the place of placeholders.

* `Statement.tokens` reads them off the text and the values of a statement.
* `Fragment.isLegible`: a fragment whose names and placeholders are set apart from what follows. Its
  statement is read as it was written (`Fragment.tokens_statement`).
* `Token.expect` and `Token.separated` read tokens from the front.
-/
namespace RecordMapper

set_option autoImplicit false

open RecordMapper.Text

inductive Token where
  | plain (c : Char)
  | name (identifier : String)
  | value (v : Value)

/-! ## Values in their places -/

/-- The value of a numbered placeholder. -/
def numbered? (values : List Value) (digits : List Char) : Option Value :=
  match Nat.ofDigitChars 10 digits 0 with
  | 0 => none
  | k + 1 => values[k]?

/-- Puts the values in the places of placeholders, of which `bound` came before. A placeholder with
a number is `open` until its last digit. -/
def placeFrom (d : Dialect) (values : List Value) :
    Nat → Option (List Char) → List Lexeme → Option (List Token)
  | _, none, [] => some []
  | _, some digits, [] => (numbered? values digits).map fun v => [.value v]
  | bound, none, .name identifier :: rest =>
    (placeFrom d values bound none rest).map (.name identifier :: ·)
  | bound, some digits, .name identifier :: rest =>
    (numbered? values digits).bind fun v =>
      (placeFrom d values (bound + 1) none rest).map ([.value v, .name identifier] ++ ·)
  | bound, none, .plain c :: rest =>
    if d = .postgres ∧ c = '$' then placeFrom d values bound (some []) rest
    else if d ≠ .postgres ∧ c = '?' then
      values[bound]?.bind fun v => (placeFrom d values (bound + 1) none rest).map (.value v :: ·)
    else (placeFrom d values bound none rest).map (.plain c :: ·)
  | bound, some digits, .plain c :: rest =>
    if c.isDigit then placeFrom d values bound (some (digits ++ [c])) rest
    else (numbered? values digits).bind fun v =>
      (placeFrom d values (bound + 1) none rest).map ([.value v, .plain c] ++ ·)

def Statement.tokens (d : Dialect) (st : Statement) : Option (List Token) :=
  (lexemes d.quoteChar st.sql).bind (placeFrom d st.values 0 none)

namespace Fragment

def tokens : Fragment → List Token
  | [] => []
  | .text sql :: rest => sql.toList.map .plain ++ tokens rest
  | .name identifier :: rest => .name identifier :: tokens rest
  | .hole v :: rest => .value v :: tokens rest

theorem tokens_append (f g : Fragment) : tokens (f ++ g) = tokens f ++ tokens g := by
  induction f with
  | nil => rfl
  | cons p rest ih => cases p <;> simp [tokens, ih]

/-- Whether nothing follows, or a text that is no digit. -/
def opensText : Fragment → Bool
  | [] => true
  | .text sql :: _ => !(sql.toList.headD ' ').isDigit
  | _ => false

def isLegible : Fragment → Bool
  | [] => true
  | .text sql :: rest => isUnquoted sql && isQuiet sql && isLegible rest
  | .name _ :: rest => opensText rest && isLegible rest
  | .hole _ :: rest => opensText rest && isLegible rest

section Legible

variable {f g : Fragment}

theorem opensPlain_of_opensText (h : f.opensText = true) : f.opensPlain = true := by
  cases f with
  | nil => rfl
  | cons p rest => cases p <;> first | rfl | cases h

theorem isApart_of_isLegible (h : f.isLegible = true) : f.isApart = true := by
  induction f with
  | nil => rfl
  | cons p rest ih =>
    cases p with
    | text sql =>
      simp only [isLegible, Bool.and_eq_true] at h
      simp only [isApart, h.1.1, ih h.2, Bool.and_self]
    | name identifier =>
      simp only [isLegible, Bool.and_eq_true] at h
      simp only [isApart, opensPlain_of_opensText h.1, ih h.2, Bool.and_self]
    | hole v =>
      simp only [isLegible, Bool.and_eq_true] at h
      simp only [isApart, ih h.2]

theorem isLegible_append (hf : f.isLegible = true) (hg : g.isLegible = true)
    (hopens : g.opensText = true) : isLegible (f ++ g) = true := by
  induction f with
  | nil => exact hg
  | cons p rest ih =>
    have hrest : opensText rest = true → opensText (rest ++ g) = true := by
      intro h
      cases rest with
      | nil => exact hopens
      | cons p rest => cases p <;> exact h
    cases p with
    | text sql =>
      simp only [isLegible, Bool.and_eq_true] at hf
      simp only [List.cons_append, isLegible, hf.1.1, hf.1.2, ih hf.2, Bool.and_self]
    | name identifier | hole v =>
      simp only [isLegible, Bool.and_eq_true] at hf
      simp only [List.cons_append, isLegible, hrest hf.1, ih hf.2, Bool.and_self]

theorem isLegible_joined {separator : String} {fs : List Fragment}
    (h : ∀ f ∈ fs, isLegible f = true) (hunquoted : isUnquoted separator = true)
    (hquiet : isQuiet separator = true) (hdigit : (separator.toList.headD ' ').isDigit = false) :
    isLegible (joined separator fs) = true := by
  induction fs with
  | nil => rfl
  | cons f rest ih =>
    have hf := h f (List.mem_cons_self ..)
    have hrest := ih fun g hg => h g (List.mem_cons_of_mem f hg)
    cases rest with
    | nil => exact hf
    | cons g rest =>
      refine isLegible_append hf ?_ ?_
      · simp only [isLegible, hunquoted, hquiet, hrest, Bool.and_self]
      · simp only [opensText, hdigit, Bool.not_false]

theorem isLegible_path (p : String) : isLegible (path p) = true := by
  refine isLegible_joined ?_ rfl rfl rfl
  intro f hf
  obtain ⟨s, -, rfl⟩ := List.mem_map.mp hf
  unfold segment
  split
  · next hs =>
    rw [hs]
    rfl
  · rfl

end Legible

/-! ## Reading what was written -/

section Placed

variable {d : Dialect} {values : List Value}

theorem placeFrom_plain {s : List Char} (h : s.all (fun c => c != '?' && c != '$') = true)
    (bound : Nat) (rest : List Lexeme) :
    placeFrom d values bound none (s.map .plain ++ rest) =
      (placeFrom d values bound none rest).map (s.map .plain ++ ·) := by
  induction s with
  | nil => simp
  | cons c cs ih =>
    rw [List.all_cons, Bool.and_eq_true, Bool.and_eq_true, bne_iff_ne, bne_iff_ne] at h
    rw [List.map_cons, List.cons_append, placeFrom, if_neg (fun hc => h.1.2 hc.2),
      if_neg (fun hc => h.1.1 hc.2), ih h.2, Option.map_map]
    rfl

theorem placeFrom_digits {s : List Char} (h : ∀ c ∈ s, c.isDigit = true) (bound : Nat)
    (digits : List Char) (rest : List Lexeme) :
    placeFrom d values bound (some digits) (s.map .plain ++ rest) =
      placeFrom d values bound (some (digits ++ s)) rest := by
  induction s generalizing digits with
  | nil => simp
  | cons c cs ih =>
    rw [List.map_cons, List.cons_append, placeFrom, if_pos (h c (List.mem_cons_self ..)),
      ih fun c hc => h c (List.mem_cons_of_mem _ hc)]
    rw [List.append_assoc, List.singleton_append]

theorem numbered?_natChars (values : List Value) (n : Nat) :
    numbered? values (natChars (n + 1)) = values[n]? := by
  have hn : Nat.ofDigitChars 10 (natChars (n + 1)) 0 = n + 1 := by simp [natChars]
  unfold numbered?
  rw [hn]

/-- Whether what follows a number ends it: neither a digit nor a placeholder. -/
def endsNumber : List Lexeme → Prop
  | .plain c :: _ => c.isDigit = false ∧ c ≠ '$'
  | _ => True

theorem placeFrom_open {rest : List Lexeme} (h : endsNumber rest) (bound : Nat)
    (digits : List Char) :
    placeFrom .postgres values bound (some digits) rest =
      (numbered? values digits).bind fun v =>
        (placeFrom .postgres values (bound + 1) none rest).map (.value v :: ·) := by
  cases rest with
  | nil => cases hn : numbered? values digits <;> simp [placeFrom, hn]
  | cons l rest =>
    cases l with
    | name identifier =>
      simp only [placeFrom, Option.map_map]
      rfl
    | plain c =>
      have hdigit : ¬(c.isDigit = true) := by simp [h.1]
      have hrest : placeFrom .postgres values (bound + 1) none (.plain c :: rest) =
          (placeFrom .postgres values (bound + 1) none rest).map (.plain c :: ·) := by
        rw [placeFrom, if_neg fun hc => h.2 hc.2, if_neg fun hc => hc.1 rfl]
      rw [hrest, placeFrom, if_neg hdigit]
      simp only [Option.map_map]
      rfl

/-- A placeholder is read as its value, if it ends where it was written to. -/
theorem placeFrom_placeholder {bound : Nat} {v : Value} (hv : values[bound]? = some v)
    {rest : List Lexeme} (hrest : endsNumber rest) :
    placeFrom d values bound none ((d.placeholder (bound + 1)).map .plain ++ rest) =
      (placeFrom d values (bound + 1) none rest).map (.value v :: ·) := by
  by_cases hd : d = .postgres
  · subst hd
    have hdigits : ∀ c ∈ natChars (bound + 1), c.isDigit = true := fun c => isDigit_of_mem_natChars
    have hmark : Dialect.postgres.placeholder (bound + 1) = '$' :: natChars (bound + 1) := rfl
    rw [hmark, List.map_cons, List.cons_append, placeFrom, if_pos ⟨rfl, rfl⟩,
      placeFrom_digits hdigits, List.nil_append, placeFrom_open hrest, numbered?_natChars, hv]
    rfl
  · have hmark : d.placeholder (bound + 1) = ['?'] := by
      cases d <;> first | rfl | exact absurd rfl hd
    rw [hmark, List.map_cons, List.map_nil, List.singleton_append, placeFrom,
      if_neg (fun h => hd h.1), if_pos ⟨hd, rfl⟩, hv]
    rfl

/-- What follows a placeholder in a legible fragment ends its number. -/
theorem endsNumber_lexemes {f : Fragment} (h : f.isLegible = true) (hopens : f.opensText = true)
    (bound : Nat) : endsNumber (f.lexemes d bound) := by
  cases f with
  | nil => trivial
  | cons p rest =>
    cases p with
    | text sql =>
      simp only [isLegible, Bool.and_eq_true] at h
      obtain ⟨⟨hunquoted, hquiet⟩, -⟩ := h
      unfold isUnquoted at hunquoted
      unfold isQuiet at hquiet
      simp only [opensText] at hopens
      rw [lexemes]
      cases hchars : sql.toList with
      | nil => rw [hchars] at hunquoted; cases hunquoted
      | cons c cs =>
        rw [hchars] at hquiet hopens
        rw [List.all_cons, Bool.and_eq_true, Bool.and_eq_true, bne_iff_ne, bne_iff_ne] at hquiet
        exact ⟨by simpa using hopens, hquiet.1.2⟩
    | name identifier => cases hopens
    | hole v => cases hopens

theorem placeFrom_lexemes {f : Fragment} (h : f.isLegible = true) (before : List Value) :
    placeFrom d (before ++ f.values) before.length none (f.lexemes d before.length) =
      some f.tokens := by
  induction f generalizing before with
  | nil => rfl
  | cons p rest ih =>
    cases p with
    | text sql =>
      simp only [isLegible, Bool.and_eq_true] at h
      rw [lexemes, placeFrom_plain h.1.2]
      exact congrArg (Option.map _) (ih h.2 before)
    | name identifier =>
      simp only [isLegible, Bool.and_eq_true] at h
      exact congrArg (Option.map _) (ih h.2 before)
    | hole v =>
      simp only [isLegible, Bool.and_eq_true] at h
      have hv : (before ++ (v :: Fragment.values rest))[before.length]? = some v := by simp
      have hplaced := placeFrom_placeholder (d := d) hv
        (endsNumber_lexemes (d := d) h.2 h.1 (before.length + 1))
      have hrest := ih h.2 (before ++ [v])
      rw [List.append_assoc, List.singleton_append, List.length_append, List.length_singleton]
        at hrest
      rw [lexemes]
      exact hplaced.trans (congrArg (Option.map _) hrest)

theorem tokens_statement {f : Fragment} (h : f.isLegible = true) :
    (f.statement d 0).tokens d = some f.tokens := by
  have hlexemes := lexemes_eq (isApart_of_isLegible h) d 0
  unfold Statement.tokens RecordMapper.lexemes Fragment.statement Fragment.write
  rw [String.toList_ofList, hlexemes]
  exact placeFrom_lexemes h []

end Placed

end Fragment

/-! ## Reading tokens -/

namespace Token

def expectChars : List Char → List Token → Option (List Token)
  | [], ts => some ts
  | c :: cs, .plain c' :: ts => if c = c' then expectChars cs ts else none
  | _ :: _, _ => none

/-- What stands behind a text. -/
def expect (text : String) (ts : List Token) : Option (List Token) :=
  expectChars text.toList ts

/-- Items with a separator between each two, and what stands behind them. At most `bound` items are
read. -/
def separated {α : Type} (item : List Token → Option (α × List Token)) (separator : String) :
    Nat → List Token → Option (List α × List Token)
  | 0, _ => none
  | bound + 1, ts =>
    (item ts).bind fun (a, rest) =>
      match expect separator rest with
      | some rest =>
        (separated item separator bound rest).map fun (found, rest) => (a :: found, rest)
      | none => some ([a], rest)

theorem expectChars_plain (cs : List Char) (ts : List Token) :
    expectChars cs (cs.map .plain ++ ts) = some ts := by
  induction cs with
  | nil => rfl
  | cons c cs ih => rw [List.map_cons, List.cons_append, expectChars, if_pos rfl, ih]

theorem expect_text (sql : String) (f : Fragment) :
    expect sql (Fragment.tokens (.text sql :: f)) = some f.tokens :=
  expectChars_plain sql.toList f.tokens

/-- Whether two words differ before one of them ends. -/
def differ : List Char → List Char → Bool
  | c :: cs, c' :: cs' => c != c' || differ cs cs'
  | _, _ => false

/-- Where one word stands no other one does. -/
theorem expect_eq_none {text sql : String} (h : differ text.toList sql.toList = true)
    {ts rest : List Token} (hread : expect sql ts = some rest) : expect text ts = none := by
  unfold expect at hread ⊢
  generalize text.toList = cs at h
  generalize sql.toList = cs' at h hread
  induction cs generalizing cs' ts with
  | nil => cases h
  | cons c cs ih =>
    match cs', ts, h, hread with
    | c' :: cs', .plain d :: ts, h, hread =>
      rw [expectChars] at hread ⊢
      split at hread
      · next hd =>
        subst hd
        split
        · next hc =>
          subst hc
          rw [differ, bne_self_eq_false, Bool.false_or] at h
          exact ih cs' h hread
        · rfl
      · cases hread

theorem expect_text_none {text sql : String} (h : differ text.toList sql.toList = true)
    (f : Fragment) : expect text (Fragment.tokens (.text sql :: f)) = none :=
  expect_eq_none h (expect_text sql f)

end Token

end RecordMapper
