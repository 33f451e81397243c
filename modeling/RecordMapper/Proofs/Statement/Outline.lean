import RecordMapper.Proofs.Statement.Supplied
import RecordMapper.Text.Split

/-!
The outline of a text: its words outside of parentheses and quotes.

* `Scanner` keeps account of open parentheses and quotes. A text that begins a comment is not
  scanned.
* `outline` tells the words outside of both from all other symbols.
* A text in parentheses has no words in its outline (`outline_parens`), whatever it is, if its own
  parentheses and quotes are balanced. Trusted SQL keeps that with its markers replaced
  (`balanced_marked`).
-/
namespace RecordMapper

set_option autoImplicit false

open RecordMapper.Text

/-! ## Symbols -/

/-- A symbol of a fragment. Identifiers and bound values are read as wholes. -/
inductive Symbol where
  | char (c : Char)
  | name (identifier : String)
  | hole (value : Value)

def Piece.symbols : Piece → List Symbol
  | .text sql => sql.toList.map .char
  | .name identifier => [.name identifier]
  | .hole value => [.hole value]

def Fragment.symbols (f : Fragment) : List Symbol := f.flatMap Piece.symbols

theorem Fragment.symbols_append (f g : Fragment) :
    Fragment.symbols (f ++ g) = f.symbols ++ g.symbols :=
  List.flatMap_append

theorem Fragment.symbols_text (sql : String) (f : Fragment) :
    Fragment.symbols (.text sql :: f) = sql.toList.map .char ++ f.symbols := rfl

theorem Fragment.symbols_char (c : Char) (f : Fragment) :
    Fragment.symbols (.text c.toString :: f) = .char c :: f.symbols := by
  rw [symbols_text, Char.toString_eq_singleton, String.toList_singleton]
  rfl

/-! ## Scanning -/

/-- Where a reader is: how many parentheses are open, in which quotes it is, and which character it
has read last outside of quotes. -/
structure Scanner where
  depth : Nat
  quote : Option Char
  last : Char

namespace Scanner

def start : Scanner := ⟨0, none, ' '⟩

/-- Whether no parenthesis and no quote is open. -/
def isOutside (s : Scanner) : Bool := s.depth == 0 && s.quote.isNone

/-- What a character does to a reader outside of quotes. -/
inductive Mark where
  | comment
  | opening
  | closing
  | quote
  | plain
  deriving DecidableEq

def mark (last c : Char) : Mark :=
  if (last = '-' ∧ c = '-') ∨ (last = '/' ∧ c = '*') then .comment
  else if c = '(' then .opening
  else if c = ')' then .closing
  else if c = '\'' ∨ c = '"' ∨ c = '`' then .quote
  else .plain

def step (s : Scanner) : Symbol → Option Scanner
  | .char c =>
    match s.quote with
    | some q => some ⟨s.depth, if c = q then none else some q, ' '⟩
    | none =>
      match mark s.last c with
      | .comment => none
      | .opening => some ⟨s.depth + 1, none, ' '⟩
      | .closing =>
        match s.depth with
        | 0 => none
        | n + 1 => some ⟨n, none, ' '⟩
      | .quote => some ⟨s.depth, some c, ' '⟩
      | .plain => some ⟨s.depth, none, c⟩
  | _ => some ⟨s.depth, s.quote, ' '⟩

def scan (s : Scanner) : List Symbol → Option Scanner
  | [] => some s
  | x :: rest => (s.step x).bind fun s => s.scan rest

theorem scan_append (s : Scanner) (xs ys : List Symbol) :
    s.scan (xs ++ ys) = (s.scan xs).bind fun s => s.scan ys := by
  induction xs generalizing s with
  | nil => rfl
  | cons x rest ih =>
    simp only [List.cons_append, scan]
    cases s.step x with
    | none => rfl
    | some next => exact ih next

/-- Only whether a comment begins depends on the character before. -/
theorem mark_eq {last c : Char} (h : ¬ ((last = '-' ∧ c = '-') ∨ (last = '/' ∧ c = '*'))) :
    mark last c = mark ' ' c := by
  have hblank : ¬ ((' ' = '-' ∧ c = '-') ∨ (' ' = '/' ∧ c = '*')) := by
    rintro (⟨h, -⟩ | ⟨h, -⟩) <;> exact absurd h (by decide)
  unfold mark
  rw [if_neg h, if_neg hblank]

theorem mark_of_ne_comment {last c : Char} (h : mark last c ≠ .comment) :
    mark last c = mark ' ' c :=
  mark_eq fun hcomment => h (if_pos hcomment)

theorem mark_of_char (last : Char) {c : Char} (hdash : c ≠ '-') (hstar : c ≠ '*') :
    mark last c = mark ' ' c :=
  mark_eq fun h => h.elim (fun h => hdash h.2) (fun h => hstar h.2)

theorem mark_of_last {last : Char} (c : Char) (hdash : last ≠ '-') (hslash : last ≠ '/') :
    mark last c = mark ' ' c :=
  mark_eq fun h => h.elim (fun h => hdash h.1) (fun h => hslash h.1)

/-- One more parenthesis is open. -/
def deeper (s : Scanner) : Scanner := { s with depth := s.depth + 1 }

theorem step_deeper {s s' : Scanner} {x : Symbol} (h : s.step x = some s') :
    s.deeper.step x = some s'.deeper := by
  obtain ⟨depth, quote, last⟩ := s
  cases x with
  | name identifier =>
    cases h
    rfl
  | hole v =>
    cases h
    rfl
  | char c =>
    cases quote with
    | some q =>
      cases h
      rfl
    | none =>
      simp only [step, deeper] at h ⊢
      cases hmark : mark last c with
      | comment =>
        rw [hmark] at h
        cases h
      | closing =>
        rw [hmark] at h
        cases depth with
        | zero => cases h
        | succ n =>
          cases h
          rfl
      | _ =>
        rw [hmark] at h
        cases h
        rfl

end Scanner

/-- Parentheses and quotes are balanced, and nothing begins a comment. -/
def Balanced (xs : List Symbol) : Prop :=
  ∃ s, Scanner.start.scan xs = some s ∧ s.isOutside = true

/-- Behind a balanced text, a blank leaves a reader as if it had read nothing. -/
theorem Scanner.step_blank {s : Scanner} (h : s.isOutside = true) :
    s.step (.char ' ') = some .start := by
  obtain ⟨depth, quote, last⟩ := s
  simp only [isOutside, Bool.and_eq_true, beq_iff_eq, Option.isNone_iff_eq_none] at h
  obtain ⟨rfl, rfl⟩ := h
  have hmark : mark last ' ' = .plain := mark_of_char last (by decide) (by decide)
  simp only [step, hmark]
  rfl

/-- Balanced texts side by side are balanced, with a text between them that begins with a blank. -/
theorem Balanced.append {xs ys : List Symbol} (hx : Balanced xs) (hy : Balanced ys)
    (between : List Symbol) (h : Scanner.start.scan between = some .start) :
    Balanced (xs ++ .char ' ' :: (between ++ ys)) := by
  obtain ⟨s, hs, houtside⟩ := hx
  obtain ⟨t, ht, hend⟩ := hy
  refine ⟨t, ?_, hend⟩
  rw [Scanner.scan_append, hs, Option.bind_some, Scanner.scan, Scanner.step_blank houtside,
    Option.bind_some, Scanner.scan_append, h, Option.bind_some, ht]

/-! ## Words -/

/-- Whether a character goes on a word that is not in quotes. -/
def isWordChar (c : Char) : Bool :=
  c.isAlphanum || c == '_' || c == '$' || decide (128 ≤ c.toNat)

inductive Part where
  | word (w : String)
  | symbol (x : Symbol)

def Scanner.wordChar? (s : Scanner) : Symbol → Option Char
  | .char c => if s.isOutside && isWordChar c then some c else none
  | _ => none

/-- The word whose characters were read, last character first. -/
def flush (word : List Char) : List Part :=
  if word.isEmpty then [] else [.word (String.ofList word.reverse)]

def outlineFrom (s : Scanner) (word : List Char) : List Symbol → Option (List Part)
  | [] => if s.isOutside then some (flush word) else none
  | x :: rest =>
    match s.step x with
    | none => none
    | some s' =>
      match s.wordChar? x with
      | some c => outlineFrom s' (c :: word) rest
      | none => (outlineFrom s' [] rest).map (flush word ++ .symbol x :: ·)

/-- The words outside of parentheses and quotes, and the symbols that are not in such a word. -/
def outline (xs : List Symbol) : Option (List Part) := outlineFrom .start [] xs

section Outline

variable {s s' : Scanner} {word : List Char} {x : Symbol} {xs : List Symbol} {parts : List Part}

theorem outlineFrom_word {c : Char} (hstep : s.step x = some s') (hword : s.wordChar? x = some c)
    (xs : List Symbol) : outlineFrom s word (x :: xs) = outlineFrom s' (c :: word) xs := by
  rw [outlineFrom, hstep, hword]

theorem outlineFrom_symbol (hstep : s.step x = some s') (hword : s.wordChar? x = none)
    (xs : List Symbol) :
    outlineFrom s word (x :: xs) =
      (outlineFrom s' [] xs).map (flush word ++ .symbol x :: ·) := by
  rw [outlineFrom, hstep, hword]

theorem outlineFrom_nil_eq_some (h : outlineFrom s word [] = some parts) :
    s.isOutside = true ∧ parts = flush word := by
  unfold outlineFrom at h
  split at h
  · next houtside => exact ⟨houtside, (Option.some.inj h).symm⟩
  · cases h

theorem exists_step (h : outlineFrom s word (x :: xs) = some parts) :
    ∃ s', s.step x = some s' := by
  cases hstep : s.step x with
  | none =>
    rw [outlineFrom, hstep] at h
    cases h
  | some next => exact ⟨next, rfl⟩

theorem scan_of_outline (h : outlineFrom s word xs = some parts) :
    ∃ s', s.scan xs = some s' ∧ s'.isOutside = true := by
  induction xs generalizing s word parts with
  | nil => exact ⟨s, rfl, (outlineFrom_nil_eq_some h).1⟩
  | cons x rest ih =>
    obtain ⟨next, hstep⟩ := exists_step h
    rw [Scanner.scan, hstep, Option.bind_some]
    cases hword : s.wordChar? x with
    | some c =>
      rw [outlineFrom_word hstep hword] at h
      exact ih h
    | none =>
      rw [outlineFrom_symbol hstep hword] at h
      obtain ⟨others, hothers, -⟩ := Option.map_eq_some_iff.mp h
      exact ih hothers

/-- An outline goes on behind a blank as if nothing stood before. -/
theorem outlineFrom_blank (h : outlineFrom s word xs = some parts) (ys : List Symbol) :
    outlineFrom s word (xs ++ .char ' ' :: ys) =
      (outline ys).map (parts ++ .symbol (.char ' ') :: ·) := by
  induction xs generalizing s word parts with
  | nil =>
    obtain ⟨houtside, rfl⟩ := outlineFrom_nil_eq_some h
    have hword : s.wordChar? (.char ' ') = none := if_neg (by simp [isWordChar])
    exact outlineFrom_symbol (Scanner.step_blank houtside) hword ys
  | cons x rest ih =>
    obtain ⟨next, hstep⟩ := exists_step h
    rw [List.cons_append]
    cases hword : s.wordChar? x with
    | some c =>
      rw [outlineFrom_word hstep hword] at h ⊢
      exact ih h
    | none =>
      rw [outlineFrom_symbol hstep hword] at h ⊢
      obtain ⟨others, hothers, rfl⟩ := Option.map_eq_some_iff.mp h
      rw [ih hothers, Option.map_map]
      congr 1
      funext more
      simp only [Function.comp_apply, List.append_assoc, List.cons_append]

/-- There are no words in parentheses. -/
theorem outlineFrom_deeper (h : s.scan xs = some s') (ys : List Symbol) :
    outlineFrom s.deeper [] (xs ++ ys) =
      (outlineFrom s'.deeper [] ys).map (xs.map .symbol ++ ·) := by
  induction xs generalizing s with
  | nil =>
    cases h
    exact (Option.map_id' ..).symm
  | cons x rest ih =>
    obtain ⟨next, hstep, h⟩ := Option.bind_eq_some_iff.mp h
    have hword : s.deeper.wordChar? x = none := by
      cases x <;> rfl
    rw [List.cons_append, outlineFrom_symbol (Scanner.step_deeper hstep) hword, ih h,
      Option.map_map]
    rfl

end Outline

theorem balanced_of_outline {xs : List Symbol} {parts : List Part} (h : outline xs = some parts) :
    Balanced xs :=
  scan_of_outline h

def inParens (xs : List Symbol) : List Symbol := .char '(' :: xs ++ [.char ')']

theorem outline_inParens {xs : List Symbol} (h : Balanced xs) :
    outline (inParens xs) = some ((inParens xs).map .symbol) := by
  obtain ⟨⟨depth, quote, last⟩, hscan, houtside⟩ := h
  simp only [Scanner.isOutside, Bool.and_eq_true, beq_iff_eq, Option.isNone_iff_eq_none] at houtside
  obtain ⟨rfl, rfl⟩ := houtside
  have hmark : Scanner.mark last ')' = .closing :=
    Scanner.mark_of_char last (by decide) (by decide)
  have hstep : (Scanner.deeper ⟨0, none, last⟩).step (.char ')') = some .start := by
    simp only [Scanner.step, Scanner.deeper, hmark]
    rfl
  have hclose : outlineFrom (Scanner.deeper ⟨0, none, last⟩) [] [.char ')'] =
      some [.symbol (.char ')')] := by
    rw [outlineFrom_symbol hstep rfl]
    rfl
  show (outlineFrom Scanner.start.deeper [] (xs ++ [.char ')'])).map _ = _
  rw [outlineFrom_deeper hscan, hclose]
  simp [flush, inParens]

/-! ## Identifiers -/

/-- Whether a symbol is in no word, and neither opens nor closes anything. -/
def Symbol.isApart : Symbol → Bool
  | .char c => !isWordChar c && Scanner.mark ' ' c == .plain && c != '-' && c != '/'
  | _ => true

theorem outlineFrom_last {s : Scanner} (hs : s.isOutside = true) (hdash : s.last ≠ '-')
    (hslash : s.last ≠ '/') (xs : List Symbol) : outlineFrom s [] xs = outline xs := by
  obtain ⟨depth, quote, last⟩ := s
  simp only [Scanner.isOutside, Bool.and_eq_true, beq_iff_eq, Option.isNone_iff_eq_none] at hs
  obtain ⟨rfl, rfl⟩ := hs
  cases xs with
  | nil => rfl
  | cons x rest =>
    have hstep : Scanner.step ⟨0, none, last⟩ x = Scanner.start.step x := by
      cases x with
      | char c =>
        have hmark : Scanner.mark last c = Scanner.mark ' ' c :=
          Scanner.mark_of_last c hdash hslash
        simp only [Scanner.step, Scanner.start, hmark]
      | _ => rfl
    have hword : Scanner.wordChar? ⟨0, none, last⟩ x = Scanner.start.wordChar? x := by
      cases x <;> rfl
    rw [outline, outlineFrom, outlineFrom, hstep, hword]

/-- Symbols that are apart stand for themselves in front of an outline. -/
theorem outline_apart {xs : List Symbol} (h : xs.all Symbol.isApart = true) (ys : List Symbol) :
    outline (xs ++ ys) = (outline ys).map (xs.map .symbol ++ ·) := by
  induction xs with
  | nil => exact (Option.map_id' ..).symm
  | cons x rest ih =>
    rw [List.all_cons, Bool.and_eq_true] at h
    obtain ⟨hx, hrest⟩ := h
    have hnext : ∃ s, Scanner.start.step x = some s ∧ Scanner.start.wordChar? x = none ∧
        s.isOutside = true ∧ s.last ≠ '-' ∧ s.last ≠ '/' := by
      have hblank : ' ' ≠ '-' ∧ ' ' ≠ '/' := by decide
      cases x with
      | char c =>
        simp only [Symbol.isApart, Bool.and_eq_true, Bool.not_eq_true', beq_iff_eq,
          bne_iff_ne] at hx
        obtain ⟨⟨⟨hword, hmark⟩, hdash⟩, hslash⟩ := hx
        refine ⟨⟨0, none, c⟩, ?_, ?_, rfl, hdash, hslash⟩
        · simp only [Scanner.step, Scanner.start, hmark]
        · exact if_neg (by rw [hword, Bool.and_false]; exact Bool.false_ne_true)
      | _ => exact ⟨_, rfl, rfl, rfl, hblank.1, hblank.2⟩
    obtain ⟨s, hstep, hword, houtside, hdash, hslash⟩ := hnext
    rw [List.cons_append, outline, outlineFrom_symbol hstep hword,
      outlineFrom_last houtside hdash hslash, ih hrest, Option.map_map]
    rfl

theorem isApart_path (path : String) : (Fragment.path path).symbols.all Symbol.isApart = true := by
  have hsegment : ∀ s, (Fragment.symbols [Fragment.segment s]).all Symbol.isApart = true := by
    intro s
    unfold Fragment.segment
    split
    · next hs =>
      rw [hs]
      decide
    · rfl
  unfold Fragment.path
  induction fields '.' path with
  | nil => rfl
  | cons s rest ih =>
    cases rest with
    | nil => exact hsegment s
    | cons t more =>
      show (Fragment.symbols ([Fragment.segment s] ++ .text "." :: Fragment.joined "." _)).all
        Symbol.isApart = true
      have hdot : (".".toList.map Symbol.char).all Symbol.isApart = true := by decide
      rw [Fragment.symbols_append, Fragment.symbols_text, List.all_append, List.all_append,
        hsegment, hdot]
      exact ih

/-! ## Trusted SQL -/

namespace Scanner

/-- The quotes that are open are quotes. -/
def Quoted (s : Scanner) : Prop := ∀ q, s.quote = some q → mark ' ' q = .quote

/-- No parenthesis or quote was opened or closed between the two, and no comment can begin. -/
structure Rests (s s' : Scanner) : Prop where
  depth : s'.depth = s.depth
  quote : s'.quote = s.quote
  dash : s'.last ≠ '-'
  slash : s'.last ≠ '/'

/-- The same place, unless one of the two can begin a comment and the other cannot. -/
structure Follows (s t : Scanner) : Prop where
  depth : t.depth = s.depth
  quote : t.quote = s.quote
  quoted : s.Quoted
  last : t.last = s.last ∨ t.last ≠ '-' ∧ t.last ≠ '/'

variable {s s' t t' : Scanner}

theorem Rests.trans {s'' : Scanner} (h : Rests s s') (h' : Rests s' s'') : Rests s s'' :=
  ⟨h'.depth.trans h.depth, h'.quote.trans h.quote, h'.dash, h'.slash⟩

theorem Rests.quoted (h : Rests s s') (hs : s.Quoted) : s'.Quoted := by
  unfold Quoted
  rw [h.quote]
  exact hs

theorem Follows.quoted' (h : Follows s t) : t.Quoted := by
  unfold Quoted
  rw [h.quote]
  exact h.quoted

theorem Follows.rests (h : Follows s t) (hs : Rests s s') (ht : Rests t t') :
    Follows s' t' where
  depth := by rw [ht.depth, h.depth, hs.depth]
  quote := by rw [ht.quote, h.quote, hs.quote]
  quoted := hs.quoted h.quoted
  last := .inr ⟨ht.dash, ht.slash⟩

theorem Follows.mark (h : Follows s t) {c : Char} (hs : mark s.last c ≠ .comment) :
    mark t.last c = mark s.last c := by
  rcases h.last with hlast | ⟨hdash, hslash⟩
  · rw [hlast]
  · rw [mark_of_ne_comment hs, mark_of_last c hdash hslash]

theorem Follows.step (h : Follows s t) {c : Char} (hs : s.step (.char c) = some s') :
    ∃ t', t.step (.char c) = some t' ∧ Follows s' t' := by
  obtain ⟨depth, quote, last⟩ := s
  obtain ⟨depth', quote', last'⟩ := t
  obtain ⟨hdepth, hquote, hquoted, hlast⟩ := h
  obtain rfl : depth' = depth := hdepth
  obtain rfl : quote' = quote := hquote
  cases quote' with
  | some q =>
    cases hs
    refine ⟨_, rfl, rfl, rfl, fun r hr => ?_, .inl rfl⟩
    dsimp only at hr
    split at hr
    · cases hr
    · cases hr
      exact hquoted _ rfl
  | none =>
    -- No comment begins here, so the characters before are of no account.
    have hcomment : Scanner.mark last c ≠ .comment := by
      intro hcomment
      simp only [Scanner.step, hcomment] at hs
      cases hs
    have hmark : Scanner.mark last' c = Scanner.mark last c :=
      Follows.mark (s := ⟨depth', none, last⟩) (t := ⟨depth', none, last'⟩)
        ⟨rfl, rfl, hquoted, hlast⟩ hcomment
    simp only [Scanner.step, hmark] at hs ⊢
    cases hkind : Scanner.mark last c with
    | comment => exact absurd hkind hcomment
    | closing =>
      rw [hkind] at hs
      cases depth' with
      | zero => cases hs
      | succ n =>
        cases hs
        exact ⟨_, rfl, rfl, rfl, nofun, .inl rfl⟩
    | quote =>
      rw [hkind] at hs
      cases hs
      refine ⟨_, rfl, rfl, rfl, fun q hq => ?_, .inl rfl⟩
      cases hq
      rw [← mark_of_ne_comment hcomment, hkind]
    | _ =>
      rw [hkind] at hs
      cases hs
      exact ⟨_, rfl, rfl, rfl, nofun, .inl rfl⟩

/-- Whether a character is of no account to a reader, whatever stands around it. -/
def isInert (c : Char) : Bool :=
  mark ' ' c == .plain && c != '-' && c != '*' && c != '/'

theorem step_inert (hs : s.Quoted) {c : Char} (hc : isInert c = true) :
    ∃ s', s.step (.char c) = some s' ∧ Rests s s' := by
  simp only [isInert, Bool.and_eq_true, beq_iff_eq, bne_iff_ne] at hc
  obtain ⟨⟨⟨hplain, hdash⟩, hstar⟩, hslash⟩ := hc
  obtain ⟨depth, quote, last⟩ := s
  cases quote with
  | some q =>
    have hne : c ≠ q := by
      rintro rfl
      rw [hs c rfl] at hplain
      cases hplain
    have hblank : ' ' ≠ '-' ∧ ' ' ≠ '/' := by decide
    refine ⟨⟨depth, some q, ' '⟩, ?_, rfl, rfl, hblank.1, hblank.2⟩
    simp only [step, if_neg hne]
  | none =>
    have hmark : mark last c = .plain := (mark_of_char last hdash hstar).trans hplain
    refine ⟨⟨depth, none, c⟩, ?_, rfl, rfl, hdash, hslash⟩
    simp only [step, hmark]

theorem rests_of_step (hs : s.Quoted) {c : Char} (hc : isInert c = true)
    (h : s.step (.char c) = some s') : Rests s s' := by
  obtain ⟨next, hstep, hrests⟩ := step_inert hs hc
  rw [h] at hstep
  cases hstep
  exact hrests

theorem scan_inert (hs : s.Quoted) {c : Char} {cs : List Char}
    (hcs : (c :: cs).all isInert = true) :
    ∃ s', s.scan ((c :: cs).map .char) = some s' ∧ Rests s s' := by
  induction cs generalizing s c with
  | nil =>
    obtain ⟨s', hstep, hrests⟩ := step_inert hs (List.all_eq_true.mp hcs c (List.mem_cons_self ..))
    refine ⟨s', ?_, hrests⟩
    rw [List.map_singleton, scan, hstep]
    rfl
  | cons d rest ih =>
    rw [List.all_cons, Bool.and_eq_true] at hcs
    obtain ⟨s₁, hstep, hrests⟩ := step_inert hs hcs.1
    obtain ⟨s₂, hscan, hmore⟩ := ih (hrests.quoted hs) hcs.2
    refine ⟨s₂, ?_, hrests.trans hmore⟩
    rw [List.map_cons, scan, hstep, Option.bind_some, hscan]

/-- A bound value leaves a reader where it is. -/
theorem scan_bind (hs : s.Quoted) (v : Value) :
    ∃ s', s.scan (Fragment.bind v).symbols = some s' ∧ Rests s s' := by
  have hblank : ' ' ≠ '-' ∧ ' ' ≠ '/' := by decide
  cases v with
  | default =>
    have hinert : "DEFAULT".toList.all isInert = true := by decide
    exact scan_inert hs hinert
  | _ => exact ⟨_, rfl, rfl, rfl, hblank.1, hblank.2⟩

/-- Trusted SQL is scanned alike with its markers and with what stands for them. -/
theorem scan_pieces {cs : List Char} {vs : List Value} {f : Fragment} {n : Nat}
    (h : Marked.pieces cs vs = some (f, n)) (hfollows : Follows s t)
    (hscan : s.scan (cs.map .char) = some s') :
    ∃ t', t.scan f.symbols = some t' ∧ Follows s' t' := by
  have hmarker : isInert '?' = true := by decide
  induction cs, vs using Marked.pieces.induct generalizing f n s t with
  | case1 vs =>
    cases h
    cases hscan
    exact ⟨t, rfl, hfollows⟩
  | case2 rest vs ih =>
    simp only [Marked.pieces, Option.map_eq_some_iff, Prod.exists, Prod.mk.injEq] at h
    obtain ⟨g, k, hg, rfl, rfl⟩ := h
    obtain ⟨s₁, hs₁, hscan⟩ := Option.bind_eq_some_iff.mp hscan
    obtain ⟨s₂, hs₂, hscan⟩ := Option.bind_eq_some_iff.mp hscan
    have hfirst := rests_of_step hfollows.quoted hmarker hs₁
    have hboth := hfirst.trans (rests_of_step (hfirst.quoted hfollows.quoted) hmarker hs₂)
    obtain ⟨t₁, ht₁, hrests⟩ := step_inert hfollows.quoted' hmarker
    obtain ⟨t₂, ht₂, hend⟩ := ih hg (hfollows.rests hboth hrests) hscan
    refine ⟨t₂, ?_, hend⟩
    have hsymbols : Fragment.symbols (.text "?" :: g) = .char '?' :: g.symbols :=
      Fragment.symbols_char '?' g
    rw [hsymbols, scan, ht₁, Option.bind_some, ht₂]
  | case3 rest hrest => simp [Marked.pieces] at h
  | case4 rest v vs hrest ih =>
    simp only [Marked.pieces, Option.map_eq_some_iff, Prod.exists, Prod.mk.injEq] at h
    obtain ⟨g, k, hg, rfl, -⟩ := h
    obtain ⟨s₁, hs₁, hscan⟩ := Option.bind_eq_some_iff.mp hscan
    have hfirst := rests_of_step hfollows.quoted hmarker hs₁
    obtain ⟨t₁, ht₁, hrests⟩ := scan_bind hfollows.quoted' v
    obtain ⟨t₂, ht₂, hend⟩ := ih hg (hfollows.rests hfirst hrests) hscan
    refine ⟨t₂, ?_, hend⟩
    rw [Fragment.symbols_append, scan_append, ht₁, Option.bind_some, ht₂]
  | case5 c rest vs h₁ h₂ h₃ ih =>
    simp only [Marked.pieces, Option.map_eq_some_iff, Prod.exists, Prod.mk.injEq] at h
    obtain ⟨g, k, hg, rfl, rfl⟩ := h
    obtain ⟨s₁, hs₁, hscan⟩ := Option.bind_eq_some_iff.mp hscan
    obtain ⟨t₁, ht₁, hnext⟩ := hfollows.step hs₁
    obtain ⟨t₂, ht₂, hend⟩ := ih hg hnext hscan
    refine ⟨t₂, ?_, hend⟩
    rw [Fragment.symbols_char, scan, ht₁, Option.bind_some, ht₂]

end Scanner

/-- Whether the parentheses and quotes of a text are balanced and no comment begins in it. -/
def isBalanced (sql : String) : Bool :=
  (Scanner.start.scan (sql.toList.map .char)).any Scanner.isOutside

theorem balanced_marked {sql : String} {values : List Value} {f : Fragment}
    (hsql : isBalanced sql = true) (h : Marked.compile sql values = .ok f) :
    Balanced f.symbols := by
  obtain ⟨s, hscan, houtside⟩ := (Option.any_eq_true _ _).mp hsql
  unfold Marked.compile at h
  cases hpieces : Marked.pieces sql.toList values with
  | none =>
    rw [hpieces] at h
    cases h
  | some found =>
    rw [hpieces] at h
    dsimp only at h
    split at h
    · cases h
      have hstart : Scanner.Follows .start .start := ⟨rfl, rfl, nofun, .inl rfl⟩
      obtain ⟨t, ht, hfollows⟩ := Scanner.scan_pieces hpieces hstart hscan
      refine ⟨t, ht, ?_⟩
      unfold Scanner.isOutside at houtside ⊢
      rw [hfollows.depth, hfollows.quote]
      exact houtside
    · cases h

/-- Neither an OR in quotes nor one in parentheses unbalances a text. -/
example : isBalanced "name = 'a OR (b' OR (c = ? AND d = 1)" = true := by decide

end RecordMapper
