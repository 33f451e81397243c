import RecordMapper.Proofs.Text
import RecordMapper.Statement.Fragment

/-!
SQL as a reader of it tells its parts apart.

* `lexemes` cuts a text into characters outside of quotes and names in quotes. Inside of a name, a
  quote that is written twice stands for itself; a text that ends there has no lexemes.
* `nesting` counts the parentheses that are open.
* `Fragment.isApart`: a fragment whose names are apart, without other quotes. It is read as it was
  written (`Fragment.lexemes_eq`).
* `Fragment.Fenced a b names f`: such a fragment, with these names, that leaves `b` parentheses open
  if `a` of them were.
-/
namespace RecordMapper

set_option autoImplicit false

open RecordMapper.Text

/-! ## Reading -/

inductive Lexeme where
  | plain (c : Char)
  | name (content : String)
  deriving DecidableEq, Repr

/-- Where a reader is. What it has read of a name is kept last character first. -/
inductive ReaderState where
  | outside
  | within (content : List Char)
  /-- Behind a quote inside of a name, which either ends it or is written twice. -/
  | leaving (content : List Char)

def lexemesFrom (quote : Char) : ReaderState → List Char → Option (List Lexeme)
  | .outside, [] => some []
  | .within _, [] => none
  | .leaving content, [] => some [.name (String.ofList content.reverse)]
  | .outside, c :: rest =>
    if c = quote then lexemesFrom quote (.within []) rest
    else (lexemesFrom quote .outside rest).map (.plain c :: ·)
  | .within content, c :: rest =>
    if c = quote then lexemesFrom quote (.leaving content) rest
    else lexemesFrom quote (.within (c :: content)) rest
  | .leaving content, c :: rest =>
    if c = quote then lexemesFrom quote (.within (c :: content)) rest
    else (lexemesFrom quote .outside rest).map
      ([.name (String.ofList content.reverse), .plain c] ++ ·)

def lexemes (quote : Char) (sql : String) : Option (List Lexeme) :=
  lexemesFrom quote .outside sql.toList

namespace Lexeme

def content? : Lexeme → Option String
  | .plain _ => none
  | .name content => some content

def plain? : Lexeme → Option Char
  | .plain c => some c
  | .name _ => none

/-- The lexeme with the text of a name left out. -/
def blanked : Lexeme → Lexeme
  | .plain c => .plain c
  | .name _ => .name ""

end Lexeme

/-- The count of open parentheses behind a text. There is none if one is closed that is not open. -/
def nesting : Nat → List Char → Option Nat
  | n, [] => some n
  | n, c :: rest =>
    if c = '(' then nesting (n + 1) rest
    else if c = ')' then
      match n with
      | 0 => none
      | n + 1 => nesting n rest
    else nesting n rest

theorem nesting_append (n : Nat) (s t : List Char) :
    nesting n (s ++ t) = (nesting n s).bind fun k => nesting k t := by
  induction s generalizing n with
  | nil => rfl
  | cons c rest ih =>
    simp only [List.cons_append, nesting]
    split
    · exact ih (n + 1)
    · split
      · cases n with
        | zero => rfl
        | succ n => exact ih n
      · exact ih n

theorem nesting_add {a b : Nat} {s : List Char} (h : nesting a s = some b) (k : Nat) :
    nesting (a + k) s = some (b + k) := by
  induction s generalizing a with
  | nil =>
    cases h
    rfl
  | cons c rest ih =>
    simp only [nesting] at h ⊢
    split at h
    · next hc =>
      have hnext := ih h
      rw [if_pos hc]
      rwa [show a + k + 1 = a + 1 + k by omega]
    · next hc =>
      rw [if_neg hc]
      split at h
      · next hd =>
        rw [if_pos hd]
        cases a with
        | zero => cases h
        | succ a =>
          rw [show a + 1 + k = a + k + 1 by omega]
          exact ih h
      · next hd =>
        rw [if_neg hd]
        exact ih h

/-! ## Texts and names -/

section Reading

variable {quote : Char}

theorem lexemesFrom_plain {s : List Char} (h : quote ∉ s) (t : List Char) :
    lexemesFrom quote .outside (s ++ t) =
      (lexemesFrom quote .outside t).map (s.map Lexeme.plain ++ ·) := by
  induction s with
  | nil => simp
  | cons c rest ih =>
    rw [List.mem_cons, not_or] at h
    rw [List.cons_append, lexemesFrom, if_neg (Ne.symm h.1), ih h.2, Option.map_map]
    rfl

/-- A name ends at its quote, unless another quote follows. -/
theorem lexemesFrom_leaving {t : List Char} (h : t.head? ≠ some quote) (content : List Char) :
    lexemesFrom quote (.leaving content) t =
      (lexemesFrom quote .outside t).map (.name (String.ofList content.reverse) :: ·) := by
  cases t with
  | nil => rfl
  | cons c rest =>
    have hc : c ≠ quote := fun hc => h (congrArg some hc)
    simp only [lexemesFrom, if_neg hc, Option.map_map]
    rfl

theorem lexemesFrom_within {t : List Char} (h : t.head? ≠ some quote) (s content : List Char) :
    lexemesFrom quote (.within content) (s.flatMap (Dialect.doubled quote) ++ quote :: t) =
      (lexemesFrom quote .outside t).map
        (.name (String.ofList (content.reverse ++ s)) :: ·) := by
  induction s generalizing content with
  | nil =>
    rw [List.flatMap_nil, List.nil_append, lexemesFrom, if_pos rfl, lexemesFrom_leaving h,
      List.append_nil]
  | cons c rest ih =>
    have hstep : lexemesFrom quote (.within content)
        (Dialect.doubled quote c ++ (rest.flatMap (Dialect.doubled quote) ++ quote :: t)) =
        lexemesFrom quote (.within (c :: content))
          (rest.flatMap (Dialect.doubled quote) ++ quote :: t) := by
      unfold Dialect.doubled
      by_cases hc : c = quote
      · simp [hc, lexemesFrom]
      · simp [hc, lexemesFrom]
    rw [List.flatMap_cons, List.append_assoc, hstep, ih, List.reverse_cons, List.append_assoc]
    rfl

theorem lexemesFrom_quoted {d : Dialect} {t : List Char} (h : t.head? ≠ some d.quoteChar)
    (identifier : String) :
    lexemesFrom d.quoteChar .outside (d.quoteChars identifier.toList ++ t) =
      (lexemesFrom d.quoteChar .outside t).map (.name identifier :: ·) := by
  have hwithin := lexemesFrom_within h identifier.toList []
  simp only [Dialect.quoteChars, List.cons_append, List.append_assoc, lexemesFrom, if_true]
  rw [List.nil_append, hwithin, List.reverse_nil, List.nil_append, String.ofList_toList]

end Reading

/-! ## Fenced fragments -/

/-- The text is not empty and has no quote of any dialect in it. -/
def isUnquoted (sql : String) : Bool :=
  !sql.toList.isEmpty && sql.toList.all fun c => c != '"' && c != '`'

/-- A text without quotes that leaves `b` parentheses open if `a` of them were. -/
def nests (a b : Nat) (sql : String) : Bool :=
  isUnquoted sql && nesting a sql.toList == some b

theorem nests_add {a b : Nat} {sql : String} (h : nests a b sql = true) (k : Nat) :
    nests (a + k) (b + k) sql = true := by
  unfold nests at *
  rw [Bool.and_eq_true, beq_iff_eq] at *
  exact ⟨h.1, nesting_add h.2 k⟩

theorem nests_append {a b c : Nat} {s t : String} (hs : nests a b s = true)
    (ht : nests b c t = true) : nests a c (s ++ t) = true := by
  unfold nests isUnquoted at *
  simp only [Bool.and_eq_true, Bool.not_eq_true', beq_iff_eq, String.toList_append,
    List.all_append, nesting_append] at *
  obtain ⟨⟨hempty, hs⟩, hnest⟩ := hs
  refine ⟨⟨?_, hs, ht.1.2⟩, ?_⟩
  · cases hchars : s.toList with
    | nil => rw [hchars] at hempty; cases hempty
    | cons c rest => rfl
  · rw [hnest]
    exact ht.2

theorem quoteChar_notMem {sql : String} (h : isUnquoted sql = true) (d : Dialect) :
    d.quoteChar ∉ sql.toList := by
  intro hmem
  unfold isUnquoted at h
  rw [Bool.and_eq_true, List.all_eq_true] at h
  have hc := h.2 _ hmem
  cases d <;> exact absurd hc (by decide)

theorem nesting_of_notMem {s : List Char} (hopen : '(' ∉ s) (hclose : ')' ∉ s) (n : Nat) :
    nesting n s = some n := by
  induction s with
  | nil => rfl
  | cons c rest ih =>
    rw [List.mem_cons, not_or] at hopen hclose
    simp only [nesting, if_neg (Ne.symm hopen.1), if_neg (Ne.symm hclose.1), ih hopen.2 hclose.2]

theorem nests_ofNat (n : Nat) : nests 0 0 (ofNat n) = true := by
  have hdigit : ∀ c : Char, c.isDigit = false → c ∉ natChars n := fun c hc hmem =>
    absurd (isDigit_of_mem_natChars hmem) (by rw [hc]; decide)
  have hempty : (natChars n).isEmpty = false := by
    rw [List.isEmpty_eq_false_iff]
    exact Nat.toDigits_ne_nil
  have hquotes : (natChars n).all (fun c => c != '"' && c != '`') = true := by
    rw [List.all_eq_true]
    intro c hc
    rw [Bool.and_eq_true, bne_iff_ne, bne_iff_ne]
    constructor <;> (rintro rfl; exact hdigit _ rfl hc)
  have hnesting := nesting_of_notMem (hdigit '(' rfl) (hdigit ')' rfl) 0
  unfold nests isUnquoted ofNat
  rw [String.toList_ofList, hempty, hquotes, hnesting]
  rfl

namespace Fragment

/-- Whether no name stands in front. -/
def opensPlain : Fragment → Bool
  | .name _ :: _ => false
  | _ => true

/-- Whether no two names stand side by side, and no text is empty or has a quote in it. -/
def isApart : Fragment → Bool
  | [] => true
  | .text sql :: rest => isUnquoted sql && isApart rest
  | .name _ :: rest => opensPlain rest && isApart rest
  | .hole _ :: rest => isApart rest

inductive Fenced : Nat → Nat → List String → Fragment → Prop where
  | nil (a : Nat) : Fenced a a [] []
  | text {a b c : Nat} {names : List String} {f : Fragment} (sql : String)
      (h : nests a b sql = true) (hf : Fenced b c names f) : Fenced a c names (.text sql :: f)
  | name {a b : Nat} {names : List String} {f : Fragment} (identifier : String)
      (h : f.opensPlain = true) (hf : Fenced a b names f) :
      Fenced a b (identifier :: names) (.name identifier :: f)
  | hole {a b : Nat} {names : List String} {f : Fragment} (v : Value)
      (hf : Fenced a b names f) : Fenced a b names (.hole v :: f)

namespace Fenced

variable {a b c : Nat} {names others : List String} {f g : Fragment}

theorem append (hf : Fenced a b names f) (hg : Fenced b c others g)
    (hopens : g.opensPlain = true) : Fenced a c (names ++ others) (f ++ g) := by
  induction hf with
  | nil a => exact hg
  | text sql h hf ih => exact .text sql h (ih hg)
  | @name a b names f identifier h hf ih =>
    refine .name identifier ?_ (ih hg)
    cases f with
    | nil => exact hopens
    | cons p rest => cases p <;> first | rfl | cases h
  | hole v hf ih => exact .hole v (ih hg)

/-- More parentheses may be open around a fragment. -/
theorem lift (hf : Fenced a b names f) (k : Nat) : Fenced (a + k) (b + k) names f := by
  induction hf with
  | nil a => exact .nil (a + k)
  | text sql h hf ih => exact .text sql (nests_add h k) ih
  | name identifier h hf ih => exact .name identifier h ih
  | hole v hf ih => exact .hole v ih

theorem close (hf : Fenced a b names f) (sql : String) (h : nests b c sql = true) :
    Fenced a c names (f ++ [.text sql]) := by
  have hc := hf.append (Fenced.text sql h (.nil c)) rfl
  rwa [List.append_nil] at hc

/-- A fragment between two texts, the first of which opens what the second closes. -/
theorem wrap (hf : Fenced 0 0 names f) (before after : String) (k : Nat)
    (hbefore : nests 0 (0 + k) before = true) (hafter : nests (0 + k) 0 after = true) :
    Fenced 0 0 names (.text before :: f ++ [.text after]) :=
  .text before hbefore ((hf.lift k).close after hafter)

theorem parens (hf : Fenced 0 0 names f) : Fenced 0 0 names (parens f) :=
  hf.wrap "(" ")" 1 rfl rfl

theorem call (hf : Fenced 0 0 names f) (function : String) (h : nests 0 0 function = true) :
    Fenced 0 0 names (call function f) :=
  .text function h hf.parens

/-- Only an empty fragment is written with no character. -/
theorem eq_nil_of_isBlank (hf : Fenced a b names f) (h : f.isBlank = true) : names = [] := by
  cases hf with
  | nil => rfl
  | text sql hsql hf =>
    have hunquoted : isUnquoted sql = true := (Bool.and_eq_true _ _ ▸ hsql).1
    simp only [isBlank, List.all_cons, Bool.and_eq_true, String.isEmpty_iff] at h
    rw [h.1] at hunquoted
    cases hunquoted
  | name identifier hopens hf => cases h
  | hole v hf => cases h

theorem bind (v : Value) : Fenced 0 0 [] (bind v) := by
  unfold Fragment.bind
  split
  · exact .text "DEFAULT" rfl (.nil 0)
  · exact .hole v (.nil 0)

theorem of_name (identifier : String) : Fenced 0 0 [identifier] (Fragment.name identifier) :=
  .name identifier rfl (.nil 0)

end Fenced

/-! ## Lists of fenced fragments -/

inductive FencedAll : List String → List Fragment → Prop where
  | nil : FencedAll [] []
  | cons {names others : List String} {f : Fragment} {fs : List Fragment}
      (hf : Fenced 0 0 names f) (hfs : FencedAll others fs) :
      FencedAll (names ++ others) (f :: fs)

namespace FencedAll

variable {names others : List String} {fs gs : List Fragment}

theorem single {f : Fragment} (hf : Fenced 0 0 names f) : FencedAll names [f] := by
  have h := FencedAll.cons hf .nil
  rwa [List.append_nil] at h

theorem append (hf : FencedAll names fs) (hg : FencedAll others gs) :
    FencedAll (names ++ others) (fs ++ gs) := by
  induction hf with
  | nil => exact hg
  | cons hf hfs ih =>
    rw [List.append_assoc]
    exact .cons hf ih

theorem joined (hf : FencedAll names fs) (separator : String) (h : nests 0 0 separator = true) :
    Fenced 0 0 names (joined separator fs) := by
  induction hf with
  | nil => exact .nil 0
  | @cons names others f fs hf hfs ih =>
    cases fs with
    | nil =>
      cases hfs
      rwa [List.append_nil]
    | cons g rest => exact hf.append (.text separator h ih) rfl

theorem flatMap {α : Type} (names : α → List String) (f : α → Fragment) (items : List α)
    (h : ∀ a, Fenced 0 0 (names a) (f a)) : FencedAll (items.flatMap names) (items.map f) := by
  induction items with
  | nil => exact .nil
  | cons a rest ih => exact .cons (h a) ih

theorem map_bind (vs : List Value) : FencedAll [] (vs.map Fragment.bind) := by
  induction vs with
  | nil => exact .nil
  | cons v rest ih => exact .cons (.bind v) ih

end FencedAll

/-! ## Identifiers -/

/-- The segments of a path that are names. -/
def segments (p : String) : List String := (fields '.' p).filter (· ≠ "*")

theorem fenced_names (identifiers : List String) : Fenced 0 0 identifiers (names identifiers) := by
  have h := FencedAll.flatMap (fun i => [i]) Fragment.name identifiers Fenced.of_name
  rw [List.flatMap_singleton'] at h
  exact h.joined ", " rfl

theorem fenced_path (p : String) : Fenced 0 0 (segments p) (path p) := by
  have hsegment : ∀ s : String, Fenced 0 0 ([s].filter (· ≠ "*")) [segment s] := by
    intro s
    unfold segment
    by_cases hs : s = "*"
    · subst hs
      exact .text "*" rfl (.nil 0)
    · rw [if_neg hs, List.filter_cons_of_pos (by simpa using hs)]
      exact .of_name s
  have h := FencedAll.flatMap (fun s : String => [s].filter (· ≠ "*")) (fun s => [segment s])
    (fields '.' p) hsegment
  have hnames : (fields '.' p).flatMap (fun s => [s].filter (· ≠ "*")) = segments p := by
    rw [← List.filter_flatMap, List.flatMap_singleton']
    rfl
  rw [hnames] at h
  exact h.joined "." rfl

/-! ## Written fragments -/

/-- The lexemes a fragment is written with, behind `bound` values. -/
def lexemes (d : Dialect) : Nat → Fragment → List Lexeme
  | _, [] => []
  | bound, .text sql :: rest => sql.toList.map .plain ++ lexemes d bound rest
  | bound, .name identifier :: rest => .name identifier :: lexemes d bound rest
  | bound, .hole _ :: rest =>
    (d.placeholder (bound + 1)).map .plain ++ lexemes d (bound + 1) rest

theorem notMem_placeholder {c : Char} (d : Dialect) (n : Nat) (hdigit : c.isDigit = false)
    (hmark : c ≠ '$' ∧ c ≠ '?') : c ∉ d.placeholder n := by
  have hc : c ∉ natChars n := fun hmem =>
    absurd (isDigit_of_mem_natChars hmem) (by rw [hdigit]; decide)
  cases d <;> simp [Dialect.placeholder, hmark, hc]

theorem quoteChar_notMem_placeholder (d : Dialect) (n : Nat) :
    d.quoteChar ∉ d.placeholder n := by
  refine notMem_placeholder d n ?_ ?_ <;> cases d <;> decide

section Apart

variable {f : Fragment}

/-- A fragment that opens plain does not open with a quote. -/
theorem head_ne_quoteChar (hf : f.isApart = true) (hopens : f.opensPlain = true) (d : Dialect)
    (bound : Nat) : (writeFrom d bound f).head? ≠ some d.quoteChar := by
  cases f with
  | nil => exact nofun
  | cons p rest =>
    cases p with
    | text sql =>
      have hunquoted : isUnquoted sql = true := (Bool.and_eq_true _ _ ▸ hf).1
      have hnot := quoteChar_notMem hunquoted d
      unfold isUnquoted at hunquoted
      cases hchars : sql.toList with
      | nil => rw [hchars] at hunquoted; cases hunquoted
      | cons c cs =>
        rw [hchars, List.mem_cons, not_or] at hnot
        rw [writeFrom, hchars]
        exact fun hc => hnot.1 (Option.some.inj hc).symm
    | name identifier => cases hopens
    | hole v =>
      have hplaceholder := quoteChar_notMem_placeholder d (bound + 1)
      cases d <;> exact fun hc => hplaceholder (List.mem_of_mem_head? hc)

theorem lexemes_eq (hf : f.isApart = true) (d : Dialect) (bound : Nat) :
    lexemesFrom d.quoteChar .outside (writeFrom d bound f) = some (f.lexemes d bound) := by
  induction f generalizing bound with
  | nil => rfl
  | cons p rest ih =>
    cases p with
    | text sql =>
      obtain ⟨hunquoted, hrest⟩ := Bool.and_eq_true _ _ ▸ hf
      rw [writeFrom, lexemesFrom_plain (quoteChar_notMem hunquoted d), ih hrest]
      rfl
    | name identifier =>
      obtain ⟨hopens, hrest⟩ := Bool.and_eq_true _ _ ▸ hf
      rw [writeFrom, lexemesFrom_quoted (head_ne_quoteChar hrest hopens d bound), ih hrest]
      rfl
    | hole v =>
      rw [writeFrom, lexemesFrom_plain (quoteChar_notMem_placeholder d _), ih hf]
      rfl

end Apart

namespace Fenced

variable {a b : Nat} {names : List String} {f : Fragment}

theorem isApart (hf : Fenced a b names f) : f.isApart = true := by
  induction hf with
  | nil => rfl
  | text sql h hf ih =>
    have hunquoted : isUnquoted sql = true := (Bool.and_eq_true _ _ ▸ h).1
    rw [Fragment.isApart, hunquoted, ih]
    rfl
  | name identifier h hf ih =>
    rw [Fragment.isApart, h, ih]
    rfl
  | hole v hf ih => exact ih

theorem names_eq (hf : Fenced a b names f) (d : Dialect) (bound : Nat) :
    (f.lexemes d bound).filterMap Lexeme.content? = names := by
  have hplain : ∀ s : List Char, (s.map Lexeme.plain).filterMap Lexeme.content? = [] := by
    intro s
    rw [List.filterMap_map, List.filterMap_eq_nil_iff]
    exact fun _ _ => rfl
  induction hf generalizing bound with
  | nil => rfl
  | text sql h hf ih => rw [Fragment.lexemes, List.filterMap_append, hplain, ih, List.nil_append]
  | name identifier h hf ih => exact congrArg (identifier :: ·) (ih bound)
  | hole v hf ih => rw [Fragment.lexemes, List.filterMap_append, hplain, ih, List.nil_append]

theorem nesting_eq (hf : Fenced a b names f) (d : Dialect) (bound : Nat) :
    nesting a ((f.lexemes d bound).filterMap Lexeme.plain?) = some b := by
  have hplain : ∀ s : List Char, (s.map Lexeme.plain).filterMap Lexeme.plain? = s := by
    intro s
    rw [List.filterMap_map]
    exact List.filterMap_some
  induction hf generalizing bound with
  | nil => rfl
  | text sql h hf ih =>
    have hnesting := (Bool.and_eq_true _ _ ▸ h).2
    rw [beq_iff_eq] at hnesting
    rw [Fragment.lexemes, List.filterMap_append, hplain, nesting_append, hnesting]
    exact ih bound
  | name identifier h hf ih => exact ih bound
  | @hole a b names f v hf ih =>
    have hnesting : nesting a (d.placeholder (bound + 1)) = some a :=
      nesting_of_notMem (notMem_placeholder d _ rfl (by decide))
        (notMem_placeholder d _ rfl (by decide)) a
    rw [Fragment.lexemes, List.filterMap_append, hplain, nesting_append, hnesting]
    exact ih (bound + 1)

end Fenced

end Fragment

end RecordMapper
