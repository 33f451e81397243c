import RecordMapper.Proofs.Query.TableCommands

/-!
Expressions that are composed by operators are written without ambiguity.

* `Expr.Composed` are the expressions of columns and values, composed by arithmetic, comparison,
  `NULLIF` and `COALESCE`.
* `Precedence` is how a database groups operands with operators between them. `Token.readOperand`
  and `Token.exprOf` read expressions by any such grouping.
* `Readable` is an expression with the fragment it is compiled to, from which it is read back in
  front of any rest. Every composed expression has one (`Expr.Composed.exists_readable`).
* `Expr.composed_unambiguous`: a composed expression is given by its statement, and is the same by
  every precedence.
-/
namespace RecordMapper

set_option autoImplicit false

/-! ## Composed expressions -/

/-- Columns and values, and what is composed of them by operators, `NULLIF` and `COALESCE`. -/
inductive Expr.Composed (d : Dialect) : Expr → Prop where
  | column (path : String) : Composed d (.column path)
  | literal (v : Value) : Composed d (.literal v)
  | arithmetic {left right : Expr} (op : Arithmetic) (hleft : Composed d left)
      (hright : Composed d right) : Composed d (.arithmetic left op right)
  /-- A dialect without `ILIKE` writes it in other words. -/
  | compare {left right : Expr} (op : Comparison) (hop : op = .ilike → d.hasIlike = true)
      (hleft : Composed d left) (hright : Composed d right) : Composed d (.compare left op right)
  | nullIf {left right : Expr} (hleft : Composed d left) (hright : Composed d right) :
      Composed d (.nullIf left right)
  | coalesce {choices : List Expr} (h : ∀ e ∈ choices, Composed d e) :
      Composed d (.coalesce choices)

/-- What stands between two expressions. -/
inductive Infix where
  | arithmetic (op : Arithmetic)
  | compare (op : Comparison)

namespace Infix

def word : Infix → String
  | .arithmetic op => " " ++ op.sql ++ " "
  | .compare op => " " ++ op.sql ++ " "

def apply (left right : Expr) : Infix → Expr
  | .arithmetic op => .arithmetic left op right
  | .compare op => .compare left op right

def all : List Infix :=
  [.arithmetic .add, .arithmetic .sub, .arithmetic .mul, .arithmetic .div, .arithmetic .mod,
    .compare .eq, .compare .ne, .compare .lt, .compare .le, .compare .gt, .compare .ge,
    .compare .like, .compare .notLike, .compare .ilike]

end Infix

/-- How a database groups operands that stand in a row with operators between them, by the
precedence of these and from the left or from the right. One operand is an expression already, and
two can be grouped in one way only. -/
structure Precedence where
  group : Expr → List (Infix × Expr) → Expr
  group_nil : ∀ e, group e [] = e
  group_single : ∀ left i right, group left [(i, right)] = i.apply left right

/-- All operators are equal, and grouped from the left. -/
def Precedence.fromLeft : Precedence where
  group first more := more.foldl (fun left next => next.1.apply left next.2) first
  group_nil _ := rfl
  group_single _ _ _ := rfl

/-! ## Reading -/

namespace Token

def readInfix (ts : List Token) : Option (Infix × List Token) :=
  Infix.all.findSome? fun i => (expect i.word ts).map fun rest => (i, rest)

section Items

variable (item : List Token → Option (Expr × List Token))

/-- Operators, each with an operand behind it. -/
def chainOf : Nat → List Token → Option (List (Infix × Expr) × List Token)
  | 0, ts => some ([], ts)
  | bound + 1, ts =>
    match readInfix ts with
    | some (i, ts) => do
      let (e, ts) ← item ts
      let (more, ts) ← chainOf bound ts
      return ((i, e) :: more, ts)
    | none => some ([], ts)

/-- Operands with operators between them. -/
def exprOf (p : Precedence) (ts : List Token) : Option (Expr × List Token) := do
  let (first, ts) ← item ts
  let (more, ts) ← chainOf item ts.length ts
  return (p.group first more, ts)

def parensOf (ts : List Token) : Option (Expr × List Token) := do
  let ts ← expect "(" ts
  let (e, ts) ← item ts
  let ts ← expect ")" ts
  return (e, ts)

/-- The arguments of a function, if it has any. -/
def argumentsOf (function : String) (ts : List Token) : Option (List Expr × List Token) := do
  let ts ← expect function ts
  let ts ← expect "(" ts
  let (arguments, ts) := (list item ", " ts).getD ([], ts)
  let ts ← expect ")" ts
  return (arguments, ts)

def nullIfOf (ts : List Token) : Option (Expr × List Token) :=
  match argumentsOf item "NULLIF" ts with
  | some ([left, right], ts) => some (.nullIf left right, ts)
  | _ => none

def coalesceOf (ts : List Token) : Option (Expr × List Token) := do
  let (choices, ts) ← argumentsOf item "COALESCE" ts
  return (.coalesce choices, ts)

end Items

def columnOf (ts : List Token) : Option (Expr × List Token) := do
  let (path, ts) ← readPath ts
  return (.column path, ts)

def literalOf (ts : List Token) : Option (Expr × List Token) := do
  let (v, ts) ← readOrDefault ts
  return (.literal v, ts)

/-- An operand of at most this depth: a column, a value, an expression in parentheses, or a call. -/
def readOperand (p : Precedence) : Nat → List Token → Option (Expr × List Token)
  | 0, _ => none
  | depth + 1, ts =>
    columnOf ts <|> literalOf ts <|> parensOf (exprOf (readOperand p depth) p) ts <|>
      nullIfOf (exprOf (readOperand p depth) p) ts <|>
      coalesceOf (exprOf (readOperand p depth) p) ts

open Fragment

theorem readInfix_word (i : Infix) (f : Fragment) :
    readInfix (tokens (.text i.word :: f)) = some (i, tokens f) := by
  cases i with
  | arithmetic op => cases op <;> rfl
  | compare op => cases op <;> rfl

theorem noDot_word (i : Infix) (f : Fragment) : noDot (.text i.word :: f) := by
  cases i with
  | arithmetic op => cases op <;> rfl
  | compare op => cases op <;> rfl

theorem length_tokens_word (i : Infix) (f : Fragment) :
    ∃ n, (tokens (.text i.word :: f)).length = n + 1 := by
  refine Nat.exists_eq_add_one_of_ne_zero fun hzero => ?_
  have hread := readInfix_word i f
  rw [List.eq_nil_of_length_eq_zero hzero] at hread
  cases hread

/-- Neither a dot nor an operator follows. -/
def ends (rest : Fragment) : Prop := noDot rest ∧ readInfix (tokens rest) = none

section Composing

variable {item : List Token → Option (Expr × List Token)} {e left right : Expr} {f g : Fragment}

theorem chainOf_nil (bound : Nat) {ts : List Token} (h : readInfix ts = none) :
    chainOf item bound ts = some ([], ts) := by
  cases bound with
  | zero => rfl
  | succ bound => rw [chainOf, h]

/-- An operand alone is an expression. -/
theorem exprOf_operand (p : Precedence) (h : Finds item noDot e f) :
    Finds (exprOf item p) ends e f := by
  intro rest hrest
  have hread := h rest hrest.1
  simp only [exprOf, hread, chainOf_nil _ hrest.2, p.group_nil, Option.bind_eq_bind,
    Option.bind_some, Option.pure_def]

theorem exprOf_operator (p : Precedence) (i : Infix) (hleft : Finds item noDot left f)
    (hright : Finds item noDot right g) :
    Finds (exprOf item p) ends (i.apply left right) (f ++ .text i.word :: g) := by
  intro rest hrest
  have hl := hleft (.text i.word :: (g ++ rest)) (noDot_word i _)
  have hr := hright rest hrest.1
  obtain ⟨bound, hlength⟩ := length_tokens_word i (g ++ rest)
  have hchain : chainOf item (tokens (.text i.word :: (g ++ rest))).length
      (tokens (.text i.word :: (g ++ rest))) = some ([(i, right)], tokens rest) := by
    rw [hlength, chainOf, readInfix_word]
    simp only [hr, chainOf_nil _ hrest.2, Option.bind_eq_bind, Option.bind_some, Option.pure_def]
  rw [List.append_assoc, List.cons_append]
  simp only [exprOf, hl, hchain, p.group_single, Option.bind_eq_bind, Option.bind_some,
    Option.pure_def]

theorem parensOf_parens (h : Finds item ends e f) :
    Finds (parensOf item) anything e (parens f) := by
  intro rest _
  have hread := h (.text ")" :: rest) ⟨rfl, rfl⟩
  simp only [parensOf, parens, List.cons_append, List.append_assoc, List.nil_append, expect_text,
    hread, Option.bind_eq_bind, Option.bind_some, Option.pure_def]

theorem argumentsOf_call (function : String) {es : List Expr} {fs : List Fragment}
    (h : List.Forall₂ (Finds item ends) es fs) (hne : fs ≠ []) :
    Finds (argumentsOf item function) anything es (call function (joined ", " fs)) := by
  intro rest _
  have hseparator : ∀ f, ends (.text ", " :: f) := fun _ => ⟨rfl, rfl⟩
  have hlist : list item ", " (tokens (joined ", " fs ++ .text ")" :: rest)) =
      some (es, tokens (.text ")" :: rest)) :=
    list_joined h hne hseparator (by decide) ⟨rfl, rfl⟩ rfl
  simp only [argumentsOf, call, parens, List.cons_append, List.append_assoc, List.nil_append,
    expect_text, hlist, Option.getD_some, Option.bind_eq_bind, Option.bind_some, Option.pure_def]

/-- Where an item would begin with a closing parenthesis there are no arguments. -/
theorem argumentsOf_nil (function : String) (hitem : ∀ ts, item (.plain ')' :: ts) = none) :
    Finds (argumentsOf item function) anything [] (call function []) := by
  intro rest _
  have hlist : list item ", " (tokens (.text ")" :: rest)) = none := by
    show separated item ", " (_ + 1) (.plain ')' :: tokens rest) = none
    rw [separated, hitem]
    rfl
  simp only [argumentsOf, call, parens, List.cons_append, List.nil_append, expect_text, hlist,
    Option.getD_none, Option.bind_eq_bind, Option.bind_some, Option.pure_def]

end Composing

section Operands

variable {p : Precedence} {depth : Nat}

theorem exprOf_close (ts : List Token) :
    exprOf (readOperand p depth) p (.plain ')' :: ts) = none := by
  cases depth <;> rfl

theorem readOperand_column (path : String) :
    Finds (readOperand p (depth + 1)) noDot (.column path) (Fragment.path path) := by
  intro rest hrest
  have hread := readPath_path path rest hrest
  simp only [readOperand, columnOf, hread, Option.bind_eq_bind, Option.bind_some, Option.pure_def]
  rfl

theorem readOperand_literal (v : Value) :
    Finds (readOperand p (depth + 1)) noDot (.literal v) (bind v) := by
  intro rest _
  have hread := readOrDefault_bind v rest trivial
  have hcolumn : columnOf (tokens (bind v ++ rest)) = none := by cases v <;> rfl
  simp only [readOperand, hcolumn, literalOf, hread, Option.bind_eq_bind, Option.bind_some,
    Option.pure_def]
  rfl

theorem readOperand_parens {e : Expr} {f : Fragment}
    (h : Finds (exprOf (readOperand p depth) p) ends e f) :
    Finds (readOperand p (depth + 1)) noDot e (parens f) := by
  intro rest _
  rw [readOperand, parensOf_parens h rest trivial]
  rfl

theorem readOperand_nullIf {left right : Expr} {fs : List Fragment}
    (h : List.Forall₂ (Finds (exprOf (readOperand p depth) p) ends) [left, right] fs) :
    Finds (readOperand p (depth + 1)) noDot (.nullIf left right)
      (call "NULLIF" (joined ", " fs)) := by
  intro rest _
  have hne : fs ≠ [] := by
    rintro rfl
    cases h
  have hnull : nullIfOf (exprOf (readOperand p depth) p)
      (tokens (call "NULLIF" (joined ", " fs) ++ rest)) =
      some (.nullIf left right, tokens rest) := by
    rw [nullIfOf, argumentsOf_call "NULLIF" h hne rest trivial]
  rw [readOperand, hnull]
  rfl

theorem readOperand_coalesce {choices : List Expr} {fs : List Fragment}
    (h : List.Forall₂ (Finds (exprOf (readOperand p depth) p) ends) choices fs) :
    Finds (readOperand p (depth + 1)) noDot (.coalesce choices)
      (call "COALESCE" (joined ", " fs)) := by
  intro rest _
  have hread : argumentsOf (exprOf (readOperand p depth) p) "COALESCE"
      (tokens (call "COALESCE" (joined ", " fs) ++ rest)) = some (choices, tokens rest) := by
    cases h with
    | nil => exact argumentsOf_nil "COALESCE" exprOf_close rest trivial
    | cons hfirst h =>
      exact argumentsOf_call "COALESCE" (.cons hfirst h) (List.cons_ne_nil _ _) rest trivial
  have hcoalesce : coalesceOf (exprOf (readOperand p depth) p)
      (tokens (call "COALESCE" (joined ", " fs) ++ rest)) =
      some (.coalesce choices, tokens rest) := by
    rw [coalesceOf, hread]
    rfl
  rw [readOperand, hcoalesce]
  rfl

end Operands

end Token

/-! ## Calls and parentheses -/

namespace Fragment

variable {f g : Fragment}

theorem isLegible_parens (h : isLegible f = true) : isLegible (parens f) = true := by
  have hclosed : isLegible (f ++ [.text ")"]) = true := isLegible_append h rfl rfl
  simp only [parens, List.cons_append, isLegible, hclosed]
  rfl

theorem isLegible_word (i : Infix) (h : isLegible g = true) :
    isLegible (.text i.word :: g) = true ∧ opensText (.text i.word :: g) = true := by
  have hword : isUnquoted i.word = true ∧ isQuiet i.word = true ∧
      opensText (.text i.word :: g) = true := by
    cases i with
    | arithmetic op => cases op <;> exact ⟨rfl, rfl, rfl⟩
    | compare op => cases op <;> exact ⟨rfl, rfl, rfl⟩
  simp only [isLegible, hword.1, hword.2.1, h, hword.2.2, Bool.and_self, and_self]

theorem tokens_parens (f : Fragment) :
    (parens f).tokens = .plain '(' :: (f.tokens ++ [.plain ')']) := by
  simp only [parens, List.cons_append, tokens, tokens_append]
  rfl

/-- Calls of functions, whose names have neither quotes nor placeholders in them. -/
theorem isLegible_call {function : String} (hunquoted : isUnquoted function = true)
    (hquiet : isQuiet function = true) (h : isLegible f = true) :
    isLegible (call function f) = true := by
  have hparens := isLegible_parens h
  simp only [call, isLegible, hunquoted, hquiet, hparens, Bool.and_self]

theorem length_tokens_call (function : String) (f : Fragment) :
    f.tokens.length < (call function f).tokens.length := by
  rw [call, tokens, List.length_append, tokens_parens, List.length_cons, List.length_append]
  omega

theorem length_tokens_joined {fs : List Fragment} (h : f ∈ fs) :
    f.tokens.length ≤ (joined ", " fs).tokens.length := by
  induction fs with
  | nil => cases h
  | cons first rest ih =>
    cases rest with
    | nil =>
      rw [List.mem_singleton.mp h]
      exact Nat.le_refl _
    | cons second rest =>
      rw [joined, tokens_append, tokens, List.length_append, List.length_append]
      rcases List.mem_cons.mp h with rfl | h
      · exact Nat.le_add_right ..
      · have hlength := ih h
        omega

end Fragment

/-! ## Compiling -/

open Fragment Token

/-- The expression is compiled to the fragment, and read back from it in front of any rest. -/
structure Readable (d : Dialect) (e : Expr) (f : Fragment) : Prop where
  compiled : e.compile d = .ok f
  legible : f.isLegible = true
  read : ∀ p depth, f.tokens.length ≤ depth → Finds (readOperand p depth) noDot e f

namespace Readable

variable {d : Dialect} {e left right : Expr} {f g : Fragment}

/-- Nothing is read without tokens, so there is a first step. -/
theorem of_step (hcompiled : e.compile d = .ok f) (hlegible : f.isLegible = true)
    (hne : f.tokens ≠ [])
    (hread : ∀ p depth, f.tokens.length ≤ depth + 1 →
      Finds (readOperand p (depth + 1)) noDot e f) : Readable d e f := by
  refine ⟨hcompiled, hlegible, fun p depth hdepth => ?_⟩
  cases depth with
  | zero => exact absurd (List.eq_nil_of_length_eq_zero (Nat.le_zero.mp hdepth)) hne
  | succ depth => exact hread p depth hdepth

theorem column (d : Dialect) (path : String) :
    Readable d (.column path) (Fragment.path path) := by
  refine of_step rfl (isLegible_path path) (fun hnil => ?_) fun _ _ _ => readOperand_column path
  have hread := readPath_path path [] rfl
  rw [List.append_nil, hnil] at hread
  cases hread

theorem literal (d : Dialect) (v : Value) : Readable d (.literal v) (bind v) := by
  refine of_step rfl (isLegible_bind v) ?_ fun _ _ _ => readOperand_literal v
  cases v <;> exact List.cons_ne_nil _ _

theorem operator (i : Infix) (hleft : Readable d left f) (hright : Readable d right g)
    (hcompiled : (i.apply left right).compile d = .ok (parens (f ++ .text i.word :: g))) :
    Readable d (i.apply left right) (parens (f ++ .text i.word :: g)) := by
  obtain ⟨hword, hopens⟩ := isLegible_word i hright.legible
  refine of_step hcompiled (isLegible_parens (isLegible_append hleft.legible hword hopens)) ?_ ?_
  · rw [tokens_parens]
    exact List.cons_ne_nil _ _
  · intro p depth hdepth
    rw [tokens_parens, tokens_append, tokens] at hdepth
    simp only [List.length_cons, List.length_append] at hdepth
    exact readOperand_parens
      (exprOf_operator p i (hleft.read p depth (by omega)) (hright.read p depth (by omega)))

section Arguments

variable {es : List Expr} {fs : List Fragment} (h : List.Forall₂ (Readable d) es fs)

include h

theorem compileExprs_eq : compileExprs d es = .ok fs := by
  induction h with
  | nil => rfl
  | cons hf h ih =>
    rw [compileExprs, hf.compiled, ih]
    rfl

theorem isLegible_arguments : isLegible (joined ", " fs) = true := by
  refine isLegible_joined (fun f hf => ?_) rfl rfl rfl
  obtain ⟨e, -, hread⟩ := exists_left_of_mem h hf
  exact hread.legible

theorem finds_arguments {function : String} (p : Precedence) {depth : Nat}
    (hdepth : (call function (joined ", " fs)).tokens.length ≤ depth + 1) :
    List.Forall₂ (Finds (exprOf (readOperand p depth) p) ends) es fs := by
  have hcall := length_tokens_call function (joined ", " fs)
  have hmem := (List.forall₂_and_left _ _).mpr ⟨fun f hf => hf, h.flip⟩
  refine (hmem.imp fun f e hfe => ?_).flip
  have hjoined := length_tokens_joined hfe.1
  exact exprOf_operand p (hfe.2.read p depth (by omega))

end Arguments

theorem nullIf (hleft : Readable d left f) (hright : Readable d right g) :
    Readable d (.nullIf left right) (call "NULLIF" (joined ", " [f, g])) := by
  have hall : List.Forall₂ (Readable d) [left, right] [f, g] := .cons hleft (.cons hright .nil)
  refine of_step ?_ (isLegible_call rfl rfl (isLegible_arguments hall)) (List.cons_ne_nil _ _)
    fun p depth hdepth => readOperand_nullIf (finds_arguments hall p hdepth)
  rw [Expr.compile, hleft.compiled, hright.compiled]
  rfl

theorem coalesce {choices : List Expr} {fs : List Fragment}
    (h : List.Forall₂ (Readable d) choices fs) :
    Readable d (.coalesce choices) (call "COALESCE" (joined ", " fs)) := by
  refine of_step ?_ (isLegible_call rfl rfl (isLegible_arguments h)) (List.cons_ne_nil _ _)
    fun p depth hdepth => readOperand_coalesce (finds_arguments h p hdepth)
  rw [Expr.compile, compileExprs_eq h]
  rfl

theorem exists_arguments {es : List Expr} (h : ∀ e ∈ es, ∃ f, Readable d e f) :
    ∃ fs, List.Forall₂ (Readable d) es fs := by
  induction es with
  | nil => exact ⟨[], .nil⟩
  | cons e rest ih =>
    obtain ⟨⟨f, hf⟩, hrest⟩ := List.forall_mem_cons.mp h
    obtain ⟨fs, hfs⟩ := ih hrest
    exact ⟨f :: fs, .cons hf hfs⟩

end Readable

theorem Expr.Composed.exists_readable {d : Dialect} {e : Expr} (h : e.Composed d) :
    ∃ f, Readable d e f := by
  induction h with
  | column path => exact ⟨_, .column d path⟩
  | literal v => exact ⟨_, .literal d v⟩
  | arithmetic op hleft hright ihleft ihright =>
    obtain ⟨f, hf⟩ := ihleft
    obtain ⟨g, hg⟩ := ihright
    refine ⟨_, .operator (.arithmetic op) hf hg ?_⟩
    rw [Infix.apply, Expr.compile, hf.compiled, hg.compiled]
    rfl
  | compare op hop hleft hright ihleft ihright =>
    obtain ⟨f, hf⟩ := ihleft
    obtain ⟨g, hg⟩ := ihright
    refine ⟨_, .operator (.compare op) hf hg ?_⟩
    have hnot : ¬(op = .ilike ∧ (!d.hasIlike) = true) := by
      rintro ⟨hilike, hlacks⟩
      rw [hop hilike] at hlacks
      cases hlacks
    rw [Infix.apply, Expr.compile, hf.compiled, hg.compiled]
    show Except.ok (parens (op.between d f g)) = _
    rw [Comparison.between, if_neg hnot]
    rfl
  | nullIf hleft hright ihleft ihright =>
    obtain ⟨f, hf⟩ := ihleft
    obtain ⟨g, hg⟩ := ihright
    exact ⟨_, .nullIf hf hg⟩
  | coalesce h ih =>
    obtain ⟨fs, hfs⟩ := Readable.exists_arguments ih
    exact ⟨_, .coalesce hfs⟩

/-! ## Statements -/

/-- The tokens of a statement that stands behind `bound` values. -/
def Statement.tokensBehind (d : Dialect) (bound : Nat) (st : Statement) : Option (List Token) :=
  (lexemes d.quoteChar st.sql).bind
    (placeFrom d (List.replicate bound .null ++ st.values) bound none)

theorem Fragment.tokensBehind_statement {f : Fragment} (h : f.isLegible = true) (d : Dialect)
    (bound : Nat) : (f.statement d bound).tokensBehind d bound = some f.tokens := by
  have hlexemes := lexemes_eq (isApart_of_isLegible h) d bound
  have hplaced := placeFrom_lexemes (d := d) h (List.replicate bound .null)
  rw [List.length_replicate] at hplaced
  unfold Statement.tokensBehind RecordMapper.lexemes Fragment.statement Fragment.write
  rw [String.toList_ofList, hlexemes]
  exact hplaced

/-- The expression that a database with this precedence finds in a statement. -/
def Statement.readExpr (d : Dialect) (p : Precedence) (bound : Nat) (st : Statement) :
    Option Expr :=
  (st.tokensBehind d bound).bind fun ts =>
    match exprOf (readOperand p ts.length) p ts with
    | some (e, []) => some e
    | _ => none

theorem Readable.readExpr_statement {d : Dialect} {e : Expr} {f : Fragment} (h : Readable d e f)
    (p : Precedence) (bound : Nat) : (f.statement d bound).readExpr d p bound = some e := by
  have hread := exprOf_operand p (h.read p _ (Nat.le_refl _)) [] ⟨rfl, rfl⟩
  rw [List.append_nil] at hread
  rw [Statement.readExpr, tokensBehind_statement h.legible, Option.bind_some, hread]
  rfl

/-- A composed expression is read back from its statement, whatever its names and values are and
whatever precedence operators have. So no other expression has the same statement. -/
theorem Expr.composed_unambiguous {d : Dialect} {e : Expr} (he : e.Composed d) (bound : Nat) :
    ∃ st, (e.compile d).map (Fragment.statement d bound) = .ok st ∧
      (∀ p, st.readExpr d p bound = some e) ∧
      ∀ e' : Expr, e'.Composed d →
        (e'.compile d).map (Fragment.statement d bound) = .ok st → e' = e := by
  obtain ⟨f, hf⟩ := he.exists_readable
  refine ⟨f.statement d bound, ?_, fun p => hf.readExpr_statement p bound,
    fun e' he' hsame => ?_⟩
  · rw [hf.compiled]
    rfl
  · obtain ⟨f', hf'⟩ := he'.exists_readable
    rw [hf'.compiled] at hsame
    have hstatement : f'.statement d bound = f.statement d bound := Except.ok.inj hsame
    have hread := hf'.readExpr_statement .fromLeft bound
    rw [hstatement, hf.readExpr_statement .fromLeft bound] at hread
    exact (Option.some.inj hread).symm

/-- Names that look like operators, a star beside a multiplication, the keyword beside a column of
its name, and a call without arguments. -/
def disguised : Expr :=
  .compare (.arithmetic (.column "a\") + (\"b") .mul (.column "*")) .notLike
    (.coalesce [.nullIf (.literal .default) (.column "DEFAULT"),
      .arithmetic (.literal (.int8 1)) .sub (.literal (.int8 2)), .coalesce []])

example : (disguised.compile .postgres).map (Fragment.write .postgres 2) =
    .ok ("((\"a\"\") + (\"\"b\" * *) NOT LIKE " ++
      "COALESCE(NULLIF(DEFAULT, \"DEFAULT\"), ($3 - $4), COALESCE()))") := by
  rfl

theorem composed_unambiguous_disguised :
    disguised.Composed .postgres ∧
    ∃ st, (disguised.compile .postgres).map (Fragment.statement .postgres 2) = .ok st ∧
      (∀ p, st.readExpr .postgres p 2 = some disguised) ∧
      ∀ e' : Expr, e'.Composed .postgres →
        (e'.compile .postgres).map (Fragment.statement .postgres 2) = .ok st →
          e' = disguised := by
  have hdifference : Expr.Composed .postgres
      (.arithmetic (.literal (.int8 1)) .sub (.literal (.int8 2))) :=
    .arithmetic .sub (.literal _) (.literal _)
  have hcomposed : disguised.Composed .postgres := by
    refine .compare .notLike (fun h => by cases h)
      (.arithmetic .mul (.column _) (.column _)) (.coalesce ?_)
    simp only [List.forall_mem_cons, List.not_mem_nil, false_imp_iff, implies_true, and_true]
    exact ⟨.nullIf (.literal _) (.column _), hdifference, .coalesce (fun e he => nomatch he)⟩
  exact ⟨hcomposed, Expr.composed_unambiguous hcomposed 2⟩

end RecordMapper
