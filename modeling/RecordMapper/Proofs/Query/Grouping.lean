import RecordMapper.Proofs.Query.Scopes
import RecordMapper.Proofs.Statement.Outline

/-!
Trusted SQL does not free a query from its scopes.

* `operandsFrom` cuts an outline at its ANDs and ORs, but not at the AND of a BETWEEN.
  `Fragment.truth?` is the value of a written condition that is read so.
* `Fragment.Conjoins operands f`: the condition `f` is the conjunction of these operands, and no OR
  stands outside of parentheses and quotes in it.
* Trusted SQL in parentheses is a single operand (`conjoins_parens`), and so is what asks for the
  value of a column (`isGrouped_isNull`, `isGrouped_eq`).
* `scopes_hold`: where the whole condition holds, every scope does, if no part of it that stands
  without parentheses has an OR. Trusted SQL in place of an expression can have one
  (`bare_or_escapes`).
-/
namespace RecordMapper

set_option autoImplicit false

open RecordMapper.Text

/-! ## Reading an outline -/

namespace Part

/-- Whether a part is this word, in capitals or not. -/
def is (keyword : String) : Part → Bool
  | .word w => upper w == keyword
  | .symbol _ => false

def isBlank : Part → Bool
  | .symbol (.char c) => c.isWhitespace
  | _ => false

/-- Whether the AND of a BETWEEN is still to come behind a part. -/
def awaits (between : Bool) (p : Part) : Bool :=
  !(p.is "AND" || p.is "OR") && (between || p.is "BETWEEN")

end Part

/-- An operand without the blanks around it. It was read last part first. -/
def trimmed (operand : List Part) : List Part :=
  (operand.dropWhile Part.isBlank).reverse.dropWhile Part.isBlank

/-- The operands of a condition, each with its connective. -/
def operandsFrom (c : Connective) (between : Bool) (operand : List Part) :
    List Part → List (Connective × List Part)
  | [] => [(c, trimmed operand)]
  | p :: rest =>
    if p.is "OR" then (c, trimmed operand) :: operandsFrom .or false [] rest
    else if p.is "AND" && !between then (c, trimmed operand) :: operandsFrom .and false [] rest
    else operandsFrom c (p.awaits between) (p :: operand) rest

/-- The value of a condition whose operands have the values that `truth` gives them. -/
def Fragment.truth? (truth : List Part → Truth) (f : Fragment) : Option Truth :=
  (outline f.symbols).map fun parts =>
    disjunction ((operandsFrom .and false [] parts).map fun l => (l.1, truth l.2))

theorem trimmed_blank {b : Part} (h : b.isBlank = true) (operand : List Part) :
    trimmed (b :: operand) = trimmed operand := by
  unfold trimmed
  rw [List.dropWhile_cons_of_pos h]

theorem trimmed_concat {b : Part} (h : b.isBlank = true) (operand : List Part) :
    trimmed (operand ++ [b]) = trimmed operand := by
  unfold trimmed
  rw [List.dropWhile_append]
  split
  · next hempty =>
    rw [List.isEmpty_iff.mp hempty, List.dropWhile_cons_of_pos h]
    rfl
  · rw [List.reverse_append, List.reverse_singleton, List.singleton_append,
      List.dropWhile_cons_of_pos h]

theorem operandsFrom_concat {b : Part} (h : b.isBlank = true) (c : Connective) (between : Bool)
    (operand parts : List Part) :
    operandsFrom c between (operand ++ [b]) parts = operandsFrom c between operand parts := by
  induction parts generalizing between operand with
  | nil => simp only [operandsFrom, trimmed_concat h]
  | cons p rest ih =>
    simp only [operandsFrom, trimmed_concat h]
    rw [← List.cons_append, ih]

def Part.blank : Part := .symbol (.char ' ')

theorem operandsFrom_word_and (c : Connective) (operand rest : List Part) :
    operandsFrom c false operand (.word "AND" :: rest) =
      (c, trimmed operand) :: operandsFrom .and false [] rest := by
  have hor : (Part.word "AND").is "OR" = false := by decide +kernel
  have hand : (Part.word "AND").is "AND" = true := by decide +kernel
  rw [operandsFrom, hor, hand]
  rfl

/-- What stands behind an AND is read by itself, unless the AND belongs to a BETWEEN. -/
theorem operandsFrom_and {between : Bool} {parts : List Part}
    (hsettled : parts.foldl Part.awaits between = false) (c : Connective)
    (operand rest : List Part) :
    operandsFrom c between operand (parts ++ .blank :: .word "AND" :: .blank :: rest) =
      operandsFrom c between operand parts ++ operandsFrom .and false [] rest := by
  -- By induction on what stands in front of the AND; at its end no BETWEEN is open.
  induction parts generalizing c between operand with
  | nil =>
    obtain rfl : between = false := hsettled
    have hblank : Part.blank.isBlank = true := rfl
    have hrest := operandsFrom_concat hblank .and false [] rest
    show operandsFrom c false (.blank :: operand) (.word "AND" :: .blank :: rest) = _
    rw [operandsFrom_word_and, trimmed_blank hblank]
    exact congrArg _ hrest
  | cons p more ih =>
    rw [List.foldl_cons] at hsettled
    simp only [List.cons_append, operandsFrom]
    by_cases hor : p.is "OR" = true
    · have hawaits : p.awaits between = false := by
        unfold Part.awaits
        rw [hor, Bool.or_true]
        rfl
      rw [hawaits] at hsettled
      rw [if_pos hor, if_pos hor, ih hsettled]
      rfl
    · rw [if_neg hor, if_neg hor]
      by_cases hcut : (p.is "AND" && !between) = true
      · have hawaits : p.awaits between = false := by
          unfold Part.awaits
          rw [Bool.and_eq_true] at hcut
          rw [hcut.1]
          rfl
        rw [hawaits] at hsettled
        rw [if_pos hcut, if_pos hcut, ih hsettled]
        rfl
      · rw [if_neg hcut, if_neg hcut, ih hsettled]

theorem operandsFrom_symbols (c : Connective) (operand : List Part) (xs : List Symbol) :
    operandsFrom c false operand (xs.map .symbol) =
      [(c, trimmed ((xs.map .symbol).reverse ++ operand))] := by
  induction xs generalizing operand with
  | nil => rfl
  | cons x rest ih =>
    show operandsFrom c false (.symbol x :: operand) (rest.map .symbol) = _
    rw [ih, List.map_cons, List.reverse_cons, List.append_assoc]
    rfl

theorem awaits_symbols (xs : List Symbol) :
    (xs.map Part.symbol).foldl Part.awaits false = false := by
  induction xs with
  | nil => rfl
  | cons x rest ih => exact ih

/-! ## Conjunctions -/

/-- A condition that is the conjunction of these operands, with no OR outside of parentheses and
quotes. -/
structure Fragment.Conjoins (operands : List (List Part)) (f : Fragment) : Prop where
  written : f.isBlank = false
  outlined : ∃ parts, outline f.symbols = some parts ∧
    parts.foldl Part.awaits false = false ∧
    operandsFrom .and false [] parts = conjoined operands

namespace Fragment

variable {as bs : List (List Part)} {f g : Fragment}

theorem Conjoins.balanced (h : Conjoins as f) : Balanced f.symbols := by
  obtain ⟨parts, houtline, -⟩ := h.outlined
  exact balanced_of_outline houtline

theorem outline_and {xs ys : List Symbol} {ps qs : List Part} (hx : outline xs = some ps)
    (hy : outline ys = some qs) :
    outline (xs ++ (" AND ".toList.map .char ++ ys)) =
      some (ps ++ .blank :: .word "AND" :: .blank :: qs) := by
  have hword : outline ("AND ".toList.map .char ++ ys) =
      (outline ys).map (.word "AND" :: .blank :: ·) := rfl
  show outlineFrom .start [] (xs ++ .char ' ' :: ("AND ".toList.map .char ++ ys)) = _
  rw [outlineFrom_blank hx, hword, hy]
  rfl

theorem Conjoins.and (hf : Conjoins as f) (hg : Conjoins bs g) :
    Conjoins (as ++ bs) (f ++ .text " AND " :: g) := by
  obtain ⟨ps, hps, hsettled, hoperands⟩ := hf.outlined
  obtain ⟨qs, hqs, hsettled', hoperands'⟩ := hg.outlined
  constructor
  · rw [isBlank_append, hf.written]
    rfl
  · refine ⟨ps ++ .blank :: .word "AND" :: .blank :: qs, ?_, ?_, ?_⟩
    · rw [symbols_append, symbols_text]
      exact outline_and hps hqs
    · have hand : [Part.blank, .word "AND", .blank].foldl Part.awaits false = false := by
        decide +kernel
      rw [List.foldl_append, hsettled]
      show qs.foldl Part.awaits ([Part.blank, .word "AND", .blank].foldl Part.awaits false) = false
      rw [hand, hsettled']
    · rw [operandsFrom_and hsettled, hoperands, hoperands', conjoined, conjoined, conjoined,
        List.map_append]

/-- Whatever is balanced is one operand in parentheses. -/
theorem conjoins_parens (h : Balanced f.symbols) :
    Conjoins [(inParens f.symbols).map .symbol] (parens f) := by
  have hsymbols : symbols (parens f) = inParens f.symbols := by
    unfold parens
    rw [symbols_append, symbols_text]
    rfl
  have hlast : ((inParens f.symbols).map Part.symbol).reverse =
      .symbol (.char ')') :: ((Symbol.char '(' :: f.symbols).map Part.symbol).reverse := by
    unfold inParens
    rw [List.map_append, List.reverse_append]
    rfl
  have htrimmed : trimmed ((inParens f.symbols).map Part.symbol).reverse =
      (inParens f.symbols).map .symbol := by
    have hclosing : ¬ Part.isBlank (.symbol (.char ')')) = true := by decide
    have hopening : ¬ Part.isBlank (.symbol (.char '(')) = true := by decide
    unfold trimmed
    rw [hlast, List.dropWhile_cons_of_neg hclosing, ← hlast, List.reverse_reverse]
    exact List.dropWhile_cons_of_neg hopening
  constructor
  · rfl
  · refine ⟨(inParens f.symbols).map .symbol, ?_, ?_, ?_⟩
    · rw [hsymbols]
      exact outline_inParens h
    · exact awaits_symbols _
    · rw [operandsFrom_symbols, List.append_nil, htrimmed]
      rfl

/-- The operands of conditions that ANDs join are those of each of them. -/
theorem conjoins_joined {f : Fragment} {fs : List Fragment} {operands : List (List Part)}
    (hf : Conjoins operands f) (hfs : ∀ g ∈ fs, ∃ bs, Conjoins bs g) :
    ∃ all, Conjoins all (joined " AND " (f :: fs)) ∧
      ∀ g ∈ f :: fs, ∃ bs, Conjoins bs g ∧ bs ⊆ all := by
  induction fs generalizing f operands with
  | nil =>
    refine ⟨operands, hf, fun g hg => ?_⟩
    obtain rfl := List.mem_singleton.mp hg
    exact ⟨operands, hf, List.Subset.refl operands⟩
  | cons g rest ih =>
    obtain ⟨bs, hg⟩ := hfs g (List.mem_cons_self ..)
    obtain ⟨others, hothers, hall⟩ := ih hg fun g' hg' => hfs g' (List.mem_cons_of_mem g hg')
    refine ⟨operands ++ others, hf.and hothers, fun g' hg' => ?_⟩
    rcases List.mem_cons.mp hg' with rfl | hg'
    · exact ⟨operands, hf, List.subset_append_left operands others⟩
    · obtain ⟨cs, hcs, hsubset⟩ := hall g' hg'
      exact ⟨cs, hcs, List.Subset.trans hsubset (List.subset_append_right operands others)⟩

theorem Conjoins.truth_eq (h : Conjoins as f) (truth : List Part → Truth) :
    f.truth? truth = some (.all (as.map truth)) := by
  obtain ⟨parts, hparts, -, hoperands⟩ := h.outlined
  unfold truth?
  rw [hparts, Option.map_some, hoperands, conjoined_map, disjunction_conjoined]

theorem Conjoins.holds_of_subset (hf : Conjoins as f) (hg : Conjoins bs g) (h : bs ⊆ as)
    {truth : List Part → Truth} (hyes : f.truth? truth = some .yes) :
    g.truth? truth = some .yes := by
  rw [hf.truth_eq, Option.some.injEq] at hyes
  rw [hg.truth_eq, Option.some.injEq]
  refine Truth.all_eq_yes fun t ht => ?_
  obtain ⟨operand, hoperand, rfl⟩ := List.mem_map.mp ht
  exact Truth.eq_yes_of_all hyes (List.mem_map_of_mem (h hoperand))

theorem balanced_continuation {links : List (Connective × Fragment)} (hf : Balanced f.symbols)
    (hlinks : ∀ l ∈ links, Balanced l.2.symbols) :
    Balanced (symbols (f ++ Word.spell (continuation links))) := by
  induction links generalizing f with
  | nil =>
    show Balanced (symbols (f ++ []))
    rwa [List.append_nil]
  | cons l rest ih =>
    obtain ⟨connective, g⟩ := l
    have hg := hlinks (connective, g) (List.mem_cons_self ..)
    have hjoined : Balanced (symbols (f ++ .text (" " ++ connective.sql ++ " ") :: g)) := by
      rw [symbols_append, symbols_text]
      cases connective with
      | and => exact hf.append hg ("AND ".toList.map .char) rfl
      | or => exact hf.append hg ("OR ".toList.map .char) rfl
    have hrest := ih hjoined fun l hl => hlinks l (List.mem_cons_of_mem _ hl)
    rw [List.append_assoc] at hrest
    exact hrest

end Fragment

/-! ## Queries -/

/-- Trusted SQL that is balanced, or a condition whose text is a conjunction by itself. Trusted SQL
as an expression is written without parentheses, so that it counts as what it reads. -/
def Condition.IsGrouped (d : Dialect) : Condition → Prop
  | .marked sql _ => isBalanced sql = true
  | c => ∀ f, c.compile d = .ok (some f) → ∃ operands, f.Conjoins operands

theorem Condition.IsGrouped.conjoins {d : Dialect} {c : Condition} (h : c.IsGrouped d)
    {f : Fragment} (hf : c.compile d = .ok (some f)) : ∃ operands, f.Conjoins operands := by
  cases c with
  | marked sql values =>
    obtain ⟨g, hg, hf⟩ := ok_of_bind hf
    cases hf
    exact ⟨_, Fragment.conjoins_parens (balanced_marked h hg)⟩
  | _ => exact h f hf

/-! ### Conditions on columns -/

/-- Whether a part joins no conditions and is not BETWEEN. -/
def Part.isOrdinary (p : Part) : Bool := !(p.is "AND" || p.is "OR" || p.is "BETWEEN")

/-- A text of ordinary words is a single operand. -/
theorem conjoins_ordinary {f : Fragment} {parts : List Part} (hwritten : f.isBlank = false)
    (houtline : outline f.symbols = some parts) (h : parts.all Part.isOrdinary = true) :
    f.Conjoins [trimmed parts.reverse] := by
  have hoperands : ∀ operand : List Part,
      parts.foldl Part.awaits false = false ∧
      operandsFrom .and false operand parts = [(.and, trimmed (parts.reverse ++ operand))] := by
    clear houtline
    induction parts with
    | nil => exact fun operand => ⟨rfl, rfl⟩
    | cons p rest ih =>
      intro operand
      rw [List.all_cons, Bool.and_eq_true] at h
      obtain ⟨hp, hmore⟩ := h
      obtain ⟨hfold, hrest⟩ := ih hmore (p :: operand)
      simp only [Part.isOrdinary, Bool.not_eq_true', Bool.or_eq_false_iff] at hp
      have hawaits : p.awaits false = false := by
        unfold Part.awaits
        rw [hp.2, Bool.or_false, Bool.and_false]
      rw [List.foldl_cons, operandsFrom, hp.1.2, hp.1.1, hawaits]
      refine ⟨hfold, ?_⟩
      rw [List.reverse_cons, List.append_assoc]
      exact hrest
  obtain ⟨hfold, hcut⟩ := hoperands []
  rw [List.append_nil] at hcut
  exact ⟨hwritten, parts, houtline, hfold, hcut⟩

/-- A column in front of a text of ordinary words. -/
theorem conjoins_column (path : String) {f : Fragment} (parts : List Part)
    (hwritten : f.isBlank = false) (houtline : outline f.symbols = some parts)
    (h : parts.all Part.isOrdinary = true) :
    ∃ operands, Fragment.Conjoins operands (Fragment.path path ++ f) := by
  have hparts : outline (Fragment.path path ++ f).symbols =
      some ((Fragment.path path).symbols.map .symbol ++ parts) := by
    rw [Fragment.symbols_append, outline_apart (isApart_path path), houtline]
    rfl
  refine ⟨_, conjoins_ordinary ?_ hparts ?_⟩
  · rw [Fragment.isBlank_append, hwritten, Bool.and_false]
  · rw [List.all_append, h, Bool.and_true, List.all_map]
    exact List.all_eq_true.mpr fun _ _ => rfl

theorem isGrouped_isNull (d : Dialect) (path : String) (negated : Bool) :
    (Condition.isNull (.column path) negated).IsGrouped d := by
  intro f hf
  cases hf
  cases negated with
  | true =>
    exact conjoins_column path [.blank, .word "IS", .blank, .word "NOT", .blank, .word "NULL"]
      rfl rfl (by decide +kernel)
  | false =>
    exact conjoins_column path [.blank, .word "IS", .blank, .word "NULL"] rfl rfl
      (by decide +kernel)

theorem isGrouped_eq (d : Dialect) (path : String) (v : Value) :
    (Condition.compare (.column path) .eq v).IsGrouped d := by
  intro f hf
  cases v with
  | null =>
    cases hf
    exact conjoins_column path [.blank, .word "IS", .blank, .word "NULL"] rfl rfl
      (by decide +kernel)
  | default =>
    cases hf
    exact conjoins_column path [.blank, .symbol (.char '='), .blank, .word "DEFAULT"] rfl rfl
      (by decide +kernel)
  | _ =>
    cases hf
    exact conjoins_column path [.blank, .symbol (.char '='), .blank, .symbol (.hole _)] rfl rfl
      rfl

/-! ### The whole condition -/

theorem exists_writtenLinks (d : Dialect) {links : List Link} {chain chain' : Chain}
    (h : compileLinks d chain links = .ok chain') :
    ∃ written, writtenLinks d links = .ok written := by
  induction links generalizing chain with
  | nil => exact ⟨[], rfl⟩
  | cons l rest ih =>
    obtain ⟨connective, condition⟩ := l
    rw [compileLinks] at h
    obtain ⟨next, hnext, h⟩ := ok_of_bind h
    obtain ⟨f, hf, -⟩ := ok_of_bind hnext
    obtain ⟨others, hothers⟩ := ih h
    refine ⟨f.toList.map (fun f => (connective, f)) ++ others, ?_⟩
    rw [writtenLinks, hf, hothers]
    rfl

theorem exists_of_mem_writtenLinks (d : Dialect) {links : List Link}
    {written : List (Connective × Fragment)} (h : writtenLinks d links = .ok written)
    {w : Connective × Fragment} (hw : w ∈ written) :
    ∃ l ∈ links, l.condition.compile d = .ok (some w.2) := by
  induction links generalizing written with
  | nil =>
    cases h
    cases hw
  | cons l rest ih =>
    obtain ⟨f, hf, h⟩ := ok_of_bind h
    obtain ⟨others, hothers, h⟩ := ok_of_bind h
    cases h
    rcases List.mem_append.mp hw with hw | hw
    · obtain ⟨g, hg, rfl⟩ := List.mem_map.mp hw
      rw [Option.mem_toList] at hg
      rw [hg] at hf
      exact ⟨l, List.mem_cons_self .., hf⟩
    · obtain ⟨l', hl', hcompile⟩ := ih hothers hw
      exact ⟨l', List.mem_cons_of_mem l hl', hcompile⟩

theorem exists_of_mem_compileScopes (d : Dialect) {scopes : List Condition}
    {blocks : List Fragment} (h : compileScopes d scopes = .ok blocks) {f : Fragment}
    (hf : f ∈ blocks) : ∃ c ∈ scopes, c.compile d = .ok (some f) := by
  induction scopes generalizing blocks with
  | nil =>
    cases h
    cases hf
  | cons c rest ih =>
    obtain ⟨g, hg, h⟩ := ok_of_bind h
    obtain ⟨others, hothers, h⟩ := ok_of_bind h
    cases h
    rcases List.mem_append.mp hf with hf | hf
    · rw [Option.mem_toList] at hf
      rw [hf] at hg
      exact ⟨c, List.mem_cons_self .., hg⟩
    · obtain ⟨c', hc', hcompile⟩ := ih hothers hf
      exact ⟨c', List.mem_cons_of_mem c hc', hcompile⟩

namespace Query

theorem conjoins_continuation {f : Fragment} {fs : List Fragment} {as : List (List Part)}
    (hf : f.Conjoins as) (hfs : ∀ g ∈ fs, ∃ operands, g.Conjoins operands) :
    ∃ operands, Fragment.Conjoins operands (f ++ Word.spell (continuation (conjoined fs))) ∧
      ∀ g ∈ fs, ∃ os, g.Conjoins os ∧ os ⊆ operands := by
  obtain ⟨operands, hall, heach⟩ := Fragment.conjoins_joined hf hfs
  rw [joined_and] at hall
  exact ⟨operands, hall, fun g hg => heach g (List.mem_cons_of_mem f hg)⟩

/-- The words of a condition with scopes are a conjunction: of the scopes, and of the filters or of
all of them in parentheses. -/
theorem conjoins_words {clauses : List (Connective × Fragment)} {blocks : List Fragment}
    (hclauses : ∀ l ∈ clauses, ∃ operands, l.2.Conjoins operands)
    (hblocks : ∀ g ∈ blocks, ∃ operands, g.Conjoins operands)
    {words : List (Word Fragment)} (h : conditionWords clauses true blocks = some words) :
    ∃ operands, (Word.spell words).Conjoins operands ∧
      ∀ g ∈ blocks, ∃ os, g.Conjoins os ∧ os ⊆ operands := by
  cases clauses with
  | nil =>
    cases blocks with
    | nil => cases h
    | cons f rest =>
      cases h
      obtain ⟨as, hf⟩ := hblocks f (List.mem_cons_self ..)
      obtain ⟨operands, hall, heach⟩ := Fragment.conjoins_joined hf
        fun g hg => hblocks g (List.mem_cons_of_mem f hg)
      rw [joined_and] at hall
      exact ⟨operands, hall, heach⟩
  | cons first rest =>
    cases h
    obtain ⟨connective, f⟩ := first
    obtain ⟨as, hf⟩ := hclauses _ (List.mem_cons_self ..)
    have hrest := fun l hl => hclauses l (List.mem_cons_of_mem _ hl)
    rw [Bool.and_true, spell_append]
    cases hor : hasOr ((connective, f) :: rest) with
    | true =>
      -- The filters are one operand in parentheses.
      have hbalanced : Balanced (Word.spell (chainWords ((connective, f) :: rest))).symbols :=
        Fragment.balanced_continuation hf.balanced fun l hl =>
          (hrest l hl).elim fun _ h => h.balanced
      have hspell : Word.spell (.opening :: chainWords ((connective, f) :: rest) ++ [.closing]) =
          Fragment.parens (Word.spell (chainWords ((connective, f) :: rest))) := by
        rw [spell_append]
        rfl
      rw [if_pos rfl, hspell]
      exact conjoins_continuation (Fragment.conjoins_parens hbalanced) hblocks
    | false =>
      have hands : rest = conjoined (rest.map Prod.snd) := eq_conjoined hor
      have hspell : Word.spell (chainWords ((connective, f) :: rest)) ++
          Word.spell (continuation (conjoined blocks)) =
          f ++ Word.spell (continuation (conjoined (rest.map Prod.snd ++ blocks))) := by
        have happend : continuation (conjoined (rest.map Prod.snd ++ blocks)) =
            continuation rest ++ continuation (conjoined blocks) := by
          rw [hands, conjoined_atoms]
          unfold conjoined continuation
          rw [List.map_append, List.flatMap_append]
        rw [happend, spell_append, ← List.append_assoc]
        rfl
      rw [if_neg Bool.false_ne_true, hspell]
      have hboth : ∀ g ∈ rest.map Prod.snd ++ blocks, ∃ operands, g.Conjoins operands := by
        intro g hg
        rcases List.mem_append.mp hg with hg | hg
        · obtain ⟨l, hl, rfl⟩ := List.mem_map.mp hg
          exact hrest l hl
        · exact hblocks g hg
      obtain ⟨operands, hall, heach⟩ := conjoins_continuation hf hboth
      exact ⟨operands, hall, fun g hg => heach g (List.mem_append_right _ hg)⟩

/-- The condition of a query with scopes is a conjunction that has the operands of every scope. -/
theorem conjoins_condition (q : Query) (d : Dialect)
    (hfilters : ∀ l ∈ q.filters, l.condition.IsGrouped d)
    (hscopes : ∀ c ∈ q.scopes, c.IsGrouped d) (hne : q.scopes ≠ []) {f : Fragment}
    (h : q.condition d = .ok (some f)) :
    ∃ operands, f.Conjoins operands ∧
      ∀ c ∈ q.scopes, ∀ g, c.compile d = .ok (some g) → ∃ os, g.Conjoins os ∧ os ⊆ operands := by
  obtain ⟨chain, hchain, hrest⟩ := ok_of_bind h
  obtain ⟨blocks, hblocks, -⟩ := ok_of_bind hrest
  obtain ⟨clauses, hclauses⟩ := exists_writtenLinks d hchain
  have hclause : ∀ l ∈ clauses, ∃ operands, l.2.Conjoins operands := by
    intro l hl
    obtain ⟨link, hlink, hcompile⟩ := exists_of_mem_writtenLinks d hclauses hl
    exact (hfilters link hlink).conjoins hcompile
  have hblock : ∀ g ∈ blocks, ∃ operands, g.Conjoins operands := by
    intro g hg
    obtain ⟨c, hc, hcompile⟩ := exists_of_mem_compileScopes d hblocks hg
    exact (hscopes c hc).conjoins hcompile
  have hgrouped : (!q.scopes.isEmpty) = true := by simpa using hne
  have hwords := q.condition_words d hclauses hblocks fun l hl =>
    (hclause l hl).elim fun _ h => h.written
  rw [hgrouped, h, Except.ok.injEq] at hwords
  obtain ⟨words, hcondition, rfl⟩ := Option.map_eq_some_iff.mp hwords.symm
  obtain ⟨operands, hall, heach⟩ := conjoins_words hclause hblock hcondition
  exact ⟨operands, hall, fun c hc g hg => heach g (mem_compileScopes d hblocks hc hg)⟩

/-- Where the condition of a query holds, every scope does, if the trusted SQL in it is balanced and
no other condition in it has an OR outside of parentheses and quotes. -/
theorem scopes_hold (q : Query) (d : Dialect) (hfilters : ∀ l ∈ q.filters, l.condition.IsGrouped d)
    (hscopes : ∀ c ∈ q.scopes, c.IsGrouped d) {text : Fragment} (h : q.compile d = .ok text) :
    ∃ condition front back, q.condition d = .ok condition ∧
      text = front ++ clause " WHERE " condition ++ back ∧
      ∀ f, condition = some f → ∀ truth : List Part → Truth,
        (q.scopes ≠ [] → (f.truth? truth).isSome = true) ∧
        (f.truth? truth = some .yes → ∀ c ∈ q.scopes, ∀ g, c.compile d = .ok (some g) →
          g.truth? truth = some .yes) := by
  obtain ⟨condition, front, back, hcondition, htext⟩ := q.condition_of_compile d h
  refine ⟨condition, front, back, hcondition, htext, fun f hf truth => ?_⟩
  subst hf
  by_cases hne : q.scopes = []
  · rw [hne]
    exact ⟨fun h => absurd rfl h, fun _ c hc => absurd hc List.not_mem_nil⟩
  obtain ⟨operands, hall, heach⟩ := conjoins_condition q d hfilters hscopes hne hcondition
  refine ⟨fun _ => ?_, fun hyes c hc g hg => ?_⟩
  · rw [hall.truth_eq]
    rfl
  · obtain ⟨os, hscope, hsubset⟩ := heach c hc g hg
    exact hall.holds_of_subset hscope hsubset hyes

/-- Posts that were not deleted. -/
def keptPosts : Query := (on "posts" .sqlite).scope (.isNull (.column "deleted_at") false)

def ownedBy : String := "author = ? OR editor = 1"

/-- Trusted SQL with an OR among the filters and among the scopes. -/
def ownedPosts : Query :=
  ((keptPosts.filter (.marked ownedBy [.int64 1])).orFilter (.marked ownedBy [.default])).scope
    (.marked "public = 1 OR author IN (SELECT id FROM friends)" [])

theorem scopes_hold_ownedPosts :
    (∀ l ∈ ownedPosts.filters, l.condition.IsGrouped .sqlite) ∧
    (∀ c ∈ ownedPosts.scopes, c.IsGrouped .sqlite) ∧
    ∃ text, ownedPosts.compile .sqlite = .ok text ∧
      ∃ condition front back, ownedPosts.condition .sqlite = .ok condition ∧
        text = front ++ clause " WHERE " condition ++ back ∧
        ∀ f, condition = some f → ∀ truth : List Part → Truth,
          (ownedPosts.scopes ≠ [] → (f.truth? truth).isSome = true) ∧
          (f.truth? truth = some .yes → ∀ c ∈ ownedPosts.scopes, ∀ g,
            c.compile .sqlite = .ok (some g) → g.truth? truth = some .yes) := by
  have hfilters : ∀ l ∈ ownedPosts.filters, l.condition.IsGrouped .sqlite := by
    have howned : isBalanced ownedBy = true := by decide +kernel
    intro l hl
    rcases List.mem_cons.mp hl with rfl | hl
    · exact howned
    · obtain rfl := List.mem_singleton.mp hl
      exact howned
  have hscopes : ∀ c ∈ ownedPosts.scopes, c.IsGrouped .sqlite := by
    intro c hc
    rcases List.mem_cons.mp hc with rfl | hc
    · exact isGrouped_isNull .sqlite "deleted_at" false
    · obtain rfl := List.mem_singleton.mp hc
      show isBalanced _ = true
      decide +kernel
  have hcompiles : (ownedPosts.compile .sqlite).toBool = true := by decide +kernel
  cases htext : ownedPosts.compile .sqlite with
  | error fault =>
    rw [htext] at hcompiles
    cases hcompiles
  | ok text =>
    exact ⟨hfilters, hscopes, text, rfl, scopes_hold ownedPosts .sqlite hfilters hscopes htext⟩

/-- The same SQL as an expression. -/
def bareOwnedPosts : Query := keptPosts.filter (.holds (.marked "author = 1 OR editor = 1" []))

def keptText : Fragment := [.name "deleted_at", .text " IS NULL"]

def bareText : Fragment :=
  ("author = 1 OR editor = 1".toList.map fun c => .text c.toString) ++ .text " AND " :: keptText

/-- What holds of a deleted post for its author, who did not edit it. -/
def authored (operand : List Part) : Truth :=
  if operand.any (Part.is "AUTHOR") then .yes else .no

/-- Without parentheses an OR escapes the scopes: a post of its author is taken though it was
deleted. -/
theorem bare_or_escapes :
    isBalanced "author = 1 OR editor = 1" = true ∧
    bareOwnedPosts.condition .sqlite = .ok (some bareText) ∧
    bareText.write .sqlite 0 = "author = 1 OR editor = 1 AND \"deleted_at\" IS NULL" ∧
    (∀ c ∈ bareOwnedPosts.scopes, c.compile .sqlite = .ok (some keptText)) ∧
    bareText.truth? authored = some .yes ∧ keptText.truth? authored = some .no := by
  refine ⟨by decide +kernel, rfl, by decide +kernel, ?_, by decide +kernel, by decide +kernel⟩
  intro c hc
  obtain rfl := List.mem_singleton.mp hc
  rfl

end Query

end RecordMapper
