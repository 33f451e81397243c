import RecordMapper.Proofs.Outcome
import RecordMapper.Proofs.Query.Truth
import RecordMapper.Proofs.Statement.Supplied
import RecordMapper.Query.Build
import RecordMapper.Query.Select

/-!
The scopes of a query govern its whole condition.

* `Query.Call` is any function that adds a part to a query; none of them takes a scope away.
* `writtenLinks` are the filters that have a text, in order, each with its own connective.
* `conditionWords` are the words of the condition of a query: the filters as a flat chain, in
  parentheses if need be, and every scope behind an AND.
-/
namespace RecordMapper

set_option autoImplicit false

/-! ## Calls -/

/-- A call of a function that builds a query. -/
inductive Query.Call where
  | fromTable (table : String)
  | keyedBy (column : String)
  | link (connective : Connective) (c : Condition)
  | scope (c : Condition)
  | existsIn (negated : Bool) (build : Query → Query)
  | select (columns : List String)
  | addColumns (columns : List String)
  | addExpr (e : Expr)
  | withColumns (columns : List Expr)
  | unique
  | join (j : Join)
  | groupBy (columns : List String)
  | having (c : Condition)
  | orderBy (e : Expr) (direction : Option Direction)
  | unordered
  | take (n : Nat)
  | skip (n : Nat)
  | page (number perPage : Nat)
  | unwindowed
  | bare

namespace Query

def call (q : Query) : Call → Query
  | .fromTable table => q.fromTable table
  | .keyedBy column => q.keyedBy column
  | .link connective c => q.link connective c
  | .scope c => q.scope c
  | .existsIn negated build => q.existsIn negated build
  | .select columns => q.select columns
  | .addColumns columns => q.addColumns columns
  | .addExpr e => q.addExpr e
  | .withColumns columns => q.withColumns columns
  | .unique => q.unique
  | .join j => q.join j
  | .groupBy columns => q.groupBy columns
  | .having c => q.having c
  | .orderBy e direction => q.orderBy e direction
  | .unordered => q.unordered
  | .take n => q.take n
  | .skip n => q.skip n
  | .page number perPage => q.page number perPage
  | .unwindowed => q.unwindowed
  | .bare => q.bare

def calls (q : Query) (cs : List Call) : Query := cs.foldl call q

theorem scopes_prefix_call (q : Query) (c : Call) : q.scopes <+: (q.call c).scopes := by
  cases c with
  | scope c => exact List.prefix_append q.scopes [c]
  | existsIn negated build => exact List.prefix_append q.scopes _
  | _ => exact List.prefix_refl q.scopes

theorem scopes_prefix_calls (q : Query) (cs : List Call) : q.scopes <+: (q.calls cs).scopes := by
  induction cs generalizing q with
  | nil => exact List.prefix_refl q.scopes
  | cons c rest ih => exact (scopes_prefix_call q c).trans (ih (q.call c))

end Query

/-! ## Words of a condition -/

section Words

variable {α β : Type}

/-- What stands behind the first operand of a chain. -/
def continuation (links : List (Connective × α)) : List (Word α) :=
  links.flatMap fun l => [.connective l.1, .atom l.2]

/-- A flat chain. The connective of the first operand is left out. -/
def chainWords : List (Connective × α) → List (Word α)
  | [] => []
  | l :: rest => .atom l.2 :: continuation rest

/-- Whether an OR joins two operands. -/
def hasOr (links : List (Connective × α)) : Bool := links.tail.any fun l => l.1 == .or

/-- The scopes, each behind an AND. -/
def conjoined (scopes : List α) : List (Connective × α) := scopes.map fun a => (.and, a)

/-- The words of filters and scopes; `grouped` asks for parentheses around filters with an OR. -/
def conditionWords (links : List (Connective × α)) (grouped : Bool) (scopes : List α) :
    Option (List (Word α)) :=
  match links with
  | [] =>
    match scopes with
    | [] => none
    | a :: rest => some (chainWords (conjoined (a :: rest)))
  | l :: rest =>
    let chain := chainWords (l :: rest)
    some ((if hasOr (l :: rest) && grouped then .opening :: chain ++ [.closing] else chain) ++
      continuation (conjoined scopes))

/-! ### Atoms -/

theorem continuation_map (f : α → β) (links : List (Connective × α)) :
    (continuation links).map (Word.map f) = continuation (links.map fun l => (l.1, f l.2)) := by
  induction links with
  | nil => rfl
  | cons l rest ih =>
    show Word.connective l.1 :: .atom (f l.2) :: (continuation rest).map (Word.map f) = _
    rw [ih]
    rfl

theorem chainWords_map (f : α → β) (links : List (Connective × α)) :
    (chainWords links).map (Word.map f) = chainWords (links.map fun l => (l.1, f l.2)) := by
  cases links with
  | nil => rfl
  | cons l rest =>
    show Word.atom (f l.2) :: (continuation rest).map (Word.map f) = _
    rw [continuation_map]
    rfl

theorem hasOr_map (f : α → β) (links : List (Connective × α)) :
    hasOr (links.map fun l => (l.1, f l.2)) = hasOr links := by
  unfold hasOr
  rw [← List.map_tail, List.any_map]
  rfl

theorem conjoined_map (f : α → β) (scopes : List α) :
    (conjoined scopes).map (fun l => (l.1, f l.2)) = conjoined (scopes.map f) := by
  simp [conjoined]

theorem conditionWords_map (f : α → β) (links : List (Connective × α)) (grouped : Bool)
    (scopes : List α) :
    (conditionWords links grouped scopes).map (List.map (Word.map f)) =
      conditionWords (links.map fun l => (l.1, f l.2)) grouped (scopes.map f) := by
  cases links with
  | nil =>
    cases scopes with
    | nil => rfl
    | cons a rest =>
      show some ((chainWords (conjoined (a :: rest))).map (Word.map f)) = _
      rw [chainWords_map, conjoined_map]
      rfl
  | cons l rest =>
    have hor := hasOr_map f (l :: rest)
    have hchain := chainWords_map f (l :: rest)
    simp only [List.map_cons] at hor hchain
    simp only [conditionWords, Option.map_some, List.map_append, List.map_cons, continuation_map,
      conjoined_map, hor]
    split
    · simp [hchain, Word.map]
    · rw [hchain]

theorem continuation_atoms (links : List (Connective × α)) :
    (continuation links).filterMap Word.atom? = links.map Prod.snd := by
  induction links with
  | nil => rfl
  | cons l rest ih =>
    show l.2 :: (continuation rest).filterMap Word.atom? = _
    rw [ih]
    rfl

theorem chainWords_atoms (links : List (Connective × α)) :
    (chainWords links).filterMap Word.atom? = links.map Prod.snd := by
  cases links with
  | nil => rfl
  | cons l rest =>
    show l.2 :: (continuation rest).filterMap Word.atom? = _
    rw [continuation_atoms]
    rfl

theorem conjoined_atoms (scopes : List α) : (conjoined scopes).map Prod.snd = scopes := by
  simp [conjoined, Function.comp_def]

/-- Every operand stands in the condition once, and in order. -/
theorem conditionWords_atoms (links : List (Connective × α)) (grouped : Bool) (scopes : List α) :
    ((conditionWords links grouped scopes).getD []).filterMap Word.atom? =
      links.map Prod.snd ++ scopes := by
  cases links with
  | nil =>
    cases scopes with
    | nil => rfl
    | cons a rest =>
      show (chainWords (conjoined (a :: rest))).filterMap Word.atom? = _
      rw [chainWords_atoms, conjoined_atoms]
      rfl
  | cons l rest =>
    have hchain := chainWords_atoms (l :: rest)
    simp only [conditionWords, Option.getD_some, List.filterMap_append, continuation_atoms,
      conjoined_atoms]
    split
    · show (chainWords (l :: rest) ++ [Word.closing]).filterMap Word.atom? ++ scopes = _
      rw [List.filterMap_append, hchain]
      exact congrArg (· ++ scopes) (List.append_nil _)
    · rw [hchain]

end Words

/-! ### Value -/

/-- One more operand, behind its connective. -/
def Level.take (l : Level) (link : Connective × Truth) : Level := (l.join link.1).meet link.2

theorem read_continuation (l : Level) (outer : List Level) (links : List (Connective × Truth)) :
    Word.read ⟨l, outer, false⟩ (continuation links) =
      some ⟨links.foldl Level.take l, outer, false⟩ := by
  induction links generalizing l with
  | nil => rfl
  | cons link rest ih => exact ih (l.take link)

theorem read_chainWords (l : Level) (outer : List Level) (first : Connective × Truth)
    (rest : List (Connective × Truth)) :
    Word.read ⟨l, outer, true⟩ (chainWords (first :: rest)) =
      some ⟨rest.foldl Level.take (l.meet first.2), outer, false⟩ :=
  read_continuation (l.meet first.2) outer rest

theorem read_parentheses (l inner : Level) (outer : List Level) (words : List (Word Truth))
    (h : Word.read ⟨.empty, l :: outer, true⟩ words = some ⟨inner, l :: outer, false⟩) :
    Word.read ⟨l, outer, true⟩ (.opening :: words ++ [.closing]) =
      some ⟨l.meet inner.value, outer, false⟩ := by
  show Word.read ⟨.empty, l :: outer, true⟩ (words ++ [.closing]) = _
  rw [Word.read_append, h]
  rfl

theorem conjunctions_and (c : Connective) (t u : Truth) (rest : List (Connective × Truth))
    {run : List Truth} {runs : List (List Truth)}
    (h : conjunctions ((.and, u) :: rest) = run :: runs) :
    conjunctions ((c, t) :: (.and, u) :: rest) = (t :: run) :: runs := by
  conv => lhs; unfold conjunctions
  rw [h]

theorem conjunctions_or (c : Connective) (t u : Truth) (rest : List (Connective × Truth)) :
    conjunctions ((c, t) :: (.or, u) :: rest) = [t] :: conjunctions ((.or, u) :: rest) := rfl

/-- The first run of a chain begins with its first operand. -/
theorem exists_conjunctions (rest : List (Connective × Truth)) :
    ∃ run runs, ∀ c t, conjunctions ((c, t) :: rest) = (t :: run) :: runs := by
  induction rest with
  | nil => exact ⟨[], [], fun _ _ => rfl⟩
  | cons link rest ih =>
    obtain ⟨run, runs, h⟩ := ih
    obtain ⟨connective, u⟩ := link
    cases connective with
    | and => exact ⟨u :: run, runs, fun c t => conjunctions_and c t u rest (h _ u)⟩
    | or =>
      refine ⟨[], (u :: run) :: runs, fun c t => ?_⟩
      rw [conjunctions_or, h]

/-- The value of a chain that was read from left to right. -/
theorem value_take (l : Level) (c : Connective) (rest : List (Connective × Truth)) :
    (rest.foldl Level.take l).value =
      l.before.or (.any ((conjunctions ((c, l.current) :: rest)).map .all)) := by
  -- What was read of the open conjunction is the first operand of the chain that is left.
  induction rest generalizing l c with
  | nil => simp [Level.value, conjunctions, Truth.any, Truth.all]
  | cons link rest ih =>
    obtain ⟨run, runs, h⟩ := exists_conjunctions rest
    obtain ⟨connective, u⟩ := link
    rw [List.foldl_cons, ih _ connective]
    cases connective with
    | and =>
      rw [conjunctions_and c l.current u rest (h _ u), h]
      show l.before.or (((l.current.and u).and (.all run)).or _) = _
      rw [Truth.and_assoc]
      rfl
    | or =>
      rw [conjunctions_or, h, h]
      show (l.before.or l.current).or _ = l.before.or ((l.current.and .yes).or _)
      rw [Truth.or_assoc, Truth.and_yes]
      rfl

/-- Behind an AND nothing is split. -/
theorem take_conjoined (l : Level) (truths : List Truth) :
    (conjoined truths).foldl Level.take l = ⟨l.before, l.current.and (.all truths)⟩ := by
  induction truths generalizing l with
  | nil => simp [conjoined, Truth.all]
  | cons t rest ih =>
    show (conjoined rest).foldl Level.take (l.meet t) = _
    rw [ih, Truth.all_cons, ← Truth.and_assoc]
    rfl

theorem eq_conjoined {α : Type} {rest : List (Connective × α)}
    (h : rest.any (fun l => l.1 == .or) = false) : rest = conjoined (rest.map Prod.snd) := by
  induction rest with
  | nil => rfl
  | cons link rest ih =>
    obtain ⟨c, t⟩ := link
    rw [List.any_cons, Bool.or_eq_false_iff] at h
    cases c with
    | and => exact congrArg _ (ih h.2)
    | or => cases h.1

theorem disjunction_cons (first : Connective × Truth) (rest : List (Connective × Truth)) :
    disjunction (first :: rest) = (rest.foldl Level.take (Level.empty.meet first.2)).value := by
  rw [value_take _ first.1]
  rfl

/-- Where no OR joins them, all operands have to hold. -/
theorem disjunction_conjoined (truths : List Truth) :
    disjunction (conjoined truths) = .all truths := by
  cases truths with
  | nil => rfl
  | cons t rest =>
    show disjunction ((.and, t) :: conjoined rest) = _
    rw [disjunction_cons, take_conjoined]
    rfl

/-- The value of a condition that may be left out. -/
def Word.valueOf? : Option (List (Word Truth)) → Option Truth
  | none => some .yes
  | some words => Word.value? words

/-- Scopes behind words are met with all of them if no OR stands outside of parentheses. -/
theorem value?_conjoined (words : List (Word Truth)) (l : Level) (scopes : List Truth)
    (hread : Word.read ⟨.empty, [], true⟩ words = some ⟨l, [], false⟩)
    (h : l.before = .no ∨ scopes = []) :
    Word.value? (words ++ continuation (conjoined scopes)) =
      some (l.value.and (.all scopes)) := by
  unfold Word.value?
  rw [Word.read_append, hread, Option.bind_some, read_continuation, take_conjoined]
  show some (l.before.or (l.current.and (.all scopes))) =
    some ((l.before.or l.current).and (.all scopes))
  rcases h with h | h
  · rw [h, Truth.no_or, Truth.no_or]
  · have hall : Truth.all scopes = .yes := by rw [h]; rfl
    rw [hall, Truth.and_yes, Truth.and_yes]

/-- The scopes hold besides the chain of filters. Without parentheses there must not be both an OR
and a scope. -/
theorem valueOf?_conditionWords (links : List (Connective × Truth)) (grouped : Bool)
    (scopes : List Truth) (h : grouped = false → scopes = []) :
    Word.valueOf? (conditionWords links grouped scopes) =
      some ((disjunction links).and (.all scopes)) := by
  cases links with
  | nil =>
    cases scopes with
    | nil => rfl
    | cons t rest =>
      show Word.value? (chainWords ((Connective.and, t) :: conjoined rest)) = _
      unfold Word.value?
      rw [read_chainWords, take_conjoined]
      rfl
  | cons first rest =>
    have hvalue := disjunction_cons first rest
    show Word.value? (_ ++ continuation (conjoined scopes)) = _
    by_cases hparens : (hasOr (first :: rest) && grouped) = true
    · have hread := read_parentheses _ _ _ _ (read_chainWords Level.empty [Level.empty] first rest)
      rw [if_pos hparens, value?_conjoined _ _ _ hread (.inl rfl), hvalue]
      rfl
    · have hread := read_chainWords Level.empty [] first rest
      rw [if_neg hparens, value?_conjoined _ _ _ hread, hvalue]
      -- An OR without parentheses is left only where no scope follows.
      cases hor : rest.any fun l => l.1 == .or with
      | false =>
        left
        rw [eq_conjoined hor, take_conjoined]
        rfl
      | true =>
        right
        refine h ?_
        have : hasOr (first :: rest) = true := hor
        simpa [this] using hparens

/-! ## Text -/

/-- The filters that have a text, each with its own connective. -/
def writtenLinks (d : Dialect) : List Link → Result (List (Connective × Fragment))
  | [] => .ok []
  | l :: rest => do
    let f ← l.condition.compile d
    let written ← writtenLinks d rest
    return f.toList.map (fun f => (l.connective, f)) ++ written

def Chain.appendAll (chain : Chain) (written : List (Connective × Fragment)) : Chain :=
  written.foldl (fun chain l => chain.append l.1 l.2) chain

theorem compileLinks_written (d : Dialect) (links : List Link) (chain : Chain)
    {written : List (Connective × Fragment)} (h : writtenLinks d links = .ok written) :
    compileLinks d chain links = .ok (chain.appendAll written) := by
  induction links generalizing chain written with
  | nil =>
    cases h
    rfl
  | cons l rest ih =>
    obtain ⟨f, hf, h⟩ := ok_of_bind h
    obtain ⟨restWritten, hrest, h⟩ := ok_of_bind h
    cases h
    obtain ⟨connective, condition⟩ := l
    rw [compileLinks, Link.compile, hf]
    cases f with
    | none => exact ih chain hrest
    | some f => exact ih (chain.append connective f) hrest

theorem spell_append (a b : List (Word Fragment)) :
    Word.spell (a ++ b) = Word.spell a ++ Word.spell b :=
  List.flatMap_append

theorem appendAll_of_written (chain : Chain) (written : List (Connective × Fragment))
    (h : chain.fragment.isBlank = false) :
    chain.appendAll written =
      ⟨chain.fragment ++ Word.spell (continuation written),
        chain.hasOr || written.any fun l => l.1 == .or⟩ := by
  induction written generalizing chain with
  | nil => simp [Chain.appendAll, continuation, Word.spell]
  | cons l rest ih =>
    have hnext : chain.append l.1 l.2 =
        ⟨chain.fragment ++ .text (" " ++ l.1.sql ++ " ") :: l.2,
          chain.hasOr || l.1 == .or⟩ := by
      unfold Chain.append
      rw [h]
      rfl
    show (chain.append l.1 l.2).appendAll rest = _
    rw [ih _ (by rw [hnext, Fragment.isBlank_append, h]; rfl), hnext]
    simp [continuation, Word.spell, Word.fragment, Bool.or_assoc]

theorem appendAll_empty (first : Connective × Fragment) (rest : List (Connective × Fragment))
    (h : first.2.isBlank = false) :
    Chain.empty.appendAll (first :: rest) =
      ⟨Word.spell (chainWords (first :: rest)), hasOr (first :: rest)⟩ :=
  appendAll_of_written ⟨first.2, false⟩ rest h

theorem joined_and (f : Fragment) (scopes : List Fragment) :
    Fragment.joined " AND " (f :: scopes) = f ++ Word.spell (continuation (conjoined scopes)) := by
  induction scopes generalizing f with
  | nil => exact (List.append_nil f).symm
  | cons g rest ih =>
    show f ++ .text " AND " :: Fragment.joined " AND " (g :: rest) = _
    rw [ih]
    rfl

namespace Query

/-- The text of a condition has the words of its filters and scopes. -/
theorem condition_words (q : Query) (d : Dialect) {clauses : List (Connective × Fragment)}
    {blocks : List Fragment} (hclauses : writtenLinks d q.filters = .ok clauses)
    (hblocks : compileScopes d q.scopes = .ok blocks)
    (htext : ∀ l ∈ clauses, l.2.isBlank = false) :
    q.condition d = .ok ((conditionWords clauses (!q.scopes.isEmpty) blocks).map Word.spell) := by
  unfold condition
  rw [compileLinks_written d q.filters .empty hclauses, hblocks]
  show Except.ok (conjunction _ _ _) = _
  cases clauses with
  | nil =>
    cases blocks with
    | nil => rfl
    | cons f rest =>
      show Except.ok (some (Fragment.joined " AND " (f :: rest))) = _
      rw [joined_and]
      rfl
  | cons first rest =>
    have hfirst : first.2.isBlank = false := htext first (List.mem_cons_self ..)
    have hblank : (Word.spell (chainWords (first :: rest))).isBlank = false := by
      show (first.2 ++ Word.spell (continuation rest)).isBlank = false
      rw [Fragment.isBlank_append, hfirst]
      rfl
    rw [appendAll_empty first rest hfirst]
    unfold conjunction
    rw [hblank]
    simp only [conditionWords, Option.map_some, spell_append]
    by_cases hparens : (hasOr (first :: rest) && !q.scopes.isEmpty) = true
    · rw [if_pos hparens, if_pos hparens]
      show Except.ok (some (Fragment.joined " AND " (Fragment.parens _ :: blocks))) = _
      rw [joined_and]
      show _ = Except.ok (some
        (.text "(" :: Word.spell (chainWords (first :: rest) ++ [.closing]) ++ _))
      rw [spell_append]
      rfl
    · rw [if_neg hparens, if_neg hparens]
      show Except.ok (some (Fragment.joined " AND " (_ :: blocks))) = _
      rw [joined_and]

/-- A query that reads rows has its condition behind WHERE. -/
theorem condition_of_compile (q : Query) (d : Dialect) {f : Fragment}
    (h : q.compile d = .ok f) :
    ∃ condition front back, q.condition d = .ok condition ∧
      f = front ++ clause " WHERE " condition ++ back := by
  obtain ⟨table, _, key, columns, distinct, joins, filters, scopes, groups, havings, orders, limit,
    offset⟩ := q
  rw [Query.compile] at h
  obtain ⟨cs, -, h⟩ := ok_of_bind h
  obtain ⟨t, -, h⟩ := ok_of_bind h
  obtain ⟨chain, hchain, h⟩ := ok_of_bind h
  obtain ⟨ss, hss, h⟩ := ok_of_bind h
  obtain ⟨having, -, h⟩ := ok_of_bind h
  obtain ⟨os, -, h⟩ := ok_of_bind h
  refine ⟨conjunction chain (!scopes.isEmpty) ss, ?_⟩
  have hcondition : condition d ⟨table, ‹_›, key, columns, distinct, joins, filters, scopes, groups,
      havings, orders, limit, offset⟩ = .ok (conjunction chain (!scopes.isEmpty) ss) := by
    unfold condition
    rw [hchain, hss]
    rfl
  have hf := (Except.ok.inj h).symm
  rw [List.append_assoc, List.append_assoc, List.append_assoc] at hf
  exact ⟨_, _, hcondition, hf⟩

theorem mem_compileScopes (d : Dialect) {scopes : List Condition} {blocks : List Fragment}
    (h : compileScopes d scopes = .ok blocks) {c : Condition} (hc : c ∈ scopes) {f : Fragment}
    (hf : c.compile d = .ok (some f)) : f ∈ blocks := by
  induction scopes generalizing blocks with
  | nil => cases hc
  | cons c' rest ih =>
    obtain ⟨f', hf', h⟩ := ok_of_bind h
    obtain ⟨fs, hfs, h⟩ := ok_of_bind h
    cases h
    rcases List.mem_cons.1 hc with rfl | hc
    · rw [hf] at hf'
      cases hf'
      exact List.mem_cons_self ..
    · exact List.mem_append_right _ (ih hfs hc)

/-! ### Numbered operands -/

/-- Filters and scopes under their numbers; the scopes are counted on after the filters. -/
def numberedLinks (clauses : List (Connective × Fragment)) : List (Connective × Nat) :=
  clauses.mapIdx fun i l => (l.1, i)

def numberedScopes (clauses : List (Connective × Fragment)) (blocks : List Fragment) : List Nat :=
  (List.range blocks.length).map fun i => clauses.length + i

theorem numberedLinks_map {α : Type} (f : Nat → α) (clauses : List (Connective × Fragment)) :
    (numberedLinks clauses).map (fun l => (l.1, f l.2)) =
      clauses.mapIdx fun i l => (l.1, f i) := by
  refine List.ext_getElem (by simp [numberedLinks]) fun i h h' => ?_
  simp [numberedLinks]

theorem numberedLinks_operands (clauses : List (Connective × Fragment)) (blocks : List Fragment) :
    (numberedLinks clauses).map
      (fun l => (l.1, (clauses.map Prod.snd ++ blocks).getD l.2 [])) = clauses := by
  rw [numberedLinks_map fun i => (clauses.map Prod.snd ++ blocks).getD i []]
  refine List.ext_getElem (by simp) fun i h h' => ?_
  have hi : i < (clauses.map Prod.snd).length := by simpa using h'
  rw [List.getElem_mapIdx, List.getD_eq_getElem?_getD, List.getElem?_append_left hi]
  simp [h']

theorem numberedScopes_operands (clauses : List (Connective × Fragment))
    (blocks : List Fragment) :
    (numberedScopes clauses blocks).map
      (fun i => (clauses.map Prod.snd ++ blocks).getD i []) = blocks := by
  refine List.ext_getElem (by simp [numberedScopes]) fun i h h' => ?_
  simp [numberedScopes, h']

theorem numbered_eq_range (clauses : List (Connective × Fragment)) (blocks : List Fragment) :
    (numberedLinks clauses).map Prod.snd ++ numberedScopes clauses blocks =
      List.range (clauses.length + blocks.length) := by
  have hlinks : (numberedLinks clauses).map Prod.snd = List.range clauses.length :=
    List.ext_getElem (by simp [numberedLinks]) fun i h h' => by simp [numberedLinks]
  rw [hlinks, List.range_add]
  rfl

theorem scopes_eq_nil_of_compile (d : Dialect) {scopes : List Condition} {blocks : List Fragment}
    (h : compileScopes d scopes = .ok blocks) (hempty : (!scopes.isEmpty) = false) :
    blocks = [] := by
  cases scopes with
  | nil =>
    cases h
    rfl
  | cons c rest => cases hempty

/-- Whatever is called on a query, its scopes stay. Filters and scopes that have a text stand in
the condition once and in order, and whatever holds of each, the condition holds where the flat
chain of the filters and every scope does. -/
theorem scopes_govern_condition (q : Query) (cs : List Call) :
    q.scopes <+: (q.calls cs).scopes ∧
    ∀ (d : Dialect) (clauses : List (Connective × Fragment)) (blocks : List Fragment),
      writtenLinks d (q.calls cs).filters = .ok clauses →
      compileScopes d (q.calls cs).scopes = .ok blocks →
      (∀ l ∈ clauses, l.2.isBlank = false) →
      (∀ c ∈ q.scopes, ∀ f, c.compile d = .ok (some f) → f ∈ blocks) ∧
      ∃ words : Option (List (Word Nat)),
        (q.calls cs).condition d =
          .ok (words.map fun ws => Word.spell
            (ws.map (Word.map fun i => (clauses.map Prod.snd ++ blocks).getD i []))) ∧
        (words.getD []).filterMap Word.atom? = List.range (clauses.length + blocks.length) ∧
        ∀ truth : Nat → Truth,
          Word.valueOf? (words.map (List.map (Word.map truth))) =
            some ((disjunction (clauses.mapIdx fun i l => (l.1, truth i))).and
              (.all ((List.range blocks.length).map fun i => truth (clauses.length + i)))) ∧
          (Word.valueOf? (words.map (List.map (Word.map truth))) = some .yes →
            ∀ i < blocks.length, truth (clauses.length + i) = .yes) := by
  have hkept := scopes_prefix_calls q cs
  refine ⟨hkept, fun d clauses blocks hclauses hblocks htext => ⟨fun c hc f hf =>
    mem_compileScopes d hblocks (hkept.subset hc) hf, ?_⟩⟩
  let links := numberedLinks clauses
  let scopes := numberedScopes clauses blocks
  let grouped := !(q.calls cs).scopes.isEmpty
  have hvalue : ∀ truth : Nat → Truth,
      Word.valueOf? ((conditionWords links grouped scopes).map (List.map (Word.map truth))) =
        some ((disjunction (clauses.mapIdx fun i l => (l.1, truth i))).and
          (.all ((List.range blocks.length).map fun i => truth (clauses.length + i)))) := by
    intro truth
    rw [conditionWords_map, valueOf?_conditionWords, numberedLinks_map]
    · exact congrArg (fun ts => some (Truth.and _ (.all ts))) (List.map_map ..)
    · intro hgrouped
      have hnil := scopes_eq_nil_of_compile d hblocks hgrouped
      simp [scopes, numberedScopes, hnil]
  refine ⟨conditionWords links grouped scopes, ?_, ?_, fun truth => ⟨hvalue truth, ?_⟩⟩
  · rw [condition_words (q.calls cs) d hclauses hblocks htext]
    have hmap := conditionWords_map (fun i => (clauses.map Prod.snd ++ blocks).getD i [])
      links grouped scopes
    rw [numberedLinks_operands, numberedScopes_operands] at hmap
    rw [← hmap, Option.map_map]
    rfl
  · rw [conditionWords_atoms, numbered_eq_range]
  · intro hyes i hi
    rw [hvalue truth] at hyes
    have hall := (Truth.and_eq_yes.1 (Option.some.inj hyes)).2
    exact Truth.eq_yes_of_all hall (List.mem_map.2 ⟨i, List.mem_range.2 hi, rfl⟩)

/-- Accounts that were not deleted. -/
def liveAccounts : Query :=
  (on "accounts" .postgres).scope (.isNull (.column "deleted_at") false)

/-- A filter without text in front of two that an OR joins. -/
def narrowing : List Call :=
  [.link .and (.isIn (.column "id") [] true), .link .or (.isNull (.column "email") true), .take 5,
    .link .or (.compare (.column "age") .gt (.int64 30))]

def narrowingClauses : List (Connective × Fragment) :=
  [(.or, [.name "email", .text " IS NOT NULL"]),
    (.or, [.name "age", .text " > ", .hole (.int64 30)])]

theorem scopes_govern_condition_liveAccounts :
    writtenLinks .postgres (liveAccounts.calls narrowing).filters = .ok narrowingClauses ∧
    compileScopes .postgres (liveAccounts.calls narrowing).scopes =
      .ok [[.name "deleted_at", .text " IS NULL"]] ∧
    (∀ l ∈ narrowingClauses, l.2.isBlank = false) ∧
    ∃ words : Option (List (Word Nat)),
      (words.getD []).filterMap Word.atom? = [0, 1, 2] ∧
      ∀ truth : Nat → Truth,
        Word.valueOf? (words.map (List.map (Word.map truth))) =
          some (((truth 0).or (truth 1)).and (truth 2)) := by
  have hclauses : writtenLinks .postgres (liveAccounts.calls narrowing).filters =
      .ok narrowingClauses := rfl
  have hblocks : compileScopes .postgres (liveAccounts.calls narrowing).scopes =
      .ok [[.name "deleted_at", .text " IS NULL"]] := rfl
  have htext : ∀ l ∈ narrowingClauses, l.2.isBlank = false := by decide
  refine ⟨hclauses, hblocks, htext, ?_⟩
  obtain ⟨-, words, -, hatoms, hvalue⟩ :=
    (scopes_govern_condition liveAccounts narrowing).2 .postgres _ _ hclauses hblocks htext
  refine ⟨words, hatoms, fun truth => ?_⟩
  rw [(hvalue truth).1]
  show some (Truth.and (((truth 0).and .yes).or (((truth 1).and .yes).or .no))
    ((truth 2).and .yes)) = _
  simp

end Query

end RecordMapper
