import RecordMapper.Proofs.Query.Grouping
import RecordMapper.Proofs.Query.SameRows
import RecordMapper.Query.Fetch

/-!
What a search for a key finds.

* `Query.finding` is the query that `Query.find?` runs: the key is one more filter, behind an AND.
* Where no OR joins the filters, filters and scopes are one conjunction (`conditionWords_of_noOr`),
  and the key is part of it.
* Behind an OR the key restricts only what follows it (`disjunction_escapes`), whether the filters
  stand in parentheses or not. So `find?` finds rows of the key exactly where no OR joins the filters
  (`find?_keeps_key`), and other rows too where one does (`find?_escapes_key`).
-/
namespace RecordMapper

set_option autoImplicit false

/-! ## One more filter -/

theorem hasOr_concat_and {α : Type} (links : List (Connective × α)) (a : α) :
    hasOr (links ++ [(.and, a)]) = hasOr links := by
  cases links with
  | nil => rfl
  | cons l rest =>
    show (rest ++ [(Connective.and, a)]).any (fun l => l.1 == .or) = _
    rw [List.any_append]
    exact Bool.or_false _

theorem writtenLinks_concat (d : Dialect) {links : List Link}
    {written : List (Connective × Fragment)} (h : writtenLinks d links = .ok written) {l : Link}
    {f : Fragment} (hf : l.condition.compile d = .ok (some f)) :
    writtenLinks d (links ++ [l]) = .ok (written ++ [(l.connective, f)]) := by
  induction links generalizing written with
  | nil =>
    cases h
    rw [List.nil_append, writtenLinks, hf]
    rfl
  | cons l' rest ih =>
    obtain ⟨g, hg, h⟩ := ok_of_bind h
    obtain ⟨others, hothers, h⟩ := ok_of_bind h
    cases h
    rw [List.cons_append, writtenLinks, hg, ih hothers]
    exact congrArg Except.ok (List.append_assoc ..).symm

theorem exists_writtenLinks_of_append (d : Dialect) {links more : List Link}
    {written : List (Connective × Fragment)} (h : writtenLinks d (links ++ more) = .ok written) :
    ∃ others, writtenLinks d links = .ok others := by
  induction links generalizing written with
  | nil => exact ⟨[], rfl⟩
  | cons l rest ih =>
    obtain ⟨f, hf, h⟩ := ok_of_bind h
    obtain ⟨written', hwritten', -⟩ := ok_of_bind h
    obtain ⟨others, hothers⟩ := ih hwritten'
    refine ⟨f.toList.map (fun f => (l.connective, f)) ++ others, ?_⟩
    rw [writtenLinks, hf, hothers]
    rfl

theorem continuation_conjoined_append {α : Type} (as bs : List α) :
    continuation (conjoined (as ++ bs)) =
      continuation (conjoined as) ++ continuation (conjoined bs) := by
  unfold continuation conjoined
  rw [List.map_append, List.flatMap_append]

/-- Where no OR joins the filters, there is no difference between filters and scopes. -/
theorem conditionWords_of_noOr {α : Type} {links : List (Connective × α)}
    (h : hasOr links = false) (grouped : Bool) (scopes : List α) :
    conditionWords links grouped scopes =
      conditionWords [] true (links.map Prod.snd ++ scopes) := by
  cases links with
  | nil => cases scopes <;> rfl
  | cons l rest =>
    have hands : rest = conjoined (rest.map Prod.snd) := eq_conjoined h
    have hchain : chainWords (l :: rest) =
        .atom l.2 :: continuation (conjoined (rest.map Prod.snd)) := by
      rw [← hands]
      rfl
    have hwords := continuation_conjoined_append (rest.map Prod.snd) scopes
    show some ((if (hasOr (l :: rest) && grouped) = true then _ else _) ++ _) =
      some (.atom l.2 :: continuation (conjoined (rest.map Prod.snd ++ scopes)))
    rw [h, Bool.false_and, if_neg Bool.false_ne_true, hchain, hwords]
    rfl

theorem exists_conditionWords_concat {α : Type} (links : List (Connective × α))
    (l : Connective × α) (grouped : Bool) (scopes : List α) :
    ∃ words, conditionWords (links ++ [l]) grouped scopes = some words := by
  cases links <;> exact ⟨_, rfl⟩

theorem take_yes (before : Truth) {rest : List (Connective × Truth)}
    (h : ∀ l ∈ rest, l.2 = .yes) :
    rest.foldl Level.take ⟨before, .yes⟩ =
      ⟨if rest.any (fun l => l.1 == .or) then .yes else before, .yes⟩ := by
  induction rest generalizing before with
  | nil => rfl
  | cons link rest ih =>
    obtain ⟨c, t⟩ := link
    obtain rfl : t = .yes := h (c, t) (List.mem_cons_self ..)
    have hrest := fun before => ih before fun l hl => h l (List.mem_cons_of_mem _ hl)
    cases c with
    | and => exact hrest before
    | or =>
      have hsplit : (Level.take ⟨before, .yes⟩ (.or, .yes)) = ⟨.yes, .yes⟩ := by
        cases before <;> rfl
      rw [List.foldl_cons, hsplit, hrest, ite_self]
      rfl

/-- Behind an OR an operand does not matter where all in front of it hold. -/
theorem disjunction_escapes {links : List (Connective × Truth)} (h : ∀ l ∈ links, l.2 = .yes)
    (hor : hasOr links = true) (t : Truth) : disjunction (links ++ [(.and, t)]) = .yes := by
  cases links with
  | nil => cases hor
  | cons first rest =>
    have hfirst : first.2 = .yes := h first (List.mem_cons_self ..)
    have hany : rest.any (fun l => l.1 == .or) = true := hor
    rw [List.cons_append, disjunction_cons, List.foldl_append, hfirst]
    show ((rest.foldl Level.take ⟨.no, .yes⟩).take (.and, t)).value = .yes
    rw [take_yes .no fun l hl => h l (List.mem_cons_of_mem _ hl), hany]
    rfl

namespace Query

/-! ## The condition of a search -/

/-- The query for the row with a key. -/
def finding (q : Query) (id : Value) : Query := (q.filterEq q.key id).take 1

/-- The condition that a row has this key. -/
def keyText (q : Query) (id : Value) : Fragment := Fragment.path q.key ++ [.text " = ", .hole id]

variable {q : Query} {id : Value}

theorem compile_key (d : Dialect) (hnull : id.isNull = false) (hdefault : id.isDefault = false) :
    (Condition.compare (.column q.key) .eq id).compile d = .ok (some (q.keyText id)) := by
  cases id with
  | null => cases hnull
  | default => cases hdefault
  | _ => rfl

theorem keyText_written (q : Query) (id : Value) : (q.keyText id).isBlank = false := by
  unfold keyText
  rw [Fragment.isBlank_append]
  exact Bool.and_false _

theorem find?_of_statement {σ : Type} (s : Session σ) {st : Statement}
    (h : (q.finding id).statement = .ok st) :
    q.find? s id = (do let found ← s.query st; return found.head?) := by
  show (do let found ← ((Action.ofResult (q.finding id).statement) >>= s.query)
           return found.head?) = _
  rw [h]
  rfl

variable {clauses : List (Connective × Fragment)} {blocks : List Fragment}

/-- All operands of a search: the filters, the key and the scopes. -/
def findingOperands (q : Query) (id : Value) (clauses : List (Connective × Fragment))
    (blocks : List Fragment) : List Fragment :=
  clauses.map Prod.snd ++ q.keyText id :: blocks

theorem finding_words (d : Dialect) (hnull : id.isNull = false) (hdefault : id.isDefault = false)
    (hclauses : writtenLinks d q.filters = .ok clauses)
    (hblocks : compileScopes d q.scopes = .ok blocks)
    (htext : ∀ l ∈ clauses, l.2.isBlank = false) :
    (q.finding id).condition d = .ok ((conditionWords (clauses ++ [(.and, q.keyText id)])
      (!q.scopes.isEmpty) blocks).map Word.spell) := by
  have hlinks : writtenLinks d (q.finding id).filters = .ok (clauses ++ [(.and, q.keyText id)]) :=
    writtenLinks_concat d hclauses (compile_key d hnull hdefault)
  refine condition_words (q.finding id) d hlinks hblocks fun l hl => ?_
  rcases List.mem_append.mp hl with hl | hl
  · exact htext l hl
  · obtain rfl := List.mem_singleton.mp hl
    exact keyText_written q id

/-- Whether the key has to hold where the condition does depends on the filters alone. -/
theorem value_of_key (links : List (Connective × Nat)) (grouped : Bool) (scopes : List Nat)
    (hgrouped : grouped = false → scopes = []) (key : Nat)
    (hlinks : key ∉ links.map Prod.snd) (hscopes : key ∉ scopes) :
    (∀ truth : Nat → Truth,
        Word.valueOf? ((conditionWords (links ++ [(.and, key)]) grouped scopes).map
          (List.map (Word.map truth))) = some .yes → truth key = .yes) ↔
      hasOr links = false := by
  constructor
  · intro h
    refine Bool.eq_false_iff.mpr fun hor => ?_
    -- All but the key holds, and still the condition does.
    let truth : Nat → Truth := fun i => if i = key then .no else .yes
    have hother : ∀ i, i ≠ key → truth i = .yes := fun i hi => if_neg hi
    have hvalue : disjunction ((links.map fun l => (l.1, truth l.2)) ++ [(.and, truth key)]) =
        .yes := by
      refine disjunction_escapes ?_ ((hasOr_map truth links).trans hor) (truth key)
      intro l hl
      obtain ⟨l', hl', rfl⟩ := List.mem_map.mp hl
      exact hother l'.2 fun heq => hlinks (heq ▸ List.mem_map_of_mem hl')
    have hall : Truth.all (scopes.map truth) = .yes := by
      refine Truth.all_eq_yes fun t ht => ?_
      obtain ⟨i, hi, rfl⟩ := List.mem_map.mp ht
      exact hother i fun heq => hscopes (heq ▸ hi)
    have hkey := h truth (by
      rw [conditionWords_map, valueOf?_conditionWords _ _ _ fun hg => by rw [hgrouped hg]; rfl,
        List.map_append, List.map_singleton, hvalue, hall]
      rfl)
    have hno : truth key = .no := if_pos rfl
    rw [hno] at hkey
    cases hkey
  · intro hor truth hyes
    have hnone : hasOr (links ++ [(Connective.and, key)]) = false :=
      (hasOr_concat_and links key).trans hor
    rw [conditionWords_of_noOr hnone, conditionWords_map,
      valueOf?_conditionWords _ _ _ fun h => by cases h] at hyes
    have hall := (Truth.and_eq_yes.mp (Option.some.inj hyes)).2
    refine Truth.eq_yes_of_all hall (List.mem_map_of_mem (List.mem_append_left scopes ?_))
    rw [List.map_append]
    exact List.mem_append_right _ (List.mem_cons_self ..)

theorem numberedLinks_concat (clauses : List (Connective × Fragment)) (l : Connective × Fragment) :
    numberedLinks (clauses ++ [l]) = numberedLinks clauses ++ [(l.1, clauses.length)] := by
  unfold numberedLinks
  exact List.mapIdx_concat

/-- The words of a search, with the operands under their numbers. The key is counted behind the
filters. -/
theorem exists_numberedWords (q : Query) (id : Value) (clauses : List (Connective × Fragment))
    (grouped : Bool) (hgrouped : grouped = false → blocks = []) :
    ∃ words : List (Word Nat),
      (conditionWords (clauses ++ [(.and, q.keyText id)]) grouped blocks).map Word.spell =
        some (Word.spell (words.map
          (Word.map fun i => (q.findingOperands id clauses blocks).getD i []))) ∧
      words.filterMap Word.atom? = List.range (clauses.length + 1 + blocks.length) ∧
      ((∀ truth : Nat → Truth, Word.value? (words.map (Word.map truth)) = some .yes →
        truth clauses.length = .yes) ↔ hasOr clauses = false) := by
  let links := clauses ++ [(Connective.and, q.keyText id)]
  have hoperands : q.findingOperands id clauses blocks = links.map Prod.snd ++ blocks := by
    simp [findingOperands, links]
  have hlinks : numberedLinks links = numberedLinks clauses ++ [(.and, clauses.length)] :=
    numberedLinks_concat clauses _
  have hscopes : ∀ i ∈ numberedScopes links blocks, clauses.length < i := by
    intro i hi
    obtain ⟨j, -, rfl⟩ := List.mem_map.mp hi
    simp only [links, List.length_append, List.length_singleton]
    omega
  have hclauses : ∀ i ∈ (numberedLinks clauses).map Prod.snd, i < clauses.length := by
    intro i hi
    have hrange := numbered_eq_range clauses []
    have hmem : i ∈ List.range (clauses.length + 0) := hrange ▸ List.mem_append_left _ hi
    exact List.mem_range.mp hmem
  have hor : hasOr (numberedLinks clauses) = hasOr clauses := by
    have hmap := hasOr_map (fun i => (clauses.map Prod.snd ++ []).getD i [])
      (numberedLinks clauses)
    rw [numberedLinks_operands] at hmap
    exact hmap.symm
  have hvalue := value_of_key (numberedLinks clauses) grouped (numberedScopes links blocks)
    (fun hg => by rw [hgrouped hg]; rfl) clauses.length
    (fun hmem => Nat.lt_irrefl _ (hclauses _ hmem)) (fun hmem => Nat.lt_irrefl _ (hscopes _ hmem))
  have hmap := conditionWords_map (fun i => (links.map Prod.snd ++ blocks).getD i [])
    (numberedLinks links) grouped (numberedScopes links blocks)
  have hatoms := conditionWords_atoms (numberedLinks links) grouped (numberedScopes links blocks)
  rw [numberedLinks_operands, numberedScopes_operands] at hmap
  rw [numbered_eq_range] at hatoms
  rw [← hlinks, hor] at hvalue
  obtain ⟨words, hwords⟩ := exists_conditionWords_concat (numberedLinks clauses)
    (.and, clauses.length) grouped (numberedScopes links blocks)
  rw [← hlinks] at hwords
  rw [hwords] at hmap hatoms hvalue
  have hlength : links.length = clauses.length + 1 := List.length_append
  rw [hlength] at hatoms
  refine ⟨words, ?_, hatoms, hvalue⟩
  rw [← hmap, hoperands]
  rfl

/-- Without an OR the key is an operand of the conjunction that the text is. -/
theorem keyText_holds (d : Dialect) (hnull : id.isNull = false) (hdefault : id.isDefault = false)
    (hclauses : writtenLinks d q.filters = .ok clauses)
    (hfilters : ∀ l ∈ q.filters, l.condition.IsGrouped d)
    (hscopes : ∀ c ∈ q.scopes, c.IsGrouped d) (hor : hasOr clauses = false) {f : Fragment}
    (h : (q.finding id).condition d = .ok (some f)) {truth : List Part → Truth}
    (hyes : f.truth? truth = some .yes) : (q.keyText id).truth? truth = some .yes := by
  obtain ⟨chain, hchain, hrest⟩ := ok_of_bind h
  obtain ⟨blocks, hblocks, -⟩ := ok_of_bind hrest
  have hblocks : compileScopes d q.scopes = .ok blocks := hblocks
  have hkey : ∃ operands, (q.keyText id).Conjoins operands :=
    (isGrouped_eq d q.key id).conjoins (compile_key d hnull hdefault)
  have hclause : ∀ l ∈ clauses, ∃ operands, l.2.Conjoins operands := by
    intro l hl
    obtain ⟨link, hlink, hcompile⟩ := exists_of_mem_writtenLinks d hclauses hl
    exact (hfilters link hlink).conjoins hcompile
  have hwords := finding_words d hnull hdefault hclauses hblocks fun l hl =>
    (hclause l hl).elim fun _ h => h.written
  have hnone : hasOr (clauses ++ [(Connective.and, q.keyText id)]) = false :=
    (hasOr_concat_and clauses _).trans hor
  rw [h, Except.ok.injEq, conditionWords_of_noOr hnone] at hwords
  obtain ⟨words, hcondition, rfl⟩ := Option.map_eq_some_iff.mp hwords.symm
  obtain ⟨operands, hall, heach⟩ := conjoins_words (fun l hl => absurd hl List.not_mem_nil) (by
    intro g hg
    rw [List.map_append] at hg
    rcases List.mem_append.mp hg with hg | hg
    · rcases List.mem_append.mp hg with hg | hg
      · obtain ⟨l, hl, rfl⟩ := List.mem_map.mp hg
        exact hclause l hl
      · obtain rfl := List.mem_singleton.mp hg
        exact hkey
    · obtain ⟨c, hc, hcompile⟩ := exists_of_mem_compileScopes d hblocks hg
      exact (hscopes c hc).conjoins hcompile) hcondition
  obtain ⟨os, hos, hsubset⟩ := heach (q.keyText id) (by
    rw [List.map_append]
    exact List.mem_append_left _ (List.mem_append_right _ (List.mem_cons_self ..)))
  exact hall.holds_of_subset hos hsubset hyes

/-- In the condition of a search the key is one operand. It has to hold of every row that the
condition admits exactly where no OR joins the filters, and it does by the text alone if no filter and
no scope has an OR outside of parentheses and quotes. -/
theorem find?_keeps_key (q : Query) (id : Value) (hnull : id.isNull = false)
    (hdefault : id.isDefault = false) {st : Statement} (hst : (q.finding id).statement = .ok st) :
    (∀ {σ : Type} (s : Session σ),
      q.find? s id = (do let found ← s.query st; return found.head?)) ∧
    ∃ clauses blocks condition front rest,
      writtenLinks q.dialect q.filters = .ok clauses ∧
      compileScopes q.dialect q.scopes = .ok blocks ∧
      (q.finding id).condition q.dialect = .ok condition ∧
      st.Limited q.dialect condition front rest ∧
      ((∀ l ∈ clauses, l.2.isBlank = false) →
        ∃ words : List (Word Nat),
          condition = some (Word.spell (words.map
            (Word.map fun i => (q.findingOperands id clauses blocks).getD i []))) ∧
          words.filterMap Word.atom? = List.range (clauses.length + 1 + blocks.length) ∧
          ((∀ truth : Nat → Truth, Word.value? (words.map (Word.map truth)) = some .yes →
            truth clauses.length = .yes) ↔ hasOr clauses = false)) ∧
      ((∀ l ∈ q.filters, l.condition.IsGrouped q.dialect) →
        (∀ c ∈ q.scopes, c.IsGrouped q.dialect) → hasOr clauses = false →
        ∀ f, condition = some f → ∀ truth : List Part → Truth,
          f.truth? truth = some .yes → (q.keyText id).truth? truth = some .yes) := by
  refine ⟨fun s => find?_of_statement s hst, ?_⟩
  obtain ⟨f, hf, rfl⟩ := ok_of_map hst
  obtain ⟨front, condition, rest, -, hcondition, -, rfl⟩ := compile_parts hf
  have hcondition : (q.finding id).condition q.dialect = .ok condition := hcondition
  obtain ⟨chain, hchain, hblocks⟩ := ok_of_bind hcondition
  obtain ⟨blocks, hblocks, -⟩ := ok_of_bind hblocks
  have hblocks : compileScopes q.dialect q.scopes = .ok blocks := hblocks
  obtain ⟨written, hwritten⟩ := exists_writtenLinks q.dialect hchain
  obtain ⟨clauses, hclauses⟩ := exists_writtenLinks_of_append q.dialect hwritten
  refine ⟨clauses, blocks, condition, front, rest, hclauses, hblocks, hcondition,
    limited_statement q.dialect condition front rest, fun htext => ?_, ?_⟩
  · have hwords := finding_words q.dialect hnull hdefault hclauses hblocks htext
    rw [hcondition, Except.ok.injEq] at hwords
    obtain ⟨words, hspelled, hatoms, hkey⟩ :=
      exists_numberedWords q id clauses (!q.scopes.isEmpty)
        (scopes_eq_nil_of_compile q.dialect hblocks)
    exact ⟨words, hwords.trans hspelled, hatoms, hkey⟩
  · intro hfilters hscopes hor f hf truth hyes
    subst hf
    exact keyText_holds q.dialect hnull hdefault hclauses hfilters hscopes hor hcondition hyes

/-! ### Users without a name -/

/-- Users with an address and a name, who were not deleted. -/
def knownUsers : Query :=
  (((on "users" .sqlite).filter (.isNull (.column "email") true)).filter
    (.isNull (.column "name") true)).scope (.isNull (.column "deleted_at") false)

def knownStatement : Statement where
  sql := "SELECT * FROM \"users\" WHERE \"email\" IS NOT NULL AND \"name\" IS NOT NULL AND " ++
    "\"id\" = ? AND \"deleted_at\" IS NULL LIMIT 1"
  values := [.int32 7]

theorem find?_keeps_key_knownUsers :
    (Value.int32 7).isNull = false ∧ (Value.int32 7).isDefault = false ∧
    (knownUsers.finding (.int32 7)).statement = .ok knownStatement ∧
    ∃ f, (knownUsers.finding (.int32 7)).condition .sqlite = .ok (some f) ∧
      ∀ truth : List Part → Truth, f.truth? truth = some .yes →
        (knownUsers.keyText (.int32 7)).truth? truth = some .yes := by
  have hst : (knownUsers.finding (.int32 7)).statement = .ok knownStatement := rfl
  have hfilters : ∀ l ∈ knownUsers.filters, l.condition.IsGrouped .sqlite := by
    intro l hl
    rcases List.mem_cons.mp hl with rfl | hl
    · exact isGrouped_isNull .sqlite "email" true
    · obtain rfl := List.mem_singleton.mp hl
      exact isGrouped_isNull .sqlite "name" true
  have hscopes : ∀ c ∈ knownUsers.scopes, c.IsGrouped .sqlite := by
    intro c hc
    obtain rfl := List.mem_singleton.mp hc
    exact isGrouped_isNull .sqlite "deleted_at" false
  obtain ⟨-, clauses, blocks, condition, front, rest, hclauses, hblocks, hcondition, -, -, hkey⟩ :=
    find?_keeps_key knownUsers (.int32 7) rfl rfl hst
  cases hclauses
  cases hcondition
  exact ⟨rfl, rfl, hst, _, rfl, hkey hfilters hscopes rfl _ rfl⟩

/-- Users without an address or without a name. -/
def unknownUsers : Query :=
  ((on "users" .sqlite).filter (.isNull (.column "email") false)).orFilter
    (.isNull (.column "name") false)

def unknownStatement : Statement where
  sql := "SELECT * FROM \"users\" WHERE \"email\" IS NULL OR \"name\" IS NULL AND \"id\" = ? " ++
    "LIMIT 1"
  values := [.int32 7]

def unknownText : Fragment :=
  [.name "email", .text " IS NULL", .text " OR ", .name "name", .text " IS NULL", .text " AND ",
    .name "id", .text " = ", .hole (.int32 7)]

/-- What holds of a user with another key, of whom neither is known. -/
def unknown (operand : List Part) : Truth :=
  if operand.any (Part.is "NULL") then .yes else .no

/-- Behind an OR a row with another key is found. -/
theorem find?_escapes_key :
    (unknownUsers.finding (.int32 7)).statement = .ok unknownStatement ∧
    (unknownUsers.finding (.int32 7)).condition .sqlite = .ok (some unknownText) ∧
    unknownText.truth? unknown = some .yes ∧
    (unknownUsers.keyText (.int32 7)).truth? unknown = some .no := by
  exact ⟨rfl, rfl, by decide +kernel, by decide +kernel⟩

end Query

end RecordMapper
