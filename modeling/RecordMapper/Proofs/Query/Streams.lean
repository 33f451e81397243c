import RecordMapper.Proofs.Query.Cursor
import RecordMapper.Proofs.Query.Finding
import RecordMapper.Proofs.Query.Placeholders
import RecordMapper.Proofs.Query.Windows

/-!
The two walks through the rows of a query.

* `condition_scope` is the text of a condition with one more scope; `admits_scope` says which rows it
  admits.
* `Query.Evaluated` is a database that goes by what a statement says: its condition, its order and
  its window.
* `walks_agree`: walking by pages and walking behind a cursor deliver the same rows, if the query has
  no offset of its own. An offset is passed over again on every batch behind a cursor
  (`walks_differ`).
-/
namespace RecordMapper

set_option autoImplicit false

/-! ## One more scope -/

theorem conditionWords_scope {α : Type} (links : List (Connective × α)) (grouped : Bool)
    (scopes : List α) (a : α) :
    conditionWords links grouped (scopes ++ [a]) =
      some ((conditionWords links grouped scopes).elim [.atom a]
        (· ++ [.connective .and, .atom a])) := by
  have hlast : continuation (conjoined (scopes ++ [a])) =
      continuation (conjoined scopes) ++ [.connective .and, .atom a] :=
    continuation_conjoined_append scopes [a]
  cases links with
  | nil =>
    cases scopes with
    | nil => rfl
    | cons b rest =>
      have hrest : continuation (conjoined (rest ++ [a])) =
          continuation (conjoined rest) ++ [.connective .and, .atom a] :=
        continuation_conjoined_append rest [a]
      show some (.atom b :: continuation (conjoined (rest ++ [a]))) = _
      rw [hrest]
      rfl
  | cons l rest =>
    show some (_ ++ continuation (conjoined (scopes ++ [a]))) = _
    rw [hlast, ← List.append_assoc]
    rfl

/-- Parentheses make filters one operand. -/
theorem spell_grouped (links : List (Connective × Fragment)) :
    (conditionWords links true []).map Word.spell = (conditionWords links false []).map Word.spell ∨
      ∃ f, (conditionWords links false []).map Word.spell = some f ∧
        (conditionWords links true []).map Word.spell = some f.parens := by
  cases links with
  | nil => exact .inl rfl
  | cons l rest =>
    simp only [conditionWords, Bool.and_true, Bool.and_false, Bool.false_eq_true, if_false]
    cases hasOr (l :: rest) with
    | false => exact .inl rfl
    | true =>
      refine .inr ⟨_, rfl, ?_⟩
      show some (Word.spell (.opening :: chainWords (l :: rest) ++ [.closing] ++ [])) =
        some (Fragment.parens (Word.spell (chainWords (l :: rest) ++ [])))
      rw [List.append_nil, List.append_nil, spell_append]
      rfl

theorem compileScopes_concat (d : Dialect) {scopes : List Condition} {blocks : List Fragment}
    (h : compileScopes d scopes = .ok blocks) {c : Condition} {g : Fragment}
    (hc : c.compile d = .ok (some g)) : compileScopes d (scopes ++ [c]) = .ok (blocks ++ [g]) := by
  induction scopes generalizing blocks with
  | nil =>
    cases h
    rw [List.nil_append, compileScopes, hc]
    rfl
  | cons c' rest ih =>
    obtain ⟨f, hf, h⟩ := ok_of_bind h
    obtain ⟨fs, hfs, h⟩ := ok_of_bind h
    cases h
    rw [List.cons_append, compileScopes, hf, ih hfs]
    exact congrArg Except.ok (List.append_assoc ..).symm

namespace Query

/-- A condition with one more scope: the condition as it is, or in parentheses, and the scope. -/
theorem condition_scope (q : Query) (d : Dialect)
    (hfilters : ∀ l ∈ q.filters, l.condition.IsGrouped d)
    (hscopes : ∀ c ∈ q.scopes, c.IsGrouped d) {condition : Option Fragment}
    (h : q.condition d = .ok condition) {c : Condition} {g : Fragment}
    (hc : c.compile d = .ok (some g)) :
    ∃ grouped : Option Fragment,
      (grouped = condition ∨ ∃ f, condition = some f ∧ grouped = some f.parens) ∧
      (∀ f, grouped = some f → ∃ operands, f.Conjoins operands) ∧
      (q.scope c).condition d = .ok (some (grouped.elim g (· ++ .text " AND " :: g))) := by
  obtain ⟨chain, hchain, hrest⟩ := ok_of_bind h
  obtain ⟨blocks, hblocks, -⟩ := ok_of_bind hrest
  obtain ⟨clauses, hclauses⟩ := exists_writtenLinks d hchain
  have hclause : ∀ l ∈ clauses, ∃ operands, l.2.Conjoins operands := by
    intro l hl
    obtain ⟨link, hlink, hcompile⟩ := exists_of_mem_writtenLinks d hclauses hl
    exact (hfilters link hlink).conjoins hcompile
  have hblock : ∀ f ∈ blocks, ∃ operands, f.Conjoins operands := by
    intro f hf
    obtain ⟨c, hc, hcompile⟩ := exists_of_mem_compileScopes d hblocks hf
    exact (hscopes c hc).conjoins hcompile
  have hwritten : ∀ l ∈ clauses, l.2.isBlank = false := fun l hl =>
    (hclause l hl).elim fun _ h => h.written
  have hwords := q.condition_words d hclauses hblocks hwritten
  rw [h, Except.ok.injEq] at hwords
  have hmore : (q.scope c).condition d =
      .ok ((conditionWords clauses true (blocks ++ [g])).map Word.spell) := by
    have hgrouped : (!(q.scopes ++ [c]).isEmpty) = true := by simp
    have hscoped := (q.scope c).condition_words d hclauses (compileScopes_concat d hblocks hc) hwritten
    exact hscoped.trans (by rw [← hgrouped]; rfl)
  refine ⟨(conditionWords clauses true blocks).map Word.spell, ?_, ?_, ?_⟩
  · cases hempty : q.scopes.isEmpty with
    | false =>
      rw [hempty] at hwords
      exact .inl hwords.symm
    | true =>
      rw [hempty] at hwords
      obtain rfl : blocks = [] := scopes_eq_nil_of_compile d hblocks (by simp [hempty])
      rw [hwords]
      exact spell_grouped clauses
  · intro f hf
    obtain ⟨words, hspelled, rfl⟩ := Option.map_eq_some_iff.mp hf
    obtain ⟨operands, hall, -⟩ := conjoins_words hclause hblock hspelled
    exact ⟨operands, hall⟩
  · rw [hmore, conditionWords_scope]
    cases conditionWords clauses true blocks with
    | none => exact congrArg (Except.ok ∘ some) (List.append_nil g)
    | some words =>
      show Except.ok (some (Word.spell (words ++ [.connective .and, .atom g]))) = _
      have hscope : Word.spell [.connective .and, .atom g] = .text " AND " :: g :=
        congrArg (Piece.text " AND " :: ·) (List.append_nil g)
      rw [spell_append, hscope]
      rfl

/-! ## Admitted rows -/

/-- Whether a condition admits a row, if `truth` tells the values of its operands. -/
def admits (truth : List Part → Truth) (condition : Option Fragment) : Bool :=
  condition.all fun f => decide (f.truth? truth = some .yes)

theorem admits_and {truth : List Part → Truth} {f g : Fragment} {as bs : List (List Part)}
    (hf : f.Conjoins as) (hg : g.Conjoins bs) :
    admits truth (some (f ++ .text " AND " :: g)) =
      (admits truth (some f) && admits truth (some g)) := by
  show decide _ = (decide _ && decide _)
  rw [(hf.and hg).truth_eq, hf.truth_eq, hg.truth_eq, List.map_append, Truth.all_append,
    ← Bool.decide_and, decide_eq_decide]
  simp only [Option.some.injEq, Truth.and_eq_yes]

/-- A condition with one more scope admits the rows that both admit. -/
theorem admits_scope (q : Query) (d : Dialect)
    (hfilters : ∀ l ∈ q.filters, l.condition.IsGrouped d)
    (hscopes : ∀ c ∈ q.scopes, c.IsGrouped d) {condition : Option Fragment}
    (h : q.condition d = .ok condition) {c : Condition} {g : Fragment}
    (hc : c.compile d = .ok (some g)) (hg : ∃ operands, g.Conjoins operands) :
    ∃ narrowed, (q.scope c).condition d = .ok (some narrowed) ∧ ∀ truth : List Part → Truth,
      (∀ f, condition = some f → f.parens.truth? truth = f.truth? truth) →
      admits truth (some narrowed) = (admits truth condition && admits truth (some g)) := by
  obtain ⟨grouped, hgrouped, hconjoins, hscope⟩ := q.condition_scope d hfilters hscopes h hc
  obtain ⟨bs, hg⟩ := hg
  refine ⟨_, hscope, fun truth hparens => ?_⟩
  have hsame : admits truth grouped = admits truth condition := by
    rcases hgrouped with rfl | ⟨f, rfl, rfl⟩
    · rfl
    · show decide _ = decide _
      rw [hparens f rfl]
  rw [← hsame]
  cases grouped with
  | none => rfl
  | some f =>
    obtain ⟨as, hf⟩ := hconjoins f rfl
    exact admits_and hf hg

/-- The condition that a row stands behind a value of the cursor column. -/
def cursorText (column : String) (v : Value) : Fragment :=
  Fragment.path column ++ .text " > " :: Fragment.bind v

theorem compile_cursor (d : Dialect) (column : String) (v : Value) :
    (Condition.compare (.column column) .gt v).compile d = .ok (some (cursorText column v)) := rfl

theorem conjoins_cursorText (column : String) (v : Value) :
    ∃ operands, (cursorText column v).Conjoins operands := by
  cases v with
  | default =>
    exact conjoins_column column [.blank, .symbol (.char '>'), .blank, .word "DEFAULT"] rfl rfl
      (by decide +kernel)
  | _ =>
    exact conjoins_column column [.blank, .symbol (.char '>'), .blank, .symbol (.hole _)] rfl rfl
      rfl

/-! ## A database that goes by the text -/

variable {σ κ : Type} [LinearOrder κ]

/-- The queries of both walks: any window of the query, and any batch behind the cursor of a row. -/
inductive Asked (q : Query) (size : Nat) (column : String) (rows : List Row) : Query → Prop where
  | window (k n : Nat) : Asked q size column rows ((q.skip k).take n)
  | batch (cursor : Option Value)
      (h : ∀ v, cursor = some v → ∃ row ∈ rows, row.named? (bareColumn column) = some v) :
      Asked q size column rows (q.batchAfter size column cursor)

/-- What the texts of a query mean in these rows, in each of which the column has another value: a
comparison with a value goes by the order of the column, and parentheses around the condition change
nothing. -/
structure Meaning (q : Query) (column : String) (rank : Value → κ)
    (truth : Row → List Part → Truth) (rows : List Row) : Prop where
  present : ∀ row ∈ rows, ∃ v, row.named? (bareColumn column) = some v
  distinct : rows.Pairwise fun a b => place rank column a ≠ place rank column b
  compares : ∀ row ∈ rows, ∀ other ∈ rows,
    (cursorText column (cursorOf column other)).truth? (truth row) =
      some (if place rank column other < place rank column row then .yes else .no)
  grouping : ∀ f, q.condition q.dialect = .ok (some f) → ∀ row ∈ rows,
    f.parens.truth? (truth row) = f.truth? (truth row)

/-- A database that answers what a statement says: the rows that the condition admits, in the order of
the column, as far as the window shows them. -/
structure Evaluated (q : Query) (world : World σ) (size : Nat) (column : String)
    (rank : Value → κ) (truth : Row → List Part → Truth) (rows : List Row) : Prop where
  meaning : Meaning q column rank truth rows
  answers : ∀ p st w condition, Asked q size column rows p →
    p.orders.head? = some ⟨.column column, some .asc⟩ → p.statement = .ok st →
    p.condition p.dialect = .ok condition →
    (world.query st w).1 = .ok (windowed p.limit p.offset
      (inOrder rank column (rows.filter fun row => admits (truth row) condition)))

section Evaluation

variable {s : Session σ} {q : Query} {size : Nat} {column : String} {rank : Value → κ}
  {truth : Row → List Part → Truth} {rows : List Row} {condition : Option Fragment}

theorem Meaning.admits_cursor (h : Meaning q column rank truth rows) {row other : Row}
    (hrow : row ∈ rows) (hother : other ∈ rows) :
    admits (truth row) (some (cursorText column (cursorOf column other))) =
      isBeyond rank (some (cursorOf column other)) (place rank column row) := by
  show decide _ = decide (place rank column other < place rank column row)
  rw [h.compares row hrow other hother, decide_eq_decide]
  split
  · next hlt => exact ⟨fun _ => hlt, fun _ => rfl⟩
  · next hlt => exact ⟨(nomatch ·), fun h => absurd h hlt⟩

/-- The condition of a batch admits the rows of the query that stand behind the cursor. -/
theorem Meaning.exists_narrowed (h : Meaning q column rank truth rows)
    (hfilters : ∀ l ∈ q.filters, l.condition.IsGrouped q.dialect)
    (hscopes : ∀ c ∈ q.scopes, c.IsGrouped q.dialect)
    (hcondition : q.condition q.dialect = .ok condition) (size : Nat) {v : Value}
    (hv : ∃ row ∈ rows, row.named? (bareColumn column) = some v) :
    ∃ narrowed, (q.batchAfter size column (some v)).condition q.dialect = .ok (some narrowed) ∧
      (rows.filter fun row => admits (truth row) (some narrowed)) =
        (rows.filter fun row => admits (truth row) condition).filter
          fun row => isBeyond rank (some v) (place rank column row) := by
  obtain ⟨other, hother, hnamed⟩ := hv
  have hcursor : cursorOf column other = v := by
    unfold cursorOf
    rw [hnamed]
    rfl
  obtain ⟨narrowed, hnarrowed, hadmits⟩ := admits_scope q q.dialect hfilters hscopes hcondition
    (compile_cursor q.dialect column v) (conjoins_cursorText column v)
  refine ⟨narrowed, hnarrowed, ?_⟩
  rw [List.filter_filter]
  refine List.filter_congr fun row hrow => ?_
  have hparens := fun f hf => h.grouping f (hcondition.trans (congrArg Except.ok hf)) row hrow
  rw [hadmits (truth row) hparens, Bool.and_comm, ← hcursor, h.admits_cursor hrow hother]

theorem beyond_none (rows : List Row) : beyond rank column none rows = inOrder rank column rows :=
  congrArg (inOrder rank column) (List.filter_true rows)

theorem Evaluated.shows (h : Evaluated q s.world size column rank truth rows)
    (hordered : q.orders.head? = some ⟨.column column, some .asc⟩)
    (hcondition : q.condition q.dialect = .ok condition) :
    q.Shows s.world (inOrder rank column (rows.filter fun row => admits (truth row) condition)) :=
  fun k n st w hst => h.answers _ st w condition (.window k n) hordered hst hcondition

/-- Behind a cursor the rows of the query are those that stand there. -/
theorem Evaluated.live (h : Evaluated q s.world size column rank truth rows)
    (hfilters : ∀ l ∈ q.filters, l.condition.IsGrouped q.dialect)
    (hscopes : ∀ c ∈ q.scopes, c.IsGrouped q.dialect)
    (hcondition : q.condition q.dialect = .ok condition) :
    LiveTable q s.recorded.world (fun t => t.2.length) size column rank
      (fun _ => rows.filter fun row => admits (truth row) condition) where
  counts := s.counts_recorded
  present _ row hrow := h.meaning.present row (List.mem_of_mem_filter hrow)
  distinct _ := h.meaning.distinct.filter _
  answers cursor st t hcursor hst := by
    have hpresent : ∀ v, cursor = some v → ∃ row ∈ rows,
        row.named? (bareColumn column) = some v := by
      intro v hv
      obtain ⟨-, row, hrow, hnamed⟩ := hcursor v hv
      exact ⟨row, List.mem_of_mem_filter hrow, hnamed⟩
    have hanswer := fun condition => h.answers _ st t.1 condition (.batch cursor hpresent)
    cases cursor with
    | none =>
      rw [beyond_none]
      exact hanswer condition rfl hst hcondition
    | some v =>
      obtain ⟨narrowed, hnarrowed, hfilter⟩ :=
        h.meaning.exists_narrowed hfilters hscopes hcondition size (hpresent v rfl)
      have hall := hanswer (some narrowed) rfl hst hnarrowed
      rw [hfilter] at hall
      exact hall

theorem Streamed.flatten_eq {table : List Row} {goOn : List (List Row) → Bool}
    {start bound asked : Nat} {walk : Walk Row}
    (h : Streamed (fun _ => table) column rank goOn start none [] bound walk asked)
    (hdistinct : table.Pairwise fun a b => place rank column a ≠ place rank column b)
    (hexhausted : walk.finish = .ok .exhausted) :
    walk.batches.flatten = inOrder rank column table := by
  have hdrawn : ∀ row ∈ walk.batches.flatten, row ∈ table := by
    intro row hrow
    obtain ⟨batch, hbatch, hrow⟩ := List.mem_flatten.mp hrow
    obtain ⟨i, hi⟩ := List.mem_iff_getElem?.mp hbatch
    exact h.drawn i batch hi row hrow
  have hinjective := List.inj_on_of_nodup_map (List.pairwise_map.mpr hdistinct)
  have hordered := pairwise_inOrder hdistinct
  have hmem : ∀ row, row ∈ walk.batches.flatten ↔ row ∈ inOrder rank column table := by
    intro row
    rw [mem_inOrder]
    refine ⟨hdrawn row, fun hrow => ?_⟩
    obtain ⟨row', hrow', hplace⟩ :=
      h.complete hexhausted (place rank column row) rfl fun _ _ _ => ⟨row, hrow, rfl⟩
    rwa [← hinjective (hdrawn row' hrow') hrow hplace]
  have hnodup {l : List Row} (hl : l.Pairwise fun a b => place rank column a < place rank column b) :
      l.Nodup :=
    List.Pairwise.imp (fun hlt => ne_of_apply_ne (place rank column) (ne_of_lt hlt)) hl
  have hperm := (List.perm_ext_iff_of_nodup (hnodup h.increasing) (hnodup hordered)).mpr hmem
  exact hperm.eq_of_pairwise (fun a b _ _ hab hba => absurd hab (lt_asymm hba)) h.increasing hordered

/-- Of a table that stays as it is a walk behind a cursor delivers all rows, one after the other. -/
theorem chunksAfter_run {table : List Row} {clock : σ → Nat}
    (h : LiveTable q s.world clock size column rank fun _ => table) (hsize : 0 < size)
    (hoffset : q.offset.getD 0 = 0) (hcompiles : ∃ st, q.unordered.statement = .ok st)
    {bound : Nat} (hbound : table.length < bound) (w : σ) :
    ∃ walk w', (q.chunksAfter s size column (fun _ => true) bound).run w = (walk, w') ∧
      walk.finish = .ok .exhausted ∧ walk.batches.flatten = inOrder rank column table := by
  obtain ⟨walk, w', hrun, hstreamed⟩ :=
    chunksAfter_streamed h hsize hoffset hcompiles (fun _ => true) bound w
  have hplaces : ∀ i : Nat, ∀ row ∈ table,
      place rank column row ∈ (table.map (place rank column)).toFinset :=
    fun _ row hrow => List.mem_toFinset.mpr (List.mem_map_of_mem hrow)
  have hfew : (table.map (place rank column)).toFinset.card < bound := by
    have hlength := (table.map (place rank column)).toFinset_card_le
    rw [List.length_map] at hlength
    omega
  have hexhausted := hstreamed.exhausted (hstreamed.finished hplaces hfew) fun _ => rfl
  exact ⟨walk, w', hrun, hexhausted, hstreamed.flatten_eq (h.distinct 0) hexhausted⟩

end Evaluation

theorem isOrdered_of_head? {q : Query} {k : SortKey} (h : q.orders.head? = some k) :
    q.isOrdered = true := by
  obtain ⟨rest, hrest⟩ := List.head?_eq_some_iff.mp h
  unfold isOrdered
  rw [hrest]
  rfl

/-- The walk by pages and the walk behind a cursor deliver the same rows, namely all that the
condition admits, in their order. A limit of the query's own is of no account; an offset it must not
have. -/
theorem walks_agree (s : Session σ) (q : Query) (size : Nat) (column : String) (rank : Value → κ)
    (truth : Row → List Part → Truth) (rows : List Row) (hsize : 0 < size)
    (hordered : q.orders.head? = some ⟨.column column, some .asc⟩) (hoffset : q.offset.getD 0 = 0)
    (hcompiles : ∃ st, q.statement = .ok st)
    (hfilters : ∀ l ∈ q.filters, l.condition.IsGrouped q.dialect)
    (hscopes : ∀ c ∈ q.scopes, c.IsGrouped q.dialect)
    (h : Evaluated q s.world size column rank truth rows) {bound : Nat}
    (hbound : rows.length < bound) (w : σ) :
    ∃ condition walk t walk' t', q.condition q.dialect = .ok condition ∧
      (q.chunks s.recorded size (fun _ => true) bound).run (w, []) = (walk, t) ∧
      (q.chunksAfter s.recorded size column (fun _ => true) bound).run (w, []) = (walk', t') ∧
      walk.finish = .ok .exhausted ∧ walk'.finish = .ok .exhausted ∧
      walk.batches.flatten =
        inOrder rank column (rows.filter fun row => admits (truth row) condition) ∧
      walk'.batches.flatten = walk.batches.flatten := by
  obtain ⟨st, hst⟩ := hcompiles
  obtain ⟨f, hf, -⟩ := ok_of_map hst
  obtain ⟨condition, -, -, hcondition, -⟩ := q.condition_of_compile q.dialect hf
  have hunordered : ∃ st, q.unordered.statement = .ok st := by
    have hparts := exists_statement_iff.mp ⟨st, hst⟩
    exact exists_statement_iff.mpr { hparts with orders := ⟨[], rfl⟩ }
  have hlength : (rows.filter fun row => admits (truth row) condition).length < bound :=
    Nat.lt_of_le_of_lt (List.length_filter_le _ _) hbound
  have hpages : (inOrder rank column
      (rows.filter fun row => admits (truth row) condition)).length / size < bound := by
    rw [length_inOrder]
    exact Nat.lt_of_le_of_lt (Nat.div_le_self _ _) hlength
  have hshows := h.shows hordered hcondition
  obtain ⟨walk, w', sent, hrun, hchunked⟩ :=
    chunks_run (isOrdered_of_head? hordered) ⟨st, hst⟩ hshows hsize (fun _ => true) hpages w
  obtain ⟨walk', t', hrun', hexhausted', hflatten'⟩ := chunksAfter_run
    (h.live hfilters hscopes hcondition) hsize hoffset hunordered hlength (w, [])
  obtain ⟨hexhausted, hflatten, -⟩ := hchunked.exhausted fun _ => rfl
  exact ⟨condition, walk, (w', sent), walk', t', hcondition, hrun, hrun', hexhausted, hexhausted',
    hflatten, hflatten'.trans hflatten.symm⟩

/-! ### Users without an address or without a name -/

def member (id : Int64) (email name : Value) : Row :=
  .ofPairs [("id", .int64 id), ("email", email), ("name", name)]

def members : List Row :=
  [member 4 .null .null, member 1 .null (.text "ann"), member 2 (.text "bob@b") (.text "bob"),
    member 3 (.text "cyd@c") .null]

/-- The members of whom something is not known, one of them, after so many. -/
def unknownMembers (offset : Option Nat) : Query :=
  { (((on "users" .sqlite).filter (.isNull (.column "email") false)).orFilter
      (.isNull (.column "name") false)).ascending "id" with limit := some 1, offset }

def unknownMember : Fragment :=
  [.name "email", .text " IS NULL", .text " OR ", .name "name", .text " IS NULL"]

/-- Whether a row has no value in a column that is named. -/
def lacks (row : Row) : Part → Bool
  | .symbol (.name identifier) => (row.named? identifier).any Value.isNull
  | _ => false

def boundValue? : Part → Option Value
  | .symbol (.hole v) => some v
  | _ => none

/-- A bound value is compared with the key; all else asks for what is missing. -/
def memberTruth (row : Row) (operand : List Part) : Truth :=
  match operand.findSome? boundValue? with
  | some v => if keyRank v < place keyRank "id" row then .yes else .no
  | none => if operand.any (lacks row) then .yes else .no

/-- Answers with a window of the members behind the bound key of whom something is not known. -/
def memberSession : Session Unit :=
  (World.answering (fun st _ => windowed (windowOf st.sql).1 (windowOf st.sql).2
    (beyond keyRank "id" st.values.getLast?
      (members.filter fun row => admits (memberTruth row) (some unknownMember)))) id).session

theorem members_meaning (offset : Option Nat) :
    Meaning (unknownMembers offset) "id" keyRank memberTruth members where
  present := by
    have hpresent : ∀ row ∈ members, (row.named? (bareColumn "id")).isSome = true := by
      decide +kernel
    exact fun row hrow => Option.isSome_iff_exists.mp (hpresent row hrow)
  distinct := by decide +kernel
  compares := by decide +kernel
  grouping f hf := by
    cases hf
    show ∀ row ∈ members,
      unknownMember.parens.truth? (memberTruth row) = unknownMember.truth? (memberTruth row)
    decide +kernel

theorem unknownMembers_grouped (offset : Option Nat) :
    ∀ l ∈ (unknownMembers offset).filters, l.condition.IsGrouped .sqlite := by
  intro l hl
  rcases List.mem_cons.mp hl with rfl | hl
  · exact isGrouped_isNull .sqlite "email" false
  · obtain rfl := List.mem_singleton.mp hl
    exact isGrouped_isNull .sqlite "name" false

theorem members_key (row : Row) (h : row ∈ members) :
    ∃ id, row.named? (bareColumn "id") = some (.int64 id) := by
  have hbare : bareColumn "id" = "id" := by decide +kernel
  have hkeys : members.map (·.named? "id") = [4, 1, 2, 3].map fun id => some (.int64 id) := rfl
  obtain ⟨id, -, hid⟩ := List.mem_map.mp (hkeys ▸ List.mem_map_of_mem h)
  exact ⟨id, hbare ▸ hid.symm⟩

theorem members_evaluated (offset : Option Nat) :
    Evaluated (unknownMembers offset) memberSession.world 2 "id" keyRank memberTruth members where
  meaning := members_meaning offset
  answers p st w condition hasked _ hst hcondition := by
    show Except.ok (windowed (windowOf st.sql).1 (windowOf st.sql).2
      (beyond keyRank "id" st.values.getLast?
        (members.filter fun row => admits (memberTruth row) (some unknownMember)))) = _
    rw [statement_values hst]
    cases hasked with
    | window k n =>
      cases hcondition
      rw [windowOf_statement hst rfl]
      exact congrArg (Except.ok ∘ windowed _ _) (beyond_none _)
    | batch cursor hcursor =>
      cases cursor with
      | none =>
        cases hcondition
        rw [windowOf_statement hst rfl]
        exact congrArg (Except.ok ∘ windowed _ _) (beyond_none _)
      | some v =>
        obtain ⟨row, hrow, hnamed⟩ := hcursor v rfl
        obtain ⟨id, hid⟩ := members_key row hrow
        cases hnamed.symm.trans hid
        obtain ⟨narrowed, hnarrowed, hfilter⟩ := (members_meaning offset).exists_narrowed
          (unknownMembers_grouped offset) (fun c hc => absurd hc List.not_mem_nil) rfl 2
          ⟨row, hrow, hnamed⟩
        cases hnarrowed.symm.trans hcondition
        rw [windowOf_statement hst rfl, hfilter]
        rfl

theorem walks_agree_unknownMembers :
    0 < 2 ∧ (unknownMembers none).orders.head? = some ⟨.column "id", some .asc⟩ ∧
    (unknownMembers none).offset.getD 0 = 0 ∧
    (∃ st, (unknownMembers none).statement = .ok st) ∧
    (∀ l ∈ (unknownMembers none).filters, l.condition.IsGrouped .sqlite) ∧
    (∀ c ∈ (unknownMembers none).scopes, c.IsGrouped .sqlite) ∧
    Evaluated (unknownMembers none) memberSession.world 2 "id" keyRank memberTruth members ∧
    members.length < 5 ∧
    ∃ condition walk t walk' t', (unknownMembers none).condition .sqlite = .ok condition ∧
      ((unknownMembers none).chunks memberSession.recorded 2 (fun _ => true) 5).run ((), []) =
        (walk, t) ∧
      ((unknownMembers none).chunksAfter memberSession.recorded 2 "id" (fun _ => true) 5).run
        ((), []) = (walk', t') ∧
      walk.finish = .ok .exhausted ∧ walk'.finish = .ok .exhausted ∧
      walk.batches.flatten =
        inOrder keyRank "id" (members.filter fun row => admits (memberTruth row) condition) ∧
      walk'.batches.flatten = walk.batches.flatten := by
  have hcompiles : ∃ st, (unknownMembers none).statement = .ok st := ⟨_, rfl⟩
  have hscopes : ∀ c ∈ (unknownMembers none).scopes, c.IsGrouped .sqlite :=
    fun c hc => absurd hc List.not_mem_nil
  exact ⟨by decide, rfl, rfl, hcompiles, unknownMembers_grouped none, hscopes,
    members_evaluated none, by decide, walks_agree memberSession (unknownMembers none) 2 "id" keyRank
      memberTruth members (by decide) rfl rfl hcompiles (unknownMembers_grouped none) hscopes
      (members_evaluated none) (by decide) ()⟩

/-- How a walk ended, and the keys of what it delivered. -/
def Walk.keys (walk : Walk Row) : Option WalkEnd × List (List Int) :=
  (walk.finish.toOption, walk.batches.map (·.map (place keyRank "id")))

/-- Of the members 1, 3 and 4 the walk by pages delivers all, whatever the offset of the query; the
walk behind a cursor passes over one member on each batch. -/
theorem walks_differ :
    Evaluated (unknownMembers (some 1)) memberSession.world 2 "id" keyRank memberTruth members ∧
      (unknownMembers (some 1)).orders.head? = some ⟨.column "id", some .asc⟩ ∧
      (∃ st, (unknownMembers (some 1)).statement = .ok st) ∧
      (((unknownMembers (some 1)).chunks memberSession 2 (fun _ => true) 5).run ()).1.keys =
        (some .exhausted, [[1, 3], [4]]) ∧
      (((unknownMembers (some 1)).chunksAfter memberSession 2 "id" (fun _ => true) 5).run
        ()).1.keys = (some .exhausted, [[3, 4]]) :=
  ⟨members_evaluated (some 1), rfl, ⟨_, rfl⟩, by decide +kernel, by decide +kernel⟩

end Query

end RecordMapper
