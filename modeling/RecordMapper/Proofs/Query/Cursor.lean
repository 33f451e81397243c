import RecordMapper.Proofs.Query.Rows
import Mathlib.Data.Finset.Card
import Mathlib.Data.Finset.Dedup
import Mathlib.Data.List.Sort

/-!
Batches behind a cursor, while the table changes.

* `Query.LiveTable` is a database whose table is another one at every query; each batch is answered
  from the table of its moment.
* `IsBatch` says what one batch has: the rows behind the cursor, in their order, as far as it reaches.
* `Streamed` is what a walk keeps up from batch to batch; `chunksAfterFrom_streamed` is the induction.
* `chunksAfter_delivers`: no row is delivered twice, and a row that is there at every query is not
  missed.
-/
namespace RecordMapper.Query

set_option autoImplicit false

variable {σ κ : Type} [LinearOrder κ]

/-! ## Places of rows -/

/-- The value of the cursor column. -/
def cursorOf (column : String) (row : Row) : Value :=
  (row.named? (bareColumn column)).getD .null

/-- Where a row stands in the order of the cursor column. -/
def place (rank : Value → κ) (column : String) (row : Row) : κ := rank (cursorOf column row)

def inOrder (rank : Value → κ) (column : String) (rows : List Row) : List Row :=
  rows.insertionSort fun a b => place rank column a ≤ place rank column b

/-- Whether a place is behind the cursor. -/
def isBeyond (rank : Value → κ) (cursor : Option Value) (p : κ) : Bool :=
  cursor.all fun v => decide (rank v < p)

/-- The rows behind the cursor, in their order. -/
def beyond (rank : Value → κ) (column : String) (cursor : Option Value) (rows : List Row) :
    List Row :=
  inOrder rank column (rows.filter fun row => isBeyond rank cursor (place rank column row))

section Places

variable {rank : Value → κ} {column : String} {cursor : Option Value} {rows : List Row}

theorem mem_inOrder {row : Row} : row ∈ inOrder rank column rows ↔ row ∈ rows :=
  List.mem_insertionSort _

theorem length_inOrder : (inOrder rank column rows).length = rows.length :=
  List.length_insertionSort _ _

theorem pairwise_inOrder (h : rows.Pairwise fun a b => place rank column a ≠ place rank column b) :
    (inOrder rank column rows).Pairwise fun a b => place rank column a < place rank column b := by
  have hne : (inOrder rank column rows).Pairwise
      fun a b => place rank column a ≠ place rank column b :=
    ((List.perm_insertionSort _ rows).pairwise_iff fun hab => hab.symm).mpr h
  have htotal : Std.Total fun a b : Row => place rank column a ≤ place rank column b :=
    ⟨fun a b => le_total _ _⟩
  have htrans : IsTrans Row fun a b => place rank column a ≤ place rank column b :=
    ⟨fun a b c => le_trans⟩
  have hle := List.pairwise_insertionSort
    (fun a b : Row => place rank column a ≤ place rank column b) rows
  exact List.Pairwise.imp₂ (fun a b hab hne => lt_of_le_of_ne hab hne) hle hne

theorem isBeyond_some {v : Value} {p : κ} : isBeyond rank (some v) p = true ↔ rank v < p :=
  decide_eq_true_iff

theorem isBeyond_trans {p p' : κ} (h : isBeyond rank cursor p = true) (hlt : p < p') :
    isBeyond rank cursor p' = true := by
  cases cursor with
  | none => rfl
  | some v => exact isBeyond_some.mpr (lt_trans (isBeyond_some.mp h) hlt)

theorem mem_beyond {row : Row} : row ∈ beyond rank column cursor rows ↔
    row ∈ rows ∧ isBeyond rank cursor (place rank column row) = true := by
  unfold beyond
  rw [mem_inOrder, List.mem_filter]

end Places

/-! ## One batch -/

/-- A batch out of these rows that ends with the row `last`. -/
structure IsBatch (rank : Value → κ) (column : String) (cursor : Option Value) (size : Nat)
    (rows batch : List Row) (last : Row) : Prop where
  mem_last : last ∈ batch
  drawn : ∀ row ∈ batch, row ∈ rows
  beyond : ∀ row ∈ batch, isBeyond rank cursor (place rank column row) = true
  increasing : batch.Pairwise fun a b => place rank column a < place rank column b
  upTo : ∀ row ∈ batch, place rank column row ≤ place rank column last
  reached : ∀ row ∈ rows, isBeyond rank cursor (place rank column row) = true →
    batch.length < size ∨ place rank column row ≤ place rank column last → row ∈ batch

theorem isBatch_take {rank : Value → κ} {column : String} {cursor : Option Value} {size : Nat}
    {rows : List Row} {last : Row}
    (hdistinct : rows.Pairwise fun a b => place rank column a ≠ place rank column b)
    (hlast : ((beyond rank column cursor rows).take size).getLast? = some last) :
    IsBatch rank column cursor size rows ((beyond rank column cursor rows).take size) last := by
  have hincreasing : (beyond rank column cursor rows).Pairwise
      fun a b => place rank column a < place rank column b :=
    pairwise_inOrder (hdistinct.filter _)
  have htaken := hincreasing.sublist (List.take_sublist size _)
  have hmem := List.mem_of_getLast? hlast
  refine ⟨hmem, ?_, ?_, htaken, ?_, ?_⟩
  · exact fun row hrow => (mem_beyond.mp (List.mem_of_mem_take hrow)).1
  · exact fun row hrow => (mem_beyond.mp (List.mem_of_mem_take hrow)).2
  · intro row hrow
    obtain ⟨front, hfront⟩ := List.getLast?_eq_some_iff.mp hlast
    rw [hfront] at hrow htaken
    rcases List.mem_append.mp hrow with hrow | hrow
    · have hbefore := (List.pairwise_append.mp htaken).2.2 row hrow last (List.mem_singleton_self _)
      exact le_of_lt hbefore
    · rw [List.mem_singleton.mp hrow]
  · intro row hrow hbeyond hreached
    have hmember : row ∈ beyond rank column cursor rows := mem_beyond.mpr ⟨hrow, hbeyond⟩
    rcases hreached with hshort | hle
    · rw [List.length_take] at hshort
      rwa [List.take_of_length_le (by omega)]
    · rw [← List.take_append_drop size (Query.beyond rank column cursor rows)] at hmember hincreasing
      rcases List.mem_append.mp hmember with hrow | hrow
      · exact hrow
      · have hlt := (List.pairwise_append.mp hincreasing).2.2 last hmem row hrow
        exact absurd hle (not_le_of_gt hlt)

/-! ## Steps of a walk -/

section Steps

variable {s : Session σ} {q : Query} {size : Nat} {column : String} {cursor : Option Value}
  {batch : List Row} {row : Row} {v : Value} {w w' : σ}
  (goOn : List (List Row) → Bool) (bound : Nat) (delivered : List (List Row))

theorem chunksAfterFrom_empty (h : ((q.batchAfter size column cursor).rows s).run w = (.ok [], w')) :
    (q.chunksAfterFrom s size column goOn (bound + 1) cursor delivered).run w =
      (.ended .exhausted, w') := by
  have hrun : StateT.run ((q.batchAfter size column cursor).rows s).run w = (.ok [], w') := h
  rw [chunksAfterFrom, StateT.run_bind, hrun]
  rfl

/-- What follows a batch whose last row has a cursor: the receiver has enough, the batch was the last
one, or the walk goes on behind that row. -/
theorem chunksAfterFrom_batch
    (h : ((q.batchAfter size column cursor).rows s).run w = (.ok batch, w'))
    (hlast : batch.getLast? = some row) (hcursor : row.named? (bareColumn column) = some v) :
    (q.chunksAfterFrom s size column goOn (bound + 1) cursor delivered).run w =
      (if goOn (batch :: delivered) = false then (Walk.ended .stopped, w')
        else if batch.length < size then (Walk.ended .exhausted, w')
        else (q.chunksAfterFrom s size column goOn bound (some v) (batch :: delivered)).run w').map
          (Walk.after · batch) id := by
  have hrun : StateT.run ((q.batchAfter size column cursor).rows s).run w = (.ok batch, w') := h
  rw [chunksAfterFrom, StateT.run_bind, hrun]
  refine Eq.trans ?_ (after_batch_run ..)
  dsimp only [Bind.bind, StateT.bind]
  rw [hlast]
  dsimp only
  rw [hcursor]

end Steps

/-! ## Tables that change -/

/-- A database that at each query has the table of the moment which its clock shows. In each table
the rows that the query stands for have different places, and a query for the next batch is answered
with those behind its cursor. -/
structure LiveTable (q : Query) (world : World σ) (clock : σ → Nat) (size : Nat) (column : String)
    (rank : Value → κ) (tables : Nat → List Row) : Prop where
  counts : world.Counts clock
  present : ∀ i, ∀ row ∈ tables i, ∃ v, row.named? (bareColumn column) = some v
  distinct : ∀ i, (tables i).Pairwise fun a b => place rank column a ≠ place rank column b
  answers : ∀ cursor st w,
    (∀ v, cursor = some v → ∃ i, ∃ row ∈ tables i, row.named? (bareColumn column) = some v) →
    (q.batchAfter size column cursor).statement = .ok st →
    (world.query st w).1 =
      .ok (windowed (some size) q.offset (beyond rank column cursor (tables (clock w))))

/-- What is known of a walk that began behind `cursor` at the moment `start`, if the clock shows
`asked` at its end. -/
structure Streamed (tables : Nat → List Row) (column : String) (rank : Value → κ)
    (goOn : List (List Row) → Bool) (start : Nat) (cursor : Option Value)
    (delivered : List (List Row)) (bound : Nat) (walk : Walk Row) (asked : Nat) : Prop where
  ended : ∃ finish, walk.finish = .ok finish
  asked_le : start ≤ asked
  drawn : ∀ i batch, walk.batches[i]? = some batch → ∀ row ∈ batch, row ∈ tables (start + i)
  beyond : ∀ row ∈ walk.batches.flatten, isBeyond rank cursor (place rank column row) = true
  increasing : walk.batches.flatten.Pairwise fun a b => place rank column a < place rank column b
  /-- The walk stops with the batch after which the receiver wants no more. -/
  wanted : ∀ n, 0 < n → n ≤ walk.batches.length →
    (goOn ((walk.batches.take n).reverse ++ delivered) = false ↔
      walk.finish = .ok .stopped ∧ n = walk.batches.length)
  stopped : walk.finish = .ok .stopped → walk.batches ≠ [] ∧ asked = start + walk.batches.length
  /-- A place that was taken at every query was reached. -/
  complete : walk.finish = .ok .exhausted → ∀ p, isBeyond rank cursor p = true →
    (∀ i, start ≤ i → i < asked → ∃ row ∈ tables i, place rank column row = p) →
    ∃ row ∈ walk.batches.flatten, place rank column row = p
  /-- Each batch passes one of the places that there ever are. -/
  unfinished : walk.finish = .ok .unfinished → ∀ places : Finset κ,
    (∀ i, ∀ row ∈ tables i, place rank column row ∈ places) →
    bound ≤ (places.filter fun p => isBeyond rank cursor p = true).card

section Streams

variable {tables : Nat → List Row} {column : String} {rank : Value → κ}
  {goOn : List (List Row) → Bool} {start size bound : Nat} {cursor : Option Value}
  {delivered : List (List Row)} {batch : List Row} {last : Row} {v : Value}

theorem streamed_unfinished :
    Streamed tables column rank goOn start cursor delivered 0 (.ended .unfinished) start where
  ended := ⟨_, rfl⟩
  asked_le := Nat.le_refl start
  drawn i batch h := by simp [Walk.ended] at h
  beyond row h := absurd h List.not_mem_nil
  increasing := List.Pairwise.nil
  wanted n hn hle := absurd hle (Nat.not_le.mpr hn)
  stopped h := by cases h
  complete h := by cases h
  unfinished _ _ _ := Nat.zero_le _

/-- Behind the cursor there was no row. -/
theorem streamed_empty
    (h : ∀ row ∈ tables start, ¬ isBeyond rank cursor (place rank column row) = true) :
    Streamed tables column rank goOn start cursor delivered bound (.ended .exhausted) (start + 1) where
  ended := ⟨_, rfl⟩
  asked_le := Nat.le_succ start
  drawn i batch h := by simp [Walk.ended] at h
  beyond row h := absurd h List.not_mem_nil
  increasing := List.Pairwise.nil
  wanted n hn hle := absurd hle (Nat.not_le.mpr hn)
  stopped h := by cases h
  complete _ p hp hall := by
    obtain ⟨row, hrow, rfl⟩ := hall start (Nat.le_refl start) (Nat.lt_succ_self start)
    exact absurd hp (h row hrow)
  unfinished h := by cases h

/-- The walk ends with its first batch. -/
theorem streamed_single (h : IsBatch rank column cursor size (tables start) batch last)
    {finish : WalkEnd}
    (hfinish : finish = .stopped ∧ goOn (batch :: delivered) = false ∨
      finish = .exhausted ∧ goOn (batch :: delivered) = true ∧ batch.length < size) :
    Streamed tables column rank goOn start cursor delivered bound
      (Walk.after (.ended finish) batch) (start + 1) where
  ended := ⟨_, rfl⟩
  asked_le := Nat.le_succ start
  drawn i b hb := by
    obtain ⟨rfl, rfl⟩ : i = 0 ∧ b = batch := by
      cases i with
      | zero => exact ⟨rfl, (Option.some.inj hb).symm⟩
      | succ i => simp [Walk.after, Walk.ended] at hb
    exact h.drawn
  beyond := by simpa [Walk.after, Walk.ended] using h.beyond
  increasing := by simpa [Walk.after, Walk.ended] using h.increasing
  wanted n hn hle := by
    obtain rfl : n = 1 := Nat.le_antisymm hle hn
    show goOn (batch :: delivered) = false ↔ _
    rcases hfinish with ⟨rfl, hgo⟩ | ⟨rfl, hgo, -⟩
    · exact ⟨fun _ => ⟨rfl, rfl⟩, fun _ => hgo⟩
    · rw [hgo]
      exact ⟨(nomatch ·), fun h => nomatch h.1⟩
  stopped _ := ⟨List.cons_ne_nil _ _, rfl⟩
  complete hexhausted p hp hall := by
    rcases hfinish with ⟨rfl, -⟩ | ⟨-, -, hshort⟩
    · cases hexhausted
    · obtain ⟨row, hrow, rfl⟩ := hall start (Nat.le_refl start) (Nat.lt_succ_self start)
      have hmem := h.reached row hrow hp (.inl hshort)
      exact ⟨row, by simpa [Walk.after, Walk.ended] using hmem, rfl⟩
  unfinished hunfinished := by
    rcases hfinish with ⟨rfl, -⟩ | ⟨rfl, -⟩ <;> cases hunfinished

/-- A place behind the last row of a batch is behind the cursor of the batch. -/
theorem IsBatch.isBeyond_of_behind (h : IsBatch rank column cursor size (tables start) batch last)
    (hv : rank v = place rank column last) {p : κ} (hp : isBeyond rank (some v) p = true) :
    isBeyond rank cursor p = true :=
  isBeyond_trans (h.beyond last h.mem_last) (hv ▸ isBeyond_some.mp hp)

/-- The last row of a batch takes one of the places that there ever are. -/
theorem IsBatch.card_behind_lt (h : IsBatch rank column cursor size (tables start) batch last)
    (hv : rank v = place rank column last) {places : Finset κ}
    (hplaces : ∀ i, ∀ row ∈ tables i, place rank column row ∈ places) :
    (places.filter fun p => isBeyond rank (some v) p = true).card <
      (places.filter fun p => isBeyond rank cursor p = true).card := by
  have hsubset : (places.filter fun p => isBeyond rank (some v) p = true) ⊆
      places.filter fun p => isBeyond rank cursor p = true := by
    intro p hp
    rw [Finset.mem_filter] at hp ⊢
    exact ⟨hp.1, h.isBeyond_of_behind hv hp.2⟩
  refine Finset.card_lt_card ((Finset.ssubset_iff_of_subset hsubset).mpr
    ⟨place rank column last, ?_, ?_⟩)
  · exact Finset.mem_filter.mpr
      ⟨hplaces start last (h.drawn last h.mem_last), h.beyond last h.mem_last⟩
  · rw [Finset.mem_filter]
    exact fun hp => lt_irrefl _ (hv ▸ isBeyond_some.mp hp.2)

section After

variable {walk : Walk Row} {asked : Nat}

/-- What the receiver has after the first batch and `m` more. -/
theorem received_after (m : Nat) : ((walk.after batch).batches.take (m + 1)).reverse ++ delivered =
    (walk.batches.take m).reverse ++ batch :: delivered := by
  show (batch :: walk.batches.take m).reverse ++ delivered = _
  rw [List.reverse_cons, List.append_assoc]
  rfl

/-- The receiver wanted more after the first batch, so a walk that it stopped goes on behind it. -/
theorem Streamed.wanted_after
    (h : Streamed tables column rank goOn (start + 1) (some v) (batch :: delivered) bound walk asked)
    (hgo : goOn (batch :: delivered) = true) {n : Nat} (hn : 0 < n)
    (hle : n ≤ (walk.after batch).batches.length) :
    goOn (((walk.after batch).batches.take n).reverse ++ delivered) = false ↔
      (walk.after batch).finish = .ok .stopped ∧ n = (walk.after batch).batches.length := by
  obtain ⟨m, rfl⟩ := Nat.exists_eq_succ_of_ne_zero (Nat.ne_of_gt hn)
  have hlength : (walk.after batch).batches.length = walk.batches.length + 1 := rfl
  rw [received_after, hlength, Nat.succ_eq_add_one, Nat.add_right_cancel_iff]
  cases m with
  | zero =>
    show goOn (batch :: delivered) = false ↔ _
    rw [hgo]
    refine ⟨(nomatch ·), fun ⟨hstopped, hnone⟩ => ?_⟩
    exact absurd (List.eq_nil_of_length_eq_zero hnone.symm) (h.stopped hstopped).1
  | succ m => exact h.wanted (m + 1) (Nat.succ_pos m) (Nat.le_of_succ_le_succ hle)

/-- A place behind the cursor was reached by the first batch, or is behind its last row. -/
theorem Streamed.complete_after
    (h : Streamed tables column rank goOn (start + 1) (some v) (batch :: delivered) bound walk asked)
    (hbatch : IsBatch rank column cursor size (tables start) batch last)
    (hv : rank v = place rank column last) (hexhausted : walk.finish = .ok .exhausted) {p : κ}
    (hp : isBeyond rank cursor p = true)
    (hall : ∀ i, start ≤ i → i < asked → ∃ row ∈ tables i, place rank column row = p) :
    ∃ row ∈ batch ++ walk.batches.flatten, place rank column row = p := by
  by_cases hle : p ≤ place rank column last
  · obtain ⟨row, hrow, rfl⟩ := hall start (Nat.le_refl start) h.asked_le
    exact ⟨row, List.mem_append_left _ (hbatch.reached row hrow hp (.inr hle)), rfl⟩
  · have hbehind : isBeyond rank (some v) p = true := isBeyond_some.mpr (hv ▸ not_le.mp hle)
    obtain ⟨row, hrow, hplace⟩ := h.complete hexhausted p hbehind
      fun i hi => hall i (Nat.le_of_succ_le hi)
    exact ⟨row, List.mem_append_right _ hrow, hplace⟩

/-- One more batch in front of a walk that begins behind it. -/
theorem Streamed.after
    (h : Streamed tables column rank goOn (start + 1) (some v) (batch :: delivered) bound walk asked)
    (hbatch : IsBatch rank column cursor size (tables start) batch last)
    (hv : rank v = place rank column last) (hgo : goOn (batch :: delivered) = true) :
    Streamed tables column rank goOn start cursor delivered (bound + 1) (walk.after batch)
      asked where
  ended := h.ended
  asked_le := Nat.le_of_succ_le h.asked_le
  drawn i b hb := by
    cases i with
    | zero =>
      obtain rfl : batch = b := Option.some.inj hb
      exact hbatch.drawn
    | succ i =>
      have hdrawn := h.drawn i b hb
      rwa [Nat.add_right_comm] at hdrawn
  beyond row hrow := by
    rcases List.mem_append.mp hrow with hrow | hrow
    · exact hbatch.beyond row hrow
    · exact hbatch.isBeyond_of_behind hv (h.beyond row hrow)
  increasing := by
    refine List.pairwise_append.mpr ⟨hbatch.increasing, h.increasing, fun a ha b hb => ?_⟩
    exact lt_of_le_of_lt (hbatch.upTo a ha) (hv ▸ isBeyond_some.mp (h.beyond b hb))
  wanted _ hn hle := h.wanted_after hgo hn hle
  stopped hstopped := by
    refine ⟨List.cons_ne_nil _ _, ?_⟩
    rw [(h.stopped hstopped).2]
    show start + 1 + walk.batches.length = start + (walk.batches.length + 1)
    omega
  complete hexhausted _ hp hall := h.complete_after hbatch hv hexhausted hp hall
  unfinished hunfinished places hplaces :=
    Nat.lt_of_le_of_lt (h.unfinished hunfinished places hplaces) (hbatch.card_behind_lt hv hplaces)

end After

end Streams

/-! ## Runs of a walk -/

theorem exists_batchAfter {q : Query} (h : ∃ st, q.unordered.statement = .ok st) (size : Nat)
    (column : String) (cursor : Option Value) :
    ∃ st, (q.batchAfter size column cursor).statement = .ok st := by
  have hordered : (q.unordered.ascending column).CompilesIn q.dialect :=
    (exists_statement_iff.mp h).orderBy ⟨_, rfl⟩
  have htaken : ((q.unordered.ascending column).take size).CompilesIn q.dialect := { hordered with }
  cases cursor with
  | none => exact exists_statement_iff.mpr htaken
  | some v =>
    exact exists_statement_iff.mpr (htaken.scope (c := .compare (.column column) .gt v) ⟨_, rfl⟩)

section Runs

variable {s : Session σ} {q : Query} {clock : σ → Nat} {tables : Nat → List Row} {column : String}
  {rank : Value → κ} {size : Nat}

theorem batch_run (h : LiveTable q s.world clock size column rank tables)
    (hcompiles : ∃ st, q.unordered.statement = .ok st) (hoffset : q.offset.getD 0 = 0)
    {cursor : Option Value} (hcursor : ∀ v, cursor = some v →
      ∃ i, ∃ row ∈ tables i, row.named? (bareColumn column) = some v) (w : σ) :
    ∃ w', ((q.batchAfter size column cursor).rows s).run w =
        (.ok ((Query.beyond rank column cursor (tables (clock w))).take size), w') ∧
      clock w' = clock w + 1 := by
  obtain ⟨st, hst⟩ := exists_batchAfter hcompiles size column cursor
  have hrows := h.answers cursor st w hcursor hst
  rw [windowed_start hoffset] at hrows
  exact ⟨_, rows_run hst hrows, h.counts st w⟩

theorem chunksAfterFrom_streamed (h : LiveTable q s.world clock size column rank tables)
    (hcompiles : ∃ st, q.unordered.statement = .ok st) (hoffset : q.offset.getD 0 = 0)
    (hsize : 0 < size) (goOn : List (List Row) → Bool) (bound start : Nat) (cursor : Option Value)
    (delivered : List (List Row))
    (hcursor : ∀ v, cursor = some v →
      ∃ i, ∃ row ∈ tables i, row.named? (bareColumn column) = some v)
    (w : σ) (hw : clock w = start) :
    ∃ walk w', (q.chunksAfterFrom s size column goOn bound cursor delivered).run w = (walk, w') ∧
      Streamed tables column rank goOn start cursor delivered bound walk (clock w') := by
  -- By induction on the number of queries that are left; the rows up to the cursor are done.
  induction bound generalizing start cursor delivered w with
  | zero =>
    subst hw
    exact ⟨_, w, rfl, streamed_unfinished⟩
  | succ bound ih =>
    obtain ⟨w₁, hrun, hw₁⟩ := batch_run h hcompiles hoffset hcursor w
    rw [hw] at hrun hw₁
    cases hlast : ((Query.beyond rank column cursor (tables start)).take size).getLast? with
    | none =>
      have hnone := List.getLast?_eq_none_iff.mp hlast
      have hempty : Query.beyond rank column cursor (tables start) = [] :=
        (List.take_eq_nil_iff.mp hnone).resolve_left (Nat.ne_of_gt hsize)
      rw [hnone] at hrun
      refine ⟨_, w₁, chunksAfterFrom_empty goOn bound delivered hrun, ?_⟩
      rw [hw₁]
      refine streamed_empty fun row hrow hbeyond => ?_
      exact List.ne_nil_of_mem (mem_beyond.mpr ⟨hrow, hbeyond⟩) hempty
    | some last =>
      have hbatch := isBatch_take (h.distinct start) hlast
      have hdrawn := hbatch.drawn last hbatch.mem_last
      obtain ⟨v, hv⟩ := h.present start last hdrawn
      have hplace : rank v = place rank column last := by
        unfold place cursorOf
        rw [hv]
        rfl
      have hstep := chunksAfterFrom_batch goOn bound delivered hrun hlast hv
      generalize (Query.beyond rank column cursor (tables start)).take size = batch
        at hlast hbatch hstep
      cases hgo : goOn (batch :: delivered) with
      | false =>
        rw [if_pos hgo] at hstep
        refine ⟨_, w₁, hstep, ?_⟩
        rw [hw₁]
        exact streamed_single hbatch (.inl ⟨rfl, hgo⟩)
      | true =>
        rw [if_neg (by simp [hgo])] at hstep
        by_cases hshort : batch.length < size
        · rw [if_pos hshort] at hstep
          refine ⟨_, w₁, hstep, ?_⟩
          rw [hw₁]
          exact streamed_single hbatch (.inr ⟨rfl, hgo, hshort⟩)
        · obtain ⟨walk, w', hrest, hwalk⟩ := ih (start + 1) (some v) (batch :: delivered)
            (fun _ h => Option.some.inj h ▸ ⟨start, last, hdrawn, hv⟩) w₁ hw₁
          rw [if_neg hshort, hrest] at hstep
          exact ⟨_, w', hstep, hwalk.after hbatch hplace hgo⟩

end Runs

/-! ## All rows -/

/-- From some moment on no new place is taken. -/
def Settles (tables : Nat → List Row) (column : String) (rank : Value → κ) : Prop :=
  ∃ n, ∀ i, n ≤ i → ∀ row ∈ tables (i + 1), ∃ row' ∈ tables i,
    place rank column row' = place rank column row

theorem Settles.exists_places {tables : Nat → List Row} {column : String} {rank : Value → κ}
    (h : Settles tables column rank) :
    ∃ places : Finset κ, ∀ i, ∀ row ∈ tables i, place rank column row ∈ places := by
  obtain ⟨n, hn⟩ := h
  refine ⟨(((List.range (n + 1)).flatMap tables).map (place rank column)).toFinset, fun i => ?_⟩
  have hmem (i : Nat) (hi : i ≤ n) (row : Row) (hrow : row ∈ tables i) :
      place rank column row ∈
        (((List.range (n + 1)).flatMap tables).map (place rank column)).toFinset := by
    have hrange : i ∈ List.range (n + 1) := List.mem_range.mpr (Nat.lt_succ_of_le hi)
    exact List.mem_toFinset.mpr (List.mem_map_of_mem (List.mem_flatMap.mpr ⟨i, hrange, hrow⟩))
  induction i with
  | zero => exact hmem 0 (Nat.zero_le n)
  | succ i ih =>
    intro row hrow
    rcases Nat.lt_or_ge i n with hi | hi
    · exact hmem (i + 1) hi row hrow
    · obtain ⟨row', hrow', hplace⟩ := hn i hi row hrow
      rw [← hplace]
      exact ih row' hrow'

theorem Streamed.not_stopped {tables : Nat → List Row} {column : String} {rank : Value → κ}
    {goOn : List (List Row) → Bool} {start bound asked : Nat} {cursor : Option Value}
    {delivered : List (List Row)} {walk : Walk Row}
    (h : Streamed tables column rank goOn start cursor delivered bound walk asked)
    (hgo : ∀ history, goOn history = true) : walk.finish ≠ .ok .stopped := by
  intro hstopped
  have hlength := List.length_pos_of_ne_nil (h.stopped hstopped).1
  have hlast := (h.wanted _ hlength (Nat.le_refl _)).mpr ⟨hstopped, rfl⟩
  rw [hgo] at hlast
  cases hlast

theorem Streamed.exhausted {tables : Nat → List Row} {column : String} {rank : Value → κ}
    {goOn : List (List Row) → Bool} {start bound asked : Nat} {cursor : Option Value}
    {delivered : List (List Row)} {walk : Walk Row}
    (h : Streamed tables column rank goOn start cursor delivered bound walk asked)
    (hfinished : walk.finish ≠ .ok .unfinished) (hgo : ∀ history, goOn history = true) :
    walk.finish = .ok .exhausted := by
  obtain ⟨finish, hfinish⟩ := h.ended
  cases finish with
  | exhausted => exact hfinish
  | stopped => exact absurd hfinish (h.not_stopped hgo)
  | unfinished => exact absurd hfinish hfinished

/-- A walk comes to an end if it may ask more often than there are places. -/
theorem Streamed.finished {tables : Nat → List Row} {column : String} {rank : Value → κ}
    {goOn : List (List Row) → Bool} {start bound asked : Nat} {delivered : List (List Row)}
    {walk : Walk Row} (h : Streamed tables column rank goOn start none delivered bound walk asked)
    {places : Finset κ} (hplaces : ∀ i, ∀ row ∈ tables i, place rank column row ∈ places)
    (hbound : places.card < bound) : walk.finish ≠ .ok .unfinished := by
  intro hunfinished
  have hfew := h.unfinished hunfinished places hplaces
  have hall := Finset.card_filter_le places fun p => isBeyond rank none p = true
  omega

theorem chunksAfter_streamed {s : Session σ} {q : Query} {clock : σ → Nat} {size : Nat}
    {column : String} {rank : Value → κ} {tables : Nat → List Row}
    (h : LiveTable q s.world clock size column rank tables) (hsize : 0 < size)
    (hoffset : q.offset.getD 0 = 0) (hcompiles : ∃ st, q.unordered.statement = .ok st)
    (goOn : List (List Row) → Bool) (bound : Nat) (w : σ) :
    ∃ walk w', (q.chunksAfter s size column goOn bound).run w = (walk, w') ∧
      Streamed tables column rank goOn (clock w) none [] bound walk (clock w') := by
  unfold chunksAfter
  rw [if_neg (Nat.ne_of_gt hsize)]
  exact chunksAfterFrom_streamed h hcompiles hoffset hsize goOn bound _ none []
    (fun v hv => nomatch hv) w rfl

/-- While a table changes, a walk behind a cursor delivers rows whose places strictly increase. If
there are only so many insertions, it comes to an end, and unless the receiver stops it, each place
that was taken at every query was reached. -/
theorem chunksAfter_delivers (s : Session σ) (q : Query) (clock : σ → Nat) (size : Nat)
    (column : String) (rank : Value → κ) (tables : Nat → List Row) (hsize : 0 < size)
    (hoffset : q.offset = none) (hcompiles : ∃ st, q.unordered.statement = .ok st)
    (h : LiveTable q s.world clock size column rank tables) :
    (∀ goOn bound w, ∃ walk w', (q.chunksAfter s size column goOn bound).run w = (walk, w') ∧
      Streamed tables column rank goOn (clock w) none [] bound walk (clock w')) ∧
    (Settles tables column rank → ∃ enough, ∀ goOn bound w, enough ≤ bound → ∃ walk w',
      (q.chunksAfter s size column goOn bound).run w = (walk, w') ∧
      walk.finish ≠ .ok .unfinished ∧
      ((∀ history, goOn history = true) → walk.finish = .ok .exhausted ∧
        ∀ p, (∀ i, clock w ≤ i → i < clock w' → ∃ row ∈ tables i, place rank column row = p) →
          ∃ row ∈ walk.batches.flatten, place rank column row = p)) := by
  have hzero : q.offset.getD 0 = 0 := by rw [hoffset]; rfl
  have hwalk := chunksAfter_streamed h hsize hzero hcompiles
  refine ⟨hwalk, fun hsettles => ?_⟩
  obtain ⟨places, hplaces⟩ := hsettles.exists_places
  refine ⟨places.card + 1, fun goOn bound w hbound => ?_⟩
  obtain ⟨walk, w', hrun, hstreamed⟩ := hwalk goOn bound w
  have hfinished := hstreamed.finished hplaces hbound
  refine ⟨walk, w', hrun, hfinished, fun hgo => ?_⟩
  have hexhausted := hstreamed.exhausted hfinished hgo
  exact ⟨hexhausted, fun p hp => hstreamed.complete hexhausted p rfl hp⟩

/-! ### Users who come and go -/

/-- The third user goes, others come in front of the cursor and behind it, and the second goes. -/
def changingIds : Nat → List Int64
  | 0 => [1, 2, 3, 4]
  | 1 => [5, 4, 2, 0]
  | _ => [0, 4, 5]

def changingUsers (i : Nat) : List Row := (changingIds i).map userRow

/-- The order of keys. -/
def keyRank : Value → Int
  | .int64 n => n.toInt
  | _ => 0

/-- Answers with two users behind the bound key. -/
def changingSession : Session Nat :=
  (World.answering (fun st i => (beyond keyRank "id" st.values.getLast? (changingUsers i)).take 2)
    (· + 1)).session

theorem place_userRow (id : Int64) : place keyRank "id" (userRow id) = id.toInt := by
  unfold place cursorOf
  rw [named_userRow]
  rfl

theorem changing_live :
    LiveTable (on "users" .sqlite) changingSession.world id 2 "id" keyRank changingUsers where
  counts _ _ := rfl
  present i row hrow := by
    obtain ⟨id, -, rfl⟩ := List.mem_map.mp hrow
    exact ⟨_, named_userRow id⟩
  distinct i := by
    have hids : (changingIds i).Pairwise fun a b => a.toInt ≠ b.toInt := by
      have hlast : ([0, 4, 5] : List Int64).Pairwise fun a b => a.toInt ≠ b.toInt := by decide
      match i with
      | 0 => decide
      | 1 => decide
      | _ + 2 => exact hlast
    unfold changingUsers
    rw [List.pairwise_map]
    simpa only [place_userRow] using hids
  answers cursor st w hcursor hst := by
    cases cursor with
    | none =>
      cases hst
      rfl
    | some v =>
      obtain ⟨i, row, hrow, hv⟩ := hcursor v rfl
      obtain ⟨id, -, rfl⟩ := List.mem_map.mp hrow
      cases hv.symm.trans (named_userRow id)
      obtain ⟨f, hf, rfl⟩ := ok_of_map hst
      cases hf
      rfl

theorem changing_settles : Settles changingUsers "id" keyRank := by
  refine ⟨1, fun i hi row hrow => ⟨row, ?_, rfl⟩⟩
  have hids : changingIds (i + 1) ⊆ changingIds i := by
    match i with
    | 1 => decide
    | _ + 2 => exact List.Subset.refl _
  exact List.map_subset userRow hids hrow

theorem chunksAfter_delivers_changingUsers :
    0 < 2 ∧ (on "users" .sqlite).offset = none ∧
    (∃ st, (on "users" .sqlite).unordered.statement = .ok st) ∧
    LiveTable (on "users" .sqlite) changingSession.world id 2 "id" keyRank changingUsers ∧
    Settles changingUsers "id" keyRank ∧
    ∃ enough, ∀ bound, enough ≤ bound → ∃ walk w',
      ((on "users" .sqlite).chunksAfter changingSession 2 "id" (fun _ => true) bound).run 0 =
        (walk, w') ∧
      walk.finish = .ok .exhausted ∧
      ∀ p, (∀ i, 0 ≤ i → i < w' → ∃ row ∈ changingUsers i, place keyRank "id" row = p) →
        ∃ row ∈ walk.batches.flatten, place keyRank "id" row = p := by
  have hcompiles : ∃ st, (on "users" .sqlite).unordered.statement = .ok st := ⟨_, rfl⟩
  obtain ⟨-, hall⟩ := chunksAfter_delivers changingSession (on "users" .sqlite) id 2 "id" keyRank
    changingUsers (by decide) rfl hcompiles changing_live
  obtain ⟨enough, henough⟩ := hall changing_settles
  refine ⟨by decide, rfl, hcompiles, changing_live, changing_settles, enough, fun bound hbound => ?_⟩
  obtain ⟨walk, w', hrun, -, hdone⟩ := henough (fun _ => true) bound 0 hbound
  exact ⟨walk, w', hrun, hdone fun _ => rfl⟩

end RecordMapper.Query
