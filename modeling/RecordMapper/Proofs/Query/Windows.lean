import RecordMapper.Proofs.Query.Rows
import Mathlib.Data.List.Basic

/-!
Pages and batches of a result that does not change.

* `slices` cuts a list into slices of one size.
* `Query.Yields` is a database that shows a list of rows through windows and counts them.
* `chunksFrom_slices`: a walk through batches delivers one slice after the other. `Delivers` keeps
  account of where it is and why it ends.
* `pages_partition`: the pages and the batches of an ordered query are the rows, cut into slices.
-/
namespace RecordMapper

set_option autoImplicit false

variable {σ α : Type}

/-! ## Slices -/

/-- The items of one slice; slices are counted from zero. -/
def slice (size i : Nat) (items : List α) : List α := (items.drop (i * size)).take size

/-- The first so many slices. -/
def slices (size : Nat) (items : List α) (count : Nat) : List (List α) :=
  (List.range count).map fun i => slice size i items

theorem slices_succ (size : Nat) (items : List α) (n : Nat) :
    slices size items (n + 1) = slices size items n ++ [slice size n items] := by
  unfold slices
  rw [List.range_succ, List.map_append]
  rfl

theorem length_slices (size : Nat) (items : List α) (n : Nat) :
    (slices size items n).length = n := by
  unfold slices
  rw [List.length_map, List.length_range]

theorem eq_slice_of_getElem? {size n i : Nat} {items batch : List α}
    (h : (slices size items n)[i]? = some batch) : batch = slice size i items := by
  unfold slices at h
  rw [List.getElem?_map, Option.map_eq_some_iff] at h
  obtain ⟨j, hj, rfl⟩ := h
  obtain ⟨hi, rfl⟩ := List.getElem?_eq_some_iff.mp hj
  rw [List.getElem_range]

theorem flatten_slices (size : Nat) (items : List α) (n : Nat) :
    (slices size items n).flatten = items.take (n * size) := by
  induction n with
  | zero => simp [slices]
  | succ n ih =>
    rw [slices_succ, List.flatten_append, ih, Nat.succ_mul, List.take_add]
    simp [slice]

theorem length_slice (size i : Nat) (items : List α) :
    (slice size i items).length = min size (items.length - i * size) := by
  unfold slice
  rw [List.length_take, List.length_drop]

theorem slice_eq_nil {size i : Nat} {items : List α} (h : items.length ≤ i * size) :
    slice size i items = [] := by
  unfold slice
  rw [List.drop_eq_nil_of_le h, List.take_nil]

theorem slice_ne_nil {size i : Nat} {items : List α} (hsize : 0 < size)
    (h : i * size < items.length) : slice size i items ≠ [] := by
  refine List.ne_nil_of_length_pos ?_
  rw [length_slice]
  omega

theorem length_slice_of_le {size i : Nat} {items : List α} (h : (i + 1) * size ≤ items.length) :
    (slice size i items).length = size := by
  rw [length_slice, Nat.min_eq_left]
  rw [Nat.succ_mul] at h
  omega

namespace Query

/-- A database in which the rows of a query are these: every window shows its part of them. -/
def Shows (q : Query) (world : World σ) (rows : List Row) : Prop :=
  ∀ k n st w, ((q.skip k).take n).statement = .ok st →
    (world.query st w).1 = .ok ((rows.drop k).take n)

/-- A database that shows the rows of a query and counts them. -/
structure Yields (q : Query) (world : World σ) (rows : List Row) : Prop where
  window : q.Shows world rows
  count : ∀ st w, q.counting = .ok st → ∃ found, (world.query st w).1 = .ok found ∧
    countOf (aggregateValue found) = .ok rows.length

/-! ## Steps of a walk -/

section Steps

variable {s : Session σ} {q : Query} {size number : Nat} {batch : List Row} {w w' : σ}
  (goOn : List (List Row) → Bool) (bound : Nat) (delivered : List (List Row))

theorem chunksFrom_empty (h : ((q.page number size).rows s).run w = (.ok [], w')) :
    (q.chunksFrom s size goOn (bound + 1) number delivered).run w = (.ended .exhausted, w') := by
  have hrun : StateT.run ((q.page number size).rows s).run w = (.ok [], w') := h
  rw [chunksFrom, StateT.run_bind, hrun]
  rfl

/-- What follows a batch: the receiver has enough, the batch was the last one, or the walk goes on
with the next page. -/
theorem chunksFrom_batch (h : ((q.page number size).rows s).run w = (.ok batch, w'))
    (hne : batch ≠ []) :
    (q.chunksFrom s size goOn (bound + 1) number delivered).run w =
      (if goOn (batch :: delivered) = false then (Walk.ended .stopped, w')
        else if batch.length < size then (Walk.ended .exhausted, w')
        else (q.chunksFrom s size goOn bound (number + 1) (batch :: delivered)).run w').map
          (Walk.after · batch) id := by
  obtain ⟨row, rest, rfl⟩ := List.exists_cons_of_ne_nil hne
  have hrun : StateT.run ((q.page number size).rows s).run w = (.ok (row :: rest), w') := h
  rw [chunksFrom, StateT.run_bind, hrun]
  exact after_batch_run ..

end Steps

/-! ## Runs of a walk -/

/-- How a walk can end that began with the slice `start` and delivered all slices before `n`, if it
has asked `asked` times in all. -/
def Ends (rows : List Row) (size : Nat) (goOn : List (List Row) → Bool) (bound start n asked : Nat) :
    WalkEnd → Prop
  | .stopped => start < n ∧ goOn (slices size rows n).reverse = false ∧ asked = n
  | .exhausted => (start < n → goOn (slices size rows n).reverse = true) ∧
      rows.length ≤ n * size ∧ asked = rows.length / size + 1
  | .unfinished => n = start + bound ∧ n * size ≤ rows.length

/-- A walk that begins with the slice `start` and delivers all slices before `n`. -/
structure Delivers (rows : List Row) (size : Nat) (goOn : List (List Row) → Bool)
    (bound start : Nat) (walk : Walk Row) (asked n : Nat) : Prop where
  start_le : start ≤ n
  batches : slices size rows n = slices size rows start ++ walk.batches
  inside : ∀ i, start ≤ i → i < n → i * size < rows.length
  wanted : ∀ i, start < i → i < n → goOn (slices size rows i).reverse = true
  ends : ∃ finish, walk.finish = .ok finish ∧ Ends rows size goOn bound start n asked finish

section Runs

variable {s : Session σ} {q : Query} {rows : List Row} {clock : σ → Nat} {size bound start : Nat}
  {goOn : List (List Row) → Bool}

theorem Delivers.nothing {finish : WalkEnd} {asked : Nat}
    (hends : Ends rows size goOn bound start start asked finish) :
    Delivers rows size goOn bound start (.ended finish) asked start where
  start_le := Nat.le_refl start
  batches := (List.append_nil _).symm
  inside _ hstart hi := absurd hi (Nat.not_lt.mpr hstart)
  wanted _ hstart hi := absurd hi (Nat.not_lt.mpr (Nat.le_of_lt hstart))
  ends := ⟨finish, rfl, hends⟩

/-- One more slice in front of a walk. -/
theorem Delivers.after {walk : Walk Row} {asked n : Nat}
    (h : Delivers rows size goOn bound (start + 1) walk asked n)
    (hinside : start * size < rows.length)
    (hwanted : goOn (slices size rows (start + 1)).reverse = true) :
    Delivers rows size goOn (bound + 1) start (walk.after (slice size start rows)) asked n := by
  have hlast : start < n → n = start + 1 ∨ start + 1 < n := by omega
  refine ⟨Nat.le_of_succ_le h.start_le, ?_, ?_, ?_, ?_⟩
  · rw [h.batches, slices_succ, List.append_assoc]
    rfl
  · intro i hstart hi
    rcases Nat.eq_or_lt_of_le hstart with rfl | hstart
    · exact hinside
    · exact h.inside i hstart hi
  · intro i hstart hi
    rcases Nat.eq_or_lt_of_le (Nat.succ_le_of_lt hstart) with rfl | hstart
    · exact hwanted
    · exact h.wanted i hstart hi
  · obtain ⟨finish, hfinish, hends⟩ := h.ends
    refine ⟨finish, hfinish, ?_⟩
    cases finish with
    | stopped => exact ⟨h.start_le, hends.2⟩
    | exhausted =>
      refine ⟨fun hn => ?_, hends.2⟩
      rcases hlast hn with rfl | hn
      · exact hwanted
      · exact hends.1 hn
    | unfinished => exact ⟨by rw [hends.1]; omega, hends.2⟩

/-- The walk that ends behind its first slice. -/
theorem Delivers.single {finish : WalkEnd} {asked : Nat} (hinside : start * size < rows.length)
    (hends : Ends rows size goOn bound start (start + 1) asked finish) :
    Delivers rows size goOn bound start (Walk.after (.ended finish) (slice size start rows)) asked
      (start + 1) := by
  refine ⟨Nat.le_succ start, slices_succ size rows start, ?_, ?_, finish, rfl, hends⟩
  · intro i hstart hi
    obtain rfl : i = start := by omega
    exact hinside
  · intro i hstart hi
    omega

theorem page_run (h : q.Shows s.world rows) (hcompiles : ∃ st, q.statement = .ok st)
    (hclock : s.world.Counts clock) (i size : Nat) (w : σ) :
    ∃ w', ((q.page (i + 1) size).rows s).run w = (.ok (slice size i rows), w') ∧
      clock w' = clock w + 1 := by
  obtain ⟨st, hst⟩ := exists_statement_congr (q.unlimited_page (i + 1) size) hcompiles
  have hrows := h _ _ st w hst
  rw [Nat.max_eq_left (Nat.le_add_left 1 i), Nat.add_sub_cancel] at hrows
  exact ⟨_, rows_run hst hrows, hclock st w⟩

/-- A walk delivers one slice after the other. -/
theorem chunksFrom_slices (h : q.Shows s.world rows) (hcompiles : ∃ st, q.statement = .ok st)
    (hclock : s.world.Counts clock) (hsize : 0 < size) (goOn : List (List Row) → Bool)
    (bound start : Nat) (w : σ) (hw : clock w = start) (hstart : start * size ≤ rows.length) :
    ∃ walk w' n, (q.chunksFrom s size goOn bound (start + 1) (slices size rows start).reverse).run w =
        (walk, w') ∧ Delivers rows size goOn bound start walk (clock w') n := by
  -- By induction on the number of queries that are left; the slices before `start` were full.
  induction bound generalizing start w with
  | zero => exact ⟨_, w, start, rfl, .nothing ⟨rfl, hstart⟩⟩
  | succ bound ih =>
    obtain ⟨w₁, hrun, hw₁⟩ := page_run h hcompiles hclock start size w
    rw [hw] at hw₁
    have hnext : (start + 1) * size = start * size + size := Nat.succ_mul start size
    have hasked (hall : rows.length < (start + 1) * size) :
        clock w₁ = rows.length / size + 1 := by
      rw [hw₁, Nat.div_eq_of_lt_le hstart hall]
    by_cases hinside : start * size < rows.length
    · have hlength := length_slice size start rows
      have hbatch := chunksFrom_batch goOn bound (slices size rows start).reverse hrun
        (slice_ne_nil hsize hinside)
      rw [← List.reverse_concat, ← slices_succ] at hbatch
      cases hgo : goOn (slices size rows (start + 1)).reverse with
      | false =>
        rw [if_pos hgo] at hbatch
        exact ⟨_, w₁, _, hbatch, .single hinside ⟨Nat.lt_succ_self start, hgo, hw₁⟩⟩
      | true =>
        rw [if_neg (by simp [hgo])] at hbatch
        by_cases hshort : (slice size start rows).length < size
        · rw [if_pos hshort] at hbatch
          exact ⟨_, w₁, _, hbatch, .single hinside ⟨fun _ => hgo, by omega, hasked (by omega)⟩⟩
        · obtain ⟨walk, w', n, hrest, hwalk⟩ := ih (start + 1) w₁ hw₁ (by omega)
          rw [if_neg hshort, hrest] at hbatch
          exact ⟨_, w', n, hbatch, hwalk.after hinside hgo⟩
    · rw [slice_eq_nil (Nat.not_lt.mp hinside)] at hrun
      have hempty := chunksFrom_empty goOn bound (slices size rows start).reverse hrun
      exact ⟨_, w₁, start, hempty, .nothing ⟨fun hn => absurd hn (Nat.lt_irrefl start),
        Nat.not_lt.mp hinside, hasked (by omega)⟩⟩

end Runs

/-! ## Batches -/

/-- A walk through all of these rows. `goOn` is asked after each batch. -/
structure Chunked (rows : List Row) (size : Nat) (goOn : List (List Row) → Bool)
    (walk : Walk Row) (asked : Nat) : Prop where
  sliced : walk.batches = slices size rows walk.batches.length
  nonempty : ∀ batch ∈ walk.batches, batch ≠ []
  full : ∀ i batch, walk.batches[i]? = some batch → (i + 1) * size ≤ rows.length →
    batch.length = size
  /-- If the receiver always wants more, it gets all rows. -/
  exhausted : (∀ n, goOn (slices size rows (n + 1)).reverse = true) →
    walk.finish = .ok .exhausted ∧ walk.batches.flatten = rows ∧ asked = rows.length / size + 1
  /-- With the slice after which the receiver first wants no more the walk ends. -/
  stopped : ∀ n, n * size < rows.length →
    (∀ i, i < n → goOn (slices size rows (i + 1)).reverse = true) →
    goOn (slices size rows (n + 1)).reverse = false →
    walk.finish = .ok .stopped ∧ walk.batches.length = n + 1 ∧ asked = n + 1
  /-- Nothing else ends it before all rows are delivered. -/
  whole : walk.finish = .ok .stopped ∨ walk.finish = .ok .exhausted ∧ walk.batches.flatten = rows

section Chunks

variable {rows : List Row} {size bound asked n : Nat} {goOn : List (List Row) → Bool}
  {walk : Walk Row}

theorem Delivers.batches_eq (h : Delivers rows size goOn bound 0 walk asked n) :
    walk.batches = slices size rows n :=
  h.batches.symm

/-- With enough queries a walk is not broken off. -/
theorem Delivers.finished (h : Delivers rows size goOn bound 0 walk asked n) (hsize : 0 < size)
    (hbound : rows.length / size < bound) :
    (walk.finish = .ok .stopped ∧ Ends rows size goOn bound 0 n asked .stopped) ∨
      (walk.finish = .ok .exhausted ∧ Ends rows size goOn bound 0 n asked .exhausted) := by
  obtain ⟨finish, hfinish, hends⟩ := h.ends
  cases finish with
  | stopped => exact .inl ⟨hfinish, hends⟩
  | exhausted => exact .inr ⟨hfinish, hends⟩
  | unfinished =>
    obtain ⟨rfl, hall⟩ := hends
    rw [Nat.zero_add] at hall
    exact absurd ((Nat.le_div_iff_mul_le hsize).mpr hall) (Nat.not_le.mpr hbound)

theorem Delivers.chunked (h : Delivers rows size goOn bound 0 walk asked n) (hsize : 0 < size)
    (hbound : rows.length / size < bound) : Chunked rows size goOn walk asked := by
  have hbatches := h.batches_eq
  have hlength : walk.batches.length = n := by rw [hbatches, length_slices]
  have hflatten (hall : rows.length ≤ n * size) : walk.batches.flatten = rows := by
    rw [hbatches, flatten_slices, List.take_of_length_le hall]
  refine ⟨by rw [hlength, hbatches], ?_, ?_, fun hgo => ?_, fun k hk hgo hstop => ?_, ?_⟩
  · intro batch hbatch
    rw [hbatches] at hbatch
    obtain ⟨i, hi, rfl⟩ := List.mem_map.mp hbatch
    exact slice_ne_nil hsize (h.inside i (Nat.zero_le i) (List.mem_range.mp hi))
  · intro i batch hi hle
    rw [hbatches] at hi
    rw [eq_slice_of_getElem? hi, length_slice_of_le hle]
  · rcases h.finished hsize hbound with ⟨-, hn, hstop, -⟩ | ⟨hfinish, -, hall, hasked⟩
    · obtain ⟨m, rfl⟩ := Nat.exists_eq_succ_of_ne_zero (Nat.ne_of_gt hn)
      rw [hgo m] at hstop
      cases hstop
    · exact ⟨hfinish, hflatten hall, hasked⟩
  · have hbefore : n ≤ k + 1 := by
      refine Nat.not_lt.mp fun hn => ?_
      have hwanted := h.wanted (k + 1) (Nat.succ_pos k) hn
      rw [hstop] at hwanted
      cases hwanted
    rcases h.finished hsize hbound with ⟨hfinish, hn, hlast, hasked⟩ | ⟨-, hlast, hall, -⟩
    · obtain ⟨m, rfl⟩ := Nat.exists_eq_succ_of_ne_zero (Nat.ne_of_gt hn)
      rcases Nat.eq_or_lt_of_le (Nat.le_of_succ_le_succ hbefore) with rfl | hm
      · exact ⟨hfinish, hlength, hasked⟩
      · rw [hgo m hm] at hlast
        cases hlast
    · have hn : k < n := Nat.lt_of_mul_lt_mul_right (Nat.lt_of_lt_of_le hk hall)
      obtain rfl : n = k + 1 := Nat.le_antisymm hbefore hn
      rw [hstop] at hlast
      cases hlast (Nat.succ_pos k)
  · rcases h.finished hsize hbound with ⟨hfinish, -⟩ | ⟨hfinish, -, hall, -⟩
    · exact .inl hfinish
    · exact .inr ⟨hfinish, hflatten hall⟩

end Chunks

/-! ## Pages -/

/-- The pages of these rows, by the numbers under which they are asked for. -/
structure Paged (rows : List Row) (perPage : Nat) (pages : Nat → Page Row) : Prop where
  total : ∀ n, (pages n).total = rows.length ∧ (pages n).totalPages = (pages 1).totalPages
  whole : ((List.range (pages 1).totalPages).map fun i => (pages (i + 1)).items).flatten = rows
  full : ∀ n, 1 ≤ n → n < (pages 1).totalPages → (pages n).items.length = perPage
  next : ∀ n, (pages n).hasNext = decide (max n 1 * perPage < rows.length)
  previous : ∀ n, (pages n).hasPrevious = decide (1 < n)
  zeroth : pages 0 = pages 1
  later : ∀ n, (pages 1).totalPages < n → (pages n).items = []
  empty : rows = [] → (pages 1).totalPages = 0

section Pages

variable {rows : List Row} {perPage : Nat}

def pageOf (rows : List Row) (perPage n : Nat) : Page Row :=
  ⟨slice perPage (max n 1 - 1) rows, max n 1, perPage, rows.length⟩

theorem totalPages_pageOf (h : 0 < perPage) (n : Nat) :
    (pageOf rows perPage n).totalPages = (rows.length + perPage - 1) / perPage :=
  if_neg (Nat.ne_of_gt h)

/-- A page is before the last one exactly if it does not reach the end. -/
theorem lt_totalPages_iff (h : 0 < perPage) (n i : Nat) :
    i < (pageOf rows perPage n).totalPages ↔ i * perPage < rows.length := by
  rw [totalPages_pageOf h, ← Nat.succ_le_iff, Nat.le_div_iff_mul_le h, Nat.succ_mul]
  omega

theorem le_mul_totalPages (h : 0 < perPage) (n : Nat) :
    rows.length ≤ (pageOf rows perPage n).totalPages * perPage :=
  Nat.not_lt.mp fun hlt => Nat.lt_irrefl _ ((lt_totalPages_iff h n _).mpr hlt)

theorem paged_pageOf (h : 0 < perPage) : Paged rows perPage (pageOf rows perPage) where
  total n := ⟨rfl, by rw [totalPages_pageOf h, totalPages_pageOf h]⟩
  whole := by
    have hitems : (fun i => (pageOf rows perPage (i + 1)).items) =
        fun i => slice perPage i rows := by
      funext i
      show slice perPage (max (i + 1) 1 - 1) rows = _
      rw [Nat.max_eq_left (Nat.le_add_left 1 i), Nat.add_sub_cancel]
    rw [hitems]
    exact (flatten_slices _ _ _).trans (List.take_of_length_le (le_mul_totalPages h 1))
  full n hn hlast := by
    have hinside := (lt_totalPages_iff h 1 n).mp hlast
    refine length_slice_of_le (Nat.le_of_lt ?_)
    rwa [Nat.max_eq_left hn, Nat.sub_add_cancel hn]
  next n := decide_eq_decide.mpr (lt_totalPages_iff h n (max n 1))
  previous n := decide_eq_decide.mpr (by show 1 < max n 1 ↔ 1 < n; omega)
  zeroth := rfl
  later n hn := by
    have hbehind : (pageOf rows perPage 1).totalPages ≤ max n 1 - 1 := by omega
    exact slice_eq_nil (Nat.le_trans (le_mul_totalPages h 1) (Nat.mul_le_mul_right perPage hbehind))
  empty hempty := by
    refine Nat.eq_zero_of_not_pos fun hpos => ?_
    have hinside := (lt_totalPages_iff h 1 0).mp hpos
    rw [hempty] at hinside
    exact absurd hinside (Nat.not_lt_zero _)

theorem paginate_run {s : Session σ} {q : Query} {clock : σ → Nat} (h : q.Yields s.world rows)
    (hcompiles : ∃ st, q.statement = .ok st) (hclock : s.world.Counts clock) (hpage : 0 < perPage)
    (n : Nat) (w : σ) :
    ∃ w', (q.paginate s n perPage).run w = (.ok (pageOf rows perPage n), w') ∧
      clock w' = clock w + if rows = [] then 1 else 2 := by
  obtain ⟨st, hst⟩ := exists_counting (exists_statement_iff.mp hcompiles)
  obtain ⟨found, hfound, hcount⟩ := h.count st w hst
  have hcounted := count_run hst hfound hcount
  have hw := hclock st w
  generalize (s.world.query st w).2 = w₁ at hcounted hw
  unfold paginate
  rw [if_neg (Nat.ne_of_gt hpage)]
  show ∃ w', (q.count s >>= _).run w = _ ∧ _
  rw [Action.run_bind_ok hcounted]
  by_cases hrows : rows = []
  · subst hrows
    refine ⟨w₁, ?_, by rw [if_pos rfl, hw]⟩
    show _ = (Except.ok (pageOf [] perPage n), w₁)
    unfold pageOf
    rw [slice_eq_nil (Nat.zero_le _)]
    rfl
  · have htotal : rows.length ≠ 0 := fun hlength => hrows (List.eq_nil_of_length_eq_zero hlength)
    obtain ⟨i, hi⟩ : ∃ i, max n 1 = i + 1 := ⟨max n 1 - 1, by omega⟩
    obtain ⟨w', hrun, hw'⟩ := page_run h.window hcompiles hclock i perPage w₁
    rw [if_neg htotal, if_neg hrows]
    unfold pageOf
    rw [hi, Action.run_bind_ok hrun]
    exact ⟨w', rfl, by rw [hw', hw]⟩

end Pages

theorem Shows.recorded {s : Session σ} {q : Query} {rows : List Row} (h : q.Shows s.world rows) :
    q.Shows s.recorded.world rows :=
  fun k n st t => h k n st t.1

theorem Yields.recorded {s : Session σ} {q : Query} {rows : List Row} (h : q.Yields s.world rows) :
    q.Yields s.recorded.world rows :=
  ⟨h.window.recorded, fun st t => h.count st t.1⟩

theorem chunks_run {s : Session σ} {q : Query} {rows : List Row} {size : Nat}
    (hordered : q.isOrdered = true) (hcompiles : ∃ st, q.statement = .ok st)
    (h : q.Shows s.world rows) (hsize : 0 < size) (goOn : List (List Row) → Bool) {bound : Nat}
    (hbound : rows.length / size < bound) (w : σ) :
    ∃ walk w' sent, (q.chunks s.recorded size goOn bound).run (w, []) = (walk, (w', sent)) ∧
      Chunked rows size goOn walk sent.length := by
  obtain ⟨walk, ⟨w', sent⟩, n, hrun, hwalk⟩ := chunksFrom_slices h.recorded hcompiles
    s.counts_recorded hsize goOn bound 0 (w, []) rfl (by simp)
  refine ⟨walk, w', sent, ?_, hwalk.chunked hsize hbound⟩
  unfold chunks
  rw [if_neg (Nat.ne_of_gt hsize), hordered]
  exact hrun

/-- The pages and the batches of an ordered query whose rows do not change are its rows, cut into
slices. -/
theorem pages_partition (s : Session σ) (q : Query) (rows : List Row) (size : Nat)
    (hordered : q.isOrdered = true) (hcompiles : ∃ st, q.statement = .ok st)
    (h : q.Yields s.world rows) (hsize : 0 < size) :
    (∃ pages, Paged rows size pages ∧ ∀ n w, ∃ w' sent,
      (q.paginate s.recorded n size).run (w, []) = (.ok (pages n), (w', sent)) ∧
      sent.length = if rows = [] then 1 else 2) ∧
    ∀ goOn bound w, rows.length / size < bound → ∃ walk w' sent,
      (q.chunks s.recorded size goOn bound).run (w, []) = (walk, (w', sent)) ∧
      Chunked rows size goOn walk sent.length := by
  refine ⟨⟨pageOf rows size, paged_pageOf hsize, fun n w => ?_⟩, fun goOn bound w hbound =>
    chunks_run hordered hcompiles h.window hsize goOn hbound w⟩
  obtain ⟨⟨w', sent⟩, hrun, hsent⟩ :=
    paginate_run h.recorded hcompiles s.counts_recorded hsize n (w, [])
  exact ⟨w', sent, hrun, hsent.trans (Nat.zero_add _)⟩

/-! ### Users in the order of their keys -/

def listedUsers : Query := (on "users" .sqlite).ascending "id"

def userRows (ids : List Int64) : List Row := ids.map userRow

/-- Users in pages, and their number where no page is asked for. -/
def listedAnswer (rows : List Row) (st : Statement) : List Row :=
  match windowOf st.sql with
  | (some n, k) => windowed (some n) k rows
  | (none, _) => [.ofPairs [("aggregate", .int64 (Int64.ofNat rows.length))]]

def listedSession (rows : List Row) : Session Unit :=
  (World.answering (fun st _ => listedAnswer rows st) id).session

theorem listed_yields (ids : List Int64)
    (h : countOf (.int64 (Int64.ofNat (userRows ids).length)) = .ok (userRows ids).length) :
    listedUsers.Yields (listedSession (userRows ids)).world (userRows ids) where
  window k n st w hst := by
    show Except.ok (listedAnswer (userRows ids) st) = _
    unfold listedAnswer
    rw [windowOf_statement hst rfl]
    rfl
  count st w hst := by
    have hwindow : windowOf "SELECT COUNT(*) AS \"aggregate\" FROM \"users\"" = (none, none) := by
      decide +kernel
    cases hst
    refine ⟨_, rfl, ?_⟩
    show countOf (aggregateValue (listedAnswer (userRows ids)
      ⟨"SELECT COUNT(*) AS \"aggregate\" FROM \"users\"", []⟩)) = _
    unfold listedAnswer
    rw [hwindow]
    exact h

theorem pages_partition_listedUsers :
    listedUsers.isOrdered = true ∧ (∃ st, listedUsers.statement = .ok st) ∧
    listedUsers.Yields (listedSession (userRows [1, 2, 3, 4, 5])).world (userRows [1, 2, 3, 4, 5]) ∧
    0 < 2 ∧
    (∃ pages, Paged (userRows [1, 2, 3, 4, 5]) 2 pages ∧ ∀ n w, ∃ w' sent,
      (listedUsers.paginate (listedSession (userRows [1, 2, 3, 4, 5])).recorded n 2).run (w, []) =
        (.ok (pages n), (w', sent)) ∧ sent.length = 2) ∧
    ∀ goOn, ∃ walk w' sent,
      (listedUsers.chunks (listedSession (userRows [1, 2, 3, 4, 5])).recorded 2 goOn 3).run ((), []) =
        (walk, (w', sent)) ∧ Chunked (userRows [1, 2, 3, 4, 5]) 2 goOn walk sent.length := by
  have hcompiles : ∃ st, listedUsers.statement = .ok st := ⟨_, rfl⟩
  have hyields := listed_yields [1, 2, 3, 4, 5] rfl
  obtain ⟨hpages, hchunks⟩ := pages_partition _ listedUsers _ 2 rfl hcompiles hyields (by decide)
  exact ⟨rfl, hcompiles, hyields, by decide, hpages, fun goOn => hchunks goOn 3 () (by decide)⟩

end Query

end RecordMapper
