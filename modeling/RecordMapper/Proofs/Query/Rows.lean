import RecordMapper.Proofs.Query.Compiling
import RecordMapper.Proofs.Session.Recorded
import RecordMapper.Proofs.Statement.Written
import RecordMapper.Proofs.Text
import RecordMapper.Query.Fetch

/-!
What a database shows of the rows of a query.

* `rows_run` and its like run a query whose statement is known; `after_batch_run` goes on after a
  batch.
* `windowed` are the rows that a limit and an offset leave.
* `windowOf` reads the window off a text that ends with it (`windowOf_statement`).
* `World.Counts` says that a clock counts the queries of a world. The length of the record is such a
  clock in a recorded session (`counts_recorded`).
* `World.answering` is a world that answers every query with rows.
-/
namespace RecordMapper

set_option autoImplicit false

open RecordMapper.Text

variable {σ : Type}

/-! ## Running a query -/

section

variable {s : Session σ} {q : Query} {st : Statement} {w : σ}

theorem rows_run {rows : List Row} (hst : q.statement = .ok st)
    (hrows : (s.world.query st w).1 = .ok rows) :
    (q.rows s).run w = (.ok rows, (s.world.query st w).2) := by
  unfold Query.rows
  rw [hst]
  exact Prod.ext hrows rfl

theorem rows_run_error {f : Fault} (hst : q.statement = .error f) :
    (q.rows s).run w = (.error (.fault f), w) := by
  unfold Query.rows
  rw [hst]
  rfl

theorem count_run {rows : List Row} {n : Nat} (hst : q.counting = .ok st)
    (hrows : (s.world.query st w).1 = .ok rows)
    (hcount : Query.countOf (Query.aggregateValue rows) = .ok n) :
    (q.count s).run w = (.ok n, (s.world.query st w).2) := by
  unfold Query.count
  rw [hst]
  have hquery : (s.query st).run w = (.ok rows, (s.world.query st w).2) := Prod.ext hrows rfl
  refine (Action.run_bind_ok hquery).trans ?_
  rw [hcount]
  rfl

/-- What follows a batch: the receiver has enough, the batch was the last, or the walk goes on. -/
theorem after_batch_run (batch : List Row) (size : Nat) (goes : Bool)
    (next : StateM σ (Query.Walk Row)) (w : σ) :
    StateT.run (do
      let rest ←
        if !goes then pure (.ended .stopped)
        else if batch.length < size then pure (.ended .exhausted)
        else next
      return rest.after batch) w =
      (if goes = false then (Query.Walk.ended .stopped, w)
        else if batch.length < size then (Query.Walk.ended .exhausted, w)
        else next.run w).map (Query.Walk.after · batch) id := by
  cases goes with
  | false => rfl
  | true =>
    by_cases hshort : batch.length < size
    · simp only [Bool.not_true, if_neg Bool.false_ne_true, Bool.true_eq_false, if_false,
        if_pos hshort]
      rfl
    · simp only [Bool.not_true, if_neg Bool.false_ne_true, Bool.true_eq_false, if_false,
        if_neg hshort]
      rfl

end

/-! ## Windows -/

/-- The rows that are left when some are passed over and at most so many are taken. -/
def windowed {α : Type} (limit offset : Option Nat) (rows : List α) : List α :=
  match limit with
  | some n => (rows.drop (offset.getD 0)).take n
  | none => rows.drop (offset.getD 0)

theorem windowed_start {α : Type} {offset : Option Nat} (h : offset.getD 0 = 0) (n : Nat)
    (rows : List α) : windowed (some n) offset rows = rows.take n := by
  unfold windowed
  rw [h, List.drop_zero]

/-! ### Windows of a text -/

/-- The limit and the offset that a text ends with. -/
def windowOf (sql : String) : Option Nat × Option Nat :=
  match (fields ' ' sql).reverse with
  | k :: "OFFSET" :: n :: "LIMIT" :: _ => (some (numeral n), some (numeral k))
  | n :: "LIMIT" :: _ => (some (numeral n), none)
  | _ => (none, none)

/-- A word and a number at the end of a text. -/
theorem fields_clause (word front : String) (n : Nat) (h : ' ' ∉ word.toList) :
    fields ' ' (front ++ " " ++ (word ++ " " ++ ofNat n)) =
      fields ' ' front ++ [word, ofNat n] := by
  rw [fields_concat _ String.toList_append, fields_append _ String.toList_append h,
    fields_of_notMem (blank_notMem_ofNat n)]

theorem windowOf_limit (front : String) (n : Nat) :
    windowOf (front ++ (" LIMIT " ++ ofNat n)) = (some n, none) := by
  have hfields := fields_clause "LIMIT" front n (by decide)
  have htext : front ++ (" LIMIT " ++ ofNat n) = front ++ " " ++ ("LIMIT" ++ " " ++ ofNat n) := by
    simp only [String.append_assoc]
    rfl
  unfold windowOf
  rw [htext, hfields, List.reverse_append]
  simp

theorem windowOf_limit_offset (front : String) (n k : Nat) :
    windowOf (front ++ (" LIMIT " ++ ofNat n ++ " OFFSET " ++ ofNat k)) = (some n, some k) := by
  have hlimit := fields_clause "LIMIT" front n (by decide)
  have hoffset := fields_clause "OFFSET" (front ++ " " ++ ("LIMIT" ++ " " ++ ofNat n)) k (by decide)
  have htext : front ++ (" LIMIT " ++ ofNat n ++ " OFFSET " ++ ofNat k) =
      front ++ " " ++ ("LIMIT" ++ " " ++ ofNat n) ++ " " ++ ("OFFSET" ++ " " ++ ofNat k) := by
    simp only [String.append_assoc]
    rfl
  rw [hlimit] at hoffset
  unfold windowOf
  rw [htext, hoffset, List.reverse_append]
  simp

theorem windowOf_statement {q : Query} {st : Statement} {n : Nat} (h : q.statement = .ok st)
    (hlimit : q.limit = some n) : windowOf st.sql = (some n, q.offset) := by
  obtain ⟨g, hg, rfl⟩ := ok_of_map h
  rw [Query.compile_unlimited, hlimit] at hg
  obtain ⟨f, -, rfl⟩ := ok_of_map hg
  show windowOf (Fragment.write _ _ _) = _
  rw [Fragment.write_append]
  cases q.offset with
  | none =>
    simp only [window, Fragment.text, Fragment.write_text, Fragment.write_nil, String.append_empty]
    exact windowOf_limit _ n
  | some k =>
    simp only [window, Fragment.text, Fragment.write_text, Fragment.write_nil, String.append_empty]
    exact windowOf_limit_offset _ n k

/-! ## Clocks -/

def World.Counts (world : World σ) (clock : σ → Nat) : Prop :=
  ∀ st w, clock (world.query st w).2 = clock w + 1

theorem Session.counts_recorded (s : Session σ) :
    s.recorded.world.Counts fun t => t.2.length :=
  fun _ _ => List.length_append

/-! ## Worlds that answer -/

/-- A database whose state goes on with every query and gives the answers. -/
def World.answering (answer : Statement → σ → List Row) (next : σ → σ) : World σ where
  query st w := (.ok (answer st w), next w)
  execute _ w := (.ok ⟨0, none⟩, w)
  connect w := (.ok (), w)
  disconnect w := (.ok (), w)
  now w := (⟨0, ⟨0, 0⟩⟩, w)
  freshUuid w := (⟨0⟩, w)

/-- A session that knows no tables. -/
def World.session (world : World σ) : Session σ :=
  ⟨world, .sqlite, ⟨[]⟩, .empty, .none, .standard, 0⟩

/-! ### Users -/

def userRow (id : Int64) : Row := .ofPairs [("id", .int64 id)]

theorem named_userRow (id : Int64) :
    (userRow id).named? (Query.bareColumn "id") = some (.int64 id) := by
  have hbare : Query.bareColumn "id" = "id" := by decide +kernel
  rw [hbare]
  rfl

end RecordMapper
