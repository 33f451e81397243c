import RecordMapper.Proofs.Query.Windows

/-!
Queries that cannot be compiled.

* `Action.Settled` says that what an action asks of the database can be compiled: a compilation
  failure is then the database's own answer. `Action.Refuses` says that any other such failure comes
  before all that is sent.
* `Query.Helper` is what can be done with a query in a session, and `Query.perform` does it.
* `refusal_sends_nothing`: a query that cannot be compiled is refused before anything is sent. Where
  the rows of a page are counted first, this is known only if the columns and the order can be
  compiled, which the count leaves out (`page_refused_late`).
-/
namespace RecordMapper

set_option autoImplicit false

variable {σ α β : Type}

/-! ## Refusing and asking -/

/-- Whether the last exchange was stopped by this failure. -/
def Answered (sent : List Exchange) (f : Fault) : Prop :=
  ∃ e, sent.getLast? = some e ∧ e.stop = some (.fault f)

namespace Action

/-- A compilation failure of the action is the answer of the database. -/
def Settled (a : Action (σ × List Exchange) α) : Prop :=
  ∀ t t' f, a.run t = (.error (.fault f), t') → f.isCompilation = true → Answered t'.2 f

/-- Where the action fails to compile, it sends nothing, or the failure is the answer of the
database. -/
def Refuses (a : Action (σ × List Exchange) α) : Prop :=
  ∀ t t' f, a.run t = (.error (.fault f), t') → f.isCompilation = true → t' = t ∨ Answered t'.2 f

theorem settled_pure (a : α) : (pure a : Action (σ × List Exchange) α).Settled := by
  intro t t' f hrun
  cases hrun

theorem settled_ofResult {r : Result α} (h : ∀ f, r = .error f → f.isCompilation = false) :
    (ofResult r : Action (σ × List Exchange) α).Settled := by
  intro t t' f hrun hf
  cases r with
  | ok a => cases hrun
  | error e =>
    cases hrun
    rw [h f rfl] at hf
    cases hf

theorem refuses_ofResult (r : Result α) : (ofResult r : Action (σ × List Exchange) α).Refuses := by
  intro t t' f hrun _
  cases r with
  | ok a => cases hrun
  | error e =>
    cases hrun
    exact .inl rfl

theorem Settled.bind {a : Action (σ × List Exchange) β} {g : β → Action (σ × List Exchange) α}
    (ha : a.Settled) (hg : ∀ b, (g b).Settled) : (a >>= g).Settled := by
  intro t t' f hrun hf
  rcases error_of_run_bind hrun with hfirst | ⟨b, t₁, -, hnext⟩
  · exact ha t t' f hfirst hf
  · exact hg b t₁ t' f hnext hf

/-- What refuses first and then asks only what can be compiled refuses as a whole. -/
theorem Refuses.bind {a : Action (σ × List Exchange) β} {g : β → Action (σ × List Exchange) α}
    (ha : a.Refuses) (hg : ∀ b t t', a.run t = (.ok b, t') → (g b).Settled) :
    (a >>= g).Refuses := by
  intro t t' f hrun hf
  rcases error_of_run_bind hrun with hfirst | ⟨b, t₁, hfirst, hnext⟩
  · exact ha t t' f hfirst hf
  · exact .inr (hg b t t₁ hfirst t₁ t' f hnext hf)

end Action

namespace Session

variable (s : Session σ) (st : Statement)

theorem settled_query : (s.recorded.query st).Settled := by
  intro t t' f hrun _
  rw [run_query_recorded, Prod.mk.injEq] at hrun
  obtain ⟨hstop, rfl⟩ := hrun
  refine ⟨_, List.getLast?_concat, ?_⟩
  rw [hstop]
  rfl

theorem settled_execute : (s.recorded.execute st).Settled := by
  intro t t' f hrun _
  rw [run_execute_recorded, Prod.mk.injEq] at hrun
  obtain ⟨hstop, rfl⟩ := hrun
  refine ⟨_, List.getLast?_concat, ?_⟩
  rw [hstop]
  rfl

end Session

/-- A value that is no number is a failure of types. -/
theorem toUInt64_isCompilation {v : Value} {f : Fault} (h : v.toUInt64 = .error f) :
    f.isCompilation = false := by
  unfold Value.toUInt64 at h
  split at h
  · next hn =>
    cases h
    unfold Value.toInt64 at hn
    split at hn
    · cases hn
    · split at hn
      · cases hn
      · cases hn
        rfl
  · split at h
    · cases h
      rfl
    · cases h

namespace Query

open RecordMapper.Action

/-! ## What can be done with a query -/

inductive Helper where
  | rows
  | first
  | find (id : Value)
  | anyRow
  | pluck (column : String)
  | count
  | sum (column : String)
  | average (column : String)
  | least (column : String)
  | greatest (column : String)
  | page (number perPage : Nat)
  | chunks (size : Nat) (goOn : List (List Row) → Bool) (bound : Nat)
  | insert (row : Attributes)
  | insertMany (rows : List Attributes)
  | update (assignments : Attributes)
  | delete
  | upsert (rows : List Attributes) (uniqueBy update : List String)

def Helper.isPage : Helper → Bool
  | .page _ _ => true
  | _ => false

/-- The walk through batches, as an action. -/
def walkThrough (s : Session σ) (q : Query) (size : Nat) (goOn : List (List Row) → Bool)
    (bound : Nat) : Action σ Unit :=
  ExceptT.mk do
    let walk ← q.chunks s size goOn bound
    return walk.finish.map fun _ => ()

/-- Does what a helper does; the result is of no account. -/
def perform (s : Session σ) (q : Query) : Helper → Action σ Unit
  | .rows => do let _ ← q.rows s
  | .first => do let _ ← q.first? s
  | .find id => do let _ ← q.find? s id
  | .anyRow => do let _ ← q.anyRow s
  | .pluck column => do let _ ← q.pluck s column
  | .count => do let _ ← q.count s
  | .sum column => do let _ ← q.sum s column
  | .average column => do let _ ← q.average? s column
  | .least column => do let _ ← q.least s column
  | .greatest column => do let _ ← q.greatest s column
  | .page number perPage => do let _ ← q.paginate s number perPage
  | .chunks size goOn bound => q.walkThrough s size goOn bound
  | .insert row => do let _ ← q.insert s row
  | .insertMany rows => do let _ ← q.insertMany s rows
  | .update assignments => do let _ ← q.update s assignments
  | .delete => do let _ ← q.delete s
  | .upsert rows uniqueBy update => do let _ ← q.upsert s rows uniqueBy update

section Helpers

variable (s : Session σ) (q : Query)

theorem rows_refuses : (q.rows s.recorded).Refuses :=
  (refuses_ofResult q.statement).bind fun st _ _ _ => s.settled_query st

theorem rows_settled (h : ∃ st, q.statement = .ok st) : (q.rows s.recorded).Settled := by
  obtain ⟨st, hst⟩ := h
  refine (settled_ofResult fun f hf => ?_).bind fun st => s.settled_query st
  rw [hst] at hf
  cases hf

theorem first_refuses : (q.first? s.recorded).Refuses :=
  ((q.take 1).rows_refuses s).bind fun _ _ _ _ => settled_pure _

theorem aggregate_refuses (function : Aggregate) (column : String) :
    (q.aggregate s.recorded function column).Refuses :=
  (rows_refuses s _).bind fun _ _ _ _ => settled_pure _

theorem count_refuses : (q.count s.recorded).Refuses := by
  refine (refuses_ofResult q.counting).bind fun st _ _ _ => (s.settled_query st).bind fun found => ?_
  refine settled_ofResult fun f hf => ?_
  unfold countOf at hf
  split at hf
  · cases hf
  · exact toUInt64_isCompilation hf

theorem counting_of_count {t t' : σ × List Exchange} {n : Nat}
    (h : (q.count s.recorded).run t = (.ok n, t')) : ∃ st, q.counting = .ok st := by
  obtain ⟨st, t₁, hst, -⟩ := ok_of_run_bind h
  exact ⟨st, ok_of_ofResult hst⟩

/-- A page is refused before it is counted if the count leaves out nothing that cannot be compiled. -/
theorem paginate_refuses (number perPage : Nat) (h : q.CountsAll) :
    (q.paginate s.recorded number perPage).Refuses := by
  unfold paginate
  split
  · exact refuses_ofResult (.error _)
  · refine (q.count_refuses s).bind fun total t t' htotal => ?_
    obtain ⟨st, hst⟩ := q.counting_of_count s htotal
    have hcompiles := exists_statement_iff.mpr (h.compilesIn hst)
    split
    · exact settled_pure _
    · have hpage := exists_statement_congr (q.unlimited_page (max number 1) perPage) hcompiles
      exact (rows_settled s _ hpage).bind fun _ => settled_pure _

theorem affecting_refuses (st : Result Statement) : (affecting s.recorded st).Refuses :=
  (refuses_ofResult st).bind fun st _ _ _ =>
    (s.settled_execute st).bind fun _ => settled_pure _

/-! ### Batches -/

theorem chunksFrom_error {size number : Nat} {e : Halt} {t t' : σ × List Exchange}
    (goOn : List (List Row) → Bool) (bound : Nat) (delivered : List (List Row))
    (h : ((q.page number size).rows s.recorded).run t = (.error e, t')) :
    (q.chunksFrom s.recorded size goOn (bound + 1) number delivered).run t = (.halted e, t') := by
  have hrun : StateT.run ((q.page number size).rows s.recorded).run t = (.error e, t') := h
  rw [chunksFrom, StateT.run_bind, hrun]
  rfl

/-- If a query can be compiled, so can all its pages. -/
theorem chunksFrom_answered (h : ∃ st, q.statement = .ok st) {size : Nat}
    (goOn : List (List Row) → Bool) (bound number : Nat) (delivered : List (List Row))
    {t t' : σ × List Exchange} {walk : Walk Row} {f : Fault}
    (hrun : (q.chunksFrom s.recorded size goOn bound number delivered).run t = (walk, t'))
    (hfinish : walk.finish = .error (.fault f)) (hf : f.isCompilation = true) :
    Answered t'.2 f := by
  induction bound generalizing number delivered t walk with
  | zero =>
    cases hrun
    cases hfinish
  | succ bound ih =>
    have hpage := exists_statement_congr (q.unlimited_page number size) h
    rcases hasked : ((q.page number size).rows s.recorded).run t with ⟨e | batch, t₁⟩
    · rw [q.chunksFrom_error s goOn bound delivered hasked] at hrun
      cases hrun
      cases hfinish
      exact rows_settled s _ hpage t t' f hasked hf
    · by_cases hempty : batch = []
      · rw [hempty] at hasked
        rw [chunksFrom_empty goOn bound delivered hasked] at hrun
        cases hrun
        cases hfinish
      · rw [chunksFrom_batch goOn bound delivered hasked hempty] at hrun
        split at hrun
        · cases hrun
          cases hfinish
        · split at hrun
          · cases hrun
            cases hfinish
          · cases hrun
            exact ih (number + 1) (batch :: delivered) rfl hfinish

/-- A query that cannot be compiled is refused on the first page. -/
theorem chunks_refuses {size : Nat} (goOn : List (List Row) → Bool) (bound : Nat)
    {t t' : σ × List Exchange} {walk : Walk Row} {f : Fault}
    (hrun : (q.chunks s.recorded size goOn bound).run t = (walk, t'))
    (hfinish : walk.finish = .error (.fault f)) (hf : f.isCompilation = true) :
    t' = t ∨ Answered t'.2 f := by
  unfold chunks at hrun
  split at hrun
  · cases hrun
    exact .inl rfl
  · split at hrun
    · cases hrun
      exact .inl rfl
    · cases hst : q.statement with
      | ok st => exact .inr (q.chunksFrom_answered s ⟨st, hst⟩ goOn bound 1 [] hrun hfinish hf)
      | error e =>
        cases bound with
        | zero =>
          cases hrun
          cases hfinish
        | succ bound =>
          have hpage := statement_error_congr (q.unlimited_page 1 size) hst
          have hrefused : ((q.page 1 size).rows s.recorded).run t = (.error (.fault e), t) :=
            rows_run_error hpage
          rw [q.chunksFrom_error s goOn bound [] hrefused] at hrun
          cases hrun
          exact .inl rfl

theorem walkThrough_refuses (size : Nat) (goOn : List (List Row) → Bool) (bound : Nat) :
    (q.walkThrough s.recorded size goOn bound).Refuses := by
  intro t t' f hrun hf
  rcases hwalk : (q.chunks s.recorded size goOn bound).run t with ⟨walk, t₁⟩
  have hthrough : (q.walkThrough s.recorded size goOn bound).run t =
      (walk.finish.map fun _ => (), t₁) :=
    congrArg (fun r : Walk Row × σ × List Exchange => (r.1.finish.map fun _ => (), r.2)) hwalk
  rw [hthrough, Prod.mk.injEq] at hrun
  obtain ⟨hfinish, rfl⟩ := hrun
  exact q.chunks_refuses s goOn bound hwalk (error_of_map hfinish) hf

theorem perform_refuses (helper : Helper) (h : helper.isPage = true → q.CountsAll) :
    (q.perform s.recorded helper).Refuses := by
  have hresult {α : Type} {a : Action (σ × List Exchange) α} (ha : a.Refuses) :
      (do let _ ← a : Action (σ × List Exchange) Unit).Refuses :=
    ha.bind fun _ _ _ _ => settled_pure ()
  cases helper with
  | rows => exact hresult (q.rows_refuses s)
  | first => exact hresult (q.first_refuses s)
  | find id => exact hresult ((q.filterEq q.key id).first_refuses s)
  | anyRow => exact hresult ((rows_refuses s _).bind fun _ _ _ _ => settled_pure _)
  | pluck column => exact hresult ((rows_refuses s _).bind fun _ _ _ _ => settled_pure _)
  | count => exact hresult (q.count_refuses s)
  | sum column =>
    exact hresult ((q.aggregate_refuses s .sum column).bind fun _ _ _ _ => settled_pure _)
  | average column =>
    exact hresult ((q.aggregate_refuses s .avg column).bind fun _ _ _ _ => settled_pure _)
  | least column => exact hresult (q.aggregate_refuses s .min column)
  | greatest column => exact hresult (q.aggregate_refuses s .max column)
  | page number perPage => exact hresult (q.paginate_refuses s number perPage (h rfl))
  | chunks size goOn bound => exact q.walkThrough_refuses s size goOn bound
  | insert row =>
    exact hresult ((refuses_ofResult _).bind fun st _ _ _ => s.settled_execute st)
  | insertMany rows =>
    exact hresult ((refuses_ofResult _).bind fun st _ _ _ => s.settled_execute st)
  | update assignments => exact hresult (affecting_refuses s _)
  | delete => exact hresult (affecting_refuses s _)
  | upsert rows uniqueBy update => exact hresult (affecting_refuses s _)

end Helpers

/-- A query that cannot be compiled sends nothing, whatever is done with it; else the failure is the
database's own answer to what was sent. -/
theorem refusal_sends_nothing (s : Session σ) (q : Query) (helper : Helper) (w : σ)
    (hcounts : helper.isPage = true → q.CountsAll) {t : σ × List Exchange} {f : Fault}
    (hrun : (q.perform s.recorded helper).run (w, []) = (.error (.fault f), t))
    (hf : f.isCompilation = true) : t = (w, []) ∨ Answered t.2 f :=
  q.perform_refuses s helper hcounts (w, []) t f hrun hf

/-! ### Posts of a state that is not given -/

/-- Counts five posts, whatever it is asked. -/
def countingSession : Session Unit :=
  (World.answering (fun _ _ => [.ofPairs [(aggregateName, .int64 5)]]) id).session

theorem refusal_sends_nothing_statePosts :
    ∃ f t, ((on "posts" .sqlite).filter (.marked "state = ?" [])).CountsAll ∧
      (((on "posts" .sqlite).filter (.marked "state = ?" [])).perform countingSession.recorded
        (.page 1 10)).run ((), []) = (.error (.fault f), t) ∧
      f.isCompilation = true ∧ (t = ((), []) ∨ Answered t.2 f) := by
  have hcounts : ((on "posts" .sqlite).filter (.marked "state = ?" [])).CountsAll :=
    ⟨fun _ => ⟨[], rfl⟩, [], rfl⟩
  exact ⟨_, _, hcounts, rfl, rfl, refusal_sends_nothing countingSession _ (.page 1 10) ()
    (fun _ => hcounts) rfl rfl⟩

/-- Posts whose order has a marker without a value are counted before they are refused. -/
theorem page_refused_late :
    (((on "posts" .sqlite).orderBy (.marked "state = ?" []) none).perform countingSession.recorded
      (.page 1 10)).run ((), []) =
      (.error (.fault (.compilation (.moreMarkersThanValues 0) (some "state = ?"))), (),
        [⟨.query ⟨"SELECT COUNT(*) AS \"aggregate\" FROM \"posts\"", []⟩, none⟩]) := rfl

end Query

end RecordMapper
