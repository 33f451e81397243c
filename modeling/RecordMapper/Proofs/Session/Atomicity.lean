import RecordMapper.Proofs.Session.Savepoints
import RecordMapper.Session.Script

/-!
Nested transactions are atomic.

* `Program.effect` is what a program does to a content if transactions were taken literally: the
  changes of a body count if it comes to its end, and otherwise none of them does.
* A transaction within another one leaves only savepoints behind that are named for its depth or a
  greater one, so it cannot be in the way of the transactions around it.
-/
namespace RecordMapper

set_option autoImplicit false

namespace Program

variable {δ α : Type}

/-- Whether no statement of a program opens or closes a transaction by itself. -/
def Plain {α : Type} : Program α → Prop
  | .done _ => True
  | .execute st rest => Control.read st.sql = none ∧ ∀ o, (rest o).Plain
  | .query st rest => Control.read st.sql = none ∧ ∀ o, (rest o).Plain
  | .transaction body rest => body.Plain ∧ ∀ o, (rest o).Plain

/-- What counts of a body that began with the content `before`. -/
def settle (before : δ) (r : Outcome α × δ) : Outcome α × δ :=
  match r.1 with
  | .ok _ => r
  | .error h => (.error h, before)

def effect {α : Type} (base : World δ) : Program α → δ → Outcome α × δ
  | .done o, content => (o, content)
  | .execute st rest, content =>
    (rest (base.execute st content).1).effect base (base.execute st content).2
  | .query st rest, content =>
    (rest (base.query st content).1).effect base (base.query st content).2
  | .transaction body rest, content =>
    let r := settle content (body.effect base content)
    (rest r.1).effect base r.2

end Program

open Session

section Simulation

variable {σ δ α : Type} {view : σ → Database δ} {base : World δ}

/-- The world ended with a content within the transaction `t`, above the savepoints of which are
only such that are named for a depth from `depth` on. -/
def EndsWithin (view : σ → Database δ) (depth : Nat) (t : OpenTransaction δ) (content : δ)
    (w : σ) : Prop :=
  ∃ above : List (String × δ), (∀ s ∈ above, ∃ k, depth ≤ k ∧ s.1 = savepointName k) ∧
    view w = ⟨content, some ⟨t.base, above ++ t.savepoints⟩⟩

/-- A body that behaves like `effect` within any open transaction. -/
def Simulates (view : σ → Database δ) (depth : Nat) (a : Action σ α)
    (effect : δ → Outcome α × δ) : Prop :=
  ∀ (w : σ) (t : OpenTransaction δ), (view w).opened = some t →
    (a.run w).1 = (effect (view w).content).1 ∧
    EndsWithin view depth t (effect (view w).content).2 (a.run w).2

/-- One action and then another one, which is chosen by the outcome of the first. -/
theorem Simulates.bind {β : Type} {depth : Nat} {a : Action σ β} {f : Outcome β → Action σ α}
    {first : δ → Outcome β × δ} {next : Outcome β → δ → Outcome α × δ}
    (ha : Simulates view depth a first) (hf : ∀ o, Simulates view depth (f o) (next o)) :
    Simulates view depth (a.outcome >>= f)
      fun content => next (first content).1 (first content).2 := by
  intro w t hw
  obtain ⟨hresult, above, hnames, hview⟩ := ha w t hw
  rw [Action.run_outcome_bind, hresult]
  obtain ⟨hresult', above', hnames', hview'⟩ := hf _ (a.run w).2 _ (by rw [hview])
  rw [hview] at hresult' hview'
  refine ⟨hresult', above' ++ above, fun s hs => ?_, ?_⟩
  · rcases List.mem_append.1 hs with hs | hs
    · exact hnames' s hs
    · exact hnames s hs
  · rw [hview', List.append_assoc]

/-- A step of the world that leaves transactions alone. -/
theorem simulates_step {depth : Nat} (step : σ → Outcome α × σ) (effect : δ → Outcome α × δ)
    (h : ∀ w, (step w).1 = (effect (view w).content).1 ∧
      view (step w).2 = ⟨(effect (view w).content).2, (view w).opened⟩) :
    Simulates view depth (.ofStep step) effect := by
  intro w t hw
  obtain ⟨hresult, hview⟩ := h w
  refine ⟨hresult, [], by simp, ?_⟩
  rw [Action.run_ofStep, hview, hw]
  rfl

theorem simulates_done {depth : Nat} (o : Outcome α) :
    Simulates view depth (.ofOutcome o) fun content => (o, content) := by
  intro w t hw
  rcases hv : view w with ⟨content, opened⟩
  rw [hv] at hw
  cases hw
  exact ⟨rfl, [], by simp, hv⟩

theorem control_opening {depth : Nat} (hdepth : 0 < depth) (content : δ)
    (t : OpenTransaction δ) :
    Database.control ⟨content, some t⟩ (opening depth) =
      some ⟨content, some ⟨t.base, (savepointName depth, content) :: t.savepoints⟩⟩ := by
  unfold opening
  rw [if_neg (by omega)]
  rfl

section Closing

variable {depth : Nat} {above : List (String × δ)}

theorem latest?_savepoint (hnames : ∀ s ∈ above, ∃ k, depth + 1 ≤ k ∧ s.1 = savepointName k)
    (content : δ) (below : List (String × δ)) :
    latest? (savepointName depth) (above ++ (savepointName depth, content) :: below) =
      some (content, below) := by
  refine latest?_append (fun s hs hname => ?_) content below
  obtain ⟨k, hk, hk'⟩ := hnames s hs
  have heq : k = depth := savepointName_injective (hk' ▸ hname)
  omega

theorem control_keeping (hdepth : 0 < depth)
    (hnames : ∀ s ∈ above, ∃ k, depth + 1 ≤ k ∧ s.1 = savepointName k) (before after : δ)
    (t : OpenTransaction δ) :
    Database.control
      ⟨after, some ⟨t.base, above ++ (savepointName depth, before) :: t.savepoints⟩⟩
      (keeping depth) = some ⟨after, some t⟩ := by
  unfold keeping Database.control
  rw [if_neg (by omega)]
  simp only [Option.bind_some, latest?_savepoint hnames, Option.map_some]

theorem control_undoing (hdepth : 0 < depth)
    (hnames : ∀ s ∈ above, ∃ k, depth + 1 ≤ k ∧ s.1 = savepointName k) (before after : δ)
    (t : OpenTransaction δ) :
    Database.control
      ⟨after, some ⟨t.base, above ++ (savepointName depth, before) :: t.savepoints⟩⟩
      (undoing depth) =
      some ⟨before, some ⟨t.base, (savepointName depth, before) :: t.savepoints⟩⟩ := by
  unfold undoing Database.control
  rw [if_neg (by omega)]
  simp only [Option.bind_some, latest?_savepoint hnames, Option.map_some]

end Closing

/-- A transaction has the outcome of its body, and leaves what the statement behind the body makes
of the database. -/
theorem transaction_run (s : Session σ) (h : Transactional s.world view base)
    (body : Session σ → Action σ α) {w : σ} {begun : Database δ} {r : Outcome α}
    (ended : Database δ) (hopen : (view w).control (opening s.depth) = some begun)
    (hbody : ∀ w₁, view w₁ = begun → ((body s.inner).run w₁).1 = r ∧
      (view ((body s.inner).run w₁).2).control (closing s.depth r) = some ended) :
    ((s.transaction body).run w).1 = r ∧ view ((s.transaction body).run w).2 = ended := by
  obtain ⟨e, hopened, hview⟩ := h.control _ _ w _ (read_openingSql s.depth) hopen
  rcases hw₁ : s.world.execute ⟨openingSql s.depth, []⟩ w with ⟨o, w₁⟩
  rw [hw₁] at hopened hview
  cases hopened
  obtain ⟨hresult, hclose⟩ := hbody w₁ hview
  rcases hw₂ : (body s.inner).run w₁ with ⟨r', w₂⟩
  rw [hw₂] at hresult hclose
  subst hresult
  cases r' with
  | ok a =>
    obtain ⟨e', hkept, hended⟩ := h.control _ _ w₂ _ (read_keepingSql s.depth) hclose
    rcases hw₃ : s.world.execute ⟨keepingSql s.depth, []⟩ w₂ with ⟨o, w₃⟩
    rw [hw₃] at hkept hended
    cases hkept
    rw [run_transaction_ok s body hw₁ hw₂ hw₃]
    exact ⟨rfl, hended⟩
  | error stop =>
    obtain ⟨e', -, hended⟩ := h.control _ _ w₂ _ (read_undoingSql s.depth) hclose
    rw [run_transaction_error s body hw₁ hw₂]
    exact ⟨rfl, hended⟩

/-- A transaction within another one keeps what its body did, or takes it back. -/
theorem transaction_simulates (s : Session σ) (h : Transactional s.world view base)
    (hdepth : 0 < s.depth) (body : Session σ → Action σ α) (effect : δ → Outcome α × δ)
    (hbody : Simulates view (s.depth + 1) (body s.inner) effect) :
    Simulates view s.depth (s.transaction body)
      fun content => Program.settle content (effect content) := by
  intro w t hw
  rcases hv : view w with ⟨content, opened⟩
  rw [hv] at hw
  cases hw
  have hopen := control_opening hdepth content t
  rw [← hv] at hopen
  show _ = (Program.settle content (effect content)).1 ∧
    EndsWithin view s.depth t (Program.settle content (effect content)).2 _
  rcases heffect : effect content with ⟨r, after⟩
  -- The savepoint is on top when the body begins, and below what the body leaves when it ends.
  have hends : ∀ w₁, view w₁ =
      ⟨content, some ⟨t.base, (savepointName s.depth, content) :: t.savepoints⟩⟩ →
      ((body s.inner).run w₁).1 = r ∧ ∃ above : List (String × δ),
        (∀ x ∈ above, ∃ k, s.depth + 1 ≤ k ∧ x.1 = savepointName k) ∧
        view ((body s.inner).run w₁).2 =
          ⟨after, some ⟨t.base, above ++ (savepointName s.depth, content) :: t.savepoints⟩⟩ := by
    intro w₁ hw₁
    obtain ⟨hresult, hafter⟩ := hbody w₁ _ (by rw [hw₁])
    rw [hw₁] at hresult hafter
    simp only [heffect] at hresult hafter
    exact ⟨hresult, hafter⟩
  cases r with
  | ok a =>
    obtain ⟨hresult, hkept⟩ := transaction_run s h body ⟨after, some t⟩ hopen fun w₁ hw₁ => by
      obtain ⟨hresult, above, hnames, hafter⟩ := hends w₁ hw₁
      exact ⟨hresult, hafter ▸ control_keeping hdepth hnames content after t⟩
    exact ⟨hresult, [], by simp, hkept⟩
  | error stop =>
    obtain ⟨hresult, hundone⟩ := transaction_run s h body
        ⟨content, some ⟨t.base, (savepointName s.depth, content) :: t.savepoints⟩⟩ hopen
        fun w₁ hw₁ => by
      obtain ⟨hresult, above, hnames, hafter⟩ := hends w₁ hw₁
      exact ⟨hresult, hafter ▸ control_undoing hdepth hnames content after t⟩
    refine ⟨hresult, [(savepointName s.depth, content)], fun x hx => ?_, hundone⟩
    rw [List.mem_singleton] at hx
    exact ⟨s.depth, by omega, by rw [hx]⟩

/-- The outermost transaction leaves no transaction open. -/
theorem outermost_settles (s : Session σ) (h : Transactional s.world view base)
    (hdepth : s.depth = 0) (body : Session σ → Action σ α) (effect : δ → Outcome α × δ)
    (hbody : Simulates view 1 (body s.inner) effect) (w : σ) (content : δ)
    (hw : view w = .closed content) :
    ((s.transaction body).run w).1 = (Program.settle content (effect content)).1 ∧
    view ((s.transaction body).run w).2 =
      .closed (Program.settle content (effect content)).2 := by
  have hopen : (view w).control (opening s.depth) = some ⟨content, some ⟨content, []⟩⟩ := by
    rw [hw, hdepth]
    rfl
  have hends := transaction_run s h body
    (.closed (Program.settle content (effect content)).2) hopen fun w₁ hw₁ => by
      obtain ⟨hresult, above, -, hafter⟩ := hbody w₁ _ (by rw [hw₁])
      rw [hw₁] at hresult hafter
      refine ⟨hresult, ?_⟩
      rw [hafter, hdepth]
      rcases effect content with ⟨_ | a, after⟩ <;> rfl
  refine ⟨hends.1.trans ?_, hends.2⟩
  rcases effect content with ⟨_ | a, after⟩ <;> rfl

/-- A program does what its effect says, within any transaction. -/
theorem action_simulates (p : Program α) (hp : p.Plain) (s : Session σ)
    (h : Transactional s.world view base) (hdepth : 0 < s.depth) :
    Simulates view s.depth (p.action s) (p.effect base) := by
  -- The session grows with the depth of the body, the open transaction with what bodies leave.
  induction p generalizing s with
  | done o => exact simulates_done o
  | execute st rest ih =>
    have hstep : Simulates view s.depth (s.execute st) (base.execute st) :=
      simulates_step _ _ fun w => h.execute st w hp.1
    exact hstep.bind fun o => ih o (hp.2 o) s h hdepth
  | query st rest ih =>
    have hstep : Simulates view s.depth (s.query st) (base.query st) :=
      simulates_step _ _ fun w => h.query st w hp.1
    exact hstep.bind fun o => ih o (hp.2 o) s h hdepth
  | transaction body rest ihbody ihrest =>
    have hbody := ihbody hp.1 s.inner h (Nat.succ_pos s.depth)
    have htransaction := transaction_simulates s h hdepth body.action _ hbody
    exact htransaction.bind fun o => ihrest o (hp.2 o) s h hdepth

/-- The outermost of nested transactions has the outcome of its body. The content it leaves is the
one its body makes, where each transaction counts if its own body comes to its end, and no
transaction stays open. -/
theorem transaction_atomic (body : Program α) (hplain : body.Plain) (s : Session σ)
    (h : Transactional s.world view base) (hdepth : s.depth = 0) (w : σ) (content : δ)
    (hw : view w = .closed content) :
    ((s.transaction body.action).run w).1 =
      (Program.settle content (body.effect base content)).1 ∧
    view ((s.transaction body.action).run w).2 =
      .closed (Program.settle content (body.effect base content)).2 := by
  have hinner : s.inner.depth = 1 := congrArg (· + 1) hdepth
  have hbody := action_simulates body hplain s.inner h (by omega)
  rw [hinner] at hbody
  exact outermost_settles s h hdepth body.action (body.effect base) hbody w content hw

end Simulation

/-- Swallows a failure within, and then keeps the second of two transactions but not the one in
it. -/
def rearrangement : Program Unit :=
  .execute ⟨"INSERT 1", []⟩ fun _ =>
    .transaction (.execute ⟨"INSERT 2", []⟩ fun _ => .done (α := Unit) (.error .cancelled)) fun _ =>
      .transaction
        (.execute ⟨"INSERT 3", []⟩ fun _ =>
          .transaction (.execute ⟨"INSERT 4", []⟩ fun _ => .done (α := Unit) (.error .cancelled))
            fun _ => .done (.ok ()))
        .done

def scriptedSession : Session (Database Script) :=
  ⟨Database.world Script.world, .sqlite, ⟨[]⟩, .empty, .none, .standard, 0⟩

theorem transaction_atomic_rearrangement :
    rearrangement.Plain ∧ Transactional scriptedSession.world id Script.world ∧
    scriptedSession.depth = 0 ∧
    (((scriptedSession.transaction rearrangement.action).run
      (.closed (.startingAt ⟨0, ⟨0, 0⟩⟩))).2).content.log =
      [.execute ⟨"INSERT 1", []⟩, .execute ⟨"INSERT 3", []⟩] := by
  have hplain : rearrangement.Plain :=
    ⟨by decide, fun _ => ⟨⟨by decide, fun _ => trivial⟩, fun _ =>
      ⟨⟨by decide, fun _ => ⟨⟨by decide, fun _ => trivial⟩, fun _ => trivial⟩⟩, fun _ => trivial⟩⟩⟩
  have hworld : Transactional scriptedSession.world id Script.world :=
    Database.world_transactional Script.world
  have h := transaction_atomic rearrangement hplain scriptedSession hworld rfl
    (.closed (.startingAt ⟨0, ⟨0, 0⟩⟩)) (.startingAt ⟨0, ⟨0, 0⟩⟩) rfl
  refine ⟨hplain, hworld, rfl, ?_⟩
  rw [id_eq] at h
  rw [h.2]
  rfl

end RecordMapper
