import RecordMapper.Session.Change

/-!
How actions and changes run, one after the other.
-/
namespace RecordMapper

set_option autoImplicit false

/-! ## Actions -/

namespace Action

variable {σ α β : Type}

@[simp] theorem run_ofStep (step : σ → Outcome α × σ) (w : σ) : (ofStep step).run w = step w := rfl

@[simp] theorem run_outcome (a : Action σ α) (w : σ) :
    a.outcome.run w = (.ok (a.run w).1, (a.run w).2) := rfl

theorem run_bind_ok {a : Action σ β} {f : β → Action σ α} {w w' : σ} {b : β}
    (h : a.run w = (.ok b, w')) : (a >>= f).run w = (f b).run w' := by
  show (ExceptT.bindCont f (a.run w).1) (a.run w).2 = _
  rw [h]
  rfl

theorem run_bind_error {a : Action σ β} {f : β → Action σ α} {w w' : σ} {e : Halt}
    (h : a.run w = (.error e, w')) : (a >>= f).run w = (.error e, w') := by
  show (ExceptT.bindCont f (a.run w).1) (a.run w).2 = _
  rw [h]
  rfl

/-- An action that succeeds is made of parts that do. -/
theorem ok_of_run_bind {a : Action σ β} {f : β → Action σ α} {w w' : σ} {x : α}
    (h : (a >>= f).run w = (.ok x, w')) :
    ∃ b w₁, a.run w = (.ok b, w₁) ∧ (f b).run w₁ = (.ok x, w') := by
  rcases hrun : a.run w with ⟨stop | b, w₁⟩
  · rw [run_bind_error hrun] at h
    cases h
  · rw [run_bind_ok hrun] at h
    exact ⟨b, w₁, rfl, h⟩

/-- An action that halts does so in one of its parts. -/
theorem error_of_run_bind {a : Action σ β} {f : β → Action σ α} {w w' : σ} {e : Halt}
    (h : (a >>= f).run w = (.error e, w')) :
    a.run w = (.error e, w') ∨
      ∃ b w₁, a.run w = (.ok b, w₁) ∧ (f b).run w₁ = (.error e, w') := by
  rcases hrun : a.run w with ⟨stop | b, w₁⟩
  · rw [run_bind_error hrun] at h
    cases h
    exact .inl rfl
  · rw [run_bind_ok hrun] at h
    exact .inr ⟨b, w₁, rfl, h⟩

theorem ok_of_ofResult {r : Result α} {w w' : σ} {x : α}
    (h : (ofResult r : Action σ α).run w = (.ok x, w')) : r = .ok x := by
  cases r with
  | error f => cases h
  | ok y =>
    cases h
    rfl

@[simp] theorem run_outcome_bind (a : Action σ β) (f : Outcome β → Action σ α) (w : σ) :
    (a.outcome >>= f).run w = (f (a.run w).1).run (a.run w).2 := rfl

end Action

/-! ## Changes -/

namespace Change

variable {σ τ υ α β : Type}

theorem run_bind_ok {c : Change σ τ β} {f : β → Change σ τ α} {t t' : τ} {w w' : σ} {b : β}
    (h : (c.runOn t).run w = ((.ok b, t'), w')) :
    ((c >>= f).runOn t).run w = ((f b).runOn t').run w' := by
  show (ExceptT.bindCont f ((c.runOn t).run w).1.1 ((c.runOn t).run w).1.2)
    ((c.runOn t).run w).2 = _
  rw [h]
  rfl

theorem run_bind_error {c : Change σ τ β} {f : β → Change σ τ α} {t t' : τ} {w w' : σ} {e : Halt}
    (h : (c.runOn t).run w = ((.error e, t'), w')) :
    ((c >>= f).runOn t).run w = ((.error e, t'), w') := by
  show (ExceptT.bindCont f ((c.runOn t).run w).1.1 ((c.runOn t).run w).1.2)
    ((c.runOn t).run w).2 = _
  rw [h]
  rfl

/-- A change that succeeds is made of parts that do. -/
theorem ok_of_run_bind {c : Change σ τ β} {f : β → Change σ τ α} {t t' : τ} {w w' : σ} {x : α}
    (h : ((c >>= f).runOn t).run w = ((.ok x, t'), w')) :
    ∃ b t₁ w₁, (c.runOn t).run w = ((.ok b, t₁), w₁) ∧
      ((f b).runOn t₁).run w₁ = ((.ok x, t'), w') := by
  rcases hrun : (c.runOn t).run w with ⟨⟨stop | b, t₁⟩, w₁⟩
  · rw [run_bind_error hrun] at h
    cases h
  · rw [run_bind_ok hrun] at h
    exact ⟨b, t₁, w₁, rfl, h⟩

/-- A change that halts does so in one of its parts. -/
theorem error_of_run_bind {c : Change σ τ β} {f : β → Change σ τ α} {t t' : τ} {w w' : σ} {e : Halt}
    (h : ((c >>= f).runOn t).run w = ((.error e, t'), w')) :
    (c.runOn t).run w = ((.error e, t'), w') ∨
      ∃ b t₁ w₁, (c.runOn t).run w = ((.ok b, t₁), w₁) ∧
        ((f b).runOn t₁).run w₁ = ((.error e, t'), w') := by
  rcases hrun : (c.runOn t).run w with ⟨⟨stop | b, t₁⟩, w₁⟩
  · rw [run_bind_error hrun] at h
    cases h
    exact .inl rfl
  · rw [run_bind_ok hrun] at h
    exact .inr ⟨b, t₁, w₁, rfl, h⟩

theorem ok_of_ofResult {r : Result α} {t t' : τ} {w w' : σ} {x : α}
    (h : ((ofResult r : Change σ τ α).runOn t).run w = ((.ok x, t'), w')) : r = .ok x := by
  cases r with
  | error f => cases h
  | ok y =>
    cases h
    rfl

theorem run_ofAction (a : Action σ α) (t : τ) (w : σ) :
    ((ofAction a).runOn t).run w = (((a.run w).1, t), (a.run w).2) := rfl

theorem run_modify (f : τ → τ) (t : τ) (w : σ) :
    ((modify f : Change σ τ Unit).runOn t).run w = ((.ok (), f t), w) := rfl

theorem run_within {view : τ → υ} (put : τ → υ → τ) {c : Change σ υ α} {t : τ} {u : υ} {w w' : σ}
    {o : Outcome α} (h : (c.runOn (view t)).run w = ((o, u), w')) :
    ((c.within view put).runOn t).run w = ((o, put t u), w') := by
  show ((((c.runOn (view t)).run w).1.1, put t ((c.runOn (view t)).run w).1.2),
    ((c.runOn (view t)).run w).2) = _
  rw [h]

theorem run_current_bind (f : τ → Change σ τ α) (t : τ) (w : σ) :
    (((current : Change σ τ τ) >>= f).runOn t).run w = ((f t).runOn t).run w := rfl

theorem run_ofAction_bind_ok {a : Action σ β} {f : β → Change σ τ α} {t : τ} {w w' : σ} {b : β}
    (h : a.run w = (.ok b, w')) :
    ((ofAction a >>= f).runOn t).run w = ((f b).runOn t).run w' := by
  refine run_bind_ok ?_
  rw [run_ofAction, h]

theorem run_ofResult_bind_ok (b : β) (f : β → Change σ τ α) (t : τ) (w : σ) :
    ((ofResult (.ok b) >>= f).runOn t).run w = ((f b).runOn t).run w := rfl

theorem run_ofResult_bind_error (e : Fault) (f : β → Change σ τ α) (t : τ) (w : σ) :
    ((ofResult (.error e) >>= f).runOn t).run w = ((.error (.fault e), t), w) := rfl

end Change

end RecordMapper
