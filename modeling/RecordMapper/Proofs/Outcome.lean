/-!
Computations that may fail: what is known of the parts when the whole succeeds, and the other way
round.
-/
namespace RecordMapper

set_option autoImplicit false

variable {ε α β γ δ : Type}

theorem ok_of_bind {x : Except ε α} {f : α → Except ε β} {b : β} (h : (x >>= f) = .ok b) :
    ∃ a, x = .ok a ∧ f a = .ok b := by
  cases x with
  | error e => cases h
  | ok a => exact ⟨a, rfl, h⟩

theorem ok_of_map {x : Except ε α} {f : α → β} {b : β} (h : x.map f = .ok b) :
    ∃ a, x = .ok a ∧ f a = b := by
  cases x with
  | error e => cases h
  | ok a =>
    cases h
    exact ⟨a, rfl, rfl⟩

theorem error_of_map {x : Except ε α} {f : α → β} {e : ε} (h : x.map f = .error e) :
    x = .error e := by
  cases x with
  | error e' =>
    cases h
    rfl
  | ok a => cases h

theorem exists_ok_bind {x : Except ε α} {f : α → Except ε β} (hx : ∃ a, x = .ok a)
    (hf : ∀ a, ∃ b, f a = .ok b) : ∃ b, (x >>= f) = .ok b := by
  obtain ⟨a, rfl⟩ := hx
  exact hf a

/-! ## Two computations with one image -/

/-- Two computations go on alike if what they go on with does. -/
theorem map_bind_congr {x y : Except ε α} {f g : α → Except ε β} {φ : α → γ} {ψ : β → δ}
    (h : x.map φ = y.map φ) (hf : ∀ a b, φ a = φ b → (f a).map ψ = (g b).map ψ) :
    (x >>= f).map ψ = (y >>= g).map ψ := by
  cases x with
  | error e =>
    cases y with
    | error e' =>
      cases h
      rfl
    | ok b => cases h
  | ok a =>
    cases y with
    | error e' => cases h
    | ok b => exact hf a b (Except.ok.inj h)

theorem toOption_map_congr {x y : Except ε α} {φ : α → γ} (h : x.map φ = y.map φ) :
    x.toOption.map φ = y.toOption.map φ := by
  cases x with
  | error e =>
    cases y with
    | error e' => rfl
    | ok b => cases h
  | ok a =>
    cases y with
    | error e' => cases h
    | ok b => exact congrArg some (Except.ok.inj h)

/-- As `map_bind_congr`, where the failures may differ. -/
theorem toOption_bind_congr {x y : Except ε α} {f g : α → Except ε β} {φ : α → γ} {ψ : β → δ}
    (h : x.toOption.map φ = y.toOption.map φ)
    (hf : ∀ a b, φ a = φ b → (f a).toOption.map ψ = (g b).toOption.map ψ) :
    (x >>= f).toOption.map ψ = (y >>= g).toOption.map ψ := by
  cases x with
  | error e =>
    cases y with
    | error e' => rfl
    | ok b => cases h
  | ok a =>
    cases y with
    | error e' => cases h
    | ok b => exact hf a b (Option.some.inj h)

theorem option_map_map_congr {x y : Option α} {f g : α → β} {φ : α → γ} {ψ : β → δ}
    (h : x.map φ = y.map φ) (hf : ∀ a b, φ a = φ b → ψ (f a) = ψ (g b)) :
    (x.map f).map ψ = (y.map g).map ψ := by
  cases x with
  | none =>
    cases y with
    | none => rfl
    | some b => cases h
  | some a =>
    cases y with
    | none => cases h
    | some b => exact congrArg some (hf a b (Option.some.inj h))

end RecordMapper
