import RecordMapper.Proofs.Calendar.Moments

/-!
Times of day and their written forms.

* `clockMicros?` is the count of microseconds since midnight that a text names.
* `clockMicros?_write`: a written time of day names its count.
* `ofMicros?_eq`: a count is taken for what is left of it after whole periods of `2 ^ 32` seconds.
-/
namespace RecordMapper.Calendar

set_option autoImplicit false

open RecordMapper.Text

/-- Whether a count of microseconds since midnight stays within the day. -/
def IsTimeOfDay (micros : Int) : Prop := 0 ≤ micros ∧ micros < 86400000000

instance (micros : Int) : Decidable (IsTimeOfDay micros) := inferInstanceAs (Decidable (_ ∧ _))

/-! ## Texts that name a time of day -/

/-- The microseconds of up to six decimals of a second, with the point in front of them. -/
def decimalMicros? : List Char → Option Nat
  | [] => some 0
  | '.' :: digits =>
    if digits.length ≤ 6 then (readNat digits).map (· * 10 ^ (6 - digits.length)) else none
  | _ => none

/-- The microseconds since midnight that a text names: two digits each for the hour, the minute and
the second, and perhaps decimals. -/
def clockMicros? : List Char → Option Nat
  | h :: h' :: ':' :: m :: m' :: ':' :: s :: s' :: decimals => do
    let hour ← readNat [h, h']
    let minute ← readNat [m, m']
    let second ← readNat [s, s']
    let micros ← decimalMicros? decimals
    if hour < 24 ∧ minute < 60 ∧ second < 60 then
      some (((hour * 60 + minute) * 60 + second) * 1000000 + micros)
    else none
  | _ => none

theorem readNat_places {width n : Nat} (hwidth : 0 < width) (h : n < 10 ^ width) :
    readNat (places width n) = some n := by
  refine readNat_eq_some.mpr ⟨fun hnil => ?_, fun c hc => isDigit_of_mem_places hc,
    foldDigits_places h⟩
  have hlength := length_places width n
  rw [hnil] at hlength
  exact absurd hlength.symm (Nat.ne_of_gt hwidth)

theorem clockMicros?_places {hour minute second micros : Nat} {decimals : List Char}
    (hhour : hour < 24) (hminute : minute < 60) (hsecond : second < 60)
    (hdecimals : decimalMicros? decimals = some micros) :
    clockMicros? (places 2 hour ++ ':' :: places 2 minute ++ ':' :: places 2 second ++ decimals) =
      some (((hour * 60 + minute) * 60 + second) * 1000000 + micros) := by
  have hpair : ∀ n, places 2 n = [digitChar (n / 10 % 10), digitChar (n % 10)] := fun _ => rfl
  have hread : ∀ n < 100, readNat [digitChar (n / 10 % 10), digitChar (n % 10)] = some n :=
    fun n hn => hpair n ▸ readNat_places (by decide) hn
  simp only [hpair, List.cons_append, List.nil_append, clockMicros?, hdecimals,
    hread hour (by omega), hread minute (by omega), hread second (by omega),
    Option.bind_eq_bind, Option.bind_some, hhour, hminute, hsecond, and_self, if_true]

theorem decimalMicros?_places {width n : Nat} (hwidth : 0 < width) (hmost : width ≤ 6)
    (h : n < 10 ^ width) :
    decimalMicros? ('.' :: places width n) = some (n * 10 ^ (6 - width)) := by
  rw [decimalMicros?, length_places, if_pos hmost, readNat_places hwidth h, Option.map_some]

/-- Whole microseconds are written in full. -/
theorem decimalMicros?_writeFraction {micros : Nat} (h : micros < 1000000) :
    decimalMicros? (TimeOfDay.writeFraction (micros * 1000)) = some micros := by
  unfold TimeOfDay.writeFraction
  split
  · next hzero =>
    have hmicros : micros = 0 := by omega
    rw [hmicros]
    rfl
  · split
    · next hmillis =>
      have hdigits : micros * 1000 / 1000000 < 1000 := by omega
      have hvalue : micros * 1000 / 1000000 * 1000 = micros := by omega
      rw [decimalMicros?_places (by decide) (by decide) hdigits]
      exact congrArg some hvalue
    · have hfine : micros * 1000 % 1000 = 0 := by omega
      have hvalue : micros * 1000 / 1000 = micros := by omega
      rw [if_pos hfine, hvalue, decimalMicros?_places (by decide) (by decide) h]
      exact congrArg some (Nat.mul_one micros)

theorem clockMicros?_write {second micros : Nat} (hsecond : second < secondsPerDay)
    (hmicros : micros < 1000000) :
    clockMicros? (TimeOfDay.write ⟨second, micros * 1000⟩) = some (second * 1000000 + micros) := by
  have hday : second < 86400 := hsecond
  have hlast : second % 60 + micros * 1000 / 1000000000 = second % 60 := by omega
  have hfraction : micros * 1000 % 1000000000 = micros * 1000 := by omega
  have hwrite : TimeOfDay.write ⟨second, micros * 1000⟩ =
      places 2 (second / 3600) ++ ':' :: places 2 (second / 60 % 60) ++ ':' ::
        places 2 (second % 60) ++ TimeOfDay.writeFraction (micros * 1000) := by
    show _ ++ ':' :: places 2 (second % 60 + micros * 1000 / 1000000000) ++
      TimeOfDay.writeFraction (micros * 1000 % 1000000000) = _
    rw [hlast, hfraction]
    rfl
  rw [hwrite, clockMicros?_places (by omega) (by omega) (by omega)
    (decimalMicros?_writeFraction hmicros)]
  have hclock : (second / 3600 * 60 + second / 60 % 60) * 60 + second % 60 = second := by omega
  rw [hclock]

/-! ## Counts of microseconds -/

/-- The microseconds of `2 ^ 32` seconds. -/
def clockPeriod : Int := 4294967296000000

theorem ofMicros?_eq {micros : Int} (h : IsTimeOfDay (micros % clockPeriod)) :
    TimeOfDay.ofMicros? micros =
      some ⟨(micros % clockPeriod).toNat / 1000000,
        (micros % clockPeriod).toNat % 1000000 * 1000⟩ := by
  unfold IsTimeOfDay clockPeriod at h
  have hsecond : (micros / 1000000 % 4294967296).toNat =
      (micros % 4294967296000000).toNat / 1000000 := by
    omega
  have hnano : (micros % 1000000).toNat = (micros % 4294967296000000).toNat % 1000000 := by omega
  have hday : (micros % 4294967296000000).toNat / 1000000 < 86400 := by omega
  show (if (micros / 1000000 % 4294967296).toNat < 86400 then
    some (⟨(micros / 1000000 % 4294967296).toNat, (micros % 1000000).toNat * 1000⟩ : TimeOfDay)
      else none) = _
  rw [hsecond, hnano, if_pos hday]
  rfl

theorem ofMicros?_eq_none {micros : Int} (h : ¬IsTimeOfDay (micros % clockPeriod)) :
    TimeOfDay.ofMicros? micros = none := by
  unfold IsTimeOfDay clockPeriod at h
  have hday : ¬(micros / 1000000 % 4294967296).toNat < 86400 := by omega
  exact if_neg hday

end RecordMapper.Calendar
