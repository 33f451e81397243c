import RecordMapper.Calendar.Day

/-!
Days and their dates.

* `exists_cycle`: every day lies in a year of a cycle of 400 years, which begins in March.
* `dateOfDay_exists`: the date of a day is one that exists.
* `dayOfDate_dateOfDay`, `dateOfDay_dayOfDate`: days and the dates that exist are the same thing.
-/
namespace RecordMapper.Calendar

set_option autoImplicit false

/-! ## The years of a cycle -/

/-- The days of a cycle before one of its years. -/
def daysBefore (year : Nat) : Nat := 365 * year + year / 4 - year / 100

/-- The year of a cycle that a day of the cycle lies in. -/
def yearOfCycle (day : Nat) : Nat := (day - day / 1460 + day / 36524 - day / 146096) / 365

theorem daysBefore_eq {century four year : Nat} (hfour : four ≤ 24) (hyear : year ≤ 3) :
    daysBefore (100 * century + 4 * four + year) = 36524 * century + 1461 * four + 365 * year := by
  have hfours : (100 * century + 4 * four + year) / 4 = 25 * century + four := by omega
  have hcenturies : (100 * century + 4 * four + year) / 100 = century := by omega
  unfold daysBefore
  rw [hfours, hcenturies]
  omega

/-- A century has 36524 days, and four years have 1461; the last four years of a century lack the
leap day. -/
theorem yearOfCycle_eq {century four rest : Nat} (hcentury : century ≤ 3) (hfour : four ≤ 24)
    (hrest : rest ≤ 1460) (hlast : rest = 1460 → four < 24) :
    yearOfCycle (36524 * century + 1461 * four + rest) =
      100 * century + 4 * four + min (rest / 365) 3 := by
  have hcycle : (36524 * century + 1461 * four + rest) / 146096 = 0 := by omega
  have hcenturies : (36524 * century + 1461 * four + rest) / 36524 = century := by omega
  have hfours : (36524 * century + 1461 * four + rest) / 1460 = 25 * century + four ∨
      (36524 * century + 1461 * four + rest) / 1460 = 25 * century + four + 1 ∧ 1364 ≤ rest := by
    omega
  unfold yearOfCycle
  rw [hcycle, hcenturies]
  rcases hfours with hfours | ⟨hfours, hlate⟩
  · rw [hfours]
    omega
  · rw [hfours]
    omega

/-- The year that ends a cycle is a leap year, and so is every fourth year within a century. -/
theorem isLeapYear_next {century four year : Nat} (cycle : Int) (hcentury : century ≤ 3)
    (hfour : four ≤ 24) (hyear : year ≤ 3) :
    isLeapYear (cycle * 400 + (100 * century + 4 * four + year : Nat) + 1) = true ↔
      year = 3 ∧ (four < 24 ∨ century = 3) := by
  simp only [isLeapYear, Bool.and_eq_true, Bool.or_eq_true, beq_iff_eq, bne_iff_ne]
  omega

/-- A year that begins in March has 365 days, and one more if it ends in the February of a leap
year. -/
def InYear (year : Int) (dayOfYear : Nat) : Prop :=
  dayOfYear < 365 ∨ dayOfYear = 365 ∧ isLeapYear (year + 1) = true

theorem yearOfCycle_daysBefore (cycle : Int) {year dayOfYear : Nat} (hyear : year < 400)
    (h : InYear (cycle * 400 + year) dayOfYear) :
    yearOfCycle (daysBefore year + dayOfYear) = year := by
  obtain ⟨century, four, inFour, hcentury, hfour, hinFour, rfl⟩ :
      ∃ century four inFour, century ≤ 3 ∧ four ≤ 24 ∧ inFour ≤ 3 ∧
        100 * century + 4 * four + inFour = year :=
    ⟨year / 100, year % 100 / 4, year % 4, by omega, by omega, by omega, by omega⟩
  rw [daysBefore_eq hfour hinFour]
  rcases h with hshort | ⟨rfl, hleap⟩
  · rw [Nat.add_assoc, yearOfCycle_eq hcentury hfour (by omega) (by omega)]
    omega
  · obtain ⟨rfl, hlast⟩ := (isLeapYear_next cycle hcentury hfour hinFour).mp hleap
    by_cases hend : four = 24
    · -- The last day of a cycle.
      have hthird : century = 3 := by omega
      rw [hend, hthird]
      rfl
    · rw [Nat.add_assoc, yearOfCycle_eq hcentury hfour (by omega) (by omega)]
      rfl

theorem exists_inYear {day : Nat} (h : day < 146097) (cycle : Int) :
    ∃ year dayOfYear, year < 400 ∧ day = daysBefore year + dayOfYear ∧
      InYear (cycle * 400 + year) dayOfYear := by
  by_cases hend : day = 146096
  · subst hend
    exact ⟨399, 365, by decide, rfl, .inr ⟨rfl,
      (isLeapYear_next cycle (Nat.le_refl 3) (Nat.le_refl 24) (Nat.le_refl 3)).mpr (by decide)⟩⟩
  · obtain ⟨century, inCentury, hday, hinCentury⟩ :
        ∃ century inCentury, day = 36524 * century + inCentury ∧ inCentury < 36524 :=
      ⟨day / 36524, day % 36524, by omega, by omega⟩
    obtain ⟨four, inFour, hfour, hinFour⟩ :
        ∃ four inFour, inCentury = 1461 * four + inFour ∧ inFour < 1461 :=
      ⟨inCentury / 1461, inCentury % 1461, by omega, by omega⟩
    rcases Nat.lt_or_ge inFour 1460 with hshort | hlast
    · refine ⟨100 * century + 4 * four + inFour / 365, inFour % 365, by omega, ?_,
        .inl (Nat.mod_lt _ (by decide))⟩
      rw [daysBefore_eq (by omega) (by omega)]
      omega
    · refine ⟨100 * century + 4 * four + 3, 365, by omega, ?_, .inr ⟨rfl,
        (isLeapYear_next cycle (by omega) (by omega) (by decide)).mpr ⟨rfl, .inl (by omega)⟩⟩⟩
      rw [daysBefore_eq (by omega) (by decide)]
      omega

/-! ## Dates of a year -/

structure CalendarDate.Exists (date : CalendarDate) : Prop where
  month : 1 ≤ date.month ∧ date.month ≤ 12
  day : 1 ≤ date.day ∧ date.day ≤ daysInMonth date.year date.month

/-- The date of a day of the year that begins in the March of `year`. -/
def dateInYear (year : Int) (dayOfYear : Nat) : CalendarDate :=
  let month := (5 * dayOfYear + 2) / 153
  let dayOfMonth := dayOfYear - (153 * month + 2) / 5 + 1
  if month < 10 then ⟨year, month + 3, dayOfMonth⟩ else ⟨year + 1, month - 9, dayOfMonth⟩

theorem dateOfDay_eq (cycle : Int) {day : Nat} (h : day < 146097) :
    dateOfDay (cycle * 146097 + day - epochShift) =
      dateInYear (cycle * 400 + yearOfCycle day) (day - daysBefore (yearOfCycle day)) := by
  have hcycle : (cycle * 146097 + day - epochShift + epochShift) / 146097 = cycle := by omega
  have hday : ((cycle * 146097 + day - epochShift + epochShift) % 146097).toNat = day := by omega
  unfold dateOfDay
  simp only [hcycle, hday]
  rfl

theorem length_of_month : ∀ month < 10, (153 * (month + 1) + 2) / 5 = (153 * month + 2) / 5 +
    if month + 3 = 4 ∨ month + 3 = 6 ∨ month + 3 = 9 ∨ month + 3 = 11 then 30 else 31 := by
  decide

/-- The first ten months are March to December. -/
theorem dateInYear_of_first (year : Int) {dayOfYear month : Nat}
    (hmonth : (5 * dayOfYear + 2) / 153 = month) (h : month < 10) :
    dateInYear year dayOfYear = ⟨year, month + 3, dayOfYear - (153 * month + 2) / 5 + 1⟩ := by
  unfold dateInYear
  simp only [hmonth, if_pos h]

/-- January and February are in the next year. -/
theorem dateInYear_of_last (year : Int) {dayOfYear month : Nat}
    (hmonth : (5 * dayOfYear + 2) / 153 = month) (h : ¬ month < 10) :
    dateInYear year dayOfYear = ⟨year + 1, month - 9, dayOfYear - (153 * month + 2) / 5 + 1⟩ := by
  unfold dateInYear
  simp only [hmonth, if_neg h]

theorem daysInMonth_february (year : Int) :
    daysInMonth year 2 = if isLeapYear year then 29 else 28 := rfl

theorem dateInYear_exists {year : Int} {dayOfYear : Nat} (h : InYear year dayOfYear) :
    (dateInYear year dayOfYear).Exists := by
  obtain ⟨month, hmonth⟩ : ∃ month, (5 * dayOfYear + 2) / 153 = month := ⟨_, rfl⟩
  have hcases : month < 10 ∨ month = 10 ∨ month = 11 := by
    unfold InYear at h
    omega
  rcases hcases with hfirst | rfl | rfl
  · have hlength := length_of_month month hfirst
    rw [dateInYear_of_first year hmonth hfirst]
    refine ⟨by dsimp only; omega, ?_⟩
    simp only [daysInMonth, if_neg (show month + 3 ≠ 2 by omega)]
    omega
  · have hjanuary : daysInMonth (year + 1) 1 = 31 := rfl
    rw [dateInYear_of_last year hmonth (by decide)]
    refine ⟨by dsimp only; omega, ?_⟩
    simp only [Nat.reduceSub, hjanuary]
    omega
  · rw [dateInYear_of_last year hmonth (by decide)]
    refine ⟨by dsimp only; omega, ?_⟩
    simp only [Nat.reduceSub, daysInMonth_february]
    rcases h with hshort | ⟨rfl, hleap⟩
    · cases isLeapYear (year + 1) <;> simp only [if_true, if_false, Bool.false_eq_true] <;> omega
    · simp [hleap]

theorem dayOfDate_dateInYear (cycle : Int) {year dayOfYear : Nat} (hyear : year < 400)
    (h : InYear (cycle * 400 + year) dayOfYear) :
    dayOfDate (dateInYear (cycle * 400 + year) dayOfYear) =
      cycle * 146097 + (daysBefore year + dayOfYear : Nat) - epochShift := by
  have hcycle : (cycle * 400 + year) / 400 = cycle := by omega
  have hrest : (cycle * 400 + year) % 400 = year := by omega
  have hcount : (year : Int) * 365 + (year : Int) / 4 - (year : Int) / 100 = daysBefore year := by
    unfold daysBefore
    omega
  obtain ⟨month, hmonth⟩ : ∃ month, (5 * dayOfYear + 2) / 153 = month := ⟨_, rfl⟩
  have hday : (153 * month + 2) / 5 ≤ dayOfYear ∧ month ≤ 11 := by
    unfold InYear at h
    omega
  rcases Nat.lt_or_ge month 10 with hfirst | hlast
  · have hback : (month + 3 + 9) % 12 = month := by omega
    rw [dateInYear_of_first _ hmonth hfirst]
    unfold dayOfDate
    simp only [if_neg (show ¬ month + 3 ≤ 2 by omega), hback, hcycle, hrest, hcount]
    omega
  · have hback : (month - 9 + 9) % 12 = month := by omega
    have hyearBack : cycle * 400 + (year : Int) + 1 - 1 = cycle * 400 + year := by omega
    rw [dateInYear_of_last _ hmonth (by omega)]
    unfold dayOfDate
    simp only [if_pos (show month - 9 ≤ 2 by omega), hback, hyearBack, hcycle, hrest, hcount]
    omega

/-! ## All days -/

/-- Every day is a day of a year of a cycle. -/
theorem exists_cycle (day : Int) :
    ∃ cycle : Int, ∃ year dayOfYear : Nat, year < 400 ∧ InYear (cycle * 400 + year) dayOfYear ∧
      day = cycle * 146097 + (daysBefore year + dayOfYear : Nat) - epochShift := by
  obtain ⟨cycle, inCycle, hinCycle, hday⟩ :
      ∃ cycle : Int, ∃ inCycle : Nat, inCycle < 146097 ∧
        day = cycle * 146097 + inCycle - epochShift :=
    ⟨(day + epochShift) / 146097, ((day + epochShift) % 146097).toNat, by omega, by omega⟩
  obtain ⟨year, dayOfYear, hyear, hcount, hin⟩ := exists_inYear hinCycle cycle
  rw [hcount] at hday
  exact ⟨cycle, year, dayOfYear, hyear, hin, hday⟩

theorem daysBefore_add_lt {cycle : Int} {year dayOfYear : Nat} (hyear : year < 400)
    (h : InYear (cycle * 400 + year) dayOfYear) : daysBefore year + dayOfYear < 146097 := by
  unfold daysBefore
  unfold InYear at h
  omega

theorem dateOfDay_inYear (cycle : Int) {year dayOfYear : Nat} (hyear : year < 400)
    (h : InYear (cycle * 400 + year) dayOfYear) :
    dateOfDay (cycle * 146097 + (daysBefore year + dayOfYear : Nat) - epochShift) =
      dateInYear (cycle * 400 + year) dayOfYear := by
  rw [dateOfDay_eq cycle (daysBefore_add_lt hyear h), yearOfCycle_daysBefore cycle hyear h,
    Nat.add_sub_cancel_left]

theorem dateOfDay_exists (day : Int) : (dateOfDay day).Exists := by
  obtain ⟨cycle, year, dayOfYear, hyear, hin, rfl⟩ := exists_cycle day
  rw [dateOfDay_inYear cycle hyear hin]
  exact dateInYear_exists hin

theorem dayOfDate_dateOfDay (day : Int) : dayOfDate (dateOfDay day) = day := by
  obtain ⟨cycle, year, dayOfYear, hyear, hin, rfl⟩ := exists_cycle day
  rw [dateOfDay_inYear cycle hyear hin]
  exact dayOfDate_dateInYear cycle hyear hin

/-- A date that exists is the date of a day of its year. -/
theorem CalendarDate.Exists.inYear {date : CalendarDate} (h : date.Exists) :
    ∃ (year : Int) (dayOfYear : Nat), InYear year dayOfYear ∧ date = dateInYear year dayOfYear := by
  obtain ⟨year, month, day⟩ := date
  obtain ⟨hmonth, hday⟩ := h
  dsimp only at hmonth hday
  have hcases : month = 1 ∨ month = 2 ∨ 3 ≤ month := by omega
  rcases hcases with rfl | rfl | hlate
  · have hjanuary : daysInMonth year 1 = 31 := rfl
    rw [hjanuary] at hday
    refine ⟨year - 1, 305 + day, .inl (by omega), ?_⟩
    have hmonth : (5 * (305 + day) + 2) / 153 = 10 := by omega
    rw [dateInYear_of_last (year - 1) hmonth (by decide), CalendarDate.mk.injEq]
    exact ⟨by omega, rfl, by omega⟩
  · rw [daysInMonth_february] at hday
    refine ⟨year - 1, 336 + day, ?_, ?_⟩
    · cases hleap : isLeapYear year with
      | false =>
        simp only [hleap, if_false, Bool.false_eq_true] at hday
        exact .inl (by omega)
      | true =>
        simp only [hleap, if_true] at hday
        rcases Nat.lt_or_ge day 29 with hless | hlast
        · exact .inl (by omega)
        · exact .inr ⟨by omega, by rw [Int.sub_add_cancel, hleap]⟩
    · have hlength : day ≤ 29 := Nat.le_trans hday.2 (by split <;> decide)
      have hmonth : (5 * (336 + day) + 2) / 153 = 11 := by omega
      rw [dateInYear_of_last (year - 1) hmonth (by decide), CalendarDate.mk.injEq]
      exact ⟨by omega, rfl, by omega⟩
  · obtain ⟨k, rfl⟩ : ∃ k, month = k + 3 := ⟨month - 3, by omega⟩
    have hlength := length_of_month k (by omega)
    simp only [daysInMonth, if_neg (show k + 3 ≠ 2 by omega)] at hday
    refine ⟨year, (153 * k + 2) / 5 + (day - 1), .inl (by omega), ?_⟩
    have hmonth : (5 * ((153 * k + 2) / 5 + (day - 1)) + 2) / 153 = k := by omega
    rw [dateInYear_of_first year hmonth (by omega), CalendarDate.mk.injEq]
    exact ⟨rfl, rfl, by omega⟩

theorem dateOfDay_dayOfDate {date : CalendarDate} (h : date.Exists) :
    dateOfDay (dayOfDate date) = date := by
  obtain ⟨year, dayOfYear, hin, rfl⟩ := h.inYear
  obtain ⟨cycle, inCycle, rfl, hcycle⟩ :
      ∃ (cycle : Int) (inCycle : Nat), year = cycle * 400 + inCycle ∧ inCycle < 400 :=
    ⟨year / 400, (year % 400).toNat, by omega, by omega⟩
  rw [dayOfDate_dateInYear cycle hcycle hin, dateOfDay_inYear cycle hcycle hin]

example : dateOfDay 11016 = ⟨2000, 2, 29⟩ ∧ dayOfDate ⟨2000, 2, 29⟩ = 11016 := by decide

/-- The year of a date follows the day, but for one cycle. -/
theorem year_bounds (day : Int) : ∃ cycle : Int,
    (400 * cycle ≤ (dateOfDay day).year ∧ (dateOfDay day).year ≤ 400 * cycle + 400) ∧
    146097 * cycle ≤ day + epochShift ∧ day + epochShift < 146097 * (cycle + 1) := by
  obtain ⟨cycle, year, dayOfYear, hyear, hin, rfl⟩ := exists_cycle day
  have hbound := daysBefore_add_lt hyear hin
  rw [dateOfDay_inYear cycle hyear hin]
  have hdate : (dateInYear (cycle * 400 + year) dayOfYear).year = cycle * 400 + year ∨
      (dateInYear (cycle * 400 + year) dayOfYear).year = cycle * 400 + year + 1 := by
    unfold dateInYear
    dsimp only
    split
    · exact .inl rfl
    · exact .inr rfl
  exact ⟨cycle, by omega, by omega, by omega⟩

end RecordMapper.Calendar
