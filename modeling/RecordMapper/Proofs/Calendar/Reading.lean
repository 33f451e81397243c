import RecordMapper.Proofs.Calendar.Moments

/-!
Reading back dates and moments as they are written.

* `readFrom_date`: both forms of a date read every written date, but four fixed digits of a year only
  the years up to 9999.
* `readMoment_writeDate`: a written date is read as the start of the day.
* `readMoment_write`: a written moment is read without what is less than a millisecond.
* `readMoment_write_none`: of a year with a sign no form reads a written moment.
-/
namespace RecordMapper.Calendar

set_option autoImplicit false

open RecordMapper.Text

/-! ## Runs of digits -/

/-- No run of digits goes on at the start of the text. -/
def NoDigit (cs : List Char) : Prop := ∀ c rest, cs = c :: rest → c.isDigit = false

theorem noDigit_nil : NoDigit [] := fun _ _ h => nomatch h

theorem noDigit_cons {c : Char} (h : c.isDigit = false) (rest : List Char) : NoDigit (c :: rest) := by
  rintro d rest' heq
  rw [← (List.cons.inj heq).1]
  exact h

theorem takeWhile_noDigit {cs : List Char} (h : NoDigit cs) (most : Nat) :
    (cs.take most).takeWhile Char.isDigit = [] := by
  cases cs with
  | nil => simp
  | cons c rest =>
    cases most with
    | zero => rfl
    | succ most => rw [List.take_succ_cons, List.takeWhile_cons_of_neg (by simp [h c rest rfl])]

section Runs

variable {digits rest : List Char} {most : Nat} (hdigits : ∀ c ∈ digits, c.isDigit = true)

include hdigits

theorem takeWhile_leading
    (hmost : digits.length = most ∨ digits.length < most ∧ NoDigit rest) :
    ((digits ++ rest).take most).takeWhile Char.isDigit = digits := by
  rcases hmost with hfull | ⟨hless, hrest⟩
  · rw [List.take_left' hfull, takeWhile_digits hdigits]
  · rw [List.take_append, List.take_of_length_le (Nat.le_of_lt hless),
      List.takeWhile_append_of_pos hdigits, takeWhile_noDigit hrest, List.append_nil]

theorem takeNumber_digits {least : Nat} (hleast : least ≤ digits.length)
    (hmost : digits.length = most ∨ digits.length < most ∧ NoDigit rest) :
    takeNumber least most (digits ++ rest) = some (foldDigits 0 digits, rest) := by
  unfold takeNumber
  simp only [takeWhile_leading hdigits hmost, List.drop_left, if_neg (Nat.not_lt.mpr hleast)]

theorem dropBlanks_digits (hne : digits ≠ []) : dropBlanks (digits ++ rest) = digits ++ rest := by
  obtain ⟨c, others, rfl, hc⟩ := exists_digit_cons hdigits hne
  exact dropBlanks_of_head (isBlank_of_isDigit hc) _

end Runs

theorem takeNumber_noDigit {cs : List Char} (h : NoDigit cs) {least : Nat} (hleast : 0 < least)
    (most : Nat) : takeNumber least most cs = none := by
  unfold takeNumber
  simp only [takeWhile_noDigit h]
  exact if_pos hleast

/-! ## Items -/

/-- The items of a family read two digits of a field. -/
def ReadsPair (item : Field → Item) : Prop :=
  ∀ (field : Field) (fs : Fields) (n : Nat) (rest : List Char), n < 100 →
    (item field).read fs (places 2 n ++ rest) = some (fs.set field n, rest)

theorem takeNumber_places {n least : Nat} (h : n < 100) (hleast : least ≤ 2) (rest : List Char) :
    takeNumber least 2 (places 2 n ++ rest) = some (n, rest) := by
  rw [takeNumber_digits (fun c hc => isDigit_of_mem_places hc) (by rwa [length_places])
    (.inl (length_places 2 n)), foldDigits_places h]

theorem readsPair_fixed : ReadsPair .fixed := by
  intro field fs n rest h
  simp only [Item.read, takeNumber_places h (Nat.le_refl 2), Option.map_some]

theorem readsPair_number : ReadsPair .number := by
  intro field fs n rest h
  have hblanks : dropBlanks (places 2 n ++ rest) = places 2 n ++ rest :=
    dropBlanks_digits (fun c hc => isDigit_of_mem_places hc)
      (List.ne_nil_of_length_pos (by simp))
  simp only [Item.read, hblanks, takeNumber_places h (show 1 ≤ 2 by decide), Option.map_some]

theorem read_oneOf {choices : List Char} {c : Char} (h : choices.contains c = true) (fs : Fields)
    (rest : List Char) : (Item.oneOf choices).read fs (c :: rest) = some (fs, rest) := if_pos h

/-- The milliseconds of a fraction. -/
theorem read_fraction {millis : Nat} (h : millis < 1000) (fs : Fields) {rest : List Char}
    (hrest : NoDigit rest) : Item.fraction.read fs ('.' :: (places 3 millis ++ rest)) =
      some ({ fs with nano := millis * 1000000 }, rest) := by
  have hdigits : ∀ c ∈ places 3 millis, c.isDigit = true := fun c hc => isDigit_of_mem_places hc
  have htaken : ((places 3 millis ++ rest).take 9).takeWhile Char.isDigit = places 3 millis :=
    takeWhile_leading hdigits (.inr ⟨by rw [length_places]; decide, hrest⟩)
  have hleft : rest.dropWhile Char.isDigit = rest := by
    cases rest with
    | nil => rfl
    | cons c rest => exact List.dropWhile_cons_of_neg (by simp [hrest c rest rfl])
  have hvalue : foldDigits 0 (places 3 millis) = millis := foldDigits_places h
  have hpower : Nat.pow 10 (9 - (places 3 millis).length) = 1000000 := by
    rw [length_places]
  have hne : (places 3 millis).isEmpty = false := rfl
  have hfraction : takeFraction (places 3 millis ++ rest) = some (millis * 1000000, rest) := by
    unfold takeFraction
    simp only [htaken, hne, Bool.false_eq_true, if_false, hvalue, hpower, List.drop_left, hleft]
  simp only [Item.read, hfraction, Option.map_some]

/-! ## Years -/

theorem takeNumber_year {n least : Nat} (h : n < 10000) (hleast : least ≤ 4) (rest : List Char) :
    takeNumber least 4 (padded 4 n ++ rest) = some (n, rest) := by
  have hlength : (padded 4 n).length = 4 := length_padded (by decide) h
  rw [takeNumber_digits (fun c hc => isDigit_of_mem_padded hc) (by rwa [hlength]) (.inl hlength),
    foldDigits_padded]

theorem exists_padded_cons (n : Nat) :
    ∃ c rest, padded 4 n = c :: rest ∧ c.isDigit = true :=
  exists_digit_cons (fun _ hc => isDigit_of_mem_padded hc)
    (List.ne_nil_of_length_pos (Nat.lt_of_lt_of_le (by decide) (le_length_padded 4 n)))

theorem takeYear_padded {n : Nat} (h : n < 10000) (rest : List Char) :
    takeYear (padded 4 n ++ rest) = some ((n : Int), rest) := by
  have hread := takeNumber_year h (show 1 ≤ 4 by decide) rest
  obtain ⟨c, others, hcons, hc⟩ := exists_padded_cons n
  rw [hcons, List.cons_append] at hread ⊢
  unfold takeYear
  split
  · next heq =>
    rw [(List.cons.inj heq).1] at hc
    exact absurd hc (by decide)
  · next heq =>
    rw [(List.cons.inj heq).1] at hc
    exact absurd hc (by decide)
  · rw [hread, Option.map_some]

theorem exists_writeYear_cons (year : Int) :
    ∃ c rest, writeYear year = c :: rest ∧ isBlank c = false := by
  unfold writeYear
  split
  · exact ⟨'-', _, rfl, by decide⟩
  · split
    · exact ⟨'+', _, rfl, by decide⟩
    · obtain ⟨c, rest, hcons, hc⟩ := exists_padded_cons year.natAbs
      exact ⟨c, rest, hcons, isBlank_of_isDigit hc⟩

section Years

variable {rest : List Char} (hrest : NoDigit rest)

include hrest

theorem takeNumber_signed (n : Nat) :
    takeNumber 1 (padded 4 n ++ rest).length (padded 4 n ++ rest) = some (n, rest) := by
  have hlength := le_length_padded 4 n
  have hmost : (padded 4 n).length = (padded 4 n ++ rest).length ∨
      (padded 4 n).length < (padded 4 n ++ rest).length ∧ NoDigit rest := by
    cases rest with
    | nil => exact .inl (by simp)
    | cons c rest => exact .inr ⟨by simp, hrest⟩
  rw [takeNumber_digits (fun c hc => isDigit_of_mem_padded hc) (by omega) hmost, foldDigits_padded]

theorem takeYear_writeYear (year : Int) : takeYear (writeYear year ++ rest) = some (year, rest) := by
  unfold writeYear
  split
  · next hnegative =>
    have hvalue : -(year.natAbs : Int) = year := by omega
    rw [List.cons_append, takeYear, takeNumber_signed hrest]
    simp only [Option.map_some, hvalue]
  · split
    · next hlarge =>
      have hvalue : (year.natAbs : Int) = year := by omega
      rw [List.cons_append, takeYear, takeNumber_signed hrest]
      simp only [Option.map_some, hvalue]
    · have hvalue : (year.natAbs : Int) = year := by omega
      rw [takeYear_padded (by omega) rest]
      simp only [hvalue]

theorem read_year (fs : Fields) (year : Int) :
    Item.year.read fs (writeYear year ++ rest) = some ({ fs with year := year }, rest) := by
  have hblanks : dropBlanks (writeYear year ++ rest) = writeYear year ++ rest := by
    obtain ⟨c, others, hcons, hc⟩ := exists_writeYear_cons year
    rw [hcons]
    exact dropBlanks_of_head hc _
  simp only [Item.read, hblanks, takeYear_writeYear hrest, Option.map_some]

end Years

/-- Four digits hold the years from 0 to 9999. -/
theorem read_fixedYear (fs : Fields) {year : Int} (h : 0 ≤ year ∧ year ≤ 9999) (rest : List Char) :
    Item.fixedYear.read fs (writeYear year ++ rest) = some ({ fs with year := year }, rest) := by
  have hwritten : writeYear year = padded 4 year.natAbs := by
    unfold writeYear
    rw [if_neg (by omega), if_neg (by omega)]
  have hvalue : (year.natAbs : Int) = year := by omega
  rw [hwritten]
  simp only [Item.read, takeNumber_year (show year.natAbs < 10000 by omega) (Nat.le_refl 4),
    Option.map_some, hvalue]

theorem read_fixedYear_none (fs : Fields) {year : Int} (h : ¬ (0 ≤ year ∧ year ≤ 9999))
    (rest : List Char) : Item.fixedYear.read fs (writeYear year ++ rest) = none := by
  obtain ⟨sign, digits, hwritten, hsign⟩ :
      ∃ sign digits, writeYear year = sign :: digits ∧ sign.isDigit = false := by
    unfold writeYear
    split
    · exact ⟨'-', _, rfl, rfl⟩
    · rw [if_pos (by omega)]
      exact ⟨'+', _, rfl, rfl⟩
  have hnone : takeNumber 4 4 (writeYear year ++ rest) = none := by
    rw [hwritten]
    exact takeNumber_noDigit (noDigit_cons hsign _) (by decide) 4
  simp only [Item.read, hnone, Option.map_none]

/-! ## Dates -/

theorem readFrom_append (p q : Pattern) (fs : Fields) (cs : List Char) :
    Pattern.readFrom (p ++ q) fs cs = (p.readFrom fs cs).bind fun r => q.readFrom r.1 r.2 := by
  induction p generalizing fs cs with
  | nil => rfl
  | cons item items ih =>
    simp only [List.cons_append, Pattern.readFrom]
    cases item.read fs cs with
    | none => rfl
    | some r => exact ih r.1 r.2

/-- What follows the year of a date. -/
def dayItems (item : Field → Item) : Pattern := [.oneOf ['-'], item .month, .oneOf ['-'], item .day]

/-- The fields with a date put in. -/
def Fields.withDate (fs : Fields) (date : CalendarDate) : Fields :=
  { fs with year := date.year, month := date.month, day := date.day }

section Dates

variable {date : CalendarDate} (hdate : date.Exists)

include hdate

theorem readFrom_day {item : Field → Item} (hitem : ReadsPair item) (fs : Fields)
    (rest : List Char) :
    (dayItems item).readFrom fs ('-' :: (places 2 date.month ++ '-' :: (places 2 date.day ++ rest))) =
      some ((fs.set .month date.month).set .day date.day, rest) := by
  have hmonth : date.month < 100 := Nat.lt_of_le_of_lt hdate.month.2 (by decide)
  have hday : date.day < 100 := by
    have hlength : daysInMonth date.year date.month ≤ 31 := by
      unfold daysInMonth
      split <;> split <;> decide
    have hlast := hdate.day.2
    omega
  simp only [dayItems, Pattern.readFrom, read_oneOf (show ['-'].contains '-' = true from rfl),
    hitem _ _ _ _ hmonth, hitem _ _ _ _ hday]

theorem readFrom_date (fs : Fields) (rest : List Char) :
    datePattern.readFrom fs (date.write ++ rest) = some (fs.withDate date, rest) := by
  have hpattern : datePattern = .year :: dayItems .number := rfl
  unfold CalendarDate.write
  simp only [List.append_assoc, List.cons_append]
  rw [hpattern, Pattern.readFrom, read_year (noDigit_cons rfl _)]
  exact readFrom_day hdate readsPair_number _ rest

theorem readFrom_fixedDate (hyear : 0 ≤ date.year ∧ date.year ≤ 9999) (fs : Fields)
    (rest : List Char) :
    Pattern.readFrom (.fixedYear :: dayItems .fixed) fs (date.write ++ rest) =
      some (fs.withDate date, rest) := by
  unfold CalendarDate.write
  simp only [List.append_assoc, List.cons_append]
  rw [Pattern.readFrom, read_fixedYear fs hyear]
  exact readFrom_day hdate readsPair_fixed _ rest

end Dates

theorem readFrom_fixedDate_none {date : CalendarDate} (hyear : ¬ (0 ≤ date.year ∧ date.year ≤ 9999))
    (fs : Fields) (rest : List Char) :
    Pattern.readFrom (.fixedYear :: dayItems .fixed) fs (date.write ++ rest) = none := by
  unfold CalendarDate.write
  simp only [List.append_assoc, List.cons_append]
  rw [Pattern.readFrom, read_fixedYear_none fs hyear]

/-! ## Times of day -/

def clockItems (item : Field → Item) : Pattern :=
  [item .hour, .oneOf [':'], item .minute, .oneOf [':'], item .second, .fraction]

/-- The time without what is less than a millisecond. -/
def TimeOfDay.toMillis (t : TimeOfDay) : TimeOfDay := ⟨t.second, t.nano / 1000000 * 1000000⟩

/-- A time of day with its milliseconds. -/
def TimeOfDay.writeMillis (t : TimeOfDay) : List Char :=
  t.writeClock ++ '.' :: places 3 (t.fraction / 1000000)

theorem writeMillis_toMillis (t : TimeOfDay) : t.toMillis.writeMillis = t.writeMillis := by
  have hsecond : t.toMillis.secondOfMinute = t.secondOfMinute := by
    show t.second % 60 + t.nano / 1000000 * 1000000 / 1000000000 =
      t.second % 60 + t.nano / 1000000000
    omega
  have hfraction : t.toMillis.fraction / 1000000 = t.fraction / 1000000 := by
    show t.nano / 1000000 * 1000000 % 1000000000 / 1000000 = t.nano % 1000000000 / 1000000
    omega
  unfold TimeOfDay.writeMillis TimeOfDay.writeClock
  rw [hsecond, hfraction]
  rfl

def Fields.withTime (fs : Fields) (t : TimeOfDay) : Fields :=
  { fs with
    hour := t.hour, minute := t.minute, second := t.secondOfMinute
    nano := t.fraction / 1000000 * 1000000 }

section Times

variable {t : TimeOfDay} (ht : t.Proper)

include ht

theorem clock_bounds : t.hour ≤ 23 ∧ t.minute ≤ 59 ∧ t.secondOfMinute ≤ 60 := by
  have hsecond : t.second < 86400 := ht.second
  have hnano : t.nano < 2 * 1000000000 := ht.nano
  have hleap : t.nano / 1000000000 ≤ 1 := by omega
  refine ⟨?_, ?_, ?_⟩
  · show t.second / 3600 ≤ 23
    omega
  · show t.second / 60 % 60 ≤ 59
    omega
  · show t.second % 60 + t.nano / 1000000000 ≤ 60
    omega

theorem readFrom_clock {item : Field → Item} (hitem : ReadsPair item) (fs : Fields)
    {rest : List Char} (hrest : NoDigit rest) :
    (clockItems item).readFrom fs (t.writeMillis ++ rest) = some (fs.withTime t, rest) := by
  obtain ⟨hhour, hminute, hsecond⟩ := clock_bounds ht
  have hmillis : t.fraction / 1000000 < 1000 := by
    show t.nano % 1000000000 / 1000000 < 1000
    omega
  unfold TimeOfDay.writeMillis TimeOfDay.writeClock
  simp only [List.append_assoc, List.cons_append, clockItems, Pattern.readFrom,
    read_oneOf (show [':'].contains ':' = true from rfl),
    hitem _ _ _ _ (show t.hour < 100 by omega), hitem _ _ _ _ (show t.minute < 100 by omega),
    hitem _ _ _ _ (show t.secondOfMinute < 100 by omega), read_fraction hmillis _ hrest]
  rfl

/-- Only the last second of a minute is followed by a leap second. -/
theorem leap_cases : t.nano / 1000000000 = 0 ∨ t.nano / 1000000000 = 1 ∧ t.second % 60 = 59 := by
  have hnano : t.nano < 2 * 1000000000 := ht.nano
  have hlast : 1000000000 ≤ t.nano → t.second % 60 = 59 := ht.leap
  omega

theorem second_of_clock :
    t.hour * 3600 + t.minute * 60 + min t.secondOfMinute 59 = t.second := by
  have hleap := leap_cases ht
  show t.second / 3600 * 3600 + t.second / 60 % 60 * 60 +
    min (t.second % 60 + t.nano / 1000000000) 59 = t.second
  omega

theorem nano_of_clock : t.fraction / 1000000 * 1000000 +
    (if t.secondOfMinute = 60 then nanosPerSecond else 0) = t.nano / 1000000 * 1000000 := by
  show t.nano % 1000000000 / 1000000 * 1000000 +
    (if t.second % 60 + t.nano / 1000000000 = 60 then 1000000000 else 0) =
      t.nano / 1000000 * 1000000
  rcases leap_cases ht with hplain | ⟨hleap, hlast⟩
  · rw [if_neg (by omega)]
    omega
  · rw [if_pos (by omega)]
    omega

/-- The fields of a day and a time are those of the moment. -/
theorem moment?_withTime {day : Int}
    (hyear : leastYear ≤ (dateOfDay day).year ∧ (dateOfDay day).year ≤ greatestYear) :
    ((blankFields.withDate (dateOfDay day)).withTime t).moment? = some ⟨day, t.toMillis⟩ := by
  have hvalid : (dateOfDay day).isValid = true := isValid_iff.mpr ⟨hyear, dateOfDay_exists day⟩
  unfold Fields.moment?
  rw [if_pos ⟨hvalid, clock_bounds ht⟩]
  show some (⟨dayOfDate (dateOfDay day), ⟨t.hour * 3600 + t.minute * 60 + min t.secondOfMinute 59,
    t.fraction / 1000000 * 1000000 + if t.secondOfMinute = 60 then nanosPerSecond else 0⟩⟩ : Moment) =
      some ⟨day, t.toMillis⟩
  rw [dayOfDate_dateOfDay, second_of_clock ht, nano_of_clock ht]
  rfl

end Times

/-! ## Moments -/

/-- The moment without what is less than a millisecond. -/
def Moment.toMillis (m : Moment) : Moment := ⟨m.day, m.time.toMillis⟩

theorem write_eq (m : Moment) :
    m.write = (dateOfDay m.day).write ++ 'T' :: (m.time.writeMillis ++ ['Z']) := by
  simp [Moment.write, Moment.writeDate, TimeOfDay.writeMillis]

theorem write_toMillis (m : Moment) : m.toMillis.write = m.write := by
  rw [write_eq, write_eq]
  unfold Moment.toMillis
  rw [writeMillis_toMillis]

theorem before_zero {m : Moment} (h : m.time.second < secondsPerDay) : m.before 0 = m := by
  obtain ⟨day, second, nano⟩ := m
  have hsecond : second < 86400 := h
  have hday : day + ((second : Int) - 0) / (86400 : Nat) = day := by omega
  have hkept : (((second : Int) - 0) % (86400 : Nat)).toNat = second := by omega
  show (⟨day + ((second : Int) - 0) / (86400 : Nat), ⟨(((second : Int) - 0) % (86400 : Nat)).toNat,
    nano⟩⟩ : Moment) = ⟨day, ⟨second, nano⟩⟩
  rw [hday, hkept]

theorem offsetPattern_eq :
    offsetPattern = (.fixedYear :: dayItems .fixed) ++ .oneOf ['T', 't', ' '] :: clockItems .fixed :=
  rfl

/-- A date with a sign has no four digits in front, and after another one nothing follows. -/
theorem readOffsetMoment_date {date : CalendarDate} (hdate : date.Exists) :
    readOffsetMoment (date.write ++ []) = none := by
  unfold readOffsetMoment
  rw [offsetPattern_eq, readFrom_append]
  by_cases hyear : 0 ≤ date.year ∧ date.year ≤ 9999
  · rw [readFrom_fixedDate hdate hyear]
    rfl
  · rw [readFrom_fixedDate_none hyear]
    rfl

theorem read_append (p : Pattern) {date : CalendarDate} (hdate : date.Exists) (rest : List Char) :
    Pattern.read (datePattern ++ p) (date.write ++ rest) =
      match p.readFrom (blankFields.withDate date) rest with
      | some (fs, []) => fs.moment?
      | _ => none := by
  unfold Pattern.read
  rw [readFrom_append, readFrom_date hdate]
  rfl

/-- The patterns with a blank before the time do not go on after a written date. -/
theorem read_blanks_none (items : Pattern) {date : CalendarDate} (hdate : date.Exists)
    {rest : List Char} (hblanks : dropBlanks rest = rest) (hrest : NoDigit rest) :
    Pattern.read (datePattern ++ .blanks :: .number .hour :: items) (date.write ++ rest) = none := by
  rw [read_append _ hdate]
  simp only [Pattern.readFrom, Item.read, hblanks,
    takeNumber_noDigit hrest (show 0 < 1 by decide), Option.map_none]

/-- What only a bare date can be is read as one. -/
theorem readMoment_bare {cs : List Char} (hoffset : readOffsetMoment cs = none)
    (hblanks : ∀ items, Pattern.read (datePattern ++ .blanks :: .number .hour :: items) cs = none)
    (hletter : Pattern.read (datePattern ++ .oneOf ['T'] :: secondPattern) cs = none) :
    readMoment cs = datePattern.read cs := by
  have hseconds : Pattern.read (datePattern ++ .blanks :: secondPattern) cs = none := hblanks _
  have hminutes : Pattern.read (datePattern ++ .blanks :: minutePattern) cs = none := hblanks _
  unfold readMoment
  rw [hoffset]
  simp only [patterns, List.findSome?, hseconds, hletter, hminutes]
  cases datePattern.read cs <;> rfl

theorem readMoment_writeDate {m : Moment} (hm : m.Proper) :
    readMoment m.writeDate = some ⟨m.day, ⟨0, 0⟩⟩ := by
  have hdate := dateOfDay_exists m.day
  have hmidnight : TimeOfDay.Proper ⟨0, 0⟩ := ⟨by decide, by decide, by decide⟩
  have hwritten : m.writeDate = (dateOfDay m.day).write ++ [] := (List.append_nil _).symm
  have hletter : Pattern.read (datePattern ++ .oneOf ['T'] :: secondPattern)
      ((dateOfDay m.day).write ++ []) = none := by
    rw [read_append _ hdate]
    rfl
  have hbare := read_append [] hdate []
  rw [List.append_nil] at hbare
  rw [hwritten, readMoment_bare (readOffsetMoment_date hdate)
    (fun items => read_blanks_none items hdate rfl noDigit_nil) hletter, hbare]
  exact moment?_withTime hmidnight hm.year

theorem readMoment_write {m : Moment} (hm : m.Proper)
    (hyear : 0 ≤ (dateOfDay m.day).year ∧ (dateOfDay m.day).year ≤ 9999) :
    readMoment m.write = some m.toMillis := by
  have hread : offsetPattern.readFrom blankFields m.write =
      some ((blankFields.withDate (dateOfDay m.day)).withTime m.time, ['Z']) := by
    rw [write_eq, offsetPattern_eq, readFrom_append,
      readFrom_fixedDate (dateOfDay_exists m.day) hyear, Option.bind_some, Pattern.readFrom,
      read_oneOf rfl]
    exact readFrom_clock hm.time readsPair_fixed _ (noDigit_cons rfl [])
  have hmoment : readOffsetMoment m.write = some (m.toMillis.before 0) := by
    unfold readOffsetMoment
    rw [hread]
    simp only [Option.bind_eq_bind, Option.bind_some, moment?_withTime hm.time hm.year]
    rfl
  unfold readMoment
  rw [hmoment, before_zero (m := m.toMillis) hm.time.second]

theorem readMoment_write_none {m : Moment} (hm : m.Proper)
    (hyear : ¬ (0 ≤ (dateOfDay m.day).year ∧ (dateOfDay m.day).year ≤ 9999)) :
    readMoment m.write = none := by
  have hdate := dateOfDay_exists m.day
  have hoffset : readOffsetMoment m.write = none := by
    unfold readOffsetMoment
    rw [write_eq, offsetPattern_eq, readFrom_append, readFrom_fixedDate_none hyear]
    rfl
  have hblanks : ∀ items,
      Pattern.read (datePattern ++ .blanks :: .number .hour :: items) m.write = none := by
    intro items
    rw [write_eq]
    exact read_blanks_none items hdate (dropBlanks_of_head (by decide) _) (noDigit_cons rfl _)
  have hletter : Pattern.read (datePattern ++ .oneOf ['T'] :: secondPattern) m.write = none := by
    have hclock : secondPattern = clockItems .number := rfl
    rw [write_eq, read_append _ hdate, Pattern.readFrom, read_oneOf rfl, hclock]
    dsimp only
    rw [readFrom_clock hm.time readsPair_number _ (noDigit_cons rfl [])]
  have hbare := read_append [] hdate ('T' :: (m.time.writeMillis ++ ['Z']))
  rw [List.append_nil, ← write_eq] at hbare
  rw [readMoment_bare hoffset hblanks hletter, hbare]
  rfl

/-! ## Blanks -/

theorem isBlank_of_mem_places {width n : Nat} : ∀ c ∈ places width n, isBlank c = false :=
  fun _ hc => isBlank_of_isDigit (isDigit_of_mem_places hc)

theorem isBlank_of_mem_padded {width n : Nat} : ∀ c ∈ padded width n, isBlank c = false :=
  fun _ hc => isBlank_of_isDigit (isDigit_of_mem_padded hc)

theorem isBlank_of_mem_writeYear (year : Int) : ∀ c ∈ writeYear year, isBlank c = false := by
  unfold writeYear
  split
  · exact List.forall_mem_cons.mpr ⟨by decide, isBlank_of_mem_padded⟩
  · split
    · exact List.forall_mem_cons.mpr ⟨by decide, isBlank_of_mem_padded⟩
    · exact isBlank_of_mem_padded

theorem isBlank_of_mem_writeDate (m : Moment) : ∀ c ∈ m.writeDate, isBlank c = false := by
  simp only [Moment.writeDate, CalendarDate.write, List.forall_mem_append, List.forall_mem_cons]
  exact ⟨⟨isBlank_of_mem_writeYear _, by decide, isBlank_of_mem_places⟩, by decide,
    isBlank_of_mem_places⟩

theorem isBlank_of_mem_write (m : Moment) : ∀ c ∈ m.write, isBlank c = false := by
  simp only [Moment.write, TimeOfDay.writeClock, List.forall_mem_append, List.forall_mem_cons]
  exact ⟨⟨⟨isBlank_of_mem_writeDate m, by decide, ⟨isBlank_of_mem_places, by decide,
    isBlank_of_mem_places⟩, by decide, isBlank_of_mem_places⟩, by decide, isBlank_of_mem_places⟩,
    by decide, nofun⟩

end RecordMapper.Calendar
