import RecordMapper.Calendar.Reader
import RecordMapper.Proofs.Calendar.Days
import RecordMapper.Proofs.Text

/-!
The moments that there are.

* `Moment.Proper`: the date lies in the range of years, and a leap second is the last of a minute.
* `proper_ofSeconds?`: a count of seconds gives such a moment.
* `proper_readMoment`: so does every text that is read as one, also with an offset.
-/
namespace RecordMapper.Calendar

set_option autoImplicit false

open RecordMapper.Text

structure TimeOfDay.Proper (t : TimeOfDay) : Prop where
  second : t.second < secondsPerDay
  nano : t.nano < 2 * nanosPerSecond
  leap : nanosPerSecond ≤ t.nano → t.second % 60 = 59

structure Moment.Proper (m : Moment) : Prop where
  year : leastYear ≤ (dateOfDay m.day).year ∧ (dateOfDay m.day).year ≤ greatestYear
  time : m.time.Proper

theorem isValid_iff {date : CalendarDate} : date.isValid = true ↔
    (leastYear ≤ date.year ∧ date.year ≤ greatestYear) ∧ date.Exists := by
  simp only [CalendarDate.isValid, Bool.and_eq_true, decide_eq_true_eq]
  constructor
  · rintro ⟨⟨⟨⟨⟨hleast, hgreatest⟩, hmonth⟩, hmonth'⟩, hday⟩, hday'⟩
    exact ⟨⟨hleast, hgreatest⟩, ⟨hmonth, hmonth'⟩, hday, hday'⟩
  · rintro ⟨⟨hleast, hgreatest⟩, ⟨hmonth, hmonth'⟩, hday, hday'⟩
    exact ⟨⟨⟨⟨⟨hleast, hgreatest⟩, hmonth⟩, hmonth'⟩, hday⟩, hday'⟩

theorem proper_ofSeconds? {second : Int} {nano : Nat} {m : Moment} (hnano : nano < nanosPerSecond)
    (h : Moment.ofSeconds? second nano = some m) : m.Proper := by
  unfold Moment.ofSeconds? dateOfDay? at h
  dsimp only at h
  split at h
  · next hyear =>
    obtain rfl := Option.some.inj h
    refine ⟨hyear, ?_, ?_, fun hleap => absurd hnano (Nat.not_lt.mpr hleap)⟩
    · show (second % (86400 : Nat)).toNat < 86400
      omega
    · show nano < 2 * nanosPerSecond
      omega
  · cases h

theorem proper_ofMicros? {micros : Int} {m : Moment} (h : Moment.ofMicros? micros = some m) :
    m.Proper := by
  refine proper_ofSeconds? ?_ h
  show (micros % (1000000 : Nat)).toNat * 1000 < 1000000000
  omega

/-! ## Fields -/

theorem foldDigits_leading (most : Nat) (cs : List Char) :
    ((cs.take most).takeWhile Char.isDigit).length ≤ most ∧
      foldDigits 0 ((cs.take most).takeWhile Char.isDigit) <
        10 ^ ((cs.take most).takeWhile Char.isDigit).length := by
  have hlength := (List.takeWhile_prefix (p := Char.isDigit) (l := cs.take most)).length_le
  have hvalue := foldDigits_lt (List.all_eq_true.mp (List.all_takeWhile (p := Char.isDigit)
    (l := cs.take most))) 0
  rw [Nat.zero_add, Nat.one_mul] at hvalue
  exact ⟨Nat.le_trans hlength (List.length_take_le most cs), hvalue⟩

theorem takeNumber_lt {least most n : Nat} {cs rest : List Char}
    (h : takeNumber least most cs = some (n, rest)) : n < 10 ^ most := by
  obtain ⟨hlength, hvalue⟩ := foldDigits_leading most cs
  unfold takeNumber at h
  dsimp only at h
  split at h
  · cases h
  · obtain ⟨rfl, -⟩ := Prod.mk.inj (Option.some.inj h)
    exact Nat.lt_of_lt_of_le hvalue (Nat.pow_le_pow_right (by decide) hlength)

theorem takeFraction_lt {n : Nat} {cs rest : List Char} (h : takeFraction cs = some (n, rest)) :
    n < nanosPerSecond := by
  obtain ⟨hlength, hvalue⟩ := foldDigits_leading 9 cs
  unfold takeFraction at h
  dsimp only at h
  generalize (cs.take 9).takeWhile Char.isDigit = digits at h hlength hvalue
  split at h
  · cases h
  · obtain ⟨rfl, -⟩ := Prod.mk.inj (Option.some.inj h)
    calc foldDigits 0 digits * 10 ^ (9 - digits.length)
        < 10 ^ digits.length * 10 ^ (9 - digits.length) :=
          Nat.mul_lt_mul_of_pos_right hvalue (Nat.pow_pos (by decide))
      _ = 10 ^ 9 := by rw [← Nat.pow_add, Nat.add_sub_cancel' hlength]

/-- The fields hold a year of some kind and less than a second of nanoseconds. -/
structure Fields.Within (years : Int → Prop) (fs : Fields) : Prop where
  year : years fs.year
  nano : fs.nano < nanosPerSecond

theorem Fields.Within.set {years : Int → Prop} {fs : Fields} (h : fs.Within years) (field : Field)
    (n : Nat) : (fs.set field n).Within years := by
  cases field <;> exact ⟨h.year, h.nano⟩

/-- Years of four digits are of the kind, and so are all if a year of any length is read. -/
structure Pattern.Years (years : Int → Prop) (p : Pattern) : Prop where
  fixed : ∀ n : Nat, n < 10000 → years n
  free : .year ∈ p → ∀ y, years y

theorem within_read {years : Int → Prop} {item : Item} {fs : Fields} {cs : List Char}
    {r : Fields × List Char} (hyears : Pattern.Years years [item]) (hfs : fs.Within years)
    (h : item.read fs cs = some r) : r.1.Within years := by
  cases item with
  | year =>
    obtain ⟨⟨y, rest⟩, -, rfl⟩ := Option.map_eq_some_iff.mp h
    exact ⟨hyears.free (List.mem_singleton.mpr rfl) y, hfs.nano⟩
  | number field =>
    obtain ⟨⟨n, rest⟩, -, rfl⟩ := Option.map_eq_some_iff.mp h
    exact hfs.set field n
  | fixedYear =>
    obtain ⟨⟨n, rest⟩, htaken, rfl⟩ := Option.map_eq_some_iff.mp h
    exact ⟨hyears.fixed n (takeNumber_lt htaken), hfs.nano⟩
  | fixed field =>
    obtain ⟨⟨n, rest⟩, -, rfl⟩ := Option.map_eq_some_iff.mp h
    exact hfs.set field n
  | oneOf choices =>
    unfold Item.read at h
    dsimp only at h
    split at h
    · split at h
      · obtain rfl := Option.some.inj h
        exact hfs
      · cases h
    · cases h
  | blanks =>
    obtain rfl := Option.some.inj h
    exact hfs
  | fraction =>
    unfold Item.read at h
    dsimp only at h
    split at h
    · obtain ⟨⟨n, rest⟩, htaken, rfl⟩ := Option.map_eq_some_iff.mp h
      exact ⟨hfs.year, takeFraction_lt htaken⟩
    · obtain rfl := Option.some.inj h
      exact hfs

theorem within_readFrom {years : Int → Prop} {p : Pattern} {fs : Fields} {cs : List Char}
    {r : Fields × List Char} (hyears : Pattern.Years years p) (hfs : fs.Within years)
    (h : p.readFrom fs cs = some r) : r.1.Within years := by
  induction p generalizing fs cs with
  | nil =>
    obtain rfl := Option.some.inj h
    exact hfs
  | cons item items ih =>
    have hfirst : Pattern.Years years [item] :=
      ⟨hyears.fixed, fun hmem => hyears.free (by
        rw [List.mem_singleton.mp hmem]
        exact List.mem_cons_self ..)⟩
    unfold Pattern.readFrom at h
    split at h
    · next fs' rest hread =>
      exact ih ⟨hyears.fixed, fun hmem => hyears.free (List.mem_cons_of_mem item hmem)⟩
        (within_read hfirst hfs hread) h
    · cases h

theorem proper_moment? {fs : Fields} {m : Moment} (hnano : fs.nano < nanosPerSecond)
    (h : fs.moment? = some m) : m.Proper ∧ (dateOfDay m.day).year = fs.year := by
  unfold Fields.moment? at h
  dsimp only at h
  split at h
  · next hvalid =>
    obtain rfl := Option.some.inj h
    obtain ⟨hdate, hhour, hminute, hsecond⟩ := hvalid
    obtain ⟨hyear, hexists⟩ := isValid_iff.mp hdate
    have hback := dateOfDay_dayOfDate hexists
    refine ⟨⟨by rwa [hback], ?_, ?_, ?_⟩, by rw [hback]⟩
    · show fs.hour * 3600 + fs.minute * 60 + min fs.second 59 < 86400
      omega
    · dsimp only
      split <;> omega
    · dsimp only
      split <;> omega
  · cases h

/-! ## Offsets -/

/-- Whole minutes of less than a day. -/
structure IsOffset (offset : Int) : Prop where
  minutes : offset % 60 = 0
  bounds : -86400 < offset ∧ offset < 86400

theorem isOffset_zero : IsOffset 0 := ⟨rfl, by decide⟩

theorem isOffset_readOffset {cs : List Char} {offset : Int} (h : readOffset cs = some offset) :
    IsOffset offset := by
  unfold readOffset at h
  split at h
  · obtain rfl := Option.some.inj h
    exact isOffset_zero
  · obtain rfl := Option.some.inj h
    exact isOffset_zero
  · split at h
    · obtain ⟨⟨hours, rest⟩, -, h⟩ := Option.bind_eq_some_iff.mp h
      dsimp only at h
      split at h
      · obtain ⟨_, -, h⟩ := Option.bind_eq_some_iff.mp h
        obtain ⟨⟨minutes, rest⟩, -, h⟩ := Option.bind_eq_some_iff.mp h
        dsimp only at h
        split at h
        · next hbounds =>
          obtain rfl := Option.some.inj h
          constructor <;> split <;> omega
        · cases h
      · cases h
    · cases h
  · cases h

theorem proper_before {m : Moment} {offset : Int} (hm : m.Proper)
    (hyear : 0 ≤ (dateOfDay m.day).year ∧ (dateOfDay m.day).year ≤ 9999)
    (hoffset : IsOffset offset) : (m.before offset).Proper := by
  obtain ⟨hsecond, hnano, hleap⟩ := hm.time
  obtain ⟨hminutes, hbounds⟩ := hoffset
  have hsecond' : m.time.second < 86400 := hsecond
  refine ⟨?_, ?_, hnano, fun h => ?_⟩
  · -- The day before and the day after lie in the same cycle or in one next to it.
    obtain ⟨cycle, hcycle, hday⟩ := year_bounds m.day
    obtain ⟨cycle', hcycle', hday'⟩ := year_bounds (m.before offset).day
    have hnear : (m.before offset).day = m.day + (m.time.second - offset) / 86400 := rfl
    unfold leastYear greatestYear
    omega
  · show (((m.time.second : Int) - offset) % (86400 : Nat)).toNat < 86400
    omega
  · have hlast := hleap h
    show (((m.time.second : Int) - offset) % (86400 : Nat)).toNat % 60 = 59
    omega

theorem proper_readOffsetMoment {cs : List Char} {m : Moment} (h : readOffsetMoment cs = some m) :
    m.Proper := by
  obtain ⟨⟨fs, rest⟩, hread, h⟩ := Option.bind_eq_some_iff.mp h
  obtain ⟨moment, hmoment, h⟩ := Option.bind_eq_some_iff.mp h
  obtain ⟨offset, hoffset, h⟩ := Option.bind_eq_some_iff.mp h
  obtain rfl := Option.some.inj h
  have hyears : Pattern.Years (fun y => 0 ≤ y ∧ y ≤ 9999) offsetPattern :=
    ⟨fun n hn => by omega, fun hmem => by simp [offsetPattern] at hmem⟩
  have hwithin := within_readFrom hyears ⟨by decide, by decide⟩ hread
  obtain ⟨hproper, hyear⟩ := proper_moment? hwithin.nano hmoment
  refine proper_before hproper ?_ (isOffset_readOffset hoffset)
  rw [hyear]
  exact hwithin.year

theorem proper_read {p : Pattern} {cs : List Char} {m : Moment} (h : p.read cs = some m) :
    m.Proper := by
  have hyears : Pattern.Years (fun _ => True) p := ⟨fun _ _ => trivial, fun _ _ => trivial⟩
  unfold Pattern.read at h
  split at h
  · next fs hread =>
    have hwithin := within_readFrom hyears ⟨trivial, by decide⟩ hread
    exact (proper_moment? hwithin.nano h).1
  · cases h

theorem proper_readMoment {cs : List Char} {m : Moment} (h : readMoment cs = some m) : m.Proper := by
  unfold readMoment at h
  split at h
  · next hread =>
    obtain rfl := Option.some.inj h
    exact proper_readOffsetMoment hread
  · obtain ⟨p, -, hread⟩ := List.exists_of_findSome?_eq_some h
    exact proper_read hread

end RecordMapper.Calendar
