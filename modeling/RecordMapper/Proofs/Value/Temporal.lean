import RecordMapper.Proofs.Calendar.Clock
import RecordMapper.Proofs.Calendar.Reading
import RecordMapper.Proofs.Json.Strings
import RecordMapper.Proofs.Related.Owners
import RecordMapper.Proofs.Value.Identifiers

/-!
Dates, times and time stamps as JSON and as keys.

* `Value.ShowsTime`: the JSON form of a time names its microseconds since midnight, and is null for
  what is no time of day.
* `time_shown_iff`: the count of a time is first reduced by whole periods of `2 ^ 32` seconds, so a
  count is shown as what it is unless one that is out of range becomes a time of day.
* `temporal_key_iff`: of one type, the key of a representable value tells which it is, but for time
  stamps within one millisecond.
-/
namespace RecordMapper

set_option autoImplicit false

open RecordMapper.Calendar RecordMapper.Text

/-! ## Times of day -/

namespace Value

/-- The JSON form names the count if it is a time of day, and is null if it is none. -/
structure ShowsTime (v : Value) (micros : Int) : Prop where
  shown : IsTimeOfDay micros → ∃ s, v.toJson = .string s ∧ clockMicros? s.toList = some micros.toNat
  hidden : ¬IsTimeOfDay micros → v.toJson = .null

theorem toJson_time (micros : Int64) :
    (time micros).toJson =
      jsonOfChars ((TimeOfDay.ofMicros? micros.toInt).map TimeOfDay.write) := by
  rw [toJson]

theorem time_shows_remainder (micros : Int64) :
    (time micros).ShowsTime (micros.toInt % clockPeriod) where
  shown h := by
    have hbound : (micros.toInt % clockPeriod).toNat / 1000000 < secondsPerDay := by
      have hday := h.2
      show _ < 86400
      omega
    have hvalue : (micros.toInt % clockPeriod).toNat / 1000000 * 1000000 +
        (micros.toInt % clockPeriod).toNat % 1000000 = (micros.toInt % clockPeriod).toNat :=
      Nat.div_add_mod' _ _
    refine ⟨_, by rw [toJson_time, ofMicros?_eq h]; rfl, ?_⟩
    rw [String.toList_ofList, clockMicros?_write hbound (Nat.mod_lt _ (by decide)), hvalue]
  hidden h := by
    rw [toJson_time, ofMicros?_eq_none h]
    rfl

theorem time_shows {micros : Int64} (h : IsTimeOfDay micros.toInt) :
    (time micros).ShowsTime micros.toInt := by
  have hkept : micros.toInt % clockPeriod = micros.toInt := by
    unfold IsTimeOfDay at h
    unfold clockPeriod
    omega
  have hremainder := time_shows_remainder micros
  rwa [hkept] at hremainder

/-- A time is shown as the remainder of its count. It is shown as what it is unless the count is
out of range and its remainder is not. -/
theorem time_shown_iff (micros : Int64) :
    (time micros).ShowsTime (micros.toInt % clockPeriod) ∧
      ((time micros).ShowsTime micros.toInt ↔
        IsTimeOfDay micros.toInt ∨ ¬IsTimeOfDay (micros.toInt % clockPeriod)) := by
  have hremainder := time_shows_remainder micros
  refine ⟨hremainder, ?_⟩
  constructor
  · intro h
    by_cases hin : IsTimeOfDay micros.toInt
    · exact .inl hin
    · refine .inr fun hwrapped => ?_
      obtain ⟨s, hs, -⟩ := hremainder.shown hwrapped
      rw [h.hidden hin] at hs
      cases hs
  · intro h
    by_cases hin : IsTimeOfDay micros.toInt
    · exact time_shows hin
    · have hwrapped := h.resolve_left hin
      exact ⟨fun hday => absurd hday hin, fun _ => hremainder.hidden hwrapped⟩

/-- `2 ^ 32` seconds are shown as midnight. -/
theorem time_wraps : ¬(time 4294967296000000).ShowsTime 4294967296000000 ∧
    (time 4294967296000000).toJson = .string "00:00:00" := by
  have hshown : (time 4294967296000000).toJson = .string "00:00:00" := by
    rw [toJson_time]
    rfl
  refine ⟨fun h => ?_, hshown⟩
  rw [h.hidden (by decide)] at hshown
  cases hshown

end Value

/-! ## Dates and moments that are written alike -/

namespace Calendar

/-- Whether the year of a day can be represented. -/
def InYears (day : Int) : Prop :=
  leastYear ≤ (dateOfDay day).year ∧ (dateOfDay day).year ≤ greatestYear

theorem day_of_write {a b : Int} (h : (dateOfDay a).write = (dateOfDay b).write) : a = b := by
  have hread : ∀ day, datePattern.readFrom blankFields ((dateOfDay day).write ++ []) =
      some (blankFields.withDate (dateOfDay day), []) :=
    fun day => readFrom_date (dateOfDay_exists day) blankFields []
  have hfields := hread a
  rw [h, hread b] at hfields
  have hdate : dateOfDay a = dateOfDay b := by
    simp only [Option.some.injEq, Prod.mk.injEq, and_true, Fields.withDate, Fields.mk.injEq]
      at hfields
    rw [CalendarDate.mk.injEq]
    exact ⟨hfields.1.symm, hfields.2.1.symm, hfields.2.2.symm⟩
  rw [← dayOfDate_dateOfDay a, hdate, dayOfDate_dateOfDay]

/-- A written moment of any year gives back its fields. -/
theorem readFrom_write {m : Moment} (hm : m.Proper) :
    Pattern.readFrom (datePattern ++ .oneOf ['T'] :: secondPattern) blankFields m.write =
      some ((blankFields.withDate (dateOfDay m.day)).withTime m.time, ['Z']) := by
  have hclock : secondPattern = clockItems .number := rfl
  rw [write_eq, readFrom_append, readFrom_date (dateOfDay_exists m.day), Option.bind_some,
    Pattern.readFrom, read_oneOf rfl, hclock]
  exact readFrom_clock hm.time readsPair_number _ (noDigit_cons rfl [])

theorem write_eq_iff {m n : Moment} (hm : m.Proper) (hn : n.Proper) :
    m.write = n.write ↔ m.toMillis = n.toMillis := by
  constructor
  · intro h
    have hfields := readFrom_write hm
    rw [h, readFrom_write hn] at hfields
    have hmoment := congrArg Fields.moment? (Prod.mk.inj (Option.some.inj hfields)).1
    rw [moment?_withTime hm.time hm.year, moment?_withTime hn.time hn.year] at hmoment
    exact (Option.some.inj hmoment).symm
  · intro h
    rw [← write_toMillis m, h, write_toMillis]

/-- The moment of a count of microseconds since the epoch. -/
def momentOf (micros : Int) : Moment :=
  ⟨micros / 86400000000, ⟨(micros / 1000000 % 86400).toNat, (micros % 1000000).toNat * 1000⟩⟩

theorem dateOfDay?_of_inYears {day : Int} (h : InYears day) :
    dateOfDay? day = some (dateOfDay day) :=
  if_pos h

theorem ofMicros?_of_inYears {micros : Int} (h : InYears (micros / 86400000000)) :
    Moment.ofMicros? micros = some (momentOf micros) := by
  have hday : micros / 1000000 / 86400 = micros / 86400000000 := by omega
  show (dateOfDay? (micros / 1000000 / 86400)).map (fun _ =>
    (⟨micros / 1000000 / 86400, ⟨(micros / 1000000 % 86400).toNat,
      (micros % 1000000).toNat * 1000⟩⟩ : Moment)) = _
  rw [hday, dateOfDay?_of_inYears h]
  rfl

theorem toMillis_momentOf_eq_iff {a b : Int} :
    (momentOf a).toMillis = (momentOf b).toMillis ↔ a / 1000 = b / 1000 := by
  simp only [momentOf, Moment.toMillis, TimeOfDay.toMillis, Moment.mk.injEq, TimeOfDay.mk.injEq]
  omega

/-- Two moments are written alike exactly if they lie within one millisecond. -/
theorem write_momentOf_eq_iff {a b : Int} (ha : InYears (a / 86400000000))
    (hb : InYears (b / 86400000000)) :
    (momentOf a).write = (momentOf b).write ↔ a / 1000 = b / 1000 := by
  rw [write_eq_iff (proper_ofMicros? (ofMicros?_of_inYears ha))
    (proper_ofMicros? (ofMicros?_of_inYears hb)), toMillis_momentOf_eq_iff]

end Calendar

/-! ## Keys -/

namespace Value

/-- Whether the calendar, or the clock, has such a value. -/
def Representable : Value → Prop
  | .date day => InYears day.toInt
  | .time micros => IsTimeOfDay micros.toInt
  | .timestamp micros => InYears (micros.toInt / 86400000000)
  | .timestampTz micros => InYears (micros.toInt / 86400000000)
  | _ => False

def SameMillisecond : Value → Value → Prop
  | .timestamp a, .timestamp b => a.toInt / 1000 = b.toInt / 1000
  | .timestampTz a, .timestampTz b => a.toInt / 1000 = b.toInt / 1000
  | _, _ => False

/-- Of what is shown as a text, the key tells the text. -/
theorem key?_eq_iff_of_shown {v w : Value} {s t : String}
    (hv : v.keyChars? = some ('t' :: ':' :: v.toJson.write))
    (hw : w.keyChars? = some ('t' :: ':' :: w.toJson.write)) (hs : v.toJson = .string s)
    (ht : w.toJson = .string t) : v.key? = w.key? ↔ s = t := by
  rw [key?_eq_iff, hv, hw, hs, ht, Json.write, Json.write]
  constructor
  · intro h
    simp only [Option.some.injEq, List.cons.injEq, true_and] at h
    exact Json.quoted_injective h
  · intro h
    rw [h]

theorem toJson_date {day : Int32} (h : InYears day.toInt) :
    (date day).toJson = .string (String.ofList (dateOfDay day.toInt).write) := by
  rw [toJson, dateOfDay?_of_inYears h]
  rfl

theorem date_key_iff {a b : Int32} (ha : InYears a.toInt) (hb : InYears b.toInt) :
    (date a).key? = (date b).key? ↔ a = b := by
  rw [key?_eq_iff_of_shown (by rw [keyChars?]) (by rw [keyChars?]) (toJson_date ha)
    (toJson_date hb)]
  constructor
  · intro h
    exact Int32.toInt_inj.mp (day_of_write (String.ofList_injective h))
  · intro h
    rw [h]

theorem time_key_iff {a b : Int64} (ha : IsTimeOfDay a.toInt) (hb : IsTimeOfDay b.toInt) :
    (time a).key? = (time b).key? ↔ a = b := by
  obtain ⟨s, hs, hclock⟩ := (time_shows ha).shown ha
  obtain ⟨t, ht, hclock'⟩ := (time_shows hb).shown hb
  rw [key?_eq_iff_of_shown (by rw [keyChars?]) (by rw [keyChars?]) hs ht]
  constructor
  · intro h
    rw [h, hclock', Option.some.injEq] at hclock
    unfold IsTimeOfDay at ha hb
    exact Int64.toInt_inj.mp (by omega)
  · intro h
    rw [h, ht] at hs
    exact (Json.string.inj hs).symm

/-- Of what is shown as a moment, with a time zone or without, the key tells the millisecond. -/
theorem moment_key_iff {v w : Value} {a b : Int}
    (hv : v.keyChars? = some ('t' :: ':' :: v.toJson.write))
    (hw : w.keyChars? = some ('t' :: ':' :: w.toJson.write))
    (hshow : v.toJson = jsonOfChars ((Moment.ofMicros? a).map Moment.write))
    (hshow' : w.toJson = jsonOfChars ((Moment.ofMicros? b).map Moment.write))
    (ha : InYears (a / 86400000000)) (hb : InYears (b / 86400000000)) :
    v.key? = w.key? ↔ a / 1000 = b / 1000 := by
  rw [ofMicros?_of_inYears ha] at hshow
  rw [ofMicros?_of_inYears hb] at hshow'
  rw [key?_eq_iff_of_shown hv hw hshow hshow', String.ofList_inj, write_momentOf_eq_iff ha hb]

theorem temporal_key_iff {v w : Value} (hv : v.Representable) (hw : w.Representable)
    (htype : v.typeName = w.typeName) : v.key? = w.key? ↔ v = w ∨ SameMillisecond v w := by
  cases v with
  | date a =>
    cases w with
    | date b => simpa [SameMillisecond] using date_key_iff hv hw
    | _ => simp [typeName] at htype
  | time a =>
    cases w with
    | time b => simpa [SameMillisecond] using time_key_iff hv hw
    | _ => simp [typeName] at htype
  | timestamp a =>
    cases w with
    | timestamp b =>
      rw [moment_key_iff (by rw [keyChars?]) (by rw [keyChars?]) (by rw [toJson]) (by rw [toJson])
        hv hw]
      exact ⟨.inr, fun h => h.elim (fun heq => by rw [Value.timestamp.inj heq]) id⟩
    | _ => simp [typeName] at htype
  | timestampTz a =>
    cases w with
    | timestampTz b =>
      rw [moment_key_iff (by rw [keyChars?]) (by rw [keyChars?]) (by rw [toJson]) (by rw [toJson])
        hv hw]
      exact ⟨.inr, fun h => h.elim (fun heq => by rw [Value.timestampTz.inj heq]) id⟩
    | _ => simp [typeName] at htype
  | _ => exact hv.elim

theorem exists_key?_of_representable {v : Value} (h : v.Representable) : ∃ k, v.key? = some k := by
  refine exists_key? ?_ ?_
  · cases v with
    | null => exact h.elim
    | _ => rfl
  · rintro rfl
    exact h

/-- Representable values of one type have one key exactly if they are equal or lie within one
millisecond, and of several values none is dropped but for one of those. -/
theorem temporal_keys_apart (type : String) :
    (∀ v w : Value, v.Representable → w.Representable → v.typeName = type → w.typeName = type →
      (v.key? = w.key? ↔ v = w ∨ SameMillisecond v w)) ∧
    ∀ values : List Value, (∀ v ∈ values, v.Representable ∧ v.typeName = type) →
      ∀ v ∈ values, ∃ w ∈ Key.distinct id values, v = w ∨ SameMillisecond v w := by
  have hpair : ∀ v w : Value, v.Representable → w.Representable → v.typeName = type →
      w.typeName = type → (v.key? = w.key? ↔ v = w ∨ SameMillisecond v w) :=
    fun v w hv hw htype htype' => temporal_key_iff hv hw (htype.trans htype'.symm)
  refine ⟨hpair, fun values h v hv => ?_⟩
  obtain ⟨hrep, htype⟩ := h v hv
  obtain ⟨k, hk⟩ := exists_key?_of_representable hrep
  obtain ⟨w, hw, hkey⟩ := exists_mem_distinct id hv hk
  obtain ⟨hrep', htype'⟩ := h w (mem_of_mem_distinct id hw)
  exact ⟨w, hw, (hpair v w hrep hrep' htype htype').mp (hk.trans hkey.symm)⟩

/-- The last microsecond before the epoch, and two neighbouring times of day. -/
theorem temporal_keys_apart_neighbours :
    ((timestamp (-1)).Representable ∧ (timestamp 0).Representable ∧
      (timestamp (-1)).key? ≠ (timestamp 0).key? ∧
      ∃ w ∈ Key.distinct id [timestamp (-1), timestamp 0],
        timestamp 0 = w ∨ SameMillisecond (timestamp 0) w) ∧
    ((time 86399999998).Representable ∧ (time 86399999999).Representable ∧
      (time 86399999998).key? ≠ (time 86399999999).key?) := by
  have hbefore : (timestamp (-1)).Representable := ⟨by decide, by decide⟩
  have hafter : (timestamp 0).Representable := ⟨by decide, by decide⟩
  have htime : (time 86399999998).Representable := ⟨by decide, by decide⟩
  have hlast : (time 86399999999).Representable := ⟨by decide, by decide⟩
  refine ⟨⟨hbefore, hafter, fun h => ?_, ?_⟩, htime, hlast, fun h => ?_⟩
  · obtain heq | hsame := ((temporal_keys_apart "TIMESTAMP").1 _ _ hbefore hafter rfl rfl).mp h
    · exact absurd (timestamp.inj heq) (by decide)
    · exact absurd hsame (by decide : ¬((-1 : Int64).toInt / 1000 = (0 : Int64).toInt / 1000))
  · refine (temporal_keys_apart "TIMESTAMP").2 _ (fun v hv => ?_) _ (by simp)
    obtain rfl | hv := List.mem_cons.mp hv
    · exact ⟨hbefore, rfl⟩
    · obtain rfl := List.mem_singleton.mp hv
      exact ⟨hafter, rfl⟩
  · obtain heq | hsame := ((temporal_keys_apart "TIME").1 _ _ htime hlast rfl rfl).mp h
    · exact absurd (time.inj heq) (by decide)
    · exact hsame

/-- Two time stamps one microsecond apart have one key, and the second of them is dropped. -/
theorem microseconds_merged :
    (timestamp 0).Representable ∧ (timestamp 1).Representable ∧ timestamp 0 ≠ timestamp 1 ∧
      (timestamp 0).key? = (timestamp 1).key? ∧
      Key.distinct id [timestamp 0, timestamp 1] = [timestamp 0] := by
  have hfirst : (timestamp 0).Representable := ⟨by decide, by decide⟩
  have hsecond : (timestamp 1).Representable := ⟨by decide, by decide⟩
  have hkey : (timestamp 0).key? = (timestamp 1).key? :=
    (temporal_key_iff hfirst hsecond rfl).mpr (.inr rfl)
  obtain ⟨k, hk⟩ := exists_key?_of_representable hfirst
  have hk' : (timestamp 1).key? = some k := hkey.symm.trans hk
  refine ⟨hfirst, hsecond, fun h => absurd (timestamp.inj h) (by decide), hkey, ?_⟩
  simp [Key.distinct, Key.distinctFrom, hk, hk']

end Value

end RecordMapper
