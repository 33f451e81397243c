import RecordMapper.Calendar.Day

/-!
Times of day and moments.

* `TimeOfDay` counts seconds since midnight; a leap second is told by a fraction of one second or
  more.
* `Moment` is a day and a time of day, in universal time.
* `Moment.write` is the stored form of a time stamp, with milliseconds.
-/
namespace RecordMapper.Calendar

set_option autoImplicit false

open RecordMapper.Text

def secondsPerDay : Nat := 86400

def microsPerSecond : Nat := 1000000

def nanosPerSecond : Nat := 1000000000

structure TimeOfDay where
  second : Nat
  nano : Nat
  deriving DecidableEq, Repr

namespace TimeOfDay

def hour (t : TimeOfDay) : Nat := t.second / 3600

def minute (t : TimeOfDay) : Nat := t.second / 60 % 60

/-- The seconds of the minute, up to 60 in a leap second. -/
def secondOfMinute (t : TimeOfDay) : Nat := t.second % 60 + t.nano / nanosPerSecond

def fraction (t : TimeOfDay) : Nat := t.nano % nanosPerSecond

def writeClock (t : TimeOfDay) : List Char :=
  places 2 t.hour ++ ':' :: places 2 t.minute ++ ':' :: places 2 t.secondOfMinute

/-- A fraction on the fewest of 0, 3, 6 or 9 places that hold it. -/
def writeFraction (nano : Nat) : List Char :=
  if nano = 0 then []
  else if nano % 1000000 = 0 then '.' :: places 3 (nano / 1000000)
  else if nano % 1000 = 0 then '.' :: places 6 (nano / 1000)
  else '.' :: places 9 nano

def write (t : TimeOfDay) : List Char :=
  t.writeClock ++ writeFraction t.fraction

/-- A count of microseconds as a time of day. The whole seconds are taken modulo `2 ^ 32` before
they are compared with the length of a day. -/
def ofMicros? (micros : Int) : Option TimeOfDay :=
  let second := (micros / microsPerSecond % UInt32.size).toNat
  let nano := (micros % microsPerSecond).toNat * 1000
  if second < secondsPerDay then some ⟨second, nano⟩ else none

end TimeOfDay

structure Moment where
  day : Int
  time : TimeOfDay
  deriving DecidableEq, Repr

namespace Moment

/-- The moment a count of seconds after the epoch, if its date lies in the range of years. -/
def ofSeconds? (second : Int) (nano : Nat) : Option Moment :=
  let day := second / secondsPerDay
  (dateOfDay? day).map fun _ => ⟨day, ⟨(second % secondsPerDay).toNat, nano⟩⟩

def ofMicros? (micros : Int) : Option Moment :=
  ofSeconds? (micros / microsPerSecond) ((micros % microsPerSecond).toNat * 1000)

def writeDate (m : Moment) : List Char := (dateOfDay m.day).write

def write (m : Moment) : List Char :=
  m.writeDate ++ 'T' :: m.time.writeClock ++ '.' :: places 3 (m.time.fraction / 1000000) ++ ['Z']

/-- The moment that many seconds earlier. -/
def before (m : Moment) (seconds : Int) : Moment :=
  let second := (m.time.second : Int) - seconds
  ⟨m.day + second / secondsPerDay, ⟨(second % secondsPerDay).toNat, m.time.nano⟩⟩

end Moment

end RecordMapper.Calendar
