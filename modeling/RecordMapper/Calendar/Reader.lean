import RecordMapper.Calendar.Moment
import RecordMapper.Text.Blank

/-!
Reading moments from text.

* `Pattern` describes a written form as a list of items; `Pattern.read` reads a whole text by it.
* `readOffsetMoment` reads the internet form of a date and time with an offset.
* `readMoment` tries that form first, then the forms without an offset, and at last a bare date.
-/
namespace RecordMapper.Calendar

set_option autoImplicit false

open RecordMapper.Text

/-- The fields read so far; what no item reads is zero. -/
structure Fields where
  year : Int
  month : Nat
  day : Nat
  hour : Nat
  minute : Nat
  second : Nat
  nano : Nat

inductive Field where
  | month
  | day
  | hour
  | minute
  | second

inductive Item where
  /-- Blanks, then a year of up to four digits, or of any number of them after a sign. -/
  | year
  /-- Blanks, then one or two digits. -/
  | number (field : Field)
  /-- Exactly four digits. -/
  | fixedYear
  /-- Exactly two digits. -/
  | fixed (field : Field)
  /-- One of these characters. -/
  | oneOf (choices : List Char)
  /-- Any number of blanks. -/
  | blanks
  /-- A point and a fraction of a second, or nothing. -/
  | fraction

abbrev Pattern := List Item

def Fields.set (fs : Fields) (field : Field) (n : Nat) : Fields :=
  match field with
  | .month => { fs with month := n }
  | .day => { fs with day := n }
  | .hour => { fs with hour := n }
  | .minute => { fs with minute := n }
  | .second => { fs with second := n }

/-- Between `least` and `most` digits, as many as there are. -/
def takeNumber (least most : Nat) (cs : List Char) : Option (Nat × List Char) :=
  let digits := (cs.take most).takeWhile Char.isDigit
  if digits.length < least then none else some (foldDigits 0 digits, cs.drop digits.length)

def takeYear (cs : List Char) : Option (Int × List Char) :=
  match cs with
  | '-' :: rest => (takeNumber 1 rest.length rest).map fun (n, rest) => (-(n : Int), rest)
  | '+' :: rest => (takeNumber 1 rest.length rest).map fun (n, rest) => ((n : Int), rest)
  | cs => (takeNumber 1 4 cs).map fun (n, rest) => ((n : Int), rest)

/-- Nanoseconds from the digits after a point; those after the ninth are passed over. -/
def takeFraction (cs : List Char) : Option (Nat × List Char) :=
  let digits := (cs.take 9).takeWhile Char.isDigit
  if digits.isEmpty then none
  else
    some (foldDigits 0 digits * Nat.pow 10 (9 - digits.length),
      (cs.drop digits.length).dropWhile Char.isDigit)

def Item.read (item : Item) (fs : Fields) (cs : List Char) : Option (Fields × List Char) :=
  match item with
  | .year => (takeYear (dropBlanks cs)).map fun (y, rest) => ({ fs with year := y }, rest)
  | .number field => (takeNumber 1 2 (dropBlanks cs)).map fun (n, rest) => (fs.set field n, rest)
  | .fixedYear => (takeNumber 4 4 cs).map fun (y, rest) => ({ fs with year := y }, rest)
  | .fixed field => (takeNumber 2 2 cs).map fun (n, rest) => (fs.set field n, rest)
  | .oneOf choices =>
    match cs with
    | c :: rest => if choices.contains c then some (fs, rest) else none
    | [] => none
  | .blanks => some (fs, dropBlanks cs)
  | .fraction =>
    match cs with
    | '.' :: rest => (takeFraction rest).map fun (n, rest) => ({ fs with nano := n }, rest)
    | cs => some (fs, cs)

def Pattern.readFrom : Pattern → Fields → List Char → Option (Fields × List Char)
  | [], fs, cs => some (fs, cs)
  | item :: items, fs, cs =>
    match item.read fs cs with
    | some (fs, rest) => readFrom items fs rest
    | none => none

/-- The moment of the fields, if they are in range. Second 60 is a leap second. -/
def Fields.moment? (fs : Fields) : Option Moment :=
  let date : CalendarDate := ⟨fs.year, fs.month, fs.day⟩
  if date.isValid ∧ fs.hour ≤ 23 ∧ fs.minute ≤ 59 ∧ fs.second ≤ 60 then
    let leap := if fs.second = 60 then nanosPerSecond else 0
    some ⟨dayOfDate date,
      ⟨fs.hour * 3600 + fs.minute * 60 + min fs.second 59, fs.nano + leap⟩⟩
  else none

def blankFields : Fields := ⟨0, 0, 0, 0, 0, 0, 0⟩

/-- Reads a whole text by a pattern. -/
def Pattern.read (pattern : Pattern) (cs : List Char) : Option Moment :=
  match pattern.readFrom blankFields cs with
  | some (fs, []) => fs.moment?
  | _ => none

/-! ## The written forms -/

def datePattern : Pattern :=
  [.year, .oneOf ['-'], .number .month, .oneOf ['-'], .number .day]

def minutePattern : Pattern :=
  [.number .hour, .oneOf [':'], .number .minute]

def secondPattern : Pattern :=
  minutePattern ++ [.oneOf [':'], .number .second, .fraction]

def patterns : List Pattern :=
  [datePattern ++ .blanks :: secondPattern, datePattern ++ .oneOf ['T'] :: secondPattern,
    datePattern ++ .blanks :: minutePattern, datePattern]

def offsetPattern : Pattern :=
  [.fixedYear, .oneOf ['-'], .fixed .month, .oneOf ['-'], .fixed .day, .oneOf ['T', 't', ' '],
    .fixed .hour, .oneOf [':'], .fixed .minute, .oneOf [':'], .fixed .second, .fraction]

/-- An offset from universal time, in seconds: `Z`, or a sign, hours and minutes. -/
def readOffset (cs : List Char) : Option Int :=
  match cs with
  | ['Z'] => some 0
  | ['z'] => some 0
  | sign :: rest =>
    if sign = '+' ∨ sign = '-' ∨ sign = '\u2212' then do
      let (hours, rest) ← takeNumber 2 2 rest
      let rest ← if rest.head? = some ':' then some rest.tail else none
      let (minutes, rest) ← takeNumber 2 2 rest
      if rest.isEmpty ∧ hours ≤ 23 ∧ minutes ≤ 59 then
        let seconds : Int := ((hours * 60 + minutes) * 60 : Nat)
        some (if sign = '+' then seconds else -seconds)
      else none
    else none
  | [] => none

/-- The moment in universal time of a text with an offset. -/
def readOffsetMoment (cs : List Char) : Option Moment := do
  let (fs, rest) ← offsetPattern.readFrom blankFields cs
  let moment ← fs.moment?
  let offset ← readOffset rest
  some (moment.before offset)

def readMoment (cs : List Char) : Option Moment :=
  match readOffsetMoment cs with
  | some m => some m
  | none => patterns.findSome? fun p => p.read cs

end RecordMapper.Calendar
