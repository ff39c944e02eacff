/-!
# Dates and moments

Dates of the Gregorian calendar, extended backwards to the year 1, and moments: a date, a time of
day, and how far ahead of universal time the clock runs, if that is known. Both are made from
numbers that may be out of range; which of them is reported first is the order of `Date.of` and
`Moment.of`.
-/

namespace LetLower

inductive CalendarError where
  | year (n : Nat)
  | month
  | day
  | hour
  | minute
  | second
  | offset (minutes : Int)
deriving DecidableEq, Repr

def dayMinutes : Int := 1440

/-- A span of minutes as days, of which there may be less than none, and seconds within a day. -/
def displaySpan (minutes : Int) : String :=
  let days := minutes.fdiv dayMinutes
  let seconds := minutes.fmod dayMinutes * 60
  let parts := (if days = 0 then [] else [s!"days={days}"])
    ++ (if seconds = 0 then [] else [s!"seconds={seconds}"])
  "datetime.timedelta(" ++ (if parts.isEmpty then "0" else ", ".intercalate parts) ++ ")"

def CalendarError.message : CalendarError → String
  | year n => s!"year {n} is out of range"
  | month => "month must be in 1..12"
  | day => "day is out of range for month"
  | hour => "hour must be in 0..23"
  | minute => "minute must be in 0..59"
  | second => "second must be in 0..59"
  | offset minutes =>
    "offset must be a timedelta strictly between -timedelta(hours=24) and timedelta(hours=24), not "
      ++ displaySpan minutes ++ "."

def padded (width n : Nat) : String :=
  let digits := Nat.toDigits 10 n
  String.ofList (List.replicate (width - digits.length) '0' ++ digits)

def isLeap (year : Nat) : Bool := year % 4 = 0 && (year % 100 ≠ 0 || year % 400 = 0)

def monthLength (year month : Nat) : Nat :=
  if month = 2 then (if isLeap year then 29 else 28)
  else if month = 4 ∨ month = 6 ∨ month = 9 ∨ month = 11 then 30
  else 31

structure Date where
  year : Nat
  month : Nat
  day : Nat
  year_range : 1 ≤ year ∧ year ≤ 9999
  month_range : 1 ≤ month ∧ month ≤ 12
  day_range : 1 ≤ day ∧ day ≤ monthLength year month
deriving DecidableEq, Repr

namespace Date

def of (year month day : Nat) : Except CalendarError Date :=
  if hy : 1 ≤ year ∧ year ≤ 9999 then
    if hm : 1 ≤ month ∧ month ≤ 12 then
      if hd : 1 ≤ day ∧ day ≤ monthLength year month then .ok ⟨year, month, day, hy, hm, hd⟩
      else .error .day
    else .error .month
  else .error (.year year)

def monthsLength (year : Nat) : Nat → Nat
  | 0 => 0
  | months + 1 => monthsLength year months + monthLength year (months + 1)

def ordinal (d : Date) : Nat :=
  let before := d.year - 1
  before * 365 + before / 4 - before / 100 + before / 400
    + monthsLength d.year (d.month - 1) + d.day

def text (d : Date) : String :=
  padded 4 d.year ++ "-" ++ padded 2 d.month ++ "-" ++ padded 2 d.day

def display (d : Date) : String := s!"datetime.date({d.year}, {d.month}, {d.day})"

end Date

structure Moment where
  date : Date
  hour : Nat
  minute : Nat
  second : Nat
  microsecond : Nat
  /-- The minutes by which the clock is ahead of universal time. -/
  offset : Option Int
deriving DecidableEq, Repr

namespace Moment

/-- A moment, unless a number is out of range. The offset is looked at first. -/
def of (year month day hour minute second microsecond : Nat) (offset : Option Int) :
    Except CalendarError Moment := do
  match offset with
  | some m => if m ≤ -dayMinutes ∨ dayMinutes ≤ m then .error (.offset m)
  | none => pure ()
  let date ← Date.of year month day
  if 23 < hour then .error .hour
  if 59 < minute then .error .minute
  if 59 < second then .error .second
  return { date, hour, minute, second, microsecond, offset }

def clock (m : Moment) : Int :=
  (((m.date.ordinal * 24 + m.hour) * 60 + m.minute) * 60 + m.second) * 1000000 + m.microsecond

/-- Two moments are the same if they are in universal time; without an offset a moment is not known
there, and is the same as another of its kind only. -/
def sameAs (m n : Moment) : Bool :=
  match m.offset, n.offset with
  | none, none => m.clock = n.clock
  | some a, some b => m.clock - a * 60000000 = n.clock - b * 60000000
  | _, _ => false

def offsetText (minutes : Int) : String :=
  (if minutes < 0 then "-" else "+") ++ padded 2 (minutes.natAbs / 60) ++ ":"
    ++ padded 2 (minutes.natAbs % 60)

def text (m : Moment) : String :=
  m.date.text ++ " " ++ padded 2 m.hour ++ ":" ++ padded 2 m.minute ++ ":" ++ padded 2 m.second
    ++ (if m.microsecond = 0 then "" else "." ++ padded 6 m.microsecond)
    ++ (m.offset.map offsetText).getD ""

def displayOffset (minutes : Int) : String :=
  if minutes = 0 then "datetime.timezone.utc"
  else "datetime.timezone(" ++ displaySpan minutes ++ ")"

/-- Seconds are left out where they and what follows them is zero. -/
def display (m : Moment) : String :=
  let small :=
    if m.microsecond ≠ 0 then [m.second, m.microsecond]
    else if m.second ≠ 0 then [m.second]
    else []
  let numbers := [m.date.year, m.date.month, m.date.day, m.hour, m.minute] ++ small
  let zone := (m.offset.map fun o => ", tzinfo=" ++ displayOffset o).getD ""
  "datetime.datetime(" ++ ", ".intercalate (numbers.map toString) ++ zone ++ ")"

end Moment
end LetLower
