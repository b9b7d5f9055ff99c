/-! Days of the Gregorian calendar, extended over all years, and instants in universal time. A leap
second lies between the last regular second of its minute and the next minute, so it is kept as a
longer fraction of that last second. -/
namespace JsonQuery

structure Date where
  year : Int
  month : Nat
  day : Nat

namespace Date

def isLeapYear (year : Int) : Bool :=
  year % 4 == 0 && (year % 100 != 0 || year % 400 == 0)

def daysInMonth (year : Int) : Nat → Nat
  | 2 => if isLeapYear year then 29 else 28
  | 4 | 6 | 9 | 11 => 30
  | _ => 31

/-- The years that dates are kept for. -/
def firstYear : Int := -262143

def lastYear : Int := 262142

def isValid (d : Date) : Bool :=
  decide (firstYear ≤ d.year ∧ d.year ≤ lastYear ∧ 1 ≤ d.month ∧ d.month ≤ 12 ∧ 1 ≤ d.day ∧
    d.day ≤ daysInMonth d.year d.month)

/-- The days before the first of January of a year, counted from the year one. -/
def daysBeforeYear (year : Int) : Int :=
  let years := year - 1
  365 * years + years / 4 - years / 100 + years / 400

def daysBeforeMonth (year : Int) : Nat → Nat
  | 0 | 1 => 0
  | month + 1 => daysBeforeMonth year month + daysInMonth year month

/-- The number of a day, which grows by one from each day to the next. -/
def number (d : Date) : Int := daysBeforeYear d.year + daysBeforeMonth d.year d.month + d.day

end Date

structure Instant where
  seconds : Int
  nanoseconds : Nat
deriving DecidableEq

/-- A time of day. Second sixty is a leap second. -/
structure TimeOfDay where
  hour : Nat
  minute : Nat
  second : Nat
  nanosecond : Nat

def TimeOfDay.isValid (t : TimeOfDay) : Bool :=
  decide (t.hour ≤ 23 ∧ t.minute ≤ 59 ∧ t.second ≤ 60 ∧ t.nanosecond ≤ 999999999)

def TimeOfDay.midnight : TimeOfDay := ⟨0, 0, 0, 0⟩

namespace Instant

/-- The instant of a day and a time, at a place that is ahead of universal time by some seconds. -/
def of (d : Date) (t : TimeOfDay) (ahead : Int) : Instant :=
  let second := if t.second = 60 then 59 else t.second
  let leap := if t.second = 60 then 1000000000 else 0
  ⟨d.number * 86400 + (t.hour * 3600 + t.minute * 60 + second : Nat) - ahead, leap + t.nanosecond⟩

def isBefore (a b : Instant) : Bool :=
  decide (a.seconds < b.seconds ∨ (a.seconds = b.seconds ∧ a.nanoseconds < b.nanoseconds))

end Instant
end JsonQuery
