import JsonQuery.Calendar.Instant
import JsonQuery.Proofs.Text.Digits
import Mathlib.Data.Int.Order.Basic

/-! The order of instants. Days are numbered in the order of year, month and day, and instants stand
in the order of the day and then of hour, minute, second and nanosecond. A leap second is no
exception: it comes after the regular seconds of its minute and before the next minute. -/
namespace JsonQuery

namespace Date

def daysInYear (year : Int) : Int := if isLeapYear year then 366 else 365

theorem daysBeforeYear_succ (year : Int) :
    daysBeforeYear (year + 1) = daysBeforeYear year + daysInYear year := by
  simp only [daysBeforeYear, daysInYear, isLeapYear, Bool.and_eq_true, Bool.or_eq_true, beq_iff_eq,
    bne_iff_ne]
  split <;> omega

theorem daysBeforeYear_le {y z : Int} (earlier : y < z) :
    daysBeforeYear y + daysInYear y ≤ daysBeforeYear z := by
  rw [← daysBeforeYear_succ]
  simp only [daysBeforeYear]
  omega

theorem daysInMonth_le (year : Int) (month : Nat) : daysInMonth year month ≤ 31 := by
  unfold daysInMonth
  split
  · split <;> decide
  all_goals decide

theorem daysBeforeMonth_le (year : Int) {m n : Nat} (first : 1 ≤ m) (earlier : m < n) :
    daysBeforeMonth year m + daysInMonth year m ≤ daysBeforeMonth year n := by
  induction n with
  | zero => exact absurd earlier (Nat.not_lt_zero m)
  | succ n ih =>
    have step : daysBeforeMonth year (n + 1) = daysBeforeMonth year n + daysInMonth year n := by
      cases n with
      | zero => omega
      | succ n => rfl
    rw [step]
    rcases Nat.lt_succ_iff_lt_or_eq.mp earlier with less | rfl
    · exact (ih less).trans (Nat.le_add_right _ _)
    · exact Nat.le_refl _

theorem daysBeforeMonth_thirteen (year : Int) :
    (daysBeforeMonth year 13 : Int) = daysInYear year := by
  simp only [daysBeforeMonth, daysInMonth, daysInYear]
  split <;> rfl

variable {d e : Date}

/-- What makes a date one of the calendar. -/
theorem bounds_of_isValid (valid : d.isValid = true) :
    1 ≤ d.month ∧ d.month ≤ 12 ∧ 1 ≤ d.day ∧ d.day ≤ daysInMonth d.year d.month := by
  obtain ⟨-, -, rest⟩ := of_decide_eq_true valid
  exact rest

/-- The last day of a month is followed by the first one of the next month or year. -/
theorem dayOfYear_le (valid : d.isValid = true) :
    (daysBeforeMonth d.year d.month + d.day : Int) ≤ daysInYear d.year := by
  obtain ⟨first, last, -, inside⟩ := bounds_of_isValid valid
  have months := daysBeforeMonth_le d.year first (show d.month < 13 by omega)
  have year := daysBeforeMonth_thirteen d.year
  omega

/-- Days are numbered in the order of their fields. -/
theorem cmp_number (valid : d.isValid = true) (valid' : e.isValid = true) :
    cmp d.number e.number =
      (cmp d.year e.year).then ((cmp d.month e.month).then (cmp d.day e.day)) := by
  obtain ⟨first, -, some, inside⟩ := bounds_of_isValid valid
  obtain ⟨first', -, some', inside'⟩ := bounds_of_isValid valid'
  have fits := dayOfYear_le valid
  have fits' := dayOfYear_le valid'
  unfold number
  refine cmp_eq_then (a := d.year) (fun earlier => ?_) (fun later => ?_) fun sameYear => ?_
  · have years := daysBeforeYear_le earlier
    omega
  · have years := daysBeforeYear_le later
    omega
  rw [sameYear] at inside ⊢
  refine cmp_eq_then (a := d.month) (fun earlier => ?_) (fun later => ?_) fun sameMonth => ?_
  · have months := daysBeforeMonth_le e.year first earlier
    omega
  · have months := daysBeforeMonth_le e.year first' later
    omega
  rw [sameMonth]
  exact cmp_eq_cmp (by omega) (by omega) (by omega)

end Date

theorem TimeOfDay.bounds_of_isValid {t : TimeOfDay} (valid : t.isValid = true) :
    t.hour ≤ 23 ∧ t.minute ≤ 59 ∧ t.second ≤ 60 ∧ t.nanosecond ≤ 999999999 :=
  of_decide_eq_true valid

namespace Instant

/-- The place of an instant on a line where every second is followed by room for a leap second. -/
def position (i : Instant) : Int := i.seconds * 2000000000 + i.nanoseconds

theorem isBefore_iff {i j : Instant} (small : i.nanoseconds < 2000000000)
    (small' : j.nanoseconds < 2000000000) : i.isBefore j = true ↔ i.position < j.position := by
  simp only [isBefore, position, decide_eq_true_eq]
  omega

variable {d e : Date} {t u : TimeOfDay}

/-- A leap second begins where the second before it ends. -/
theorem position_of (d : Date) (t : TimeOfDay) : ∃ second leap : Nat,
    (t.second = 60 ∧ second = 59 ∧ leap = 1000000000 ∨
      t.second ≠ 60 ∧ second = t.second ∧ leap = 0) ∧
    (Instant.of d t 0).position =
      (d.number * 86400 + (t.hour * 3600 + t.minute * 60 + second : Nat)) * 2000000000 +
        (leap + t.nanosecond : Nat) := by
  refine ⟨_, _, ?_, by rw [position, of, Int.sub_zero]⟩
  by_cases leap : t.second = 60 <;> simp [leap]

theorem nanoseconds_of_lt (valid : t.isValid = true) (ahead : Int) :
    (Instant.of d t ahead).nanoseconds < 2000000000 := by
  obtain ⟨-, -, -, small⟩ := TimeOfDay.bounds_of_isValid valid
  simp only [of]
  split <;> omega

/-- Instants stand in the order of the day and of the fields of the time. -/
theorem cmp_position (valid : t.isValid = true) (valid' : u.isValid = true) :
    cmp (Instant.of d t 0).position (Instant.of e u 0).position =
      (cmp d.number e.number).then ((cmp t.hour u.hour).then ((cmp t.minute u.minute).then
        ((cmp t.second u.second).then (cmp t.nanosecond u.nanosecond)))) := by
  obtain ⟨hour, minute, second, nanosecond⟩ := TimeOfDay.bounds_of_isValid valid
  obtain ⟨hour', minute', second', nanosecond'⟩ := TimeOfDay.bounds_of_isValid valid'
  obtain ⟨s, leap, regular, position⟩ := position_of d t
  obtain ⟨s', leap', regular', position'⟩ := position_of e u
  rw [position, position']
  refine cmp_eq_then (a := d.number) (by omega) (by omega) fun sameDay => ?_
  refine cmp_eq_then (a := t.hour) (by omega) (by omega) fun sameHour => ?_
  refine cmp_eq_then (a := t.minute) (by omega) (by omega) fun sameMinute => ?_
  refine cmp_eq_then (a := t.second) (by omega) (by omega) fun sameSecond => ?_
  exact cmp_eq_cmp (by omega) (by omega) (by omega)

end Instant
end JsonQuery
