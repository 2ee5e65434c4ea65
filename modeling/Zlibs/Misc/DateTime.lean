import Zlibs.Lib.Gregorian

/-! Calendar dates and their normalisation. The machine's `int` is unbounded here. -/
namespace Zlibs.Misc

def isLeapYear (year : Int) : Bool :=
  if year.tmod 4 = 0 then
    if year.tmod 100 = 0 then year.tmod 400 = 0 else true
  else false

/-- The days of a month. The source asserts that the month is one of 1 to 12. -/
def daysInMonth (year month : Int) : Int :=
  if month = 2 ∧ isLeapYear year then 29
  else [31, 28, 31, 30, 31, 30, 31, 31, 30, 31, 30, 31].getD (month - 1).toNat 31

structure DateTime where
  hours : Int := 0
  minutes : Int := 0
  seconds : Int := 0
  year : Int := 2025
  month : Int := 1
  mday : Int := 1
  wday : Int := 3
  deriving DecidableEq

def isDateTimeValid (t : DateTime) : Bool :=
  !(t.seconds ≥ 60 || t.seconds < 0 || t.minutes ≥ 60 || t.minutes < 0 || t.hours ≥ 24 ||
    t.hours < 0 || t.year < 0 || t.month > 12 || t.month < 1 || t.mday < 1 ||
    t.mday > daysInMonth t.year t.month || t.wday > 7 || t.wday < 1)

/-- The loop that brings a field below its base and counts in the next field. -/
def carryUp (base : Nat) [NeZero base] (low high : Int) : Int × Int :=
  if base ≤ low then carryUp base (low - base) (high + 1) else (low, high)
termination_by low.toNat
decreasing_by
  have := NeZero.pos base
  omega

/-- The loop that brings a field up to zero. -/
def carryDown (base : Nat) [NeZero base] (low high : Int) : Int × Int :=
  if low < 0 then carryDown base (low + base) (high - 1) else (low, high)
termination_by (-low).toNat
decreasing_by
  have := NeZero.pos base
  omega

def carry (base : Nat) [NeZero base] (low high : Int) : Int × Int :=
  let (low, high) := carryUp base low high
  carryDown base low high

namespace DateTime

def carrySeconds (t : DateTime) : DateTime :=
  let (seconds, minutes) := carry 60 t.seconds t.minutes
  { t with seconds, minutes }

def carryMinutes (t : DateTime) : DateTime :=
  let (minutes, hours) := carry 60 t.minutes t.hours
  { t with minutes, hours }

def carryHours (t : DateTime) : DateTime :=
  let (hours, mday) := carry 24 t.hours t.mday
  { t with hours, mday }

def clampToMinimum (t : DateTime) : DateTime :=
  { t with year := 0, month := 1, mday := 1, hours := 0, minutes := 0, seconds := 0 }

def fixMonth (t : DateTime) : DateTime :=
  if t.month > 12 then { t with month := 1, year := t.year + 1 }
  else if t.month < 1 then
    if t.year = 0 then t.clampToMinimum else { t with month := 12, year := t.year - 1 }
  else t

end DateTime

theorem le_daysInMonth (year month : Int) : 28 ≤ daysInMonth year month := by
  unfold daysInMonth
  split_ifs
  · decide
  · have hall : ∀ n ≤ 12, (28 : Int) ≤
        [31, 28, 31, 30, 31, 30, 31, 31, 30, 31, 30, 31].getD n 31 := by decide
    by_cases hn : (month - 1).toNat ≤ 12
    · exact hall _ hn
    · rw [List.getD_eq_default]
      · decide
      · change 12 ≤ (month - 1).toNat
        omega

namespace DateTime

theorem fixMonth_mday (t : DateTime) : t.fixMonth.mday = t.mday ∨ t.fixMonth.mday = 1 := by
  unfold fixMonth clampToMinimum
  split_ifs <;> simp

/-- Days past the end of the month. -/
def overflowDays (t : DateTime) : DateTime :=
  if t.mday > daysInMonth t.year t.month then
    overflowDays ({ t with
      mday := t.mday - daysInMonth t.year t.month, month := t.month + 1 } : DateTime).fixMonth
  else t
termination_by t.mday.toNat
decreasing_by
  have hlen := le_daysInMonth t.year t.month
  rcases fixMonth_mday { t with
    mday := t.mday - daysInMonth t.year t.month, month := t.month + 1 } with h | h
  · rw [h]
    simp only
    omega
  · rw [h]
    omega

/-- Days before the start of the month. -/
def underflowDays (t : DateTime) : DateTime :=
  if t.mday < 1 then
    if t.year = 0 ∧ t.month = 1 then t.clampToMinimum
    else
      let u := ({ t with month := t.month - 1 } : DateTime).fixMonth
      underflowDays { u with mday := u.mday + daysInMonth u.year u.month }
  else t
termination_by (1 - t.mday).toNat
decreasing_by
  have hlen := le_daysInMonth ({ t with month := t.month - 1 } : DateTime).fixMonth.year
    ({ t with month := t.month - 1 } : DateTime).fixMonth.month
  rcases fixMonth_mday { t with month := t.month - 1 } with h | h
  · rw [h]
    simp only
    omega
  · rw [h]
    omega

end DateTime

/-- Zeller's congruence. -/
def weekdayFromDate (dayOfMonth month year : Int) : Int :=
  let (month, year) := if month = 1 ∨ month = 2 then (month + 12, year - 1) else (month, year)
  let yearOfCentury := year.tmod 100
  let zeroBasedCentury := year.tdiv 100
  let zellerWeekday := dayOfMonth + (13 * (month + 1)).tdiv 5 + yearOfCentury +
    yearOfCentury.tdiv 4 + zeroBasedCentury.tdiv 4 - 2 * zeroBasedCentury
  [6, 7, 1, 2, 3, 4, 5].getD ((zellerWeekday.tmod 7 + 7).tmod 7).toNat 0

def normalizeDateTime (t : DateTime) : DateTime :=
  let t := t.carrySeconds.carryMinutes.carryHours
  let t := if t.year < 0 then t.clampToMinimum else t
  let t := t.fixMonth.overflowDays.underflowDays
  { t with wday := weekdayFromDate t.mday t.month t.year }

end Zlibs.Misc
