import Mathlib

/-! The proleptic Gregorian calendar from the year 0 on: a date is a number of days. -/
namespace Zlibs.Lib.Gregorian

variable {year year' month month' day day' : Int}

def Leap (year : Int) : Prop := (4 ∣ year ∧ ¬ 100 ∣ year) ∨ 400 ∣ year

instance : DecidablePred Leap := fun _ => inferInstanceAs (Decidable (_ ∨ _))

def monthLength (year month : Int) : Int :=
  if month = 2 then if Leap year then 29 else 28
  else if month = 4 ∨ month = 6 ∨ month = 9 ∨ month = 11 then 30 else 31

theorem le_monthLength : 28 ≤ monthLength year month := by
  unfold monthLength
  split_ifs <;> decide

/-- The days of the years before a year. -/
def daysBeforeYear : Nat → Int
  | 0 => 0
  | year + 1 => daysBeforeYear year + if Leap year then 366 else 365

/-- The days of the first months of a year. -/
def daysOfMonths (year : Int) : Nat → Int
  | 0 => 0
  | n + 1 => daysOfMonths year n + monthLength year (n + 1)

/-- The days since 1 January of the year 0. The day may lie outside of its month. -/
def dayNumber (year month day : Int) : Int :=
  daysBeforeYear year.toNat + daysOfMonths year (month - 1).toNat + (day - 1)

/-- The day of the week, 1 for a Monday: the first day of the year 0 is a Saturday. -/
def weekday (dayNumber : Int) : Int := (dayNumber + 5) % 7 + 1

theorem daysBeforeYear_succ (n : Nat) :
    daysBeforeYear (n + 1) = daysBeforeYear n + if Leap n then 366 else 365 := rfl

theorem daysBeforeYear_mono {m n : Nat} (h : m ≤ n) : daysBeforeYear m ≤ daysBeforeYear n := by
  induction n, h using Nat.le_induction with
  | base => exact le_refl _
  | succ n hmn ih =>
    rw [daysBeforeYear_succ]
    split_ifs <;> omega

theorem daysBeforeYear_nonneg (n : Nat) : 0 ≤ daysBeforeYear n := daysBeforeYear_mono n.zero_le

/-- Every fourth year is leap, except every hundredth, but every four hundredth is. -/
theorem daysBeforeYear_eq (n : Nat) :
    daysBeforeYear n = 365 * n + (n + 3) / 4 - (n + 99) / 100 + (n + 399) / 400 := by
  induction n with
  | zero => rfl
  | succ n ih =>
    rw [daysBeforeYear_succ, ih]
    unfold Leap
    split_ifs <;> omega

theorem daysOfMonths_mono {m n : Nat} (h : m ≤ n) : daysOfMonths year m ≤ daysOfMonths year n := by
  induction n, h using Nat.le_induction with
  | base => exact le_refl _
  | succ n hmn ih =>
    have hlen : 28 ≤ monthLength year (n + 1) := le_monthLength
    exact le_trans ih (le_add_of_nonneg_right (by omega))

theorem daysOfMonths_lt {m n : Nat} (h : m < n) :
    daysOfMonths year m < daysOfMonths year n := by
  have hlen : 28 ≤ monthLength year (m + 1) := le_monthLength
  have hnext : daysOfMonths year m < daysOfMonths year (m + 1) := lt_add_of_pos_right _ (by omega)
  exact lt_of_lt_of_le hnext (daysOfMonths_mono h)

theorem daysOfMonths_nonneg (n : Nat) : 0 ≤ daysOfMonths year n := daysOfMonths_mono n.zero_le

theorem daysOfMonths_twelve :
    daysOfMonths year 12 = if Leap year then 366 else 365 := by
  by_cases h : Leap year <;> simp [daysOfMonths, monthLength, h]

theorem dayNumber_nextMonth (h : 1 ≤ month) :
    dayNumber year (month + 1) (day - monthLength year month) = dayNumber year month day := by
  have hidx : (month + 1 - 1).toNat = (month - 1).toNat + 1 := by omega
  have hmonth : ((month - 1).toNat : Int) + 1 = month := by omega
  unfold dayNumber
  rw [hidx, daysOfMonths, hmonth]
  ring

theorem dayNumber_nextYear (h : 0 ≤ year) :
    dayNumber (year + 1) 1 (day - monthLength year 12) = dayNumber year 12 day := by
  have hidx : (year + 1).toNat = year.toNat + 1 := by omega
  have hyear : (year.toNat : Int) = year := Int.toNat_of_nonneg h
  have htwelve : daysOfMonths year 11 + monthLength year 12 = if Leap year then 366 else 365 :=
    daysOfMonths_twelve
  unfold dayNumber
  rw [hidx, daysBeforeYear_succ, hyear, ← htwelve]
  change _ + daysOfMonths _ 0 + _ = _ + daysOfMonths _ 11 + _
  rw [daysOfMonths]
  ring

theorem dayNumber_add (n : Int) : dayNumber year month (day + n) = dayNumber year month day + n := by
  unfold dayNumber
  ring

/-- A later month has later days. -/
theorem dayNumber_lt_of_month (h : month < month') (hm : 1 ≤ month) :
    dayNumber year month day < dayNumber year month' day := by
  have hlt : daysOfMonths year (month - 1).toNat < daysOfMonths year (month' - 1).toNat :=
    daysOfMonths_lt (by omega)
  unfold dayNumber
  omega

theorem dayNumber_lt_of_year (h : year < year') (hy : 0 ≤ year) (hm : month ≤ 12) :
    dayNumber year month day < dayNumber year' month' day := by
  have hyear : daysBeforeYear year.toNat + (if Leap year then 366 else 365) ≤
      daysBeforeYear year'.toNat := by
    have hsucc := daysBeforeYear_succ year.toNat
    rw [Int.toNat_of_nonneg hy] at hsucc
    rw [← hsucc]
    exact daysBeforeYear_mono (by omega)
  have hmonth : daysOfMonths year (month - 1).toNat < daysOfMonths year 12 :=
    daysOfMonths_lt (by omega)
  have hrest : 0 ≤ daysOfMonths year' (month' - 1).toNat := daysOfMonths_nonneg _
  rw [daysOfMonths_twelve] at hmonth
  unfold dayNumber
  omega

theorem dayNumber_nonneg (h : 1 ≤ day) : 0 ≤ dayNumber year month day := by
  have hyear := daysBeforeYear_nonneg year.toNat
  have hmonth : 0 ≤ daysOfMonths year (month - 1).toNat := daysOfMonths_nonneg _
  unfold dayNumber
  omega

/-- A day of a month comes before the first day of the next one. -/
theorem dayNumber_lt_monthEnd (hm : 1 ≤ month) (hd : day ≤ monthLength year month) :
    dayNumber year month day < daysBeforeYear year.toNat + daysOfMonths year month.toNat := by
  have hsucc : month.toNat = (month - 1).toNat + 1 := by omega
  have hcast : ((month - 1).toNat : Int) + 1 = month := by omega
  rw [hsucc, daysOfMonths, hcast]
  unfold dayNumber
  omega

theorem dayNumber_lt (hy : 0 ≤ year) (hm : 1 ≤ month ∧ month ≤ 12)
    (hd : day ≤ monthLength year month) (hm' : 1 ≤ month') (hd' : 1 ≤ day')
    (h : year < year' ∨ year = year' ∧ month < month') :
    dayNumber year month day < dayNumber year' month' day' := by
  have hend := dayNumber_lt_monthEnd hm.1 hd
  have hrest : 0 ≤ daysOfMonths year' (month' - 1).toNat := daysOfMonths_nonneg _
  obtain hlt | ⟨rfl, hlt⟩ := h
  · have hmonths : daysOfMonths year month.toNat ≤ daysOfMonths year 12 :=
      daysOfMonths_mono (by omega)
    have hsucc := daysBeforeYear_succ year.toNat
    have hyears : daysBeforeYear (year.toNat + 1) ≤ daysBeforeYear year'.toNat :=
      daysBeforeYear_mono (by omega)
    rw [Int.toNat_of_nonneg hy] at hsucc
    rw [daysOfMonths_twelve] at hmonths
    unfold dayNumber at hend ⊢
    omega
  · have hmonths : daysOfMonths year month.toNat ≤ daysOfMonths year (month' - 1).toNat :=
      daysOfMonths_mono (by omega)
    unfold dayNumber at hend ⊢
    omega

end Zlibs.Lib.Gregorian
