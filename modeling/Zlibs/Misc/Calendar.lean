import Mathlib
import Zlibs.Misc.DateTime

/-! Normalised dates in the Gregorian calendar. -/
namespace Zlibs.Misc
open Lib Lib.Gregorian

variable {year month mday low high low' high' : Int} {base : Nat} [NeZero base] {t : DateTime}

theorem isLeapYear_iff : isLeapYear year = true ↔ Leap year := by
  have hmod : ∀ n : Int, year.tmod n = 0 ↔ n ∣ year := fun n =>
    ⟨Int.dvd_of_tmod_eq_zero, Int.tmod_eq_zero_of_dvd⟩
  unfold isLeapYear Leap
  simp only [hmod]
  by_cases h4 : (4 : Int) ∣ year
  · by_cases h100 : (100 : Int) ∣ year
    · simp [h4, h100]
    · have h400 : ¬ (400 : Int) ∣ year := by omega
      simp [h4, h100, h400]
  · have h400 : ¬ (400 : Int) ∣ year := by omega
    simp [h4, h400]

theorem daysInMonth_eq (h : 1 ≤ month) (h' : month ≤ 12) :
    daysInMonth year month = monthLength year month := by
  unfold daysInMonth monthLength
  simp only [isLeapYear_iff]
  by_cases hleap : Leap year <;> interval_cases month <;> simp [hleap]

/-- Counting in the next field keeps the value of both. -/
theorem carryUp_spec (h : carryUp base low high = (low', high')) :
    low' < base ∧ (0 ≤ low → 0 ≤ low') ∧ base * high' + low' = base * high + low := by
  induction low, high using carryUp.induct base with
  | case1 low high hle ih =>
    rw [carryUp, if_pos hle] at h
    obtain ⟨hlt, hnonneg, hvalue⟩ := ih h
    refine ⟨hlt, fun _ => hnonneg (by omega), ?_⟩
    rw [hvalue]
    ring
  | case2 low high hle =>
    rw [carryUp, if_neg hle] at h
    cases h
    exact ⟨by omega, id, rfl⟩

theorem carryDown_spec (h : carryDown base low high = (low', high')) (hb : low < base) :
    0 ≤ low' ∧ low' < base ∧ base * high' + low' = base * high + low := by
  induction low, high using carryDown.induct base with
  | case1 low high hneg ih =>
    rw [carryDown, if_pos hneg] at h
    obtain ⟨hnonneg, hlt, hvalue⟩ := ih h (by omega)
    refine ⟨hnonneg, hlt, ?_⟩
    rw [hvalue]
    ring
  | case2 low high hneg =>
    rw [carryDown, if_neg hneg] at h
    cases h
    exact ⟨by omega, hb, rfl⟩

theorem carry_spec (h : carry base low high = (low', high')) :
    0 ≤ low' ∧ low' < base ∧ base * high' + low' = base * high + low := by
  unfold carry at h
  rcases hup : carryUp base low high with ⟨l, n⟩
  rw [hup] at h
  obtain ⟨hlt, -, hvalue⟩ := carryUp_spec hup
  obtain ⟨hnonneg, hlt', hvalue'⟩ := carryDown_spec h hlt
  exact ⟨hnonneg, hlt', hvalue'.trans hvalue⟩

theorem carry_of_lt (h : 0 ≤ low) (h' : low < base) : carry base low high = (low, high) := by
  unfold carry
  rw [carryUp, if_neg (not_le.mpr h')]
  change carryDown base low high = _
  rw [carryDown, if_neg (not_lt.mpr h)]

namespace DateTime

/-- The seconds since the start of the year 0. -/
def instant (t : DateTime) : Int :=
  ((dayNumber t.year t.month t.mday * 24 + t.hours) * 60 + t.minutes) * 60 + t.seconds

/-- A time of the day. -/
structure Clock (t : DateTime) : Prop where
  hours : 0 ≤ t.hours ∧ t.hours < 24
  minutes : 0 ≤ t.minutes ∧ t.minutes < 60
  seconds : 0 ≤ t.seconds ∧ t.seconds < 60

theorem carryClock_spec (t : DateTime) : ∃ h m s d,
    t.carrySeconds.carryMinutes.carryHours =
      { t with hours := h, minutes := m, seconds := s, mday := d } ∧
    Clock { t with hours := h, minutes := m, seconds := s, mday := d } ∧
    ((d * 24 + h) * 60 + m) * 60 + s =
      ((t.mday * 24 + t.hours) * 60 + t.minutes) * 60 + t.seconds := by
  rcases hs : carry 60 t.seconds t.minutes with ⟨s, m⟩
  rcases hm : carry 60 m t.hours with ⟨m', h⟩
  rcases hh : carry 24 h t.mday with ⟨h', d⟩
  have hsec := carry_spec hs
  have hmin := carry_spec hm
  have hhour := carry_spec hh
  refine ⟨h', m', s, d, ?_, ⟨?_, ?_, ?_⟩, ?_⟩
  · simp [carrySeconds, carryMinutes, carryHours, hs, hm, hh]
  all_goals
    simp only [Nat.cast_ofNat] at hsec hmin hhour ⊢
    omega

/-- A month of the calendar, from the year 0 on. -/
structure InCalendar (year month : Int) : Prop where
  year : 0 ≤ year
  month : 1 ≤ month ∧ month ≤ 12

theorem fixMonth_of_inCalendar (h : InCalendar t.year t.month) : t.fixMonth = t := by
  unfold fixMonth
  rw [if_neg (not_lt.mpr h.month.2), if_neg (not_lt.mpr h.month.1)]

theorem fixMonth_of_late (h : 12 < t.month) :
    t.fixMonth = { t with month := 1, year := t.year + 1 } := by
  unfold fixMonth
  rw [if_pos h]

theorem fixMonth_of_early (h : t.month < 1) (hy : t.year ≠ 0) :
    t.fixMonth = { t with month := 12, year := t.year - 1 } := by
  have hlate : ¬ t.month > 12 := by omega
  unfold fixMonth
  rw [if_neg hlate, if_pos h, if_neg hy]

/-- The month that follows, and the same day counted from its start. -/
theorem overflow_step (h : InCalendar t.year t.month) : ∃ y m,
    ({ t with mday := t.mday - daysInMonth t.year t.month, month := t.month + 1 } :
      DateTime).fixMonth =
        { t with year := y, month := m, mday := t.mday - daysInMonth t.year t.month } ∧
    InCalendar y m ∧
    dayNumber y m (t.mday - daysInMonth t.year t.month) = dayNumber t.year t.month t.mday := by
  rw [daysInMonth_eq h.month.1 h.month.2]
  rcases lt_or_eq_of_le h.month.2 with hm | hm
  · have hmonth : 1 ≤ t.month + 1 ∧ t.month + 1 ≤ 12 := by have := h.month.1; omega
    refine ⟨t.year, t.month + 1, ?_, ⟨h.year, ?_⟩, dayNumber_nextMonth h.month.1⟩
    · exact fixMonth_of_inCalendar ⟨h.year, hmonth⟩
    · exact hmonth
  · refine ⟨t.year + 1, 1, ?_, ⟨?_, by decide⟩, ?_⟩
    · exact fixMonth_of_late (by simp only; omega)
    · exact Int.add_nonneg h.year (by decide)
    · rw [hm]
      exact dayNumber_nextYear h.year

/-- The month before, and the same day counted from its start. -/
theorem underflow_step (h : InCalendar t.year t.month) (hfirst : ¬ (t.year = 0 ∧ t.month = 1)) : ∃ y m,
    ({ t with month := t.month - 1 } : DateTime).fixMonth = { t with year := y, month := m } ∧
    InCalendar y m ∧
    dayNumber y m (t.mday + daysInMonth y m) = dayNumber t.year t.month t.mday := by
  have hyear := h.year
  rcases lt_or_eq_of_le h.month.1 with hm | hm
  · have hmonth : 1 ≤ t.month - 1 ∧ t.month - 1 ≤ 12 := by have := h.month.2; omega
    refine ⟨t.year, t.month - 1, ?_, ⟨hyear, hmonth⟩, ?_⟩
    · exact fixMonth_of_inCalendar ⟨hyear, hmonth⟩
    · rw [daysInMonth_eq hmonth.1 hmonth.2, ← dayNumber_nextMonth hmonth.1]
      simp
  · have hpos : t.year ≠ 0 := fun hy => hfirst ⟨hy, hm.symm⟩
    refine ⟨t.year - 1, 12, ?_, ⟨?_, by decide⟩, ?_⟩
    · exact fixMonth_of_early (by simp only; omega) hpos
    · omega
    · rw [daysInMonth_eq (by decide) (by decide), ← dayNumber_nextYear (by omega), ← hm]
      simp

theorem overflowDays_spec (h : InCalendar t.year t.month) : ∃ y m d,
    t.overflowDays = { t with year := y, month := m, mday := d } ∧
    InCalendar y m ∧ d ≤ daysInMonth y m ∧
    dayNumber y m d = dayNumber t.year t.month t.mday := by
  induction t using overflowDays.induct with
  | case1 t hgt ih =>
    obtain ⟨y, m, hfix, hin, hday⟩ := overflow_step h
    rw [hfix] at ih
    obtain ⟨y', m', d, hrun, hin', hle, hday'⟩ := ih hin
    refine ⟨y', m', d, ?_, hin', hle, hday'.trans hday⟩
    rw [overflowDays, if_pos hgt, hfix, hrun]
  | case2 t hle =>
    refine ⟨t.year, t.month, t.mday, ?_, h, not_lt.mp hle, rfl⟩
    rw [overflowDays, if_neg hle]

/-- Days before the year 0 lead to its first second. -/
theorem underflowDays_spec (h : InCalendar t.year t.month) (hle : t.mday ≤ daysInMonth t.year t.month) :
    (∃ y m d, t.underflowDays = { t with year := y, month := m, mday := d } ∧
      InCalendar y m ∧ 1 ≤ d ∧ d ≤ daysInMonth y m ∧
      dayNumber y m d = dayNumber t.year t.month t.mday) ∨
    (t.underflowDays = t.clampToMinimum ∧ dayNumber t.year t.month t.mday < 0) := by
  induction t using underflowDays.induct with
  | case1 t hlt hfirst =>
    right
    refine ⟨by rw [underflowDays, if_pos hlt, if_pos hfirst], ?_⟩
    rw [hfirst.1, hfirst.2]
    change 0 + 0 + (t.mday - 1) < 0
    omega
  | case2 t hlt hfirst u ih =>
    obtain ⟨y, m, hfix, hin, hday⟩ := underflow_step h hfirst
    have hu : u = { t with year := y, month := m } := hfix
    rw [hu] at ih
    have hrun : t.underflowDays = underflowDays { t with
        year := y, month := m, mday := t.mday + daysInMonth y m } := by
      rw [underflowDays, if_pos hlt, if_neg hfirst, hfix]
    rcases ih hin (by simp only; omega) with
      ⟨y', m', d, hrest, hin', hd, hle', hday'⟩ | ⟨hrest, hneg⟩
    · exact .inl ⟨y', m', d, hrun.trans hrest, hin', hd, hle', hday'.trans hday⟩
    · exact .inr ⟨hrun.trans hrest, hday ▸ hneg⟩
  | case3 t hge =>
    left
    exact ⟨t.year, t.month, t.mday, by rw [underflowDays, if_neg hge], h, not_lt.mp hge, hle, rfl⟩

end DateTime

/-- The remap turns Zeller's number, a Saturday for 0, into a day of the week. -/
theorem remap_eq (z : Int) :
    ([6, 7, 1, 2, 3, 4, 5] : List Int).getD ((z.tmod 7 + 7).tmod 7).toNat 0 = weekday z := by
  have hdiv : 7 * z.tdiv 7 + z.tmod 7 = z := Int.mul_tdiv_add_tmod z 7
  have hlo : -7 < z.tmod 7 := Int.lt_tmod_of_pos z (by decide)
  have hmod : (z.tmod 7 + 7).tmod 7 = z % 7 := by
    rw [Int.tmod_eq_emod_of_nonneg (by omega)]
    omega
  have hall : ∀ n < 7, ([6, 7, 1, 2, 3, 4, 5] : List Int).getD n 0 = weekday n := by decide
  rw [hmod, hall _ (by omega)]
  unfold weekday
  omega

theorem weekdayFromDate_bounds : 1 ≤ weekdayFromDate mday month year ∧
    weekdayFromDate mday month year ≤ 7 := by
  unfold weekdayFromDate
  simp only [remap_eq, weekday]
  omega

namespace DateTime

/-- A date that normalisation leaves alone. -/
structure Normal (t : DateTime) : Prop where
  calendar : InCalendar t.year t.month
  mday : 1 ≤ t.mday ∧ t.mday ≤ daysInMonth t.year t.month
  clock : Clock t
  wday : t.wday = weekdayFromDate t.mday t.month t.year

theorem Normal.isDateTimeValid (h : Normal t) : isDateTimeValid t = true := by
  have hweek : 1 ≤ t.wday ∧ t.wday ≤ 7 := by
    rw [h.wday]
    exact weekdayFromDate_bounds
  have := h.calendar.year
  have := h.calendar.month
  have := h.mday
  have := h.clock.hours
  have := h.clock.minutes
  have := h.clock.seconds
  simp only [Misc.isDateTimeValid, Bool.not_eq_true', Bool.or_eq_false_iff, decide_eq_false_iff_not]
  omega

theorem Clock.carryClock_eq (h : Clock t) : t.carrySeconds.carryMinutes.carryHours = t := by
  have hs : carry 60 t.seconds t.minutes = (t.seconds, t.minutes) :=
    carry_of_lt h.seconds.1 h.seconds.2
  have hm : carry 60 t.minutes t.hours = (t.minutes, t.hours) :=
    carry_of_lt h.minutes.1 h.minutes.2
  have hh : carry 24 t.hours t.mday = (t.hours, t.mday) := carry_of_lt h.hours.1 h.hours.2
  simp [carrySeconds, carryMinutes, carryHours, hs, hm, hh]

theorem normalizeDateTime_of_date (hin : InCalendar t.year t.month)
    (hd : 1 ≤ t.mday ∧ t.mday ≤ daysInMonth t.year t.month) (hc : Clock t) :
    normalizeDateTime t = { t with wday := weekdayFromDate t.mday t.month t.year } := by
  have hover : t.overflowDays = t := by
    rw [overflowDays, if_neg (not_lt.mpr hd.2)]
  have hunder : t.underflowDays = t := by
    rw [underflowDays, if_neg (not_lt.mpr hd.1)]
  unfold normalizeDateTime
  simp only [hc.carryClock_eq, if_neg (not_lt.mpr hin.year), fixMonth_of_inCalendar hin, hover,
    hunder]

theorem Normal.normalizeDateTime_eq (h : Normal t) : normalizeDateTime t = t := by
  rw [normalizeDateTime_of_date h.calendar h.mday h.clock, ← h.wday]

theorem Clock.instant_div (h : Clock t) : t.instant / 86400 = dayNumber t.year t.month t.mday := by
  have := h.hours
  have := h.minutes
  have := h.seconds
  unfold instant
  omega

theorem Normal.instant_nonneg (h : Normal t) : 0 ≤ t.instant := by
  have hday : 0 ≤ dayNumber t.year t.month t.mday := dayNumber_nonneg h.mday.1
  have hdiv := h.clock.instant_div
  omega

/-- The first second of the year 0. -/
def minimum : DateTime := ⟨0, 0, 0, 0, 1, 1, weekdayFromDate 1 1 0⟩

theorem normal_minimum : Normal minimum :=
  ⟨⟨by decide, by decide⟩, by decide, ⟨by decide, by decide, by decide⟩, rfl⟩

theorem instant_minimum : minimum.instant = 0 := rfl

/-- The instant is kept, unless it lies before the year 0. -/
theorem normalize_cases (h : InCalendar t.year t.month) :
    (Normal (normalizeDateTime t) ∧ (normalizeDateTime t).instant = t.instant) ∨
      (normalizeDateTime t = minimum ∧ t.instant < 0) := by
  obtain ⟨hours, minutes, seconds, d, hcarry, hclock, hvalue⟩ := carryClock_spec t
  obtain ⟨y, m, d', hover, hin, hle, hday⟩ := overflowDays_spec
    (t := { t with hours, minutes, seconds, mday := d }) h
  have hyear : ¬ t.year < 0 := not_lt.mpr h.year
  have hfix : fixMonth { t with hours, minutes, seconds, mday := d } =
      { t with hours, minutes, seconds, mday := d } := fixMonth_of_inCalendar h
  have hdays : dayNumber t.year t.month d = dayNumber t.year t.month t.mday + (d - t.mday) := by
    rw [← dayNumber_add]
    congr 1
    omega
  simp only at hday
  have hrun : normalizeDateTime t =
      let u := underflowDays { t with hours, minutes, seconds, year := y, month := m, mday := d' }
      { u with wday := weekdayFromDate u.mday u.month u.year } := by
    unfold normalizeDateTime
    simp only [hcarry, if_neg hyear, hfix, hover]
  rcases underflowDays_spec
    (t := { t with hours, minutes, seconds, year := y, month := m, mday := d' }) hin hle with
    ⟨y', m', d'', hunder, hin', hd, hle', hday'⟩ | ⟨hunder, hneg⟩
  · left
    rw [hrun, hunder]
    refine ⟨⟨hin', ⟨hd, hle'⟩, ⟨hclock.hours, hclock.minutes, hclock.seconds⟩, rfl⟩, ?_⟩
    simp only at hday'
    simp only [instant, hday', hday, hdays]
    omega
  · right
    rw [hrun, hunder]
    refine ⟨rfl, ?_⟩
    have := hclock.hours
    have := hclock.minutes
    have := hclock.seconds
    simp only at *
    unfold instant
    omega

theorem normal_normalizeDateTime (h : InCalendar t.year t.month) : Normal (normalizeDateTime t) := by
  rcases normalize_cases h with ⟨hn, _⟩ | ⟨hmin, _⟩
  · exact hn
  · rw [hmin]
    exact normal_minimum

/-- Normalisation gives a valid date at the same instant, or the first second of the year 0 when
the instant lies before it. Doing it again changes nothing. -/
theorem normalize_instant (h : InCalendar t.year t.month) :
    isDateTimeValid (normalizeDateTime t) = true ∧
      (0 ≤ t.instant → (normalizeDateTime t).instant = t.instant) ∧
      (t.instant < 0 → ∃ wday, normalizeDateTime t = ⟨0, 0, 0, 0, 1, 1, wday⟩) ∧
      normalizeDateTime (normalizeDateTime t) = normalizeDateTime t := by
  have hnormal := normal_normalizeDateTime h
  refine ⟨hnormal.isDateTimeValid, fun hi => ?_, fun hi => ?_, hnormal.normalizeDateTime_eq⟩
  · rcases normalize_cases h with ⟨_, heq⟩ | ⟨_, hneg⟩
    · exact heq
    · omega
  · rcases normalize_cases h with ⟨_, heq⟩ | ⟨hmin, _⟩
    · have hnonneg := hnormal.instant_nonneg
      omega
    · exact ⟨_, hmin⟩

theorem normalize_instant_leapDay :
    let t : DateTime := { year := 2024, month := 2, mday := 29, hours := 24 }
    isDateTimeValid (normalizeDateTime t) = true ∧
      (0 ≤ t.instant → (normalizeDateTime t).instant = t.instant) ∧
      (t.instant < 0 → ∃ wday, normalizeDateTime t = ⟨0, 0, 0, 0, 1, 1, wday⟩) ∧
      normalizeDateTime (normalizeDateTime t) = normalizeDateTime t :=
  normalize_instant ⟨by decide, by decide⟩

end DateTime

/-- The year of the century and the century of Zeller's congruence count the days of the years. -/
theorem zellerYear_eq (h : 0 ≤ year) :
    year.tmod 100 + (year.tmod 100).tdiv 4 + (year.tdiv 100).tdiv 4 - 2 * year.tdiv 100 =
      365 * year + year / 4 - year / 100 + year / 400 -
        7 * (5218 * (year / 100) + 52 * (year % 100)) := by
  rw [Int.tmod_eq_emod_of_nonneg h, Int.tdiv_eq_ediv_of_nonneg h,
    Int.tdiv_eq_ediv_of_nonneg (by omega), Int.tdiv_eq_ediv_of_nonneg (by omega)]
  omega

theorem daysBeforeYear_toNat (h : 0 ≤ year) : daysBeforeYear year.toNat =
    365 * year + (year + 3) / 4 - (year + 99) / 100 + (year + 399) / 400 := by
  rw [daysBeforeYear_eq, Int.toNat_of_nonneg h]

theorem weekday_eq_of_dvd {m n : Int} (h : 7 ∣ m - n) : weekday m = weekday n := by
  unfold weekday
  omega

/-- The days of the months before one after February, by Zeller's congruence. -/
theorem daysOfMonths_zeller (h : 3 ≤ month) (h' : month ≤ 12) :
    7 ∣ 13 * (month + 1) / 5 + 1 -
      (daysOfMonths year (month - 1).toNat + if Leap year then 0 else 1) := by
  by_cases hleap : Leap year <;> interval_cases month <;>
    simp [daysOfMonths, monthLength, hleap]

/-- January and February of the year 0 belong to the year -1, where truncation toward zero spoils
Zeller's congruence. -/
theorem weekdayFromDate_eq (h : DateTime.InCalendar year month) :
    weekdayFromDate mday month year =
      weekday (dayNumber year month mday + if year = 0 ∧ month ≤ 2 then 1 else 0) := by
  obtain ⟨hyear, hmonth, hmonth'⟩ := h
  have hdays := daysBeforeYear_toNat hyear
  unfold weekdayFromDate dayNumber
  simp only [remap_eq]
  apply weekday_eq_of_dvd
  by_cases hfirst : month ≤ 2
  · have hmonths : month = 1 ∨ month = 2 := by omega
    have hdays' : daysOfMonths year (month - 1).toNat = 31 * (month - 1) := by
      rcases hmonths with rfl | rfl <;> simp [daysOfMonths, monthLength]
    rw [if_pos hmonths, Int.tdiv_eq_ediv_of_nonneg (by omega), hdays']
    rcases hyear.eq_or_lt with rfl | hpos
    · rw [if_pos ⟨rfl, hfirst⟩]
      change 7 ∣ mday + 13 * (month + 12 + 1) / 5 + -1 + 0 + 0 - 2 * 0 -
        (0 + 31 * (month - 1) + (mday - 1) + 1)
      omega
    · have hzeller := @zellerYear_eq (year - 1) (by omega)
      have hbefore : daysBeforeYear year.toNat = 365 * (year - 1) + (year - 1) / 4 -
          (year - 1) / 100 + (year - 1) / 400 + 366 := by omega
      have hfive : 13 * (month + 12 + 1) / 5 = 3 * month + 33 := by omega
      rw [if_neg (by omega), hbefore, hfive]
      simp only
      refine ⟨-4 * month - 5218 * ((year - 1) / 100) - 52 * ((year - 1) % 100) - 43, ?_⟩
      omega
  · have hzeller := zellerYear_eq hyear
    obtain ⟨k, hk⟩ := @daysOfMonths_zeller year month (by omega) hmonth'
    rw [if_neg (by omega), if_neg (by omega), Int.tdiv_eq_ediv_of_nonneg (by omega)]
    refine ⟨k - 5218 * (year / 100) - 52 * (year % 100), ?_⟩
    have hleap : daysBeforeYear year.toNat = 365 * year + year / 4 - year / 100 + year / 400 +
        if Leap year then 0 else 1 := by
      rw [hdays]
      unfold Leap
      split_ifs <;> omega
    rw [hleap]
    simp only
    omega

namespace DateTime

theorem date_of_isDateTimeValid (h : isDateTimeValid t = true) : InCalendar t.year t.month ∧
    (1 ≤ t.mday ∧ t.mday ≤ daysInMonth t.year t.month) ∧ Clock t := by
  simp only [isDateTimeValid, Bool.not_eq_true', Bool.or_eq_false_iff, decide_eq_false_iff_not] at h
  exact ⟨⟨by omega, by omega⟩, by omega, ⟨by omega, by omega, by omega⟩⟩

/-- January and February of the year 0 are its first sixty days. -/
theorem early_iff (hin : InCalendar year month)
    (hd : 1 ≤ mday ∧ mday ≤ daysInMonth year month) :
    (year = 0 ∧ month ≤ 2) ↔ dayNumber year month mday < 60 := by
  rw [daysInMonth_eq hin.month.1 hin.month.2] at hd
  have hlow := hin.month.1
  constructor
  · rintro ⟨rfl, hm⟩
    have hcases : month = 1 ∨ month = 2 := by omega
    rcases hcases with rfl | rfl
    · change 1 ≤ mday ∧ mday ≤ 31 at hd
      change 0 + 0 + (mday - 1) < 60
      omega
    · change 1 ≤ mday ∧ mday ≤ 29 at hd
      change 0 + 31 + (mday - 1) < 60
      omega
  · intro hlt
    by_contra hnot
    have hmarch : dayNumber 0 3 1 ≤ dayNumber year month 1 := by
      rcases hin.year.eq_or_lt with rfl | hpos
      · rcases (show 3 ≤ month by omega).eq_or_lt with rfl | hm
        · exact le_refl _
        · exact le_of_lt (dayNumber_lt_of_month hm (by decide))
      · exact le_of_lt (dayNumber_lt_of_year hpos (by decide) (by decide))
    have hday : dayNumber year month (1 + (mday - 1)) = dayNumber year month 1 + (mday - 1) :=
      dayNumber_add _
    rw [add_sub_cancel] at hday
    change 60 ≤ _ at hmarch
    omega

/-- The weekday of a date is right, and the date after it has the weekday after it. -/
def WeekdayRight (t : DateTime) : Prop :=
  (normalizeDateTime t).wday = weekday (dayNumber t.year t.month t.mday) ∧
    (normalizeDateTime { t with mday := t.mday + 1 }).wday = (normalizeDateTime t).wday % 7 + 1

/-- The weekdays are right from March of the year 0 on. -/
theorem weekdayRight_iff (h : isDateTimeValid t = true) :
    WeekdayRight t ↔ ¬ (t.year = 0 ∧ t.month ≤ 2) := by
  obtain ⟨hin, hd, hc⟩ := date_of_isDateTimeValid h
  have hnow : (normalizeDateTime t).wday =
      weekday (dayNumber t.year t.month t.mday + if t.year = 0 ∧ t.month ≤ 2 then 1 else 0) := by
    rw [normalizeDateTime_of_date hin hd hc, ← weekdayFromDate_eq hin]
  unfold WeekdayRight
  constructor
  · rintro ⟨hright, -⟩ hearly
    rw [hnow, if_pos hearly] at hright
    unfold weekday at hright
    omega
  · intro hlate
    rw [if_neg hlate, add_zero] at hnow
    refine ⟨hnow, ?_⟩
    have hpos := mt (early_iff hin hd).mpr hlate
    let next : DateTime := { t with mday := t.mday + 1 }
    have hinstant : next.instant = t.instant + 86400 := by
      have hday : dayNumber next.year next.month next.mday =
          dayNumber t.year t.month t.mday + 1 := dayNumber_add 1
      unfold instant
      rw [hday]
      change ((_ * 24 + t.hours) * 60 + t.minutes) * 60 + t.seconds = _
      omega
    have hdiv := hc.instant_div
    rcases normalize_cases (t := next) hin with ⟨hnormal, hsame⟩ | ⟨_, hneg⟩
    · have hdiv' := hnormal.clock.instant_div
      rw [hsame, hinstant] at hdiv'
      have hlater : ¬ ((normalizeDateTime next).year = 0 ∧ (normalizeDateTime next).month ≤ 2) := by
        rw [early_iff hnormal.calendar hnormal.mday]
        omega
      change (normalizeDateTime next).wday = _
      rw [hnormal.wday, weekdayFromDate_eq hnormal.calendar, if_neg hlater, hnow]
      unfold weekday
      omega
    · omega

theorem weekdayRight_leapDay :
    let t : DateTime := { year := 2024, month := 2, mday := 29, wday := 4 }
    WeekdayRight t ↔ ¬ (t.year = 0 ∧ t.month ≤ 2) :=
  weekdayRight_iff (by decide)

/-- The 29 February of the year 0 is a Tuesday. It comes out as a Wednesday, as does the day after
it. -/
theorem weekday_leapDay_zero :
    let t : DateTime := { year := 0, month := 2, mday := 29, wday := 2 }
    isDateTimeValid t = true ∧ weekday (dayNumber 0 2 29) = 2 ∧ (normalizeDateTime t).wday = 3 ∧
      (normalizeDateTime { year := 0, month := 3, mday := 1 }).wday = 3 ∧ ¬ WeekdayRight t := by
  intro t
  have hnow : (normalizeDateTime t).wday = 3 := by
    rw [normalizeDateTime_of_date ⟨by decide, by decide⟩ (by decide)
      ⟨by decide, by decide, by decide⟩]
    rfl
  refine ⟨by decide, rfl, hnow, ?_, fun h => ?_⟩
  · rw [normalizeDateTime_of_date ⟨by decide, by decide⟩ (by decide)
      ⟨by decide, by decide, by decide⟩]
    rfl
  · exact absurd (hnow.symm.trans h.1) (by decide)

/-- The date after the carries and the repair of the month decides the result. -/
theorem normalizeDateTime_congr {u v : DateTime} (hu : 0 ≤ u.year) (hv : 0 ≤ v.year)
    (h : u.carrySeconds.carryMinutes.carryHours.fixMonth =
      v.carrySeconds.carryMinutes.carryHours.fixMonth) :
    normalizeDateTime u = normalizeDateTime v := by
  have hu' : ¬ u.carrySeconds.carryMinutes.carryHours.year < 0 := not_lt.mpr hu
  have hv' : ¬ v.carrySeconds.carryMinutes.carryHours.year < 0 := not_lt.mpr hv
  unfold normalizeDateTime
  simp only [if_neg hu', if_neg hv', h]

/-- A month past December is the next January, whatever its number. -/
theorem normalize_lateMonth {y m : Int} (hy : 0 ≤ y) (hm : 12 < m) :
    normalizeDateTime { t with year := y, month := m } =
      normalizeDateTime { t with year := y + 1, month := 1 } := by
  have hin : InCalendar (y + 1) 1 := ⟨Int.add_nonneg hy (by decide), by decide⟩
  refine normalizeDateTime_congr hy hin.year ((fixMonth_of_late hm).trans ?_)
  exact (fixMonth_of_inCalendar hin).symm

/-- A month before January is the last December, whatever its number. -/
theorem normalize_earlyMonth {y m : Int} (hy : 0 < y) (hm : m < 1) :
    normalizeDateTime { t with year := y, month := m } =
      normalizeDateTime { t with year := y - 1, month := 12 } := by
  have hin : InCalendar (y - 1) 12 := ⟨Int.sub_nonneg_of_le hy, by decide⟩
  refine normalizeDateTime_congr hy.le hin.year ((fixMonth_of_early hm hy.ne').trans ?_)
  exact (fixMonth_of_inCalendar hin).symm

theorem Normal.eq_minimum (h : Normal t) (hi : t.instant = 0) : t = minimum := by
  have hdiv := h.clock.instant_div
  rw [hi] at hdiv
  have hearly := (early_iff h.calendar h.mday).mpr (by omega)
  obtain ⟨hh, hm, hs⟩ := h.clock
  have hday := h.mday
  have hmonth := h.calendar.month
  have hwday := h.wday
  obtain ⟨hours, minutes, seconds, year, month, mday, wday⟩ := t
  simp only at *
  obtain ⟨rfl, hle⟩ := hearly
  have hcases : month = 1 ∨ month = 2 := by omega
  rcases hcases with rfl | rfl
  · change 0 / 86400 = 0 + 0 + (mday - 1) at hdiv
    obtain rfl : mday = 1 := by omega
    change ((0 * 24 + hours) * 60 + minutes) * 60 + seconds = 0 at hi
    obtain rfl : hours = 0 := by omega
    obtain rfl : minutes = 0 := by omega
    obtain rfl : seconds = 0 := by omega
    rw [hwday]
    rfl
  · change 0 / 86400 = 0 + 31 + (mday - 1) at hdiv
    omega

/-- Two dates that differ in the month have one result if both lie before the year 0. -/
theorem normalize_eq_iff {u v : DateTime} (hu : InCalendar u.year u.month)
    (hv : InCalendar v.year v.month) (h : u.instant < v.instant) :
    normalizeDateTime u = normalizeDateTime v ↔ v.instant ≤ 0 := by
  rcases normalize_cases hu with ⟨hun, hui⟩ | ⟨hun, hui⟩ <;>
    rcases normalize_cases hv with ⟨hvn, hvi⟩ | ⟨hvn, hvi⟩
  · have hnonneg := hun.instant_nonneg
    refine ⟨fun heq => ?_, fun hle => by omega⟩
    rw [heq] at hui
    omega
  · have hnonneg := hun.instant_nonneg
    omega
  · constructor
    · intro heq
      rw [← heq, hun, instant_minimum] at hvi
      omega
    · intro hle
      have hnonneg := hvn.instant_nonneg
      rw [hun, hvn.eq_minimum (by omega)]
  · exact ⟨fun _ => by omega, fun _ => hun.trans hvn.symm⟩

theorem instant_lt {y m y' m' : Int}
    (h : dayNumber y m t.mday < dayNumber y' m' t.mday) :
    ({ t with year := y, month := m } : DateTime).instant <
      ({ t with year := y', month := m' } : DateTime).instant := by
  unfold instant
  simp only
  omega

/-- Months past December carry into one year only, and to its January: right for a January of the
next year, and where everything lies before the year 0. -/
theorem lateMonth_iff {y m k : Int} (hin : InCalendar y m) (hk : 1 ≤ k) :
    normalizeDateTime { t with year := y, month := m + 12 * k } =
        normalizeDateTime { t with year := y + k, month := m } ↔
      (k = 1 ∧ m = 1) ∨ ({ t with year := y + k, month := m } : DateTime).instant ≤ 0 := by
  have hm := hin.month
  have hy := hin.year
  rw [normalize_lateMonth hy (by omega)]
  by_cases hfirst : k = 1 ∧ m = 1
  · rw [hfirst.1, hfirst.2]
    exact ⟨fun _ => .inl ⟨rfl, rfl⟩, fun _ => rfl⟩
  · have hnext : InCalendar (y + 1) 1 := ⟨by omega, by decide⟩
    have hlater : InCalendar (y + k) m := ⟨by omega, hm⟩
    rw [normalize_eq_iff hnext hlater]
    · exact ⟨.inr, fun hor => hor.resolve_left hfirst⟩
    · apply instant_lt
      rcases hk.eq_or_lt with rfl | hk
      · exact dayNumber_lt_of_month (by omega) (by decide)
      · exact dayNumber_lt_of_year (by omega) (by omega) (by decide)

theorem earlyMonth_iff {y m k : Int} (hin : InCalendar y m) (hk : 1 ≤ k) :
    normalizeDateTime { t with year := y + k, month := m - 12 * k } =
        normalizeDateTime { t with year := y, month := m } ↔
      (k = 1 ∧ m = 12) ∨ ({ t with year := y + k - 1, month := 12 } : DateTime).instant ≤ 0 := by
  have hm := hin.month
  have hy := hin.year
  rw [normalize_earlyMonth (by omega) (by omega)]
  by_cases hlast : k = 1 ∧ m = 12
  · rw [hlast.1, hlast.2, add_sub_cancel_right]
    exact ⟨fun _ => .inl ⟨rfl, rfl⟩, fun _ => rfl⟩
  · have hprev : InCalendar (y + k - 1) 12 := ⟨by omega, by decide⟩
    rw [eq_comm, normalize_eq_iff hin hprev]
    · exact ⟨.inr, fun hor => hor.resolve_left hlast⟩
    · apply instant_lt
      rcases hk.eq_or_lt with rfl | hk
      · rw [add_sub_cancel_right]
        exact dayNumber_lt_of_month (by omega) hm.1
      · exact dayNumber_lt_of_year (by omega) hy hm.2

/-- What a carry over the months gives is right in the one case of each direction, a January and a
December, and where both results are the first second of the year 0. -/
theorem monthCarry_iff {y m k : Int} (hin : InCalendar y m) (hk : 1 ≤ k) :
    (normalizeDateTime { t with year := y, month := m + 12 * k } =
        normalizeDateTime { t with year := y + k, month := m } ↔
      (k = 1 ∧ m = 1) ∨ ({ t with year := y + k, month := m } : DateTime).instant ≤ 0) ∧
    (normalizeDateTime { t with year := y + k, month := m - 12 * k } =
        normalizeDateTime { t with year := y, month := m } ↔
      (k = 1 ∧ m = 12) ∨ ({ t with year := y + k - 1, month := 12 } : DateTime).instant ≤ 0) :=
  ⟨lateMonth_iff hin hk, earlyMonth_iff hin hk⟩

theorem monthCarry_iff_march :
    let t : DateTime := {}
    (normalizeDateTime { t with year := 2025, month := 3 + 12 * 1 } =
        normalizeDateTime { t with year := 2025 + 1, month := 3 } ↔
      ((1 : Int) = 1 ∧ (3 : Int) = 1) ∨
        ({ t with year := 2025 + 1, month := 3 } : DateTime).instant ≤ 0) ∧
    (normalizeDateTime { t with year := 2025 + 1, month := 3 - 12 * 1 } =
        normalizeDateTime { t with year := 2025, month := 3 } ↔
      ((1 : Int) = 1 ∧ (3 : Int) = 12) ∨
        ({ t with year := 2025 + 1 - 1, month := 12 } : DateTime).instant ≤ 0) :=
  monthCarry_iff ⟨by decide, by decide⟩ (by decide)

/-- The fifteenth month of 2025 is January 2026, not March. -/
theorem month15_january :
    (normalizeDateTime { year := 2025, month := 15 }).month = 1 ∧
      (normalizeDateTime { year := 2026, month := 3 }).month = 3 ∧
      normalizeDateTime { year := 2025, month := 15 } ≠
        normalizeDateTime { year := 2026, month := 3 } := by
  have hlate : (normalizeDateTime { year := 2025, month := 15 }).month = 1 := by
    rw [show normalizeDateTime { year := 2025, month := 15 } = _ from
      normalize_lateMonth (t := {}) (by decide) (by decide),
      normalizeDateTime_of_date ⟨by decide, by decide⟩ (by decide)
        ⟨by decide, by decide, by decide⟩]
  have hmarch : (normalizeDateTime { year := 2026, month := 3 }).month = 3 := by
    rw [normalizeDateTime_of_date ⟨by decide, by decide⟩ (by decide)
      ⟨by decide, by decide, by decide⟩]
  refine ⟨hlate, hmarch, fun h => ?_⟩
  rw [h, hmarch] at hlate
  exact absurd hlate (by decide)

end DateTime

end Zlibs.Misc
