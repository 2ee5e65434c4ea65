import Zlibs.Misc.Calendar

/-! Dates that are moved on, and normalised after every move. -/
namespace Zlibs.Misc
open Lib.Gregorian

structure Time where
  hours : Int := 0
  minutes : Int := 0
  seconds : Int := 0
  deriving DecidableEq

def secondsToTime (seconds : Int) : Time where
  hours := seconds.tdiv 3600
  minutes := (seconds.tmod 3600).tdiv 60
  seconds := seconds.tmod 60

/-- What is added to the fields of a date, or taken from them. -/
structure Move where
  days : Int := 0
  time : Time := {}
  deriving DecidableEq

/-- The seconds of a move. -/
def Move.total (m : Move) : Int :=
  ((m.days * 24 + m.time.hours) * 60 + m.time.minutes) * 60 + m.time.seconds

namespace DateTime

def plus (t : DateTime) (m : Move) : DateTime :=
  { t with
    mday := t.mday + m.days
    hours := t.hours + m.time.hours
    minutes := t.minutes + m.time.minutes
    seconds := t.seconds + m.time.seconds }

variable {t u v : DateTime} {m : Move} {moves : List Move}

theorem instant_plus : (t.plus m).instant = t.instant + m.total := by
  unfold instant plus Move.total
  simp only [dayNumber_add]
  ring

/-- A normalised date is given by its instant. -/
theorem Normal.eq_of_instant (hu : Normal u) (hv : Normal v) (h : u.instant = v.instant) :
    u = v := by
  have hday : dayNumber u.year u.month u.mday = dayNumber v.year v.month v.mday := by
    rw [← hu.clock.instant_div, ← hv.clock.instant_div, h]
  have before {u v : DateTime} (hu : Normal u) (hv : Normal v)
      (h : u.year < v.year ∨ u.year = v.year ∧ u.month < v.month) :
      dayNumber u.year u.month u.mday < dayNumber v.year v.month v.mday := by
    have hlast := hu.mday.2
    rw [daysInMonth_eq hu.calendar.month.1 hu.calendar.month.2] at hlast
    exact dayNumber_lt hu.calendar.year hu.calendar.month hlast hv.calendar.month.1 hv.mday.1 h
  have hyear : u.year = v.year := by
    obtain hlt | heq | hlt := lt_trichotomy u.year v.year
    · exact absurd hday (before hu hv (.inl hlt)).ne
    · exact heq
    · exact absurd hday (before hv hu (.inl hlt)).ne'
  have hmonth : u.month = v.month := by
    obtain hlt | heq | hlt := lt_trichotomy u.month v.month
    · exact absurd hday (before hu hv (.inr ⟨hyear, hlt⟩)).ne
    · exact heq
    · exact absurd hday (before hv hu (.inr ⟨hyear.symm, hlt⟩)).ne'
  have hmday : u.mday = v.mday := by
    rw [hyear, hmonth] at hday
    unfold dayNumber at hday
    omega
  obtain ⟨huh, hum, hus⟩ := hu.clock
  obtain ⟨hvh, hvm, hvs⟩ := hv.clock
  have hclock : (u.hours * 60 + u.minutes) * 60 + u.seconds =
      (v.hours * 60 + v.minutes) * 60 + v.seconds := by
    unfold instant at h
    rw [hday] at h
    omega
  have hwday : u.wday = v.wday := by rw [hu.wday, hv.wday, hmday, hmonth, hyear]
  obtain ⟨uh, um, us, uy, umo, ud, uw⟩ := u
  obtain ⟨vh, vm, vs, vy, vmo, vd, vw⟩ := v
  simp only at *
  simp only [DateTime.mk.injEq]
  omega

theorem instant_normalizeDateTime (h : InCalendar t.year t.month) (hpos : 0 ≤ t.instant) :
    (normalizeDateTime t).instant = t.instant := by
  rcases normalize_cases h with ⟨-, hsame⟩ | ⟨-, hneg⟩
  · exact hsame
  · omega

theorem normalize_congr (hu : InCalendar u.year u.month) (hv : InCalendar v.year v.month)
    (hpos : 0 ≤ u.instant) (h : u.instant = v.instant) :
    normalizeDateTime u = normalizeDateTime v := by
  refine (normal_normalizeDateTime hu).eq_of_instant (normal_normalizeDateTime hv) ?_
  rw [instant_normalizeDateTime hu hpos, instant_normalizeDateTime hv (h ▸ hpos), h]

/-- Normalising before a move makes no difference to normalising after it. -/
theorem normalize_plus (h : InCalendar t.year t.month) (hpos : 0 ≤ t.instant)
    (hmoved : 0 ≤ t.instant + m.total) :
    normalizeDateTime ((normalizeDateTime t).plus m) = normalizeDateTime (t.plus m) := by
  have hsame : (normalizeDateTime t).instant = t.instant :=
    instant_normalizeDateTime h hpos
  refine normalize_congr (normal_normalizeDateTime h).calendar h ?_ ?_
  · rw [instant_plus, hsame]
    exact hmoved
  · rw [instant_plus, instant_plus, hsame]

theorem total_secondsToTime (seconds : Int) :
    Move.total { time := secondsToTime seconds } = seconds := by
  have hhours := Int.mul_tdiv_add_tmod seconds 3600
  have hminutes := Int.mul_tdiv_add_tmod (seconds.tmod 3600) 60
  have hseconds : (seconds.tmod 3600).tmod 60 = seconds.tmod 60 :=
    Int.tmod_tmod_of_dvd seconds ⟨60, rfl⟩
  rw [hseconds] at hminutes
  unfold Move.total secondsToTime
  simp only
  omega

theorem foldl_plus : (moves.foldl plus t).year = t.year ∧ (moves.foldl plus t).month = t.month ∧
    (moves.foldl plus t).instant = t.instant + (moves.map Move.total).sum := by
  induction moves generalizing t with
  | nil => simp
  | cons m rest ih =>
    obtain ⟨hyear, hmonth, hinstant⟩ := @ih (t.plus m)
    rw [instant_plus] at hinstant
    rw [List.foldl_cons, List.map_cons, List.sum_cons]
    exact ⟨hyear, hmonth, by omega⟩

/-- A date that is moved again and again, and normalised after each move, is the one valid date of
its instant, as long as that is not before the year 0: the moves may as well be made at once, or as
seconds. -/
theorem moves_normalize (h : InCalendar t.year t.month) (moves : List Move)
    (hpos : ∀ before, before <+: moves → 0 ≤ t.instant + (before.map Move.total).sum) :
    let moved := moves.foldl (fun t m => normalizeDateTime (t.plus m)) (normalizeDateTime t)
    let total := (moves.map Move.total).sum
    moved = normalizeDateTime (moves.foldl plus t) ∧
      moved = normalizeDateTime (t.plus { time := secondsToTime total }) ∧
      ∀ u, Normal u → (u.instant = t.instant + total ↔ u = moved) := by
  have htotal : 0 ≤ (moves.foldl plus t).instant := by
    rw [foldl_plus.2.2]
    exact hpos moves (List.prefix_refl moves)
  have hin : ∀ moves : List Move, InCalendar (moves.foldl plus t).year (moves.foldl plus t).month := by
    intro moves
    rw [foldl_plus.1, foldl_plus.2.1]
    exact h
  have honce : moves.foldl (fun t m => normalizeDateTime (t.plus m)) (normalizeDateTime t) =
      normalizeDateTime (moves.foldl plus t) := by
    clear htotal
    induction moves using List.reverseRecOn with
    | nil => rfl
    | append_singleton moves m ih =>
      have hbefore := hpos moves (List.prefix_append moves [m])
      have hafter := hpos (moves ++ [m]) (List.prefix_refl _)
      rw [List.map_append, List.sum_append, List.map_singleton, List.sum_singleton] at hafter
      rw [List.foldl_concat, List.foldl_concat,
        ih fun before hp => hpos before (hp.trans (List.prefix_append moves [m]))]
      refine normalize_plus (hin moves) ?_ ?_
      · rw [foldl_plus.2.2]
        exact hbefore
      · rw [foldl_plus.2.2]
        omega
  intro moved total
  have hmoved : moved = normalizeDateTime (moves.foldl plus t) := honce
  have hinstant : moved.instant = t.instant + total := by
    rw [hmoved, instant_normalizeDateTime (hin moves) htotal, foldl_plus.2.2]
  have hnormal : Normal moved := by
    rw [hmoved]
    exact normal_normalizeDateTime (hin moves)
  refine ⟨honce, ?_, fun u hu => ⟨fun hi => ?_, fun hm => ?_⟩⟩
  · refine honce.trans (normalize_congr (hin moves) h htotal ?_)
    rw [foldl_plus.2.2, instant_plus, total_secondsToTime]
  · exact hu.eq_of_instant hnormal (hi.trans hinstant.symm)
  · rw [hm, hinstant]

/-- A leap day back and forth. -/
theorem moves_normalize_leapDay :
    [({ days := 1 } : Move), { time := { seconds := -86400 } }].foldl
        (fun t m => normalizeDateTime (t.plus m))
        (normalizeDateTime { year := 4, month := 2, mday := 29 }) =
      normalizeDateTime (([({ days := 1 } : Move), { time := { seconds := -86400 } }]).foldl plus
        { year := 4, month := 2, mday := 29 }) := by
  refine (moves_normalize ⟨by decide, by decide⟩ _ ?_).1
  intro before hp
  obtain rfl | rfl | rfl : before = [] ∨ before = [{ days := 1 }] ∨
      before = [{ days := 1 }, { time := { seconds := -86400 } }] := by
    rcases hp with ⟨rest, hrest⟩
    rcases before with _ | ⟨a, _ | ⟨b, _ | ⟨c, more⟩⟩⟩ <;> simp_all
  · decide
  · decide
  · decide

end DateTime

end Zlibs.Misc
