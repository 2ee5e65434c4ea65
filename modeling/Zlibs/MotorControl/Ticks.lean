import Zlibs.MotorControl.Motor

/-! What one tick of a motor may do. -/
namespace Zlibs.MotorControl

variable {env : Env} {m t : Motor} {now : Int}

namespace Motor

/-- The tick ends the interval of the pulse. -/
def Due (m : Motor) : Prop := m.timerIntervalUs ≤ m.timerCounter + MotorControl.timerIntervalUs

instance : Decidable m.Due := inferInstanceAs (Decidable (_ ≤ _))

/-- The HWA refuses the next pulse. -/
def Refused (env : Env) (m : Motor) : Prop := (m.sendPulse env).1 = false

theorem sendPulse_congr (h : t.calls = m.calls) :
    t.sendPulse env = ((m.sendPulse env).1, { t with calls := (m.sendPulse env).2.calls }) := by
  unfold sendPulse called
  rw [h]
  cases env.useStepToggle
  · cases env.hwa m.calls (.writeStep true) <;> simp
  · simp

/-- The switch moves along the ramp only. -/
structure Ramped (m t : Motor) : Prop where
  movement : t.movement = m.movement
  stopRequested : t.stopRequested = m.stopRequested
  before : t.pulsesBeforeDeceleration = m.pulsesBeforeDeceleration
  sent : t.movementPulsesSent = m.movementPulsesSent
  timerCounter : t.timerCounter = m.timerCounter
  calls : t.calls = m.calls

theorem advance_ramped : Ramped m m.advance := by
  unfold advance
  split
  · dsimp only
    split_ifs <;> exact ⟨rfl, rfl, rfl, rfl, rfl, rfl⟩
  · split_ifs <;> exact ⟨rfl, rfl, rfl, rfl, rfl, rfl⟩
  · dsimp only
    split_ifs <;> exact ⟨rfl, rfl, rfl, rfl, rfl, rfl⟩
  · exact ⟨rfl, rfl, rfl, rfl, rfl, rfl⟩

theorem advance_timerCounter {counter : Int} :
    { m with timerCounter := counter }.advance = { m.advance with timerCounter := counter } := by
  obtain ⟨runState, _, _, _, _, _, _, _, _, _, _, _⟩ := m
  cases runState with
  | stopped => rfl
  | accelerating | running | decelerating =>
    simp only [advance]
    split_ifs <;> rfl

/-- The switch ends the movement, or its limits do. -/
def Ends (now : Int) (m : Motor) : Prop := m.advance.Finished now ∨ m.advance.runState = .stopped

/-- The ways of a tick. -/
inductive Ticked (env : Env) (now : Int) (m : Motor) : Motor → Prop
  | early (hd : ¬ m.Due) :
    Ticked env now m { m with timerCounter := m.timerCounter + MotorControl.timerIntervalUs }
  | ended (hd : m.Due) (he : m.Ends now) : Ticked env now m m.advance.resetMovement
  | refused (hd : m.Due) (he : ¬ m.Ends now) (hr : m.Refused env) :
    Ticked env now m
      ({ m.advance with calls := (m.sendPulse env).2.calls } : Motor).resetMovement
  | pulse (hd : m.Due) (he : ¬ m.Ends now) (hr : ¬ m.Refused env) :
    Ticked env now m { m.advance with
      timerCounter := 0
      calls := (m.sendPulse env).2.calls
      movementPulsesSent := (m.advance.movementPulsesSent + 1) % 2 ^ 32 }

instance : Decidable (m.Ends now) := inferInstanceAs (Decidable (_ ∨ _))

theorem calculateNextPulse_eq {counter : Int} :
    { m with timerCounter := counter }.calculateNextPulse now =
      if m.Ends now then (false, m.advance.resetMovement)
      else (true, { m.advance with timerCounter := counter }) := by
  unfold calculateNextPulse
  rw [advance_timerCounter]
  by_cases he : m.Ends now
  · rw [if_pos he]
    exact if_pos he
  · rw [if_neg he]
    exact if_neg he

theorem tick_ticked (h : m.movementState ≠ .stopped) : Ticked env now m (m.tick env now) := by
  have hsend : { m.advance with timerCounter := 0 }.sendPulse env =
      ((m.sendPulse env).1,
        { m.advance with timerCounter := 0, calls := (m.sendPulse env).2.calls }) :=
    sendPulse_congr advance_ramped.calls
  dsimp only at hsend
  unfold tick calculateAndSendNextPulse
  rw [if_pos h, calculateNextPulse_eq]
  by_cases hd : m.Due
  · have hdue : m.timerCounter + MotorControl.timerIntervalUs ≥ m.timerIntervalUs := hd
    by_cases he : m.Ends now
    · simp only [if_pos he, if_pos hdue]
      exact .ended hd he
    · simp only [if_neg he, if_pos hdue]
      rw [hsend]
      by_cases hr : m.Refused env
      · have hfalse : (m.sendPulse env).1 = false := hr
        simp only [hfalse]
        exact .refused hd he hr
      · have htrue : (m.sendPulse env).1 = true := Bool.eq_true_of_not_eq_false hr
        simp only [htrue]
        exact .pulse hd he hr
  · have hdue : ¬ m.timerCounter + MotorControl.timerIntervalUs ≥ m.timerIntervalUs := hd
    simp only [if_neg hdue]
    exact .early hd

theorem tick_stopped (h : m.movementState = .stopped) : m.tick env now = m := by
  rw [tick, if_neg (by simp [h])]

theorem ticks_stopped {now : Nat → Int} {k j : Nat} (hj : k ≤ j)
    (h : (m.ticks env now k).movementState = .stopped) :
    m.ticks env now j = m.ticks env now k := by
  induction j, hj using Nat.le_induction with
  | base => rfl
  | succ j hj ih =>
    rw [ticks, ih]
    exact tick_stopped h

/-- An interval is over after some ticks, in which the motor only counts. -/
theorem exists_due_tick {now : Nat → Int} {k : Nat}
    (h : (m.ticks env now k).movementState ≠ .stopped) :
    ∃ j ≥ k, (m.ticks env now j).Due ∧
      ∃ c, m.ticks env now j = { m.ticks env now k with timerCounter := c } := by
  generalize hleft : ((m.ticks env now k).timerIntervalUs - (m.ticks env now k).timerCounter).toNat
    = left
  induction left using Nat.strong_induction_on generalizing k with
  | _ left ih =>
    by_cases hd : (m.ticks env now k).Due
    · exact ⟨k, le_rfl, hd, _, rfl⟩
    · have ht : m.ticks env now (k + 1) = { m.ticks env now k with
          timerCounter := (m.ticks env now k).timerCounter + MotorControl.timerIntervalUs } := by
        have ht : Ticked env (now k) (m.ticks env now k) (m.ticks env now (k + 1)) := tick_ticked h
        generalize m.ticks env now (k + 1) = t at ht ⊢
        cases ht with
        | early => rfl
        | ended hd' | refused hd' | pulse hd' => exact absurd hd' hd
      have hless : ((m.ticks env now (k + 1)).timerIntervalUs -
          (m.ticks env now (k + 1)).timerCounter).toNat < left := by
        rw [ht]
        unfold Due at hd
        unfold MotorControl.timerIntervalUs at *
        dsimp only
        omega
      obtain ⟨j, hj, hdj, c, hc⟩ := ih _ hless (by rw [ht]; exact h) rfl
      exact ⟨j, by omega, hdj, c, by rw [hc, ht]⟩

end Motor

end Zlibs.MotorControl
