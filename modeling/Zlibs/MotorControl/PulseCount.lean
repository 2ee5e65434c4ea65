import Zlibs.MotorControl.Ticks

/-! How many pulses a movement makes: it turns to its ramp down half way, or where the ramp up ends
if that is later, and makes 127 pulses from there at most. -/
namespace Zlibs.MotorControl

variable {env : Env} {m : Motor} {info : Movement} {now : Int} {n s : Nat}

/-- The pulses sent when the ramp down of a movement of `n` pulses is due. -/
def rampDown (n : Nat) : Nat := max maxAccSteps (n - n / 2)

/-- The pulses that a movement of `n` pulses makes. -/
def pulseTotal (n : Nat) : Nat := min n (rampDown n + 127)

def phase (n s : Nat) : RunState :=
  if s < maxAccSteps then .accelerating
  else if s ≤ rampDown n then .running else .decelerating

def phaseCounter (n s : Nat) : Int :=
  if s < maxAccSteps then s
  else if s ≤ rampDown n then 127 else 128 + rampDown n - s

namespace Motor

/-- A movement of `n` pulses, of which `s` are sent. -/
structure Moving (n s : Nat) (m : Motor) : Prop where
  pulses : m.movement.pulses.toNat = n
  unlimited : m.movement.maxRunTime = 0
  undisturbed : m.stopRequested = false
  before : m.pulsesBeforeDeceleration = n - n / 2
  sent : m.movementPulsesSent = s
  runState : m.runState = phase n s
  counter : m.accelerationCounter = phaseCounter n s
  le : s ≤ pulseTotal n

theorem Moving.pulses_ne (h : m.Moving n s) (hn : 0 < n) : m.movement.pulses ≠ 0 := by
  intro he
  have hp := h.pulses
  rw [he] at hp
  exact absurd hp hn.ne

theorem phase_ne_stopped : phase n s ≠ .stopped := by
  unfold phase
  split_ifs <;> exact nofun

theorem Moving.movementState_ne (h : m.Moving n s) : m.movementState ≠ .stopped := by
  unfold movementState
  rw [h.undisturbed, h.runState, if_neg Bool.false_ne_true, if_pos phase_ne_stopped]
  exact nofun

/-- While pulses are left, the switch steps to the phase of the next one. -/
theorem Moving.advance (h : m.Moving n s) (hs : s < pulseTotal n) :
    m.advance.runState = phase n (s + 1) ∧
      m.advance.accelerationCounter = phaseCounter n (s + 1) := by
  have hr := h.runState
  have hc := h.counter
  unfold phase at hr
  unfold phaseCounter at hc
  unfold pulseTotal rampDown at hs
  unfold Motor.advance phase phaseCounter rampDown maxAccSteps at *
  split_ifs at hr with ha hb
  · rw [if_pos ha] at hc
    rw [hr]
    dsimp only
    rw [hc]
    split_ifs <;> first | omega | exact ⟨rfl, by dsimp only; omega⟩
  · rw [if_neg ha, if_pos hb] at hc
    have hne := h.pulses_ne (by omega)
    rw [hr]
    dsimp only
    rw [h.before, h.sent]
    split_ifs with hd <;> first
      | omega
      | exact ⟨rfl, by dsimp only; omega⟩
      | exact ⟨hr, hc⟩
      | exact absurd ⟨hne, by omega⟩ hd
  · rw [if_neg ha, if_neg hb] at hc
    rw [hr]
    dsimp only
    rw [hc]
    split_ifs <;> first | omega | exact ⟨rfl, by dsimp only; omega⟩

/-- At the last pulse the movement is finished, or its ramp down is. -/
theorem Moving.advance_last (h : m.Moving n s) (hn : 0 < n) (hs : s = pulseTotal n) :
    m.Ends now := by
  by_cases hall : s = n
  · left
    right
    rw [advance_ramped.movement, advance_ramped.sent]
    exact ⟨h.pulses_ne hn, by rw [h.sent, h.pulses, hall]⟩
  · right
    have hr := h.runState
    have hc := h.counter
    unfold phase at hr
    unfold phaseCounter at hc
    unfold pulseTotal at hs
    have hlt : rampDown n < s := by omega
    have hsteps : maxAccSteps ≤ rampDown n := le_max_left ..
    rw [if_neg (by omega), if_neg (by omega)] at hr hc
    unfold Motor.advance
    rw [hr]
    dsimp only
    rw [if_neg (by omega)]

theorem Moving.unfinished (h : m.Moving n s) (hs : s < pulseTotal n) : ¬ m.Ends now := by
  unfold Ends Finished
  rw [advance_ramped.movement, advance_ramped.sent, (h.advance hs).1, h.unlimited, h.pulses, h.sent]
  unfold pulseTotal at hs
  rintro ((⟨hn, _⟩ | ⟨_, hge⟩) | hp)
  · exact hn rfl
  · omega
  · exact phase_ne_stopped hp

theorem sendPulse_eq (hw : ∀ calls c, env.hwa calls c = true) :
    m.sendPulse env = (true, { m with calls := m.calls ++ env.pulse }) := by
  unfold sendPulse Env.pulse
  cases ht : env.useStepToggle <;> simp [hw, called]

/-- A tick that ends the interval sends a pulse while pulses are left. -/
theorem Moving.tick_due (h : m.Moving n s) (hw : ∀ calls c, env.hwa calls c = true)
    (hd : m.Due) (hs : s < pulseTotal n) :
    (m.tick env now).Moving n (s + 1) ∧ (m.tick env now).calls = m.calls ++ env.pulse := by
  have hlt : s + 1 < 2 ^ 32 := by
    have hp := h.pulses
    have := m.movement.pulses.toNat_lt
    unfold pulseTotal at hs
    omega
  have hsend : m.sendPulse env = (true, { m with calls := m.calls ++ env.pulse }) :=
    sendPulse_eq hw
  have ht : Ticked env now m (m.tick env now) := tick_ticked h.movementState_ne
  generalize m.tick env now = t at ht ⊢
  cases ht with
  | early hn => exact absurd hd hn
  | ended _ he => exact absurd he (h.unfinished hs)
  | refused _ _ hr =>
    rw [Refused, hsend] at hr
    cases hr
  | pulse _ _ _ =>
    have hramped : Ramped m m.advance := advance_ramped
    have ha := h.advance hs
    refine ⟨⟨?_, ?_, ?_, ?_, ?_, ha.1, ha.2, hs⟩, ?_⟩
    · exact (congrArg _ (congrArg _ hramped.movement)).trans h.pulses
    · exact (congrArg _ hramped.movement).trans h.unlimited
    · exact hramped.stopRequested.trans h.undisturbed
    · exact hramped.before.trans h.before
    · have hsent := hramped.sent.trans h.sent
      simp only [hsent]
      exact Nat.mod_eq_of_lt hlt
    · rw [hsend]

/-- A tick that ends the interval after the last pulse ends the movement. -/
theorem Moving.tick_last (h : m.Moving n s) (hn : 0 < n) (hd : m.Due) (hs : s = pulseTotal n) :
    (m.tick env now).movementState = .stopped ∧ (m.tick env now).calls = m.calls := by
  have hend : m.Ends now := h.advance_last hn hs
  have ht : Ticked env now m (m.tick env now) := tick_ticked h.movementState_ne
  generalize m.tick env now = t at ht ⊢
  cases ht with
  | early hn => exact absurd hd hn
  | ended _ _ => exact ⟨rfl, advance_ramped.calls⟩
  | refused _ he _ | pulse _ he _ => exact absurd hend he

/-- The interval of a moving motor is over after some ticks, in which it only counts. -/
theorem exists_due {now : Nat → Int} {k : Nat} (h : (m.ticks env now k).Moving n s) :
    ∃ j ≥ k, (m.ticks env now j).Moving n s ∧ (m.ticks env now j).Due ∧
      (m.ticks env now j).calls = (m.ticks env now k).calls := by
  obtain ⟨j, hj, hd, c, hc⟩ := exists_due_tick h.movementState_ne
  refine ⟨j, hj, ?_, hd, by rw [hc]⟩
  rw [hc]
  exact ⟨h.pulses, h.unlimited, h.undisturbed, h.before, h.sent, h.runState, h.counter, h.le⟩

/-- A movement makes its pulses, and then the motor stays as it is. -/
theorem exists_stopped {now : Nat → Int} {k : Nat} (hw : ∀ calls c, env.hwa calls c = true)
    (hn : 0 < n) (h : (m.ticks env now k).Moving n s) :
    ∃ j ≥ k, (m.ticks env now j).movementState = .stopped ∧ (m.ticks env now j).calls =
      (m.ticks env now k).calls ++ (List.replicate (pulseTotal n - s) env.pulse).flatten := by
  generalize hleft : pulseTotal n - s = left
  induction left generalizing s k with
  | zero =>
    obtain ⟨j, hj, hm, hd, hc⟩ := exists_due h
    have hs : s = pulseTotal n := le_antisymm h.le (Nat.sub_eq_zero_iff_le.mp hleft)
    obtain ⟨hstop, hcalls⟩ : (m.ticks env now (j + 1)).movementState = .stopped ∧
      (m.ticks env now (j + 1)).calls = (m.ticks env now j).calls := hm.tick_last hn hd hs
    exact ⟨j + 1, by omega, hstop, by simpa using hcalls.trans hc⟩
  | succ left ih =>
    obtain ⟨j, hj, hm, hd, hc⟩ := exists_due h
    obtain ⟨hm', hcalls⟩ : (m.ticks env now (j + 1)).Moving n (s + 1) ∧
      (m.ticks env now (j + 1)).calls = (m.ticks env now j).calls ++ env.pulse :=
        hm.tick_due hw hd (by omega)
    obtain ⟨i, hi, hstop, hci⟩ := ih (k := j + 1) hm' (by omega)
    refine ⟨i, by omega, hstop, ?_⟩
    rw [hci, hcalls, hc, List.replicate_succ, List.flatten_cons, List.append_assoc]

/-- An accepted movement starts with none of its pulses sent. -/
theorem setupMovement_moving {t : Motor} (hp : info.pulses ≠ 0) (ht : info.maxRunTime = 0)
    (hs : m.setupMovement env info now = (true, t)) : t.Moving info.pulses.toNat 0 := by
  unfold setupMovement at hs
  split_ifs at hs
  · exact absurd (congrArg Prod.fst hs) Bool.false_ne_true
  · exact absurd (congrArg Prod.fst hs) Bool.false_ne_true
  · exact absurd (congrArg Prod.fst hs) Bool.false_ne_true
  · split at hs
    · exact absurd (congrArg Prod.fst hs) Bool.false_ne_true
    · dsimp only at hs
      split_ifs at hs
      all_goals first
        | exact absurd (congrArg Prod.fst hs) Bool.false_ne_true
        | cases hs
      all_goals exact ⟨rfl, ht, rfl, by simp [called], rfl, rfl, rfl, Nat.zero_le _⟩

/-- After an accepted movement the ticks send its pulses, and no more. -/
theorem exists_sent {t : Motor} (hw : ∀ calls c, env.hwa calls c = true) (hp : info.pulses ≠ 0)
    (ht : info.maxRunTime = 0) (hs : m.setupMovement env info now = (true, t))
    (uptime : Nat → Int) :
    ∃ j, ∀ k ≥ j, (t.ticks env uptime k).movementState = .stopped ∧
      (t.ticks env uptime k).calls =
        t.calls ++ (List.replicate (pulseTotal info.pulses.toNat) env.pulse).flatten := by
  have hn : 0 < info.pulses.toNat := by
    rw [Nat.pos_iff_ne_zero]
    intro he
    exact hp (UInt32.toNat_inj.mp he)
  have hm : (t.ticks env uptime 0).Moving info.pulses.toNat 0 := setupMovement_moving hp ht hs
  obtain ⟨j, _, hstop, hc⟩ := exists_stopped hw hn hm
  refine ⟨j, fun k hk => ?_⟩
  rw [ticks_stopped hk hstop]
  exact ⟨hstop, hc⟩

end Motor

theorem pulse_replicate_inj {k j : Nat} (h : (List.replicate k env.pulse).flatten =
    (List.replicate j env.pulse).flatten) : k = j := by
  have hl := congrArg List.length h
  unfold Env.pulse at hl
  split_ifs at hl <;> simp at hl <;> omega

theorem pulseTotal_eq_iff : pulseTotal n = n ↔ n ≤ 255 := by
  unfold pulseTotal rampDown maxAccSteps
  omega

/-- After an accepted movement the ticks send exactly its pulses. -/
def SendsExactly (env : Env) (info : Movement) (uptime : Nat → Int) (t : Motor) : Prop :=
  ∃ j, ∀ k ≥ j, (t.ticks env uptime k).movementState = .stopped ∧
    (t.ticks env uptime k).calls =
      t.calls ++ (List.replicate info.pulses.toNat env.pulse).flatten

/-- A movement of more than 255 pulses ends its ramp down before its pulses. -/
theorem sends_exactly_iff {t : Motor} (hw : ∀ calls c, env.hwa calls c = true)
    (hp : info.pulses ≠ 0) (ht : info.maxRunTime = 0)
    (hs : m.setupMovement env info now = (true, t)) (uptime : Nat → Int) :
    SendsExactly env info uptime t ↔ info.pulses.toNat ≤ 255 := by
  obtain ⟨j, hj⟩ := Motor.exists_sent hw hp ht hs uptime
  rw [← pulseTotal_eq_iff]
  constructor
  · rintro ⟨i, hi⟩
    have hc := (hj (max i j) (le_max_right i j)).2.symm.trans (hi (max i j) (le_max_left i j)).2
    exact pulse_replicate_inj (List.append_cancel_left hc)
  · intro he
    rw [he] at hj
    exact ⟨j, hj⟩

theorem sends_exactly_ten :
    SendsExactly plainEnv { pulses := 10 } (fun _ => 0)
      (Motor.setupMovement plainEnv { pulses := 10 } 0 {}).2 :=
  (sends_exactly_iff (fun _ _ => rfl) (by decide) rfl (plainEnv_accepts _ _) _).mpr (by decide)

/-- Of 256 pulses one is left out. -/
theorem not_sends_256 :
    ¬ SendsExactly plainEnv { pulses := 256 } (fun _ => 0)
      (Motor.setupMovement plainEnv { pulses := 256 } 0 {}).2 := by
  rintro ⟨i, hi⟩
  obtain ⟨j, hj⟩ := Motor.exists_sent (fun _ _ => rfl) (by decide) rfl
    (plainEnv_accepts { pulses := 256 } 0) (fun _ => 0)
  have hc := (hj (max i j) (le_max_right i j)).2.symm.trans (hi (max i j) (le_max_left i j)).2
  exact absurd (pulse_replicate_inj (List.append_cancel_left hc)) (by decide)

end Zlibs.MotorControl
