import Zlibs.MotorControl.Ticks

/-! The limit on the run time of a movement: the uptime of its start is kept in 32 bits, where 0 means
that the motor is not running. -/
namespace Zlibs.MotorControl

variable {env : Env} {m t : Motor} {info : Movement} {limit : UInt32} {start now : Int}

namespace Motor

/-- A movement with a limit on its run time only. -/
structure Timed (limit : UInt32) (start : Int) (m : Motor) : Prop where
  pulses : m.movement.pulses = 0
  limit : m.movement.maxRunTime = limit
  started : m.runStartTime = (start % 2 ^ 32).toNat
  undisturbed : m.stopRequested = false
  runState : m.runState = .accelerating ∨ m.runState = .running

theorem Timed.movementState (h : m.Timed limit start) : m.movementState = .moving := by
  have hr : m.runState ≠ .stopped := by
    rcases h.runState with hr | hr <;> rw [hr] <;> exact nofun
  unfold Motor.movementState
  rw [h.undisturbed, if_neg Bool.false_ne_true, if_pos hr]

theorem Timed.advance (h : m.Timed limit start) : m.advance.Timed limit start := by
  have hpulses : ¬ m.movement.pulses ≠ 0 := not_not.mpr h.pulses
  have hrest : m.advance.runStartTime = m.runStartTime ∧
      (m.advance.runState = .accelerating ∨ m.advance.runState = .running) := by
    unfold Motor.advance
    rcases h.runState with hr | hr
    · rw [hr]
      dsimp only
      split_ifs
      · exact ⟨rfl, .inr rfl⟩
      · exact ⟨rfl, .inl rfl⟩
    · rw [hr]
      dsimp only
      rw [if_neg fun hdue => hpulses hdue.1]
      exact ⟨rfl, .inr hr⟩
  exact ⟨(congrArg _ advance_ramped.movement).trans h.pulses,
    (congrArg _ advance_ramped.movement).trans h.limit, hrest.1.trans h.started,
    advance_ramped.stopRequested.trans h.undisturbed, hrest.2⟩

/-- The limit ends the movement, if the start is not at a multiple of 2^32. -/
theorem Timed.ends_iff (h : m.Timed limit start) (hlimit : limit ≠ 0) (hstart : start ≤ now)
    (hnow : now < start + 2 ^ 32) :
    m.Ends now ↔ start % 2 ^ 32 ≠ 0 ∧ start + limit.toNat ≤ now := by
  have hadv := h.advance
  have hpos : limit.toNat ≠ 0 := fun hz => hlimit (UInt32.toNat_inj.mp hz)
  have hstate : m.advance.runState ≠ .stopped := by
    rcases hadv.runState with hr | hr <;> rw [hr] <;> exact nofun
  unfold Ends Finished runTime
  rw [hadv.limit, hadv.started, hadv.pulses]
  by_cases hzero : start % 2 ^ 32 = 0
  · rw [if_pos (by omega)]
    constructor
    · rintro ((⟨_, hge⟩ | ⟨hne, _⟩) | hs)
      · omega
      · exact absurd rfl hne
      · exact absurd hs hstate
    · exact fun h => absurd hzero h.1
  · rw [if_neg (by omega)]
    have htime : ((now - (start % 2 ^ 32).toNat) % 2 ^ 32).toNat = (now - start).toNat := by omega
    rw [htime]
    constructor
    · rintro ((⟨_, hge⟩ | ⟨hne, _⟩) | hs)
      · exact ⟨hzero, by omega⟩
      · exact absurd rfl hne
      · exact absurd hs hstate
    · exact fun h => .inl (.inl ⟨hlimit, by omega⟩)

/-- A tick ends the movement in time: at the end of an interval, once the limit is reached. -/
def EndsInTime (env : Env) (limit : UInt32) (start now : Int) (m : Motor) : Prop :=
  (m.tick env now).movementState = .stopped ↔ m.Due ∧ start + limit.toNat ≤ now

/-- The HWA refuses no pulse before the limit; and from the limit on the start is not at a multiple
of 2^32, or the HWA refuses the pulse. -/
def InTime (env : Env) (limit : UInt32) (start now : Int) (m : Motor) : Prop :=
  (m.Refused env → start + limit.toNat ≤ now) ∧
    (start + limit.toNat ≤ now → start % 2 ^ 32 ≠ 0 ∨ m.Refused env)

theorem Timed.tick (h : m.Timed limit start) (ht : (m.tick env now).movementState ≠ .stopped) :
    (m.tick env now).Timed limit start := by
  have hticked : Ticked env now m (m.tick env now) :=
    tick_ticked (by rw [h.movementState]; exact nofun)
  generalize m.tick env now = t at ht hticked ⊢
  cases hticked with
  | early => exact ⟨h.pulses, h.limit, h.started, h.undisturbed, h.runState⟩
  | ended | refused => exact absurd rfl ht
  | pulse =>
    have hadv := h.advance
    exact ⟨hadv.pulses, hadv.limit, hadv.started, hadv.undisturbed, hadv.runState⟩

theorem Timed.endsInTime_iff (h : m.Timed limit start) (hlimit : limit ≠ 0) (hstart : start ≤ now)
    (hnow : now < start + 2 ^ 32) :
    EndsInTime env limit start now m ↔ (m.Due → InTime env limit start now m) := by
  have hends := h.ends_iff hlimit hstart hnow
  have hticked : Ticked env now m (m.tick env now) :=
    tick_ticked (by rw [h.movementState]; exact nofun)
  unfold EndsInTime InTime
  generalize m.tick env now = t at hticked ⊢
  cases hticked with
  | early hd =>
    have hactive := h.movementState
    refine ⟨fun _ hdue => absurd hdue hd, fun _ => ⟨fun hs => ?_, fun hr => absurd hr.1 hd⟩⟩
    exact absurd (hactive.symm.trans hs) nofun
  | ended hd he =>
    obtain ⟨hzero, hle⟩ := hends.mp he
    exact ⟨fun _ _ => ⟨fun _ => hle, fun _ => .inl hzero⟩, fun _ => ⟨fun _ => ⟨hd, hle⟩, fun _ => rfl⟩⟩
  | refused hd he hr =>
    constructor
    · exact fun hiff _ => ⟨fun _ => (hiff.mp rfl).2, fun _ => .inr hr⟩
    · exact fun hin => ⟨fun _ => ⟨hd, (hin hd).1 hr⟩, fun _ => rfl⟩
  | pulse hd he hr =>
    have hactive := h.advance.movementState
    constructor
    · refine fun hiff _ => ⟨fun hrefused => absurd hrefused hr, fun hle => ?_⟩
      exact absurd (hactive.symm.trans (hiff.mpr ⟨hd, hle⟩)) nofun
    · refine fun hin => ⟨fun hs => absurd (hactive.symm.trans hs) nofun, fun hle => ?_⟩
      rcases (hin hd).2 hle.2 with hzero | hrefused
      · exact absurd (hends.mpr ⟨hzero, hle.2⟩) he
      · exact absurd hrefused hr

/-- An accepted movement is timed from its start. -/
theorem setupMovement_timed (hp : info.pulses = 0)
    (h : m.setupMovement env info start = (true, t)) : t.Timed info.maxRunTime start := by
  have hfalse : ∀ {u : Motor}, (false, u) ≠ (true, t) := fun he =>
    absurd (congrArg Prod.fst he) Bool.false_ne_true
  unfold setupMovement at h
  split_ifs at h with hm hi hcb hpulses
  · exact absurd h hfalse
  · exact absurd h hfalse
  · exact absurd h hfalse
  · exact absurd hp hpulses
  · split at h
    · exact absurd h hfalse
    · dsimp only at h
      split_ifs at h
      · exact absurd h hfalse
      · exact absurd h hfalse
      · cases h
        exact ⟨hp, rfl, rfl, rfl, .inl rfl⟩

theorem Timed.ticks {now : Nat → Int} {k : Nat} (h : m.Timed limit start)
    (hk : (m.ticks env now k).movementState ≠ .stopped) :
    (m.ticks env now k).Timed limit start := by
  induction k with
  | zero => exact h
  | succ k ih =>
    have hprev : (m.ticks env now k).movementState ≠ .stopped := by
      intro hs
      rw [Motor.ticks, tick_stopped hs] at hk
      exact hk hs
    exact (ih hprev).tick hk

/-- A movement with a limit ends in time if and only if the HWA refuses no pulse before the limit,
and the start is not at a multiple of 2^32 milliseconds or the HWA refuses the pulse with which the
movement would go on. -/
theorem runTime_iff {now : Nat → Int} (hp : info.pulses = 0) (hlimit : info.maxRunTime ≠ 0)
    (h : m.setupMovement env info start = (true, t)) (hstart : ∀ k, start ≤ now k)
    (hnow : ∀ k, (t.ticks env now k).movementState ≠ .stopped → now k < start + 2 ^ 32) :
    (∀ k, (t.ticks env now k).movementState ≠ .stopped →
        EndsInTime env info.maxRunTime start (now k) (t.ticks env now k)) ↔
      ∀ k, (t.ticks env now k).movementState ≠ .stopped → (t.ticks env now k).Due →
        InTime env info.maxRunTime start (now k) (t.ticks env now k) := by
  have htimed := setupMovement_timed hp h
  refine forall₂_congr fun k hk => ?_
  exact (htimed.ticks hk).endsInTime_iff hlimit (hstart k) (hnow k hk)

/-- A limit of 250 ms from an uptime of 1 ms, with a HWA that accepts every pulse. -/
theorem runTime_iff_second :
    let t := (Motor.setupMovement plainEnv { maxRunTime := 250 } 1 {}).2
    let now : Nat → Int := fun k => min (1 + 100 * k) 1000
    (t.ticks plainEnv now 3).movementState = .moving ∧
      (t.ticks plainEnv now 4).movementState = .stopped ∧
        ∀ k, (t.ticks plainEnv now k).movementState ≠ .stopped →
          EndsInTime plainEnv 250 1 (now k) (t.ticks plainEnv now k) := by
  refine ⟨by decide, by decide, (runTime_iff rfl (by decide) (plainEnv_accepts _ _) (fun k => ?_)
    fun k _ => ?_).mpr fun k _ _ => ⟨fun hr => ?_, fun _ => .inl (by decide)⟩⟩
  · omega
  · omega
  · exact nomatch (show true = false from hr)

/-- A limit of 250 ms from an uptime of 2^32 ms: the tick a second later sends a pulse, and the motor
moves on. -/
theorem limit_ignored :
    let t := (Motor.setupMovement plainEnv { maxRunTime := 250 } (2 ^ 32) {}).2
    (Motor.setupMovement plainEnv { maxRunTime := 250 } (2 ^ 32) {}).1 = true ∧
      t.Due ∧ (t.tick plainEnv (2 ^ 32 + 1000)).movementState = .moving ∧
      ¬ EndsInTime plainEnv 250 (2 ^ 32) (2 ^ 32 + 1000) t := by
  intro t
  have hdue : t.Due := by decide
  have hmoving : (t.tick plainEnv (2 ^ 32 + 1000)).movementState = .moving := by decide
  refine ⟨rfl, hdue, hmoving, fun h => ?_⟩
  exact absurd (hmoving.symm.trans (h.mpr ⟨hdue, by decide⟩)) nofun

end Motor

end Zlibs.MotorControl
