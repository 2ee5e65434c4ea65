import Zlibs.MotorControl.Ticks

/-! A motor on its own: its calls, its ticks and its reset work, one after the other, and how it
comes to a stop. -/
namespace Zlibs.MotorControl

variable {env : Env} {m t : Motor} {now : Int} {info : Movement} {force : Bool} {i : Int}

namespace Motor

def init (env : Env) (m : Motor) : Bool × Motor :=
  let called := m.called .init
  if !env.hwa m.calls .init then (false, called)
  else
    (true, { called with
      runState := .stopped
      timerIntervalUs := 0
      accelerationCounter := 0
      movementPulsesSent := 0
      movement := {}
      stopRequested := false
      pulsesBeforeDeceleration := 0
      timerCounter := 0
      runStartTime := 0 })

def stopMovement (force : Bool) (m : Motor) : Bool × Motor :=
  if m.movementState = .stopped ∨ m.movementState = .stopping then (false, m)
  else if force then (true, m.resetMovement)
  else if !m.stopRequested then
    (true, { m with
      stopRequested := true
      runState :=
        match m.runState with
        | .accelerating | .running => .decelerating
        | runState => runState })
  else (false, m)

/-- `_kwork_reset_movement`, when it is due. -/
def resetWork (env : Env) (m : Motor) : Motor :=
  if !m.resetScheduled then m
  else
    let m := { m with resetScheduled := false }
    if m.runState ≠ .stopped then m
    else if env.useStepToggle then (m.called (.writeStep false)).called .disable
    else m.called .disable

inductive Operation where
  | init
  | setup (info : Movement) (now : Int)
  | stop (force : Bool)
  | tick (now : Int)
  | resetWork

def perform (env : Env) (m : Motor) : Operation → Motor
  | .init => (m.init env).2
  | .setup info now => (m.setupMovement env info now).2
  | .stop force => (m.stopMovement force).2
  | .tick now => m.tick env now
  | .resetWork => m.resetWork env

def run (env : Env) (m : Motor) (operations : List Operation) : Motor :=
  operations.foldl (perform env) m

inductive Reachable (env : Env) : Motor → Prop
  | new : Reachable env {}
  | step {m : Motor} (operation : Operation) : Reachable env m →
    Reachable env (m.perform env operation)

end Motor

/-- The call starts a step pulse. -/
def HwaCall.starts : HwaCall → Bool
  | .toggleStep => true
  | .writeStep state => state
  | _ => false

namespace Motor

variable {operation : Operation} {operations : List Operation}

/-- The step pulses sent. -/
def pulses (m : Motor) : Nat := m.calls.countP HwaCall.starts

/-- The entry of the acceleration table that the next pulse reads. -/
def tableIndex (m : Motor) : Option Int :=
  match m.runState with
  | .accelerating =>
    if (m.accelerationCounter + 1) % 2 ^ 32 ≥ maxAccSteps then some (maxAccSteps - 1)
    else some (m.accelerationCounter + 1)
  | .decelerating =>
    if m.accelerationCounter - 1 > 0 then some (m.accelerationCounter - 1) else none
  | _ => none

theorem advance_tableIndex (h : m.tableIndex = some i) :
    m.advance.timerIntervalUs = m.intervalAt i := by
  unfold tableIndex at h
  unfold advance
  cases hr : m.runState <;> rw [hr] at h <;> dsimp only at h ⊢
  all_goals first | (split_ifs at h ⊢ <;> cases h <;> rfl) | cases h

/-- The counter is an index of the acceleration table. -/
def InTable (m : Motor) : Prop := 0 ≤ m.accelerationCounter ∧ m.accelerationCounter < maxAccSteps

theorem inTable_of_zero (h : m.accelerationCounter = 0) : m.InTable := by
  unfold InTable
  rw [h]
  decide

theorem InTable.tableIndex (h : m.InTable) (hi : m.tableIndex = some i) :
    0 ≤ i ∧ i < maxAccSteps := by
  unfold InTable maxAccSteps at h
  unfold Motor.tableIndex maxAccSteps at hi
  unfold maxAccSteps
  cases hr : m.runState <;> rw [hr] at hi <;> dsimp only at hi
  all_goals first | (split_ifs at hi <;> cases hi <;> omega) | cases hi

theorem InTable.advance (h : m.InTable) (hr : m.advance.runState ≠ .stopped) :
    m.advance.InTable := by
  unfold InTable maxAccSteps at *
  unfold Motor.advance maxAccSteps at *
  cases hstate : m.runState with
  | stopped => exact h
  | running =>
    dsimp only
    split_ifs <;> exact h
  | accelerating =>
    dsimp only
    split_ifs <;> dsimp only <;> omega
  | decelerating =>
    simp only [hstate] at hr ⊢
    split_ifs at hr ⊢ with hc
    · dsimp only
      omega
    · exact absurd rfl hr

theorem InTable.ticked (h : m.InTable) (ht : Ticked env now m t) : t.InTable := by
  cases ht with
  | early hd => exact h
  | ended | refused => exact inTable_of_zero rfl
  | pulse hd he hr => exact h.advance fun hstop => he (.inr hstop)

theorem InTable.tick (h : m.InTable) : (m.tick env now).InTable := by
  by_cases hm : m.movementState = .stopped
  · rwa [tick_stopped hm]
  · exact h.ticked (tick_ticked hm)

/-- A stop request is served by the ramp down. -/
structure Orderly (m : Motor) : Prop where
  inTable : m.InTable
  requested : m.stopRequested = true → m.runState = .decelerating

theorem stopping_iff :
    m.movementState = .stopping ↔ m.stopRequested = true := by
  unfold movementState
  split_ifs <;> simp_all

theorem Orderly.stopped_iff (h : m.Orderly) :
    m.movementState = .stopped ↔ m.runState = .stopped := by
  have hrequested := h.requested
  unfold movementState
  split_ifs <;> simp_all

theorem orderly_resetMovement : m.resetMovement.Orderly := ⟨inTable_of_zero rfl, nofun⟩

/-- The switch goes on ramping down. -/
theorem advance_decelerating (h : m.runState = .decelerating) :
    m.advance.runState = .stopped ∧ m.accelerationCounter ≤ 1 ∨
      m.advance.runState = .decelerating ∧ 1 < m.accelerationCounter ∧
        m.advance.accelerationCounter = m.accelerationCounter - 1 := by
  unfold advance
  rw [h]
  dsimp only
  split_ifs with hc
  · exact .inr ⟨rfl, by omega, rfl⟩
  · exact .inl ⟨rfl, by omega⟩

theorem Orderly.tick (h : m.Orderly) : (m.tick env now).Orderly := by
  refine ⟨h.inTable.tick, ?_⟩
  by_cases hm : m.movementState = .stopped
  · rw [tick_stopped hm]
    exact h.requested
  · have ht : Ticked env now m (m.tick env now) := tick_ticked hm
    generalize m.tick env now = t at ht ⊢
    cases ht with
    | early hd => exact h.requested
    | ended | refused => exact nofun
    | pulse hd he hr =>
      intro hs
      have hrequested : m.stopRequested = true := advance_ramped.stopRequested.symm.trans hs
      rcases advance_decelerating (h.requested hrequested) with ⟨hstop, _⟩ | ⟨hramp, _⟩
      · exact absurd (.inr hstop) he
      · exact hramp

/-- What a call of `setup_movement` and the reset work leave: the old movement, or a new one. -/
structure SetUp (m t : Motor) : Prop where
  pulses : t.pulses = m.pulses
  movement : t.runState = m.runState ∧ t.stopRequested = m.stopRequested ∧
      t.accelerationCounter = m.accelerationCounter ∨
    m.movementState = .stopped ∧ t.stopRequested = false ∧ t.accelerationCounter = 0

theorem SetUp.refl : SetUp m m := ⟨rfl, .inl ⟨rfl, rfl, rfl⟩⟩

theorem pulses_congr (h : t.calls = m.calls) : t.pulses = m.pulses := by
  unfold pulses
  rw [h]

theorem pulses_called {c : HwaCall} (h : c.starts = false) : (m.called c).pulses = m.pulses := by
  simp [pulses, called, List.countP_append, h]

theorem setupMovement_setUp : SetUp m (m.setupMovement env info now).2 := by
  unfold setupMovement
  by_cases hm : m.movementState ≠ .stopped
  · rw [if_pos hm]
    exact .refl
  rw [if_neg hm]
  cases env.intervalsDiffer with
  | false => exact .refl
  | true =>
    rw [if_neg (by simp)]
    cases env.initCb.any fun cb => !cb info with
    | true => exact .refl
    | false =>
      rw [if_neg (by simp)]
      cases env.accelLookupTable info.speed with
      | none => exact .refl
      | some table =>
        dsimp only
        generalize (if info.pulses ≠ 0 then info.pulses.toNat - info.pulses.toNat / 2 else 0) = n
        split_ifs
        · exact ⟨pulses_called rfl, .inl ⟨rfl, rfl, rfl⟩⟩
        · exact ⟨(pulses_called rfl).trans ((pulses_called rfl).trans (pulses_called rfl)),
            .inl ⟨rfl, rfl, rfl⟩⟩
        · exact ⟨(pulses_called (c := .setDirection info.direction) rfl).trans
            (pulses_called (c := .enable) rfl), .inr ⟨not_not.mp hm, rfl, rfl⟩⟩

theorem resetWork_setUp : SetUp m (m.resetWork env) := by
  unfold resetWork
  dsimp only
  split_ifs
  · exact .refl
  · exact ⟨rfl, .inl ⟨rfl, rfl, rfl⟩⟩
  · exact ⟨(pulses_called rfl).trans (pulses_called rfl), .inl ⟨rfl, rfl, rfl⟩⟩
  · exact ⟨pulses_called rfl, .inl ⟨rfl, rfl, rfl⟩⟩

theorem SetUp.orderly (hs : SetUp m t) (h : m.Orderly) : t.Orderly := by
  rcases hs.movement with ⟨hr, hreq, hc⟩ | ⟨_, hreq, hc⟩
  · refine ⟨?_, fun hstop => hr.trans (h.requested (hreq.symm.trans hstop))⟩
    unfold InTable
    rw [hc]
    exact h.inTable
  · exact ⟨inTable_of_zero hc, fun hstop => nomatch hreq.symm.trans hstop⟩

/-- A stop is accepted by a moving motor only. -/
theorem stopMovement_refused (h : m.movementState ≠ .moving) :
    m.stopMovement force = (false, m) := by
  unfold stopMovement
  refine if_pos ?_
  cases hm : m.movementState with
  | stopped => exact .inl rfl
  | stopping => exact .inr rfl
  | moving => exact absurd hm h

theorem stopMovement_accepted (h : m.movementState = .moving) :
    m.stopMovement true = (true, m.resetMovement) ∧ ∃ state, m.stopMovement false =
      (true, { m with stopRequested := true, runState := state }) ∧
      (m.runState ≠ .stopped → state = .decelerating) := by
  have hreq : m.stopRequested = false := by
    unfold movementState at h
    split_ifs at h with hs
    exact Bool.eq_false_of_not_eq_true hs
  have hactive : ¬ (m.movementState = .stopped ∨ m.movementState = .stopping) := by
    rw [h]
    decide
  have hopen : (!m.stopRequested) = true := by rw [hreq]; rfl
  unfold stopMovement
  rw [if_neg hactive, if_pos rfl, if_neg hactive, if_neg Bool.false_ne_true, if_pos hopen]
  refine ⟨rfl, _, rfl, ?_⟩
  cases m.runState <;> simp

theorem Orderly.stopMovement (h : m.Orderly) : (m.stopMovement force).2.Orderly := by
  by_cases hm : m.movementState = .moving
  · obtain ⟨htrue, state, hfalse, hstate⟩ := stopMovement_accepted hm
    cases force with
    | true =>
      rw [htrue]
      exact orderly_resetMovement
    | false =>
      rw [hfalse]
      refine ⟨h.inTable, fun _ => hstate fun hr => ?_⟩
      exact absurd (hm.symm.trans (h.stopped_iff.mpr hr)) nofun
  · rw [stopMovement_refused hm]
    exact h

theorem Orderly.init (h : m.Orderly) : (m.init env).2.Orderly := by
  unfold Motor.init
  split_ifs
  · exact ⟨h.inTable, h.requested⟩
  · exact ⟨inTable_of_zero rfl, nofun⟩

theorem Orderly.perform (h : m.Orderly) : (m.perform env operation).Orderly := by
  cases operation with
  | init => exact h.init
  | setup info now => exact setupMovement_setUp.orderly h
  | stop force => exact h.stopMovement
  | tick now => exact h.tick
  | resetWork => exact resetWork_setUp.orderly h

theorem orderly_reachable (h : Reachable env m) : m.Orderly := by
  induction h with
  | new => exact ⟨inTable_of_zero rfl, nofun⟩
  | step operation _ ih => exact ih.perform

theorem sendPulse_pulses : (m.sendPulse env).2.pulses = m.pulses + 1 := by
  unfold sendPulse
  split_ifs <;> simp [pulses, called, List.countP_append, List.countP_cons, HwaCall.starts]

/-- The pulses that a stopping motor may still send. -/
def remaining (m : Motor) : Nat := m.accelerationCounter.toNat - 1

/-- The motor stops, or goes on stopping with so much less to do as it has sent. -/
def Slows (m t : Motor) : Prop :=
  t.movementState = .stopping ∧ t.pulses + t.remaining ≤ m.pulses + m.remaining ∨
    t.movementState = .stopped ∧ t.pulses ≤ m.pulses + m.remaining

theorem Orderly.ticked_slows (h : m.Orderly) (hs : m.movementState = .stopping)
    (ht : Ticked env now m t) : Slows m t := by
  have hreq := stopping_iff.mp hs
  have hramp := advance_decelerating (h.requested hreq)
  cases ht with
  | early hd => exact .inl ⟨hs, le_refl _⟩
  | ended hd he =>
    have hsame : m.advance.resetMovement.pulses = m.pulses := pulses_congr advance_ramped.calls
    exact .inr ⟨rfl, by omega⟩
  | refused hd he hr =>
    obtain ⟨hstop, _⟩ | ⟨_, hc, _⟩ := hramp
    · exact absurd (.inr hstop) he
    · refine .inr ⟨rfl, le_of_eq_of_le sendPulse_pulses ?_⟩
      unfold remaining
      omega
  | pulse hd he hr =>
    obtain ⟨hstop, _⟩ | ⟨_, hc, hnext⟩ := hramp
    · exact absurd (.inr hstop) he
    · refine .inl ⟨stopping_iff.mpr (advance_ramped.stopRequested.trans hreq), ?_⟩
      refine le_of_eq_of_le (congrArg (· + _) sendPulse_pulses) ?_
      unfold remaining
      dsimp only
      omega

theorem Orderly.perform_slows (h : m.Orderly) (hs : m.movementState = .stopping) :
    Slows m (m.perform env operation) := by
  have hkept : ∀ t, SetUp m t → Slows m t := by
    intro t ht
    rcases ht.movement with ⟨_, hreq, hc⟩ | ⟨hstop, _⟩
    · refine .inl ⟨stopping_iff.mpr (hreq.trans (stopping_iff.mp hs)), ?_⟩
      unfold remaining
      rw [ht.pulses, hc]
    · exact absurd (hs.symm.trans hstop) nofun
  cases operation with
  | init =>
    show Slows m (m.init env).2
    unfold Motor.init
    split_ifs
    · exact hkept _ ⟨pulses_called rfl, .inl ⟨rfl, rfl, rfl⟩⟩
    · exact .inr ⟨rfl, (pulses_called rfl).le.trans (Nat.le_add_right ..)⟩
  | setup info now => exact hkept _ setupMovement_setUp
  | stop force =>
    have hsame : m.perform env (.stop force) = m :=
      congrArg Prod.snd (stopMovement_refused (by rw [hs]; exact nofun))
    rw [hsame]
    exact hkept m .refl
  | tick now => exact h.ticked_slows hs (tick_ticked (by rw [hs]; exact nofun))
  | resetWork => exact hkept _ resetWork_setUp

/-- The motor sends so many pulses at most until it is stopped. -/
def StopsWithin (env : Env) (n : Nat) (m : Motor) : Prop :=
  ∀ operations, (∀ before after, operations = before ++ after → after ≠ [] →
      (m.run env before).movementState ≠ .stopped) →
    (m.run env operations).pulses ≤ m.pulses + n

theorem Orderly.stopsWithin (h : m.Orderly) (hs : m.movementState = .stopping) :
    StopsWithin env m.remaining m := by
  intro operations hmoving
  induction operations generalizing m with
  | nil => exact Nat.le_add_right ..
  | cons operation operations ih =>
    have hslows : Slows m (m.perform env operation) := h.perform_slows hs
    rcases hslows with ⟨hs', hle⟩ | ⟨hstop, hle⟩
    · refine le_trans (ih h.perform hs' fun before after he hne => ?_) hle
      exact hmoving (operation :: before) after (by rw [he, List.cons_append]) hne
    · cases operations with
      | nil => exact hle
      | cons next rest => exact absurd hstop (hmoving [operation] _ rfl nofun)

/-- The tick that ends an interval stops a stopping motor, or takes it down the ramp. -/
theorem Orderly.ticked_due (h : m.Orderly) (hs : m.movementState = .stopping) (hd : m.Due)
    (ht : Ticked env now m t) : t.movementState = .stopped ∨ t.movementState = .stopping ∧
      t.accelerationCounter.toNat < m.accelerationCounter.toNat := by
  have hreq := stopping_iff.mp hs
  cases ht with
  | early hearly => exact absurd hd hearly
  | ended | refused => exact .inl rfl
  | pulse _ he hr =>
    obtain ⟨hstop, _⟩ | ⟨_, hc, hnext⟩ := advance_decelerating (h.requested hreq)
    · exact absurd (.inr hstop) he
    · refine .inr ⟨stopping_iff.mpr (advance_ramped.stopRequested.trans hreq), ?_⟩
      dsimp only
      omega

theorem Orderly.exists_stopped {now : Nat → Int} {k : Nat} (h : (m.ticks env now k).Orderly)
    (hs : (m.ticks env now k).movementState = .stopping) :
    ∃ j, (m.ticks env now j).movementState = .stopped := by
  generalize hleft : (m.ticks env now k).accelerationCounter.toNat = left
  induction left using Nat.strong_induction_on generalizing k with
  | _ left ih =>
    obtain ⟨j, -, hd, c, hj⟩ := exists_due_tick (by rw [hs]; exact nofun)
    have horderly : (m.ticks env now j).Orderly := by
      rw [hj]
      exact ⟨h.inTable, h.requested⟩
    have hstopping : (m.ticks env now j).movementState = .stopping := by
      rw [hj]
      exact hs
    have hnext : Ticked env (now j) (m.ticks env now j) (m.ticks env now (j + 1)) :=
      tick_ticked (by rw [hstopping]; exact nofun)
    rcases horderly.ticked_due hstopping hd hnext with hstop | ⟨hstop, hless⟩
    · exact ⟨j + 1, hstop⟩
    · refine ih _ ?_ (k := j + 1) horderly.tick hstop rfl
      rw [← hleft]
      rwa [hj] at hless

/-- A motor at rest sends nothing. -/
theorem perform_pulses (hs : m.movementState = .stopped) :
    (m.perform env operation).pulses = m.pulses := by
  cases operation with
  | init =>
    show (m.init env).2.pulses = m.pulses
    unfold Motor.init
    split_ifs <;> exact pulses_called rfl
  | setup info now => exact setupMovement_setUp.pulses
  | stop force =>
    exact congrArg (fun r => r.2.pulses) (stopMovement_refused (by rw [hs]; exact nofun))
  | tick now => exact congrArg pulses (tick_stopped hs)
  | resetWork => exact resetWork_setUp.pulses

/-- A graceful stop is accepted by a moving motor, which then sends 127 pulses at most and comes to
rest under its ticks. -/
structure StopsGracefully (env : Env) (m : Motor) : Prop where
  accepted : (m.stopMovement false).1 = true
  bounded : StopsWithin env 127 (m.stopMovement false).2
  ends : ∀ now, ∃ k, ((m.stopMovement false).2.ticks env now k).movementState = .stopped

theorem Orderly.stopsGracefully (h : m.Orderly) (hm : m.movementState = .moving) :
    StopsGracefully env m := by
  obtain ⟨-, state, hstop, -⟩ := stopMovement_accepted hm
  have horderly : (m.stopMovement false).2.Orderly := h.stopMovement
  have hstopping : (m.stopMovement false).2.movementState = .stopping := by
    rw [hstop]
    rfl
  have hle : (m.stopMovement false).2.remaining ≤ 127 := by
    have hc := horderly.inTable.2
    unfold maxAccSteps at hc
    unfold remaining
    omega
  refine ⟨by rw [hstop], fun operations hmoving => ?_, fun now => ?_⟩
  · exact le_trans (horderly.stopsWithin hstopping operations hmoving)
      (Nat.add_le_add_left hle _)
  · exact Orderly.exists_stopped (k := 0) horderly hstopping

/-- In every reachable state the acceleration counter is an index of its table, a moving motor stops
gracefully, a stopping one refuses stops, and one at rest sends nothing. -/
theorem gracefulStop (h : Reachable env m) :
    (m.InTable ∧ ∀ i, m.tableIndex = some i →
      0 ≤ i ∧ i < maxAccSteps ∧ m.advance.timerIntervalUs = m.intervalAt i) ∧
    (m.movementState = .moving → StopsGracefully env m) ∧
    (m.movementState = .stopping → ∀ force, m.stopMovement force = (false, m)) ∧
    (m.movementState = .stopped → ∀ operation, (m.perform env operation).pulses = m.pulses) := by
  have horderly := orderly_reachable h
  refine ⟨⟨horderly.inTable, fun i hi => ?_⟩, horderly.stopsGracefully, fun hs force => ?_,
    fun hs operation => perform_pulses hs⟩
  · obtain ⟨hlow, hhigh⟩ := horderly.inTable.tableIndex hi
    exact ⟨hlow, hhigh, advance_tableIndex hi⟩
  · exact stopMovement_refused (by rw [hs]; exact nofun)

theorem gracefulStop_started :
    let m := Motor.perform plainEnv {} (.setup { pulses := 10 } 0)
    m.InTable ∧ StopsGracefully plainEnv m := by
  obtain ⟨⟨htable, _⟩, hmoving, _⟩ :=
    gracefulStop (.step (.setup { pulses := 10 } 0) (.new : Reachable plainEnv {}))
  exact ⟨htable, hmoving rfl⟩

end Motor

end Zlibs.MotorControl
