import Zlibs.Lib.Run
import Zlibs.MotorControl.Stopping

/-! What the HWA calls do to the motor driver: it only steps while it is enabled and has been given
a direction, and it is let go after the movement. -/
namespace Zlibs.MotorControl
open Lib

/-- The motor driver, after the calls made. -/
inductive Driver where
  | off
  | on
  | ready (direction : Direction)
  deriving DecidableEq

namespace Driver

/-- What an accepted call does, or one that is refused. -/
def after (ok : Bool) (s : Driver) : HwaCall → Driver
  | .init => s
  | .enable => if ok then .on else s
  | .setDirection direction => if ok ∧ s ≠ .off then .ready direction else s
  | .disable => if ok then .off else s
  | .writeStep _ => s
  | .toggleStep => s

/-- A pulse needs a direction, and a direction a driver that has just been enabled. -/
def Allows (s : Driver) : HwaCall → Prop
  | .toggleStep => ∃ direction, s = .ready direction
  | .writeStep true => ∃ direction, s = .ready direction
  | .setDirection _ => s = .on
  | _ => True

end Driver

/-- The call is about the step pin. -/
def HwaCall.steps : HwaCall → Bool
  | .writeStep _ => true
  | .toggleStep => true
  | _ => false

/-- The driver after some calls, and the calls. -/
def driving (env : Env) (calls : List HwaCall) : List HwaCall × Driver :=
  calls.foldl (fun r c => (r.1 ++ [c], r.2.after (env.hwa r.1 c) c)) ([], .off)

def driver (env : Env) (calls : List HwaCall) : Driver := (driving env calls).2

/-- Every call is made to a driver that allows it. -/
def Guarded (env : Env) (calls : List HwaCall) : Prop :=
  ∀ before c after, calls = before ++ c :: after → (driver env before).Allows c

variable {env : Env} {m t : Motor} {now : Int} {info : Movement} {force : Bool} {c : HwaCall}
  {calls : List HwaCall} {direction : Direction}

theorem driving_calls : (driving env calls).1 = calls := by
  induction calls using List.reverseRecOn with
  | nil => rfl
  | append_singleton calls c ih =>
    unfold driving at ih ⊢
    rw [List.foldl_concat, ih]

theorem driver_concat :
    driver env (calls ++ [c]) = (driver env calls).after (env.hwa calls c) c := by
  have hcalls : (driving env calls).1 = calls := driving_calls
  unfold driver driving at *
  rw [List.foldl_concat, hcalls]

theorem guarded_nil : Guarded env [] := fun before c after h => absurd h (by simp)

theorem Guarded.concat (h : Guarded env calls) (hc : (driver env calls).Allows c) :
    Guarded env (calls ++ [c]) := by
  intro before d after he
  obtain rfl | ⟨front, last, rfl⟩ := List.eq_nil_or_concat after
  · obtain ⟨rfl, hd⟩ := List.append_inj' he rfl
    rw [← List.singleton_inj.mp hd]
    exact hc
  · have hsplit : calls ++ [c] = (before ++ d :: front) ++ [last] := by simpa using he
    exact h before d front (List.append_inj' hsplit rfl).1

theorem Guarded.init (h : Guarded env calls) : Guarded env (calls ++ [.init]) := h.concat trivial

theorem Guarded.enable (h : Guarded env calls) : Guarded env (calls ++ [.enable]) := h.concat trivial

theorem Guarded.disable (h : Guarded env calls) : Guarded env (calls ++ [.disable]) :=
  h.concat trivial

theorem driver_init : driver env (calls ++ [.init]) = driver env calls := driver_concat

theorem driver_disable (hok : env.hwa calls .disable = true) :
    driver env (calls ++ [.disable]) = .off := by
  rw [driver_concat, hok]
  rfl

theorem Guarded.lowered (h : Guarded env calls) : Guarded env (calls ++ [.writeStep false]) :=
  h.concat trivial

/-- The driver is enabled and given a direction. -/
theorem Guarded.direct (h : Guarded env calls) (hok : env.hwa calls .enable = true) :
    driver env (calls ++ [.enable]) = .on ∧
      Guarded env (calls ++ [.enable] ++ [.setDirection direction]) := by
  have hon : driver env (calls ++ [.enable]) = .on := by
    rw [driver_concat, hok]
    rfl
  exact ⟨hon, h.enable.concat hon⟩

namespace Motor

variable {operation : Operation} {operations : List Operation}

/-- A moving motor has a driver with the direction of the movement. -/
structure Driven (env : Env) (m : Motor) : Prop where
  guarded : Guarded env m.calls
  moving : m.runState ≠ .stopped → driver env m.calls = .ready m.movement.direction

/-- A motor at rest without reset work has let its driver go. -/
def Released (env : Env) (m : Motor) : Prop :=
  m.runState = .stopped → m.resetScheduled = false → driver env m.calls = .off

/-- The outcomes of `setup_movement`. -/
inductive SetUpCalls (env : Env) (info : Movement) (m t : Motor) : Prop
  | refused (hc : t.calls = m.calls) (hr : t.runState = m.runState)
      (hm : t.movement = m.movement) (hs : t.resetScheduled = m.resetScheduled)
  | notEnabled (hold : m.movementState = .stopped) (hok : env.hwa m.calls .enable = false)
      (hc : t.calls = m.calls ++ [.enable]) (hr : t.runState = m.runState)
      (hs : t.resetScheduled = m.resetScheduled)
  | notDirected (hold : m.movementState = .stopped) (hok : env.hwa m.calls .enable = true)
      (hc : t.calls = m.calls ++ [.enable] ++ [.setDirection info.direction] ++ [.disable])
      (hr : t.runState = m.runState)
  | started (hok : env.hwa m.calls .enable = true)
      (hdir : env.hwa (m.calls ++ [.enable]) (.setDirection info.direction) = true)
      (hc : t.calls = m.calls ++ [.enable] ++ [.setDirection info.direction])
      (hr : t.runState = .accelerating) (hm : t.movement = info)

theorem setupMovement_calls : SetUpCalls env info m (m.setupMovement env info now).2 := by
  unfold setupMovement
  by_cases hm : m.movementState ≠ .stopped
  · rw [if_pos hm]
    exact .refused rfl rfl rfl rfl
  rw [if_neg hm]
  have hold := not_not.mp hm
  cases env.intervalsDiffer with
  | false => exact .refused rfl rfl rfl rfl
  | true =>
    rw [if_neg (by simp)]
    cases env.initCb.any fun cb => !cb info with
    | true => exact .refused rfl rfl rfl rfl
    | false =>
      rw [if_neg (by simp)]
      cases env.accelLookupTable info.speed with
      | none => exact .refused rfl rfl rfl rfl
      | some table =>
        dsimp only [called]
        cases hok : env.hwa m.calls .enable with
        | false => exact .notEnabled hold hok rfl rfl rfl
        | true =>
          rw [if_neg (by simp)]
          cases hdir : env.hwa (m.calls ++ [.enable]) (.setDirection info.direction) with
          | false => exact .notDirected hold hok rfl rfl
          | true => exact .started hok hdir rfl rfl rfl

theorem sendPulse_guarded (h : Guarded env m.calls) (hd : driver env m.calls = .ready direction) :
    Guarded env (m.sendPulse env).2.calls ∧
      driver env (m.sendPulse env).2.calls = .ready direction := by
  unfold sendPulse
  split_ifs
  · exact ⟨h.concat (c := .toggleStep) ⟨direction, hd⟩, driver_concat.trans hd⟩
  · exact ⟨h.concat (c := .writeStep true) ⟨direction, hd⟩, driver_concat.trans hd⟩
  · have hraised : driver env (m.called (.writeStep true)).calls = .ready direction :=
      driver_concat.trans hd
    have hguarded : Guarded env (m.called (.writeStep true)).calls := h.concat ⟨direction, hd⟩
    exact ⟨hguarded.lowered, driver_concat.trans hraised⟩

theorem SetUpCalls.driven (hs : SetUpCalls env info m t) (ho : m.Orderly) (h : m.Driven env) :
    t.Driven env := by
  cases hs with
  | refused hc hr hm _ => exact ⟨hc ▸ h.guarded, by rw [hc, hr, hm]; exact h.moving⟩
  | notEnabled hold hok hc hr _ =>
    refine ⟨?_, fun hmoving => absurd (hr.trans (ho.stopped_iff.mp hold)) hmoving⟩
    rw [hc]
    exact h.guarded.enable
  | notDirected hold hok hc hr =>
    refine ⟨?_, fun hmoving => absurd (hr.trans (ho.stopped_iff.mp hold)) hmoving⟩
    rw [hc]
    exact (h.guarded.direct hok).2.disable
  | started hok hdir hc hr hm =>
    obtain ⟨hon, hguarded⟩ := @Guarded.direct _ _ info.direction h.guarded hok
    constructor
    · rw [hc]
      exact hguarded
    · intro _
      rw [hc, hm, driver_concat, hdir, hon]
      rfl

theorem Ticked.driven (ht : Ticked env now m t) (hm : m.runState ≠ .stopped) (h : m.Driven env) :
    t.Driven env := by
  obtain ⟨hguarded, hready⟩ := sendPulse_guarded h.guarded (h.moving hm)
  cases ht with
  | early hd => exact ⟨h.guarded, h.moving⟩
  | ended hd he =>
    refine ⟨?_, fun hmoving => absurd rfl hmoving⟩
    show Guarded env m.advance.calls
    rw [advance_ramped.calls]
    exact h.guarded
  | refused hd he hr => exact ⟨hguarded, fun hmoving => absurd rfl hmoving⟩
  | pulse hd he hr =>
    refine ⟨hguarded, fun _ => ?_⟩
    show driver env (m.sendPulse env).2.calls = .ready m.advance.movement.direction
    rw [advance_ramped.movement]
    exact hready

theorem Driven.stop (ho : m.Orderly) (h : m.Driven env) : (m.stopMovement force).2.Driven env := by
  by_cases hm : m.movementState = .moving
  · obtain ⟨htrue, state, hfalse, -⟩ := stopMovement_accepted hm
    have hmoving : m.runState ≠ .stopped := fun hr => by
      rw [ho.stopped_iff.mpr hr] at hm
      cases hm
    cases force with
    | true =>
      rw [htrue]
      exact ⟨h.guarded, fun hr => absurd rfl hr⟩
    | false =>
      rw [hfalse]
      exact ⟨h.guarded, fun _ => h.moving hmoving⟩
  · rw [stopMovement_refused hm]
    exact h

theorem Driven.resetWork (h : m.Driven env) : (m.resetWork env).Driven env := by
  unfold Motor.resetWork
  dsimp only
  split_ifs with hs hr
  · exact h
  · exact ⟨h.guarded, h.moving⟩
  · exact ⟨h.guarded.lowered.disable, fun hmoving => absurd hmoving hr⟩
  · exact ⟨h.guarded.disable, fun hmoving => absurd hmoving hr⟩

theorem Driven.init (h : m.Driven env) : (m.init env).2.Driven env := by
  unfold Motor.init
  split_ifs
  · exact ⟨h.guarded.init, fun hmoving => driver_init.trans (h.moving hmoving)⟩
  · exact ⟨h.guarded.init, fun hmoving => absurd rfl hmoving⟩

theorem Driven.perform (ho : m.Orderly) (h : m.Driven env) : (m.perform env operation).Driven env := by
  cases operation with
  | init => exact h.init
  | setup info now => exact setupMovement_calls.driven ho h
  | stop force => exact h.stop ho
  | tick now =>
    by_cases hm : m.movementState = .stopped
    · show (m.tick env now).Driven env
      rw [tick_stopped hm]
      exact h
    · exact (tick_ticked hm).driven (fun hr => hm (ho.stopped_iff.mpr hr)) h
  | resetWork => exact h.resetWork

theorem sendPulse_steps :
    ∃ new, (m.sendPulse env).2.calls = m.calls ++ new ∧ ∀ c ∈ new, c.steps = true := by
  unfold sendPulse
  split_ifs
  · exact ⟨_, rfl, by simp [HwaCall.steps]⟩
  · exact ⟨_, rfl, by simp [HwaCall.steps]⟩
  · exact ⟨_, List.append_assoc .., by simp [HwaCall.steps]⟩

theorem Ticked.steps (ht : Ticked env now m t) :
    ∃ new, t.calls = m.calls ++ new ∧ ∀ c ∈ new, c.steps = true := by
  cases ht with
  | early hd => exact ⟨[], (List.append_nil _).symm, by simp⟩
  | ended hd he => exact ⟨[], advance_ramped.calls.trans (List.append_nil _).symm, by simp⟩
  | refused hd he hr => exact sendPulse_steps
  | pulse hd he hr => exact sendPulse_steps

theorem init_calls : (m.init env).2.calls = m.calls ++ [.init] := by
  unfold Motor.init
  split_ifs <;> rfl

/-- Until it stops, a motor only steps, unless it is initialised anew. -/
theorem perform_steps (ho : m.Orderly) (hm : m.movementState ≠ .stopped)
    (hinit : operation ≠ .init) :
    ∃ new, (m.perform env operation).calls = m.calls ++ new ∧ ∀ c ∈ new, c.steps = true := by
  have hnone {t : Motor} (h : t.calls = m.calls) :
      ∃ new, t.calls = m.calls ++ new ∧ ∀ c ∈ new, c.steps = true :=
    ⟨[], h.trans (List.append_nil _).symm, by simp⟩
  cases operation with
  | init => exact absurd rfl hinit
  | setup info now =>
    refine hnone ?_
    show (m.setupMovement env info now).2.calls = m.calls
    rw [setupMovement, if_pos hm]
  | stop force =>
    refine hnone ?_
    show (m.stopMovement force).2.calls = m.calls
    unfold stopMovement
    split_ifs <;> rfl
  | tick now => exact (tick_ticked hm).steps
  | resetWork =>
    refine hnone ?_
    show (m.resetWork env).calls = m.calls
    have hr : m.runState ≠ .stopped := fun hr => hm (ho.stopped_iff.mpr hr)
    unfold Motor.resetWork
    dsimp only
    split_ifs <;> rfl

/-- In every run every pulse is sent to a driver that has been enabled and then given a direction,
that of the movement under way, and nothing but pulses is sent until the motor stops, or is
initialised anew. -/
theorem driver_guarded (h : Reachable env m) : Guarded env m.calls ∧
    (m.movementState ≠ .stopped → driver env m.calls = .ready m.movement.direction ∧
      (∀ operation, operation ≠ .init → ∃ new,
        (m.perform env operation).calls = m.calls ++ new ∧ ∀ c ∈ new, c.steps = true) ∧
      (m.perform env .init).calls = m.calls ++ [.init]) := by
  have hdriven : m.Driven env := by
    induction h with
    | new => exact ⟨guarded_nil, fun hmoving => absurd rfl hmoving⟩
    | step operation hr ih => exact ih.perform (orderly_reachable hr)
  have ho := orderly_reachable h
  refine ⟨hdriven.guarded, fun hm => ⟨hdriven.moving fun hr => hm ?_, ?_, init_calls⟩⟩
  · exact ho.stopped_iff.mpr hr
  · exact fun operation => perform_steps ho hm

theorem driver_guarded_started :
    let m := Motor.run plainEnv {} [.init, .setup { pulses := 10 } 0, .tick 0]
    Guarded plainEnv m.calls ∧ driver plainEnv m.calls = .ready .cw ∧
      (m.perform plainEnv .init).calls = m.calls ++ [.init] := by
  obtain ⟨hguarded, hmoving⟩ :=
    driver_guarded (.step (.tick 0) (.step (.setup { pulses := 10 } 0)
      (.step .init (.new : Reachable plainEnv {}))))
  exact ⟨hguarded, (hmoving (by decide)).1, (hmoving (by decide)).2.2⟩

/-- The HWA accepts every `disable`. -/
def Disables (env : Env) : Prop := ∀ calls, env.hwa calls .disable = true

theorem SetUpCalls.released (hdis : Disables env) (hs : SetUpCalls env info m t)
    (h : m.Released env) : t.Released env := by
  intro hr hscheduled
  cases hs with
  | refused hc hr' _ hs =>
    rw [hc]
    exact h (hr'.symm.trans hr) (hs.symm.trans hscheduled)
  | notEnabled _ hok hc hr' hs =>
    rw [hc, driver_concat, hok, h (hr'.symm.trans hr) (hs.symm.trans hscheduled)]
    rfl
  | notDirected _ _ hc _ =>
    rw [hc]
    exact driver_disable (hdis _)
  | started _ _ _ hr' _ => exact absurd (hr'.symm.trans hr) (by decide)

theorem Ticked.released (ht : Ticked env now m t) (hm : m.runState ≠ .stopped) : t.Released env := by
  intro hr hscheduled
  cases ht with
  | early hd => exact absurd hr hm
  | ended | refused => cases hscheduled
  | pulse hd he _ => exact absurd (.inr hr) he

theorem Released.stop (h : m.Released env) : (m.stopMovement force).2.Released env := by
  by_cases hm : m.movementState = .moving
  · obtain ⟨htrue, state, hfalse, hstate⟩ := stopMovement_accepted hm
    cases force with
    | true =>
      rw [htrue]
      exact fun _ hscheduled => by cases hscheduled
    | false =>
      have hmoving : m.runState ≠ .stopped := by
        unfold movementState at hm
        split_ifs at hm with hreq hrun
        exact hrun
      rw [hfalse]
      intro hr
      exact absurd ((hstate hmoving).symm.trans hr) (by decide)
  · rw [stopMovement_refused hm]
    exact h

theorem Released.resetWork (hdis : Disables env) (h : m.Released env) :
    (m.resetWork env).Released env := by
  unfold Motor.resetWork
  dsimp only
  split_ifs with hs hr
  · exact h
  · exact fun hstopped => absurd hstopped hr
  · exact fun _ _ => driver_disable (hdis _)
  · exact fun _ _ => driver_disable (hdis _)

/-- `init` is only called while the motor is at rest. -/
def Settled (m : Motor) : Operation → Prop
  | .init => m.movementState = .stopped
  | _ => True

abbrev SettledRun (env : Env) : List Operation → Motor → Prop :=
  Run (· = {}) fun _ m operation t => t = m.perform env operation ∧ m.Settled operation

theorem reachable_of_settledRun (h : SettledRun env operations m) : Reachable env m := by
  induction h with
  | nil h => exact h ▸ .new
  | snoc _ hn ih => exact hn.1 ▸ .step _ ih

theorem Released.init (h : m.Released env) (hm : m.runState = .stopped) :
    (m.init env).2.Released env := by
  unfold Motor.init
  split_ifs
  · exact fun _ hscheduled => driver_init.trans (h hm hscheduled)
  · exact fun _ hscheduled => driver_init.trans (h hm hscheduled)

theorem Released.perform (hdis : Disables env) (ho : m.Orderly) (h : m.Released env)
    (hs : m.Settled operation) : (m.perform env operation).Released env := by
  cases operation with
  | init => exact h.init (ho.stopped_iff.mp hs)
  | setup info now => exact setupMovement_calls.released hdis h
  | stop force => exact h.stop
  | tick now =>
    by_cases hm : m.movementState = .stopped
    · show (m.tick env now).Released env
      rw [tick_stopped hm]
      exact h
    · exact (tick_ticked hm).released fun hr => hm (ho.stopped_iff.mpr hr)
  | resetWork => exact h.resetWork hdis

/-- A motor at rest has let its driver go, or has the work scheduled that does, where the HWA accepts
every `disable`. -/
theorem driver_released (hdis : Disables env) (h : SettledRun env operations m)
    (hm : m.movementState = .stopped) :
    (m.resetScheduled = false → driver env m.calls = .off) ∧
      driver env (m.resetWork env).calls = .off := by
  have hreleased : m.Released env := by
    clear hm
    induction h with
    | nil h => exact h ▸ fun _ _ => rfl
    | snoc hr hn ih => exact hn.1 ▸ ih.perform hdis (orderly_reachable (reachable_of_settledRun hr)) hn.2
  have hr : m.runState = .stopped :=
    (orderly_reachable (reachable_of_settledRun h)).stopped_iff.mp hm
  refine ⟨hreleased hr, ?_⟩
  cases hs : m.resetScheduled with
  | false =>
    have hsame : m.resetWork env = m := by
      rw [Motor.resetWork, hs]
      rfl
    rw [hsame]
    exact hreleased hr hs
  | true =>
    unfold Motor.resetWork
    rw [hs]
    simp only [hr, Bool.not_true, Bool.false_eq_true, if_false, ne_eq, not_true_eq_false]
    split_ifs <;> exact driver_disable (hdis _)

theorem driver_released_stopped :
    let m := Motor.run plainEnv {} [.setup { pulses := 10 } 0, .tick 0, .stop true]
    driver plainEnv m.calls ≠ .off ∧ driver plainEnv (m.resetWork plainEnv).calls = .off := by
  have h0 : SettledRun plainEnv [] {} := .nil rfl
  have h1 := h0.snoc (l := Operation.setup { pulses := 10 } 0) ⟨rfl, trivial⟩
  have h2 := h1.snoc (l := Operation.tick 0) ⟨rfl, trivial⟩
  have h3 := h2.snoc (l := Operation.stop true) ⟨rfl, trivial⟩
  exact ⟨by decide, (driver_released (fun _ => rfl) h3 (by decide)).2⟩

/-- A motor that is initialised in the middle of a movement keeps its driver. -/
example :
    let m := Motor.run plainEnv {} [.setup { pulses := 10 } 0, .init]
    m.movementState = .stopped ∧ m.resetScheduled = false ∧
      driver plainEnv m.calls = .ready .cw := by decide

end Motor

end Zlibs.MotorControl
