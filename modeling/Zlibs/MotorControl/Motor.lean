import Mathlib

/-! One motor: its movements, and what a timer tick does with them. -/
namespace Zlibs.MotorControl

inductive Direction where
  | cw
  | ccw
  deriving DecidableEq

/-- `Movement`; no pulses and no time mean no limit. -/
structure Movement where
  direction : Direction := .cw
  speed : UInt32 := 0
  pulses : UInt32 := 0
  maxRunTime : UInt32 := 0
  deriving DecidableEq

inductive RunState where
  | stopped
  | accelerating
  | running
  | decelerating
  deriving DecidableEq

/-- What callers see of the run state. -/
inductive State where
  | stopped
  | moving
  | stopping
  deriving DecidableEq

inductive HwaCall where
  | init
  | enable
  | disable
  | writeStep (state : Bool)
  | toggleStep
  | setDirection (direction : Direction)
  deriving DecidableEq

def timerIntervalUs : Int := 100

def maxAccSteps : Nat := 128

/-- What a motor is constructed with. The floating-point profile of `Config` is its outcome:
whether its two intervals differ, and the interval table of each speed within its range. -/
structure Env where
  useStepToggle : Bool
  intervalsDiffer : Bool
  accelLookupTable : UInt32 → Option (Vector UInt16 maxAccSteps)
  initCb : Option (Movement → Bool) := none
  /-- The answer to a call of the HWA, after the calls before it. -/
  hwa : List HwaCall → HwaCall → Bool

structure Motor where
  runState : RunState := .stopped
  timerIntervalUs : Int := 0
  accelerationCounter : Int := 0
  movementPulsesSent : Nat := 0
  movement : Movement := {}
  stopRequested : Bool := false
  pulsesBeforeDeceleration : Nat := 0
  accelLookupTable : Vector UInt16 maxAccSteps := Vector.replicate _ 0
  timerCounter : Int := 0
  runStartTime : Nat := 0
  resetScheduled : Bool := false
  calls : List HwaCall := []

variable {env : Env} {m : Motor} {info : Movement} {now : Int}

namespace Motor

def movementState (m : Motor) : State :=
  if m.stopRequested then .stopping
  else if m.runState ≠ .stopped then .moving else .stopped

def called (m : Motor) (c : HwaCall) : Motor := { m with calls := m.calls ++ [c] }

/-- `k_uptime_get() - _run_start_time`, in 32 bits. -/
def runTime (now : Int) (m : Motor) : Nat :=
  if m.runStartTime = 0 then 0 else ((now - m.runStartTime) % 2 ^ 32).toNat

def resetMovement (m : Motor) : Motor :=
  { m with
    runState := .stopped
    timerIntervalUs := 0
    movementPulsesSent := 0
    accelerationCounter := 0
    movement := {}
    stopRequested := false
    pulsesBeforeDeceleration := 0
    timerCounter := 0
    runStartTime := 0
    resetScheduled := true }

/-- The entry of the acceleration table at a counter within it. -/
def intervalAt (m : Motor) (counter : Int) : Int :=
  (m.accelLookupTable[counter.toNat]?.getD 0).toNat

def setupMovement (env : Env) (info : Movement) (now : Int) (m : Motor) : Bool × Motor :=
  if m.movementState ≠ .stopped then (false, m)
  else if !env.intervalsDiffer then (false, m)
  else if env.initCb.any (fun cb => !cb info) then (false, m)
  else
    match env.accelLookupTable info.speed with
    | none => (false, m)
    | some table =>
      let m := { m with
        accelLookupTable := table
        pulsesBeforeDeceleration :=
          if info.pulses ≠ 0 then info.pulses.toNat - info.pulses.toNat / 2 else 0 }
      let enabled := m.called .enable
      if !env.hwa m.calls .enable then (false, enabled)
      else
        let directed := enabled.called (.setDirection info.direction)
        if !env.hwa enabled.calls (.setDirection info.direction) then
          (false, directed.called .disable)
        else
          (true, { directed with
            resetScheduled := false
            movement := info
            timerIntervalUs := m.intervalAt 0
            accelerationCounter := 0
            movementPulsesSent := 0
            timerCounter := 0
            runStartTime := (now % 2 ^ 32).toNat
            stopRequested := false
            runState := .accelerating })

/-- The switch of `calculate_next_pulse` over the run state. -/
def advance (m : Motor) : Motor :=
  match m.runState with
  | .accelerating =>
    let counter := m.accelerationCounter + 1
    if counter % 2 ^ 32 ≥ maxAccSteps then
      { m with
        accelerationCounter := maxAccSteps - 1
        runState := .running
        timerIntervalUs := m.intervalAt (maxAccSteps - 1) }
    else { m with accelerationCounter := counter, timerIntervalUs := m.intervalAt counter }
  | .running =>
    if m.movement.pulses ≠ 0 ∧ m.movementPulsesSent ≥ m.pulsesBeforeDeceleration then
      { m with runState := .decelerating }
    else m
  | .decelerating =>
    let counter := m.accelerationCounter - 1
    if counter > 0 then
      { m with accelerationCounter := counter, timerIntervalUs := m.intervalAt counter }
    else { m with accelerationCounter := counter, runState := .stopped }
  | .stopped => m

/-- The movement has used up its time or its pulses. -/
def Finished (now : Int) (m : Motor) : Prop :=
  m.movement.maxRunTime ≠ 0 ∧ m.runTime now ≥ m.movement.maxRunTime.toNat ∨
    m.movement.pulses ≠ 0 ∧ m.movementPulsesSent ≥ m.movement.pulses.toNat

instance : Decidable (m.Finished now) := inferInstanceAs (Decidable (_ ∨ _))

def calculateNextPulse (now : Int) (m : Motor) : Bool × Motor :=
  let m := m.advance
  if m.Finished now ∨ m.runState = .stopped then (false, m.resetMovement) else (true, m)

def sendPulse (env : Env) (m : Motor) : Bool × Motor :=
  if env.useStepToggle then (env.hwa m.calls .toggleStep, m.called .toggleStep)
  else
    let raised := m.called (.writeStep true)
    if !env.hwa m.calls (.writeStep true) then (false, raised)
    else (env.hwa raised.calls (.writeStep false), raised.called (.writeStep false))

def calculateAndSendNextPulse (env : Env) (now : Int) (m : Motor) : Motor :=
  let counter := m.timerCounter + MotorControl.timerIntervalUs
  if counter ≥ m.timerIntervalUs then
    let r := { m with timerCounter := 0 }.calculateNextPulse now
    if !r.1 then r.2
    else
      let sent := r.2.sendPulse env
      if !sent.1 then sent.2.resetMovement
      else { sent.2 with movementPulsesSent := (sent.2.movementPulsesSent + 1) % 2 ^ 32 }
  else { m with timerCounter := counter }

/-- What `check_motors` does with one motor. -/
def tick (env : Env) (now : Int) (m : Motor) : Motor :=
  if m.movementState ≠ .stopped then m.calculateAndSendNextPulse env now else m

/-- The motor after some ticks, the uptime at each being given. -/
def ticks (env : Env) (now : Nat → Int) (m : Motor) : Nat → Motor
  | 0 => m
  | k + 1 => (ticks env now m k).tick env (now k)

end Motor

/-- The calls that make one step pulse. -/
def Env.pulse (env : Env) : List HwaCall :=
  if env.useStepToggle then [.toggleStep] else [.writeStep true, .writeStep false]

/-- A motor whose HWA and profile accept everything. -/
def plainEnv : Env :=
  { useStepToggle := true
    intervalsDiffer := true
    accelLookupTable := fun _ => some (Vector.replicate _ 100)
    hwa := fun _ _ => true }

theorem plainEnv_accepts (info : Movement) (now : Int) :
    Motor.setupMovement plainEnv info now {} =
      (true, (Motor.setupMovement plainEnv info now {}).2) := Prod.ext rfl rfl

end Zlibs.MotorControl
