import Zlibs.MotorControl.Motor

/-! `MotorControl`: threads that set movements up and stop them, and the timer that ticks meanwhile.
Each load, store and exchange of a shared variable is one step, and so is a whole tick. -/
namespace Zlibs.MotorControl

/-- A store to a member of a motor. -/
inductive Store where
  | cancelReset
  | scheduleReset
  | movement (info : Movement)
  | timerIntervalUs (interval : Int)
  | accelerationCounter
  | movementPulsesSent
  | pulsesBeforeDeceleration
  | timerCounter
  | startTime
  | runStartTime
  | stopRequested
  | runState (state : RunState)

def Motor.store (now : Int) (m : Motor) : Store → Motor
  | .cancelReset => { m with resetScheduled := false }
  | .scheduleReset => { m with resetScheduled := true }
  | .movement info => { m with movement := info }
  | .timerIntervalUs interval => { m with timerIntervalUs := interval }
  | .accelerationCounter => { m with accelerationCounter := 0 }
  | .movementPulsesSent => { m with movementPulsesSent := 0 }
  | .pulsesBeforeDeceleration => { m with pulsesBeforeDeceleration := 0 }
  | .timerCounter => { m with timerCounter := 0 }
  | .startTime => { m with runStartTime := (now % 2 ^ 32).toNat }
  | .runStartTime => { m with runStartTime := 0 }
  | .stopRequested => { m with stopRequested := false }
  | .runState state => { m with runState := state }

/-- The stores of `reset_movement`. -/
def resetStores : List Store :=
  [.runState .stopped, .timerIntervalUs 0, .movementPulsesSent, .accelerationCounter, .movement {},
    .stopRequested, .pulsesBeforeDeceleration, .timerCounter, .runStartTime, .scheduleReset]

/-- The stores that begin a movement. -/
def setupStores (info : Movement) (interval : Int) : List Store :=
  [.cancelReset, .movement info, .timerIntervalUs interval, .accelerationCounter,
    .movementPulsesSent, .timerCounter, .startTime, .stopRequested, .runState .accelerating]

/-- Where a thread stands in a call of `setup_movement` or `stop_movement`. -/
inductive Thread where
  | idle
  | lock (motor : Nat) (info : Movement)
  | checkStop (motor : Nat) (info : Movement)
  | checkRun (motor : Nat) (info : Movement)
  | validate (motor : Nat) (info : Movement)
  | prepare (motor : Nat) (info : Movement)
  | enable (motor : Nat) (info : Movement)
  | direct (motor : Nat) (info : Movement)
  | disable (motor : Nat)
  | write (motor : Nat) (todo : List Store)
  | unlock (motor : Nat) (success : Bool)
  | exchangeOn (motor : Nat)
  | startTimer
  | firstStop (motor : Nat) (force : Bool)
  | firstRun (motor : Nat) (force : Bool)
  | secondStop (motor : Nat) (force : Bool)
  | secondRun (motor : Nat) (force : Bool)
  | request (motor : Nat)
  | requestStore (motor : Nat)
  | readRun (motor : Nat)
  | decelerate (motor : Nat)
  | reset (motor : Nat) (todo : List Store)
  | scanStop (index : Nat)
  | scanRun (index : Nat)
  | exchangeOff
  | stopTimer

/-- The motors, by their index, and the threads. `locks` are the movement locks. -/
structure Control where
  count : Nat
  motors : Nat → Motor := fun _ => {}
  locks : Nat → Option Nat := fun _ => none
  timerStarted : Bool := false
  timerRunning : Bool := false
  threads : Nat → Thread := fun _ => .idle

/-- Steps; a thread steps at an uptime, and a tick reads one for each motor. -/
inductive ControlLabel where
  | setup (thread motor : Nat) (info : Movement)
  | stop (thread motor : Nat) (force : Bool)
  | thread (thread : Nat) (now : Int)
  | tick (now : Nat → Int)

namespace Control

def goto (s : Control) (thread : Nat) (pc : Thread) : Control :=
  { s with threads := Function.update s.threads thread pc }

def setMotor (s : Control) (index : Nat) (m : Motor) : Control :=
  { s with motors := Function.update s.motors index m }

def setLock (s : Control) (index : Nat) (owner : Option Nat) : Control :=
  { s with locks := Function.update s.locks index owner }

variable (env : Nat → Env)

/-- The next step of the call that a thread is in. -/
def threadStep (s : Control) (thread : Nat) (now : Int) : Option Control :=
  match s.threads thread with
  | .idle => none
  -- `setup_movement`
  | .lock motor info =>
    if (s.locks motor).isSome then none
    else some ((s.setLock motor (some thread)).goto thread (.checkStop motor info))
  | .checkStop motor info =>
    if (s.motors motor).stopRequested then some (s.goto thread (.unlock motor false))
    else some (s.goto thread (.checkRun motor info))
  | .checkRun motor info =>
    if (s.motors motor).runState ≠ .stopped then some (s.goto thread (.unlock motor false))
    else some (s.goto thread (.validate motor info))
  | .validate motor info =>
    if !(env motor).intervalsDiffer ∨ (env motor).initCb.any (fun cb => !cb info) then
      some (s.goto thread (.unlock motor false))
    else
      match (env motor).accelLookupTable info.speed with
      | none => some (s.goto thread (.unlock motor false))
      | some table =>
        some ((s.setMotor motor { s.motors motor with accelLookupTable := table }).goto thread
          (.prepare motor info))
  | .prepare motor info =>
    some ((s.setMotor motor { s.motors motor with
      pulsesBeforeDeceleration :=
        if info.pulses ≠ 0 then info.pulses.toNat - info.pulses.toNat / 2 else 0 }).goto thread
      (.enable motor info))
  | .enable motor info =>
    let m := s.motors motor
    let enabled := s.setMotor motor (m.called .enable)
    if (env motor).hwa m.calls .enable then some (enabled.goto thread (.direct motor info))
    else some (enabled.goto thread (.unlock motor false))
  | .direct motor info =>
    let m := s.motors motor
    let directed := s.setMotor motor (m.called (.setDirection info.direction))
    if (env motor).hwa m.calls (.setDirection info.direction) then
      some (directed.goto thread (.write motor (setupStores info (m.intervalAt 0))))
    else some (directed.goto thread (.disable motor))
  | .disable motor =>
    some ((s.setMotor motor ((s.motors motor).called .disable)).goto thread (.unlock motor false))
  | .write motor [] => some (s.goto thread (.unlock motor true))
  | .write motor (x :: rest) =>
    some ((s.setMotor motor ((s.motors motor).store now x)).goto thread (.write motor rest))
  | .unlock motor success =>
    some ((s.setLock motor none).goto thread (if success then .exchangeOn motor else .idle))
  | .exchangeOn _ =>
    some ({ s with timerStarted := true }.goto thread (if s.timerStarted then .idle else .startTimer))
  | .startTimer => some ({ s with timerRunning := true }.goto thread .idle)
  -- `stop_movement`, which takes no lock and asks for the movement state twice
  | .firstStop motor force =>
    if (s.motors motor).stopRequested then some (s.goto thread (.secondStop motor force))
    else some (s.goto thread (.firstRun motor force))
  | .firstRun motor force =>
    if (s.motors motor).runState = .stopped then some (s.goto thread .idle)
    else some (s.goto thread (.secondStop motor force))
  | .secondStop motor force =>
    if (s.motors motor).stopRequested then some (s.goto thread .idle)
    else some (s.goto thread (.secondRun motor force))
  | .secondRun motor force =>
    -- Neither answer is `Stopping`.
    some (s.goto thread (if force then .reset motor resetStores else .request motor))
  | .request motor =>
    if (s.motors motor).stopRequested then some (s.goto thread .idle)
    else some (s.goto thread (.requestStore motor))
  | .requestStore motor =>
    some ((s.setMotor motor { s.motors motor with stopRequested := true }).goto thread
      (.readRun motor))
  | .readRun motor =>
    match (s.motors motor).runState with
    | .accelerating => some (s.goto thread (.decelerate motor))
    | .running => some (s.goto thread (.decelerate motor))
    | _ => some (s.goto thread (.scanStop 0))
  | .decelerate motor =>
    some ((s.setMotor motor { s.motors motor with runState := .decelerating }).goto thread
      (.scanStop 0))
  | .reset _ [] => some (s.goto thread (.scanStop 0))
  | .reset motor (x :: rest) =>
    some ((s.setMotor motor ((s.motors motor).store now x)).goto thread (.reset motor rest))
  | .scanStop index =>
    if index < s.count then
      if (s.motors index).stopRequested then some (s.goto thread .idle)
      else some (s.goto thread (.scanRun index))
    else some (s.goto thread .exchangeOff)
  | .scanRun index =>
    if (s.motors index).runState ≠ .stopped then some (s.goto thread .idle)
    else some (s.goto thread (.scanStop (index + 1)))
  | .exchangeOff =>
    some ({ s with timerStarted := false }.goto thread
      (if s.timerStarted then .stopTimer else .idle))
  | .stopTimer => some ({ s with timerRunning := false }.goto thread .idle)

/-- `check_motors` -/
def checkMotors (s : Control) (now : Nat → Int) : Control :=
  let motors := fun i => if i < s.count then (s.motors i).tick (env i) (now i) else s.motors i
  let anyActive := (List.range s.count).any fun i => (motors i).movementState ≠ .stopped
  if !anyActive && s.timerStarted then
    { s with motors := motors, timerStarted := false, timerRunning := false }
  else { s with motors := motors }

def step (s : Control) : ControlLabel → Option Control
  | .setup thread motor info =>
    match s.threads thread with
    | .idle => if motor < s.count then some (s.goto thread (.lock motor info)) else none
    | _ => none
  | .stop thread motor force =>
    match s.threads thread with
    | .idle => if motor < s.count then some (s.goto thread (.firstStop motor force)) else none
    | _ => none
  | .thread thread now => s.threadStep env thread now
  | .tick now => if s.timerRunning then some (s.checkMotors env now) else none

end Control

end Zlibs.MotorControl
