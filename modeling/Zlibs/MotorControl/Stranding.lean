import Zlibs.Lib.Run
import Zlibs.MotorControl.Control
import Zlibs.MotorControl.Ticks

/-! What the calls and the ticks of `MotorControl` keep, however they are interleaved: a motor that
moves has the timer, and one that has stopped does not wait for its stop. -/
namespace Zlibs.MotorControl
open Lib

variable {env : Nat → Env} {e : Env} {s s' : Control} {t u i j : Nat} {now : Int} {m : Motor}
  {pc old : Thread} {l : ControlLabel} {labels : List ControlLabel}

/-- The stores that are left are the last ones of their call. -/
def Thread.Fits : Thread → Prop
  | .write _ todo => ∃ info interval, todo <:+ setupStores info interval
  | .reset _ todo => todo <:+ resetStores
  | _ => True

/-- The thread has set the motor moving and has not exchanged the timer flag yet. -/
def Thread.Starting (i : Nat) : Thread → Prop
  | .write motor [] => motor = i
  | .unlock motor true => motor = i
  | .exchangeOn motor => motor = i
  | _ => False

/-- The thread resets the motor and has not withdrawn the stop request yet. -/
def Thread.Resetting (i : Nat) : Thread → Prop
  | .reset motor todo => motor = i ∧ Store.stopRequested ∈ todo
  | _ => False

/-- The motor that a graceful stop has found moving, until its stores are done. -/
def Thread.actsOn : Thread → Option Nat
  | .secondStop motor false => some motor
  | .secondRun motor false => some motor
  | .request motor => some motor
  | .requestStore motor => some motor
  | .decelerate motor => some motor
  | _ => none

/-- The stop has not read yet if the motor is to stop already. -/
def Thread.asking : Thread → Bool
  | .secondStop _ _ => true
  | _ => false

/-- The scan of `stop_movement` has found the motor stopped, and what it does about the timer is
still to be done. -/
def Thread.found (i : Nat) : Thread → Bool
  | .scanStop index => i < index
  | .scanRun index => i < index
  | .exchangeOff => true
  | .stopTimer => true
  | _ => false

/-- The thread has set a motor moving or resets one, which the others rely on. -/
def Thread.owes : Thread → Bool
  | .write _ [] => true
  | .unlock _ success => success
  | .exchangeOn _ => true
  | .startTimer => true
  | .reset _ _ => true
  | _ => false

/-- Nothing is asked of the others, or told them, where the thread stands. -/
def Thread.plain : Thread → Bool
  | .write _ _ => false
  | .unlock _ success => !success
  | .exchangeOn _ => false
  | .startTimer => false
  | .secondStop _ force => force
  | .secondRun _ force => force
  | .request _ => false
  | .requestStore _ => false
  | .decelerate _ => false
  | .reset _ _ => false
  | .scanStop index => index = 0
  | .scanRun _ => false
  | .exchangeOff => false
  | .stopTimer => false
  | _ => true

/-- The stores that end a movement or withdraw its stop request. -/
def Store.withdraws : Store → Bool
  | .stopRequested => true
  | .runState .stopped => true
  | _ => false

theorem setupStores_run {info : Movement} {interval : Int} {state : RunState} {rest : List Store}
    (h : Store.runState state :: rest <:+ setupStores info interval) :
    state = .accelerating ∧ rest = [] := by
  simpa [setupStores, List.suffix_cons_iff] using h

theorem resetStores_run {state : RunState} {rest : List Store}
    (h : Store.runState state :: rest <:+ resetStores) :
    state = .stopped ∧ Store.stopRequested ∈ rest := by
  simp only [resetStores, List.suffix_cons_iff] at h
  simp at h
  obtain ⟨rfl, rfl⟩ := h
  simp

theorem movementState_eq : m.movementState = .stopped ↔
    m.runState = .stopped ∧ m.stopRequested = false := by
  unfold Motor.movementState
  split_ifs <;> simp_all

/-- The next tick ends the movement. -/
def Motor.Ending (e : Env) (now : Int) (m : Motor) : Prop :=
  m.Due ∧ (m.Ends now ∨ m.Refused e)

/-- A tick neither moves a motor that has stopped, nor leaves a stop request with one that it stops;
and only the end of a movement stops the motor or withdraws the request. -/
structure Ticks (e : Env) (now : Int) (m t : Motor) : Prop where
  moving : t.runState ≠ .stopped → m.runState ≠ .stopped
  stopped : t.runState = .stopped → t.stopRequested = true → m.runState = .stopped ∧
    m.stopRequested = true
  goes : ¬ m.Ending e now → m.runState ≠ .stopped → t.runState ≠ .stopped
  asked : ¬ m.Ending e now → m.stopRequested = true → t.stopRequested = true

theorem tick_ticks (e : Env) (now : Int) (m : Motor) : Ticks e now m (m.tick e now) := by
  by_cases hm : m.movementState = .stopped
  · rw [Motor.tick, if_neg (by simpa using hm)]
    exact ⟨fun h => h, fun h h' => ⟨h, h'⟩, fun _ h => h, fun _ h => h⟩
  · have hticked : Motor.Ticked e now m (m.tick e now) := Motor.tick_ticked hm
    generalize m.tick e now = t at hticked ⊢
    cases hticked with
    | early hd => exact ⟨fun h => h, fun h h' => ⟨h, h'⟩, fun _ h => h, fun _ h => h⟩
    | ended hd he =>
      exact ⟨fun h => absurd rfl h, fun _ h => Bool.noConfusion h, fun hn => absurd ⟨hd, .inl he⟩ hn,
        fun hn => absurd ⟨hd, .inl he⟩ hn⟩
    | refused hd he hr =>
      exact ⟨fun h => absurd rfl h, fun _ h => Bool.noConfusion h, fun hn => absurd ⟨hd, .inr hr⟩ hn,
        fun hn => absurd ⟨hd, .inr hr⟩ hn⟩
    | pulse hd he hr =>
      have hrun : m.advance.runState ≠ .stopped := fun h => he (.inr h)
      refine ⟨fun _ hs => hrun ?_, fun h => absurd h hrun, fun _ _ => hrun, fun _ h => ?_⟩
      · rw [Motor.advance, hs]
        exact hs
      · exact Motor.advance_ramped.stopRequested.trans h

namespace Control

/-- What every reachable state keeps. -/
structure Kept (s : Control) : Prop where
  fits : ∀ t, (s.threads t).Fits
  running : s.timerStarted = true → s.timerRunning = true ∨ ∃ t, s.threads t = .startTimer
  halting : ∀ t, s.threads t = .stopTimer → s.timerStarted = false
  moving : ∀ i < s.count, (s.motors i).runState ≠ .stopped →
    s.timerStarted = true ∨ ∃ t, (s.threads t).Starting i
  found : ∀ t, ∀ i < s.count, (s.threads t).found i = true → (s.motors i).runState ≠ .stopped →
    ∃ u, (s.threads u).Starting i
  stopped : ∀ i, (s.motors i).runState = .stopped → (s.motors i).stopRequested = true →
    ∃ t, (s.threads t).Resetting i
  acting : ∀ t i, (s.threads t).actsOn = some i → (s.motors i).runState ≠ .stopped ∨
    (s.threads t).asking = true ∧ (s.motors i).stopRequested = true

theorem init_kept (count : Nat) : Kept { count := count } := by
  exact ⟨fun _ => trivial, nofun, nofun, fun i _ h => absurd rfl h, nofun, nofun, nofun⟩

/-- What holds of the thread that steps, and held of the others before. -/
theorem forall_update {P : Nat → Thread → Prop} (threads : Nat → Thread) (hpc : P t pc)
    (h : ∀ u, u ≠ t → P u (threads u)) (u : Nat) : P u (Function.update threads t pc u) := by
  by_cases hu : u = t
  · subst hu
    rw [Function.update_self]
    exact hpc
  · rw [Function.update_of_ne hu]
    exact h u hu

/-- What some thread did, it still does if it has not made the step. -/
theorem exists_update {P : Thread → Prop} (threads : Nat → Thread) (h : ∃ u, P (threads u))
    (hpc : P (threads t) → P pc) : ∃ u, P (Function.update threads t pc u) := by
  obtain ⟨u, hu⟩ := h
  by_cases hut : u = t
  · subst hut
    exact ⟨u, by rw [Function.update_self]; exact hpc hu⟩
  · exact ⟨u, by rw [Function.update_of_ne hut]; exact hu⟩

/-- The run states, the stop requests, the timer and the threads are as they were. -/
structure Same (s s' : Control) : Prop where
  count : s'.count = s.count
  threads : s'.threads = s.threads
  timerStarted : s'.timerStarted = s.timerStarted
  timerRunning : s'.timerRunning = s.timerRunning
  runState : ∀ i, (s'.motors i).runState = (s.motors i).runState
  stopRequested : ∀ i, (s'.motors i).stopRequested = (s.motors i).stopRequested

theorem Same.refl : Same s s := ⟨rfl, rfl, rfl, rfl, fun _ => rfl, fun _ => rfl⟩

theorem Same.setLock {owner : Option Nat} : Same s (s.setLock i owner) :=
  ⟨rfl, rfl, rfl, rfl, fun _ => rfl, fun _ => rfl⟩

theorem Same.setMotor (hr : m.runState = (s.motors j).runState)
    (hs : m.stopRequested = (s.motors j).stopRequested) : Same s (s.setMotor j m) := by
  refine ⟨rfl, rfl, rfl, rfl, fun i => ?_, fun i => ?_⟩
  · by_cases hi : i = j
    · subst hi
      simpa [Control.setMotor] using hr
    · simp [Control.setMotor, hi]
  · by_cases hi : i = j
    · subst hi
      simpa [Control.setMotor] using hs
    · simp [Control.setMotor, hi]

theorem Kept.same (h : s.Kept) (hs : Same s s') : s'.Kept := by
  refine ⟨?_, ?_, ?_, ?_, ?_, ?_, ?_⟩
  · rw [hs.threads]
    exact h.fits
  · rw [hs.threads, hs.timerStarted, hs.timerRunning]
    exact h.running
  · rw [hs.threads, hs.timerStarted]
    exact h.halting
  · intro i
    rw [hs.threads, hs.timerStarted, hs.count, hs.runState]
    exact h.moving i
  · intro t i
    rw [hs.threads, hs.count, hs.runState]
    exact h.found t i
  · intro i
    rw [hs.threads, hs.runState, hs.stopRequested]
    exact h.stopped i
  · intro t i
    rw [hs.threads, hs.runState, hs.stopRequested]
    exact h.acting t i

/-- A thread goes on without a store that others see. -/
theorem Kept.go (h : s.Kept) (hp : s.threads t = old) (hs : Same s s') (hfits : pc.Fits)
    (hon : old ≠ .startTimer) (hoff : pc ≠ .stopTimer)
    (hstart : ∀ i, old.Starting i → pc.Starting i)
    (hreset : ∀ i, old.Resetting i → pc.Resetting i)
    (hfound : ∀ i < s.count, pc.found i = true →
      old.found i = true ∨ (s.motors i).runState = .stopped)
    (hact : ∀ i, pc.actsOn = some i → (s.motors i).runState ≠ .stopped ∨
      pc.asking = true ∧ (s.motors i).stopRequested = true) : (s'.goto t pc).Kept := by
  have hk := h.same hs
  rw [← hs.threads] at hp
  rw [← hs.count] at hfound
  simp only [← hs.runState, ← hs.stopRequested] at hfound hact
  subst hp
  have hkeep : ∀ i, (∃ u, (s'.threads u).Starting i) →
      ∃ u, (Function.update s'.threads t pc u).Starting i := fun i hu =>
    exists_update (P := Thread.Starting i) s'.threads hu (hstart i)
  refine ⟨?_, ?_, ?_, ?_, ?_, ?_, ?_⟩
  · exact forall_update (P := fun _ pc => pc.Fits) s'.threads hfits fun u _ => hk.fits u
  · exact fun hs => (hk.running hs).imp id fun hu =>
      exists_update (P := (· = .startTimer)) s'.threads hu fun he => absurd he hon
  · exact forall_update (P := fun _ pc => pc = .stopTimer → s'.timerStarted = false) s'.threads
      (fun he => absurd he hoff) fun u _ => hk.halting u
  · exact fun i hi hm => (hk.moving i hi hm).imp id (hkeep i)
  · refine forall_update (P := fun _ old => ∀ i < s'.count, old.found i = true →
      (s'.motors i).runState ≠ .stopped → ∃ u, (Function.update s'.threads t pc u).Starting i)
      s'.threads (fun i hi hf hm => ?_) fun u _ i hi hf hm => hkeep i (hk.found u i hi hf hm)
    rcases hfound i hi hf with hf | hs
    · exact hkeep i (hk.found t i hi hf hm)
    · exact absurd hs hm
  · exact fun i hr hs =>
      exists_update (P := Thread.Resetting i) s'.threads (hk.stopped i hr hs) (hreset i)
  · exact forall_update (P := fun _ pc => ∀ i, pc.actsOn = some i →
      (s'.motors i).runState ≠ .stopped ∨ pc.asking = true ∧ (s'.motors i).stopRequested = true)
      s'.threads hact fun u _ => hk.acting u

theorem owes_starting (h : pc.owes = false) : ¬ pc.Starting i := by
  intro hs
  unfold Thread.Starting at hs
  split at hs <;> first | exact hs | exact nomatch h

theorem owes_resetting (h : pc.owes = false) : ¬ pc.Resetting i := by
  intro hs
  unfold Thread.Resetting at hs
  split at hs
  · exact nomatch h
  · exact hs

theorem plain_found (h : pc.plain = true) : pc.found i = false := by
  cases pc <;> first | rfl | cases h | skip
  simp_all [Thread.plain, Thread.found]

theorem plain_actsOn (h : pc.plain = true) : pc.actsOn = none := by
  cases pc with
  | secondStop motor force | secondRun motor force =>
    rw [show force = true from h]
    rfl
  | request | requestStore | decelerate => cases h
  | _ => rfl

theorem plain_fits (h : pc.plain = true) : pc.Fits := by
  cases pc with
  | write | reset => cases h
  | _ => trivial

/-- It goes on to where the others need not know of it. -/
theorem Kept.pass (h : s.Kept) (hp : s.threads t = old) (hs : Same s s')
    (hold : old.owes = false) (hpc : pc.plain = true) : (s'.goto t pc).Kept := by
  refine h.go hp hs (plain_fits hpc) ?_ ?_
    (fun _ hi => absurd hi (owes_starting hold)) (fun _ hi => absurd hi (owes_resetting hold)) ?_ ?_
  · rintro rfl
    cases hold
  · rintro rfl
    cases hpc
  · intro i _ hf
    rw [plain_found hpc] at hf
    cases hf
  · intro i hi
    rw [plain_actsOn hpc] at hi
    cases hi

/-- A store to the run state or the stop request of one motor. -/
theorem Kept.store (h : s.Kept) (hp : s.threads t = old) (hfits : pc.Fits) (hon : old ≠ .startTimer)
    (hoff : pc ≠ .stopTimer) (hstart : ∀ i, ¬ old.Starting i)
    (hfound : ∀ i, pc.found i = false) (hact : pc.actsOn = none)
    (hmoving : m.runState ≠ .stopped → (s.motors j).runState ≠ .stopped ∨ pc.Starting j)
    (hstopped : m.runState = .stopped → m.stopRequested = true → pc.Resetting j)
    (hreset : ∀ i, i ≠ j → ¬ old.Resetting i)
    (hgoes : ∀ u, u ≠ t → (s.threads u).actsOn = some j →
      ((s.motors j).runState ≠ .stopped → m.runState ≠ .stopped) ∧
        ((s.motors j).stopRequested = true → m.stopRequested = true)) :
    ((s.setMotor j m).goto t pc).Kept := by
  subst hp
  have hpc : Function.update s.threads t pc t = pc := Function.update_self ..
  have hkeep : ∀ i, (∃ u, (s.threads u).Starting i) →
      ∃ u, (Function.update s.threads t pc u).Starting i := fun i hu =>
    exists_update (P := Thread.Starting i) s.threads hu fun hst => absurd hst (hstart i)
  -- A motor moves that has moved before, or that the thread has set moving.
  have hmoves : ∀ i, (Function.update s.motors j m i).runState ≠ .stopped →
      (s.motors i).runState ≠ .stopped ∨ ∃ u, (Function.update s.threads t pc u).Starting i := by
    intro i hm
    by_cases hi : i = j
    · subst hi
      rw [Function.update_self] at hm
      exact (hmoving hm).imp id fun hs => ⟨t, hpc.symm ▸ hs⟩
    · rw [Function.update_of_ne hi] at hm
      exact .inl hm
  refine ⟨?_, ?_, ?_, ?_, ?_, ?_, ?_⟩
  · exact forall_update (P := fun _ pc => pc.Fits) s.threads hfits fun u _ => h.fits u
  · exact fun hs => (h.running hs).imp id fun hu =>
      exists_update (P := (· = .startTimer)) s.threads hu fun he => absurd he hon
  · exact forall_update (P := fun _ pc => pc = .stopTimer → s.timerStarted = false) s.threads
      (fun he => absurd he hoff) fun u _ => h.halting u
  · intro i hi hm
    rcases hmoves i hm with hm | hu
    · exact (h.moving i hi hm).imp id (hkeep i)
    · exact .inr hu
  · refine forall_update (P := fun _ old => ∀ i < s.count, old.found i = true →
      (Function.update s.motors j m i).runState ≠ .stopped →
        ∃ u, (Function.update s.threads t pc u).Starting i) s.threads (fun i _ hf => ?_)
      fun u _ i hi hf hm => ?_
    · rw [hfound i] at hf
      cases hf
    · rcases hmoves i hm with hm | hu
      · exact hkeep i (h.found u i hi hf hm)
      · exact hu
  · have hstop : ∀ i, (Function.update s.motors j m i).runState = .stopped →
        (Function.update s.motors j m i).stopRequested = true →
          ∃ u, (Function.update s.threads t pc u).Resetting i := by
      intro i hr hs
      by_cases hi : i = j
      · subst hi
        rw [Function.update_self] at hr hs
        exact ⟨t, hpc.symm ▸ hstopped hr hs⟩
      · rw [Function.update_of_ne hi] at hr hs
        exact exists_update (P := Thread.Resetting i) s.threads (h.stopped i hr hs)
          fun hu => absurd hu (hreset i hi)
    exact hstop
  · refine forall_update (P := fun _ pc => ∀ i, pc.actsOn = some i →
      (Function.update s.motors j m i).runState ≠ .stopped ∨
        pc.asking = true ∧ (Function.update s.motors j m i).stopRequested = true)
      s.threads (fun i hi => ?_) fun u hu i hi => ?_
    · rw [hact] at hi
      cases hi
    · have hold := h.acting u i hi
      by_cases hij : i = j
      · subst hij
        obtain ⟨hgo, hask⟩ := hgoes u hu hi
        rw [Function.update_self]
        exact hold.imp hgo fun ha => ⟨ha.1, hask ha.2⟩
      · rw [Function.update_of_ne hij]
        exact hold

/-- A step that concerns the timer only. -/
theorem Kept.timer {started running : Bool} (h : s.Kept) (hp : s.threads t = old) (hfits : pc.Fits)
    (hfound : ∀ i, pc.found i = true → old.found i = true)
    (hact : pc.actsOn = none) (hreset : ∀ i, ¬ old.Resetting i)
    (hrun : started = true → running = true ∨ pc = .startTimer ∨
      s.timerStarted = true ∧ running = s.timerRunning ∧ old ≠ .startTimer)
    (hoff : pc = .stopTimer → started = false)
    (hhalt : started = true → ∀ u, s.threads u = .stopTimer → s.timerStarted = true)
    (hmoving : ∀ i < s.count, (s.motors i).runState ≠ .stopped → s.timerStarted = true →
      started = true ∨ ∃ u, (s.threads u).Starting i)
    (hstart : ∀ i, old.Starting i → started = true ∧ ∀ u, (s.threads u).found i = false) :
    ({ s with timerStarted := started, timerRunning := running }.goto t pc).Kept := by
  subst hp
  have hpc : Function.update s.threads t pc t = pc := Function.update_self ..
  have hkeep : ∀ i, (∃ u, (s.threads u).Starting i) →
      started = true ∨ ∃ u, (Function.update s.threads t pc u).Starting i := by
    rintro i ⟨u, hu⟩
    by_cases hut : u = t
    · subst hut
      exact .inl (hstart i hu).1
    · exact .inr ⟨u, by rw [Function.update_of_ne hut]; exact hu⟩
  refine ⟨?_, ?_, ?_, ?_, ?_, ?_, ?_⟩
  · exact forall_update (P := fun _ pc => pc.Fits) s.threads hfits fun u _ => h.fits u
  · intro hs
    rcases hrun hs with hr | he | ⟨hts, hr, hne⟩
    · exact .inl hr
    · exact .inr ⟨t, hpc.trans he⟩
    · exact (h.running hts).imp hr.trans fun hu =>
        exists_update (P := (· = .startTimer)) s.threads hu fun he => absurd he hne
  · refine forall_update (P := fun _ pc => pc = .stopTimer → started = false) s.threads hoff
      fun u _ he => ?_
    by_contra hs
    have hon := hhalt (by simpa using hs) u he
    rw [h.halting u he] at hon
    cases hon
  · intro i hi hm
    rcases h.moving i hi hm with hts | hu
    · rcases hmoving i hi hm hts with hs | hu
      · exact .inl hs
      · exact hkeep i hu
    · exact hkeep i hu
  · have hall : ∀ u, ∀ i < s.count, (s.threads u).found i = true →
        (s.motors i).runState ≠ .stopped → ∃ u, (Function.update s.threads t pc u).Starting i := by
      intro u i hi hf hm
      refine exists_update (P := Thread.Starting i) s.threads (h.found u i hi hf hm) fun hst => ?_
      rw [(hstart i hst).2 u] at hf
      cases hf
    exact forall_update (P := fun _ old => ∀ i < s.count, old.found i = true →
      (s.motors i).runState ≠ .stopped → ∃ u, (Function.update s.threads t pc u).Starting i)
      s.threads (fun i hi hf => hall t i hi (hfound i hf)) fun u _ => hall u
  · exact fun i hr hs => exists_update (P := Thread.Resetting i) s.threads (h.stopped i hr hs)
      fun hu => absurd hu (hreset i)
  · refine forall_update (P := fun _ pc => ∀ i, pc.actsOn = some i →
      (s.motors i).runState ≠ .stopped ∨ pc.asking = true ∧ (s.motors i).stopRequested = true)
      s.threads (fun i hi => ?_) fun u _ => h.acting u
    rw [hact] at hi
    cases hi

/-- The condition on a step: from where a graceful stop has found its motor moving to its stores, no
tick ends the movement and no other call stores an end of it or withdraws the request; and from where
the scan of a stop has found a motor stopped to the stop of the timer, no `setup_movement` of that
motor exchanges the timer flag. -/
def Undisturbed (env : Nat → Env) (s : Control) : ControlLabel → Prop
  | .tick now => ∀ t i, (s.threads t).actsOn = some i → ¬ (s.motors i).Ending (env i) (now i)
  | .thread t _ =>
    match s.threads t with
    | .write motor (x :: _) => x.withdraws = true → ∀ u, (s.threads u).actsOn ≠ some motor
    | .reset motor (x :: _) => x.withdraws = true → ∀ u, (s.threads u).actsOn ≠ some motor
    | .exchangeOn motor => ∀ u, (s.threads u).found motor = false
    | _ => True
  | _ => True

/-- Once no call is in progress, a motor that moves or is to stop has the timer, and one that has
stopped is not to stop. -/
def Unstranded (s : Control) : Prop :=
  (∀ t, s.threads t = .idle) → ∀ i < s.count,
    ((s.motors i).movementState ≠ .stopped → s.timerStarted = true ∧ s.timerRunning = true) ∧
      ((s.motors i).runState = .stopped → (s.motors i).movementState ≠ .stopping)

theorem Kept.unstranded (h : s.Kept) : s.Unstranded := by
  intro hidle i hi
  have hcalm : (s.motors i).runState = .stopped → (s.motors i).stopRequested = false := by
    intro hr
    by_contra hs
    obtain ⟨u, hu⟩ := h.stopped i hr (by simpa using hs)
    rw [hidle u] at hu
    exact hu
  refine ⟨fun hm => ?_, fun hr hm => ?_⟩
  · have hrun : (s.motors i).runState ≠ .stopped := fun hr => hm (movementState_eq.mpr ⟨hr, hcalm hr⟩)
    have hs : s.timerStarted = true := by
      rcases h.moving i hi hrun with hs | ⟨u, hu⟩
      · exact hs
      · rw [hidle u] at hu
        exact hu.elim
    refine ⟨hs, ?_⟩
    rcases h.running hs with hr | ⟨u, hu⟩
    · exact hr
    · rw [hidle u] at hu
      cases hu
  · rw [movementState_eq.mpr ⟨hr, hcalm hr⟩] at hm
    cases hm

/-- A store of `setup_movement`. -/
theorem Kept.write {motor : Nat} {x : Store} {rest : List Store} (h : s.Kept)
    (hp : s.threads t = .write motor (x :: rest))
    (hu : x.withdraws = true → ∀ u, (s.threads u).actsOn ≠ some motor) :
    ((s.setMotor motor ((s.motors motor).store now x)).goto t (.write motor rest)).Kept := by
  have hfits := h.fits t
  rw [hp] at hfits
  obtain ⟨info, interval, hsuffix⟩ := hfits
  have hrest : (Thread.write motor rest).Fits :=
    ⟨info, interval, (List.suffix_cons x rest).trans hsuffix⟩
  cases x with
  | runState state =>
    obtain ⟨rfl, rfl⟩ := setupStores_run hsuffix
    exact h.store hp hrest nofun nofun (fun _ h => h) (fun _ => rfl) rfl (fun _ => .inr rfl) nofun
      (fun _ _ h => h) fun u _ _ => ⟨fun _ => nofun, fun hs => hs⟩
  | stopRequested =>
    exact h.store hp hrest nofun nofun (fun _ h => h) (fun _ => rfl) rfl .inl nofun (fun _ _ h => h)
      fun u _ hi => absurd hi (hu rfl u)
  | _ =>
    exact h.go hp (.setMotor rfl rfl) hrest nofun nofun (fun _ h => h.elim)
      (fun _ h => h.elim) nofun nofun

/-- A store of a reset. -/
theorem Kept.reset {motor : Nat} {x : Store} {rest : List Store} (h : s.Kept)
    (hp : s.threads t = .reset motor (x :: rest))
    (hu : x.withdraws = true → ∀ u, (s.threads u).actsOn ≠ some motor) :
    ((s.setMotor motor ((s.motors motor).store now x)).goto t (.reset motor rest)).Kept := by
  have hfits := h.fits t
  rw [hp] at hfits
  have hrest : (Thread.reset motor rest).Fits := (List.suffix_cons x rest).trans hfits
  have hother : ∀ i, i ≠ motor → ¬ (Thread.reset motor (x :: rest)).Resetting i :=
    fun i hi h => hi h.1.symm
  cases x with
  | runState state =>
    obtain ⟨rfl, hmem⟩ := resetStores_run hfits
    exact h.store hp hrest nofun nofun (fun _ h => h) (fun _ => rfl) rfl (fun hm => absurd rfl hm)
      (fun _ _ => ⟨rfl, hmem⟩) hother fun u _ hi => absurd hi (hu rfl u)
  | stopRequested =>
    exact h.store hp hrest nofun nofun (fun _ h => h) (fun _ => rfl) rfl .inl nofun hother
      fun u _ hi => absurd hi (hu rfl u)
  | _ =>
    exact h.go hp (.setMotor rfl rfl) hrest nofun nofun (fun _ h => h.elim)
      (fun _ h => ⟨h.1, by simpa using h.2⟩) nofun nofun

/-- The stores of a graceful stop, which has found the motor moving. -/
theorem Kept.requestStore {motor : Nat} (h : s.Kept) (hp : s.threads t = .requestStore motor) :
    ((s.setMotor motor { s.motors motor with stopRequested := true }).goto t (.readRun motor)).Kept := by
  have hrun : (s.motors motor).runState ≠ .stopped := by
    rcases h.acting t motor (by rw [hp]; rfl) with hr | ⟨ha, _⟩
    · exact hr
    · rw [hp] at ha
      cases ha
  exact h.store hp trivial nofun nofun (fun _ h => h) (fun _ => rfl) rfl (fun _ => .inl hrun)
    (fun hr => absurd hr hrun) (fun _ _ h => h) fun u _ _ => ⟨fun hr => hr, fun _ => rfl⟩

theorem Kept.decelerate {motor : Nat} (h : s.Kept) (hp : s.threads t = .decelerate motor) :
    ((s.setMotor motor { s.motors motor with runState := .decelerating }).goto t
      (.scanStop 0)).Kept := by
  have hrun : (s.motors motor).runState ≠ .stopped := by
    rcases h.acting t motor (by rw [hp]; rfl) with hr | ⟨ha, _⟩
    · exact hr
    · rw [hp] at ha
      cases ha
  exact h.store hp trivial nofun nofun (fun _ h => h) (fun i => by simp [Thread.found]) rfl
    (fun _ => .inl hrun) nofun (fun _ _ h => h) fun u _ _ => ⟨fun _ => nofun, fun hs => hs⟩

/-- A graceful stop goes on with a motor that it has found moving, or about to stop. -/
theorem Kept.act (motor : Nat) (h : s.Kept) (hp : s.threads t = old) (hold : old.owes = false)
    (hfits : pc.Fits) (hoff : pc ≠ .stopTimer) (hfound : ∀ i, pc.found i = false)
    (hon : ∀ i, pc.actsOn = some i → i = motor)
    (hact : (s.motors motor).runState ≠ .stopped ∨
      pc.asking = true ∧ (s.motors motor).stopRequested = true) : (s.goto t pc).Kept := by
  refine h.go hp .refl hfits ?_ hoff (fun _ hi => absurd hi (owes_starting hold))
    (fun _ hi => absurd hi (owes_resetting hold)) (fun i _ hf => ?_) fun i hi => ?_
  · rintro rfl
    cases hold
  · rw [hfound i] at hf
    cases hf
  · rw [hon i hi]
    exact hact

theorem Kept.acts {motor : Nat} (h : s.Kept) (hp : (s.threads t).actsOn = some motor)
    (ha : (s.threads t).asking = true → (s.motors motor).stopRequested = false) :
    (s.motors motor).runState ≠ .stopped := by
  refine (h.acting t motor hp).resolve_right fun hs => ?_
  rw [ha hs.1] at hs
  cases hs.2

theorem Kept.toSecondStop {motor : Nat} {force : Bool} (h : s.Kept) (hp : s.threads t = old)
    (hold : old.owes = false)
    (hact : (s.motors motor).runState ≠ .stopped ∨ (s.motors motor).stopRequested = true) :
    (s.goto t (.secondStop motor force)).Kept := by
  refine h.act motor hp hold trivial nofun (fun _ => rfl) (fun i hi => ?_)
    (hact.imp id fun hs => ⟨rfl, hs⟩)
  cases force <;> cases hi
  rfl

theorem Kept.toSecondRun {motor : Nat} {force : Bool} (h : s.Kept)
    (hp : s.threads t = .secondStop motor force) (hs : (s.motors motor).stopRequested = false) :
    (s.goto t (.secondRun motor force)).Kept := by
  cases force with
  | true => exact h.pass hp .refl rfl rfl
  | false =>
    refine h.act motor hp rfl trivial nofun (fun _ => rfl)
      (fun i hi => (Option.some.inj hi).symm) (.inl ?_)
    exact h.acts (by rw [hp]; rfl) fun _ => hs

/-- The step after the second look, and the one to the store. -/
theorem Kept.toStore {motor : Nat} (h : s.Kept) (hp : s.threads t = old) (hold : old.owes = false)
    (hacts : old.actsOn = some motor) (hasks : old.asking = false)
    (hpc : pc = .request motor ∨ pc = .requestStore motor) : (s.goto t pc).Kept := by
  have hrun : (s.motors motor).runState ≠ .stopped :=
    h.acts (by rw [hp]; exact hacts) fun ha => by rw [hp, hasks] at ha; cases ha
  rcases hpc with rfl | rfl <;>
    exact h.act motor hp hold trivial nofun (fun _ => rfl)
      (fun i hi => (Option.some.inj hi).symm) (.inl hrun)

/-- The scan of the motors. -/
theorem Kept.scan (index : Nat) (h : s.Kept) (hp : s.threads t = old) (hold : old.owes = false)
    (hpc : pc = .scanStop index ∨ pc = .scanRun index ∨ pc = .exchangeOff)
    (hfound : ∀ i < s.count, pc.found i = true →
      old.found i = true ∨ (s.motors i).runState = .stopped) : (s.goto t pc).Kept := by
  have hplace : pc.Fits ∧ pc ≠ .stopTimer ∧ pc.actsOn = none := by
    rcases hpc with rfl | rfl | rfl <;> exact ⟨trivial, nofun, rfl⟩
  refine h.go hp .refl hplace.1 ?_ hplace.2.1 (fun _ hi => absurd hi (owes_starting hold))
    (fun _ hi => absurd hi (owes_resetting hold)) hfound fun i hi => ?_
  · rintro rfl
    cases hold
  · rw [hplace.2.2] at hi
    cases hi

/-- The exchange of the timer flag in `setup_movement`. -/
theorem Kept.exchangeOn {motor : Nat} (h : s.Kept) (hp : s.threads t = .exchangeOn motor)
    (hu : ∀ u, (s.threads u).found motor = false) :
    ({ s with timerStarted := true }.goto t
      (if s.timerStarted then .idle else .startTimer)).Kept := by
  refine h.timer hp ?_ ?_ ?_ (fun _ h => h) (fun _ => ?_) ?_ (fun _ u he => ?_)
    (fun _ _ _ _ => .inl rfl) fun i hi => ⟨rfl, fun u => hi ▸ hu u⟩
  · split_ifs <;> trivial
  · intro i hf
    split_ifs at hf <;> cases hf
  · split_ifs <;> rfl
  · cases hts : s.timerStarted with
    | false => exact .inr (.inl rfl)
    | true => exact .inr (.inr ⟨rfl, rfl, nofun⟩)
  · intro he
    split_ifs at he
  · have hfound := hu u
    rw [he] at hfound
    cases hfound

/-- The one in `stop_movement`, after its scan. -/
theorem Kept.exchangeOff (h : s.Kept) (hp : s.threads t = .exchangeOff) :
    ({ s with timerStarted := false }.goto t
      (if s.timerStarted then .stopTimer else .idle)).Kept := by
  refine h.timer hp ?_ (fun _ _ => rfl) ?_ (fun _ h => h) nofun (fun _ => rfl) nofun
    (fun i hi hm _ => .inr ?_) fun _ h => h.elim
  · split_ifs <;> trivial
  · split_ifs <;> rfl
  · exact h.found t i hi (by rw [hp]; rfl) hm

theorem threadStep_kept (h : s.Kept) (hs : s.threadStep env t now = some s')
    (hu : s.Undisturbed env (.thread t now)) : s'.Kept := by
  unfold threadStep at hs
  simp only [Undisturbed] at hu
  cases hp : s.threads t with
  | validate motor info =>
    rw [hp] at hs
    dsimp only at hs
    split_ifs at hs
    · cases hs
      exact h.pass hp .refl rfl rfl
    · cases ha : (env motor).accelLookupTable info.speed <;> rw [ha] at hs <;> cases hs
      · exact h.pass hp .refl rfl rfl
      · exact h.pass hp (.setMotor rfl rfl) rfl rfl
  | direct motor info =>
    rw [hp] at hs
    dsimp only at hs
    split_ifs at hs <;> cases hs
    · exact h.go hp (.setMotor rfl rfl) ⟨_, _, List.suffix_rfl⟩ nofun nofun
        (fun _ h => h.elim) (fun _ h => h.elim) nofun nofun
    · exact h.pass hp (.setMotor rfl rfl) rfl rfl
  | write motor todo =>
    rw [hp] at hs hu
    cases todo <;> cases hs
    · exact h.go hp .refl trivial nofun nofun (fun _ h => h) (fun _ h => h.elim) nofun nofun
    · exact h.write hp hu
  | unlock motor success =>
    rw [hp] at hs
    cases hs
    cases success with
    | false => exact h.pass hp .setLock rfl rfl
    | true =>
      exact h.go hp .setLock trivial nofun nofun (fun _ h => h) (fun _ h => h.elim) nofun nofun
  | exchangeOn motor =>
    rw [hp] at hs hu
    cases hs
    exact h.exchangeOn hp hu
  | startTimer =>
    rw [hp] at hs
    cases hs
    exact h.timer hp trivial nofun rfl (fun _ h => h) (fun _ => .inl rfl) nofun
      (fun hs _ _ => hs) (fun _ _ _ hs => .inl hs) fun _ h => h.elim
  | firstStop motor force =>
    rw [hp] at hs
    dsimp only at hs
    split_ifs at hs with hstop <;> cases hs
    · exact h.toSecondStop hp rfl (.inr hstop)
    · exact h.pass hp .refl rfl rfl
  | firstRun motor force =>
    rw [hp] at hs
    dsimp only at hs
    split_ifs at hs with hrun <;> cases hs
    · exact h.pass hp .refl rfl rfl
    · exact h.toSecondStop hp rfl (.inl hrun)
  | secondStop motor force =>
    rw [hp] at hs
    dsimp only at hs
    split_ifs at hs with hstop <;> cases hs
    · exact h.pass hp .refl rfl rfl
    · exact h.toSecondRun hp (by simpa using hstop)
  | secondRun motor force =>
    rw [hp] at hs
    cases hs
    cases force with
    | true =>
      exact h.go hp .refl List.suffix_rfl nofun nofun (fun _ h => h.elim) (fun _ h => h.elim) nofun nofun
    | false => exact h.toStore hp rfl rfl rfl (.inl rfl)
  | request motor =>
    rw [hp] at hs
    dsimp only at hs
    split_ifs at hs <;> cases hs
    · exact h.pass hp .refl rfl rfl
    · exact h.toStore hp rfl rfl rfl (.inr rfl)
  | requestStore motor =>
    rw [hp] at hs
    cases hs
    exact h.requestStore hp
  | readRun motor =>
    rw [hp] at hs
    have hmoves : (s.motors motor).runState ≠ .stopped → (s.goto t (.decelerate motor)).Kept :=
      fun hr => h.act motor hp rfl trivial nofun (fun _ => rfl)
        (fun i hi => (Option.some.inj hi).symm) (.inl hr)
    dsimp only at hs
    cases hr : (s.motors motor).runState <;> rw [hr] at hs hmoves <;> cases hs
    · exact h.pass hp .refl rfl rfl
    · exact hmoves nofun
    · exact hmoves nofun
    · exact h.pass hp .refl rfl rfl
  | decelerate motor =>
    rw [hp] at hs
    cases hs
    exact h.decelerate hp
  | reset motor todo =>
    rw [hp] at hs hu
    cases todo <;> cases hs
    · exact h.go hp .refl trivial nofun nofun (fun _ h => h.elim) (fun _ h => nomatch h.2)
        (fun i _ hf => by simp [Thread.found] at hf) nofun
    · exact h.reset hp hu
  | scanStop index =>
    rw [hp] at hs
    dsimp only at hs
    split_ifs at hs with hlt <;> cases hs
    · exact h.pass hp .refl rfl rfl
    · exact h.scan index hp rfl (.inr (.inl rfl)) fun i _ hf => .inl hf
    · refine h.scan 0 hp rfl (.inr (.inr rfl)) fun i hi _ => .inl ?_
      simp only [Thread.found, decide_eq_true_eq]
      omega
  | scanRun index =>
    rw [hp] at hs
    dsimp only at hs
    split_ifs at hs with hrun <;> cases hs
    · exact h.pass hp .refl rfl rfl
    · refine h.scan (index + 1) hp rfl (.inl rfl) fun i _ hf => ?_
      simp only [Thread.found, decide_eq_true_eq] at hf ⊢
      rcases Nat.lt_succ_iff_lt_or_eq.mp hf with hlt | rfl
      · exact .inl hlt
      · exact .inr (by simpa using hrun)
  | exchangeOff =>
    rw [hp] at hs
    cases hs
    exact h.exchangeOff hp
  | stopTimer =>
    rw [hp] at hs
    cases hs
    refine h.timer hp trivial nofun rfl (fun _ h => h) (fun hs => ?_) nofun (fun hs _ _ => hs)
      (fun _ _ _ hs => .inl hs) fun _ h => h.elim
    rw [h.halting t hp] at hs
    cases hs
  | _ =>
    -- The rest of `setup_movement` takes the lock, asks, or calls the HWA.
    rw [hp] at hs
    dsimp only at hs
    try split_ifs at hs
    all_goals cases hs
    all_goals
      first
      | exact h.pass hp .refl rfl rfl
      | exact h.pass hp .setLock rfl rfl
      | exact h.pass hp (.setMotor rfl rfl) rfl rfl

/-- What `check_motors` leaves as it is, and what it does with a motor. -/
theorem checkMotors_frame (now : Nat → Int) : (s.checkMotors env now).count = s.count ∧
    (s.checkMotors env now).threads = s.threads ∧ ∀ i, (s.checkMotors env now).motors i =
      if i < s.count then (s.motors i).tick (env i) (now i) else s.motors i := by
  unfold checkMotors
  dsimp only
  split_ifs <;> exact ⟨rfl, rfl, fun i => rfl⟩

/-- `check_motors` stops the timer if no motor moves any more. -/
theorem checkMotors_timer (now : Nat → Int) :
    (s.checkMotors env now).timerStarted = s.timerStarted ∧
        (s.checkMotors env now).timerRunning = s.timerRunning ∨
      (s.checkMotors env now).timerStarted = false ∧
        ∀ i < s.count, ((s.checkMotors env now).motors i).movementState = .stopped := by
  unfold checkMotors
  dsimp only
  split_ifs with hidle
  · refine .inr ⟨rfl, fun i hi => ?_⟩
    simp only [Bool.and_eq_true, Bool.not_eq_true', List.any_eq_false, List.mem_range,
      decide_eq_true_eq, not_not] at hidle
    exact hidle.1 i hi
  · exact .inl ⟨rfl, rfl⟩

/-- A tick moves no motor that has stopped, whatever its index. -/
theorem checkMotors_ticks (env : Nat → Env) (s : Control) (now : Nat → Int) (i : Nat) :
    Ticks (env i) (now i) (s.motors i) ((s.checkMotors env now).motors i) := by
  rw [(checkMotors_frame now).2.2 i]
  split_ifs
  · exact tick_ticks ..
  · exact ⟨fun h => h, fun h h' => ⟨h, h'⟩, fun _ h => h, fun _ h => h⟩

theorem Kept.checkMotors {now : Nat → Int} (h : s.Kept) (hu : s.Undisturbed env (.tick now)) :
    (s.checkMotors env now).Kept := by
  obtain ⟨hcount, hthreads, -⟩ := @checkMotors_frame env s now
  have hticks := checkMotors_ticks env s now
  refine ⟨?_, ?_, ?_, ?_, ?_, ?_, ?_⟩
  · rw [hthreads]
    exact h.fits
  · intro hs
    rw [hthreads]
    rcases @checkMotors_timer env s now with ⟨hts, htr⟩ | ⟨hts, _⟩
    · rw [htr]
      exact h.running (hts ▸ hs)
    · rw [hts] at hs
      cases hs
  · intro t ht
    rw [hthreads] at ht
    rcases @checkMotors_timer env s now with ⟨hts, _⟩ | ⟨hts, _⟩
    · rw [hts]
      exact h.halting t ht
    · exact hts
  · intro i hi hm
    rw [hcount] at hi
    rw [hthreads]
    rcases @checkMotors_timer env s now with ⟨hts, _⟩ | ⟨_, hidle⟩
    · rw [hts]
      exact h.moving i hi ((hticks i).moving hm)
    · exact absurd (movementState_eq.mp (hidle i hi)).1 hm
  · intro t i hi hf hm
    rw [hcount] at hi
    rw [hthreads] at hf ⊢
    exact h.found t i hi hf ((hticks i).moving hm)
  · intro i hr hs
    rw [hthreads]
    obtain ⟨hr, hs⟩ := (hticks i).stopped hr hs
    exact h.stopped i hr hs
  · intro t i hi
    rw [hthreads] at hi ⊢
    have hgoes := hu t i hi
    exact (h.acting t i hi).imp ((hticks i).goes hgoes) fun ha => ⟨ha.1, (hticks i).asked hgoes ha.2⟩

theorem step_kept (h : s.Kept) (hs : s.step env l = some s') (hu : s.Undisturbed env l) :
    s'.Kept := by
  cases l with
  | setup t motor info =>
    simp only [step] at hs
    split at hs
    · rename_i hp
      split_ifs at hs
      cases hs
      exact h.pass hp .refl rfl rfl
    · cases hs
  | stop t motor force =>
    simp only [step] at hs
    split at hs
    · rename_i hp
      split_ifs at hs
      cases hs
      exact h.pass hp .refl rfl rfl
    · cases hs
  | thread t now => exact threadStep_kept h hs hu
  | tick now =>
    simp only [step] at hs
    split_ifs at hs
    cases hs
    exact h.checkMotors hu

/-- The steps under the condition. -/
def undisturbedStep (env : Nat → Env) (s : Control) (l : ControlLabel) (s' : Control) : Prop :=
  s.step env l = some s' ∧ s.Undisturbed env l

/-- No motor is stranded by a run in which no call of `stop_movement` is overtaken between what it
reads and what it does. -/
theorem motors_not_stranded {count : Nat}
    (hr : Run (· = { count := count }) (fun _ => undisturbedStep env) labels s) : s.Unstranded := by
  have hkept : s.Kept := by
    refine hr.invariant (I := fun _ s => s.Kept) ?_ fun _ _ _ _ h hs => step_kept h hs.1 hs.2
    rintro _ rfl
    exact init_kept count
  exact hkept.unstranded

/-- Motors that accept every movement. -/
def willing : Nat → Env := fun _ =>
  { useStepToggle := true
    intervalsDiffer := true
    accelLookupTable := fun _ => some (Vector.replicate _ 100)
    hwa := fun _ _ => true }

/-- The steps of a call of `setup_movement` by a thread, up to the exchange of the timer flag. -/
def setupSteps (thread motor : Nat) : List ControlLabel :=
  .setup thread motor {} :: List.replicate 19 (.thread thread 0)

/-- A check of the condition where only the first two threads make calls. -/
def calm (s : Control) : ControlLabel → Bool
  | .setup t _ _ => t < 2
  | .stop t _ _ => t < 2
  | .thread t _ => t < 2 &&
    match s.threads t with
    | .write motor (x :: _) => !x.withdraws ||
      (List.range 2).all fun u => (s.threads u).actsOn != some motor
    | .reset motor (x :: _) => !x.withdraws ||
      (List.range 2).all fun u => (s.threads u).actsOn != some motor
    | .exchangeOn motor => (List.range 2).all fun u => !(s.threads u).found motor
    | _ => true
  | .tick _ => (List.range 2).all fun u => (s.threads u).actsOn.isNone

/-- Steps of the first two threads and ticks, as far as the check lets them pass. -/
def calmStep (env : Nat → Env) (s : Control) (l : ControlLabel) : Option Control :=
  if s.calm l then s.step env l else none

theorem undisturbed_of_calm (hc : s.calm l = true) (hidle : ∀ u, 2 ≤ u → s.threads u = .idle) :
    s.Undisturbed env l := by
  have hall : ∀ {P : Thread → Prop}, (∀ u < 2, P (s.threads u)) → P .idle → ∀ u, P (s.threads u) := by
    intro P hP hi u
    by_cases hu : u < 2
    · exact hP u hu
    · rw [hidle u (by omega)]
      exact hi
  cases l with
  | tick now =>
    intro t i ha
    have hnone : (s.threads t).actsOn = none :=
      hall (P := fun pc => pc.actsOn = none) (by simpa [calm] using hc) rfl t
    rw [hnone] at ha
    cases ha
  | thread t now =>
    have hc := (Bool.and_eq_true_iff.mp hc).2
    simp only [Undisturbed]
    split
    · rename_i motor x _ hp
      intro hx
      simp only [hp, hx] at hc
      exact hall (P := fun pc => pc.actsOn ≠ some motor) (by simpa using hc) nofun
    · rename_i motor x _ hp
      intro hx
      simp only [hp, hx] at hc
      exact hall (P := fun pc => pc.actsOn ≠ some motor) (by simpa using hc) nofun
    · rename_i motor hp
      rw [hp] at hc
      exact hall (P := fun pc => pc.found motor = false) (by simpa using hc) rfl
    · trivial
  | _ => trivial

theorem threadStep_others (hs : s.threadStep env t now = some s') (hu : u ≠ t) :
    s'.threads u = s.threads u := by
  unfold threadStep at hs
  split at hs <;> (try dsimp only at hs) <;> try split_ifs at hs
  all_goals try (split at hs)
  all_goals
    cases hs
    try simp [goto, setMotor, setLock, hu]

theorem calm_idle (hc : s.calm l = true) (hs : s.step env l = some s')
    (hidle : ∀ u, 2 ≤ u → s.threads u = .idle) (hu : 2 ≤ u) : s'.threads u = .idle := by
  cases l with
  | setup t motor info | stop t motor force =>
    have ht : t < 2 := by simpa [calm] using hc
    simp only [step] at hs
    split at hs
    · split_ifs at hs
      cases hs
      simp only [goto]
      rw [Function.update_of_ne (by omega), hidle u hu]
    · cases hs
  | thread t now =>
    have ht : t < 2 := of_decide_eq_true (Bool.and_eq_true_iff.mp hc).1
    rw [threadStep_others hs (by omega), hidle u hu]
  | tick now =>
    simp only [step] at hs
    split_ifs at hs
    cases hs
    rw [(checkMotors_frame now).2.1, hidle u hu]

theorem run_of_calm {count : Nat}
    (hr : Run (· = { count := count }) (fun _ s l s' => s.calmStep env l = some s') labels s) :
    Run (· = { count := count }) (fun _ => undisturbedStep env) labels s ∧
      ∀ u, 2 ≤ u → s.threads u = .idle := by
  induction hr with
  | nil h =>
    subst h
    exact ⟨.nil rfl, fun _ _ => rfl⟩
  | snoc _ hn ih =>
    unfold calmStep at hn
    split_ifs at hn with hc
    exact ⟨ih.1.snoc ⟨hn, undisturbed_of_calm hc ih.2⟩, fun u => calm_idle hc hn ih.2⟩

/-- The first thread stops its motor gracefully while the second one sets another motor moving, and
then stops it by force; the timer ticks in between. -/
def interleavedStops : List ControlLabel :=
  setupSteps 0 0 ++ [.thread 0 0, .stop 0 0 false] ++ List.replicate 4 (.thread 0 0) ++
    (setupSteps 1 1).take 12 ++ List.replicate 2 (.thread 0 0) ++ (setupSteps 1 1).drop 12 ++
    List.replicate 3 (.thread 0 0) ++ List.replicate 2 (.tick fun _ => 1) ++ [.stop 1 1 true] ++
    List.replicate 4 (.thread 1 2) ++ [.tick fun _ => 2] ++ List.replicate 18 (.thread 1 2)

set_option maxRecDepth 2000 in
/-- Both motors have stopped at the end, and the timer has. -/
theorem motors_not_stranded_stopped : ∃ s : Control, (∀ t, s.threads t = .idle) ∧
    (s.motors 0).movementState = .stopped ∧ (s.motors 1).movementState = .stopped ∧
    s.timerRunning = false ∧ s.Unstranded := by
  have hrun : Run (· = ({ count := 2 } : Control)) (fun _ s l s' => calmStep willing s l = some s')
      interleavedStops _ := .of_foldlM rfl rfl
  obtain ⟨hr, hidle⟩ := run_of_calm hrun
  refine ⟨_, fun t => ?_, rfl, rfl, rfl, motors_not_stranded hr⟩
  rcases t with _ | _ | t
  · rfl
  · rfl
  · exact hidle _ (by omega)

/-- A thread stops a motor by force and finds all motors stopped. Before it exchanges the timer
flag another thread sets a motor moving, and finds the timer started. -/
def overtakenStop : List ControlLabel :=
  setupSteps 0 0 ++ [.thread 0 0, .stop 0 0 true] ++ List.replicate 20 (.thread 0 0) ++
    setupSteps 1 1 ++ List.replicate 2 (.thread 0 0)

theorem motor_left_without_timer : ∃ s : Control,
    overtakenStop.foldlM (step willing) { count := 2 } = some s ∧ (∀ t, s.threads t = .idle) ∧
      (s.motors 1).movementState = .moving ∧ s.timerStarted = false ∧ s.timerRunning = false ∧
      ¬ s.Unstranded := by
  obtain ⟨s, hs, hidle, hcount, hm, hts, htr⟩ : ∃ s : Control,
      overtakenStop.foldlM (step willing) { count := 2 } = some s ∧ (∀ t, s.threads t = .idle) ∧
        s.count = 2 ∧ (s.motors 1).movementState = .moving ∧ s.timerStarted = false ∧
        s.timerRunning = false := by
    refine ⟨_, rfl, fun t => ?_, rfl, rfl, rfl, rfl⟩
    rcases t with _ | _ | t <;> rfl
  refine ⟨s, hs, hidle, hm, hts, htr, fun h => ?_⟩
  have hmoves := (h hidle 1 (by rw [hcount]; decide)).1 (by rw [hm]; exact nofun)
  rw [hts] at hmoves
  cases hmoves.1

end Control

end Zlibs.MotorControl
