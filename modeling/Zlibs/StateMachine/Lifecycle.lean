import Mathlib
import Zlibs.Lib.LastMatch
import Zlibs.StateMachine.StateMachine

/-! What the hooks of the states see of a machine, and when it takes calls. -/
namespace Zlibs.StateMachine
open Lib

variable {σ ε : Type} {states : States σ ε} {m t : Machine σ ε} {target state : σ} {event : ε}
  {call : Call σ ε} {calls : List (Call σ ε)} {trace : List (Happening σ ε)} {result : Bool}

/-- The state whose `enter` was called last. -/
def lastEntered (trace : List (Happening σ ε)) : Option σ :=
  lastMatch (fun | .enter state _ => some state | _ => none) trace

@[simp] theorem lastEntered_enter : lastEntered (trace ++ [.enter state result]) = some state :=
  lastMatch_concat

@[simp] theorem lastEntered_exit :
    lastEntered (trace ++ [.exit state result]) = lastEntered trace := lastMatch_concat

@[simp] theorem lastEntered_handle :
    lastEntered (trace ++ [.handle state event]) = lastEntered trace := lastMatch_concat

/-- Only the state entered last is ever left. -/
def ExitsEntered (trace : List (Happening σ ε)) : Prop :=
  ∀ before state result rest, trace = before ++ .exit state result :: rest →
    lastEntered before = some state

theorem exitsEntered_nil : ExitsEntered ([] : List (Happening σ ε)) := by
  intro before state result rest h
  exact absurd h.symm (by simp)

theorem ExitsEntered.concat (h : ExitsEntered trace) {x : Happening σ ε}
    (hx : ∀ state result, x = .exit state result → lastEntered trace = some state) :
    ExitsEntered (trace ++ [x]) := by
  intro before state result rest he
  rcases List.eq_nil_or_concat rest with rfl | ⟨rest, y, rfl⟩
  · obtain ⟨rfl, hlast⟩ := List.append_inj' he rfl
    exact hx state result (List.cons.inj hlast).1
  · rw [List.concat_eq_append, ← List.cons_append, ← List.append_assoc] at he
    exact h before state result rest (List.append_inj' he rfl).1

theorem ExitsEntered.enter (h : ExitsEntered trace) :
    ExitsEntered (trace ++ [.enter state result]) := h.concat nofun

theorem ExitsEntered.exit (h : ExitsEntered trace) (hl : lastEntered trace = some state) :
    ExitsEntered (trace ++ [.exit state result]) := by
  apply h.concat
  rintro _ _ ⟨rfl, rfl⟩
  exact hl

theorem ExitsEntered.handle (h : ExitsEntered trace) :
    ExitsEntered (trace ++ [.handle state event]) := h.concat nofun

namespace Machine

/-- The machine is in the state entered last, and has left no other. -/
structure Hooked (m : Machine σ ε) : Prop where
  exits : ExitsEntered m.trace
  current : ∀ state, lastEntered m.trace = some state → m.currentState = state
  entered : m.initialized = true → lastEntered m.trace = some m.currentState

theorem hooked_new : Hooked (Machine.new states) := ⟨exitsEntered_nil, nofun, nofun⟩

theorem hooked_enter (h : ExitsEntered m.trace) : Hooked (enter states m).2 :=
  ⟨h.enter, fun _ hs => Option.some.inj (lastEntered_enter.symm.trans hs), fun _ => lastEntered_enter⟩

theorem hooked_fail (h : ExitsEntered m.trace) : Hooked (fail states m) := hooked_enter h

theorem Hooked.init (h : Hooked m) : Hooked (init states m).2 := by
  have he : Hooked (Machine.enter states { m with currentState := states.initState }).2 :=
    hooked_enter h.exits
  rw [Machine.init]
  dsimp only
  split
  · exact hooked_fail he.exits
  · exact ⟨he.exits, he.current, fun _ => lastEntered_enter⟩

theorem Hooked.transitionTo (h : Hooked m) : Hooked (transitionTo states target m).2 := by
  rw [Machine.transitionTo]
  split
  · exact h
  case isFalse hi =>
    have hx : ExitsEntered (Machine.exit states m).2.trace := h.exits.exit (h.entered (by simpa using hi))
    dsimp only
    split
    · exact hooked_fail hx
    · have he : Hooked (Machine.enter states
          { (Machine.exit states m).2 with currentState := target }).2 := hooked_enter hx
      split
      · exact hooked_fail he.exits
      · exact he

theorem Hooked.execute (h : Hooked m) (action : Action σ) : Hooked (execute states m action) := by
  induction action with
  | transition target => exact h.transitionTo
  | nothing => exact h
  | oneOf selected ih => exact ih

theorem Hooked.handle (h : Hooked m) : Hooked (handle states event m) := by
  rw [Machine.handle]
  split
  · exact h
  · split
    · exact h
    · apply Hooked.execute
      refine ⟨h.exits.handle, fun state hs => h.current state ?_, fun hi => ?_⟩
      · rwa [lastEntered_handle] at hs
      · rw [lastEntered_handle]
        exact h.entered hi

theorem Hooked.perform (h : Hooked m) : Hooked (perform states m call).2 := by
  cases call with
  | init => exact h.init
  | handle event => exact h.handle
  | transitionTo target => exact h.transitionTo

/-- A hook that returned false. -/
def Failed : Happening σ ε → Prop
  | .enter _ result | .exit _ result => result = false
  | .handle _ _ => False

/-- After a hook that failed the machine is in the error state. -/
def FailsTo (states : States σ ε) (m t : Machine σ ε) : Prop :=
  ∃ added, t.trace = m.trace ++ added ∧
    ((∃ x ∈ added, Failed x) → t.currentState = states.errorState)

theorem failsTo_refl : FailsTo states m m := ⟨[], by simp, by simp⟩

theorem failsTo_fail : FailsTo states m (fail states m) := ⟨_, rfl, fun _ => rfl⟩

/-- What has happened before does not matter to the failures that follow. -/
theorem FailsTo.after {u : Machine σ ε} {x : Happening σ ε} (h : FailsTo states t u)
    (ht : t.trace = m.trace ++ [x]) (hx : Failed x → u.currentState = states.errorState) :
    FailsTo states m u := by
  obtain ⟨added, hu, hfail⟩ := h
  refine ⟨x :: added, by rw [hu, ht, List.append_assoc, List.singleton_append], ?_⟩
  rintro ⟨y, hy, hfailed⟩
  rcases List.mem_cons.mp hy with rfl | hy
  · exact hx hfailed
  · exact hfail ⟨y, hy, hfailed⟩

theorem failsTo_init : FailsTo states m (init states m).2 := by
  rw [init]
  dsimp only
  split
  · exact failsTo_fail.after rfl fun _ => rfl
  case isFalse hr =>
    refine ⟨_, rfl, ?_⟩
    rintro ⟨x, hx, hfailed⟩
    obtain rfl := List.mem_singleton.mp hx
    exact absurd (congrArg not hfailed) hr

theorem failsTo_transitionTo : FailsTo states m (transitionTo states target m).2 := by
  rw [transitionTo]
  split
  · exact failsTo_refl
  dsimp only
  split
  · exact failsTo_fail.after rfl fun _ => rfl
  case isFalse hexit =>
    have hkept : ¬ Failed (Happening.exit m.currentState (exit states m).1 : Happening σ ε) :=
      fun hfailed => hexit (congrArg not hfailed)
    split
    · have hfail : FailsTo states (exit states m).2 (fail states
          (enter states { (exit states m).2 with currentState := target }).2) :=
        failsTo_fail.after rfl fun _ => rfl
      exact hfail.after rfl fun hfailed => absurd hfailed hkept
    case isFalse henter =>
      have hentered : FailsTo states (exit states m).2
          (enter states { (exit states m).2 with currentState := target }).2 := by
        refine ⟨_, rfl, ?_⟩
        rintro ⟨x, hx, hfailed⟩
        obtain rfl := List.mem_singleton.mp hx
        exact absurd (congrArg not hfailed) henter
      exact hentered.after rfl fun hfailed => absurd hfailed hkept

theorem failsTo_execute (action : Action σ) : FailsTo states m (execute states m action) := by
  induction action with
  | transition target => exact failsTo_transitionTo
  | nothing => exact failsTo_refl
  | oneOf selected ih => exact ih

theorem failsTo_perform : FailsTo states m (perform states m call).2 := by
  cases call with
  | init => exact failsTo_init
  | transitionTo target => exact failsTo_transitionTo
  | handle event =>
    change FailsTo states m (handle states event m)
    rw [handle]
    split
    · exact failsTo_refl
    · split
      · exact failsTo_refl
      · exact (failsTo_execute _).after rfl False.elim

theorem execute_trace (action : Action σ) :
    ∃ rest, (execute states m action).trace = m.trace ++ rest := by
  have hfails : FailsTo states m (execute states m action) := failsTo_execute action
  obtain ⟨rest, h, _⟩ := hfails
  exact ⟨rest, h⟩

theorem init_initialized : (init states m).2.initialized = ((init states m).1 || m.initialized) := by
  rw [init]
  dsimp only
  split <;> rfl

theorem init_result : (init states m).1 = states.enter m.trace states.initState := by
  cases h : states.enter m.trace states.initState <;> simp [init, enter, h]

theorem transitionTo_initialized :
    (transitionTo states target m).2.initialized = m.initialized := by
  rw [transitionTo]
  dsimp only
  split
  · rfl
  · split
    · rfl
    · split <;> rfl

theorem execute_initialized (action : Action σ) :
    (execute states m action).initialized = m.initialized := by
  induction action with
  | transition target => exact transitionTo_initialized
  | nothing => rfl
  | oneOf selected ih => exact ih

theorem handle_initialized : (handle states event m).initialized = m.initialized := by
  rw [handle]
  split
  · rfl
  · split
    · rfl
    · exact execute_initialized _

/-- The machine takes events and transitions if `active`, and ignores them otherwise. -/
structure Obeys (states : States σ ε) (m : Machine σ ε) (active : Bool) : Prop where
  transitions : ∀ target, (∃ result rest, (transitionTo states target m).2.trace =
    m.trace ++ .exit m.currentState result :: rest) ↔ active = true
  events : ∀ event, (states.handle m.trace m.currentState event).isSome →
    ((∃ rest, (handle states event m).trace = m.trace ++ .handle m.currentState event :: rest) ↔
      active = true)
  ignored : active = false → ∀ target event,
    transitionTo states target m = (false, m) ∧ handle states event m = m

theorem transitionTo_trace (hi : m.initialized = true) : ∃ result rest,
    (transitionTo states target m).2.trace = m.trace ++ .exit m.currentState result :: rest := by
  refine ⟨(exit states m).1, ?_⟩
  rw [transitionTo, if_neg (by simp [hi])]
  dsimp only
  split
  · exact ⟨[_], List.append_assoc ..⟩
  · split
    · exact ⟨[_, _], (List.append_assoc ..).trans (List.append_assoc ..)⟩
    · exact ⟨[_], List.append_assoc ..⟩

theorem obeys_iff {active : Bool} : Obeys states m active ↔ m.initialized = active := by
  constructor
  · intro h
    cases active with
    | true =>
      obtain ⟨result, rest, hr⟩ := (h.transitions states.initState).mpr rfl
      by_contra hi
      rw [transitionTo, if_pos (by simpa using hi)] at hr
      simp at hr
    | false =>
      by_contra hi
      have hi : m.initialized = true := by simpa using hi
      exact Bool.false_ne_true ((h.transitions states.initState).mp (transitionTo_trace hi))
  · rintro rfl
    cases hi : m.initialized with
    | true =>
      refine ⟨fun target => ⟨fun _ => rfl, fun _ => transitionTo_trace hi⟩, fun event hs => ?_, nofun⟩
      refine ⟨fun _ => rfl, fun _ => ?_⟩
      obtain ⟨action, ha⟩ := Option.isSome_iff_exists.mp hs
      rw [handle, if_neg (by simp [hi]), ha]
      obtain ⟨rest, hr⟩ := @execute_trace _ _ states
        { m with trace := m.trace ++ [.handle m.currentState event] } action
      exact ⟨rest, by rw [hr, List.append_assoc, List.singleton_append]⟩
    | false =>
      have hnot : (!m.initialized) = true := by rw [hi]; rfl
      have ht : ∀ target, transitionTo states target m = (false, m) := fun _ => if_pos hnot
      have he : ∀ event, handle states event m = m := fun _ => if_pos hnot
      refine ⟨fun target => ⟨?_, nofun⟩, fun event _ => ⟨?_, nofun⟩, fun _ _ _ => ⟨ht _, he _⟩⟩
      · rintro ⟨result, rest, hr⟩
        rw [ht] at hr
        simp at hr
      · rintro ⟨rest, hr⟩
        rw [he] at hr
        simp at hr

end Machine

/-- One call, and what the most recent `init` returned. -/
def observeCall (states : States σ ε) (s : Machine σ ε × Bool) (call : Call σ ε) :
    Machine σ ε × Bool :=
  let r := s.1.perform states call
  (r.2, match call with
    | .init => r.1.getD false
    | _ => s.2)

/-- A new machine after some calls, and what the most recent `init` returned, if there was one. -/
def observe (states : States σ ε) (calls : List (Call σ ε)) : Machine σ ε × Bool :=
  calls.foldl (observeCall states) (.new states, false)

@[simp] theorem observe_nil : observe states [] = (.new states, false) := rfl

@[simp] theorem observe_concat :
    observe states (calls ++ [call]) = observeCall states (observe states calls) call := by
  rw [observe, List.foldl_append]
  rfl

theorem hooked_observe : (observe states calls).1.Hooked := by
  induction calls using List.reverseRecOn with
  | nil => exact Machine.hooked_new
  | append_singleton calls call ih =>
    rw [observe_concat]
    exact ih.perform

/-- No `init` of a machine that is initialized already fails. -/
def NoFailedReinit (states : States σ ε) (calls : List (Call σ ε)) : Prop :=
  ∀ before, before ++ [.init] <+: calls → (observe states before).1.initialized = true →
    states.enter (observe states before).1.trace states.initState = true

/-- At every point of a run: calls are taken if the most recent `init` returned true, only the state
entered last is left, and it is the current one, the error state after a hook that failed. -/
def Lifecycle (states : States σ ε) (calls : List (Call σ ε)) : Prop :=
  ∀ before, before <+: calls →
    (observe states before).1.Obeys states (observe states before).2 ∧
      (observe states before).1.Hooked ∧
      ∀ call, before ++ [call] <+: calls →
        (observe states before).1.FailsTo states (observe states (before ++ [call])).1

/-- The flag of the machine is what the most recent `init` returned, as long as no failed one
follows a successful one. -/
theorem initialized_iff : (∀ before, before <+: calls →
    (observe states before).1.initialized = (observe states before).2) ↔
      NoFailedReinit states calls := by
  constructor
  · intro h before hb hi
    have hafter := h _ hb
    rw [observe_concat] at hafter
    have hflag : (Machine.init states (observe states before).1).2.initialized =
        (Machine.init states (observe states before).1).1 := hafter
    rw [Machine.init_initialized, hi, Bool.or_true, Machine.init_result] at hflag
    exact hflag.symm
  · intro h before hb
    induction before using List.reverseRecOn with
    | nil => rfl
    | append_singleton before call ih =>
      have hflag := ih ((List.prefix_append before [call]).trans hb)
      rw [observe_concat]
      cases call with
      | transitionTo target => exact Machine.transitionTo_initialized.trans hflag
      | handle event => exact Machine.handle_initialized.trans hflag
      | init =>
        change (Machine.init states (observe states before).1).2.initialized =
          (Machine.init states (observe states before).1).1
        rw [Machine.init_initialized, Machine.init_result]
        cases hi : (observe states before).1.initialized with
        | true => rw [h before hb hi, Bool.or_true]
        | false => exact Bool.or_false _

/-- Everything else holds of every run. -/
theorem lifecycle_iff : Lifecycle states calls ↔ NoFailedReinit states calls := by
  rw [← initialized_iff]
  constructor
  · intro h before hb
    exact Machine.obeys_iff.mp (h before hb).1
  · intro h before hb
    refine ⟨Machine.obeys_iff.mpr (h before hb), hooked_observe, fun call _ => ?_⟩
    rw [observe_concat]
    exact Machine.failsTo_perform

/-- Two states, of which the first cannot be entered a second time. -/
def onceOnly : States Bool Unit where
  first := false
  initState := false
  errorState := true
  enter trace state := trace.isEmpty || state
  exit _ _ := true
  handle _ _ _ := none

/-- The machine goes on after an `init` that returned false. -/
theorem failed_reinit_active : ¬ Lifecycle onceOnly [.init, .init] := by
  intro h
  have hflag := Machine.obeys_iff.mp (h [.init, .init] (List.prefix_refl _)).1
  exact absurd hflag (by decide)

end Zlibs.StateMachine
