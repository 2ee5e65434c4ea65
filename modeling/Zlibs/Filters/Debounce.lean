import Zlibs.Lib.Run

/-! `Debounce`: the raw state, the stable state that follows it, and the delayed work between. -/
namespace Zlibs.Filters
open Lib

/-- The debouncer with its delayed work, which waits for a deadline and is then queued until the
work queue runs it. -/
structure Debounce where
  debounceTimeMs : UInt32
  stableState : Bool := false
  newState : Bool := false
  deadline : Option Nat := none
  queued : Bool := false
  now : Nat := 0

inductive DebounceStep where
  | update (state : Bool)
  | setDebounceTimeMs (debounceTimeMs : UInt32)
  | elapse (ms : Nat)
  | expire
  | work
  deriving DecidableEq

namespace Debounce

def update (state : Bool) (s : Debounce) : Debounce :=
  if state ≠ s.newState then
    let s := { s with newState := state }
    -- `reschedule` replaces the deadline, and leaves work that is queued already.
    if s.debounceTimeMs ≠ 0 then { s with deadline := some (s.now + s.debounceTimeMs.toNat) }
    else { s with stableState := state }
  else s

def setDebounceTimeMs (debounceTimeMs : UInt32) (s : Debounce) : Debounce :=
  { s with debounceTimeMs }

/-- The deadline has passed. -/
def expire (s : Debounce) : Option Debounce :=
  match s.deadline with
  | none => none
  | some t => if t ≤ s.now then some { s with deadline := none, queued := true } else none

/-- The callback of the work. -/
def work (s : Debounce) : Option Debounce :=
  if s.queued then some { s with queued := false, stableState := s.newState } else none

def step (s : Debounce) : DebounceStep → Option Debounce
  | .update state => some (s.update state)
  | .setDebounceTimeMs debounceTimeMs => some (s.setDebounceTimeMs debounceTimeMs)
  | .elapse ms => some { s with now := s.now + ms }
  | .expire => s.expire
  | .work => s.work

/-- The raw state does not change while work is queued that is about to publish it. -/
def Undisturbed (s : Debounce) : DebounceStep → Prop
  | .update state => s.queued = true → state = s.newState
  | _ => True

end Debounce

/-- The raw state after the updates. -/
def rawState (history : List DebounceStep) : Bool :=
  history.foldl (fun raw l => match l with
    | .update state => state
    | _ => raw) false

/-- The debounce time in force, `ms` at first. -/
def debounceTime (ms : UInt32) (history : List DebounceStep) : UInt32 :=
  history.foldl (fun ms l => match l with
    | .setDebounceTimeMs ms => ms
    | _ => ms) ms

def DebounceStep.duration : DebounceStep → Nat
  | .elapse ms => ms
  | _ => 0

/-- The time that has passed. -/
def elapsed (history : List DebounceStep) : Nat := (history.map (·.duration)).sum

abbrev DebounceRun (ms : UInt32) : List DebounceStep → Debounce → Prop :=
  Run (· = { debounceTimeMs := ms }) fun _ s l t => s.step l = some t

/-- A run in which queued work publishes the raw state it was scheduled for. -/
abbrev QuietRun (ms : UInt32) : List DebounceStep → Debounce → Prop :=
  Run (· = { debounceTimeMs := ms }) fun _ s l t => s.step l = some t ∧ s.Undisturbed l

variable {ms : UInt32} {history before after : List DebounceStep} {s t : Debounce}
  {l : DebounceStep} {state : Bool}

theorem elapsed_concat : elapsed (history ++ [l]) = elapsed history + l.duration := by
  simp [elapsed]

theorem rawState_concat : rawState (history ++ [l]) = match l with
    | .update state => state
    | _ => rawState history := by
  simp [rawState]

theorem debounceTime_concat : debounceTime ms (history ++ [l]) = match l with
    | .setDebounceTimeMs ms => ms
    | _ => debounceTime ms history := by
  simp [debounceTime]

theorem update_cases (s : Debounce) (state : Bool) :
    state = s.newState ∧ s.update state = s ∨
      state ≠ s.newState ∧ 0 < s.debounceTimeMs.toNat ∧ s.update state =
        { s with newState := state, deadline := some (s.now + s.debounceTimeMs.toNat) } ∨
      state ≠ s.newState ∧ s.debounceTimeMs.toNat = 0 ∧ s.update state =
        { s with newState := state, stableState := state } := by
  unfold Debounce.update
  by_cases hne : state = s.newState
  · exact .inl ⟨hne, if_neg (not_not.mpr hne)⟩
  · by_cases hms : s.debounceTimeMs = 0
    · refine .inr (.inr ⟨hne, by simp [hms], ?_⟩)
      simp [hne, hms]
    · refine .inr (.inl ⟨hne, Nat.pos_of_ne_zero fun h => hms (UInt32.toNat_inj.mp h), ?_⟩)
      simp [hne, hms]

theorem expire_eq_some (h : s.expire = some t) : ∃ deadline, s.deadline = some deadline ∧
    deadline ≤ s.now ∧ t = { s with deadline := none, queued := true } := by
  unfold Debounce.expire at h
  split at h
  · cases h
  · rename_i deadline hd
    split_ifs at h with hle
    cases h
    exact ⟨deadline, hd, hle, rfl⟩

theorem work_eq_some (h : s.work = some t) :
    s.queued = true ∧ t = { s with queued := false, stableState := s.newState } := by
  unfold Debounce.work at h
  split_ifs at h with hq
  cases h
  exact ⟨hq, rfl⟩

/-- The state is what the history says, and an unstable state has work to come. -/
structure Tracked (ms : UInt32) (history : List DebounceStep) (s : Debounce) : Prop where
  now : s.now = elapsed history
  time : s.debounceTimeMs = debounceTime ms history
  raw : s.newState = rawState history
  pending : s.stableState ≠ s.newState → s.deadline.isSome = true ∨ s.queued = true

theorem tracked_step (h : Tracked ms history s) (hs : s.step l = some t) :
    Tracked ms (history ++ [l]) t := by
  have hnow := h.now
  have htime := h.time
  have hraw := h.raw
  cases l with
  | update state =>
    cases hs
    obtain ⟨rfl, hu⟩ | ⟨-, -, hu⟩ | ⟨-, -, hu⟩ := update_cases s state
    · rw [hu]
      exact ⟨by rw [elapsed_concat]; exact hnow, by rw [debounceTime_concat]; exact htime,
        by rw [rawState_concat], h.pending⟩
    · rw [hu]
      exact ⟨by rw [elapsed_concat]; exact hnow, by rw [debounceTime_concat]; exact htime,
        by rw [rawState_concat], fun _ => .inl rfl⟩
    · rw [hu]
      exact ⟨by rw [elapsed_concat]; exact hnow, by rw [debounceTime_concat]; exact htime,
        by rw [rawState_concat], fun h => absurd rfl h⟩
  | setDebounceTimeMs ms' =>
    cases hs
    exact ⟨by rw [elapsed_concat]; exact hnow, by rw [debounceTime_concat]; rfl,
      by rw [rawState_concat]; exact hraw, h.pending⟩
  | elapse d =>
    cases hs
    exact ⟨by rw [elapsed_concat, ← hnow]; rfl, by rw [debounceTime_concat]; exact htime,
      by rw [rawState_concat]; exact hraw, h.pending⟩
  | expire =>
    obtain ⟨deadline, -, -, rfl⟩ := expire_eq_some hs
    exact ⟨by rw [elapsed_concat]; exact hnow, by rw [debounceTime_concat]; exact htime,
      by rw [rawState_concat]; exact hraw, fun _ => .inr rfl⟩
  | work =>
    obtain ⟨-, rfl⟩ := work_eq_some hs
    exact ⟨by rw [elapsed_concat]; exact hnow, by rw [debounceTime_concat]; exact htime,
      by rw [rawState_concat]; exact hraw, fun h => absurd rfl h⟩

theorem tracked_run (h : DebounceRun ms history s) : Tracked ms history s := by
  apply h.invariant (I := fun history s => Tracked ms history s)
  · rintro _ rfl
    exact ⟨rfl, rfl, rfl, fun h => absurd rfl h⟩
  · exact fun history s l t h hs => tracked_step h hs

/-- The raw state has been `state` since an update that changed it, for at least `time`. -/
def HeldFor (ms : UInt32) (history : List DebounceStep) (state : Bool) (time : UInt32 → Nat → Prop) :
    Prop :=
  ∃ before after, history = before ++ .update state :: after ∧ rawState before ≠ state ∧
    (∀ b, .update b ∈ after → b = state) ∧ time (debounceTime ms before) (elapsed after)

/-- The work that an unstable state waits for. -/
structure Scheduled (s : Debounce) (interval : UInt32) (passed : Nat) : Prop where
  positive : 0 < interval.toNat
  deadline : ∀ t, s.deadline = some t → t + passed = s.now + interval.toNat
  queued : s.queued = true → interval.toNat ≤ passed

/-- An unstable state has been held since the update that scheduled the work. -/
def Held (ms : UInt32) (history : List DebounceStep) (s : Debounce) : Prop :=
  s.stableState ≠ s.newState → HeldFor ms history s.newState (Scheduled s)

theorem HeldFor.concat {state : Bool} {time time' : UInt32 → Nat → Prop}
    (h : HeldFor ms history state time) (hl : ∀ b, l = .update b → b = state)
    (ht : ∀ interval passed, time interval passed → time' interval (passed + l.duration)) :
    HeldFor ms (history ++ [l]) state time' := by
  obtain ⟨before, after, rfl, hne, hsame, htime⟩ := h
  refine ⟨before, after ++ [l], by simp, hne, fun b hb => ?_, ?_⟩
  · obtain hb | hb := List.mem_append.mp hb
    · exact hsame b hb
    · exact hl b (List.mem_singleton.mp hb).symm
  · rw [elapsed_concat]
    exact ht _ _ htime

theorem held_step (ht : Tracked ms history s) (h : Held ms history s) (hu : s.Undisturbed l)
    (hs : s.step l = some t) : Held ms (history ++ [l]) t := by
  cases l with
  | update state =>
    cases hs
    obtain ⟨rfl, he⟩ | ⟨hne, hpos, he⟩ | ⟨-, -, he⟩ := update_cases s state
    · rw [he]
      exact fun hun => (h hun).concat (fun b hb => (DebounceStep.update.inj hb).symm) fun _ _ hc => hc
    · rw [he]
      refine fun _ => ⟨history, [], rfl, ?_, by simp, ?_⟩
      · rw [← ht.raw]
        exact hne.symm
      · rw [← ht.time]
        exact ⟨hpos, fun t ht => (Option.some.inj ht).symm, fun hq => absurd (hu hq) hne⟩
    · rw [he]
      exact fun hun => absurd rfl hun
  | setDebounceTimeMs ms' =>
    cases hs
    exact fun hun => (h hun).concat (fun b hb => by cases hb) fun _ _ hc =>
      ⟨hc.positive, hc.deadline, hc.queued⟩
  | elapse d =>
    cases hs
    refine fun hun => (h hun).concat (fun b hb => by cases hb) fun _ passed hc =>
      ⟨hc.positive, fun t ht => ?_, fun hq => (hc.queued hq).trans (Nat.le_add_right _ _)⟩
    have hd := hc.deadline t ht
    simp only [DebounceStep.duration]
    omega
  | expire =>
    obtain ⟨deadline, hd, hle, rfl⟩ := expire_eq_some hs
    refine fun hun => (h hun).concat (fun b hb => by cases hb) fun _ passed hc =>
      ⟨hc.positive, (fun t ht => by cases ht), fun _ => ?_⟩
    have hc := hc.deadline deadline hd
    simp only [DebounceStep.duration]
    omega
  | work =>
    obtain ⟨-, rfl⟩ := work_eq_some hs
    exact fun hun => absurd rfl hun

theorem held_run (h : QuietRun ms history s) : Tracked ms history s ∧ Held ms history s := by
  apply h.invariant (I := fun history s => Tracked ms history s ∧ Held ms history s)
  · rintro _ rfl
    exact ⟨⟨rfl, rfl, rfl, fun h => absurd rfl h⟩, fun h => absurd rfl h⟩
  · rintro history s l t ⟨ht, hh⟩ ⟨hs, hu⟩
    exact ⟨tracked_step ht hs, held_step ht hh hu hs⟩

/-- A stable state is only replaced by one that the raw state has changed to and then kept for the
debounce time in force at the change. -/
theorem stable_held (h : QuietRun ms history s) (hu : s.Undisturbed l) (hs : s.step l = some t)
    (hne : t.stableState ≠ s.stableState) :
    HeldFor ms (history ++ [l]) t.stableState fun interval passed => interval.toNat ≤ passed := by
  obtain ⟨ht, hh⟩ := held_run h
  cases l with
  | update state =>
    cases hs
    obtain ⟨-, he⟩ | ⟨-, -, he⟩ | ⟨hchange, hzero, he⟩ := update_cases s state
    · rw [he] at hne
      exact absurd rfl hne
    · rw [he] at hne
      exact absurd rfl hne
    · rw [he]
      refine ⟨history, [], rfl, ?_, by simp, ?_⟩
      · rw [← ht.raw]
        exact hchange.symm
      · rw [← ht.time]
        exact hzero.le
  | setDebounceTimeMs ms' =>
    cases hs
    exact absurd rfl hne
  | elapse d =>
    cases hs
    exact absurd rfl hne
  | expire =>
    obtain ⟨-, -, -, rfl⟩ := expire_eq_some hs
    exact absurd rfl hne
  | work =>
    obtain ⟨hq, rfl⟩ := work_eq_some hs
    exact (hh hne.symm).concat (fun b hb => by cases hb) fun _ _ hc => hc.queued hq

/-- An input that stays on for ten milliseconds. -/
theorem stable_held_ten : HeldFor 10 [.update true, .elapse 10, .expire, .work] true
    fun interval passed => interval.toNat ≤ passed := by
  have h0 : QuietRun 10 [] { debounceTimeMs := 10 } := .nil rfl
  have h1 := h0.snoc (l := DebounceStep.update true) ⟨rfl, fun h => by cases h⟩
  have h2 := h1.snoc (l := DebounceStep.elapse 10) ⟨rfl, trivial⟩
  have h3 := h2.snoc (l := DebounceStep.expire) ⟨rfl, trivial⟩
  exact stable_held (l := .work) h3 trivial rfl (by decide)

/-- Where no work is left the stable state is the raw one, and without further updates, whatever
has happened, the work that is left makes it so. -/
theorem debounce_settles (h : DebounceRun ms history s) :
    (s.deadline = none → s.queued = false → s.stableState = rawState history) ∧
      ∃ rest t, (∀ state, .update state ∉ rest) ∧ rest.foldlM Debounce.step s = some t ∧
        t.deadline = none ∧ t.queued = false ∧ t.stableState = rawState history ∧
        ∀ deadline, s.deadline = some deadline → elapsed rest = deadline - s.now := by
  have ht := tracked_run h
  have hidle : s.deadline = none → s.queued = false → s.stableState = rawState history := by
    intro hd hq
    rw [← ht.raw]
    by_contra hne
    obtain hp | hp := ht.pending hne
    · rw [hd] at hp
      cases hp
    · rw [hq] at hp
      cases hp
  refine ⟨hidle, ?_⟩
  cases hd : s.deadline with
  | none =>
    cases hq : s.queued with
    | false => exact ⟨[], s, by simp, rfl, hd, hq, hidle hd hq, fun _ h => by cases h⟩
    | true =>
      refine ⟨[.work], { s with queued := false, stableState := s.newState }, by simp, ?_, hd, rfl,
        ht.raw, fun _ h => by cases h⟩
      simp [Debounce.step, Debounce.work, hq]
  | some deadline =>
    refine ⟨[.elapse (deadline - s.now), .expire, .work],
      { s with
        now := s.now + (deadline - s.now), deadline := none, queued := false
        stableState := s.newState }, by simp, ?_, rfl, rfl, ht.raw, fun d h => ?_⟩
    · have hle : deadline ≤ s.now + (deadline - s.now) := by omega
      simp [Debounce.step, Debounce.expire, Debounce.work, hd, hle]
    · cases h
      simp [elapsed, DebounceStep.duration]

theorem debounce_settles_on : ∃ (rest : List DebounceStep) (t : Debounce),
    (∀ state, .update state ∉ rest) ∧
    rest.foldlM Debounce.step (Debounce.update true { debounceTimeMs := 10 }) = some t ∧
      t.stableState = true := by
  have h0 : DebounceRun 10 [] { debounceTimeMs := 10 } := .nil rfl
  have h1 := h0.snoc (l := DebounceStep.update true) rfl
  obtain ⟨rest, t, hn, hf, -, -, ht, -⟩ := (debounce_settles h1).2
  exact ⟨rest, t, hn, hf, ht⟩

end Zlibs.Filters
