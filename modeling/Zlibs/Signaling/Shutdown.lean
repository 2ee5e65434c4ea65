import Zlibs.Lib.Run
import Zlibs.Signaling.Drain

/-! The end of the dispatcher loop: nodes that are still to be put when it reads the empty FIFO for
the last time. -/
namespace Zlibs.Signaling
open Lib

variable {s s' : Dispatch} {t u : Nat} {n node : Node} {l : DispatchLabel}
  {labels : List DispatchLabel}

/-- Shutdown has begun for the dispatcher. -/
def Loop.draining : Loop → Bool
  | .invoke draining _ => draining
  | .release draining _ => draining
  | .drain => true
  | .finish => true
  | .ended => true
  | _ => false

/-- The dispatcher has read the empty FIFO for the last time. -/
def Loop.closed : Loop → Bool
  | .finish => true
  | .ended => true
  | _ => false

/-- The steps that the dispatcher takes before it turns to the next node of the FIFO. -/
def Loop.pace : Loop → Nat
  | .invoke _ _ => 3
  | .release _ _ => 2
  | .check => 1
  | _ => 0

namespace Dispatch

/-- Nobody is about to put a node without asking for the lifecycle again. -/
def Settled (s : Dispatch) : Prop :=
  (∀ t, (s.callers t).committed = false) ∧ s.stopper = .done

/-- What shutdown has done so far. -/
structure Closing (s : Dispatch) : Prop where
  draining : s.loop.draining = true → s.lifecycle ≠ .running
  closed : s.loop.closed = true → s.fifo = [] ∧ s.Settled
  waits : ∀ t call n before, s.callers t = .wait call n before → call = .sync ∨ call = .drain

theorem init_closing (free : Nat) : Closing { free := free } := ⟨nofun, nofun, nofun⟩

/-- What no step of a caller changes, and who may put a node. -/
theorem callerStep_frame (hs : s.callerStep t = some s') :
    s'.lifecycle = s.lifecycle ∧ s'.loop = s.loop ∧ s'.stopper = s.stopper ∧
      (∀ u, u ≠ t → s'.callers u = s.callers u) ∧
      ((s.callers t).committed = false → s'.fifo = s.fifo) ∧
      ((s'.callers t).committed = true → (s.callers t).committed = true ∨ s.lifecycle = .running) ∧
      ∀ call n before, s'.callers t = .wait call n before → call = .sync ∨ call = .drain := by
  have hne : ∀ pc u, u ≠ t → Function.update s.callers t pc u = s.callers u :=
    fun pc u hu => Function.update_of_ne hu ..
  have hwait : ∀ pc : Caller, (∀ call n before, pc = .wait call n before → call = .sync ∨ call = .drain) →
      ∀ call n before, Function.update s.callers t pc t = .wait call n before →
        call = .sync ∨ call = .drain := by
    intro pc hpc call n before hw
    rw [Function.update_self] at hw
    exact hpc call n before hw
  unfold callerStep at hs
  cases hp : s.callers t with
  | allocate call =>
    rw [hp] at hs
    dsimp only at hs
    split_ifs at hs
    · cases hs
      exact ⟨rfl, rfl, rfl, hne _, fun _ => rfl, by simp [goto, Caller.committed],
        hwait _ fun _ _ _ h => by cases h⟩
    · cases call <;> cases hs <;>
        exact ⟨rfl, rfl, rfl, hne _, fun _ => rfl, by simp [goto, takeNode, Caller.committed],
          hwait _ fun _ _ _ h => by cases h⟩
  | unlock call node before =>
    rw [hp] at hs
    cases call <;> cases hs <;>
      exact ⟨rfl, rfl, rfl, hne _, fun _ => rfl, by simp [goto, Caller.committed],
        hwait _ fun call n before hw => by cases hw <;> simp⟩
  | put call node before =>
    rw [hp] at hs
    cases hs
    exact ⟨rfl, rfl, rfl, hne _, (fun h => by cases h), by simp [goto, Caller.committed],
      hwait _ fun _ _ _ h => by cases h⟩
  | lockedCheck call node =>
    rw [hp] at hs
    dsimp only at hs
    split_ifs at hs with hrun <;> cases hs
    · exact ⟨rfl, rfl, rfl, hne _, fun _ => rfl, fun _ => .inr hrun,
        hwait _ fun _ _ _ h => by cases h⟩
    · exact ⟨rfl, rfl, rfl, hne _, fun _ => rfl, by simp [goto, Caller.committed],
        hwait _ fun _ _ _ h => by cases h⟩
    · exact ⟨rfl, rfl, rfl, hne _, fun _ => rfl, by simp [goto, Caller.committed],
        hwait _ fun _ _ _ h => by cases h⟩
  | count call node =>
    rw [hp] at hs
    dsimp only at hs
    split_ifs at hs <;> cases hs <;>
      exact ⟨rfl, rfl, rfl, hne _, (fun h => by cases h), fun _ => .inl rfl,
        hwait _ fun _ _ _ h => by cases h⟩
  | _ =>
    rw [hp] at hs
    dsimp only at hs
    try split_ifs at hs
    all_goals
      cases hs
      try exact ⟨rfl, rfl, rfl, hne _, fun _ => rfl,
        by simp [goto, releaseNode, Caller.committed], hwait _ fun _ _ _ h => by cases h⟩

theorem callerStep_closing (h : s.Closing) (hs : s.callerStep t = some s') : s'.Closing := by
  obtain ⟨hlife, hloop, hstop, hother, hfifo, hcommit, hwait⟩ := callerStep_frame hs
  refine ⟨?_, ?_, ?_⟩
  · rw [hloop, hlife]
    exact h.draining
  · intro hc
    rw [hloop] at hc
    obtain ⟨hf, hsettled, hdone⟩ := h.closed hc
    refine ⟨?_, ?_, by rw [hstop, hdone]⟩
    · rw [hfifo (hsettled t), hf]
    · intro u
      by_cases hu : u = t
      · subst hu
        cases hcu : (s'.callers u).committed with
        | false => rfl
        | true =>
          rcases hcommit hcu with hcu | hrun
          · rw [hsettled u] at hcu
            cases hcu
          · have hdrain : s.loop.draining = true := by
              cases hl : s.loop <;> rw [hl] at hc <;> first | rfl | cases hc
            exact absurd hrun (h.draining hdrain)
      · rw [hother u hu]
        exact hsettled u
  · intro u call n before hw
    by_cases hu : u = t
    · subst hu
      exact hwait call n before hw
    · rw [hother u hu] at hw
      exact h.waits u call n before hw

theorem loopStep_closing (h : s.Closing) (hs : s.loopStep = some s')
    (hlast : s.loop = .drain → s.fifo = [] → s.Settled) : s'.Closing := by
  unfold loopStep at hs
  cases hl : s.loop with
  | get =>
    rw [hl] at hs
    cases hf : s.fifo with
    | nil =>
      rw [hf] at hs
      cases hs
    | cons node rest =>
      rw [hf] at hs
      cases hs
      exact ⟨nofun, nofun, h.waits⟩
  | invoke draining node =>
    rw [hl] at hs
    cases hs
    refine ⟨fun hd => h.draining ?_, nofun, h.waits⟩
    rw [hl]
    exact hd
  | release draining node =>
    rw [hl] at hs
    cases hs
    cases draining with
    | false => exact ⟨nofun, nofun, h.waits⟩
    | true => exact ⟨fun _ => h.draining (by rw [hl]; rfl), nofun, h.waits⟩
  | check =>
    rw [hl] at hs
    cases hs
    split_ifs with hrun
    · exact ⟨fun _ => hrun, nofun, h.waits⟩
    · exact ⟨nofun, nofun, h.waits⟩
  | drain =>
    rw [hl] at hs
    have hd : s.lifecycle ≠ .running := h.draining (by rw [hl]; rfl)
    cases hf : s.fifo with
    | nil =>
      rw [hf] at hs
      cases hs
      exact ⟨fun _ => hd, fun _ => ⟨rfl, hlast hl hf⟩, h.waits⟩
    | cons node rest =>
      rw [hf] at hs
      cases hs
      exact ⟨fun _ => hd, nofun, h.waits⟩
  | finish =>
    rw [hl] at hs
    cases hs
    exact ⟨fun _ => nofun, fun _ => h.closed (by rw [hl]; rfl), h.waits⟩
  | ended =>
    rw [hl] at hs
    cases hs

theorem stopStep_closing (h : s.Closing) (hs : s.stopStep = some s') : s'.Closing := by
  have hopen : s.stopper ≠ .done → s.loop.closed ≠ true := fun hp hc => hp (h.closed hc).2.2
  unfold stopStep at hs
  cases hp : s.stopper with
  | idle =>
    rw [hp] at hs
    cases hs
    exact ⟨fun _ => nofun, fun hc => absurd hc (hopen (by rw [hp]; exact nofun)), h.waits⟩
  | allocate =>
    rw [hp] at hs
    dsimp only at hs
    split_ifs at hs
    cases hs
    exact ⟨h.draining, fun hc => absurd hc (hopen (by rw [hp]; exact nofun)), h.waits⟩
  | put node =>
    rw [hp] at hs
    cases hs
    exact ⟨h.draining, fun hc => absurd hc (hopen (by rw [hp]; exact nofun)), h.waits⟩
  | done =>
    rw [hp] at hs
    cases hs

theorem step_closing (h : s.Closing) (hs : s.step l = some s')
    (hlast : l = .dispatcher → s.loop = .drain → s.fifo = [] → s.Settled) : s'.Closing := by
  cases l with
  | call t call =>
    simp only [step] at hs
    split_ifs at hs with hp
    cases hs
    refine ⟨h.draining, fun hc => ?_, fun u call n before hw => ?_⟩
    · obtain ⟨hf, hsettled, hdone⟩ := h.closed hc
      refine ⟨hf, fun u => ?_, hdone⟩
      by_cases hu : u = t
      · subst hu
        simp [goto, Caller.committed]
      · simp only [goto]
        rw [Function.update_of_ne hu]
        exact hsettled u
    · simp only [goto] at hw
      by_cases hu : u = t
      · subst hu
        rw [Function.update_self] at hw
        cases hw
      · rw [Function.update_of_ne hu] at hw
        exact h.waits u call n before hw
  | caller t => exact callerStep_closing h hs
  | dispatcher => exact loopStep_closing h hs (hlast rfl)
  | stop => exact stopStep_closing h hs

/-- A step that does not end the dispatcher before everybody is settled. -/
def orderly (s : Dispatch) (l : DispatchLabel) (s' : Dispatch) : Prop :=
  s.step l = some s' ∧ (l = .dispatcher → s.loop = .drain → s.fifo = [] → s.Settled)

theorem step_sound_closing (h : s.Sound ∧ s.Closing) (hs : orderly s l s') :
    s'.Sound ∧ s'.Closing :=
  ⟨step_sound h.1 hs.1, step_closing h.2 hs.1 hs.2⟩

/-- A node that has been put is released when the dispatcher has made so many more steps. -/
inductive Due (s : Dispatch) (n : Node) : Nat → Prop
  | used (h : n ∈ s.loop.used) : Due s n 1
  | taken (h : n ∈ s.loop.taken) : Due s n 2
  | queued {i : Nat} (h : s.fifo[i]? = some n) : Due s n (s.loop.pace + 4 * i + 3)

theorem Due.pos {k : Nat} (h : s.Due n k) : 0 < k := by
  cases h <;> omega

theorem Sound.due (h : s.Sound) (hsent : n ∈ s.sent) (hr : n ∉ s.released) :
    ∃ k ≤ 4 * s.fifo.length + 2, s.Due n k := by
  rw [Dispatch.sent, List.mem_append, List.mem_append] at hsent
  rcases hsent with (hn | hn) | hn
  · rcases h.freed n hn with hn | hn
    · exact absurd hn hr
    · exact ⟨1, by omega, .used hn⟩
  · exact ⟨2, by omega, .taken hn⟩
  · obtain ⟨i, hi⟩ := List.mem_iff_getElem?.mp hn
    have hlt := (List.getElem?_eq_some_iff.mp hi).1
    have hpace : s.loop.pace ≤ 3 := by cases s.loop <;> simp [Loop.pace]
    exact ⟨_, by omega, .queued hi⟩

/-- The dispatcher releases the node, or comes closer to it. -/
theorem loopStep_due {k : Nat} (hc : s.Closing) (hd : s.Due n k) (hs : s.loopStep = some s') :
    n ∈ s'.released ∨ ∃ j < k, s'.Due n j := by
  unfold loopStep at hs
  cases hl : s.loop with
  | get =>
    rw [hl] at hs
    cases hf : s.fifo with
    | nil =>
      rw [hf] at hs
      cases hs
    | cons node rest =>
      rw [hf] at hs
      cases hs
      cases hd with
      | used h => rw [hl] at h; cases h
      | taken h => rw [hl] at h; cases h
      | @queued i h =>
        rw [hf] at h
        rw [hl]
        cases i with
        | zero =>
          cases h
          exact .inr ⟨2, by simp [Loop.pace], .taken (List.mem_singleton_self _)⟩
        | succ i => exact .inr ⟨_, by simp [Loop.pace]; omega, .queued h⟩
  | invoke draining node =>
    rw [hl] at hs
    cases hs
    cases hd with
    | used h => rw [hl] at h; cases h
    | taken h =>
      rw [hl] at h
      exact .inr ⟨1, by omega, .used h⟩
    | queued h =>
      rw [hl]
      exact .inr ⟨_, by simp [Loop.pace], .queued h⟩
  | release draining node =>
    rw [hl] at hs
    cases hs
    cases hd with
    | used h =>
      rw [hl] at h
      exact .inl (List.mem_append_right _ h)
    | taken h => rw [hl] at h; cases h
    | queued h =>
      rw [hl]
      exact .inr ⟨_, by cases draining <;> simp [Loop.pace], .queued h⟩
  | check =>
    rw [hl] at hs
    cases hs
    cases hd with
    | used h => rw [hl] at h; cases h
    | taken h => rw [hl] at h; cases h
    | queued h =>
      rw [hl]
      exact .inr ⟨_, by split_ifs <;> simp [Loop.pace], .queued h⟩
  | drain =>
    rw [hl] at hs
    cases hf : s.fifo with
    | nil =>
      cases hd with
      | used h => rw [hl] at h; cases h
      | taken h => rw [hl] at h; cases h
      | queued h => rw [hf] at h; cases h
    | cons node rest =>
      rw [hf] at hs
      cases hs
      cases hd with
      | used h => rw [hl] at h; cases h
      | taken h => rw [hl] at h; cases h
      | @queued i h =>
        rw [hf] at h
        rw [hl]
        cases i with
        | zero =>
          cases h
          exact .inr ⟨2, by simp [Loop.pace], .taken (List.mem_singleton_self _)⟩
        | succ i => exact .inr ⟨_, by simp [Loop.pace]; omega, .queued h⟩
  | finish =>
    have hf := (hc.closed (by rw [hl]; rfl)).1
    cases hd with
    | used h => rw [hl] at h; cases h
    | taken h => rw [hl] at h; cases h
    | queued h => rw [hf] at h; cases h
  | ended =>
    rw [hl] at hs
    cases hs

/-- Nobody but the dispatcher moves it, and nodes are put behind the others. -/
theorem step_behind (hs : s.step l = some s') (hl : l ≠ .dispatcher) :
    s'.loop = s.loop ∧ ∃ more, s'.fifo = s.fifo ++ more := by
  have hturn : ∀ {t}, Turn s t s' → s'.loop = s.loop ∧ ∃ more, s'.fifo = s.fifo ++ more := by
    intro t ht
    refine ⟨ht.loop, ?_⟩
    rcases ht.fifo with ⟨hf, _⟩ | ⟨_, n, _, _, hf, _⟩
    · exact ⟨[], by rw [hf, List.append_nil]⟩
    · exact ⟨[n], hf⟩
  cases l with
  | call t call =>
    simp only [step] at hs
    split_ifs at hs with hp
    cases hs
    exact hturn (call_turn hp)
  | caller t => exact hturn (callerStep_turn hs)
  | dispatcher => exact absurd rfl hl
  | stop =>
    obtain ⟨-, -, -, hloop, -, -, -, ⟨hf, -⟩ | ⟨n, -, hf, -⟩⟩ := stopStep_frame hs
    · exact ⟨hloop, [], by rw [hf, List.append_nil]⟩
    · exact ⟨hloop, [n], hf⟩

/-- Released nodes stay released. -/
theorem step_released (hs : s.step l = some s') : ∀ n ∈ s.released, n ∈ s'.released := by
  cases l with
  | call t call =>
    simp only [step] at hs
    split_ifs at hs
    cases hs
    exact fun _ h => h
  | caller t =>
    simp only [step, callerStep] at hs
    split at hs <;> try split_ifs at hs
    all_goals try (split at hs)
    all_goals
      cases hs
      try simp +contextual [goto, releaseNode, takeNode]
  | dispatcher =>
    simp only [step, loopStep] at hs
    split at hs <;> try split at hs
    all_goals
      cases hs
      try simp +contextual [releaseNode, invokeNode]
  | stop =>
    simp only [step, stopStep] at hs
    split at hs <;> try split_ifs at hs
    all_goals
      cases hs
      try exact fun _ h => h

theorem Due.behind {k : Nat} {more : List Node} (h : s.Due n k) (hl : s'.loop = s.loop)
    (hf : s'.fifo = s.fifo ++ more) : s'.Due n k := by
  cases h with
  | used h => exact .used (hl ▸ h)
  | taken h => exact .taken (hl ▸ h)
  | queued h =>
    rw [← hl]
    refine .queued ?_
    rw [hf, List.getElem?_append_left (List.getElem?_eq_some_iff.mp h).1, h]

/-- However the others step in between, a node that has been put is released by the steps that the
dispatcher needs for the nodes before it. -/
theorem released_in_time (h : s.Sound ∧ s.Closing) (hsent : n ∈ s.sent)
    (hr : Run (· = s) (fun _ => orderly) labels s')
    (hk : 4 * s.fifo.length + 2 ≤ labels.count .dispatcher) :
    s'.Sound ∧ n ∈ s'.sent ∧ n ∈ s'.released := by
  have hrun : (s'.Sound ∧ s'.Closing) ∧ n ∈ s'.sent ∧ (n ∈ s'.released ∨
      ∃ j, s'.Due n j ∧ j + labels.count .dispatcher ≤ 4 * s.fifo.length + 2) := by
    refine hr.invariant (I := fun labels s' => (s'.Sound ∧ s'.Closing) ∧ n ∈ s'.sent ∧
      (n ∈ s'.released ∨
        ∃ j, s'.Due n j ∧ j + labels.count .dispatcher ≤ 4 * s.fifo.length + 2)) ?_ ?_
    · rintro _ rfl
      refine ⟨h, hsent, or_iff_not_imp_left.mpr fun hm => ?_⟩
      obtain ⟨k, hle, hd⟩ := h.1.due hsent hm
      exact ⟨k, hd, by simpa using hle⟩
    · rintro labels u l v ⟨hu, hsent, hcase⟩ hs
      refine ⟨step_sound_closing hu hs, step_sent hs.1 hsent, ?_⟩
      rcases hcase with hm | ⟨j, hj, hle⟩
      · exact .inl (step_released hs.1 n hm)
      · rw [List.count_append]
        by_cases hl : l = .dispatcher
        · subst hl
          rw [List.count_singleton_self]
          rcases loopStep_due hu.2 hj hs.1 with hm | ⟨i, hi, hdue⟩
          · exact .inl hm
          · exact .inr ⟨i, hdue, by omega⟩
        · obtain ⟨hloop, more, hf⟩ := step_behind hs.1 hl
          rw [List.count_eq_zero_of_not_mem (l := [l]) (by simpa using Ne.symm hl)]
          exact .inr ⟨j, hj.behind hloop hf, hle⟩
  obtain ⟨⟨hsound, -⟩, hsent, hm | ⟨j, hj, hle⟩⟩ := hrun
  · exact ⟨hsound, hsent, hm⟩
  · have := hj.pos
    omega

/-- Every accepted node is invoked once and then released, by the steps that the dispatcher needs
for the nodes before it, and the dispatcher can make them; every refused one is released and not
invoked, and the end of the dispatcher leaves nothing behind. -/
structure Delivered (s : Dispatch) : Prop where
  served : ∀ n ∈ s.accepted, ∀ labels s', Run (· = s) (fun _ => orderly) labels s' →
    4 * s.fifo.length + 2 ≤ labels.count .dispatcher →
      s'.invoked.count n = 1 ∧ s'.released.count n = 1
  goesOn : ∀ n ∈ s.accepted, n ∉ s.released → ∃ s', orderly s .dispatcher s'
  once : ∀ n ∈ s.accepted, s.invoked.count n ≤ 1 ∧ s.released.count n ≤ s.invoked.count n
  refused : ∀ n ∈ s.refused, n ∉ s.invoked ∧ (n ∈ s.released ∨ ∃ t, s.callers t = .release n)
  emptied : s.loop = .ended → s.fifo = [] ∧ s.stopper = .done
  woken : s.loop = .ended → ∀ t call n before, s.callers t = .wait call n before → s.done t = true

theorem Sound.invoked_once (h : s.Sound) (n : Node) : s.invoked.count n ≤ 1 := by
  have hnodup := h.nodup
  rw [Dispatch.sent, List.append_assoc] at hnodup
  exact List.nodup_iff_count_le_one.mp (List.nodup_append.mp hnodup).1 n

/-- A node that has been put and released has been invoked before. -/
theorem Sound.released_once (h : s.Sound) (hsent : n ∈ s.sent) (hr : n ∈ s.released) :
    s.invoked.count n = 1 ∧ s.released.count n = 1 := by
  have hpos := List.count_pos_iff.mpr (h.released n hr hsent)
  have hle := h.invoked_once n
  exact ⟨by omega, List.count_eq_one_of_mem h.releasedNodup hr⟩

theorem Due.not_empty {k : Nat} (hd : s.Due n k)
    (hl : s.loop = .get ∨ s.loop = .drain ∨ s.loop = .ended) : s.fifo ≠ [] := by
  intro hf
  cases hd with
  | used h => rcases hl with hl | hl | hl <;> rw [hl] at h <;> cases h
  | taken h => rcases hl with hl | hl | hl <;> rw [hl] at h <;> cases h
  | queued h =>
    rw [hf] at h
    cases h

/-- Until a node is released, the dispatcher is neither waiting nor at its end. -/
theorem Due.goesOn {k : Nat} (hd : s.Due n k) (hc : s.Closing) : ∃ s', orderly s .dispatcher s' := by
  have hsome : s.loopStep ≠ none := by
    unfold loopStep
    cases hl : s.loop with
    | get =>
      cases hf : s.fifo with
      | nil => exact absurd hf (hd.not_empty (.inl hl))
      | cons node rest => exact Option.some_ne_none _
    | drain => cases s.fifo <;> exact Option.some_ne_none _
    | ended => exact absurd (hc.closed (by rw [hl]; rfl)).1 (hd.not_empty (.inr (.inr hl)))
    | _ => exact Option.some_ne_none _
  obtain ⟨s', hs⟩ := Option.ne_none_iff_exists'.mp hsome
  exact ⟨s', hs, fun _ hl hf => absurd hf (hd.not_empty (.inr (.inl hl)))⟩

theorem delivered (h : s.Sound) (hc : s.Closing) : s.Delivered := by
  refine ⟨?_, ?_, ?_, ?_, ?_, ?_⟩
  · intro n hn labels s' hr hk
    obtain ⟨hsound, hsent, hm⟩ := released_in_time ⟨h, hc⟩ (h.accepted n hn) hr hk
    exact hsound.released_once hsent hm
  · intro n hn hr
    obtain ⟨k, -, hd⟩ := h.due (h.accepted n hn) hr
    exact hd.goesOn hc
  · intro n hn
    refine ⟨h.invoked_once n, ?_⟩
    by_cases hr : n ∈ s.released
    · obtain ⟨hi, hone⟩ := h.released_once (h.accepted n hn) hr
      omega
    · rw [List.count_eq_zero_of_not_mem hr]
      exact Nat.zero_le _
  · intro n hn
    obtain ⟨_, hsent, hr⟩ := h.refused n hn
    refine ⟨fun hm => hsent ?_, hr⟩
    exact List.mem_append_left _ (List.mem_append_left _ hm)
  · intro hl
    obtain ⟨hf, _, hdone⟩ := hc.closed (by rw [hl]; rfl)
    exact ⟨hf, hdone⟩
  · intro hl t call n before hp
    obtain ⟨hcaller, hwork, hsent, hd⟩ := h.waiting t call n (by rw [hp]; rfl)
    rw [Dispatch.sent, hl, (hc.closed (by rw [hl]; rfl)).1] at hsent
    apply hd (by simpa [Loop.taken] using hsent)
    rcases hc.waits t call n before hp with rfl | rfl <;> simp [Dispatch.woken, hwork, hcaller, Call.work]

/-- The steps that cannot end the dispatcher. -/
def guarded (s : Dispatch) (l : DispatchLabel) : Option Dispatch :=
  if l = .dispatcher ∧ s.loop = .drain ∧ s.fifo = [] then none else s.step l

theorem orderly_of_guarded (hs : s.guarded l = some s') : orderly s l s' := by
  unfold guarded at hs
  split_ifs at hs with hlast
  exact ⟨hs, fun h1 h2 h3 => absurd ⟨h1, h2, h3⟩ hlast⟩

theorem run_sound_closing {free : Nat}
    (hr : Run (· = { free := free }) (fun _ => orderly) labels s) : s.Sound ∧ s.Closing := by
  refine hr.invariant (I := fun _ s => s.Sound ∧ s.Closing) ?_ ?_
  · rintro _ rfl
    exact ⟨init_sound free, init_closing free⟩
  · exact fun _ _ _ _ h hs => step_sound_closing h hs

end Dispatch

open Dispatch

/-- All along a run in which the dispatcher reads the empty FIFO for the last time only once nobody
is about to put a node, the nodes of the callers are delivered. -/
theorem nodes_delivered {free : Nat}
    (hr : Run (· = { free := free }) (fun _ => orderly) labels s) : s.Delivered := by
  obtain ⟨h, hc⟩ := run_sound_closing hr
  exact delivered h hc

/-- One thread dispatches a job and waits for it, then the dispatcher is stopped. -/
theorem nodes_delivered_sync : ∃ s : Dispatch, s.loop = .ended ∧
    s.accepted = [⟨0, .sync, some 0⟩] ∧
    s.released = [⟨0, .sync, some 0⟩, ⟨1, .noop, none⟩] ∧ s.Delivered := by
  have hbefore : Run (· = ({ free := 1 } : Dispatch)) (fun _ s l s' => guarded s l = some s')
      (.call 0 .sync :: List.replicate 8 (.caller 0) ++ List.replicate 4 .dispatcher ++
        [.caller 0] ++ List.replicate 3 .stop ++ List.replicate 4 .dispatcher) _ :=
    .of_foldlM rfl rfl
  have hr := hbefore.mono (fun _ h => h) fun _ _ _ _ hs => orderly_of_guarded hs
  have hdrain := hr.snoc (l := .dispatcher)
    ⟨rfl, fun _ _ _ => ⟨fun t => by cases t <;> rfl, rfl⟩⟩
  have hfinish := hdrain.snoc (l := .dispatcher) ⟨rfl, nofun⟩
  exact ⟨_, rfl, rfl, rfl, nodes_delivered hfinish⟩

/-- A thread finds the dispatcher running, the dispatcher ends, and the thread puts its node and
waits for it. -/
theorem node_left_behind : ∃ (labels : List DispatchLabel) (s : Dispatch),
    labels.foldlM step ({ free := 2 } : Dispatch) = some s ∧
    s.loop = .ended ∧ s.accepted = [⟨0, .sync, some 0⟩] ∧ s.fifo = [⟨0, .sync, some 0⟩] ∧
    s.invoked = [⟨1, .noop, none⟩] ∧ s.callers 0 = .wait .sync ⟨0, .sync, some 0⟩ 0 ∧
    s.done 0 = false ∧ ¬ s.Delivered :=
  ⟨.call 0 .sync :: List.replicate 5 (.caller 0) ++ List.replicate 3 .stop ++
      List.replicate 6 .dispatcher ++ List.replicate 3 (.caller 0),
    _, rfl, rfl, rfl, rfl, rfl, rfl, rfl, fun h => nomatch (h.emptied rfl).1⟩

end Zlibs.Signaling
