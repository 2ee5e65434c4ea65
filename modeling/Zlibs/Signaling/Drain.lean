import Zlibs.Signaling.ExactlyOnce

/-! The drain of the dispatcher: equal generations before and after its barrier mean that the
dispatcher had nothing to do at an instant in between. -/
namespace Zlibs.Signaling

variable {s s' : Dispatch} {t u i j k n : Nat} {node b : Node} {g : Nat} {l : DispatchLabel}

/-- The generation counts the node. -/
def Work.counted : Work → Bool
  | .publish => true
  | .replay => true
  | .sync => true
  | _ => false

/-- The barrier of a drain, from the reading of the generation to the end of its wait. -/
def Caller.barrier : Caller → Option (Node × Nat)
  | .put .drain node before => some (node, before)
  | .unlock .drain node before => some (node, before)
  | .wait .drain node before => some (node, before)
  | _ => none

/-- The generation that a drain has read before its barrier. -/
def Caller.before : Caller → Option Nat
  | .put .drain _ before => some before
  | .unlock .drain _ before => some before
  | .wait .drain _ before => some before
  | .acquireAfter before => some before
  | .readAfter before => some before
  | _ => none

/-- The caller has counted its node and not put it yet. -/
def Caller.counting : Caller → Bool
  | .put .drain _ _ => false
  | .put _ _ _ => true
  | _ => false

namespace Dispatch

/-- No publish, replay or dispatch_sync job is queued or being executed. -/
def Quiescent (s : Dispatch) : Prop := ∀ n ∈ s.loop.taken ++ s.fifo, n.work.counted = false

/-- What a step of a caller does. -/
structure Turn (s : Dispatch) (t : Nat) (s' : Dispatch) : Prop where
  loop : s'.loop = s.loop
  stopper : s'.stopper = s.stopper
  invoked : s'.invoked = s.invoked
  others : ∀ u, u ≠ t → s'.callers u = s.callers u
  lock : s'.lock = s.lock ∧ ((s'.callers t).locked = true → (s.callers t).locked = true) ∨
    s.lock = none ∧ s'.lock = some t ∨ (s.callers t).locked = true ∧ (s'.callers t).locked = false
  generation : s'.generation = s.generation ∨
    s'.generation = s.generation + 1 ∧ (s'.callers t).barrier = none
  counting : (s'.callers t).counting = true → s'.generation = s.generation + 1
  before : ∀ g, (s'.callers t).before = some g →
    (s.callers t).before = some g ∨ g = s.generation
  barrier : ∀ b g, (s'.callers t).barrier = some (b, g) → (s.callers t).barrier = some (b, g) ∨
    g = s.generation ∧ s'.fifo = s.fifo ∧ (s.callers t).locked = true ∧ (s.callers t).held = some b
  fifo : s'.fifo = s.fifo ∧ ((s'.callers t).sent = none ∨ (s'.callers t).sent = (s.callers t).sent) ∨
    ∃ call n g, s.callers t = .put call n g ∧ s'.fifo = s.fifo ++ [n] ∧ s'.callers t = .unlock call n g
  done : ∀ u, s'.done u = true → s.done u = true
  leave : (s'.callers t).sent = none → ∀ call n, (s.callers t).sent = some (call, n) →
    call = .publish ∨ call = .replay ∨ s.done t = true ∧ s'.done t = false
  acquireAfter : ∀ g, s'.callers t = .acquireAfter g → s'.generation = s.generation ∧
    ∃ b, (s.callers t).barrier = some (b, g) ∧ (s.callers t).sent = some (.drain, b) ∧ s.done t = true
  readAfter : ∀ g, s'.callers t = .readAfter g → s'.generation = s.generation ∧
    s.callers t = .acquireAfter g
  unlockAfter : ∀ g a, s'.callers t = .unlockAfter g a → s.callers t = .readAfter g ∧
    a = s.generation

theorem callerStep_turn (hs : s.callerStep t = some s') : Turn s t s' := by
  have hne : ∀ pc u, u ≠ t → Function.update s.callers t pc u = s.callers u :=
    fun pc u hu => Function.update_of_ne hu ..
  have hdone : ∀ u, Function.update s.done t false u = true → s.done u = true := by
    intro u hu
    by_cases hut : u = t
    · subst hut
      rw [Function.update_self] at hu
      cases hu
    · rwa [Function.update_of_ne hut] at hu
  unfold callerStep at hs
  cases hp : s.callers t with
  | allocate call =>
    rw [hp] at hs
    dsimp only at hs
    split_ifs at hs
    · cases hs
      constructor <;> simp_all [goto, Caller.barrier, Caller.before, Caller.counting, Caller.locked,
        Caller.sent]
    · cases call <;> cases hs <;> constructor <;> simp_all [goto, takeNode, Caller.barrier,
        Caller.before, Caller.counting, Caller.locked, Caller.sent]
  | put call node before =>
    rw [hp] at hs
    cases hs
    cases call <;> constructor <;> simp_all [goto, Caller.barrier, Caller.before, Caller.counting,
      Caller.locked, Caller.sent]
  | unlock call node before =>
    rw [hp] at hs
    cases call <;> cases hs <;> constructor <;> simp_all [goto, Caller.barrier, Caller.before,
      Caller.counting, Caller.locked, Caller.sent]
  | _ =>
    rw [hp] at hs
    dsimp only at hs
    try split_ifs at hs
    all_goals
      cases hs
      try constructor
      all_goals simp_all [goto, releaseNode, Caller.barrier, Caller.before, Caller.counting,
        Caller.locked, Caller.sent, Caller.held]

/-- Only the thread that holds the lock is in a locked section. -/
def Exclusive (s : Dispatch) : Prop := ∀ t, (s.callers t).locked = true → s.lock = some t

theorem Exclusive.turn (h : s.Exclusive) (ht : Turn s t s') : s'.Exclusive := by
  intro u hu
  by_cases hut : u = t
  · subst hut
    rcases ht.lock with ⟨hl, hk⟩ | ⟨_, hl⟩ | ⟨_, hl⟩
    · rw [hl]
      exact h u (hk hu)
    · exact hl
    · rw [hl] at hu
      cases hu
  · rw [ht.others u hut] at hu
    have hlu := h u hu
    rcases ht.lock with ⟨hl, _⟩ | ⟨hl, _⟩ | ⟨hl, _⟩
    · rw [hl, hlu]
    · rw [hlu] at hl
      cases hl
    · rw [h t hl] at hlu
      cases hlu
      exact absurd rfl hut

/-- The semaphores of the threads: a thread that is to be woken waits for its node, and it is woken
by that node. -/
structure Wakes (s : Dispatch) : Prop where
  queued : ∀ n ∈ s.loop.taken ++ s.fifo, ∀ t, woken n = some t →
    ∃ call, (s.callers t).sent = some (call, n)
  done : ∀ t, s.done t = true →
    ∃ call n, (s.callers t).sent = some (call, n) ∧ n ∈ s.invoked ∧ woken n = some t

theorem Sound.not_woken (h : s.Sound) {call : Call} (hsent : (s.callers t).sent = some (call, node))
    (hcall : call = .publish ∨ call = .replay) : woken node = none := by
  have hwork := (h.waiting t call node hsent).2.1
  rcases hcall with rfl | rfl <;> simp [woken, hwork, Call.work]

theorem Sound.not_invoked (h : s.Sound) (hn : node ∈ s.loop.taken ++ s.fifo) : node ∉ s.invoked := by
  have hnodup := h.nodup
  rw [Dispatch.sent, List.append_assoc] at hnodup
  exact fun hm => List.disjoint_of_nodup_append hnodup hm hn

theorem woken_caller (h : woken node = some t) : node.caller = some t := by
  unfold woken at h
  cases hw : node.work <;> rw [hw] at h <;> first | exact h | cases h

theorem Wakes.turn (h : s.Wakes) (hsound : s.Sound) (ht : Turn s t s') : s'.Wakes := by
  -- A thread that leaves its node is not to be woken, or has been.
  have hleave : ∀ call n, (s.callers t).sent = some (call, n) → woken n = some t →
      (s'.callers t).sent = none → s.done t = true ∧ s'.done t = false := by
    intro call n hsent hw hnone
    rcases ht.leave hnone call n hsent with hcall | hcall | hd
    · rw [hsound.not_woken hsent (.inl hcall)] at hw
      cases hw
    · rw [hsound.not_woken hsent (.inr hcall)] at hw
      cases hw
    · exact hd
  refine ⟨?_, ?_⟩
  · intro n hn u hw
    rw [ht.loop] at hn
    by_cases hut : u = t
    · subst hut
      rcases ht.fifo with ⟨hf, hsent⟩ | ⟨call, m, g, hput, hf, hun⟩
      · rw [hf] at hn
        obtain ⟨call, hold⟩ := h.queued n hn u hw
        rcases hsent with hnone | hsame
        · obtain ⟨hd, _⟩ := hleave call n hold hw hnone
          obtain ⟨call', m, hm, hinv, _⟩ := h.done u hd
          rw [hold] at hm
          cases hm
          exact absurd hinv (hsound.not_invoked hn)
        · exact ⟨call, by rw [hsame, hold]⟩
      · rw [hf, ← List.append_assoc] at hn
        rcases List.mem_append.mp hn with hn | hn
        · obtain ⟨call', hold⟩ := h.queued n hn u hw
          rw [hput] at hold
          cases hold
        · rw [List.mem_singleton.mp hn, hun]
          exact ⟨call, rfl⟩
    · rw [ht.others u hut]
      rcases ht.fifo with ⟨hf, _⟩ | ⟨call, m, g, hput, hf, _⟩
      · rw [hf] at hn
        exact h.queued n hn u hw
      · rw [hf, ← List.append_assoc] at hn
        rcases List.mem_append.mp hn with hn | hn
        · exact h.queued n hn u hw
        · rw [List.mem_singleton.mp hn] at hw
          have hm := (hsound.held t m (by rw [hput]; rfl)).1
          rw [woken_caller hw] at hm
          cases hm
          exact absurd rfl hut
  · intro u hd
    obtain ⟨call, n, hsent, hinv, hw⟩ := h.done u (ht.done u hd)
    rw [ht.invoked]
    by_cases hut : u = t
    · subst hut
      rcases ht.fifo with ⟨_, hnone | hsame⟩ | ⟨_, _, _, hput, _, _⟩
      · obtain ⟨_, hnot⟩ := hleave call n hsent hw hnone
        rw [hd] at hnot
        cases hnot
      · exact ⟨call, n, by rw [hsame, hsent], hinv, hw⟩
      · rw [hput] at hsent
        cases hsent
    · rw [ht.others u hut]
      exact ⟨call, n, hsent, hinv, hw⟩

/-- A barrier whose generation still stands has no job behind it, and none is about to come. -/
structure Ordered (s : Dispatch) : Prop where
  noop : ∀ n, s.stopper = .put n → n.work = .noop
  before : ∀ t g, (s.callers t).before = some g → g ≤ s.generation
  clear : ∀ t b g, (s.callers t).barrier = some (b, g) → s.generation = g → b ∉ s.invoked →
    (∀ pre post, s.sent = pre ++ b :: post → ∀ m ∈ post, m.work.counted = false) ∧
      ∀ u, (s.callers u).counting = false

theorem before_of_barrier {pc : Caller} (h : pc.barrier = some (b, g)) : pc.before = some g := by
  unfold Caller.barrier at h
  split at h <;> cases h <;> rfl

theorem locked_of_counting {pc : Caller} (h : pc.counting = true) : pc.locked = true := by
  unfold Caller.counting at h
  split at h <;> first | rfl | cases h

theorem barrier_of_put {pc : Caller} (h : pc.barrier = some (b, g)) :
    pc.held = some b ∧ pc.call = some .drain ∨ pc.sent = some (.drain, b) := by
  unfold Caller.barrier at h
  split at h <;> cases h
  · exact .inl ⟨rfl, rfl⟩
  · exact .inr rfl
  · exact .inr rfl

/-- What is behind a node when one more node has come. -/
theorem behind_append {l pre post : List Node} {P : Node → Prop}
    (hl : ∀ pre post, l = pre ++ b :: post → ∀ m ∈ post, P m) (hn : P node)
    (h : l ++ [node] = pre ++ b :: post) : ∀ m ∈ post, P m := by
  intro m hm
  rcases List.eq_nil_or_concat post with rfl | ⟨post, x, rfl⟩
  · cases hm
  · have hsplit : l ++ [node] = (pre ++ b :: post) ++ [x] := by simpa using h
    obtain ⟨hl', hx⟩ := List.append_inj' hsplit rfl
    cases hx
    rw [List.concat_eq_append] at hm
    rcases List.mem_append.mp hm with hm | hm
    · exact hl pre post hl' m hm
    · rw [List.mem_singleton.mp hm]
      exact hn

theorem Ordered.turn (h : s.Ordered) (hsound : s.Sound) (hex : s.Exclusive) (ht : Turn s t s') :
    s'.Ordered := by
  have hmono : s.generation ≤ s'.generation := by
    rcases ht.generation with hg | ⟨hg, _⟩ <;> omega
  refine ⟨?_, ?_, ?_⟩
  · rw [ht.stopper]
    exact h.noop
  · intro u g hg
    by_cases hut : u = t
    · subst hut
      rcases ht.before g hg with hg | hg
      · exact (h.before u g hg).trans hmono
      · omega
    · rw [ht.others u hut] at hg
      exact (h.before u g hg).trans hmono
  · intro u b g hb hg hinv
    rw [ht.invoked] at hinv
    -- The generation has not changed: it would have passed the one of the barrier.
    have hsame : s'.generation = s.generation := by
      rcases ht.generation with hs | ⟨hs, hnone⟩
      · exact hs
      · by_cases hut : u = t
        · subst hut
          rw [hnone] at hb
          cases hb
        · rw [ht.others u hut] at hb
          have := h.before u g (before_of_barrier hb)
          omega
    have hnew : (s'.callers t).counting = false := by
      cases hc : (s'.callers t).counting with
      | false => rfl
      | true =>
        have := ht.counting hc
        omega
    have hold : (s.callers u).barrier = some (b, g) ∨ u = t ∧ s'.fifo = s.fifo ∧
        (s.callers t).locked = true ∧ (s.callers t).held = some b := by
      by_cases hut : u = t
      · subst hut
        rcases ht.barrier b g hb with hb | ⟨_, hf, hl, hh⟩
        · exact .inl hb
        · exact .inr ⟨rfl, hf, hl, hh⟩
      · rw [ht.others u hut] at hb
        exact .inl hb
    have hsent : s'.fifo = s.fifo → s'.sent = s.sent := by
      intro hf
      rw [Dispatch.sent, ht.invoked, ht.loop, hf, Dispatch.sent]
    rcases hold with hb | ⟨rfl, hf, hlocked, hheld⟩
    · obtain ⟨hclear, hcount⟩ := h.clear u b g hb (by omega) hinv
      refine ⟨?_, ?_⟩
      · rcases ht.fifo with ⟨hf, _⟩ | ⟨call, n, g', hput, hf, _⟩
        · rw [hsent hf]
          exact hclear
        · intro pre post hs
          rw [Dispatch.sent, ht.invoked, ht.loop, hf, ← List.append_assoc, ← Dispatch.sent] at hs
          have hwork := (hsound.held t n (by rw [hput]; rfl)).2.2.2.2 call (by rw [hput]; rfl)
          have hcall := hcount t
          rw [hput] at hcall
          refine behind_append hclear ?_ hs
          cases call with
          | drain =>
            rw [hwork]
            rfl
          | _ => cases hcall
      · intro v
        by_cases hvt : v = t
        · rw [hvt, hnew]
        · rw [ht.others v hvt]
          exact hcount v
    · have hfresh := (hsound.held u b hheld).2.2.1
      refine ⟨?_, ?_⟩
      · intro pre post hs
        rw [hsent hf] at hs
        rw [hs] at hfresh
        exact absurd (by simp) hfresh
      · intro v
        by_cases hvt : v = u
        · rw [hvt, hnew]
        · rw [ht.others v hvt]
          cases hc : (s.callers v).counting with
          | false => rfl
          | true =>
            have hv := hex v (locked_of_counting hc)
            rw [hex u hlocked] at hv
            cases hv
            exact absurd rfl hvt

/-- What every reachable state keeps. -/
structure Kept (s : Dispatch) : Prop where
  sound : s.Sound
  exclusive : s.Exclusive
  wakes : s.Wakes
  ordered : s.Ordered

theorem init_kept (free : Nat) : Kept { free := free } := by
  refine ⟨init_sound free, nofun, ⟨nofun, nofun⟩, nofun, nofun, nofun⟩

theorem call_turn {call : Call} (hp : s.callers t = .idle) : Turn s t (s.goto t (.check call)) := by
  have hne : ∀ pc u, u ≠ t → Function.update s.callers t pc u = s.callers u :=
    fun pc u hu => Function.update_of_ne hu ..
  constructor <;> simp_all [goto, Caller.barrier, Caller.before, Caller.counting, Caller.locked,
    Caller.sent]

/-- What the dispatcher leaves as it is, and the node that it invokes. -/
theorem loopStep_frame (hs : s.loopStep = some s') :
    s'.callers = s.callers ∧ s'.lock = s.lock ∧ s'.generation = s.generation ∧
      s'.stopper = s.stopper ∧ s'.sent = s.sent ∧ s'.accepted = s.accepted ∧
      ((s'.invoked = s.invoked ∧ s'.done = s.done ∧
          s'.loop.taken ++ s'.fifo = s.loop.taken ++ s.fifo) ∨
        ∃ draining n, s.loop = .invoke draining n ∧ s' = { s.invokeNode n with loop := .release draining n }) := by
  unfold loopStep at hs
  cases hl : s.loop with
  | get =>
    rw [hl] at hs
    cases hf : s.fifo with
    | nil =>
      rw [hf] at hs
      cases hs
    | cons node rest =>
      rw [hf] at hs
      cases hs
      simp [Dispatch.sent, hl, hf, Loop.taken]
  | invoke draining node =>
    rw [hl] at hs
    cases hs
    refine ⟨rfl, rfl, rfl, rfl, ?_, rfl, .inr ⟨draining, node, rfl, rfl⟩⟩
    simp [Dispatch.sent, hl, Loop.taken, invokeNode]
  | release draining node =>
    rw [hl] at hs
    cases hs
    cases draining <;> simp [Dispatch.sent, hl, Loop.taken, releaseNode]
  | check =>
    rw [hl] at hs
    cases hs
    split_ifs <;> simp [Dispatch.sent, hl, Loop.taken]
  | drain =>
    rw [hl] at hs
    cases hf : s.fifo with
    | nil =>
      rw [hf] at hs
      cases hs
      simp [Dispatch.sent, hl, hf, Loop.taken]
    | cons node rest =>
      rw [hf] at hs
      cases hs
      simp [Dispatch.sent, hl, hf, Loop.taken]
  | finish =>
    rw [hl] at hs
    cases hs
    simp [Dispatch.sent, hl, Loop.taken]
  | ended =>
    rw [hl] at hs
    cases hs

theorem stopStep_frame (hs : s.stopStep = some s') :
    s'.callers = s.callers ∧ s'.lock = s.lock ∧ s'.generation = s.generation ∧
      s'.loop = s.loop ∧ s'.invoked = s.invoked ∧ s'.done = s.done ∧ s'.accepted = s.accepted ∧
      ((s'.fifo = s.fifo ∧ ∀ n, s'.stopper = .put n → n.work = .noop) ∨
        ∃ n, s.stopper = .put n ∧ s'.fifo = s.fifo ++ [n] ∧ s'.stopper = .done) := by
  unfold stopStep at hs
  cases hp : s.stopper with
  | idle =>
    rw [hp] at hs
    cases hs
    exact ⟨rfl, rfl, rfl, rfl, rfl, rfl, rfl, .inl ⟨rfl, nofun⟩⟩
  | allocate =>
    rw [hp] at hs
    dsimp only at hs
    split_ifs at hs
    cases hs
    refine ⟨rfl, rfl, rfl, rfl, rfl, rfl, rfl, .inl ⟨rfl, ?_⟩⟩
    intro n hn
    cases hn
    rfl
  | put node =>
    rw [hp] at hs
    cases hs
    exact ⟨rfl, rfl, rfl, rfl, rfl, rfl, rfl, .inr ⟨node, rfl, rfl, rfl⟩⟩
  | done =>
    rw [hp] at hs
    cases hs

theorem loopStep_kept (h : s.Kept) (hs : s.loopStep = some s') : s'.Kept := by
  obtain ⟨hc, hl, hg, hst, hsent, _, hcase⟩ := loopStep_frame hs
  have hinv : ∀ n ∈ s.invoked, n ∈ s'.invoked := by
    intro n hn
    rcases hcase with ⟨hi, _⟩ | ⟨draining, m, _, rfl⟩
    · rw [hi]
      exact hn
    · exact List.mem_append_left _ hn
  refine ⟨loopStep_sound h.sound hs, ?_, ⟨?_, ?_⟩, ?_, ?_, ?_⟩
  · intro t
    rw [hc, hl]
    exact h.exclusive t
  · intro n hn t hw
    rw [hc]
    apply h.wakes.queued n _ t hw
    rcases hcase with ⟨_, _, hq⟩ | ⟨draining, m, hm, rfl⟩
    · rw [← hq]
      exact hn
    · exact List.mem_append_right _ hn
  · intro t hd
    rw [hc]
    rcases hcase with ⟨hi, hdone, _⟩ | ⟨draining, m, hm, rfl⟩
    · rw [hdone] at hd
      rw [hi]
      exact h.wakes.done t hd
    · rcases Bool.or_eq_true_iff.mp hd with hd | hd
      · obtain ⟨call, n, h1, h2, h3⟩ := h.wakes.done t hd
        exact ⟨call, n, h1, hinv n h2, h3⟩
      · have hw := of_decide_eq_true hd
        obtain ⟨call, h1⟩ := h.wakes.queued m (by rw [hm]; exact List.mem_append_left _ (List.mem_singleton_self m)) t hw
        exact ⟨call, m, h1, List.mem_append_right _ (List.mem_singleton_self m), hw⟩
  · rw [hst]
    exact h.ordered.noop
  · rw [hc, hg]
    exact h.ordered.before
  · intro t b g hb hgen hni
    rw [hc] at hb
    rw [hg] at hgen
    rw [hsent, hc]
    exact h.ordered.clear t b g hb hgen fun hm => hni (hinv b hm)

theorem stopStep_kept (h : s.Kept) (hs : s.stopStep = some s') : s'.Kept := by
  obtain ⟨hc, hl, hg, hloop, hinv, hdone, _, hcase⟩ := stopStep_frame hs
  refine ⟨stopStep_sound h.sound hs, ?_, ⟨?_, ?_⟩, ?_, ?_, ?_⟩
  · intro t
    rw [hc, hl]
    exact h.exclusive t
  · intro n hn t hw
    rw [hc]
    rw [hloop] at hn
    rcases hcase with ⟨hf, _⟩ | ⟨m, hm, hf, _⟩
    · rw [hf] at hn
      exact h.wakes.queued n hn t hw
    · rw [hf, ← List.append_assoc] at hn
      rcases List.mem_append.mp hn with hn | hn
      · exact h.wakes.queued n hn t hw
      · rw [List.mem_singleton.mp hn] at hw
        have hcaller := woken_caller hw
        rw [(h.sound.noop m hm).1] at hcaller
        cases hcaller
  · rw [hc, hinv, hdone]
    exact h.wakes.done
  · intro n hn
    rcases hcase with ⟨_, hnoop⟩ | ⟨_, _, _, hst⟩
    · exact hnoop n hn
    · rw [hst] at hn
      cases hn
  · rw [hc, hg]
    exact h.ordered.before
  · intro t b g hb hgen hni
    rw [hc] at hb
    rw [hg] at hgen
    rw [hinv] at hni
    rw [hc]
    obtain ⟨hclear, hcount⟩ := h.ordered.clear t b g hb hgen hni
    refine ⟨?_, hcount⟩
    rcases hcase with ⟨hf, _⟩ | ⟨m, hm, hf, _⟩
    · rw [Dispatch.sent, hinv, hloop, hf]
      exact hclear
    · intro pre post hsplit
      rw [Dispatch.sent, hinv, hloop, hf, ← List.append_assoc, ← Dispatch.sent] at hsplit
      apply behind_append hclear _ hsplit
      rw [h.ordered.noop m hm]
      rfl

theorem Kept.turn (h : s.Kept) (hsound : s'.Sound) (ht : Turn s t s') : s'.Kept :=
  ⟨hsound, h.exclusive.turn ht, h.wakes.turn h.sound ht, h.ordered.turn h.sound h.exclusive ht⟩

theorem step_kept (h : s.Kept) (hs : s.step l = some s') : s'.Kept := by
  have hsound := step_sound h.sound hs
  cases l with
  | call t call =>
    simp only [step] at hs
    split_ifs at hs with hp
    cases hs
    exact h.turn hsound (call_turn hp)
  | caller t => exact h.turn hsound (callerStep_turn hs)
  | dispatcher => exact loopStep_kept h hs
  | stop => exact stopStep_kept h hs

/-- `Q` has come about if the drain of a thread finds equal generations, as far as it has got. -/
structure Witnessed (s : Dispatch) (t : Nat) (Q : Prop) : Prop where
  barrier : ∀ b g, (s.callers t).barrier = some (b, g) → s.generation = g → b ∈ s.invoked → Q
  after : ∀ g, s.callers t = .acquireAfter g ∨ s.callers t = .readAfter g → s.generation = g → Q
  equal : ∀ g, s.callers t = .unlockAfter g g → Q

variable {Q : Prop}

/-- The thread of the drain makes the step. -/
theorem Witnessed.turn (h : s.Witnessed t Q) (hk : s.Kept) (ht : Turn s t s') :
    s'.Witnessed t Q := by
  refine ⟨?_, ?_, ?_⟩
  · intro b g hb hg hi
    rw [ht.invoked] at hi
    rcases ht.barrier b g hb with hold | ⟨_, _, _, hheld⟩
    · rcases ht.generation with hs | ⟨_, hnone⟩
      · exact h.barrier b g hold (hs ▸ hg) hi
      · rw [hnone] at hb
        cases hb
    · exact absurd (List.mem_append_left _ (List.mem_append_left _ hi)) (hk.sound.held t b hheld).2.2.1
  · intro g hp hg
    rcases hp with hp | hp
    · obtain ⟨hs, b, hb, hsent, hd⟩ := ht.acquireAfter g hp
      obtain ⟨call, n, hn, hi, _⟩ := hk.wakes.done t hd
      rw [hsent] at hn
      cases hn
      exact h.barrier b g hb (hs ▸ hg) hi
    · obtain ⟨hs, hold⟩ := ht.readAfter g hp
      exact h.after g (.inl hold) (hs ▸ hg)
  · intro g hp
    obtain ⟨hold, hg⟩ := ht.unlockAfter g g hp
    exact h.after g (.inr hold) hg.symm

/-- Another thread makes the step. -/
theorem Witnessed.other (h : s.Witnessed t Q) (hk : s.Kept) (hc : s'.callers t = s.callers t)
    (hg : s.generation ≤ s'.generation) (hi : s'.invoked = s.invoked) : s'.Witnessed t Q := by
  refine ⟨?_, ?_, ?_⟩
  · intro b g hb hgen hm
    rw [hc] at hb
    rw [hi] at hm
    have hle := hk.ordered.before t g (before_of_barrier hb)
    exact h.barrier b g hb (by omega) hm
  · intro g hp hgen
    rw [hc] at hp
    have hle : g ≤ s.generation := by
      apply hk.ordered.before t g
      rcases hp with hp | hp <;> rw [hp] <;> rfl
    exact h.after g hp (by omega)
  · intro g hp
    rw [hc] at hp
    exact h.equal g hp

theorem Kept.barrier_work (h : s.Kept) (hb : (s.callers t).barrier = some (b, g)) :
    b.work = .barrier := by
  rcases barrier_of_put hb with ⟨hheld, hcall⟩ | hsent
  · exact (h.sound.held t b hheld).2.2.2.2 .drain hcall
  · exact (h.sound.waiting t .drain b hsent).2.1

/-- The dispatcher invokes the barrier: at that instant it has nothing else to do. -/
theorem Witnessed.dispatcher (h : s.Witnessed t Q) (hk : s.Kept) (hs : s.loopStep = some s')
    (hQ : s.Quiescent → Q) : s'.Witnessed t Q := by
  obtain ⟨hc, _, hg, _, _, _, hcase⟩ := loopStep_frame hs
  rcases hcase with ⟨hi, _⟩ | ⟨draining, n, hl, rfl⟩
  · exact h.other hk (congrFun hc t) hg.ge hi
  · refine ⟨?_, fun g hp => h.after g hp, fun g hp => h.equal g hp⟩
    intro b g hb hgen hm
    by_cases hold : b ∈ s.invoked
    · exact h.barrier b g hb hgen hold
    · have hn : b = n := by
        rcases List.mem_append.mp hm with hm | hm
        · exact absurd hm hold
        · exact List.mem_singleton.mp hm
      subst hn
      apply hQ
      have hsent : s.sent = s.invoked ++ b :: s.fifo := by
        rw [Dispatch.sent, hl, List.append_assoc]
        rfl
      intro m hm
      rw [hl] at hm
      rcases List.mem_cons.mp hm with rfl | hm
      · rw [hk.barrier_work hb]
        rfl
      · exact (hk.ordered.clear t b g hb hgen hold).1 _ _ hsent m hm

theorem Witnessed.step (h : s.Witnessed t Q) (hk : s.Kept) (hs : s.step l = some s')
    (hQ : s.Quiescent → Q) : s'.Witnessed t Q := by
  have hturn : ∀ u, Turn s u s' → s'.Witnessed t Q := by
    intro u hu
    by_cases hut : t = u
    · subst hut
      exact h.turn hk hu
    · apply h.other hk (hu.others t hut) _ hu.invoked
      rcases hu.generation with hg | ⟨hg, _⟩ <;> omega
  cases l with
  | call u call =>
    simp only [step] at hs
    split_ifs at hs with hp
    cases hs
    exact hturn u (call_turn hp)
  | caller u => exact hturn u (callerStep_turn hs)
  | dispatcher => exact h.dispatcher hk hs hQ
  | stop =>
    obtain ⟨hc, _, hg, _, hi, _⟩ := stopStep_frame hs
    exact h.other hk (congrFun hc t) hg.ge hi

/-- The generations that a drain holds have been read since there was a given one. -/
structure Since (s : Dispatch) (t start : Nat) : Prop where
  reached : start ≤ s.generation
  before : ∀ g, (s.callers t).before = some g → start ≤ g
  after : ∀ g a, s.callers t = .unlockAfter g a → start ≤ g ∧ g ≤ a ∧ a ≤ s.generation

variable {start : Nat}

theorem Since.turn (h : s.Since t start) (hk : s.Kept) (ht : Turn s t s') : s'.Since t start := by
  have hmono : s.generation ≤ s'.generation := by
    rcases ht.generation with hg | ⟨hg, _⟩ <;> omega
  refine ⟨h.reached.trans hmono, fun g hg => ?_, fun g a hp => ?_⟩
  · rcases ht.before g hg with hold | hnew
    · exact h.before g hold
    · exact hnew ▸ h.reached
  · obtain ⟨hold, rfl⟩ := ht.unlockAfter g a hp
    have hbefore : (s.callers t).before = some g := by rw [hold]; rfl
    exact ⟨h.before g hbefore, hk.ordered.before t g hbefore, hmono⟩

theorem Since.other (h : s.Since t start) (hc : s'.callers t = s.callers t)
    (hg : s.generation ≤ s'.generation) : s'.Since t start := by
  refine ⟨h.reached.trans hg, ?_, ?_⟩
  · rw [hc]
    exact h.before
  · intro g a hp
    rw [hc] at hp
    obtain ⟨h1, h2, h3⟩ := h.after g a hp
    exact ⟨h1, h2, h3.trans hg⟩

theorem Since.step (h : s.Since t start) (hk : s.Kept) (hs : s.step l = some s') :
    s'.Since t start := by
  have hturn : ∀ u, Turn s u s' → s'.Since t start := by
    intro u hu
    by_cases hut : t = u
    · subst hut
      exact h.turn hk hu
    · apply h.other (hu.others t hut)
      rcases hu.generation with hg | ⟨hg, _⟩ <;> omega
  cases l with
  | call u call =>
    simp only [step] at hs
    split_ifs at hs with hp
    cases hs
    exact hturn u (call_turn hp)
  | caller u => exact hturn u (callerStep_turn hs)
  | dispatcher =>
    obtain ⟨hc, _, hg, _⟩ := loopStep_frame hs
    exact h.other (congrFun hc t) hg.ge
  | stop =>
    obtain ⟨hc, _, hg, _⟩ := stopStep_frame hs
    exact h.other (congrFun hc t) hg.ge

/-- Fewer than 2 ^ 64 jobs are counted meanwhile: equal remainders are of equal generations. -/
theorem Since.equal {g a : Nat} (h : s.Since t start) (hp : s.callers t = .unlockAfter g a)
    (hmod : g % 2 ^ 64 = a % 2 ^ 64) (hfew : s.generation < start + 2 ^ 64) : a = g := by
  obtain ⟨h1, h2, h3⟩ := h.after g a hp
  omega

/-- A node that has been put stays so. -/
theorem step_sent (hs : s.step l = some s') (hn : node ∈ s.sent) : node ∈ s'.sent := by
  have hturn : ∀ u, Turn s u s' → node ∈ s'.sent := by
    intro u hu
    rw [Dispatch.sent] at hn
    rw [Dispatch.sent, hu.invoked, hu.loop]
    rcases hu.fifo with ⟨hf, _⟩ | ⟨_, m, _, _, hf, _⟩
    · rw [hf]
      exact hn
    · rw [hf, ← List.append_assoc]
      exact List.mem_append_left _ hn
  cases l with
  | call u call =>
    simp only [step] at hs
    split_ifs at hs with hp
    cases hs
    exact hturn u (call_turn hp)
  | caller u => exact hturn u (callerStep_turn hs)
  | dispatcher =>
    obtain ⟨_, _, _, _, hsent, _⟩ := loopStep_frame hs
    rw [hsent]
    exact hn
  | stop =>
    obtain ⟨_, _, _, hl, hi, _, _, hcase⟩ := stopStep_frame hs
    rw [Dispatch.sent] at hn
    rw [Dispatch.sent, hi, hl]
    rcases hcase with ⟨hf, _⟩ | ⟨m, _, hf, _⟩
    · rw [hf]
      exact hn
    · rw [hf, ← List.append_assoc]
      exact List.mem_append_left _ hn

end Dispatch

/-- The states of the dispatcher and its threads over time, up to an instant. -/
structure Execution (free : Nat) (E : Nat → Dispatch) (L : Nat → DispatchLabel) (n : Nat) : Prop where
  start : E 0 = { free := free }
  next : ∀ i, i < n → (E i).step (L i) = some (E (i + 1))

section
variable {free : Nat} {E : Nat → Dispatch} {L : Nat → DispatchLabel}

theorem Execution.kept (h : Execution free E L n) : ∀ k ≤ n, (E k).Kept := by
  intro k hk
  induction k with
  | zero =>
    rw [h.start]
    exact Dispatch.init_kept free
  | succ k ih => exact Dispatch.step_kept (ih (by omega)) (h.next k (by omega))

theorem Execution.sent (h : Execution free E L n) (hi : i ≤ k) (hk : k ≤ n)
    (hn : node ∈ (E i).sent) : node ∈ (E k).sent := by
  induction k, hi using Nat.le_induction with
  | base => exact hn
  | succ k _ ih => exact Dispatch.step_sent (h.next k (by omega)) (ih (by omega))

theorem Dispatch.Quiescent.completed (hq : s.Quiescent) (hn : node ∈ s.sent)
    (hw : node.work.counted = true) : node ∈ s.invoked := by
  rw [Dispatch.sent, List.append_assoc] at hn
  rcases List.mem_append.mp hn with hn | hn
  · exact hn
  · rw [hq node hn] at hw
    cases hw

/-- A thread calls `drain` at the instant `i`, and at `j` it has found equal 64-bit generations and is
about to return true, fewer than 2 ^ 64 jobs having been counted meanwhile. -/
theorem drain_quiescent {a : Nat} (h : Execution free E L n) (hij : i < j) (hj : j ≤ n)
    (hcall : L i = .call t .drain) (hret : (E j).callers t = .unlockAfter g a)
    (hequal : g % 2 ^ 64 = a % 2 ^ 64) (hfew : (E j).generation < (E i).generation + 2 ^ 64) :
    ∃ k, i < k ∧ k < j ∧ (E k).Quiescent ∧
      (∀ node ∈ (E i).accepted, node.work.counted = true → node ∈ (E k).invoked) ∧
      ∀ m ≤ k, ∀ node ∈ (E m).loop.taken ++ (E m).fifo, node.work.counted = true →
        node ∈ (E k).invoked := by
  have hcheck : ∃ s : Dispatch, E (i + 1) = s.goto t (.check .drain) ∧
      s.generation = (E i).generation := by
    have hstep := h.next i (by omega)
    rw [hcall] at hstep
    simp only [Dispatch.step] at hstep
    split_ifs at hstep
    exact ⟨E i, (Option.some.inj hstep).symm, rfl⟩
  have hsince : ∀ m, i < m → m ≤ j → (E m).Since t (E i).generation := by
    intro m him
    induction m, him using Nat.le_induction with
    | base =>
      intro _
      obtain ⟨s, hs, hg⟩ := hcheck
      have hpc : (E (i + 1)).callers t = .check .drain := by
        rw [hs]
        exact Function.update_self ..
      refine ⟨?_, fun g hp => ?_, fun g a hp => ?_⟩
      · rw [hs]
        exact hg.ge
      · rw [hpc] at hp
        cases hp
      · rw [hpc] at hp
        cases hp
    | succ m him ih =>
      intro hm
      exact (ih (by omega)).step (h.kept m (by omega)) (h.next m (by omega))
  obtain rfl := (hsince j hij le_rfl).equal hret hequal hfew
  have hw : ∀ m, i < m → m ≤ j → (E m).Witnessed t (∃ k, i < k ∧ k < m ∧ (E k).Quiescent) := by
    intro m him
    induction m, him using Nat.le_induction with
    | base =>
      intro _
      obtain ⟨s, hs, -⟩ := hcheck
      have hpc : (E (i + 1)).callers t = .check .drain := by
        rw [hs]
        exact Function.update_self ..
      refine ⟨?_, ?_, ?_⟩
      · intro b g hb
        rw [hpc] at hb
        cases hb
      · intro g hp
        rw [hpc] at hp
        rcases hp with hp | hp <;> cases hp
      · intro g hp
        rw [hpc] at hp
        cases hp
    | succ m him ih =>
      intro hm
      have hold := ih (by omega)
      have hlater : (∃ k, i < k ∧ k < m ∧ (E k).Quiescent) →
          ∃ k, i < k ∧ k < m + 1 ∧ (E k).Quiescent := by
        rintro ⟨k, h1, h2, h3⟩
        exact ⟨k, h1, by omega, h3⟩
      have hmap : (E m).Witnessed t (∃ k, i < k ∧ k < m + 1 ∧ (E k).Quiescent) :=
        ⟨fun b g h1 h2 h3 => hlater (hold.barrier b g h1 h2 h3),
          fun g h1 h2 => hlater (hold.after g h1 h2), fun g h1 => hlater (hold.equal g h1)⟩
      exact hmap.step (h.kept m (by omega)) (h.next m (by omega)) fun hq => ⟨m, him, by omega, hq⟩
  obtain ⟨k, hik, hkj, hq⟩ := (hw j hij (by omega)).equal _ hret
  refine ⟨k, hik, hkj, hq, ?_, ?_⟩
  · intro node hn hcount
    exact hq.completed (h.sent hik.le (by omega) ((h.kept i (by omega)).sound.accepted node hn)) hcount
  · intro m hm node hn hcount
    apply hq.completed (h.sent hm (by omega) _) hcount
    rw [Dispatch.sent, List.append_assoc]
    exact List.mem_append_right _ hn

end

/-- The states along a list of steps. -/
def trace (free : Nat) (labels : List DispatchLabel) (k : Nat) : Dispatch :=
  ((labels.take k).foldlM Dispatch.step { free := free }).getD { free := free }

theorem Execution.of_labels {free : Nat} (labels : List DispatchLabel)
    (h : labels.foldlM Dispatch.step { free := free } = some s) :
    Execution free (trace free labels) (fun k => labels.getD k .stop) labels.length := by
  refine ⟨rfl, fun i hi => ?_⟩
  have hsplit : labels = (labels.take i ++ [labels[i]]) ++ labels.drop (i + 1) := by
    rw [List.take_concat_get', List.take_append_drop]
  rw [hsplit, List.foldlM_append] at h
  obtain ⟨s', hs', _⟩ := Option.bind_eq_some_iff.mp h
  have hnext : trace free labels (i + 1) = s' := by
    rw [trace, List.take_succ_eq_append_getElem hi, hs', Option.getD_some]
  rw [List.foldlM_append] at hs'
  obtain ⟨u, hu, hl⟩ := Option.bind_eq_some_iff.mp hs'
  have hthis : trace free labels i = u := by rw [trace, hu, Option.getD_some]
  rw [hthis, hnext, List.getD_eq_getElem _ _ hi]
  simpa using hl

/-- A thread publishes, and another one drains. -/
theorem drain_quiescent_publish : ∃ k, 10 < k ∧ k < 27 ∧ ∃ s : Dispatch, s.Quiescent ∧
    (⟨0, .publish, some 1⟩ : Node) ∈ s.invoked := by
  have hrun : Execution 2 _ _ _ := .of_labels (.call 1 .publish ::
    List.replicate 9 (.caller 1) ++ .call 0 .drain :: List.replicate 7 (.caller 0) ++
    List.replicate 6 .dispatcher ++ List.replicate 3 (.caller 0)) rfl
  obtain ⟨k, h1, h2, h3, h4, _⟩ := drain_quiescent (t := 0) (a := 1) (i := 10) (j := 27) (g := 1) hrun
    (by decide) (by decide) rfl rfl rfl (by decide)
  exact ⟨k, h1, h2, _, h3, h4 _ (by decide) rfl⟩

end Zlibs.Signaling
