import Zlibs.Signaling.Drain

/-! Every thread's nodes are invoked in the order of its calls. -/
namespace Zlibs.Signaling
open Lib

variable {s s' : Dispatch} {t : Nat} {n : Node} {l : DispatchLabel} {labels : List DispatchLabel}

namespace Dispatch

/-- What a step of a caller does with its node. -/
inductive Moves (s : Dispatch) (t : Nat) (s' : Dispatch) : Prop
  | keeps (hheld : (s'.callers t).held = (s.callers t).held) (hfifo : s'.fifo = s.fifo)
  | takes {n : Node} (hid : n.id = s.allocated) (hheld : (s'.callers t).held = some n)
      (hfifo : s'.fifo = s.fifo)
  | puts {n : Node} (hbefore : (s.callers t).held = some n) (hafter : (s'.callers t).held = none)
      (hfifo : s'.fifo = s.fifo ++ [n])
  | frees (hafter : (s'.callers t).held = none) (hfifo : s'.fifo = s.fifo)

theorem callerStep_moves (hs : s.callerStep t = some s') : Moves s t s' := by
  unfold callerStep at hs
  cases hp : s.callers t with
  | allocate call =>
    rw [hp] at hs
    dsimp only at hs
    split_ifs at hs
    · cases hs
      exact .keeps (by simp [goto, hp, Caller.held]) rfl
    · cases call <;> cases hs <;>
        exact .takes rfl (by simp [goto, takeNode, Caller.held]; rfl) rfl
  | put call node before =>
    rw [hp] at hs
    cases hs
    exact .puts (by rw [hp]; rfl) (by simp [goto, Caller.held]) rfl
  | unlock call node before =>
    rw [hp] at hs
    cases call <;> cases hs <;> exact .keeps (by simp [goto, hp, Caller.held]) rfl
  | release node =>
    rw [hp] at hs
    cases hs
    exact .frees (by simp [goto, Caller.held]) rfl
  | releaseLocked node =>
    rw [hp] at hs
    cases hs
    exact .frees (by simp [goto, Caller.held]) rfl
  | _ =>
    rw [hp] at hs
    dsimp only at hs
    try split_ifs at hs
    all_goals
      cases hs
      try exact .keeps (by simp [goto, hp, Caller.held]) rfl

/-- One of two nodes of a thread has been allocated before the other. -/
def Before (m n : Node) : Prop := m.caller = n.caller → m.caller ≠ none → m.id < n.id

/-- The nodes of each thread have been put in the order in which it has allocated them, and the one
that it holds is the newest of them. -/
structure InOrder (s : Dispatch) : Prop where
  sent : s.sent.Pairwise Before
  held : ∀ t n, (s.callers t).held = some n → ∀ m ∈ s.sent, m.caller = some t → m.id < n.id

theorem init_inOrder (free : Nat) : InOrder { free := free } :=
  ⟨List.Pairwise.nil, fun _ _ h => absurd h.symm (Option.some_ne_none _)⟩

/-- A caller that puts no node, and holds none or the one it held, or a new one. -/
theorem InOrder.same (h : s.InOrder) (hsound : s.Sound) (hsent : s'.sent = s.sent)
    (hothers : ∀ u, u ≠ t → s'.callers u = s.callers u)
    (hheld : ∀ n, (s'.callers t).held = some n →
      (s.callers t).held = some n ∨ n.id = s.allocated) : s'.InOrder := by
  refine ⟨hsent ▸ h.sent, fun u n hn m hm hc => ?_⟩
  rw [hsent] at hm
  by_cases hu : u = t
  · subst hu
    rcases hheld n hn with hn | hid
    · exact h.held u n hn m hm hc
    · rw [hid]
      exact hsound.sentKnown m hm
  · rw [hothers u hu] at hn
    exact h.held u n hn m hm hc

theorem InOrder.put (h : s.InOrder) (hsound : s.Sound) (hsent : s'.sent = s.sent ++ [n])
    (hheld : (s.callers t).held = some n) (hothers : ∀ u, u ≠ t → s'.callers u = s.callers u)
    (hafter : (s'.callers t).held = none) : s'.InOrder := by
  have hcaller : n.caller = some t := (hsound.held t n hheld).1
  constructor
  · rw [hsent, List.pairwise_append]
    refine ⟨h.sent, List.pairwise_singleton _ _, fun m hm x hx => ?_⟩
    rw [List.mem_singleton.mp hx]
    exact fun hc _ => h.held t n hheld m hm (hc.trans hcaller)
  · intro u x hx m hm hc
    have hu : u ≠ t := by
      rintro rfl
      rw [hafter] at hx
      cases hx
    rw [hothers u hu] at hx
    rw [hsent] at hm
    rcases List.mem_append.mp hm with hm | hm
    · exact h.held u x hx m hm hc
    · rw [List.mem_singleton.mp hm, hcaller] at hc
      exact absurd (Option.some.inj hc).symm hu

theorem callerStep_inOrder (h : s.InOrder) (hsound : s.Sound) (hs : s.callerStep t = some s') :
    s'.InOrder := by
  have hturn := callerStep_turn hs
  have hsent : s'.fifo = s.fifo → s'.sent = s.sent := by
    intro hf
    rw [Dispatch.sent, hturn.invoked, hturn.loop, hf, Dispatch.sent]
  rcases callerStep_moves hs with ⟨hheld, hf⟩ | ⟨hid, hheld, hf⟩ | ⟨hbefore, hafter, hf⟩ |
    ⟨hafter, hf⟩
  · exact h.same hsound (hsent hf) hturn.others fun n hn => .inl (hheld ▸ hn)
  · refine h.same hsound (hsent hf) hturn.others fun n hn => .inr ?_
    rw [hheld] at hn
    rwa [← Option.some.inj hn]
  · refine h.put hsound ?_ hbefore hturn.others hafter
    rw [Dispatch.sent, hturn.invoked, hturn.loop, hf, Dispatch.sent, ← List.append_assoc]
  · refine h.same hsound (hsent hf) hturn.others fun n hn => ?_
    rw [hafter] at hn
    cases hn

theorem stopStep_inOrder (h : s.InOrder) (hsound : s.Sound) (hs : s.stopStep = some s') :
    s'.InOrder := by
  obtain ⟨hc, -, -, hl, hi, -, -, hcase⟩ := stopStep_frame hs
  rcases hcase with ⟨hf, -⟩ | ⟨n, hn, hf, -⟩
  · have hsent : s'.sent = s.sent := by rw [Dispatch.sent, hi, hl, hf, Dispatch.sent]
    exact ⟨hsent ▸ h.sent, by rw [hsent, hc]; exact h.held⟩
  · have hsent : s'.sent = s.sent ++ [n] := by
      rw [Dispatch.sent, hi, hl, hf, Dispatch.sent, ← List.append_assoc]
    have hnone : n.caller = none := (hsound.noop n hn).1
    constructor
    · rw [hsent, List.pairwise_append]
      refine ⟨h.sent, List.pairwise_singleton _ _, fun m hm x hx => ?_⟩
      rw [List.mem_singleton.mp hx]
      exact fun hsame hne => absurd (hsame.trans hnone) hne
    · intro u x hx m hm hm'
      rw [hc] at hx
      rw [hsent] at hm
      rcases List.mem_append.mp hm with hm | hm
      · exact h.held u x hx m hm hm'
      · rw [List.mem_singleton.mp hm, hnone] at hm'
        cases hm'

theorem step_inOrder (h : s.InOrder) (hsound : s.Sound) (hs : s.step l = some s') :
    s'.InOrder := by
  cases l with
  | call t call =>
    simp only [step] at hs
    split_ifs at hs with hp
    cases hs
    have hheld : ((s.goto t (.check call)).callers t).held = none := by simp [goto, Caller.held]
    refine h.same hsound rfl (call_turn hp).others fun n hn => ?_
    rw [hheld] at hn
    cases hn
  | caller t => exact callerStep_inOrder h hsound hs
  | dispatcher =>
    obtain ⟨hc, -, -, -, hsent, -⟩ := loopStep_frame hs
    exact ⟨hsent ▸ h.sent, by rw [hsent, hc]; exact h.held⟩
  | stop => exact stopStep_inOrder h hsound hs

end Dispatch

open Dispatch

/-- Whatever the interleaving, the jobs that one thread has the dispatcher do are done in the order
in which the thread has asked for them, those that wait in the FIFO last. -/
theorem threads_in_order {free : Nat}
    (hr : Run (· = ({ free := free } : Dispatch)) (fun _ s l s' => s.step l = some s') labels s) :
    (s.invoked ++ s.loop.taken ++ s.fifo).Pairwise Before ∧
      ∀ t n, (s.callers t).held = some n → ∀ m ∈ s.invoked ++ s.loop.taken ++ s.fifo,
        m.caller = some t → m.id < n.id := by
  have hkept : s.Sound ∧ s.InOrder := by
    refine hr.invariant (I := fun _ s => s.Sound ∧ s.InOrder) ?_ ?_
    · rintro _ rfl
      exact ⟨init_sound free, init_inOrder free⟩
    · intro _ _ _ _ h hs
      exact ⟨step_sound h.1 hs, step_inOrder h.2 h.1 hs⟩
  exact ⟨hkept.2.sent, hkept.2.held⟩

/-- A thread has published a signal and then put a node that it waits for, which is still in the
FIFO when the first has been invoked. -/
theorem threads_in_order_two : ∃ s : Dispatch,
    s.invoked = [⟨0, .publish, some 0⟩] ∧ s.fifo = [⟨1, .sync, some 0⟩] ∧
    (s.invoked ++ s.loop.taken ++ s.fifo).Pairwise Before := by
  have hr : Run (· = ({ free := 2 } : Dispatch)) (fun _ s l s' => s.step l = some s')
      (.call 0 .publish :: List.replicate 9 (.caller 0) ++ .call 0 .sync ::
        List.replicate 7 (.caller 0) ++ List.replicate 2 .dispatcher) _ :=
    .of_foldlM rfl rfl
  exact ⟨_, rfl, rfl, (threads_in_order hr).1⟩

end Zlibs.Signaling
