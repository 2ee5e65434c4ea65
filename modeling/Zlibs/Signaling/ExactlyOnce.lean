import Zlibs.Signaling.Dispatcher

/-! What the dispatcher does with the nodes of its callers. -/
namespace Zlibs.Signaling

variable {s s' : Dispatch} {t u thread : Nat} {n node : Node} {pc : Caller} {call : Call}
  {l : DispatchLabel}

namespace Dispatch

/-- The nodes that have been put into the FIFO, in their order. -/
def sent (s : Dispatch) : List Node := s.invoked ++ s.loop.taken ++ s.fifo

/-- Every node is in one place. -/
structure Sound (s : Dispatch) : Prop where
  nodup : s.sent.Nodup
  releasedNodup : s.released.Nodup
  sentKnown : ∀ n ∈ s.sent, n.id < s.allocated
  releasedKnown : ∀ n ∈ s.released, n.id < s.allocated
  held : ∀ t n, (s.callers t).held = some n →
    n.caller = some t ∧ n.id < s.allocated ∧ n ∉ s.sent ∧ n ∉ s.released ∧
      ∀ call, (s.callers t).call = some call → n.work = call.work
  noop : ∀ n, s.stopper = .put n → n.caller = none ∧ n.id < s.allocated ∧ n ∉ s.sent ∧
    n ∉ s.released
  waiting : ∀ t call n, (s.callers t).sent = some (call, n) → n.caller = some t ∧
    n.work = call.work ∧ n ∈ s.sent ∧ (n ∈ s.invoked → woken n = some t → s.done t = true)
  accepted : ∀ n ∈ s.accepted, n ∈ s.sent
  refused : ∀ n ∈ s.refused, n.caller ≠ none ∧ n ∉ s.sent ∧ (n ∈ s.released ∨
    ∃ t, s.callers t = .release n)
  freed : ∀ n ∈ s.invoked, n ∈ s.released ∨ n ∈ s.loop.used
  released : ∀ n ∈ s.released, n ∈ s.sent → n ∈ s.invoked
  used : ∀ n ∈ s.loop.used, n ∈ s.invoked ∧ n ∉ s.released

theorem init_sound (free : Nat) : Sound { free := free } := by
  refine ⟨List.nodup_nil, List.nodup_nil, ?_, ?_, ?_, ?_, ?_, ?_, ?_, ?_, ?_, ?_⟩ <;>
    simp [sent, Loop.taken, Loop.used, Caller.held, Caller.sent]

/-- What a caller that moves no node leaves as it is. -/
structure Frame (s s' : Dispatch) : Prop where
  fifo : s'.fifo = s.fifo
  loop : s'.loop = s.loop
  stopper : s'.stopper = s.stopper
  invoked : s'.invoked = s.invoked
  released : s'.released = s.released
  allocated : s'.allocated = s.allocated

theorem Frame.sent (h : Frame s s') : s'.sent = s.sent := by
  rw [Dispatch.sent, h.invoked, h.loop, h.fifo, Dispatch.sent]

/-- A caller goes on with the node that it has, or without it once it is sent. -/
theorem Sound.move (h : s.Sound) (t : Nat) (pc : Caller) (hf : Frame s s')
    (hc : s'.callers = s.callers)
    (hheld : ∀ n, pc.held = some n → (s.callers t).held = some n)
    (hcall : ∀ call, pc.call = some call → (s.callers t).call = some call)
    (hsent : ∀ x, pc.sent = some x → (s.callers t).sent = some x)
    (hrelease : ∀ n, s.callers t ≠ .release n)
    (hdone : ∀ u, (u = t → pc.sent ≠ none) → s'.done u = s.done u)
    (hacc : ∀ n ∈ s'.accepted, n ∈ s.accepted ∨ ∃ call, (s.callers t).sent = some (call, n))
    (href : ∀ n ∈ s'.refused, n ∈ s.refused ∨ (s.callers t).held = some n ∧ pc = .release n) :
    (s'.goto t pc).Sound := by
  have hf : Frame s (s'.goto t pc) := ⟨hf.fifo, hf.loop, hf.stopper, hf.invoked, hf.released,
    hf.allocated⟩
  have hc : (s'.goto t pc).callers = Function.update s.callers t pc := by
    rw [← hc]
    rfl
  have hs := hf.sent
  refine ⟨?_, ?_, ?_, ?_, ?_, ?_, ?_, ?_, ?_, ?_, ?_, ?_⟩
  · rw [hs]
    exact h.nodup
  · rw [hf.released]
    exact h.releasedNodup
  · rw [hs, hf.allocated]
    exact h.sentKnown
  · rw [hf.released, hf.allocated]
    exact h.releasedKnown
  · intro u n hn
    rw [hs, hf.released, hf.allocated]
    rw [hc] at hn ⊢
    by_cases hu : u = t
    · subst hu
      rw [Function.update_self] at hn ⊢
      obtain ⟨h1, h2, h3, h4, h5⟩ := h.held u n (hheld n hn)
      exact ⟨h1, h2, h3, h4, fun call hcl => h5 call (hcall call hcl)⟩
    · rw [Function.update_of_ne hu] at hn ⊢
      exact h.held u n hn
  · intro n hn
    rw [hf.stopper] at hn
    rw [hs, hf.released, hf.allocated]
    exact h.noop n hn
  · intro u call n hn
    rw [hs, hf.invoked]
    rw [hc] at hn
    by_cases hu : u = t
    · subst hu
      rw [Function.update_self] at hn
      obtain ⟨h1, h2, h3, h4⟩ := h.waiting u call n (hsent _ hn)
      refine ⟨h1, h2, h3, ?_⟩
      have hd : (s'.goto u pc).done u = s.done u := hdone u fun _ => by rw [hn]; exact nofun
      rw [hd]
      exact h4
    · rw [Function.update_of_ne hu] at hn
      have hd : (s'.goto t pc).done u = s.done u := hdone u fun he => absurd he hu
      rw [hd]
      exact h.waiting u call n hn
  · intro n hn
    rw [hs]
    rcases hacc n hn with hn | ⟨call, hn⟩
    · exact h.accepted n hn
    · exact (h.waiting t call n hn).2.2.1
  · intro n hn
    rw [hs, hf.released, hc]
    rcases href n hn with hn | ⟨hn, hpc⟩
    · obtain ⟨h0, h1, h2⟩ := h.refused n hn
      refine ⟨h0, h1, ?_⟩
      rcases h2 with h2 | ⟨u, hu⟩
      · exact .inl h2
      · refine .inr ⟨u, ?_⟩
        rw [Function.update_of_ne]
        · exact hu
        · rintro rfl
          exact hrelease n hu
    · obtain ⟨h1, _, h3, _, _⟩ := h.held t n hn
      refine ⟨by rw [h1]; exact nofun, h3, .inr ⟨t, ?_⟩⟩
      rw [Function.update_self, hpc]
  · rw [hf.invoked, hf.released, hf.loop]
    exact h.freed
  · rw [hf.released, hs, hf.invoked]
    exact h.released
  · rw [hf.loop, hf.invoked, hf.released]
    exact h.used

/-- A fresh node is nowhere yet. -/
theorem Sound.fresh (h : s.Sound) (hn : n.id = s.allocated) : n ∉ s.sent ∧ n ∉ s.released :=
  ⟨fun hm => absurd (h.sentKnown n hm) (by omega), fun hm => absurd (h.releasedKnown n hm) (by omega)⟩

/-- A caller takes a fresh node. -/
theorem Sound.take (h : s.Sound) (hn : n = ⟨s.allocated, call.work, some t⟩)
    (hp : s.callers t = .allocate call) (hheld : pc.held = some n) (hcall : pc.call = some call)
    (hsent : pc.sent = none) : (s.takeNode.goto t pc).Sound := by
  have hfresh := h.fresh (n := n) (by rw [hn])
  refine ⟨h.nodup, h.releasedNodup, ?_, ?_, ?_, ?_, ?_, h.accepted, ?_, h.freed, h.released, h.used⟩
  · intro n hn
    exact Nat.lt_succ_of_lt (h.sentKnown n hn)
  · intro n hn
    exact Nat.lt_succ_of_lt (h.releasedKnown n hn)
  · intro u m hm
    simp only [goto, takeNode] at hm ⊢
    by_cases hu : u = t
    · subst hu
      rw [Function.update_self] at hm ⊢
      rw [hheld] at hm
      cases hm
      refine ⟨by rw [hn], by rw [hn]; exact Nat.lt_succ_self _, hfresh.1, hfresh.2, ?_⟩
      intro call' hc'
      rw [hcall] at hc'
      cases hc'
      rw [hn]
    · rw [Function.update_of_ne hu] at hm ⊢
      obtain ⟨h1, h2, h3⟩ := h.held u m hm
      exact ⟨h1, Nat.lt_succ_of_lt h2, h3⟩
  · intro m hm
    obtain ⟨h1, h2, h3⟩ := h.noop m hm
    exact ⟨h1, Nat.lt_succ_of_lt h2, h3⟩
  · intro u call' m hm
    simp only [goto, takeNode] at hm ⊢
    by_cases hu : u = t
    · subst hu
      rw [Function.update_self, hsent] at hm
      cases hm
    · rw [Function.update_of_ne hu] at hm
      exact h.waiting u call' m hm
  · intro m hm
    obtain ⟨h0, h1, h2⟩ := h.refused m hm
    refine ⟨h0, h1, ?_⟩
    rcases h2 with h2 | ⟨u, hu⟩
    · exact .inl h2
    · refine .inr ⟨u, ?_⟩
      simp only [goto, takeNode]
      rw [Function.update_of_ne]
      · exact hu
      · rintro rfl
        rw [hp] at hu
        cases hu

/-- A refused node is being released, or has been. -/
theorem Sound.not_refused (h : s.Sound) (hheld : (s.callers t).held = some n)
    (hr : s.callers t ≠ .release n) : n ∉ s.refused := by
  intro hm
  obtain ⟨hcaller, _, _, hreleased, _⟩ := h.held t n hheld
  rcases (h.refused n hm).2.2 with hm | ⟨u, hu⟩
  · exact hreleased hm
  · have hcu := (h.held u n (by rw [hu]; rfl)).1
    rw [hcaller] at hcu
    cases hcu
    exact hr hu

/-- A node is put at the end of the FIFO. -/
theorem Sound.append (h : s.Sound) (hfresh : n ∉ s.sent) (hreleased : n ∉ s.released)
    (hid : n.id < s.allocated) (hrefused : n ∉ s.refused) {t' : Dispatch}
    (ht : t' = { s with fifo := s.fifo ++ [n], callers := t'.callers, stopper := t'.stopper })
    (hheld : ∀ t m, (t'.callers t).held = some m → m ≠ n ∧ (s.callers t).held = some m ∧
      (t'.callers t).call = (s.callers t).call)
    (hnoop : ∀ m, t'.stopper = .put m → m ≠ n ∧ s.stopper = .put m)
    (hwait : ∀ t call m, (t'.callers t).sent = some (call, m) →
      (s.callers t).sent = some (call, m) ∨ m = n ∧ n.caller = some t ∧ n.work = call.work)
    (hrelease : ∀ t m, s.callers t = .release m → t'.callers t = .release m) : t'.Sound := by
  have hs : t'.sent = s.sent ++ [n] := by
    rw [ht]
    simp [Dispatch.sent]
  have hinv : t'.invoked = s.invoked := by rw [ht]
  have hrel : t'.released = s.released := by rw [ht]
  have hall : t'.allocated = s.allocated := by rw [ht]
  have hloop : t'.loop = s.loop := by rw [ht]
  have hdone : t'.done = s.done := by rw [ht]
  have hacc : t'.accepted = s.accepted := by rw [ht]
  have href : t'.refused = s.refused := by rw [ht]
  have hnotinv : n ∉ s.invoked := fun hm =>
    hfresh (List.mem_append_left _ (List.mem_append_left _ hm))
  refine ⟨?_, ?_, ?_, ?_, ?_, ?_, ?_, ?_, ?_, ?_, ?_, ?_⟩
  · rw [hs]
    exact h.nodup.append (List.nodup_singleton n) (by simpa using hfresh)
  · rw [hrel]
    exact h.releasedNodup
  · intro m hm
    rw [hs] at hm
    rw [hall]
    rcases List.mem_append.mp hm with hm | hm
    · exact h.sentKnown m hm
    · rw [List.mem_singleton.mp hm]
      exact hid
  · rw [hrel, hall]
    exact h.releasedKnown
  · intro u m hm
    obtain ⟨hne, hold, hcall⟩ := hheld u m hm
    obtain ⟨h1, h2, h3, h4, h5⟩ := h.held u m hold
    rw [hs, hrel, hall, hcall]
    exact ⟨h1, h2, by simp [h3, hne], h4, h5⟩
  · intro m hm
    obtain ⟨hne, hold⟩ := hnoop m hm
    obtain ⟨h1, h2, h3, h4⟩ := h.noop m hold
    rw [hs, hrel, hall]
    exact ⟨h1, h2, by simp [h3, hne], h4⟩
  · intro u call m hm
    rw [hs, hinv, hdone]
    rcases hwait u call m hm with hold | ⟨rfl, h1, h2⟩
    · obtain ⟨h1, h2, h3, h4⟩ := h.waiting u call m hold
      exact ⟨h1, h2, List.mem_append_left _ h3, h4⟩
    · exact ⟨h1, h2, by simp, fun hm => absurd hm hnotinv⟩
  · intro m hm
    rw [hacc] at hm
    rw [hs]
    exact List.mem_append_left _ (h.accepted m hm)
  · intro m hm
    rw [href] at hm
    rw [hs, hrel]
    obtain ⟨h0, h1, h2⟩ := h.refused m hm
    have hne : m ≠ n := fun he => hrefused (he ▸ hm)
    refine ⟨h0, by simp [h1, hne], ?_⟩
    rcases h2 with h2 | ⟨u, hu⟩
    · exact .inl h2
    · exact .inr ⟨u, hrelease u m hu⟩
  · rw [hinv, hrel, hloop]
    exact h.freed
  · intro m hm hsm
    rw [hrel] at hm
    rw [hs] at hsm
    rw [hinv]
    rcases List.mem_append.mp hsm with hsm | hsm
    · exact h.released m hm hsm
    · rw [List.mem_singleton.mp hsm] at hm
      exact absurd hm hreleased
  · rw [hloop, hinv, hrel]
    exact h.used

/-- A caller puts its node into the FIFO. -/
theorem Sound.put (h : s.Sound) {before : Nat} (hp : s.callers t = .put call n before) :
    ({ s with fifo := s.fifo ++ [n] }.goto t (.unlock call n before)).Sound := by
  have hheld : (s.callers t).held = some n := by rw [hp]; rfl
  obtain ⟨hcaller, hid, hfresh, hreleased, hwork⟩ := h.held t n hheld
  apply h.append hfresh hreleased hid (h.not_refused hheld (by rw [hp]; exact nofun)) rfl
  · intro u m hm
    simp only [goto] at hm ⊢
    by_cases hu : u = t
    · subst hu
      rw [Function.update_self] at hm
      cases hm
    · rw [Function.update_of_ne hu] at hm ⊢
      refine ⟨?_, hm, rfl⟩
      rintro rfl
      have hcu := (h.held u m hm).1
      rw [hcaller] at hcu
      cases hcu
      exact hu rfl
  · intro m hm
    refine ⟨?_, hm⟩
    rintro rfl
    have hnone := (h.noop m hm).1
    rw [hcaller] at hnone
    cases hnone
  · intro u call' m hm
    simp only [goto] at hm
    by_cases hu : u = t
    · subst hu
      rw [Function.update_self] at hm
      cases hm
      exact .inr ⟨rfl, hcaller, hwork call (by rw [hp]; rfl)⟩
    · rw [Function.update_of_ne hu] at hm
      exact .inl hm
  · intro u m hu
    simp only [goto]
    rw [Function.update_of_ne]
    · exact hu
    · rintro rfl
      rw [hp] at hu
      cases hu

/-- A caller releases the node that it has not put. -/
theorem Sound.discard (h : s.Sound) (hheld : (s.callers t).held = some n)
    (hpc : pc.held = none) (hsent : pc.sent = none)
    (hrelease : ∀ m, s.callers t = .release m → m = n) : ((s.releaseNode n).goto t pc).Sound := by
  obtain ⟨hcaller, hid, hfresh, hreleased, _⟩ := h.held t n hheld
  have hnotinv : n ∉ s.invoked := fun hm =>
    hfresh (List.mem_append_left _ (List.mem_append_left _ hm))
  refine ⟨h.nodup, ?_, h.sentKnown, ?_, ?_, ?_, ?_, h.accepted, ?_, ?_, ?_, ?_⟩
  · exact h.releasedNodup.append (List.nodup_singleton n) (by simpa using hreleased)
  · intro m hm
    rcases List.mem_append.mp hm with hm | hm
    · exact h.releasedKnown m hm
    · rw [List.mem_singleton.mp hm]
      exact hid
  · intro u m hm
    simp only [goto, releaseNode] at hm ⊢
    by_cases hu : u = t
    · subst hu
      rw [Function.update_self, hpc] at hm
      cases hm
    · rw [Function.update_of_ne hu] at hm ⊢
      obtain ⟨h1, h2, h3, h4, h5⟩ := h.held u m hm
      refine ⟨h1, h2, h3, ?_, h5⟩
      simp only [List.mem_append, List.mem_singleton, not_or]
      refine ⟨h4, ?_⟩
      rintro rfl
      rw [hcaller] at h1
      cases h1
      exact hu rfl
  · intro m hm
    obtain ⟨h1, h2, h3, h4⟩ := h.noop m hm
    refine ⟨h1, h2, h3, ?_⟩
    simp only [goto, releaseNode, List.mem_append, List.mem_singleton, not_or]
    refine ⟨h4, ?_⟩
    rintro rfl
    rw [hcaller] at h1
    cases h1
  · intro u call' m hm
    simp only [goto, releaseNode] at hm ⊢
    by_cases hu : u = t
    · subst hu
      rw [Function.update_self, hsent] at hm
      cases hm
    · rw [Function.update_of_ne hu] at hm
      exact h.waiting u call' m hm
  · intro m hm
    obtain ⟨h0, h1, h2⟩ := h.refused m hm
    refine ⟨h0, h1, ?_⟩
    simp only [goto, releaseNode]
    rcases h2 with h2 | ⟨u, hu⟩
    · exact .inl (List.mem_append_left _ h2)
    · by_cases hut : u = t
      · subst hut
        rw [hrelease m hu]
        exact .inl (List.mem_append_right _ (List.mem_singleton_self n))
      · exact .inr ⟨u, by rw [Function.update_of_ne hut, hu]⟩
  · intro m hm
    rcases h.freed m hm with hm | hm
    · exact .inl (List.mem_append_left _ hm)
    · exact .inr hm
  · intro m hm hsm
    rcases List.mem_append.mp hm with hm | hm
    · exact h.released m hm hsm
    · rw [List.mem_singleton.mp hm] at hsm
      exact absurd hsm hfresh
  · intro m hm
    obtain ⟨h1, h2⟩ := h.used m hm
    refine ⟨h1, ?_⟩
    simp only [goto, releaseNode, List.mem_append, List.mem_singleton, not_or]
    refine ⟨h2, ?_⟩
    rintro rfl
    exact hnotinv h1

/-- A step of a call that neither takes, puts nor releases a node. -/
theorem Sound.goto_move (h : s.Sound) (hf : Frame s s') (hc : s'.callers = s.callers)
    (hd : s'.done = s.done) (hacc : s'.accepted = s.accepted) (href : s'.refused = s.refused)
    (hheld : pc.held = none ∨ pc.held = (s.callers t).held)
    (hcall : pc.call = none ∨ pc.call = (s.callers t).call)
    (hsent : pc.sent = none ∨ pc.sent = (s.callers t).sent)
    (hrelease : ∀ n, s.callers t ≠ .release n) : (s'.goto t pc).Sound := by
  apply h.move t pc hf hc
  · intro n hn
    rcases hheld with he | he <;> rw [he] at hn
    · cases hn
    · exact hn
  · intro call hn
    rcases hcall with he | he <;> rw [he] at hn
    · cases hn
    · exact hn
  · intro x hn
    rcases hsent with he | he <;> rw [he] at hn
    · cases hn
    · exact hn
  · exact hrelease
  · intro u _
    exact congrFun hd u
  · intro n hn
    exact .inl (hacc ▸ hn)
  · intro n hn
    exact .inl (href ▸ hn)

theorem Frame.refl : Frame s s := ⟨rfl, rfl, rfl, rfl, rfl, rfl⟩

/-- A caller that goes on with its node and its call, or without them, and releases nothing. -/
def Passes (old new : Caller) : Prop :=
  (new.held = none ∨ new.held = old.held) ∧ (new.call = none ∨ new.call = old.call) ∧
    (new.sent = none ∨ new.sent = old.sent) ∧ ∀ n, old ≠ .release n

theorem Sound.pass {old : Caller} (h : s.Sound) (hp : s.callers t = old) (hpass : Passes old pc)
    (hf : Frame s s') (hc : s'.callers = s.callers) (hd : s'.done = s.done)
    (hacc : s'.accepted = s.accepted) (href : s'.refused = s.refused) : (s'.goto t pc).Sound := by
  subst hp
  obtain ⟨hheld, hcall, hsent, hrelease⟩ := hpass
  exact h.goto_move hf hc hd hacc href hheld hcall hsent hrelease

/-- `try_enqueue` has refused the node, and the caller is to release it. -/
theorem Sound.refuse {old : Caller} (h : s.Sound) (lock : Option Nat) (hp : s.callers t = old)
    (hheld : old.held = some node) (hrelease : ∀ n, old ≠ .release n) :
    ({ s with lock := lock, refused := s.refused ++ [node] }.goto t (.release node)).Sound := by
  subst hp
  refine h.move t (.release node) ⟨rfl, rfl, rfl, rfl, rfl, rfl⟩ rfl (fun n hn => ?_) nofun nofun
    hrelease (fun _ _ => rfl) (fun n hn => .inl hn) fun n hn => ?_
  · rw [hheld]
    exact hn
  · rcases List.mem_append.mp hn with hn | hn
    · exact .inl hn
    · rw [List.mem_singleton.mp hn]
      exact .inr ⟨hheld, rfl⟩

/-- `try_enqueue` has put the node and unlocks. -/
theorem Sound.accept {before : Nat} (h : s.Sound) (hp : s.callers t = .unlock call node before)
    (hheld : pc.held = none) (hcall : pc.call = none)
    (hsent : pc.sent = none ∨ pc.sent = some (call, node)) :
    ({ s with lock := none, accepted := s.accepted ++ [node] }.goto t pc).Sound := by
  have hold : (s.callers t).sent = some (call, node) := by rw [hp]; rfl
  refine h.move t pc ⟨rfl, rfl, rfl, rfl, rfl, rfl⟩ rfl (fun n hn => ?_) (fun c hc => ?_)
    (fun x hx => ?_) (fun n => ?_) (fun _ _ => rfl) (fun n hn => ?_) fun n hn => .inl hn
  · rw [hheld] at hn
    cases hn
  · rw [hcall] at hc
    cases hc
  · rcases hsent with he | he <;> rw [he] at hx
    · cases hx
    · exact hold.trans hx
  · rw [hp]
    exact nofun
  · rcases List.mem_append.mp hn with hn | hn
    · exact .inl hn
    · rw [List.mem_singleton.mp hn]
      exact .inr ⟨call, hold⟩

/-- The semaphore of a caller without a node is reset. -/
theorem Sound.resetDone {old : Caller} (h : s.Sound) (hp : s.callers t = old)
    (hheld : pc.held = none) (hcall : pc.call = none) (hsent : pc.sent = none)
    (hrelease : ∀ n, old ≠ .release n) :
    ({ s with done := Function.update s.done t false }.goto t pc).Sound := by
  subst hp
  refine h.move t pc ⟨rfl, rfl, rfl, rfl, rfl, rfl⟩ rfl (fun n hn => ?_) (fun c hc => ?_)
    (fun x hx => ?_) hrelease (fun u hu => ?_) (fun n hn => .inl hn) fun n hn => .inl hn
  · rw [hheld] at hn
    cases hn
  · rw [hcall] at hc
    cases hc
  · rw [hsent] at hx
    cases hx
  · exact Function.update_of_ne (fun he => hu he hsent) ..

theorem callerStep_sound (h : s.Sound) (hs : s.callerStep t = some s') : s'.Sound := by
  unfold callerStep at hs
  cases hp : s.callers t with
  | check call =>
    rw [hp] at hs
    dsimp only at hs
    split_ifs at hs <;> cases hs
    · exact h.pass hp ⟨.inl rfl, .inl rfl, .inl rfl, nofun⟩ .refl rfl rfl rfl rfl
    · exact h.resetDone hp rfl rfl rfl nofun
  | allocate call =>
    rw [hp] at hs
    dsimp only at hs
    split_ifs at hs
    · cases hs
      exact h.pass hp ⟨.inl rfl, .inl rfl, .inl rfl, nofun⟩ .refl rfl rfl rfl rfl
    · cases call <;> cases hs <;> exact h.take rfl hp rfl rfl rfl
  | enter call node =>
    rw [hp] at hs
    dsimp only at hs
    split_ifs at hs <;> cases hs
    · exact h.refuse s.lock hp rfl nofun
    · exact h.pass hp ⟨.inr rfl, .inr rfl, .inl rfl, nofun⟩ .refl rfl rfl rfl rfl
  | put call node before =>
    rw [hp] at hs
    cases hs
    exact h.put hp
  | unlock call node before =>
    rw [hp] at hs
    cases call <;> cases hs
    · exact h.accept hp rfl rfl (.inl rfl)
    · exact h.accept hp rfl rfl (.inl rfl)
    · exact h.accept hp rfl rfl (.inr rfl)
    · exact h.pass hp ⟨.inl rfl, .inl rfl, .inr rfl, nofun⟩ ⟨rfl, rfl, rfl, rfl, rfl, rfl⟩
        rfl rfl rfl rfl
  | unlockRefused node =>
    rw [hp] at hs
    cases hs
    exact h.refuse none hp rfl nofun
  | release node =>
    rw [hp] at hs
    cases hs
    exact h.discard (by rw [hp]; rfl) rfl rfl fun m hm => by rw [hp] at hm; cases hm; rfl
  | releaseLocked node =>
    rw [hp] at hs
    cases hs
    exact h.discard (by rw [hp]; rfl) rfl rfl fun m hm => by rw [hp] at hm; cases hm
  | wait call node before =>
    rw [hp] at hs
    dsimp only at hs
    split_ifs at hs <;> cases hs <;> exact h.resetDone hp rfl rfl rfl nofun
  | _ =>
    -- The others read, lock or unlock, and keep their node or have none.
    rw [hp] at hs
    dsimp only at hs
    try split_ifs at hs
    all_goals cases hs
    all_goals
      refine h.pass hp ?_ ⟨rfl, rfl, rfl, rfl, rfl, rfl⟩ rfl rfl rfl rfl
      simp [Passes, Caller.held, Caller.call, Caller.sent]

/-- The dispatcher goes on with the node that it has, or with the next one of the FIFO. -/
theorem Sound.turn (h : s.Sound) (hs : s'.sent = s.sent) (hc : s'.callers = s.callers)
    (hall : s'.allocated = s.allocated) (hstop : ∀ n, s'.stopper = .put n → s.stopper = .put n)
    (hacc : s'.accepted = s.accepted) (href : s'.refused = s.refused)
    (hrel : s'.released = s.released) (hinv : ∀ n ∈ s.invoked, n ∈ s'.invoked)
    (hdone : ∀ t, s.done t = true → s'.done t = true)
    (hnew : ∀ n ∈ s'.invoked, n ∈ s.invoked ∨ ∀ t, woken n = some t → s'.done t = true)
    (hfreed : ∀ n ∈ s'.invoked, n ∈ s.released ∨ n ∈ s'.loop.used)
    (hused : ∀ n ∈ s'.loop.used, n ∈ s'.invoked ∧ n ∉ s.released) : s'.Sound := by
  refine ⟨?_, ?_, ?_, ?_, ?_, ?_, ?_, ?_, ?_, ?_, ?_, ?_⟩
  · rw [hs]
    exact h.nodup
  · rw [hrel]
    exact h.releasedNodup
  · rw [hs, hall]
    exact h.sentKnown
  · rw [hrel, hall]
    exact h.releasedKnown
  · rw [hs, hrel, hall, hc]
    exact h.held
  · intro n hn
    rw [hs, hrel, hall]
    exact h.noop n (hstop n hn)
  · intro t call n hn
    rw [hc] at hn
    rw [hs]
    obtain ⟨h1, h2, h3, h4⟩ := h.waiting t call n hn
    refine ⟨h1, h2, h3, ?_⟩
    intro hi hw
    rcases hnew n hi with hi | hi
    · exact hdone t (h4 hi hw)
    · exact hi t hw
  · rw [hs, hacc]
    exact h.accepted
  · rw [hs, hrel, hc, href]
    exact h.refused
  · rw [hrel]
    exact hfreed
  · intro n hn hsn
    rw [hrel] at hn
    rw [hs] at hsn
    exact hinv n (h.released n hn hsn)
  · rw [hrel]
    exact hused

/-- A step of the dispatcher that takes no node, invokes none and releases none. -/
theorem Sound.turn_idle (h : s.Sound) {lifecycle : Lifecycle} {loop : Loop}
    (ht : s.loop.taken = loop.taken) (hu : s.loop.used = loop.used) :
    Sound { s with lifecycle := lifecycle, loop := loop } := by
  refine h.turn ?_ rfl rfl (fun _ hn => hn) rfl rfl rfl (fun _ hn => hn) (fun _ hd => hd)
    (fun _ hn => .inl hn) ?_ ?_
  · simp [Dispatch.sent, ht]
  · rw [← hu]
    exact h.freed
  · rw [← hu]
    exact h.used

/-- The dispatcher takes the first node of the FIFO. -/
theorem Sound.pop (h : s.Sound) {rest : List Node} {draining : Bool} (hf : s.fifo = n :: rest)
    (ht : s.loop.taken = []) (hu : s.loop.used = []) :
    Sound { s with fifo := rest, loop := .invoke draining n } := by
  refine h.turn ?_ rfl rfl (fun _ hn => hn) rfl rfl rfl (fun _ hn => hn) (fun _ hd => hd)
    (fun _ hn => .inl hn) ?_ nofun
  · rw [Dispatch.sent, Dispatch.sent, ht, hf, List.append_nil, List.append_assoc]
    rfl
  · intro m hm
    have hfreed := h.freed m hm
    rw [hu] at hfreed
    exact hfreed

/-- The dispatcher invokes the node that it has taken. -/
theorem Sound.invoke (h : s.Sound) {draining : Bool} (hl : s.loop = .invoke draining n) :
    Sound { s.invokeNode n with loop := .release draining n } := by
  have hused : s.loop.used = [] := by rw [hl]; rfl
  have hfresh : n ∉ s.invoked := by
    have hn := h.nodup
    rw [Dispatch.sent, hl, List.append_assoc] at hn
    intro hm
    exact List.disjoint_of_nodup_append hn hm (by simp [Loop.taken])
  refine h.turn ?_ rfl rfl (fun _ hn => hn) rfl rfl rfl ?_ ?_ ?_ ?_ ?_
  · simp [Dispatch.sent, hl, Loop.taken, invokeNode]
  · intro m hm
    exact List.mem_append_left _ hm
  · intro t ht
    simp [invokeNode, ht]
  · intro m hm
    rcases List.mem_append.mp hm with hm | hm
    · exact .inl hm
    · rw [List.mem_singleton.mp hm]
      refine .inr fun t ht => ?_
      simp [invokeNode, ht]
  · intro m hm
    rcases List.mem_append.mp hm with hm | hm
    · rcases h.freed m hm with hm | hm
      · exact .inl hm
      · rw [hused] at hm
        cases hm
    · exact .inr hm
  · intro m hm
    rw [List.mem_singleton.mp hm]
    refine ⟨List.mem_append_right _ (List.mem_singleton_self n), ?_⟩
    intro hr
    apply hfresh (h.released n hr _)
    simp [Dispatch.sent, hl, Loop.taken]

/-- The dispatcher releases the node that it has invoked. -/
theorem Sound.free (h : s.Sound) {draining : Bool} {loop : Loop} (hl : s.loop = .release draining n)
    (ht : loop.taken = []) (hu : loop.used = []) : Sound { s.releaseNode n with loop := loop } := by
  obtain ⟨hinv, hrel⟩ := h.used n (by rw [hl]; exact List.mem_singleton_self n)
  have hsent : n ∈ s.sent := List.mem_append_left _ (List.mem_append_left _ hinv)
  have hs : Dispatch.sent { s.releaseNode n with loop := loop } = s.sent := by
    rw [Dispatch.sent, Dispatch.sent, hl, ht]
    rfl
  refine ⟨?_, ?_, ?_, ?_, ?_, ?_, ?_, ?_, ?_, ?_, ?_, ?_⟩
  · rw [hs]
    exact h.nodup
  · exact h.releasedNodup.append (List.nodup_singleton n) (by simpa using hrel)
  · rw [hs]
    exact h.sentKnown
  · intro m hm
    rcases List.mem_append.mp hm with hm | hm
    · exact h.releasedKnown m hm
    · rw [List.mem_singleton.mp hm]
      exact h.sentKnown n hsent
  · intro t m hm
    rw [hs]
    obtain ⟨h1, h2, h3, h4, h5⟩ := h.held t m hm
    refine ⟨h1, h2, h3, ?_, h5⟩
    simp only [releaseNode, List.mem_append, List.mem_singleton, not_or]
    exact ⟨h4, fun he => h3 (he ▸ hsent)⟩
  · intro m hm
    rw [hs]
    obtain ⟨h1, h2, h3, h4⟩ := h.noop m hm
    refine ⟨h1, h2, h3, ?_⟩
    simp only [releaseNode, List.mem_append, List.mem_singleton, not_or]
    exact ⟨h4, fun he => h3 (he ▸ hsent)⟩
  · rw [hs]
    exact h.waiting
  · rw [hs]
    exact h.accepted
  · intro m hm
    rw [hs]
    obtain ⟨h0, h1, h2⟩ := h.refused m hm
    exact ⟨h0, h1, h2.imp_left fun hm => List.mem_append_left _ hm⟩
  · intro m hm
    refine .inl ?_
    rcases h.freed m hm with hm | hm
    · exact List.mem_append_left _ hm
    · rw [hl] at hm
      exact List.mem_append_right _ hm
  · intro m hm hsm
    rw [hs] at hsm
    rcases List.mem_append.mp hm with hm | hm
    · exact h.released m hm hsm
    · rw [List.mem_singleton.mp hm]
      exact hinv
  · intro m hm
    rw [hu] at hm
    cases hm

theorem loopStep_sound (h : s.Sound) (hs : s.loopStep = some s') : s'.Sound := by
  unfold loopStep at hs
  cases hl : s.loop with
  | get =>
    rw [hl] at hs
    cases hf : s.fifo with
    | nil =>
      rw [hf] at hs
      cases hs
    | cons node rest =>
      rw [hf] at hs
      cases hs
      exact h.pop hf (by rw [hl]; rfl) (by rw [hl]; rfl)
  | invoke draining node =>
    rw [hl] at hs
    cases hs
    exact h.invoke hl
  | release draining node =>
    rw [hl] at hs
    cases hs
    cases draining <;> exact h.free hl rfl rfl
  | check =>
    rw [hl] at hs
    cases hs
    split_ifs <;> exact h.turn_idle (by rw [hl]; rfl) (by rw [hl]; rfl)
  | drain =>
    rw [hl] at hs
    cases hf : s.fifo with
    | nil =>
      rw [hf] at hs
      cases hs
      have hturn : Sound { s with loop := .finish } := h.turn_idle (by rw [hl]; rfl) (by rw [hl]; rfl)
      rw [hf] at hturn
      exact hturn
    | cons node rest =>
      rw [hf] at hs
      cases hs
      exact h.pop hf (by rw [hl]; rfl) (by rw [hl]; rfl)
  | finish =>
    rw [hl] at hs
    cases hs
    exact h.turn_idle (by rw [hl]; rfl) (by rw [hl]; rfl)
  | ended =>
    rw [hl] at hs
    cases hs

/-- `request_stop` takes a node for its no-op. -/
theorem Sound.take_noop (h : s.Sound) (hn : n = ⟨s.allocated, .noop, none⟩) :
    Sound { s.takeNode with stopper := .put n } := by
  have hfresh := h.fresh (n := n) (by rw [hn])
  refine ⟨h.nodup, h.releasedNodup, ?_, ?_, ?_, ?_, h.waiting, h.accepted, h.refused, h.freed,
    h.released, h.used⟩
  · intro m hm
    exact Nat.lt_succ_of_lt (h.sentKnown m hm)
  · intro m hm
    exact Nat.lt_succ_of_lt (h.releasedKnown m hm)
  · intro t m hm
    obtain ⟨h1, h2, h3⟩ := h.held t m hm
    exact ⟨h1, Nat.lt_succ_of_lt h2, h3⟩
  · intro m hm
    cases hm
    refine ⟨by rw [hn], ?_, hfresh.1, hfresh.2⟩
    rw [hn]
    exact Nat.lt_succ_self _

/-- `request_stop` puts its no-op into the FIFO. -/
theorem Sound.put_noop (h : s.Sound) (hp : s.stopper = .put n) :
    Sound { s with fifo := s.fifo ++ [n], stopper := .done } := by
  obtain ⟨hcaller, hid, hfresh, hreleased⟩ := h.noop n hp
  apply h.append hfresh hreleased hid _ rfl
  · intro t m hm
    refine ⟨?_, hm, rfl⟩
    rintro rfl
    have hc := (h.held t m hm).1
    rw [hcaller] at hc
    cases hc
  · exact nofun
  · intro t call m hm
    exact .inl hm
  · exact fun t m hm => hm
  · intro hm
    exact (h.refused n hm).1 hcaller

theorem stopStep_sound (h : s.Sound) (hs : s.stopStep = some s') : s'.Sound := by
  unfold stopStep at hs
  cases hp : s.stopper with
  | idle =>
    rw [hp] at hs
    cases hs
    exact h.turn rfl rfl rfl nofun rfl rfl rfl (fun _ hn => hn) (fun _ hd => hd)
      (fun _ hn => .inl hn) h.freed h.used
  | allocate =>
    rw [hp] at hs
    dsimp only at hs
    split_ifs at hs
    cases hs
    exact h.take_noop rfl
  | put node =>
    rw [hp] at hs
    cases hs
    exact h.put_noop hp
  | done =>
    rw [hp] at hs
    cases hs

theorem step_sound (h : s.Sound) (hs : s.step l = some s') : s'.Sound := by
  cases l with
  | call t call =>
    simp only [step] at hs
    split_ifs at hs with hp
    cases hs
    exact h.goto_move .refl rfl rfl rfl rfl (.inl rfl) (.inl rfl) (.inl rfl)
      fun n => by rw [hp]; exact nofun
  | caller t => exact callerStep_sound h hs
  | dispatcher => exact loopStep_sound h hs
  | stop => exact stopStep_sound h hs

end Dispatch

end Zlibs.Signaling
