import Zlibs.Signaling.Replay

/-! What two subscribers hear of the same publishes, some of which callbacks issue while an outer
one is being delivered. -/
namespace Zlibs.Signaling

variable {Signal : Type} {callbacks : Callbacks Signal} {ch t u : Channel Signal} {signal : Signal}
  {signals : List Signal} {ops : List (Op Signal)} {op : Op Signal} {id depth : Nat}

namespace Channel

/-- One operation on a channel whose callbacks may publish. -/
def perform (callbacks : Callbacks Signal) (depth : Nat) (ch : Channel Signal) :
    Op Signal → Option (Channel Signal)
  | .subscribe replay _ => some (ch.subscribe replay).2.2
  | .unsubscribe id => some (ch.unsubscribe id)
  | .publish signal => ch.publish callbacks depth signal
  | .replay => ch.replay callbacks depth

def ids (ch : Channel Signal) : List Nat := ch.subscribers.map Slot.id

/-- Every slot is of a subscription that lasts, and nothing is being cleaned up. -/
structure Tidy (ch : Channel Signal) : Prop where
  callable : ∀ slot ∈ ch.subscribers, slot.callable
  clean : ch.cleanupRequired = false
  nodup : ch.ids.Nodup
  below : ∀ id ∈ ch.ids, id ≤ ch.nextId

/-- What a delivery leaves as it is. -/
structure Frame (ch t : Channel Signal) : Prop where
  ids : t.ids = ch.ids
  callable : t.subscribers.map Slot.callable = ch.subscribers.map Slot.callable
  depth : t.publishDepth = ch.publishDepth
  clean : t.cleanupRequired = ch.cleanupRequired
  nextId : t.nextId = ch.nextId

theorem Frame.refl : Frame ch ch := ⟨rfl, rfl, rfl, rfl, rfl⟩

theorem Frame.trans (h : Frame ch t) (h' : Frame t u) : Frame ch u :=
  ⟨h'.ids.trans h.ids, h'.callable.trans h.callable, h'.depth.trans h.depth,
    h'.clean.trans h.clean, h'.nextId.trans h.nextId⟩

theorem Frame.tidy (h : Frame ch t) (hch : ch.Tidy) : t.Tidy := by
  refine ⟨?_, h.clean.trans hch.clean, h.ids ▸ hch.nodup, ?_⟩
  · intro slot hs
    have hm : slot.callable ∈ ch.subscribers.map Slot.callable := by
      rw [← h.callable]
      exact List.mem_map_of_mem hs
    obtain ⟨slot', hs', he⟩ := List.mem_map.mp hm
    rw [← he]
    exact hch.callable slot' hs'
  · rw [h.ids, h.nextId]
    exact hch.below

/-- What every publish below some depth keeps, and hands over from one state to the next. -/
structure Transitive (Rel : Channel Signal → Channel Signal → Prop) : Prop where
  refl : ∀ ch, Rel ch ch
  trans : ∀ ch t u, Rel ch t → Rel t u → Rel ch u

theorem foldlM_relates {Rel : Channel Signal → Channel Signal → Prop} (hr : Transitive Rel)
    {nested : Signal → Channel Signal → Option (Channel Signal)}
    (hn : ∀ s ch t, nested s ch = some t → Rel ch t)
    (h : signals.foldlM (fun ch s => nested s ch) ch = some t) : Rel ch t := by
  induction signals generalizing ch with
  | nil =>
    cases h
    exact hr.refl _
  | cons signal rest ih =>
    rw [List.foldlM_cons] at h
    obtain ⟨u, hu, h⟩ := Option.bind_eq_some_iff.mp h
    exact hr.trans _ _ _ (hn _ _ _ hu) (ih h)

/-- A relation that one call of a slot keeps, and that publishes keep, is kept by the loop. -/
theorem deliver_relates {Rel : Channel Signal → Channel Signal → Prop} (hr : Transitive Rel)
    {nested : Signal → Channel Signal → Option (Channel Signal)} {wanted : Slot → Bool}
    {payload : Channel Signal → Option Signal} {indices : List Nat}
    (hn : ∀ s ch t, nested s ch = some t → Rel ch t)
    (hcall : ∀ (ch : Channel Signal), ∀ i ∈ indices, ∀ slot signal, ch.subscribers[i]? = some slot →
      Rel ch { ch with
        subscribers := ch.subscribers.set i { slot with needsReplay := false }
        calls := ch.calls ++ [(slot.id, signal)] })
    (h : deliver nested callbacks wanted payload indices ch = some t) : Rel ch t := by
  induction indices generalizing ch with
  | nil =>
    cases h
    exact hr.refl _
  | cons i rest ih =>
    have hothers := fun ch j hj => hcall ch j (List.mem_cons_of_mem i hj)
    rw [deliver] at h
    split at h
    · rename_i slot signal hget _
      split_ifs at h
      · obtain ⟨u, hu, h⟩ := Option.bind_eq_some_iff.mp h
        have hfirst := hcall ch i List.mem_cons_self slot signal hget
        exact hr.trans _ _ _ (hr.trans _ _ _ hfirst (foldlM_relates hr hn hu)) (ih hothers h)
      · exact ih hothers h
    · exact ih hothers h

/-- While nothing is to be cleaned up, the slots stay as they are but for their replay flags. -/
def Frames (ch t : Channel Signal) : Prop := ch.cleanupRequired = false → Frame ch t

theorem frames_transitive : Transitive (@Frames Signal) := by
  refine ⟨fun _ _ => .refl, ?_⟩
  intro ch t u h h' hc
  exact (h hc).trans (h' ((h hc).clean.trans hc))

theorem set_map {β : Type} {f : Slot → β} {slots : List Slot} {i : Nat} {slot slot' : Slot}
    (hget : slots[i]? = some slot) (hf : f slot' = f slot) :
    (slots.set i slot').map f = slots.map f := by
  rw [List.map_set, hf]
  apply List.ext_getElem?
  intro j
  rw [List.getElem?_set]
  split_ifs with hj hl
  · subst hj
    simp [hget]
  · subst hj
    rw [List.getElem?_eq_none (by omega)]
  · rfl

theorem frame_call {i : Nat} {slot : Slot} (hget : ch.subscribers[i]? = some slot) :
    Frame ch { ch with
      subscribers := ch.subscribers.set i { slot with needsReplay := false }
      calls := ch.calls ++ [(slot.id, signal)] } :=
  ⟨set_map hget rfl, set_map hget rfl, rfl, rfl, rfl⟩

theorem cleanupSubs_eq (h : ch.cleanupRequired = false) : ch.cleanupSubs = ch := by
  simp [cleanupSubs, h]

theorem leave_eq (h : ch.cleanupRequired = false) :
    { ch with publishDepth := ch.publishDepth - 1 }.cleanupSubs =
      { ch with publishDepth := ch.publishDepth - 1 } := cleanupSubs_eq h

theorem publish_frames (depth : Nat) (signal : Signal)
    (h : publish callbacks depth signal ch = some t) : Frames ch t := by
  induction depth generalizing signal ch t with
  | zero => cases h
  | succ depth ih =>
    obtain ⟨u, hu, rfl⟩ := Option.map_eq_some_iff.mp h
    intro hc
    have hf := deliver_relates frames_transitive (fun s _ _ => ih s)
      (fun _ _ _ _ _ hget _ => frame_call hget) hu hc
    have hclean : u.cleanupRequired = false := hf.clean.trans hc
    rw [leave_eq hclean]
    refine ⟨hf.ids, hf.callable, ?_, hf.clean, hf.nextId⟩
    simp [hf.depth]

theorem replay_frames (h : replay callbacks depth ch = some t) : Frames ch t := by
  intro hc
  unfold replay at h
  split_ifs at h
  · obtain ⟨u, hu, rfl⟩ := Option.map_eq_some_iff.mp h
    have hf := deliver_relates frames_transitive (fun s _ _ => publish_frames depth s)
      (fun _ _ _ _ _ hget _ => frame_call hget) hu hc
    have hclean : u.cleanupRequired = false := hf.clean.trans hc
    rw [leave_eq hclean]
    refine ⟨hf.ids, hf.callable, ?_, hf.clean, hf.nextId⟩
    simp [hf.depth]
  · rw [cleanupSubs_eq hc] at h
    cases h
    exact .refl

/-- The calls that are added for one subscription. -/
theorem callsTo_append {calls : List (Nat × Signal)} (ht : t.calls = ch.calls ++ calls) :
    t.callsTo id = ch.callsTo id ++ (calls.filter (·.1 = id)).map Prod.snd := by
  simp [callsTo, ht]

theorem filter_nodup {xs : List Nat} (h : xs.Nodup) (hm : id ∈ xs) :
    xs.filter (· = id) = [id] := by
  rw [List.filter_eq, List.count_eq_one_of_mem h hm]
  rfl

theorem range_getElem? (xs : List Nat) : (List.range xs.length).filterMap (xs[·]?) = xs := by
  induction xs using List.reverseRecOn with
  | nil => rfl
  | append_singleton xs x ih =>
    have hfront : (List.range xs.length).filterMap ((xs ++ [x])[·]?) = xs := by
      refine Eq.trans ?_ ih
      apply List.filterMap_congr
      intro i hi
      rw [List.getElem?_append_left (List.mem_range.mp hi)]
    rw [List.length_append, List.length_singleton, List.range_succ, List.filterMap_append, hfront]
    simp

/-- Every subscriber hears the same signals, in some order. -/
def Shares (ch t : Channel Signal) : Prop :=
  ch.Tidy → Frame ch t ∧ ∃ heard, ∀ id ∈ ch.ids, (t.callsTo id).Perm (ch.callsTo id ++ heard)

theorem shares_transitive : Transitive (@Shares Signal) := by
  constructor
  · intro ch _
    exact ⟨.refl, [], fun id _ => by simp⟩
  · intro ch t u h h' hch
    obtain ⟨hf, heard, hh⟩ := h hch
    obtain ⟨hf', heard', hh'⟩ := h' (hf.tidy hch)
    refine ⟨hf.trans hf', heard ++ heard', fun id hid => ?_⟩
    rw [← List.append_assoc]
    exact (hh' id (hf.ids ▸ hid)).trans ((hh id hid).append_right _)

/-- The loop calls each slot once, besides what callbacks publish meanwhile. -/
theorem deliver_shares {nested : Signal → Channel Signal → Option (Channel Signal)}
    {indices : List Nat} (hn : ∀ s ch t, nested s ch = some t → Shares ch t) (hch : ch.Tidy)
    (h : deliver nested callbacks (·.callable) (fun _ => some signal) indices ch = some t) :
    Frame ch t ∧ ∃ heard, ∀ id ∈ ch.ids, (t.callsTo id).Perm (ch.callsTo id ++
      (heard ++ ((indices.filterMap (ch.ids[·]?)).filter (· = id)).map fun _ => signal)) := by
  induction indices generalizing ch with
  | nil =>
    cases h
    exact ⟨.refl, [], fun id _ => by simp⟩
  | cons i rest ih =>
    rw [deliver] at h
    cases hget : ch.subscribers[i]? with
    | none =>
      rw [hget] at h
      have hnone : ch.ids[i]? = none := by simp [ids, hget]
      obtain ⟨hf, heard, hh⟩ := ih hch h
      exact ⟨hf, heard, fun id hid => by simpa [hnone] using hh id hid⟩
    | some slot =>
      rw [hget] at h
      have hsome : ch.ids[i]? = some slot.id := by simp [ids, hget]
      dsimp only at h
      rw [if_pos (hch.callable slot (List.mem_of_getElem? hget))] at h
      obtain ⟨u, hu, h⟩ := Option.bind_eq_some_iff.mp h
      have hcall := @frame_call _ ch signal i slot hget
      obtain ⟨hfu, first, hfirst⟩ :=
        foldlM_relates shares_transitive hn hu (hcall.tidy hch)
      have hframe := hcall.trans hfu
      obtain ⟨hf, heard, hh⟩ := ih (hframe.tidy hch) h
      refine ⟨hframe.trans hf, first ++ heard, fun id hid => ?_⟩
      have hstep := hfirst id (hcall.ids ▸ hid)
      have hcalls : Channel.callsTo id { ch with
          subscribers := ch.subscribers.set i { slot with needsReplay := false }
          calls := ch.calls ++ [(slot.id, signal)] } =
            ch.callsTo id ++ (([(slot.id, signal)].filter (·.1 = id)).map Prod.snd) :=
        callsTo_append rfl
      rw [hcalls] at hstep
      refine (hh id (hframe.ids ▸ hid)).trans ?_
      refine (hstep.append_right _).trans ?_
      rw [hframe.ids, List.filterMap_cons_some hsome]
      simp only [List.append_assoc]
      refine List.Perm.append_left _ ?_
      by_cases he : slot.id = id
      · simp only [he, List.filter_cons, decide_true, if_true, List.filter_nil, List.map_cons,
          List.map_nil]
        rw [List.singleton_append]
        refine List.perm_middle.symm.trans ?_
        refine List.Perm.append_left _ ?_
        exact List.perm_middle.symm
      · simp [he]

theorem publish_shares (depth : Nat) (signal : Signal)
    (h : publish callbacks depth signal ch = some t) : Shares ch t := by
  induction depth generalizing signal ch t with
  | zero => cases h
  | succ depth ih =>
    intro hch
    refine ⟨publish_frames (depth + 1) signal h hch.clean, ?_⟩
    obtain ⟨u, hu, rfl⟩ := Option.map_eq_some_iff.mp h
    have htidy : { ch with
        lastSignal := some signal, publishDepth := ch.publishDepth + 1 }.Tidy := by
      exact ⟨hch.callable, hch.clean, hch.nodup, hch.below⟩
    obtain ⟨hf, heard, hh⟩ := deliver_shares (fun s _ _ => ih s) htidy hu
    have hclean : u.cleanupRequired = false := hf.clean.trans hch.clean
    rw [leave_eq hclean]
    refine ⟨heard ++ [signal], fun id hid => ?_⟩
    have hall : (List.range ch.subscribers.length).filterMap (ch.ids[·]?) = ch.ids := by
      have hr := range_getElem? ch.ids
      rwa [ids, List.length_map] at hr
    have hone : (u.callsTo id).Perm (ch.callsTo id ++ (heard ++
        (((List.range ch.subscribers.length).filterMap (ch.ids[·]?)).filter
          (· = id)).map fun _ => signal)) := hh id hid
    rw [hall, filter_nodup hch.nodup hid] at hone
    exact hone

theorem deliver_append {nested : Signal → Channel Signal → Option (Channel Signal)}
    {wanted : Slot → Bool} {payload : Channel Signal → Option Signal} {is js : List Nat} :
    deliver nested callbacks wanted payload (is ++ js) ch =
      (deliver nested callbacks wanted payload is ch).bind
        (deliver nested callbacks wanted payload js) := by
  induction is generalizing ch with
  | nil => rfl
  | cons i rest ih =>
    rw [List.cons_append, deliver, deliver]
    split
    · split_ifs
      · dsimp only
        rw [Option.bind_assoc]
        congr 1
        funext u
        exact ih
      · exact ih
    · exact ih

/-- A publish up to a subscriber that it calls: the slots before it, then some whose callbacks
publish nothing, then its own callback with what it publishes, and the rest. -/
theorem deliver_around {nested : Signal → Channel Signal → Option (Channel Signal)}
    (hn : ∀ s ch t, nested s ch = some t → Frames ch t) {front silent back : List Nat} (hch : ch.Tidy)
    (hids : ch.ids = front ++ (silent ++ id :: back))
    (hc : ∀ calls, ∀ other ∈ silent, callbacks calls other = [])
    (h : deliver nested callbacks (·.callable) (fun _ => some signal)
      (List.range ch.subscribers.length) ch = some u) :
    ∃ before called signals after,
      deliver nested callbacks (·.callable) (fun _ => some signal) (List.range front.length) ch =
        some before ∧
      Frame before called ∧ called.lastSignal = before.lastSignal ∧
      called.calls = before.calls ++ (silent ++ [id]).map (·, signal) ∧
      List.foldlM (fun ch s => nested s ch) called signals = some after ∧
      deliver nested callbacks (·.callable) (fun _ => some signal)
        (List.range' ((front ++ silent).length + 1) back.length) after = some u := by
  have hlen : ch.subscribers.length = front.length + (silent.length + (back.length + 1)) := by
    rw [← List.length_map (f := Slot.id)]
    exact (congrArg List.length hids).trans (by simp)
  rw [hlen, List.range_eq_range', ← List.range'_append_1, deliver_append] at h
  obtain ⟨before, hbefore, h⟩ := Option.bind_eq_some_iff.mp h
  rw [← List.range_eq_range'] at hbefore
  have hfront := deliver_relates frames_transitive hn
    (fun _ _ _ _ _ hget _ => frame_call hget) hbefore hch.clean
  have hbids : before.subscribers.map Slot.id = front ++ (silent ++ id :: back) :=
    hfront.ids.trans hids
  obtain ⟨slots₁, rest, hs, h₁, hrest⟩ := List.map_eq_append_iff.mp hbids
  obtain ⟨slots₂, rest, rfl, h₂, hrest⟩ := List.map_eq_append_iff.mp hrest
  obtain ⟨slot, slots₃, rfl, hid, h₃⟩ := List.map_eq_cons_iff.mp hrest
  have htidy := hfront.tidy hch
  have hquiet : ∀ calls, ∀ slot ∈ slots₂, callbacks calls slot.id = [] := by
    intro calls s hm
    exact hc calls _ (h₂ ▸ List.mem_map_of_mem hm)
  have hcallable : ∀ slot ∈ before.subscribers, slot.callable := htidy.callable
  rw [hs] at hcallable
  -- The silent slots only add a call each.
  have hsilent : deliver nested callbacks (·.callable) (fun _ => some signal)
      (List.range' slots₁.length slots₂.length) before = some _ :=
    deliver_silent before slots₁ slots₂ (slot :: slots₃) (by rw [hs, List.append_assoc]) hquiet
      fun _ _ => rfl
  rw [List.filter_eq_self.mpr fun s hm => hcallable s (by simp [hm])] at hsilent
  have hl₁ : front.length = slots₁.length := by rw [← h₁, List.length_map]
  have hl₂ : silent.length = slots₂.length := by rw [← h₂, List.length_map]
  rw [Nat.zero_add, ← List.range'_append_1, deliver_append, hl₁, hl₂, hsilent, Option.bind_some,
    List.range'_succ, deliver] at h
  have hget : (slots₁ ++ slots₂.map (served (·.callable)) ++ slot :: slots₃)[
      slots₁.length + slots₂.length]? = some slot := by
    simp
  dsimp only at h
  rw [hget] at h
  dsimp only at h
  rw [if_pos (hcallable slot (by simp))] at h
  obtain ⟨after, hafter, h⟩ := Option.bind_eq_some_iff.mp h
  refine ⟨before, _, _, after, hbefore, ?_, ?_, ?_, hafter, ?_⟩
  · refine Frame.trans (t := { before with
      subscribers := slots₁ ++ slots₂.map (served (·.callable)) ++ slot :: slots₃
      calls := before.calls ++ slots₂.map fun slot => (slot.id, signal) }) ?_
        (@frame_call _ _ signal _ _ hget)
    exact ⟨by simp [ids, hs, Function.comp_def, served_id],
      by simp [hs, Function.comp_def, served_callable], rfl, rfl, rfl⟩
  · rfl
  · simp [← h₂, hid, Function.comp_def]
  · rw [List.length_append, hl₁, hl₂]
    exact h

/-- What a subscription other than the called one has heard. -/
theorem callsTo_other {calls : List (Nat × Signal)} (ht : t.calls = ch.calls ++ calls)
    (hne : ∀ call ∈ calls, call.1 ≠ id) : t.callsTo id = ch.callsTo id := by
  rw [callsTo_append ht, List.filter_eq_nil_iff.mpr fun call hm => by simpa using hne call hm]
  simp

/-- Two subscribers hear the same signals in the same order. -/
def Agrees (subscribed : List Nat) (a b : Nat) (ch t : Channel Signal) : Prop :=
  ch.Tidy → ch.ids = subscribed → Frame ch t ∧ ∃ heard,
    t.callsTo a = ch.callsTo a ++ heard ∧ t.callsTo b = ch.callsTo b ++ heard

/-- A subscriber hears the cached signal last. -/
def Latest (subscribed : List Nat) (a : Nat) (ch t : Channel Signal) : Prop :=
  ch.Tidy → ch.ids = subscribed → Frame ch t ∧ ∃ heard,
    t.lastSignal = heard.getLast?.or ch.lastSignal ∧ t.callsTo a = ch.callsTo a ++ heard

variable {subscribed front silent back : List Nat} {a b : Nat}

theorem agrees_transitive : Transitive (@Agrees Signal subscribed a b) := by
  constructor
  · intro ch _ _
    exact ⟨.refl, [], by simp, by simp⟩
  · intro ch t u h h' hch hs
    obtain ⟨hf, heard, ha, hb⟩ := h hch hs
    obtain ⟨hf', heard', ha', hb'⟩ := h' (hf.tidy hch) (hf.ids.trans hs)
    refine ⟨hf.trans hf', heard ++ heard', ?_, ?_⟩
    · rw [ha', ha, List.append_assoc]
    · rw [hb', hb, List.append_assoc]

theorem latest_transitive : Transitive (@Latest Signal subscribed a) := by
  constructor
  · intro ch _ _
    exact ⟨.refl, [], by simp, by simp⟩
  · intro ch t u h h' hch hs
    obtain ⟨hf, heard, hlast, ha⟩ := h hch hs
    obtain ⟨hf', heard', hlast', ha'⟩ := h' (hf.tidy hch) (hf.ids.trans hs)
    refine ⟨hf.trans hf', heard ++ heard', ?_, ?_⟩
    · rw [hlast', hlast, List.getLast?_append, Option.or_assoc]
    · rw [ha', ha, List.append_assoc]

/-- The call of a slot that is neither of the two. -/
theorem call_agrees {i : Nat} {slot : Slot} (hget : ch.subscribers[i]? = some slot)
    (hne : ∀ id, subscribed[i]? = some id → id ≠ a ∧ id ≠ b) :
    Agrees subscribed a b ch { ch with
      subscribers := ch.subscribers.set i { slot with needsReplay := false }
      calls := ch.calls ++ [(slot.id, signal)] } := by
  intro _ hs
  obtain ⟨hna, hnb⟩ := hne slot.id (by rw [← hs, ids, List.getElem?_map, hget]; rfl)
  refine ⟨frame_call hget, [], ?_, ?_⟩
  · rw [List.append_nil]
    exact callsTo_other rfl (by simpa using hna)
  · rw [List.append_nil]
    exact callsTo_other rfl (by simpa using hnb)

theorem call_latest {i : Nat} {slot : Slot} (hget : ch.subscribers[i]? = some slot)
    (hne : ∀ id, subscribed[i]? = some id → id ≠ a) :
    Latest subscribed a ch { ch with
      subscribers := ch.subscribers.set i { slot with needsReplay := false }
      calls := ch.calls ++ [(slot.id, signal)] } := by
  intro hch hs
  refine ⟨frame_call hget, [], by simp, ?_⟩
  rw [List.append_nil]
  refine callsTo_other rfl ?_
  have := hne slot.id (by rw [← hs, ids, List.getElem?_map, hget]; rfl)
  simpa using this

/-- The first slots are of the first subscribers. -/
theorem getElem?_front {i : Nat} (hi : i < front.length) (hid : (front ++ back)[i]? = some id) :
    id ∈ front := by
  rw [List.getElem?_append_left hi] at hid
  exact List.mem_of_getElem? hid

/-- The slots behind the one of a subscriber are of those behind it. -/
theorem getElem?_back {i : Nat} (hi : i ∈ List.range' (front.length + 1) back.length)
    (hid : (front ++ a :: back)[i]? = some id) : id ∈ back := by
  have hlt := (List.mem_range'_1.mp hi).1
  rw [List.getElem?_append_right (by omega),
    show i - front.length = (i - front.length - 1) + 1 by omega, List.getElem?_cons_succ] at hid
  exact List.mem_of_getElem? hid

/-- A callback that publishes nothing, whatever it is called with. -/
def Silent (callbacks : Callbacks Signal) (id : Nat) : Prop := ∀ calls, callbacks calls id = []

theorem callsTo_called {others : List Nat} (hn : others.Nodup) (hm : id ∈ others)
    (ht : t.calls = ch.calls ++ others.map (·, signal)) : t.callsTo id = ch.callsTo id ++ [signal] := by
  rw [callsTo_append ht, List.filter_map, List.map_map]
  have hone : others.filter (fun other => other = id) = [id] := filter_nodup hn hm
  simp [Function.comp_def, hone]

theorem tidy_enter (hch : ch.Tidy) (signal : Signal) :
    { ch with lastSignal := some signal, publishDepth := ch.publishDepth + 1 }.Tidy :=
  ⟨hch.callable, hch.clean, hch.nodup, hch.below⟩

/-- Where neither the first of two subscribers nor one between them publishes, a publish is heard by
both, with what other callbacks publish before and after it. -/
theorem publish_agrees (hids : subscribed = front ++ ((a :: silent) ++ b :: back))
    (hc : ∀ id ∈ a :: silent, Silent callbacks id) (depth : Nat) (signal : Signal)
    (h : publish callbacks depth signal ch = some t) : Agrees subscribed a b ch t := by
  induction depth generalizing signal ch t with
  | zero => cases h
  | succ depth ih =>
    intro hch hs
    have hf := publish_frames (depth + 1) signal h hch.clean
    refine ⟨hf, ?_⟩
    obtain ⟨u, hu, rfl⟩ := Option.map_eq_some_iff.mp h
    have htidy := tidy_enter hch signal
    have hnodup : (front ++ ((a :: silent) ++ b :: back)).Nodup := hids ▸ hs ▸ hch.nodup
    obtain ⟨-, hrest, hapart⟩ := List.nodup_append.mp hnodup
    obtain ⟨-, hright, hleft⟩ := List.nodup_append.mp hrest
    obtain ⟨before, called, signals, after, hbefore, hframe, -, hcalls, hafter, hlast⟩ :=
      deliver_around (fun s _ _ => publish_frames depth s) htidy (hs.trans hids)
        (fun calls id hm => hc id hm calls) hu
    obtain ⟨hf₁, heard₁, ha₁, hb₁⟩ := deliver_relates agrees_transitive (fun s _ _ => ih s)
      (fun ch i hi slot signal hget => call_agrees hget fun id hid => by
        rw [hids] at hid
        have hm := getElem?_front (List.mem_range.mp hi) hid
        exact ⟨hapart id hm a (by simp), hapart id hm b (by simp)⟩) hbefore htidy hs
    have htidy₂ := hframe.tidy (hf₁.tidy htidy)
    have hids₂ := hframe.ids.trans (hf₁.ids.trans hs)
    obtain ⟨hf₃, heard₃, ha₃, hb₃⟩ :=
      foldlM_relates agrees_transitive (fun s _ _ => ih s) hafter htidy₂ hids₂
    obtain ⟨-, heard₄, ha₄, hb₄⟩ := deliver_relates agrees_transitive (fun s _ _ => ih s)
      (fun ch i hi slot signal hget => call_agrees hget fun id hid => by
        rw [hids, ← List.append_assoc] at hid
        have hm := getElem?_back hi hid
        refine ⟨(hleft a (by simp) id (List.mem_cons_of_mem _ hm)).symm, ?_⟩
        rintro rfl
        exact (List.nodup_cons.mp hright).1 hm)
      hlast (hf₃.tidy htidy₂) (hf₃.ids.trans hids₂)
    have hsingle : ((a :: silent) ++ [b]).Nodup :=
      hrest.sublist (List.Sublist.append_left (List.singleton_sublist.mpr List.mem_cons_self) _)
    have ha₂ := callsTo_called hsingle (show a ∈ _ by simp) hcalls
    have hb₂ := callsTo_called hsingle (show b ∈ _ by simp) hcalls
    have hclean : u.cleanupRequired = false := (deliver_relates frames_transitive
      (fun s _ _ => publish_frames depth s) (fun _ _ _ _ _ hget _ => frame_call hget) hu
        hch.clean).clean.trans hch.clean
    rw [leave_eq hclean]
    refine ⟨heard₁ ++ [signal] ++ heard₃ ++ heard₄, ?_, ?_⟩
    · refine ha₄.trans ?_
      rw [ha₃, ha₂, ha₁]
      simp only [List.append_assoc]
      rfl
    · refine hb₄.trans ?_
      rw [hb₃, hb₂, hb₁]
      simp only [List.append_assoc]
      rfl

/-- Where no subscriber that is called before this one publishes, it hears the last signal last. -/
theorem publish_latest (hids : subscribed = front ++ a :: back)
    (hc : ∀ id ∈ front, Silent callbacks id) (depth : Nat) (signal : Signal)
    (h : publish callbacks depth signal ch = some t) : Latest subscribed a ch t := by
  induction depth generalizing signal ch t with
  | zero => cases h
  | succ depth ih =>
    intro hch hs
    have hf := publish_frames (depth + 1) signal h hch.clean
    refine ⟨hf, ?_⟩
    obtain ⟨u, hu, rfl⟩ := Option.map_eq_some_iff.mp h
    have htidy := tidy_enter hch signal
    have hnodup : (front ++ a :: back).Nodup := hids ▸ hs ▸ hch.nodup
    obtain ⟨-, hrest, -⟩ := List.nodup_append.mp hnodup
    obtain ⟨before, called, signals, after, hbefore, hframe, hlast₂, hcalls, hafter, hlast⟩ :=
      deliver_around (fun s _ _ => publish_frames depth s) htidy
        (show _ = [] ++ (front ++ a :: back) from hs.trans hids) (fun calls id hm => hc id hm calls) hu
    cases hbefore
    have htidy₂ := hframe.tidy htidy
    have hids₂ := hframe.ids.trans hs
    obtain ⟨hf₃, heard₃, hl₃, ha₃⟩ :=
      foldlM_relates latest_transitive (fun s _ _ => ih s) hafter htidy₂ hids₂
    obtain ⟨-, heard₄, hl₄, ha₄⟩ := deliver_relates latest_transitive (fun s _ _ => ih s)
      (fun ch i hi slot signal hget => call_latest hget fun id hid => by
        rw [hids] at hid
        have hm := getElem?_back hi hid
        rintro rfl
        exact (List.nodup_cons.mp hrest).1 hm)
      hlast (hf₃.tidy htidy₂) (hf₃.ids.trans hids₂)
    have hsingle : (front ++ [a]).Nodup :=
      hnodup.sublist (List.Sublist.append_left (List.singleton_sublist.mpr List.mem_cons_self) _)
    have ha₂ := callsTo_called hsingle (show a ∈ _ by simp) hcalls
    have hclean : u.cleanupRequired = false := (deliver_relates frames_transitive
      (fun s _ _ => publish_frames depth s) (fun _ _ _ _ _ hget _ => frame_call hget) hu
        hch.clean).clean.trans hch.clean
    rw [leave_eq hclean]
    refine ⟨[signal] ++ heard₃ ++ heard₄, ?_, ?_⟩
    · refine hl₄.trans ?_
      rw [hl₃, hlast₂, List.getLast?_append, List.getLast?_append, Option.or_assoc, Option.or_assoc]
      rfl
    · refine ha₄.trans ?_
      rw [ha₃, ha₂]
      simp only [List.append_assoc]
      rfl

def Grows (ch t : Channel Signal) : Prop := ch.calls <+: t.calls

theorem grows_transitive : Transitive (@Grows Signal) :=
  ⟨fun _ => List.prefix_rfl, fun _ _ _ => List.IsPrefix.trans⟩

theorem cleanupSubs_calls : ch.cleanupSubs.calls = ch.calls := by
  unfold cleanupSubs
  split_ifs <;> rfl

theorem publish_grows (depth : Nat) (signal : Signal)
    (h : publish callbacks depth signal ch = some t) : Grows ch t := by
  induction depth generalizing signal ch t with
  | zero => cases h
  | succ depth ih =>
    obtain ⟨u, hu, rfl⟩ := Option.map_eq_some_iff.mp h
    have hg := deliver_relates grows_transitive (fun s _ _ => ih s)
      (fun _ _ _ _ _ _ => List.prefix_append ..) hu
    unfold Grows
    rw [cleanupSubs_calls]
    exact hg

theorem perform_grows (hp : ch.perform callbacks depth op = some t) : Grows ch t := by
  unfold Grows
  cases op with
  | subscribe replay queued =>
    cases hp
    simp only [subscribe, cleanupSubs_calls]
    exact List.prefix_rfl
  | unsubscribe other =>
    cases hp
    unfold unsubscribe
    cases clearFirst other ch.subscribers with
    | none => simp only [cleanupSubs_calls, List.prefix_rfl]
    | some cleared => simp only [cleanupSubs_calls, List.prefix_rfl]
  | publish signal => exact publish_grows depth signal hp
  | replay =>
    rw [perform, replay] at hp
    split_ifs at hp
    · obtain ⟨u, hu, rfl⟩ := Option.map_eq_some_iff.mp hp
      rw [cleanupSubs_calls]
      have hg := deliver_relates grows_transitive (fun s _ _ => publish_grows depth s)
        (fun _ _ _ _ _ _ => List.prefix_append ..) hu
      exact hg
    · cases hp
      rw [cleanupSubs_calls]

theorem subscribe_tidy (h : ch.Tidy) (replay : Bool) : (ch.subscribe replay).2.2.Tidy := by
  simp only [subscribe, cleanupSubs_eq h.clean]
  refine ⟨?_, h.clean, ?_, ?_⟩
  · intro slot hs
    rcases List.mem_append.mp hs with hs | hs
    · exact h.callable slot hs
    · rw [List.mem_singleton.mp hs]
  · have hn : ch.nextId + 1 ∉ ch.ids := fun hm => absurd (h.below _ hm) (by omega)
    have hd := h.nodup.append (List.nodup_singleton (ch.nextId + 1)) (by simpa using hn)
    simpa [ids] using hd
  · intro id hid
    simp only [ids, List.map_append, List.mem_append] at hid
    rcases hid with hid | hid
    · exact Nat.le_succ_of_le (h.below id hid)
    · exact (List.mem_singleton.mp hid).le

/-- Ending a subscription leaves the other ones. -/
theorem unsubscribe_tidy (h : ch.Tidy) (hd : ch.publishDepth = 0) (id : Nat) :
    (ch.unsubscribe id).Tidy ∧ (ch.unsubscribe id).ids.Sublist ch.ids ∧
      ∀ other ∈ ch.ids, other ≠ id → other ∈ (ch.unsubscribe id).ids := by
  have hq : ch.Quiet := ⟨hd, h.clean⟩
  have hf := unsubscribe_frame hq id
  have hsub : (ch.unsubscribe id).ids.Sublist ch.ids ∧
      ∀ slot ∈ (ch.unsubscribe id).subscribers, slot.callable := by
    unfold ids
    rw [unsubscribe_subscribers hq]
    cases hc : clearFirst id ch.subscribers with
    | none => exact ⟨List.Sublist.refl _, h.callable⟩
    | some cleared =>
      refine ⟨?_, fun slot hs => List.of_mem_filter hs⟩
      rw [← clearFirst_ids hc]
      exact List.filter_sublist.map _
  refine ⟨⟨hsub.2, hf.1.clean, h.nodup.sublist hsub.1, ?_⟩, hsub.1, ?_⟩
  · intro other ho
    rw [hf.2.1]
    exact h.below other (hsub.1.subset ho)
  · intro other ho hne
    obtain ⟨slot, hs, rfl⟩ := List.mem_map.mp ho
    have hm : slot ∈ ch.held slot.id :=
      List.mem_filter.mpr ⟨hs, by simp [h.callable slot hs]⟩
    have hheld := unsubscribe_held hq slot.id id
    rw [if_neg (Ne.symm hne)] at hheld
    rw [← hheld] at hm
    exact List.mem_map_of_mem (List.mem_of_mem_filter hm)

/-- Operations leave the channel tidy, and every subscription but one that they end. -/
theorem perform_tidy (h : ch.Tidy) (hd : ch.publishDepth = 0)
    (hp : ch.perform callbacks depth op = some t) : t.Tidy ∧ t.publishDepth = 0 ∧
      ∀ id ∈ ch.ids, op.ends id = false → id ∈ t.ids := by
  cases op with
  | subscribe replay queued =>
    cases hp
    refine ⟨subscribe_tidy h replay, ?_, ?_⟩
    · simp only [subscribe, cleanupSubs_eq h.clean, hd]
    · intro id hid _
      simp only [subscribe, cleanupSubs_eq h.clean, ids, List.map_append]
      exact List.mem_append_left _ hid
  | unsubscribe other =>
    cases hp
    obtain ⟨ht, -, hids⟩ := unsubscribe_tidy h hd other
    refine ⟨ht, (unsubscribe_frame ⟨hd, h.clean⟩ other).1.depth, ?_⟩
    intro id hid he
    apply hids id hid
    rintro rfl
    simp [Op.ends] at he
  | publish signal =>
    have hf := publish_frames depth signal hp h.clean
    exact ⟨hf.tidy h, hf.depth.trans hd, fun id hid _ => hf.ids ▸ hid⟩
  | replay =>
    have hf := replay_frames hp h.clean
    exact ⟨hf.tidy h, hf.depth.trans hd, fun id hid _ => hf.ids ▸ hid⟩

/-- Operations keep the order of the subscriptions that last, and put new ones last. -/
theorem perform_order (h : ch.Tidy) (hd : ch.publishDepth = 0)
    (hp : ch.perform callbacks depth op = some t) :
    ∃ new, (ch.ids ++ new).Nodup ∧ t.ids.Sublist (ch.ids ++ new) := by
  have hsame : t.ids.Sublist ch.ids → ∃ new, (ch.ids ++ new).Nodup ∧ t.ids.Sublist (ch.ids ++ new) :=
    fun hs => ⟨[], by simpa using h.nodup, by simpa using hs⟩
  cases op with
  | subscribe replay queued =>
    have hnew : t.ids = ch.ids ++ [ch.nextId + 1] := by
      cases hp
      simp [subscribe, cleanupSubs_eq h.clean, ids]
    exact ⟨_, hnew ▸ (perform_tidy h hd hp).1.nodup, hnew ▸ List.Sublist.refl _⟩
  | unsubscribe other =>
    cases hp
    exact hsame (unsubscribe_tidy h hd other).2.1
  | publish signal => exact hsame ((publish_frames depth signal hp h.clean).ids ▸ .refl _)
  | replay => exact hsame ((replay_frames hp h.clean).ids ▸ .refl _)

/-- Of two subscribers the first is called before the other, and neither it nor one that is called
between them publishes. -/
def Leads (callbacks : Callbacks Signal) (a b : Nat) (ids : List Nat) : Prop :=
  ∃ front silent back, ids = front ++ ((a :: silent) ++ b :: back) ∧
    ∀ id ∈ a :: silent, Silent callbacks id

/-- No subscriber that is called before this one publishes. -/
def Heads (callbacks : Callbacks Signal) (a : Nat) (ids : List Nat) : Prop :=
  ∃ front back, ids = front ++ a :: back ∧ ∀ id ∈ front, Silent callbacks id

theorem sublist_around {xs : List Nat} (h : xs.Sublist (front ++ a :: back))
    (hn : (front ++ a :: back).Nodup) (ha : a ∈ xs) :
    ∃ front' back', xs = front' ++ a :: back' ∧ front'.Sublist front ∧ back'.Sublist back := by
  obtain ⟨_, hback, hapart⟩ := List.nodup_append.mp hn
  obtain ⟨front', rest, rfl, hf, hr⟩ := List.sublist_append_iff.mp h
  rcases List.sublist_cons_iff.mp hr with hr | ⟨back', rfl, hb⟩
  · rcases List.mem_append.mp ha with ha | ha
    · exact absurd rfl (hapart a (hf.subset ha) a List.mem_cons_self)
    · exact absurd (hr.subset ha) (List.nodup_cons.mp hback).1
  · exact ⟨front', back', rfl, hf, hb⟩

variable {ids ids' new : List Nat}

theorem Heads.sublist (h : Heads callbacks a ids) (hs : ids'.Sublist (ids ++ new))
    (hn : (ids ++ new).Nodup) (ha : a ∈ ids') : Heads callbacks a ids' := by
  obtain ⟨front, back, rfl, hc⟩ := h
  rw [List.append_assoc] at hs hn
  obtain ⟨front', back', rfl, hf, -⟩ := sublist_around hs hn ha
  exact ⟨front', back', rfl, fun id hm => hc id (hf.subset hm)⟩

theorem Leads.sublist (h : Leads callbacks a b ids) (hs : ids'.Sublist (ids ++ new))
    (hn : (ids ++ new).Nodup) (ha : a ∈ ids') (hb : b ∈ ids') : Leads callbacks a b ids' := by
  obtain ⟨front, silent, back, rfl, hc⟩ := h
  have hsplit : front ++ ((a :: silent) ++ b :: back) ++ new =
      (front ++ a :: silent) ++ b :: (back ++ new) := by simp
  rw [hsplit] at hs hn
  obtain ⟨front', back', rfl, hf, hback⟩ := sublist_around hs hn hb
  obtain ⟨hleft, hright, hapart⟩ := List.nodup_append.mp hn
  have ha' : a ∈ front' := by
    rcases List.mem_append.mp ha with ha | ha
    · exact ha
    · have hm : a ∈ b :: (back ++ new) := (hback.cons_cons b).subset ha
      exact absurd rfl (hapart a (by simp) a hm)
  obtain ⟨front'', silent', rfl, -, hsilent⟩ := sublist_around hf hleft ha'
  refine ⟨front'', silent', back', by simp, fun id hm => hc id ?_⟩
  exact (hsilent.cons_cons a).subset hm

end Channel

open Channel

/-- What a subscription has heard between two states. -/
def Channel.heardSince (ch t : Channel Signal) (id : Nat) : List Signal :=
  (t.callsTo id).drop (ch.callsTo id).length

def Channel.run (callbacks : Callbacks Signal) (depth : Nat) (ops : List (Op Signal))
    (ch : Channel Signal) : Option (Channel Signal) :=
  ops.foldlM (Channel.perform callbacks depth) ch

/-- Operations that publish nothing are heard by nobody. -/
theorem perform_unheard (h : ch.Tidy) (hd : ch.publishDepth = 0)
    (hp : ch.perform callbacks depth op = some t) (hn : op ≠ .replay)
    (hs : ∀ signal, op ≠ .publish signal) : t.calls = ch.calls ∧ t.lastSignal = ch.lastSignal := by
  cases op with
  | subscribe replay queued =>
    cases hp
    simp only [Channel.subscribe, Channel.cleanupSubs_eq h.clean, and_self]
  | unsubscribe other =>
    cases hp
    have hf := Channel.unsubscribe_frame ⟨hd, h.clean⟩ other
    exact ⟨hf.2.2.2, hf.2.2.1⟩
  | publish signal => exact absurd rfl (hs signal)
  | replay => exact absurd rfl hn

theorem run_shares (h : ch.Tidy) (hd : ch.publishDepth = 0) (hn : Op.replay ∉ ops)
    (hr : ch.run callbacks depth ops = some t) : ∃ heard, ∀ id ∈ ch.ids,
      (∀ op ∈ ops, op.ends id = false) → (t.callsTo id).Perm (ch.callsTo id ++ heard) := by
  induction ops generalizing ch with
  | nil =>
    cases hr
    exact ⟨[], fun id _ _ => by simp⟩
  | cons op rest ih =>
    rw [Channel.run, List.foldlM_cons] at hr
    obtain ⟨u, hu, hrest⟩ := Option.bind_eq_some_iff.mp hr
    obtain ⟨htidy, hdepth, hids⟩ := Channel.perform_tidy h hd hu
    obtain ⟨heard, hh⟩ := ih htidy hdepth (fun hm => hn (List.mem_cons_of_mem _ hm)) hrest
    have hfirst : ∃ first, ∀ id ∈ ch.ids, (u.callsTo id).Perm (ch.callsTo id ++ first) := by
      by_cases hp : ∃ signal, op = .publish signal
      · obtain ⟨signal, rfl⟩ := hp
        exact (Channel.publish_shares depth signal hu h).2
      · have hc := perform_unheard h hd hu (fun he => hn (he ▸ List.mem_cons_self))
          fun signal he => hp ⟨signal, he⟩
        exact ⟨[], fun id _ => by simp [Channel.callsTo, hc.1]⟩
    obtain ⟨first, hf⟩ := hfirst
    refine ⟨first ++ heard, fun id hid hends => ?_⟩
    have hin := hids id hid (hends op List.mem_cons_self)
    rw [← List.append_assoc]
    exact (hh id hin fun op hm => hends op (List.mem_cons_of_mem _ hm)).trans
      ((hf id hid).append_right _)

theorem run_agrees {a b : Nat} (h : ch.Tidy) (hd : ch.publishDepth = 0) (hn : Op.replay ∉ ops)
    (hma : a ∈ ch.ids) (hmb : b ∈ ch.ids) (hea : ∀ op ∈ ops, op.ends a = false)
    (heb : ∀ op ∈ ops, op.ends b = false) (hl : Leads callbacks a b ch.ids)
    (hr : ch.run callbacks depth ops = some t) :
    ∃ heard, t.callsTo a = ch.callsTo a ++ heard ∧ t.callsTo b = ch.callsTo b ++ heard := by
  induction ops generalizing ch with
  | nil =>
    cases hr
    exact ⟨[], by simp, by simp⟩
  | cons op rest ih =>
    rw [Channel.run, List.foldlM_cons] at hr
    obtain ⟨u, hu, hrest⟩ := Option.bind_eq_some_iff.mp hr
    obtain ⟨htidy, hdepth, hids⟩ := perform_tidy h hd hu
    have hau := hids a hma (hea op List.mem_cons_self)
    have hbu := hids b hmb (heb op List.mem_cons_self)
    obtain ⟨new, hnodup, hsub⟩ := perform_order h hd hu
    obtain ⟨heard, ha, hb⟩ := ih htidy hdepth (fun hm => hn (List.mem_cons_of_mem _ hm)) hau hbu
      (fun op hm => hea op (List.mem_cons_of_mem _ hm))
      (fun op hm => heb op (List.mem_cons_of_mem _ hm)) (hl.sublist hsub hnodup hau hbu) hrest
    have hfirst : ∃ first, u.callsTo a = ch.callsTo a ++ first ∧
        u.callsTo b = ch.callsTo b ++ first := by
      by_cases hp : ∃ signal, op = .publish signal
      · obtain ⟨signal, rfl⟩ := hp
        obtain ⟨front, silent, back, hsplit, hc⟩ := hl
        exact (publish_agrees hsplit hc depth signal hu h rfl).2
      · have hc := perform_unheard h hd hu (fun he => hn (he ▸ List.mem_cons_self))
          fun signal he => hp ⟨signal, he⟩
        exact ⟨[], by simp [callsTo, hc.1], by simp [callsTo, hc.1]⟩
    obtain ⟨first, ha', hb'⟩ := hfirst
    refine ⟨first ++ heard, ?_, ?_⟩
    · rw [ha, ha', List.append_assoc]
    · rw [hb, hb', List.append_assoc]

theorem run_latest {a : Nat} (h : ch.Tidy) (hd : ch.publishDepth = 0) (hn : Op.replay ∉ ops)
    (hma : a ∈ ch.ids) (hea : ∀ op ∈ ops, op.ends a = false) (hl : Heads callbacks a ch.ids)
    (hr : ch.run callbacks depth ops = some t) :
    ∃ heard, t.lastSignal = heard.getLast?.or ch.lastSignal ∧
      t.callsTo a = ch.callsTo a ++ heard := by
  induction ops generalizing ch with
  | nil =>
    cases hr
    exact ⟨[], by simp, by simp⟩
  | cons op rest ih =>
    rw [Channel.run, List.foldlM_cons] at hr
    obtain ⟨u, hu, hrest⟩ := Option.bind_eq_some_iff.mp hr
    obtain ⟨htidy, hdepth, hids⟩ := perform_tidy h hd hu
    have hau := hids a hma (hea op List.mem_cons_self)
    obtain ⟨new, hnodup, hsub⟩ := perform_order h hd hu
    obtain ⟨heard, hlast, ha⟩ := ih htidy hdepth (fun hm => hn (List.mem_cons_of_mem _ hm)) hau
      (fun op hm => hea op (List.mem_cons_of_mem _ hm)) (hl.sublist hsub hnodup hau) hrest
    have hfirst : ∃ first, u.lastSignal = first.getLast?.or ch.lastSignal ∧
        u.callsTo a = ch.callsTo a ++ first := by
      by_cases hp : ∃ signal, op = .publish signal
      · obtain ⟨signal, rfl⟩ := hp
        obtain ⟨front, back, hsplit, hc⟩ := hl
        exact (publish_latest hsplit hc depth signal hu h rfl).2
      · have hc := perform_unheard h hd hu (fun he => hn (he ▸ List.mem_cons_self))
          fun signal he => hp ⟨signal, he⟩
        exact ⟨[], by simp [hc.2], by simp [callsTo, hc.1]⟩
    obtain ⟨first, hlast', ha'⟩ := hfirst
    refine ⟨first ++ heard, ?_, ?_⟩
    · rw [hlast, hlast', List.getLast?_append, Option.or_assoc]
    · rw [ha, ha', List.append_assoc]

theorem run_tidy (h : ch.Tidy) (hd : ch.publishDepth = 0)
    (hr : ch.run callbacks depth ops = some t) : t.Tidy ∧ t.publishDepth = 0 := by
  induction ops generalizing ch with
  | nil =>
    cases hr
    exact ⟨h, hd⟩
  | cons op rest ih =>
    rw [Channel.run, List.foldlM_cons] at hr
    obtain ⟨u, hu, hrest⟩ := Option.bind_eq_some_iff.mp hr
    obtain ⟨htidy, hdepth, _⟩ := Channel.perform_tidy h hd hu
    exact ih htidy hdepth hrest

theorem heardSince_eq {heard : List Signal} (h : t.callsTo id = ch.callsTo id ++ heard) :
    ch.heardSince t id = heard := by
  rw [Channel.heardSince, h, List.drop_left]

/-- The calls of a channel only grow. -/
theorem run_calls (h : ch.Tidy) (hd : ch.publishDepth = 0)
    (hr : ch.run callbacks depth ops = some t) (id : Nat) :
    ∃ heard, t.callsTo id = ch.callsTo id ++ heard := by
  induction ops generalizing ch with
  | nil =>
    cases hr
    exact ⟨[], by simp⟩
  | cons op rest ih =>
    rw [Channel.run, List.foldlM_cons] at hr
    obtain ⟨u, hu, hrest⟩ := Option.bind_eq_some_iff.mp hr
    obtain ⟨htidy, hdepth, _⟩ := Channel.perform_tidy h hd hu
    obtain ⟨heard, hh⟩ := ih htidy hdepth hrest
    obtain ⟨first, hf⟩ : ∃ first, u.callsTo id = ch.callsTo id ++ first := by
      obtain ⟨more, hm⟩ := Channel.perform_grows hu
      exact ⟨_, Channel.callsTo_append hm.symm⟩
    exact ⟨first ++ heard, by rw [hh, hf, List.append_assoc]⟩

/-- Two subscribers hear the same signals, each as often; in the same order where neither the one
that is called first nor one between them publishes; and the cached signal last where nobody called
before does. -/
theorem subscribers_agree {before after : List (Op Signal)}
    (hb : Channel.run callbacks depth before {} = some ch)
    (ha : ch.run callbacks depth after = some t) (hn : Op.replay ∉ after) {a b : Nat}
    (hma : a ∈ ch.ids) (hmb : b ∈ ch.ids) (hea : ∀ op ∈ after, op.ends a = false)
    (heb : ∀ op ∈ after, op.ends b = false) :
    (ch.heardSince t a).Perm (ch.heardSince t b) ∧
      (Leads callbacks a b ch.ids → ch.heardSince t a = ch.heardSince t b) ∧
      (Heads callbacks a ch.ids →
        t.lastSignal = (ch.heardSince t a).getLast?.or ch.lastSignal) := by
  have hempty : ({} : Channel Signal).Tidy :=
    ⟨fun _ h => absurd h List.not_mem_nil, rfl, List.nodup_nil, fun _ h => absurd h List.not_mem_nil⟩
  obtain ⟨htidy, hdepth⟩ := run_tidy hempty rfl hb
  refine ⟨?_, fun hl => ?_, fun hl => ?_⟩
  · obtain ⟨heard, hh⟩ := run_shares htidy hdepth hn ha
    have hperm : ∀ id ∈ ch.ids, (∀ op ∈ after, op.ends id = false) →
        (ch.heardSince t id).Perm heard := by
      intro id hid he
      obtain ⟨more, hm⟩ := run_calls htidy hdepth ha id
      have hp := hh id hid he
      rw [hm] at hp
      rw [heardSince_eq hm]
      exact (List.perm_append_left_iff _).mp hp
    exact (hperm a hma hea).trans (hperm b hmb heb).symm
  · obtain ⟨heard, hha, hhb⟩ := run_agrees htidy hdepth hn hma hmb hea heb hl ha
    rw [heardSince_eq hha, heardSince_eq hhb]
  · obtain ⟨heard, hlast, hha⟩ := run_latest htidy hdepth hn hma hea hl ha
    rw [heardSince_eq hha]
    exact hlast

/-- A subscriber answers a 1 by publishing a 2. -/
def answering (subscriber : Nat) : Callbacks Nat := fun calls id =>
  if id = subscriber ∧ calls.getLast? = some (subscriber, 1) then [2] else []

/-- The second of three subscribers ends its subscription, the third one answers, and the first one
hears what it hears. -/
theorem subscribers_agree_answered : ∃ ch t,
    Channel.run (answering 3) 2 (List.replicate 3 (.subscribe false false)) {} = some ch ∧
      ch.run (answering 3) 2 [.publish 1, .unsubscribe 2, .publish 1] = some t ∧
      ch.heardSince t 1 = [1, 2, 1, 2] ∧ ch.heardSince t 1 = ch.heardSince t 3 ∧
      t.lastSignal = (ch.heardSince t 1).getLast?.or ch.lastSignal := by
  have hsilent : ∀ id, id ≠ 3 → Silent (answering 3) id := fun id hid _ => by simp [answering, hid]
  obtain ⟨ch, hb, t, ha, hheard, hids⟩ : ∃ ch,
      Channel.run (answering 3) 2 (List.replicate 3 (.subscribe false false)) {} = some ch ∧ ∃ t,
        ch.run (answering 3) 2 [.publish 1, .unsubscribe 2, .publish 1] = some t ∧
          ch.heardSince t 1 = [1, 2, 1, 2] ∧ ch.ids = [1, 2, 3] :=
    ⟨_, rfl, _, rfl, by decide, rfl⟩
  refine ⟨ch, t, hb, ha, hheard, ?_⟩
  have hagree := subscribers_agree hb ha (by simp) (a := 1) (b := 3) (by simp [hids])
    (by simp [hids]) (by simp [Op.ends]) (by simp [Op.ends])
  rw [hids] at hagree
  refine ⟨hagree.2.1 ⟨[], [2], [], rfl, ?_⟩, hagree.2.2 ⟨[], [2, 3], rfl, by simp⟩⟩
  intro id hm
  exact hsilent id (by rintro rfl; simp at hm)

/-- The second subscriber hears the answer before what it answers. -/
theorem answering_disagrees : ∃ ch t,
    Channel.run (answering 1) 2 [.subscribe false false, .subscribe false false] {} = some ch ∧
      ch.run (answering 1) 2 [.publish 1] = some t ∧ ch.heardSince t 1 = [1, 2] ∧
        ch.heardSince t 2 = [2, 1] ∧ t.lastSignal = some 2 :=
  ⟨_, _, rfl, rfl, by decide, by decide, rfl⟩

end Zlibs.Signaling
