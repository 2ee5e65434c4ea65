import Zlibs.Signaling.Channel

/-! What a subscription hears: at most one replay, then every signal published while it lasts. -/
namespace Zlibs.Signaling

/-- A channel whose callbacks publish nothing, and the replay jobs queued for it. -/
structure World (Signal : Type) where
  channel : Channel Signal := {}
  replayJobs : Nat := 0

/-- What happens to a channel; a subscription's replay job may be dropped instead of queued. -/
inductive Op (Signal : Type) where
  | subscribe (replay queued : Bool)
  | unsubscribe (id : Nat)
  | publish (signal : Signal)
  | replay

variable {Signal : Type} {v w : World Signal} {ch : Channel Signal} {id : Nat} {op : Op Signal}
  {ops : List (Op Signal)} {waiting : Bool}

/-- One operation; a replay job runs only where one is queued. -/
def World.perform (w : World Signal) : Op Signal → Option (World Signal)
  | .subscribe replay queued =>
    let r := w.channel.subscribe replay
    some ⟨r.2.2, w.replayJobs + if r.2.1 && queued then 1 else 0⟩
  | .unsubscribe id => some { w with channel := w.channel.unsubscribe id }
  | .publish signal =>
    (w.channel.publish (fun _ _ => []) 1 signal).map fun ch => { w with channel := ch }
  | .replay =>
    if w.replayJobs = 0 then none
    else (w.channel.replay (fun _ _ => []) 0).map fun ch => ⟨ch, w.replayJobs - 1⟩

def published (ops : List (Op Signal)) : List Signal :=
  ops.filterMap fun
    | .publish signal => some signal
    | _ => none

def subscriptions (ops : List (Op Signal)) : Nat :=
  ops.countP fun op => op matches .subscribe _ _

def Op.ends (id : Nat) : Op Signal → Bool
  | .unsubscribe other => other = id
  | _ => false

/-- The operations until a subscription ends. -/
def whileSubscribed (id : Nat) (ops : List (Op Signal)) : List (Op Signal) :=
  ops.takeWhile fun op => !op.ends id

/-- A replay job runs before anything is published. -/
def replayFirst : List (Op Signal) → Bool
  | [] => false
  | .replay :: _ => true
  | .publish _ :: _ => false
  | _ :: rest => replayFirst rest

/-- What a subscription hears of the operations after it, `waiting` being its replay flag. -/
def hears (id : Nat) (cached : Option Signal) : Bool → List (Op Signal) → List Signal
  | _, [] => []
  | _, .publish signal :: rest => signal :: hears id cached false rest
  | waiting, .replay :: rest =>
    (if waiting then cached.toList else []) ++ hears id cached false rest
  | waiting, .unsubscribe other :: rest =>
    if other = id then [] else hears id cached waiting rest
  | waiting, .subscribe _ _ :: rest => hears id cached waiting rest

theorem hears_not_waiting {cached : Option Signal} :
    hears id cached false ops = published (whileSubscribed id ops) := by
  induction ops with
  | nil => rfl
  | cons op rest ih =>
    cases op with
    | unsubscribe other =>
      by_cases he : other = id
      · simp [hears, whileSubscribed, Op.ends, published, he]
      · simpa [hears, whileSubscribed, Op.ends, published, he] using ih
    | _ => simpa [hears, whileSubscribed, Op.ends, published] using ih

theorem hears_eq {cached : Option Signal} : hears id cached waiting ops =
    (if waiting && replayFirst (whileSubscribed id ops) then cached.toList else []) ++
      published (whileSubscribed id ops) := by
  cases waiting with
  | false => simp [hears_not_waiting]
  | true =>
    induction ops with
    | nil => rfl
    | cons op rest ih =>
      cases op with
      | unsubscribe other =>
        by_cases he : other = id
        · simp [hears, whileSubscribed, Op.ends, published, replayFirst, he]
        · simpa [hears, whileSubscribed, Op.ends, published, replayFirst, he] using ih
      | subscribe replay queued =>
        simpa [hears, whileSubscribed, Op.ends, published, replayFirst] using ih
      | publish signal =>
        simp [hears, hears_not_waiting, whileSubscribed, Op.ends, published, replayFirst]
      | replay => simp [hears, hears_not_waiting, whileSubscribed, Op.ends, published, replayFirst]

/-- The callable slots of a subscription. -/
def Channel.held (id : Nat) (ch : Channel Signal) : List Slot :=
  ch.subscribers.filter fun slot => slot.callable && slot.id = id

/-- Nothing is being delivered, and the identifiers have been given out in order. -/
structure Channel.Sound (ch : Channel Signal) : Prop extends ch.Quiet where
  below : ∀ slot ∈ ch.subscribers, slot.id ≤ ch.nextId
  called : ∀ call ∈ ch.calls, call.1 ≤ ch.nextId

/-- The slot of a subscription that lasts, or none of one that has ended. -/
def slotOf (id : Nat) : Option Bool → List Slot
  | none => []
  | some waiting => [⟨id, true, waiting⟩]

theorem clearFirst_filter {slots cleared : List Slot} (other : Nat)
    (h : Channel.clearFirst other slots = some cleared) (hne : other ≠ id) :
    cleared.filter (fun slot => slot.callable && slot.id = id) =
      slots.filter fun slot => slot.callable && slot.id = id := by
  induction slots generalizing cleared with
  | nil => cases h
  | cons slot rest ih =>
    rw [Channel.clearFirst] at h
    split_ifs at h with hs
    · cases h
      simp [hs.1, hne]
    · obtain ⟨rest', hr, rfl⟩ := Option.map_eq_some_iff.mp h
      rw [List.filter_cons, List.filter_cons, ih hr]

theorem clearFirst_same {slots cleared : List Slot}
    (h : Channel.clearFirst id slots = some cleared) :
    cleared.filter (fun slot => slot.callable && slot.id = id) =
      (slots.filter fun slot => slot.callable && slot.id = id).tail := by
  induction slots generalizing cleared with
  | nil => cases h
  | cons slot rest ih =>
    rw [Channel.clearFirst] at h
    split_ifs at h with hs
    · cases h
      simp [hs.1, hs.2]
    · obtain ⟨rest', hr, rfl⟩ := Option.map_eq_some_iff.mp h
      have hf : (slot.callable && decide (slot.id = id)) = false := by
        rw [Bool.and_eq_false_iff, decide_eq_false_iff_not]
        by_cases hid : slot.id = id
        · left
          simpa [hid] using hs
        · exact .inr hid
      rw [List.filter_cons, List.filter_cons, ih hr, hf]
      simp

theorem clearFirst_none {slots : List Slot} (h : Channel.clearFirst id slots = none) :
    (slots.filter fun slot => slot.callable && slot.id = id) = [] := by
  induction slots with
  | nil => rfl
  | cons slot rest ih =>
    rw [Channel.clearFirst] at h
    split_ifs at h with hs
    have hr := ih (Option.map_eq_none_iff.mp h)
    rw [List.filter_cons, hr, if_neg]
    simpa [and_comm] using hs

theorem clearFirst_ids {slots cleared : List Slot} (h : Channel.clearFirst id slots = some cleared) :
    cleared.map Slot.id = slots.map Slot.id := by
  induction slots generalizing cleared with
  | nil => cases h
  | cons slot rest ih =>
    rw [Channel.clearFirst] at h
    split_ifs at h
    · cases h
      rfl
    · obtain ⟨rest', hr, rfl⟩ := Option.map_eq_some_iff.mp h
      rw [List.map_cons, List.map_cons, ih hr]

namespace Channel

theorem unsubscribe_subscribers (h : ch.Quiet) : (ch.unsubscribe id).subscribers =
    match clearFirst id ch.subscribers with
    | none => ch.subscribers
    | some cleared => cleared.filter (·.callable) := by
  unfold unsubscribe
  cases clearFirst id ch.subscribers with
  | none => simp only [h.cleanupSubs]
  | some cleared => simp [cleanupSubs, h.depth]

/-- Ending a subscription changes nothing but the slots. -/
theorem unsubscribe_frame (h : ch.Quiet) (id : Nat) : (ch.unsubscribe id).Quiet ∧
    (ch.unsubscribe id).nextId = ch.nextId ∧ (ch.unsubscribe id).lastSignal = ch.lastSignal ∧
      (ch.unsubscribe id).calls = ch.calls := by
  unfold unsubscribe
  cases clearFirst id ch.subscribers with
  | none =>
    simp only [h.cleanupSubs]
    exact ⟨h, trivial, trivial, trivial⟩
  | some cleared =>
    have hc : ({ ch with subscribers := cleared, cleanupRequired := true }).cleanupSubs =
        { ch with subscribers := cleared.filter (·.callable), cleanupRequired := false } := by
      simp [cleanupSubs, h.depth]
    simp only [hc]
    exact ⟨⟨h.depth, rfl⟩, trivial, trivial, trivial⟩

theorem unsubscribe_held (h : ch.Quiet) (id other : Nat) : (ch.unsubscribe other).held id =
    if other = id then (ch.held id).tail else ch.held id := by
  unfold held
  rw [unsubscribe_subscribers h]
  cases hc : clearFirst other ch.subscribers with
  | none =>
    split_ifs with he
    · subst he
      rw [clearFirst_none hc, List.tail_nil]
    · rfl
  | some cleared =>
    have hf : (cleared.filter (·.callable)).filter (fun slot => slot.callable && slot.id = id) =
        cleared.filter fun slot => slot.callable && slot.id = id := by
      rw [List.filter_filter]
      congr 1
      funext slot
      cases slot.callable <;> simp
    simp only [hf]
    split_ifs with he
    · subst he
      exact clearFirst_same hc
    · exact clearFirst_filter other hc he

theorem Sound.unsubscribe (h : ch.Sound) (other : Nat) : (ch.unsubscribe other).Sound := by
  have hf := unsubscribe_frame h.toQuiet other
  refine ⟨hf.1, ?_, by rw [hf.2.1, hf.2.2.2]; exact h.called⟩
  rw [unsubscribe_subscribers h.toQuiet, hf.2.1]
  cases hc : clearFirst other ch.subscribers with
  | none => exact h.below
  | some cleared =>
    intro slot hs
    have hid : slot.id ∈ ch.subscribers.map Slot.id := by
      rw [← clearFirst_ids hc]
      exact List.mem_map_of_mem (List.mem_of_mem_filter hs)
    obtain ⟨slot', hs', he⟩ := List.mem_map.mp hid
    rw [← he]
    exact h.below slot' hs'

theorem served_id {wanted : Slot → Bool} {slot : Slot} : (served wanted slot).id = slot.id := by
  unfold served
  split_ifs <;> rfl

theorem served_callable {wanted : Slot → Bool} {slot : Slot} :
    (served wanted slot).callable = slot.callable := by
  unfold served
  split_ifs <;> rfl

/-- What a delivery makes of the slots of a subscription. -/
theorem held_served {wanted : Slot → Bool} {t : Channel Signal}
    (ht : t.subscribers = ch.subscribers.map (served wanted)) :
    t.held id = (ch.held id).map (served wanted) := by
  unfold held
  rw [ht, List.filter_map]
  congr 1
  apply List.filter_congr
  intro slot _
  simp [served_id, served_callable]

/-- What a subscription hears of a delivery. -/
theorem callsTo_served {wanted : Slot → Bool} {t : Channel Signal} {signal : Signal}
    (hw : ∀ slot, wanted slot → slot.callable)
    (ht : t.calls = ch.calls ++ (ch.subscribers.filter wanted).map fun slot => (slot.id, signal)) :
    t.callsTo id = ch.callsTo id ++ ((ch.held id).filter wanted).map fun _ => signal := by
  unfold callsTo held
  rw [ht, List.filter_append, List.map_append, List.filter_map, List.map_map, List.filter_filter,
    List.filter_filter]
  congr 2
  · apply List.filter_congr
    intro slot _
    cases hs : wanted slot with
    | false => simp
    | true => simp [hw slot hs]

end Channel

/-- A delivery to some of the slots. -/
theorem Channel.Sound.served (h : ch.Sound) {wanted : Slot → Bool} {signal : Signal}
    {t : Channel Signal} (hq : t.Quiet) (hn : t.nextId = ch.nextId)
    (ht : t.subscribers = ch.subscribers.map (served wanted))
    (hc : t.calls = ch.calls ++ (ch.subscribers.filter wanted).map fun slot => (slot.id, signal)) :
    t.Sound := by
  refine ⟨hq, ?_, ?_⟩
  · intro slot hs
    rw [ht] at hs
    obtain ⟨slot', hs', rfl⟩ := List.mem_map.mp hs
    rw [served_id, hn]
    exact h.below slot' hs'
  · intro call hcall
    rw [hc] at hcall
    rw [hn]
    rcases List.mem_append.mp hcall with hcall | hcall
    · exact h.called call hcall
    · obtain ⟨slot, hs, rfl⟩ := List.mem_map.mp hcall
      exact h.below slot (List.mem_of_mem_filter hs)

/-- The replay flag of a subscription after an operation. -/
def waitingAfter (id : Nat) (waiting : Option Bool) : Op Signal → Option Bool
  | .unsubscribe other => if other = id then none else waiting
  | .subscribe _ _ => waiting
  | _ => waiting.map fun _ => false

/-- What a subscription hears of one operation. -/
def heardOf (cached : Option Signal) (waiting : Option Bool) : Op Signal → List Signal
  | .publish signal => waiting.toList.map fun _ => signal
  | .replay => if waiting = some true then cached.toList else []
  | _ => []

def cachedAfter (cached : Option Signal) : Op Signal → Option Signal
  | .publish signal => some signal
  | _ => cached

/-- A subscription that waits for a replay has a signal to be replayed. -/
def Waits (id : Nat) (waiting : Option Bool) (ch : Channel Signal) : Prop :=
  ch.held id = slotOf id waiting ∧ (waiting = some true → ch.lastSignal.isSome)

theorem perform_frame (hw : w.channel.Sound) (hp : w.perform op = some v) : v.channel.Sound ∧
    v.channel.nextId = w.channel.nextId + subscriptions [op] ∧
      v.channel.lastSignal = cachedAfter w.channel.lastSignal op := by
  cases op with
  | subscribe replay queued =>
    cases hp
    simp only [Channel.subscribe, hw.toQuiet.cleanupSubs]
    refine ⟨⟨⟨hw.depth, hw.clean⟩, ?_, ?_⟩, rfl, rfl⟩
    · intro slot hs
      rcases List.mem_append.mp hs with hs | hs
      · exact Nat.le_succ_of_le (hw.below slot hs)
      · exact (congrArg Slot.id (List.mem_singleton.mp hs)).le
    · intro call hc
      exact Nat.le_succ_of_le (hw.called call hc)
  | unsubscribe other =>
    cases hp
    have hf := Channel.unsubscribe_frame hw.toQuiet other
    exact ⟨hw.unsubscribe other, hf.2.1, hf.2.2.1⟩
  | publish signal =>
    rw [World.perform, Channel.publish_silent hw.toQuiet] at hp
    cases hp
    exact ⟨hw.served ⟨hw.depth, hw.clean⟩ rfl rfl rfl, rfl, rfl⟩
  | replay =>
    rw [World.perform] at hp
    split_ifs at hp
    cases hl : w.channel.lastSignal with
    | none =>
      rw [Channel.replay, hl, if_neg (by simp), hw.toQuiet.cleanupSubs] at hp
      cases hp
      exact ⟨hw, rfl, hl⟩
    | some signal =>
      rw [Channel.replay_silent hw.toQuiet 0 hl] at hp
      cases hp
      exact ⟨hw.served ⟨hw.depth, hw.clean⟩ rfl rfl rfl, rfl, hl⟩

/-- What one operation does to a subscription. -/
theorem perform_heard (hw : w.channel.Sound) (hid : id ≤ w.channel.nextId)
    {waiting : Option Bool} (h : Waits id waiting w.channel) (hp : w.perform op = some v) :
    Waits id (waitingAfter id waiting op) v.channel ∧ v.channel.callsTo id =
      w.channel.callsTo id ++ heardOf w.channel.lastSignal waiting op := by
  obtain ⟨hheld, hcached⟩ := h
  have hl := (perform_frame hw hp).2.2
  cases op with
  | subscribe replay queued =>
    cases hp
    simp only [Channel.subscribe, hw.toQuiet.cleanupSubs]
    refine ⟨⟨?_, hcached⟩, (List.append_nil _).symm⟩
    have hne : w.channel.nextId + 1 ≠ id := by omega
    unfold Channel.held at hheld ⊢
    rw [List.filter_append, hheld]
    simp [hne, waitingAfter]
  | unsubscribe other =>
    cases hp
    have hf := Channel.unsubscribe_frame hw.toQuiet other
    refine ⟨⟨?_, ?_⟩, ?_⟩
    · rw [Channel.unsubscribe_held hw.toQuiet id other, hheld, waitingAfter]
      split_ifs
      · cases waiting <;> rfl
      · rfl
    · rw [hl, waitingAfter]
      split_ifs
      · exact fun h => by cases h
      · exact hcached
    · simp [Channel.callsTo, hf.2.2.2, heardOf]
  | publish signal =>
    rw [World.perform, Channel.publish_silent hw.toQuiet] at hp
    cases hp
    refine ⟨⟨?_, fun _ => rfl⟩, ?_⟩
    · rw [Channel.held_served rfl, hheld]
      cases waiting <;> rfl
    · rw [Channel.callsTo_served (fun _ h => h) rfl, hheld]
      cases waiting <;> rfl
  | replay =>
    rw [World.perform] at hp
    split_ifs at hp
    cases hlast : w.channel.lastSignal with
    | none =>
      have hne : waiting ≠ some true := by
        intro ht
        have := hcached ht
        simp [hlast] at this
      rw [Channel.replay, hlast, if_neg (by simp), hw.toQuiet.cleanupSubs] at hp
      cases hp
      have hsame : waitingAfter id waiting (.replay : Op Signal) = waiting := by
        rcases waiting with _ | _ | _
        · rfl
        · rfl
        · exact absurd rfl hne
      rw [hsame, heardOf, if_neg hne, List.append_nil]
      exact ⟨⟨hheld, hcached⟩, rfl⟩
    | some signal =>
      rw [Channel.replay_silent hw.toQuiet 0 hlast] at hp
      cases hp
      refine ⟨⟨?_, fun _ => by simp [hlast]⟩, ?_⟩
      · rw [Channel.held_served rfl, hheld]
        rcases waiting with _ | _ | _ <;> rfl
      · rw [Channel.callsTo_served (fun slot h => by simp_all) rfl, hheld]
        rcases waiting with _ | _ | _ <;> rfl

theorem run_frame (hw : w.channel.Sound) (hr : ops.foldlM World.perform w = some v) :
    v.channel.Sound ∧ v.channel.nextId = w.channel.nextId + subscriptions ops ∧
      v.channel.lastSignal = ops.foldl cachedAfter w.channel.lastSignal := by
  induction ops generalizing w with
  | nil =>
    cases hr
    exact ⟨hw, rfl, rfl⟩
  | cons op rest ih =>
    rw [List.foldlM_cons] at hr
    obtain ⟨u, hu, hrest⟩ := Option.bind_eq_some_iff.mp hr
    obtain ⟨hsound, hid, hlast⟩ := perform_frame hw hu
    obtain ⟨hs, hi, hl⟩ := ih hsound hrest
    refine ⟨hs, ?_, by rw [hl, hlast, List.foldl_cons]⟩
    rw [hi, hid, Nat.add_assoc]
    unfold subscriptions
    rw [← List.countP_append]
    rfl

theorem cached_eq : ops.foldl cachedAfter none = (published ops).getLast? := by
  induction ops using List.reverseRecOn with
  | nil => rfl
  | append_singleton ops op ih =>
    rw [List.foldl_append, List.foldl_cons, List.foldl_nil, ih]
    cases op <;> simp [published, cachedAfter]

/-- What a subscription hears of a run, from its replay flag and the signal that it would replay. -/
theorem run_heard (hw : w.channel.Sound) (hid : id ≤ w.channel.nextId) {waiting : Option Bool}
    {cached : Option Signal} (h : Waits id waiting w.channel)
    (hc : waiting = some true → w.channel.lastSignal = cached)
    (hr : ops.foldlM World.perform w = some v) : v.channel.callsTo id = w.channel.callsTo id ++
      waiting.elim [] fun waiting => hears id cached waiting ops := by
  induction ops generalizing w waiting with
  | nil =>
    cases hr
    cases waiting <;> simp [hears]
  | cons op rest ih =>
    rw [List.foldlM_cons] at hr
    obtain ⟨u, hu, hrest⟩ := Option.bind_eq_some_iff.mp hr
    obtain ⟨hsound, hnext, hlast⟩ := perform_frame hw hu
    obtain ⟨hwaits, hheard⟩ := perform_heard hw hid h hu
    have hcached : waitingAfter id waiting op = some true → u.channel.lastSignal = cached := by
      intro ht
      rw [hlast]
      cases op with
      | unsubscribe other =>
        rw [waitingAfter] at ht
        split_ifs at ht
        exact hc ht
      | subscribe replay queued => exact hc ht
      | _ => cases waiting <;> cases ht
    rw [ih hsound (by omega) hwaits hcached hrest, hheard, List.append_assoc]
    congr 1
    cases waiting with
    | none => cases op <;> simp [heardOf, waitingAfter]
    | some waiting =>
      cases op with
      | unsubscribe other =>
        by_cases he : other = id <;> simp [heardOf, waitingAfter, hears, he]
      | replay => cases waiting <;> simp [heardOf, waitingAfter, hears, hc]
      | _ => simp [heardOf, waitingAfter, hears]

/-- A queued replay job is gone only after a replay job has run. -/
theorem replayJobs_le (hr : ops.foldlM World.perform w = some v) (hn : Op.replay ∉ ops) :
    w.replayJobs ≤ v.replayJobs := by
  induction ops generalizing w with
  | nil =>
    cases hr
    exact le_rfl
  | cons op rest ih =>
    rw [List.foldlM_cons] at hr
    obtain ⟨u, hu, hrest⟩ := Option.bind_eq_some_iff.mp hr
    refine le_trans ?_ (ih hrest fun h => hn (List.mem_cons_of_mem _ h))
    cases op with
    | subscribe replay queued =>
      cases hu
      exact Nat.le_add_right ..
    | unsubscribe other =>
      cases hu
      exact le_rfl
    | publish signal =>
      obtain ⟨ch, _, rfl⟩ := Option.map_eq_some_iff.mp hu
      exact le_rfl
    | replay => exact absurd List.mem_cons_self hn

theorem replayFirst_of_mem (h : Op.replay ∈ ops) (hp : published ops = []) :
    replayFirst ops = true := by
  induction ops with
  | nil => exact absurd h List.not_mem_nil
  | cons op rest ih =>
    cases op with
    | replay => rfl
    | publish signal => cases hp
    | subscribe replay queued => exact ih (by simpa using h) hp
    | unsubscribe other => exact ih (by simpa using h) hp

theorem init_sound : (({} : World Signal).channel).Sound :=
  ⟨⟨rfl, rfl⟩, fun _ h => absurd h List.not_mem_nil, fun _ h => absurd h List.not_mem_nil⟩

/-- A new subscription has one slot, and has heard nothing. -/
theorem subscribe_waits (hw : w.channel.Sound) {replay queued : Bool}
    (hp : w.perform (.subscribe replay queued) = some v) :
    Waits (w.channel.nextId + 1) (some (replay && w.channel.lastSignal.isSome)) v.channel ∧
      v.channel.callsTo (w.channel.nextId + 1) = [] := by
  cases hp
  unfold Waits Channel.held Channel.callsTo
  simp only [Channel.subscribe, hw.toQuiet.cleanupSubs]
  refine ⟨⟨?_, ?_⟩, ?_⟩
  · have hnone : (w.channel.subscribers.filter fun slot =>
        slot.callable && decide (slot.id = w.channel.nextId + 1)) = [] := by
      rw [List.filter_eq_nil_iff]
      intro slot hs
      have := hw.below slot hs
      simp
      omega
    rw [List.filter_append, hnone]
    simp [slotOf]
  · intro hs
    simp only [Option.some.injEq, Bool.and_eq_true] at hs
    exact hs.2
  · rw [List.map_eq_nil_iff, List.filter_eq_nil_iff]
    intro call hc
    have := hw.called call hc
    simp
    omega

/-- What the subscription made after `before` has heard when `after` has come to `w`. -/
structure Heard (before after : List (Op Signal)) (replay queued : Bool) (w : World Signal) :
    Prop where
  calls : w.channel.callsTo (subscriptions before + 1) =
    (if replay && replayFirst (whileSubscribed (subscriptions before + 1) after)
      then (published before).getLast?.toList else []) ++
      published (whileSubscribed (subscriptions before + 1) after)
  /-- A replay job that was queued has run by the time that none is queued any more. -/
  replayed : replay → queued → (published before).getLast?.isSome → w.replayJobs = 0 →
    published after = [] → Op.unsubscribe (subscriptions before + 1) ∉ after →
      w.channel.callsTo (subscriptions before + 1) = (published before).getLast?.toList

/-- In every run, a subscription hears at most one replay, of the signal that was the latest one
when it was made, and then every signal published while it lasts. -/
theorem subscription_heard (before after : List (Op Signal)) (replay queued : Bool)
    {w : World Signal} (hr : (before ++ .subscribe replay queued :: after).foldlM
      World.perform {} = some w) : Heard before after replay queued w := by
  rw [List.foldlM_append] at hr
  obtain ⟨u, hu, hr⟩ := Option.bind_eq_some_iff.mp hr
  rw [List.foldlM_cons] at hr
  obtain ⟨t, ht, hr⟩ := Option.bind_eq_some_iff.mp hr
  obtain ⟨hsound, hid, hlast⟩ := run_frame init_sound hu
  rw [cached_eq] at hlast
  replace hid : u.channel.nextId = subscriptions before := by simpa using hid
  obtain ⟨htsound, htid, htlast⟩ := perform_frame hsound ht
  obtain ⟨hwaits, hnone⟩ := subscribe_waits hsound ht
  have hle : u.channel.nextId + 1 ≤ t.channel.nextId := htid.ge
  have hheard := run_heard htsound hle hwaits (fun _ => htlast.trans hlast) hr
  rw [hnone, List.nil_append, Option.elim_some, hears_eq, hid, hlast] at hheard
  have hcalls : w.channel.callsTo (subscriptions before + 1) =
      (if replay && replayFirst (whileSubscribed (subscriptions before + 1) after)
        then (published before).getLast?.toList else []) ++
        published (whileSubscribed (subscriptions before + 1) after) := by
    rw [hheard]
    cases (published before).getLast? <;> simp
  refine ⟨hcalls, ?_⟩
  intro hreplay hqueued hcached hjobs hpub hun
  have hall : whileSubscribed (subscriptions before + 1) after = after := by
    unfold whileSubscribed
    rw [List.takeWhile_eq_self_iff]
    intro op hop
    cases op with
    | unsubscribe other =>
      simp only [Op.ends, Bool.not_eq_true', decide_eq_false_iff_not]
      rintro rfl
      exact hun hop
    | _ => rfl
  have hmem : Op.replay ∈ after := by
    by_contra hn
    have hle := replayJobs_le hr hn
    have hone : t.replayJobs = u.replayJobs + 1 := by
      cases ht
      simp [Channel.subscribe, hsound.toQuiet.cleanupSubs, hlast, hreplay, hqueued, hcached]
    omega
  rw [hcalls, hall, hpub, replayFirst_of_mem hmem hpub]
  simp [hreplay]

theorem subscription_heard_replay : ∃ w : World Nat,
    Heard [.publish 5] [.replay, .publish 6] true true w ∧ w.channel.callsTo 1 = [5, 6] :=
  ⟨_, subscription_heard [.publish 5] [.replay, .publish 6] true true rfl, by decide⟩

end Zlibs.Signaling
