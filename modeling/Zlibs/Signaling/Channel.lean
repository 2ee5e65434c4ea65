import Mathlib

/-! The channel of one signal type: its subscribers, and how a signal is published to them. -/
namespace Zlibs.Signaling

/-- `Slot`; `callable` says that its callback is not null. -/
structure Slot where
  id : Nat
  callable : Bool
  needsReplay : Bool
  deriving DecidableEq

/-- The channel, with the calls it has made of its subscribers. Its 64-bit identifiers are taken
not to run out. -/
structure Channel (Signal : Type) where
  subscribers : List Slot := []
  nextId : Nat := 0
  lastSignal : Option Signal := none
  publishDepth : Nat := 0
  cleanupRequired : Bool := false
  calls : List (Nat × Signal) := []

/-- The signals that a callback publishes when it is called, from all calls made so far and its
identifier. -/
abbrev Callbacks (Signal : Type) := List (Nat × Signal) → Nat → List Signal

variable {Signal : Type} {callbacks : Callbacks Signal} {ch : Channel Signal} {signal : Signal}
  {id : Nat} {slot : Slot}

namespace Channel

def cleanupSubs (ch : Channel Signal) : Channel Signal :=
  if !ch.cleanupRequired || ch.publishDepth ≠ 0 then ch
  else
    { ch with
      subscribers := ch.subscribers.filter (·.callable)
      cleanupRequired := false }

/-- Subscribes a callback; the second component tells whether a replay job is to be queued. -/
def subscribe (replay : Bool) (ch : Channel Signal) : Nat × Bool × Channel Signal :=
  let ch := ch.cleanupSubs
  let id := ch.nextId + 1
  let shouldReplay := replay && ch.lastSignal.isSome
  (id, shouldReplay,
    { ch with nextId := id, subscribers := ch.subscribers ++ [⟨id, true, shouldReplay⟩] })

/-- The loop of `unsubscribe` over the slots; it stops at the first match. -/
def clearFirst (id : Nat) : List Slot → Option (List Slot)
  | [] => none
  | slot :: rest =>
    if slot.id = id ∧ slot.callable then some ({ slot with callable := false } :: rest)
    else (clearFirst id rest).map (slot :: ·)

def unsubscribe (id : Nat) (ch : Channel Signal) : Channel Signal :=
  match clearFirst id ch.subscribers with
  | none => ch.cleanupSubs
  | some subscribers =>
    { ch with subscribers := subscribers, cleanupRequired := true }.cleanupSubs

/-- The loop of `publish` and `replay` over the slots at some indices: a wanted slot is called with
the payload, and what its callback publishes is delivered before the loop goes on. -/
def deliver (nested : Signal → Channel Signal → Option (Channel Signal))
    (callbacks : Callbacks Signal) (wanted : Slot → Bool)
    (payload : Channel Signal → Option Signal) :
    List Nat → Channel Signal → Option (Channel Signal)
  | [], ch => some ch
  | i :: rest, ch =>
    match ch.subscribers[i]?, payload ch with
    | some slot, some signal =>
      if wanted slot then
        let called := { ch with
          subscribers := ch.subscribers.set i { slot with needsReplay := false }
          calls := ch.calls ++ [(slot.id, signal)] }
        ((callbacks called.calls slot.id).foldlM (fun ch s => nested s ch) called).bind
          (deliver nested callbacks wanted payload rest)
      else deliver nested callbacks wanted payload rest ch
    | _, _ => deliver nested callbacks wanted payload rest ch

/-- Publishes a signal. The first argument bounds the depth to which callbacks publish: there is no
result where they go deeper. -/
def publish (callbacks : Callbacks Signal) : Nat → Signal → Channel Signal →
    Option (Channel Signal)
  | 0, _, _ => none
  | depth + 1, signal, ch =>
    let ch := { ch with lastSignal := some signal, publishDepth := ch.publishDepth + 1 }
    (deliver (publish callbacks depth) callbacks (·.callable) (fun _ => some signal)
      (List.range ch.subscribers.length) ch).map
        fun ch => { ch with publishDepth := ch.publishDepth - 1 }.cleanupSubs

def replay (callbacks : Callbacks Signal) (depth : Nat) (ch : Channel Signal) :
    Option (Channel Signal) :=
  if ch.lastSignal.isSome then
    let ch := { ch with publishDepth := ch.publishDepth + 1 }
    (deliver (publish callbacks depth) callbacks (fun slot => slot.callable && slot.needsReplay)
      (·.lastSignal) (List.range ch.subscribers.length) ch).map
        fun ch => { ch with publishDepth := ch.publishDepth - 1 }.cleanupSubs
  else some ch.cleanupSubs

/-- The signals that a subscription has been called with. -/
def callsTo (id : Nat) (ch : Channel Signal) : List Signal :=
  (ch.calls.filter (·.1 = id)).map Prod.snd

/-- What the loop makes of a slot. -/
def served (wanted : Slot → Bool) (slot : Slot) : Slot :=
  if wanted slot then { slot with needsReplay := false } else slot

/-- The loop over some slots whose callbacks publish nothing. -/
theorem deliver_silent (ch : Channel Signal)
    {nested : Signal → Channel Signal → Option (Channel Signal)} {wanted : Slot → Bool} {payload : Channel Signal → Option Signal}
    (front slots back : List Slot) (hs : ch.subscribers = front ++ slots ++ back)
    (hc : ∀ calls, ∀ slot ∈ slots, callbacks calls slot.id = [])
    (hp : ∀ t : Channel Signal, t.lastSignal = ch.lastSignal → payload t = some signal) :
    deliver nested callbacks wanted payload (List.range' front.length slots.length) ch =
      some { ch with
        subscribers := front ++ slots.map (served wanted) ++ back
        calls := ch.calls ++ (slots.filter wanted).map fun slot => (slot.id, signal) } := by
  induction slots generalizing front ch with
  | nil =>
    rw [List.append_nil] at hs
    simp [deliver, ← hs]
  | cons slot rest ih =>
    have hget : ch.subscribers[front.length]? = some slot := by simp [hs]
    have hrest : ∀ calls, ∀ slot ∈ rest, callbacks calls slot.id = [] :=
      fun calls s h => hc calls s (List.mem_cons_of_mem _ h)
    rw [List.length_cons, List.range'_succ, deliver, hget, hp ch rfl]
    by_cases hw : wanted slot
    · have hset : ch.subscribers.set front.length { slot with needsReplay := false } =
          (front ++ [{ slot with needsReplay := false }]) ++ rest ++ back := by simp [hs]
      have hi := ih { ch with
        subscribers := ch.subscribers.set front.length { slot with needsReplay := false }
        calls := ch.calls ++ [(slot.id, signal)] } (front ++ [{ slot with needsReplay := false }])
          hset hrest hp
      rw [List.length_append, List.length_singleton] at hi
      simp only [hw, if_true, hc _ slot List.mem_cons_self, List.foldlM_nil, Option.pure_def,
        Option.bind_some, hi]
      simp [served, hw]
    · have hi := ih ch (front ++ [slot]) (by simp [hs]) hrest hp
      rw [List.length_append, List.length_singleton] at hi
      simp only [hw, Bool.false_eq_true, if_false, hi]
      simp [served, hw]

/-- Nothing is being delivered, and no slot is left of a subscription that has ended. -/
structure Quiet (ch : Channel Signal) : Prop where
  depth : ch.publishDepth = 0
  clean : ch.cleanupRequired = false

theorem Quiet.cleanupSubs (h : ch.Quiet) : ch.cleanupSubs = ch := by
  simp [Channel.cleanupSubs, h.clean]

theorem publish_silent (h : ch.Quiet) (depth : Nat) (signal : Signal) :
    publish (fun _ _ => []) (depth + 1) signal ch = some
      { ch with
        lastSignal := some signal
        subscribers := ch.subscribers.map (served (·.callable))
        calls := ch.calls ++
          (ch.subscribers.filter (·.callable)).map fun slot => (slot.id, signal) } := by
  rw [publish, List.range_eq_range']
  refine (congrArg (Option.map _) (deliver_silent
    { ch with lastSignal := some signal, publishDepth := ch.publishDepth + 1 } []
    ch.subscribers [] (List.append_nil _).symm (fun _ _ _ => rfl) fun _ _ => rfl)).trans ?_
  simp [Channel.cleanupSubs, h.clean]

theorem replay_silent (h : ch.Quiet) (depth : Nat) (hl : ch.lastSignal = some signal) :
    replay (fun _ _ => []) depth ch = some
      { ch with
        subscribers := ch.subscribers.map (served fun slot => slot.callable && slot.needsReplay)
        calls := ch.calls ++
          (ch.subscribers.filter fun slot => slot.callable && slot.needsReplay).map
            fun slot => (slot.id, signal) } := by
  rw [replay, if_pos (by simp [hl])]
  dsimp only
  rw [List.range_eq_range']
  refine (congrArg (Option.map _) (deliver_silent
    { ch with publishDepth := ch.publishDepth + 1 } [] ch.subscribers []
    (List.append_nil _).symm (fun _ _ _ => rfl) fun t ht => ht.trans hl)).trans ?_
  simp [Channel.cleanupSubs, h.clean]

end Channel

end Zlibs.Signaling
