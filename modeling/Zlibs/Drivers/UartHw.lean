import Zlibs.Misc.RingBufferThreads

/-! `UartHw`: threads that write and read under its mutex, and the interrupt that may come between
any two steps of theirs. -/
namespace Zlibs.Drivers
open Lib Misc

/-- What the hardware answers in one turn of the loop of `isr`: `bytes` are what
`uart_fifo_read` hands out before it has none left. -/
structure Poll where
  pending : Int
  rxReady : Int
  bytes : List UInt8 := []
  txReady : Int
  fill : Int := 0

/-- A device that has nothing to receive and room to send. -/
def Poll.Ready (poll : Poll) : Prop :=
  0 < poll.pending ∧ poll.rxReady = 0 ∧ 0 < poll.txReady ∧ 0 < poll.fill

/-- Where the call that holds the mutex stands. -/
inductive Call where
  | none
  | write
  | enableTx
  | read
  deriving DecidableEq

/-- The driver, with the two buffers of its configuration, each of which may overwrite its oldest
byte. `arrived` are the bytes taken from the receive FIFO, after those the receive buffer came with,
`line` those put from the transmit buffer into the FIFO, and `stalled` says that the transmit
interrupt has been off since a fill failed or since `init` found bytes in the buffer. -/
structure UartHw (rxSize txSize : Nat) (rxOverwrites txOverwrites : Bool) where
  initialized : Bool := false
  loopback : Bool := false
  rx : Threads rxSize UInt8 := .init
  tx : Threads txSize UInt8 := .init
  txIrq : Bool := false
  call : Call := .none
  arrived : List UInt8 := []
  line : List UInt8 := []
  stalled : Bool := false

/-- The answers of the device to `init`. -/
structure Device where
  ready : Bool
  configured : Bool
  callbackSet : Bool

/-- Other buffers than those of the configuration before, if any, come with what they hold. -/
structure Config (rxSize txSize : Nat) where
  loopback : Bool := false
  rxBuffer : Option (RingBuffer rxSize UInt8) := none
  txBuffer : Option (RingBuffer txSize UInt8) := none

/-- A call by a thread, a step of the call under way, or an interrupt. -/
inductive Step (rxSize txSize : Nat) where
  | init (device : Option Device) (config : Config rxSize txSize)
  | shutdown (ready : Bool)
  | write (data : UInt8)
  | read
  | thread
  | isr (polls : List Poll)

variable {rxSize txSize maxSize : Nat} {rxOverwrites txOverwrites : Bool} {T : Type}

/-- A buffer that is handed over with what it holds. -/
def handed (b : RingBuffer maxSize T) : Threads maxSize T := { ring := b, accepted := b.contents }

/-- An `insert` that nothing comes between. -/
def insertNow (overwriteOldest : Bool) (b : Threads maxSize T) (data : T) : Threads maxSize T :=
  { b with
    ring := (b.ring.insert overwriteOldest data).2
    accepted :=
      if (b.ring.insert overwriteOldest data).1 then b.accepted ++ [data] else b.accepted }

/-- A `remove` that nothing comes between. -/
def removeNow (b : Threads maxSize T) : Threads maxSize T :=
  { b with ring := b.ring.remove.2, obtained := b.obtained ++ b.ring.remove.1.toList }

namespace UartHw

/-- The last part of `configure`. -/
def configure (config : Config rxSize txSize) (s : UartHw rxSize txSize rxOverwrites txOverwrites) :
    UartHw rxSize txSize rxOverwrites txOverwrites :=
  { s with
    loopback := config.loopback
    rx := (config.rxBuffer.map handed).getD s.rx
    arrived := (config.rxBuffer.map RingBuffer.contents).getD s.arrived
    tx := (config.txBuffer.map handed).getD s.tx
    line := if config.txBuffer.isSome then [] else s.line }

def init (device : Option Device) (config : Config rxSize txSize)
    (s : UartHw rxSize txSize rxOverwrites txOverwrites) :
    Bool × UartHw rxSize txSize rxOverwrites txOverwrites :=
  match device with
  | none => (false, s)
  | some device =>
    if !device.ready then (false, s)
    else if s.initialized then (false, s)
    else if !device.configured then (false, s)
    else if !device.callbackSet then (false, s)
    else
      let s := s.configure config
      (true, { s with initialized := true, stalled := s.stalled || !s.tx.ring.isEmpty })

/-- Interrupts are locked for all of it. -/
def shutdown (ready : Bool) (s : UartHw rxSize txSize rxOverwrites txOverwrites) :
    UartHw rxSize txSize rxOverwrites txOverwrites :=
  if !s.initialized then s
  else { s with
    txIrq := if ready then false else s.txIrq
    initialized := false
    loopback := false }

/-- A byte from the receive FIFO: into the receive buffer, and with `_loopback` out again. -/
def receive (s : UartHw rxSize txSize rxOverwrites txOverwrites) (data : UInt8) :
    UartHw rxSize txSize rxOverwrites txOverwrites :=
  let s := { s with rx := insertNow rxOverwrites s.rx data, arrived := s.arrived ++ [data] }
  if s.loopback then
    { s with
      tx := insertNow txOverwrites s.tx data
      txIrq := if (s.tx.ring.insert txOverwrites data).1 then true else s.txIrq
      stalled := if (s.tx.ring.insert txOverwrites data).1 then false else s.stalled }
  else s

/-- The loop of `isr`. Once the hardware has nothing more to say, nothing is pending. -/
def isrLoop (s : UartHw rxSize txSize rxOverwrites txOverwrites) :
    List Poll → UartHw rxSize txSize rxOverwrites txOverwrites
  | [] => s
  | poll :: rest =>
    if poll.pending ≤ 0 then s
    else if poll.rxReady < 0 then s
    else
      let s := if poll.rxReady > 0 then poll.bytes.foldl receive s else s
      if poll.txReady < 0 then s
      else if poll.txReady > 0 then
        match s.tx.ring.peek with
        | none => isrLoop { s with txIrq := false } rest
        | some data =>
          if poll.fill < 0 then { s with txIrq := false, stalled := true }
          else if poll.fill = 0 then s
          else isrLoop { s with tx := removeNow s.tx, line := s.line ++ [data] } rest
      else isrLoop s rest

def isr (polls : List Poll) (s : UartHw rxSize txSize rxOverwrites txOverwrites) :
    UartHw rxSize txSize rxOverwrites txOverwrites :=
  if !s.initialized then s else s.isrLoop polls

/-- The next step of the call that holds the mutex. -/
def threadStep (s : UartHw rxSize txSize rxOverwrites txOverwrites) :
    Option (UartHw rxSize txSize rxOverwrites txOverwrites) :=
  match s.call with
  | .none => none
  | .write =>
    (s.tx.producerStep txOverwrites).map fun tx =>
      { s with
        tx
        call := match s.tx.producer, tx.producer with
          -- The head is stored last of all, and `insert` returns true.
          | .storeHead _ _, _ => .enableTx
          | _, .idle => .none
          | _, _ => .write }
  | .enableTx => some { s with txIrq := true, stalled := false, call := .none }
  | .read =>
    let rx := s.rx.consumerStep
    some { s with rx, call := if rx.consumer = .idle then .none else .read }

/-- A call has to wait for the mutex. Without `init`, `write` and `read` do nothing. -/
def step (s : UartHw rxSize txSize rxOverwrites txOverwrites) :
    Step rxSize txSize → Option (UartHw rxSize txSize rxOverwrites txOverwrites)
  | .init device config => if s.call = .none then some (s.init device config).2 else none
  | .shutdown ready => if s.call = .none then some (s.shutdown ready) else none
  | .write data =>
    if s.call ≠ .none then none
    else if !s.initialized then some s
    else (s.tx.step txOverwrites (.insert data)).map fun tx => { s with tx, call := .write }
  | .read =>
    if s.call ≠ .none then none
    else if !s.initialized then some s
    else some { s with rx := s.rx.consumerStep, call := .read }
  | .thread => s.threadStep
  | .isr polls => some (s.isr polls)

/-- An interrupt that echoes bytes does not come in the middle of a write. -/
def Undisturbed (s : UartHw rxSize txSize rxOverwrites txOverwrites) :
    Step rxSize txSize → Prop
  | .isr polls => s.loopback = true → (∃ poll ∈ polls, poll.bytes ≠ []) → s.call ≠ .write
  | _ => True

instance (s : UartHw rxSize txSize rxOverwrites txOverwrites) :
    (l : Step rxSize txSize) → Decidable (s.Undisturbed l)
  | .isr polls => inferInstanceAs (Decidable
      (s.loopback = true → (∃ poll ∈ polls, poll.bytes ≠ []) → s.call ≠ .write))
  | .init _ _ | .shutdown _ | .write _ | .read | .thread => .isTrue trivial

end UartHw

abbrev UartRun :
    List (Step rxSize txSize) → UartHw rxSize txSize rxOverwrites txOverwrites → Prop :=
  Run (· = {}) fun _ s l t => s.step l = some t ∧ s.Undisturbed l

section Buffer

variable {b b' : Threads maxSize T} {data : T} {labels : List (Label T)}

theorem steps_sound (hm : 0 < maxSize) (h : b.Sound false)
    (hf : labels.foldlM (Threads.step false) b = some b') : b'.Sound false := by
  induction labels generalizing b with
  | nil =>
    cases hf
    exact h
  | cons l rest ih =>
    rw [List.foldlM_cons] at hf
    obtain ⟨u, hu, hf⟩ := Option.bind_eq_some_iff.mp hf
    exact ih (Threads.step_sound hm h (fun hw => absurd hw Bool.false_ne_true) hu) hf

theorem insertNow_sound (hm : 0 < maxSize) (h : b.Sound false) (hp : b.producer = .idle) :
    (insertNow false b data).Sound false := by
  obtain ⟨n, hn⟩ := @Threads.insert_alone _ _ false b data hp
  exact steps_sound hm h hn

theorem removeNow_sound (hm : 0 < maxSize) (h : b.Sound false) (hc : b.consumer = .idle) :
    (removeNow b).Sound false := by
  obtain ⟨n, hn⟩ := @Threads.remove_alone _ _ false b hc
  exact steps_sound hm h hn

/-- A refused insert leaves the buffer as it was. -/
theorem insertNow_refused (h : (b.ring.insert false data).1 = false) :
    insertNow false b data = b := by
  have hr : (b.ring.insert false data).2 = b.ring := by
    unfold RingBuffer.insert at h ⊢
    by_cases hf : b.ring.tail = next b.ring.head
    · simp [hf]
    · simp [hf] at h
  simp only [insertNow, h, hr, Bool.false_eq_true, if_false]

end Buffer

namespace UartHw

variable {s t : UartHw rxSize txSize false false} {l : Step rxSize txSize} {data : UInt8}

structure Sound (s : UartHw rxSize txSize false false) : Prop where
  rx : s.rx.Sound false
  tx : s.tx.Sound false
  rxProducer : s.rx.producer = .idle
  txConsumer : s.tx.consumer = .idle
  txProducer : s.call ≠ .write → s.tx.producer = .idle
  line : s.line = s.tx.obtained
  arrived : s.rx.accepted.Sublist s.arrived
  txIrq : s.initialized = true → s.tx.ring.contents ≠ [] →
    s.txIrq = true ∨ s.stalled = true ∨ s.call = .enableTx

theorem receive_sound (hr : 0 < rxSize) (ht : 0 < txSize) (h : s.Sound)
    (hc : s.loopback = true → s.call ≠ .write) : (s.receive data).Sound := by
  have hrx : (insertNow false s.rx data).Sound false := insertNow_sound hr h.rx h.rxProducer
  have harrived : (insertNow false s.rx data).accepted.Sublist (s.arrived ++ [data]) := by
    unfold insertNow
    dsimp only
    split_ifs
    · exact h.arrived.append (List.Sublist.refl _)
    · exact h.arrived.trans (List.sublist_append_left _ _)
  unfold receive
  dsimp only
  by_cases hl : s.loopback = true
  · rw [if_pos hl]
    cases hi : (s.tx.ring.insert false data).1 with
    | true =>
      exact ⟨hrx, insertNow_sound ht h.tx (h.txProducer (hc hl)), h.rxProducer, h.txConsumer,
        h.txProducer, h.line, harrived, fun _ _ => .inl rfl⟩
    | false =>
      rw [insertNow_refused hi]
      exact ⟨hrx, h.tx, h.rxProducer, h.txConsumer, h.txProducer, h.line, harrived, h.txIrq⟩
  · rw [if_neg hl]
    exact ⟨hrx, h.tx, h.rxProducer, h.txConsumer, h.txProducer, h.line, harrived, h.txIrq⟩

theorem receive_same : (s.receive data).loopback = s.loopback ∧ (s.receive data).call = s.call := by
  unfold receive
  dsimp only
  split_ifs <;> exact ⟨rfl, rfl⟩

theorem foldl_receive (hr : 0 < rxSize) (ht : 0 < txSize) (bytes : List UInt8) (h : s.Sound)
    (hc : s.loopback = true → bytes ≠ [] → s.call ≠ .write) :
    (bytes.foldl receive s).Sound ∧ (bytes.foldl receive s).loopback = s.loopback ∧
      (bytes.foldl receive s).call = s.call := by
  induction bytes generalizing s with
  | nil => exact ⟨h, rfl, rfl⟩
  | cons data rest ih =>
    obtain ⟨hl, hcall⟩ := @receive_same _ _ s data
    have hs : (s.receive data).Sound := receive_sound hr ht h fun hl => hc hl (by simp)
    obtain ⟨hs', hl', hcall'⟩ := ih hs fun hlb _ => by
      rw [hcall]
      exact hc (hl ▸ hlb) (by simp)
    exact ⟨hs', hl'.trans hl, hcall'.trans hcall⟩

/-- The transmit interrupt goes off with nothing left to send. -/
theorem Sound.disable (h : s.Sound) (hp : s.tx.ring.peek = none) :
    { s with txIrq := false }.Sound := by
  rw [RingBuffer.peek_contents, List.head?_eq_none_iff] at hp
  exact { h with txIrq := fun _ hne => absurd hp hne }

/-- A byte goes from the buffer to the FIFO. -/
theorem Sound.transmit (ht : 0 < txSize) (h : s.Sound) (hp : s.tx.ring.peek = some data) :
    { s with tx := removeNow s.tx, line := s.line ++ [data] }.Sound := by
  obtain ⟨hone, hrest⟩ := RingBuffer.remove_contents (b := s.tx.ring)
  rw [← RingBuffer.peek_contents, hp] at hone
  refine { h with
    tx := removeNow_sound ht h.tx h.txConsumer, txConsumer := h.txConsumer
    txProducer := h.txProducer, line := ?_, txIrq := fun hi hne => h.txIrq hi fun hnil => hne ?_ }
  · show s.line ++ [data] = s.tx.obtained ++ s.tx.ring.remove.1.toList
    rw [h.line, hone]
    rfl
  · show s.tx.ring.remove.2.contents = []
    rw [hrest, hnil]
    rfl

theorem isrLoop_sound (hr : 0 < rxSize) (ht : 0 < txSize) (polls : List Poll) (h : s.Sound)
    (hc : s.loopback = true → (∃ poll ∈ polls, poll.bytes ≠ []) → s.call ≠ .write) :
    (s.isrLoop polls).Sound := by
  induction polls generalizing s with
  | nil => exact h
  | cons poll rest ih =>
    have hdrained : ∃ u, u = (if poll.rxReady > 0 then poll.bytes.foldl receive s else s) ∧
        u.Sound ∧ u.loopback = s.loopback ∧ u.call = s.call := by
      refine ⟨_, rfl, ?_⟩
      split_ifs
      · exact foldl_receive hr ht poll.bytes h fun hl hb => hc hl ⟨poll, List.mem_cons_self, hb⟩
      · exact ⟨h, rfl, rfl⟩
    obtain ⟨u, hu, hs, hl, hcall⟩ := hdrained
    have hrest : u.loopback = true → (∃ poll ∈ rest, poll.bytes ≠ []) → u.call ≠ .write := by
      rintro hlb ⟨p, hp, hb⟩
      rw [hcall]
      exact hc (hl ▸ hlb) ⟨p, List.mem_cons_of_mem _ hp, hb⟩
    unfold isrLoop
    dsimp only
    rw [← hu]
    by_cases hpending : poll.pending ≤ 0
    · rw [if_pos hpending]
      exact h
    rw [if_neg hpending]
    by_cases hready : poll.rxReady < 0
    · rw [if_pos hready]
      exact h
    rw [if_neg hready]
    by_cases hbroken : poll.txReady < 0
    · rw [if_pos hbroken]
      exact hs
    rw [if_neg hbroken]
    by_cases htx : poll.txReady > 0
    · rw [if_pos htx]
      cases hp : u.tx.ring.peek with
      | none => exact ih (hs.disable hp) hrest
      | some data =>
        dsimp only
        by_cases hfailed : poll.fill < 0
        · rw [if_pos hfailed]
          exact { hs with txIrq := fun _ _ => .inr (.inl rfl) }
        rw [if_neg hfailed]
        by_cases hfull : poll.fill = 0
        · rw [if_pos hfull]
          exact hs
        · rw [if_neg hfull]
          exact ih (hs.transmit ht hp) hrest
    · rw [if_neg htx]
      exact ih hs hrest

/-- What a step of `insert` does to the driver. Only the last one, the store of the head, changes
what the buffer holds. -/
theorem write_sound (ht : 0 < txSize) (h : s.Sound) (hcall : s.call = .write)
    (hs : s.threadStep = some t) : t.Sound := by
  unfold threadStep at hs
  rw [hcall] at hs
  obtain ⟨tx, hstep, rfl⟩ := Option.map_eq_some_iff.mp hs
  have htx : tx.Sound false :=
    Threads.step_sound ht h.tx (l := .producer) (fun hw => absurd hw Bool.false_ne_true) hstep
  have hp := h.tx.producer
  have hirq (hi : s.initialized = true) (hne : s.tx.ring.contents ≠ []) :
      s.txIrq = true ∨ s.stalled = true := by
    obtain h | h | h := h.txIrq hi hne
    · exact .inl h
    · exact .inr h
    · rw [hcall] at h
      cases h
  unfold Threads.ProducerSound at hp
  unfold Threads.producerStep at hstep
  cases hpc : s.tx.producer with
  | idle =>
    rw [hpc] at hstep
    cases hstep
  | loadTail data head =>
    rw [hpc] at hstep
    dsimp only at hstep
    by_cases hfull : s.tx.ring.tail = next head
    · rw [if_pos hfull] at hstep
      cases hstep
      exact { h with
        tx := htx, txConsumer := h.txConsumer, txProducer := fun _ => rfl, line := h.line
        txIrq := fun hi hne => (hirq hi hne).imp_right .inl }
    · rw [if_neg hfull] at hstep
      cases hstep
      exact { h with
        tx := htx, txConsumer := h.txConsumer, txProducer := fun hn => absurd rfl hn, line := h.line
        txIrq := fun hi hne => (hirq hi hne).imp_right .inl }
  | loadTailAgain data nx =>
    rw [hpc] at hp
    exact absurd hp.1 Bool.false_ne_true
  | storeTail data nx newTail =>
    rw [hpc] at hp
    exact absurd hp.1 Bool.false_ne_true
  | write data nx =>
    rw [hpc] at hstep hp
    cases hstep
    obtain ⟨rfl, -⟩ := hp
    refine { h with
      tx := htx, txConsumer := h.txConsumer, txProducer := fun hn => absurd rfl hn, line := h.line
      txIrq := fun hi hne => (hirq hi ?_).imp_right .inl }
    rw [← @RingBuffer.contents_write _ _ _ data]
    exact hne
  | storeHead data nx =>
    rw [hpc] at hstep
    cases hstep
    exact { h with
      tx := htx, txConsumer := h.txConsumer, txProducer := fun _ => rfl, line := h.line
      txIrq := fun _ _ => .inr (.inr rfl) }

/-- Steps of `remove` stay within the receive buffer. -/
theorem read_sound (hr : 0 < rxSize) (h : s.Sound) (call : Call)
    (htx : call ≠ .write → s.tx.producer = .idle) (he : s.call ≠ .enableTx) :
    { s with rx := s.rx.consumerStep, call }.Sound := by
  have hrx : s.rx.consumerStep.Sound false :=
    Threads.step_sound hr h.rx (l := .consumer) (fun hw => absurd hw Bool.false_ne_true) rfl
  have hsame : s.rx.consumerStep.producer = s.rx.producer ∧
      s.rx.consumerStep.accepted = s.rx.accepted := by
    unfold Threads.consumerStep
    cases s.rx.consumer with
    | loadTail head =>
      dsimp only
      split_ifs <;> exact ⟨rfl, rfl⟩
    | _ => exact ⟨rfl, rfl⟩
  refine { h with
    rx := hrx, rxProducer := hsame.1.trans h.rxProducer, txProducer := htx, arrived := ?_
    txIrq := fun hi hne => ?_ }
  · show s.rx.consumerStep.accepted.Sublist s.arrived
    rw [hsame.2]
    exact h.arrived
  · obtain h | h | h := h.txIrq hi hne
    · exact .inl h
    · exact .inr (.inl h)
    · exact absurd h he

theorem configure_sound (config : Config rxSize txSize) (h : s.Sound) (hc : s.call = .none) :
    (s.configure config).rx.Sound false ∧ (s.configure config).tx.Sound false ∧
      (s.configure config).rx.producer = .idle ∧ (s.configure config).tx.consumer = .idle ∧
      (s.configure config).tx.producer = .idle ∧
      (s.configure config).line = (s.configure config).tx.obtained ∧
      (s.configure config).rx.accepted.Sublist (s.configure config).arrived := by
  unfold configure
  have hidle : s.tx.producer = .idle := h.txProducer (by rw [hc]; decide)
  obtain ⟨_, rxBuffer, txBuffer⟩ := config
  cases rxBuffer <;> cases txBuffer
  · exact ⟨h.rx, h.tx, h.rxProducer, h.txConsumer, hidle, h.line, h.arrived⟩
  · exact ⟨h.rx, Threads.handed_sound _, h.rxProducer, rfl, rfl, rfl, h.arrived⟩
  · exact ⟨Threads.handed_sound _, h.tx, rfl, h.txConsumer, hidle, h.line, .refl _⟩
  · exact ⟨Threads.handed_sound _, Threads.handed_sound _, rfl, rfl, rfl, rfl, .refl _⟩

theorem init_sound {device : Option Device} {config : Config rxSize txSize} (h : s.Sound)
    (hc : s.call = .none) : (s.init device config).2.Sound := by
  cases device with
  | none => exact h
  | some device =>
    simp only [init]
    split_ifs with h1 h2 h3 h4
    · exact h
    · exact h
    · exact h
    · exact h
    · obtain ⟨hrx, htx, hrxp, htxc, htxp, hline, harrived⟩ :=
        configure_sound config h hc
      refine ⟨hrx, htx, hrxp, htxc, fun _ => htxp, hline, harrived, fun _ hne => .inr (.inl ?_)⟩
      have he : (s.configure config).tx.ring.isEmpty = false := by
        rw [RingBuffer.isEmpty_contents]
        exact List.isEmpty_eq_false_iff.mpr hne
      simp [he]

theorem step_sound (hr : 0 < rxSize) (ht : 0 < txSize) (h : s.Sound) (hu : s.Undisturbed l)
    (hs : s.step l = some t) : t.Sound := by
  cases l with
  | init device config =>
    simp only [step] at hs
    split_ifs at hs with hc
    cases hs
    exact init_sound h hc
  | shutdown ready =>
    simp only [step] at hs
    split_ifs at hs with hc
    cases hs
    unfold shutdown
    by_cases hi : s.initialized = true
    · rw [hi]
      exact { h with txIrq := fun hi => absurd hi Bool.false_ne_true }
    · rw [Bool.eq_false_iff.mpr hi]
      exact h
  | write data =>
    simp only [step] at hs
    split_ifs at hs with hc hi
    · cases hs
      exact h
    · obtain ⟨tx, hstep, rfl⟩ := Option.map_eq_some_iff.mp hs
      have htx : tx.Sound false := Threads.step_sound ht h.tx (l := .insert data)
        (fun hw => absurd hw Bool.false_ne_true) hstep
      have hidle : s.tx.producer = .idle := h.txProducer (by rw [not_not.mp hc]; decide)
      rw [Threads.step, hidle] at hstep
      cases hstep
      refine { h with
        tx := htx, txConsumer := h.txConsumer, txProducer := fun hn => absurd rfl hn, line := h.line
        txIrq := fun hi hne => ?_ }
      obtain h | h | h := h.txIrq hi hne
      · exact .inl h
      · exact .inr (.inl h)
      · exact absurd (h.symm.trans (not_not.mp hc)) (by decide)
  | read =>
    simp only [step] at hs
    split_ifs at hs with hc hi
    · cases hs
      exact h
    · cases hs
      have hnone : s.call = .none := not_not.mp hc
      exact read_sound hr h _ (fun _ => h.txProducer (by rw [hnone]; decide)) (by rw [hnone]; decide)
  | thread =>
    cases hc : s.call with
    | none => simp [step, threadStep, hc] at hs
    | write => exact write_sound ht h hc hs
    | enableTx =>
      simp only [step, threadStep, hc] at hs
      cases hs
      exact { h with
        txProducer := fun _ => h.txProducer (by rw [hc]; decide), txIrq := fun _ _ => .inl rfl }
    | read =>
      simp only [step, threadStep, hc] at hs
      cases hs
      have hidle : s.tx.producer = .idle := h.txProducer (by rw [hc]; decide)
      exact read_sound hr h _ (fun _ => hidle) (by rw [hc]; decide)
  | isr polls =>
    simp only [step, isr] at hs
    split_ifs at hs with hi
    · cases hs
      exact h
    · cases hs
      exact isrLoop_sound hr ht polls h hu

theorem run_sound (hr : 0 < rxSize) (ht : 0 < txSize) {steps : List (Step rxSize txSize)}
    (h : UartRun steps s) : s.Sound := by
  apply h.invariant (I := fun _ s => s.Sound)
  · rintro _ rfl
    exact ⟨Threads.init_sound, Threads.init_sound, rfl, rfl, fun _ => rfl, rfl, List.Sublist.refl _,
      fun h => absurd h Bool.false_ne_true⟩
  · rintro _ s l t h ⟨hs, hu⟩
    exact step_sound hr ht h hu hs

theorem isrLoop_ready {polls : List Poll} (hp : ∀ poll ∈ polls, poll.Ready) :
    (s.isrLoop polls).line = s.line ++ s.tx.ring.contents.take polls.length ∧
      (s.isrLoop polls).tx.ring.contents = s.tx.ring.contents.drop polls.length ∧
      (s.tx.ring.contents.length < polls.length ∨ s.txIrq = false →
        (s.isrLoop polls).txIrq = false) := by
  induction polls generalizing s with
  | nil => simp [isrLoop]
  | cons poll rest ih =>
    obtain ⟨hpending, hready, htx, hfill⟩ := hp poll List.mem_cons_self
    have hrest := fun q hq => hp q (List.mem_cons_of_mem _ hq)
    have hturn : s.isrLoop (poll :: rest) = match s.tx.ring.peek with
        | none => isrLoop { s with txIrq := false } rest
        | some data => isrLoop { s with tx := removeNow s.tx, line := s.line ++ [data] } rest := by
      rw [isrLoop]
      simp only [not_le.mpr hpending, hready, lt_irrefl, not_lt.mpr htx.le, htx, not_lt.mpr hfill.le,
        hfill.ne', if_false, if_true]
    rw [hturn, RingBuffer.peek_contents]
    cases hc : s.tx.ring.contents with
    | nil =>
      obtain ⟨hline, hleft, hirq⟩ := ih (s := { s with txIrq := false }) hrest
      simp only [hc, List.take_nil, List.drop_nil] at hline hleft
      simp only [List.head?_nil, List.take_nil, List.drop_nil]
      exact ⟨hline, hleft, fun _ => hirq (.inr rfl)⟩
    | cons data more =>
      have hmore : (removeNow s.tx).ring.contents = more := by
        simp only [removeNow, (RingBuffer.remove_contents (b := s.tx.ring)).2, hc, List.tail_cons]
      obtain ⟨hline, hleft, hirq⟩ :=
        ih (s := { s with tx := removeNow s.tx, line := s.line ++ [data] }) hrest
      rw [hmore] at hline hleft hirq
      refine ⟨?_, hleft, fun h => hirq (h.imp_left fun h => by simpa using h)⟩
      simpa using hline

end UartHw

/-- Over all interleavings, what went out and what the transmit buffer holds are the bytes accepted
for it, in their order, what has been read and what the receive buffer holds are some of those
that arrived, and queued bytes have the transmit interrupt on their side, unless a fill has
failed or `init` found them there, or a `write` is about to enable it. -/
theorem uart_in_order (hr : 0 < rxSize) (ht : 0 < txSize) {steps : List (Step rxSize txSize)}
    {s : UartHw rxSize txSize false false} (h : UartRun steps s) :
    s.line ++ s.tx.ring.contents = s.tx.accepted ∧
      s.rx.obtained ++ s.rx.ring.contents = s.rx.accepted ∧ s.rx.accepted.Sublist s.arrived ∧
      (s.initialized = true → s.tx.ring.contents ≠ [] →
        s.txIrq = true ∨ s.stalled = true ∨ s.call = .enableTx) := by
  have hs := UartHw.run_sound hr ht h
  refine ⟨?_, (hs.rx.fifo.rejecting rfl).symm, hs.arrived, hs.txIrq⟩
  rw [hs.line]
  exact (hs.tx.fifo.rejecting rfl).symm

/-- A byte is written and another one echoed, with an interrupt inside the `write` and one just
before it enables the interrupt. -/
def echoedWrite : List (Step 1 2) :=
  [.init (some ⟨true, true, true⟩) { loopback := true }, .write 7,
    .isr [{ pending := 1, rxReady := 0, txReady := 1, fill := 1 }], .thread, .thread, .thread,
    .isr [{ pending := 1, rxReady := 1, bytes := [9], txReady := 1, fill := 1 }], .thread,
    .read, .thread, .thread, .thread]

theorem uart_in_order_echoed : ∃ s : UartHw 1 2 false false,
    s.tx.accepted = [7, 9] ∧ s.line = [7] ∧ s.rx.obtained = [9] ∧
      s.line ++ s.tx.ring.contents = s.tx.accepted := by
  have hrun : Run (· = {}) (fun _ (s : UartHw 1 2 false false) l t =>
      (if s.Undisturbed l then s.step l else none) = some t) echoedWrite _ := Run.of_foldlM rfl rfl
  refine ⟨_, rfl, rfl, rfl, (uart_in_order (by decide) (by decide)
    (hrun.mono (fun _ h => h) ?_)).1⟩
  intro _ s l t hs
  split_ifs at hs with hu
  exact ⟨hs, hu⟩

/-- One interrupt with a ready device sends every byte accepted so far and then turns itself off. -/
theorem uart_drains (hr : 0 < rxSize) (ht : 0 < txSize) {steps : List (Step rxSize txSize)}
    {s : UartHw rxSize txSize false false} (h : UartRun steps s) (hi : s.initialized = true)
    {polls : List Poll} (hp : ∀ poll ∈ polls, poll.Ready) (hl : txSize < polls.length) :
    (s.isr polls).line = s.tx.accepted ∧ (s.isr polls).tx.ring.contents = [] ∧
      (s.isr polls).txIrq = false := by
  have hsize : s.tx.ring.contents.length ≤ txSize := by
    rw [RingBuffer.length_contents]
    exact RingBuffer.size_le
  have horder : s.line ++ s.tx.ring.contents = s.tx.accepted := by
    have hs := UartHw.run_sound hr ht h
    rw [hs.line]
    exact (hs.tx.fifo.rejecting rfl).symm
  obtain ⟨hline, hleft, hirq⟩ := UartHw.isrLoop_ready (s := s) hp
  rw [UartHw.isr, hi]
  simp only [Bool.not_true, Bool.false_eq_true, if_false]
  refine ⟨?_, ?_, hirq (.inl (by omega))⟩
  · rw [hline, List.take_of_length_le (by omega), horder]
  · rw [hleft, List.drop_of_length_le (by omega)]

theorem uart_drains_write : ∃ s : UartHw 1 2 false false, s.tx.accepted = [7] ∧
    (s.isr (List.replicate 3 { pending := 1, rxReady := 0, txReady := 1, fill := 1 })).line =
      s.tx.accepted := by
  have h0 : UartRun [] ({} : UartHw 1 2 false false) := .nil rfl
  have h1 := h0.snoc (l := Step.init (some ⟨true, true, true⟩) {}) ⟨rfl, trivial⟩
  have h2 := h1.snoc (l := Step.write 7) ⟨rfl, trivial⟩
  have h3 := h2.snoc (l := Step.thread) ⟨rfl, trivial⟩
  have h4 := h3.snoc (l := Step.thread) ⟨rfl, trivial⟩
  have h5 := h4.snoc (l := Step.thread) ⟨rfl, trivial⟩
  refine ⟨_, rfl, (uart_drains (by decide) (by decide) h5 rfl ?_ (by decide)).1⟩
  intro poll hp
  obtain rfl := List.eq_of_mem_replicate hp
  exact ⟨by decide, rfl, by decide, by decide⟩

end Zlibs.Drivers
