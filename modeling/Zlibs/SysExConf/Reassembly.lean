import Zlibs.Midi.Fields
import Zlibs.SysExConf.Readings
import Zlibs.SysExConf.Staleness

/-! Packets that carry a frame have the effect of the frame, however it has been split. -/
namespace Zlibs.SysExConf
open Lib Midi

variable {η α β : Type} {device : Device η} {m : Members} {w s t u : World η} {x : SysExM η α}
  {packet : MidiUmp} {packets middle : List MidiUmp} {bytes payload : List UInt8}
  {status : SysEx7Status}

theorem wpf_run : wpf x (fun r t => x.run w = (.ok r, t)) (fun e t => x.run w = (.error e, t)) w := by
  unfold wpf
  split <;> assumption

theorem wpf_bind_run {k : α → SysExM η β} : wpf x (fun r t => (k r).run t = (x >>= k).run w)
    (fun e t => (.error e, t) = (x >>= k).run w) w := by
  rw [run_bind]
  unfold wpf
  rcases x.run w with ⟨_ | r, t⟩ <;> rfl

theorem run_of_wpf {out : Except Fault α × World η}
    (h : wpf x (fun r t => (.ok r, t) = out) (fun e t => (.error e, t) = out) w) :
    x.run w = out := by
  unfold wpf at h
  split at h
  · rename_i hrun
    exact hrun.trans h
  · rename_i hrun
    exact hrun.trans h

/-- After `reset_ump_message`. -/
def World.idle (w : World η) : World η := { w with ram := w.ram.idle }

/-- Nothing but the array and the frame in progress differs. -/
def Alike (w t : World η) : Prop := ∃ a, t.idle = w.idle.over a

theorem Alike.refl : Alike w w := ⟨w.ram.responseArray, rfl⟩

theorem Alike.trans (h : Alike w t) (h' : Alike t u) : Alike w u := by
  obtain ⟨a, ha⟩ := h
  obtain ⟨b, hb⟩ := h'
  refine ⟨b, ?_⟩
  rw [hb, ha]
  rfl

theorem Alike.idle (h : Alike w t) : Alike w t.idle := h

theorem Members.pushedAll_eq : ∃ a, m.pushedAll bytes =
    { m with responseArray := a, responseCounter := m.responseCounter + bytes.length } := by
  induction bytes generalizing m with
  | nil => exact ⟨m.responseArray, rfl⟩
  | cons byte rest ih =>
    obtain ⟨a, ha⟩ := ih (m := m.pushed byte)
    refine ⟨a, ha.trans ?_⟩
    rw [Members.pushed_responseCounter, List.length_cons, Nat.add_assoc, Nat.add_comm 1]
    rfl

theorem Members.pushedAll_active {b : Bool} :
    { m.pushedAll bytes with umpMessageActive := b } =
      Members.pushedAll { m with umpMessageActive := b } bytes := by
  induction bytes generalizing m with
  | nil => rfl
  | cons byte rest ih => exact ih

/-- In the middle of a frame, after some of its payload. -/
def World.holding (w : World η) (bytes : List UInt8) : World η :=
  { w with ram := w.ram.opened.pushedAll bytes }

@[simp] theorem World.holding_active : (w.holding bytes).ram.umpMessageActive = true :=
  Members.same_pushedAll.active

@[simp] theorem World.holding_responseCounter :
    (w.holding bytes).ram.responseCounter = 1 + bytes.length := Members.pushedAll_responseCounter

theorem alike_pushedAll : Alike w { w with ram := w.ram.pushedAll bytes } := by
  obtain ⟨a, ha⟩ := @Members.pushedAll_eq w.ram bytes
  refine ⟨a, ?_⟩
  rw [World.idle, ha]
  rfl

theorem alike_opened : Alike w { w with ram := w.ram.opened } := ⟨w.ram.opened.responseArray, rfl⟩

theorem alike_holding : Alike w (w.holding bytes) :=
  alike_opened.trans alike_pushedAll

section Packets

variable [Zephyr]

/-- Packets received one after the other. -/
def handlePackets (device : Device η) : List MidiUmp → SysExM η Unit
  | [] => pure ()
  | packet :: rest => do
    handlePacket device packet
    handlePackets device rest

/-- A whole frame received at once. -/
def processFrame (device : Device η) (payload : List UInt8) : SysExM η Unit := do
  resetUmpMessage
  pushAll (sysExStart :: (payload ++ [sysExEnd]))
  handleRequest device (payload.length + 2)
  resetUmpMessage

def IsSysex7 (packet : MidiUmp) (status : SysEx7Status) : Prop :=
  isSysex7Packet packet = true ∧ sysex7Status packet = status

/-- The packets of one frame. -/
inductive FrameRun : List MidiUmp → Prop
  | complete {packet : MidiUmp} : IsSysex7 packet .complete → FrameRun [packet]
  | split {first last : MidiUmp} {middle : List MidiUmp} : IsSysex7 first .start →
      (∀ q ∈ middle, IsSysex7 q .continue) → IsSysex7 last .end →
      FrameRun (first :: (middle ++ [last]))

/-- The packet ends no frame. -/
def EndsNothing (packet : MidiUmp) : Prop :=
  isSysex7Packet packet = true → sysex7EndsMessage (sysex7Status packet) = false

/-- The packet is the next of the frame of `w` that holds `bytes` so far. -/
structure Joins (w s : World η) (bytes : List UInt8) (packet : MidiUmp) : Prop where
  sysex : isSysex7Packet packet = true
  joined : sysex7StartsMessage (sysex7Status packet) = false → s.ram.umpMessageActive = true
  holding : { s with ram := s.ram.receiving packet } = w.holding bytes

theorem run_processFrame (h : payload.length + 2 ≤ maxMessageSize) :
    (processFrame device payload).run w =
      (handleRequest device (payload.length + 2) >>= fun _ => resetUmpMessage).run
        { w with ram := w.ram.idle.pushedAll (sysExStart :: (payload ++ [sysExEnd])) } := by
  apply run_of_wpf
  rw [processFrame, wpf_bind, wpf_resetUmpMessage, wpf_bind, wpf_pushAll]
  · refine wpf_mono wpf_run ?_ ?_
    · intro r t hrun
      exact hrun.symm
    · intro e t hrun
      exact hrun.symm
  · simp only [Members.idle, List.length_cons, List.length_append, List.length_nil]
    omega

theorem payloadBytes_length (h : isSysex7Packet packet = true) :
    (payloadBytes packet).length ≤ 6 := by
  simp only [isSysex7Packet, decide_eq_true_eq] at h
  simpa [payloadBytes, sysex7Data64MaxPayloadSize] using h.2.1

/-- What the next packet of a frame does. -/
theorem run_handlePacket (h : Joins w s bytes packet) :
    (handlePacket device packet).run s =
      if maxMessageSize < (w.holding bytes).ram.responseCounter + (payloadBytes packet).length +
          (if sysex7EndsMessage (sysex7Status packet) then 1 else 0) then
        (.ok (), (w.holding bytes).idle)
      else if sysex7EndsMessage (sysex7Status packet) then
        (processFrame device (bytes ++ payloadBytes packet)).run w
      else (.ok (), w.holding (bytes ++ payloadBytes packet)) := by
  obtain ⟨hsysex, hjoined, hholding⟩ := h
  have hram : s.ram.receiving packet = (w.holding bytes).ram := congrArg World.ram hholding
  have hsize : requiredSize (s.ram.receiving packet) packet =
      (w.holding bytes).ram.responseCounter + (payloadBytes packet).length +
        (if sysex7EndsMessage (sysex7Status packet) then 1 else 0) := by rw [hram, requiredSize]
  have hworld : ∀ m, { s with ram := m } = { w with ram := m } := fun m =>
    congrArg (fun v : World η => { v with ram := m }) hholding
  apply run_of_wpf
  apply wpf_handlePacket
  · intro hother
    rw [hsysex] at hother
    exact absurd hother (by simp)
  · intro _ hstart hactive
    rw [hjoined hstart] at hactive
    exact absurd hactive (by simp)
  · intro hlong
    rw [hsize] at hlong
    rw [if_pos hlong, ← hholding]
    rfl
  · intro hfits hend
    rw [hsize] at hfits
    rw [if_neg (not_lt.mpr hfits), hend, if_neg (by simp), World.holding, Members.pushedAll_append,
      hram, hworld]
    rfl
  · intro hfits hend
    rw [hsize] at hfits ⊢
    rw [if_neg (not_lt.mpr hfits), if_pos hend, hram, hend, if_pos rfl]
    rw [hend, if_pos rfl, World.holding_responseCounter] at hfits
    rw [run_processFrame (by simp; omega), hworld]
    have hloaded : w.ram.idle.pushedAll
        (sysExStart :: (bytes ++ payloadBytes packet ++ [sysExEnd])) =
        { (((w.holding bytes).ram.pushedAll (payloadBytes packet)).pushed sysExEnd) with
          umpMessageActive := false } := by
      change _ = { (((w.ram.opened.pushedAll bytes).pushedAll (payloadBytes packet)).pushedAll
        [sysExEnd]) with umpMessageActive := false }
      rw [← Members.pushedAll_append, ← Members.pushedAll_append, Members.pushedAll_active,
        List.append_assoc]
      rfl
    rw [← hloaded]
    have hn : (w.holding bytes).ram.responseCounter + (payloadBytes packet).length + 1 =
        (bytes ++ payloadBytes packet).length + 2 := by
      rw [World.holding_responseCounter, List.length_append]
      omega
    rw [hn]
    exact wpf_bind_run

theorem run_handlePacket_more (h : Joins w s bytes packet)
    (hend : sysex7EndsMessage (sysex7Status packet) = false) :
    (handlePacket device packet).run s =
      if maxMessageSize < 1 + bytes.length + (payloadBytes packet).length then
        (.ok (), (w.holding bytes).idle)
      else (.ok (), w.holding (bytes ++ payloadBytes packet)) := by
  rw [run_handlePacket h, hend, World.holding_responseCounter]
  simp only [Bool.false_eq_true, if_false, Nat.add_zero]

theorem run_handlePacket_last (h : Joins w s bytes packet)
    (hend : sysex7EndsMessage (sysex7Status packet) = true) :
    (handlePacket device packet).run s =
      if maxMessageSize < 1 + bytes.length + (payloadBytes packet).length + 1 then
        (.ok (), (w.holding bytes).idle)
      else (processFrame device (bytes ++ payloadBytes packet)).run w := by
  rw [run_handlePacket h, hend, World.holding_responseCounter]
  simp only [if_true]

/-- A packet that continues no frame is ignored. -/
theorem run_handlePacket_stray (hp : isSysex7Packet packet = true)
    (hstart : sysex7StartsMessage (sysex7Status packet) = false)
    (hactive : w.ram.umpMessageActive = false) : (handlePacket device packet).run w = (.ok (), w) := by
  apply run_of_wpf
  rw [handlePacket, hp, if_neg (by simp), wpf_bind, joinFrame, hstart, if_neg Bool.false_ne_true,
    wpf_bind, wpf_get, wpf_pure, hactive]
  rfl

/-- A packet that ends no frame is answered by nothing. -/
theorem run_handlePacket_unfinished (h : EndsNothing packet) :
    ∃ t, (handlePacket device packet).run w = (.ok (), t) ∧ Alike w t := by
  have hreceiving : Alike w { w with ram := w.ram.receiving packet } := by
    unfold Members.receiving
    split
    · exact alike_opened
    · exact .refl
  have hcourse : wpf (handlePacket device packet) (fun _ t => Alike w t) Never w := by
    by_cases hother : isSysex7Packet packet = true
    · have hend := h hother
      apply wpf_handlePacket
      · intro _
        exact Alike.refl.idle
      · intro _ _ _
        exact .refl
      · intro _
        exact hreceiving.idle
      · intro _ _
        exact hreceiving.trans alike_pushedAll
      · intro _ hends
        rw [hend] at hends
        exact absurd hends (by simp)
    · rw [handlePacket, if_pos (by simpa using hother)]
      exact Alike.refl.idle
  rw [wpf] at hcourse
  split at hcourse
  · rename_i t hrun
    exact ⟨t, hrun, hcourse⟩
  · exact hcourse.elim

theorem run_handlePackets_cons (h : (handlePacket device packet).run w = (.ok (), t)) :
    (handlePackets device (packet :: packets)).run w = (handlePackets device packets).run t := by
  rw [handlePackets, run_bind, h]

theorem run_handlePackets_append {rest : List MidiUmp} :
    (handlePackets device (packets ++ rest)).run w =
      match (handlePackets device packets).run w with
      | (.ok _, t) => (handlePackets device rest).run t
      | (.error e, t) => (.error e, t) := by
  induction packets generalizing w with
  | nil => rfl
  | cons packet packets ih =>
    rw [List.cons_append, handlePackets, run_bind, handlePackets, run_bind]
    rcases (handlePacket device packet).run w with ⟨_ | _, t⟩
    · rfl
    · exact ih

theorem run_handlePackets_strays
    (hp : ∀ q ∈ packets, isSysex7Packet q = true ∧ sysex7StartsMessage (sysex7Status q) = false)
    (hactive : w.ram.umpMessageActive = false) :
    (handlePackets device packets).run w = (.ok (), w) := by
  induction packets with
  | nil => rfl
  | cons packet rest ih =>
    obtain ⟨hsysex, hstart⟩ := hp packet (by simp)
    rw [run_handlePackets_cons (run_handlePacket_stray hsysex hstart hactive)]
    exact ih fun q hq => hp q (by simp [hq])

/-- Packets that end no frame leave no trace, whatever follows them. -/
theorem run_handlePackets_unfinished (h : ∀ q ∈ packets, EndsNothing q) :
    ∃ t, Alike w t ∧ ∀ rest,
      (handlePackets device (packets ++ rest)).run w = (handlePackets device rest).run t := by
  induction packets generalizing w with
  | nil => exact ⟨w, .refl, fun _ => rfl⟩
  | cons packet packets ih =>
    obtain ⟨s, hrun, hs⟩ := run_handlePacket_unfinished (w := w) (h packet (by simp))
    obtain ⟨t, ht, hrest⟩ := ih (w := s) fun q hq => h q (by simp [hq])
    refine ⟨t, hs.trans ht, fun rest => ?_⟩
    rw [List.cons_append, run_handlePackets_cons hrun]
    exact hrest rest

/-- What the packets of a frame with this payload come to. -/
structure Reassembled (device : Device η) (payload : List UInt8) (w : World η)
    (out : Except Fault Unit × World η) : Prop where
  processed : payload.length + 2 ≤ maxMessageSize → out = (processFrame device payload).run w
  dropped : maxMessageSize < payload.length + 2 → ∃ a, out = (.ok (), w.idle.over a)

theorem joins_holding (hp : isSysex7Packet packet = true)
    (hstart : sysex7StartsMessage (sysex7Status packet) = false) :
    Joins w (w.holding bytes) bytes packet :=
  ⟨hp, fun _ => World.holding_active, by rw [Members.receiving, hstart]; rfl⟩

theorem joins_start (hp : isSysex7Packet packet = true)
    (hstart : sysex7StartsMessage (sysex7Status packet) = true) : Joins w w [] packet :=
  ⟨hp, fun h => absurd (hstart.symm.trans h) (by simp), by rw [Members.receiving, hstart]; rfl⟩

theorem run_handlePackets_single :
    (handlePackets device [packet]).run w = (handlePacket device packet).run w := by
  rw [handlePackets, run_bind]
  rcases (handlePacket device packet).run w with ⟨_ | _, t⟩ <;> rfl

theorem payload_dropped {out : Except Fault Unit × World η} (hlong : maxMessageSize < payload.length + 2)
    (h : out = (.ok (), (w.holding bytes).idle)) : Reassembled device payload w out := by
  refine ⟨fun hfits => absurd hlong (not_lt.mpr hfits), fun _ => ?_⟩
  obtain ⟨a, ha⟩ : Alike w (w.holding bytes) := alike_holding
  exact ⟨a, by rw [h, ha]⟩

/-- The packet that ends a frame. -/
theorem run_lastPacket (h : Joins w s bytes packet)
    (hend : sysex7EndsMessage (sysex7Status packet) = true) :
    Reassembled device (bytes ++ payloadBytes packet) w ((handlePackets device [packet]).run s) := by
  rw [run_handlePackets_single, run_handlePacket_last h hend]
  split_ifs with hlong
  · refine payload_dropped ?_ rfl
    rw [List.length_append]
    omega
  · refine ⟨fun _ => rfl, fun h => absurd h ?_⟩
    rw [List.length_append]
    omega

/-- The rest of a frame that has been started. -/
theorem run_frameRest {last : MidiUmp} (hmiddle : ∀ q ∈ middle, IsSysex7 q .continue)
    (hlast : IsSysex7 last .end) :
    Reassembled device (bytes ++ (middle ++ [last]).flatMap payloadBytes) w
      ((handlePackets device (middle ++ [last])).run (w.holding bytes)) := by
  have hend : ∀ {q status}, IsSysex7 q status → sysex7StartsMessage status = false →
      sysex7StartsMessage (sysex7Status q) = false := fun hq hs => hq.2 ▸ hs
  induction middle generalizing bytes with
  | nil =>
    have hjoins : Joins w (w.holding bytes) bytes last := joins_holding hlast.1 (hend hlast rfl)
    simpa using run_lastPacket hjoins (by rw [hlast.2]; rfl)
  | cons packet rest ih =>
    have hpacket := hmiddle packet (by simp)
    have hrest : ∀ q ∈ rest, IsSysex7 q .continue := fun q hq => hmiddle q (by simp [hq])
    have hjoins : Joins w (w.holding bytes) bytes packet :=
      joins_holding hpacket.1 (hend hpacket rfl)
    have hstep : (handlePacket device packet).run (w.holding bytes) = _ :=
      run_handlePacket_more hjoins (by rw [hpacket.2]; rfl)
    rw [List.cons_append, List.flatMap_cons, ← List.append_assoc]
    split_ifs at hstep with hlong
    · rw [run_handlePackets_cons hstep, run_handlePackets_strays]
      · refine payload_dropped ?_ rfl
        simp only [List.length_append]
        omega
      · intro q hq
        rcases List.mem_append.mp hq with hq | hq
        · exact ⟨(hrest q hq).1, hend (hrest q hq) rfl⟩
        · rw [List.mem_singleton.mp hq]
          exact ⟨hlast.1, hend hlast rfl⟩
      · rfl
    · rw [run_handlePackets_cons hstep]
      exact ih hrest

/-- The packets of a frame have the effect of the frame. -/
theorem run_frame (h : FrameRun packets) :
    Reassembled device (packets.flatMap payloadBytes) w ((handlePackets device packets).run w) := by
  cases h with
  | complete hp =>
    have hjoins : Joins w w [] _ := joins_start hp.1 (by rw [hp.2]; rfl)
    simpa using run_lastPacket hjoins (by rw [hp.2]; rfl)
  | split hfirst hmiddle hlast =>
    rename_i first last middle
    have hjoins : Joins w w [] first := joins_start hfirst.1 (by rw [hfirst.2]; rfl)
    have hstep : (handlePacket device first).run w = _ :=
      run_handlePacket_more hjoins (by rw [hfirst.2]; rfl)
    have hsize : (payloadBytes first).length ≤ 6 := payloadBytes_length hfirst.1
    rw [if_neg (by simp only [maxMessageSize_eq, List.length_nil]; omega)] at hstep
    rw [run_handlePackets_cons hstep, List.flatMap_cons]
    exact run_frameRest hmiddle hlast

omit [Zephyr] in
theorem run_pushAll (h : w.ram.responseCounter + bytes.length ≤ maxMessageSize) :
    (pushAll bytes).run w = (.ok (), { w with ram := w.ram.pushedAll bytes }) :=
  run_of_wpf ((wpf_pushAll h).mpr rfl)

/-- A frame is processed in the same way over every array. -/
theorem processFrame_over (h : payload.length + 2 ≤ maxMessageSize)
    (hsmall : SmallSections w.ram.layout) (a : Vector UInt8 maxMessageSize) :
    ∃ a', (processFrame device payload).run (w.over a) =
      (((processFrame device payload).run w).1, ((processFrame device payload).run w).2.over a') := by
  have hlength : (sysExStart :: (payload ++ [sysExEnd])).length = payload.length + 2 := by simp
  have hroom : w.idle.ram.responseCounter + (sysExStart :: (payload ++ [sysExEnd])).length ≤
      maxMessageSize := by
    rw [hlength, World.idle, Members.idle, Nat.zero_add]
    exact h
  have hload : Blind 0 (pushAll (sysExStart :: (payload ++ [sysExEnd]))) w.idle := blind_pushAll
  obtain ⟨b, hrun, hb⟩ := hload a fun i hi => absurd hi (by simp [World.idle, Members.idle])
  rw [run_pushAll hroom] at hrun hb
  rw [run_pushAll (w := w.idle.over a) hroom] at hrun
  have hloaded := congrArg Prod.snd hrun
  have hagrees : Agrees (payload.length + 2) (w.idle.ram.pushedAll
      (sysExStart :: (payload ++ [sysExEnd]))) b := by
    intro i hi
    refine hb i (.inr ?_)
    rw [Members.pushedAll_responseCounter, hlength] at hi ⊢
    omega
  have hblind : Blind (payload.length + 2)
      (handleRequest device (payload.length + 2) >>= fun _ => resetUmpMessage)
      { w with ram := w.ram.idle.pushedAll (sysExStart :: (payload ++ [sysExEnd])) } := by
    refine blind_bind (blind_handleRequest h ?_) fun _ _ _ =>
      blind_modifyMembers (fun _ _ => rfl) (.inl (Nat.zero_le _))
    rw [Members.same_pushedAll.layout]
    exact hsmall
  obtain ⟨a', hrest, -⟩ := hblind b hagrees
  refine ⟨a', ?_⟩
  rw [run_processFrame h, run_processFrame h, ← hrest]
  exact congrArg _ hloaded

theorem run_processFrame_idle :
    (processFrame device payload).run w.idle = (processFrame device payload).run w := rfl

/-- Worlds that differ in the array and in an unfinished frame answer a frame alike. -/
theorem run_frame_alike (h : FrameRun packets) (hsmall : SmallSections w.ram.layout)
    (ht : Alike w t) :
    ∃ a, (handlePackets device packets).run t = (((handlePackets device packets).run w).1,
      ((handlePackets device packets).run w).2.over a) := by
  obtain ⟨b, hb⟩ := ht
  have hw : Reassembled device (packets.flatMap payloadBytes) w _ := run_frame h
  have ht : Reassembled device (packets.flatMap payloadBytes) t _ := run_frame h
  by_cases hfits : (packets.flatMap payloadBytes).length + 2 ≤ maxMessageSize
  · rw [hw.processed hfits, ht.processed hfits, ← run_processFrame_idle, hb,
      ← run_processFrame_idle (w := w)]
    exact processFrame_over hfits hsmall b
  · obtain ⟨a, ha⟩ := hw.dropped (not_le.mp hfits)
    obtain ⟨a', ha'⟩ := ht.dropped (not_le.mp hfits)
    exact ⟨a', by rw [ha, ha', hb]; rfl⟩

/-- After a frame the packets that continue one are ignored. -/
theorem active_of_run (h : FrameRun packets)
    (hrun : (handlePackets device packets).run w = (.ok (), t)) : t.ram.umpMessageActive = false := by
  have hw : Reassembled device (packets.flatMap payloadBytes) w _ := run_frame h
  rw [hrun] at hw
  by_cases hfits : (packets.flatMap payloadBytes).length + 2 ≤ maxMessageSize
  · have hprocessed := hw.processed hfits
    rw [run_processFrame hfits, run_bind] at hprocessed
    split at hprocessed
    · have ht : t = _ := congrArg Prod.snd hprocessed
      rw [ht]
      rfl
    · exact absurd (congrArg Prod.fst hprocessed) (by simp)
  · obtain ⟨a, ha⟩ := hw.dropped (not_le.mp hfits)
    have ht : t = _ := congrArg Prod.snd ha
    rw [ht]
    rfl

/-- Packets of a frame that fits have the effect of the frame, those of a longer one have none,
packets that continue no frame have none, and a frame after packets that end none is answered as if
these had never been received. -/
theorem packets_reassembled (device : Device η) (w : World η) (hsmall : SmallSections w.ram.layout)
    {packets : List MidiUmp} (h : FrameRun packets) :
    ((packets.flatMap payloadBytes).length + 2 ≤ maxMessageSize →
      (handlePackets device packets).run w =
        (processFrame device (packets.flatMap payloadBytes)).run w) ∧
    (maxMessageSize < (packets.flatMap payloadBytes).length + 2 →
      ∃ a, (handlePackets device packets).run w = (.ok (), w.idle.over a)) ∧
    (∀ strays : List MidiUmp,
      (∀ q ∈ strays, isSysex7Packet q = true ∧ sysex7StartsMessage (sysex7Status q) = false) →
      (w.ram.umpMessageActive = false → (handlePackets device strays).run w = (.ok (), w)) ∧
      (handlePackets device (packets ++ strays)).run w = (handlePackets device packets).run w) ∧
    ∀ unfinished : List MidiUmp, (∀ q ∈ unfinished, EndsNothing q) →
      ∃ a, (handlePackets device (unfinished ++ packets)).run w =
        (((handlePackets device packets).run w).1, ((handlePackets device packets).run w).2.over a) := by
  have hframe : Reassembled device (packets.flatMap payloadBytes) w _ := run_frame h
  refine ⟨hframe.processed, hframe.dropped, ?_, ?_⟩
  · intro strays hstrays
    refine ⟨run_handlePackets_strays hstrays, ?_⟩
    rw [run_handlePackets_append]
    rcases hrun : (handlePackets device packets).run w with ⟨_ | _, t⟩
    · rfl
    · exact run_handlePackets_strays hstrays (active_of_run h hrun)
  · intro unfinished hunfinished
    obtain ⟨t, ht, hrest⟩ := @run_handlePackets_unfinished _ device w _ _ hunfinished
    rw [hrest packets]
    exact run_frame_alike h hsmall ht

theorem payloadBytes_sysex7Packet (hz : Zephyr.Documented) {chunk : List UInt8}
    (hl : chunk.length ≤ 6) (hd : ∀ b ∈ chunk, b < midiStatusMin) :
    payloadBytes (sysex7Packet 0 status chunk) = chunk := by
  obtain ⟨-, -, -, hsize⟩ := sysex7Packet_fields hz (t := status) hl (by decide : (0 : UInt8) < 16)
  rw [payloadBytes, hsize, sysex7Packet_payload hz hl,
    List.map_congr_left fun b hb => and_data_of_lt (hd b hb), List.map_id']

theorem isSysex7_sysex7Packet (hz : Zephyr.Documented) {chunk : List UInt8}
    (hl : chunk.length ≤ 6) : IsSysex7 (sysex7Packet 0 status chunk) status :=
  ⟨sysex7Packet_isSysex7 hz hl (by decide), sysex7Packet_status hz hl (by decide)⟩

end Packets

/-- A request to open the connection, in three packets of which one is empty. -/
def openingPackets : List MidiUmp :=
  [sysex7Packet 0 .start [0x00, 0x53, 0x43, Status.request.toByte], sysex7Packet 0 .continue [],
    sysex7Packet 0 .end [0, connOpen]]

def configured : World Unit :=
  { ram := { layout := [⟨[⟨33, 0, 0⟩]⟩] }, handler := (), trace := [] }

theorem openingPackets_frameRun : FrameRun openingPackets := by
  refine @FrameRun.split _ _ _ [sysex7Packet 0 .continue []] ?_ ?_ ?_
  · exact ⟨by decide, by decide⟩
  · intro q hq
    rw [List.mem_singleton.mp hq]
    exact ⟨by decide, by decide⟩
  · exact ⟨by decide, by decide⟩

theorem packets_reassembled_example :
    (handlePackets ackDevice openingPackets).run configured =
      (processFrame ackDevice [0x00, 0x53, 0x43, Status.request.toByte, 0, connOpen]).run configured ∧
    ∃ a, (handlePackets ackDevice (sysex7Packet 0 .start [1, 2, 3] :: openingPackets)).run configured =
      (((handlePackets ackDevice openingPackets).run configured).1,
        ((handlePackets ackDevice openingPackets).run configured).2.over a) := by
  have hpayload : openingPackets.flatMap payloadBytes =
      [0x00, 0x53, 0x43, Status.request.toByte, 0, connOpen] := by decide
  have hsmall : SmallSections configured.ram.layout := by simp [SmallSections, configured]
  obtain ⟨hfits, -, -, hafter⟩ :=
    packets_reassembled ackDevice configured hsmall openingPackets_frameRun
  rw [hpayload] at hfits
  refine ⟨hfits (by decide), hafter [_] fun q hq => ?_⟩
  rw [List.mem_singleton.mp hq]
  intro _
  decide

end Zlibs.SysExConf
