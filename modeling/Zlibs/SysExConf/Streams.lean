import Zlibs.Midi.Relay
import Zlibs.Midi.BleFormat
import Zlibs.SysExConf.Reassembly

/-! Any packets, and any bytes on a serial line or in BLE packets, have the effect of the whole
frames among them. -/
namespace Zlibs.SysExConf
open Lib Midi

variable {η : Type} {device : Device η} {w s t u : World η} {size : Nat} {packet : MidiUmp}
  {packets : List MidiUmp} {payload : List UInt8} {held : Option (List UInt8)}

section Frames

variable [Zephyr]

/-- The frame under way after a packet, and the frame that it ends. Other packets drop it. -/
def assemble (held : Option (List UInt8)) (packet : MidiUmp) :
    Option (List UInt8) × Option (List UInt8) :=
  if isSysex7Packet packet then
    match if sysex7StartsMessage (sysex7Status packet) then some [] else held with
    | none => (none, none)
    | some bytes =>
      if sysex7EndsMessage (sysex7Status packet) then (some (bytes ++ payloadBytes packet), none)
      else (none, some (bytes ++ payloadBytes packet))
  else (none, none)

/-- A frame with the payload fits into the array. -/
def fits (payload : List UInt8) : Bool := payload.length + 2 ≤ maxMessageSize

/-- Whole frames received one after the other. -/
def processFrames (device : Device η) : List (List UInt8) → SysExM η Unit
  | [] => pure ()
  | payload :: rest => do
    processFrame device payload
    processFrames device rest

theorem handleRequest_layout (hs : size ≤ maxMessageSize) :
    wpf (handleRequest device size) (fun _ t => t.ram.layout = w.ram.layout) Never w := by
  apply wpf_handleRequest hs
  · intro _ m hm
    exact hm.layout
  intro ha
  have h8 : specialReqMsgSize ≤ size := ha.long
  have hroom : Room 0 (w.asked size) := by
    refine ⟨?_, ?_, ha.start⟩
    · simp only [World.asked, Members.begun_responseCounter, specialReqMsgSize, wishByte] at h8 ⊢
      omega
    · simp only [World.asked, Members.begun_responseCounter, specialReqMsgSize, wishByte] at h8 ⊢
      omega
  have hasked : (w.asked size).ram.layout = w.ram.layout := Members.same_begun.layout
  rw [← hasked]
  by_cases hst : (w.asked size).ram.byteAt statusByte = Status.request.toByte
  · by_cases h8' : size = specialReqMsgSize
    · subst h8'
      apply wpf_answer_special hst
      have hroom2 : Room 2 (w.asked specialReqMsgSize) :=
        ⟨hroom.started, (show 9 < maxMessageSize by decide), hroom.start⟩
      refine wpf_of_never (processSpecialRequest_replies hroom2) ?_
      rintro _ t ⟨hserves, hleft⟩
      exact serves_sendResponse hleft fun u hu _ => hu.same.layout.trans hserves.same.layout
    apply wpf_answer_standard hst h8'
    · intro status d _
      refine serves_sendResponse ⟨hroom.started, hroom.room, ?_⟩ fun t ht _ => ht.same.layout
      exact (Members.byteAt_write_other (by decide)).trans hroom.start
    · intro d hd
      have ha := Members.accepts_of_decoded hd
      refine wpf_of_never (processStandardRequest_acts (admitted_of_accepts ha hroom rfl hs)) ?_
      rintro done t ⟨hact, hleft⟩
      cases done with
      | true => exact hact.same.layout
      | false =>
        have hroom := hleft rfl
        exact serves_sendResponse ⟨hroom.started, hroom.room, hroom.start⟩ fun u hu _ =>
          hu.same.layout.trans hact.same.layout
  · apply wpf_answer_badStatus hst
    exact serves_sendResponse (replies_write _ hroom).2 fun t ht _ => ht.same.layout

/-- A frame that fits is processed without a fault. -/
theorem processFrame_ok (h : payload.length + 2 ≤ maxMessageSize) :
    ∃ t, (processFrame device payload).run w = (.ok (), t) ∧ t.ram.layout = w.ram.layout ∧
      t.ram.umpMessageActive = false := by
  rw [run_processFrame h, run_bind]
  have hcourse : wpf (handleRequest device (payload.length + 2))
      (fun _ t => t.ram.layout = w.ram.layout) Never
      { w with ram := w.ram.idle.pushedAll (sysExStart :: (payload ++ [sysExEnd])) } :=
    wpf_of_never (handleRequest_layout h) fun _ t ht =>
      ht.trans Members.same_pushedAll.layout
  unfold wpf at hcourse
  split at hcourse
  · exact ⟨_, rfl, hcourse, rfl⟩
  · exact hcourse.elim

theorem processFrame_alike (h : payload.length + 2 ≤ maxMessageSize)
    (hsmall : SmallSections w.ram.layout) (hu : Alike w u) :
    ∃ a, (processFrame device payload).run u = (((processFrame device payload).run w).1,
      ((processFrame device payload).run w).2.over a) := by
  obtain ⟨a, ha⟩ := hu
  rw [← run_processFrame_idle, ha, ← @run_processFrame_idle _ device w]
  exact processFrame_over h hsmall a

/-- A world like `w` holds the frame under way, unless that is too long already. -/
inductive Receiving (w : World η) : World η → Option (List UInt8) → Prop
  | none {s : World η} (h : Alike w s) (hi : s.ram.umpMessageActive = false) : Receiving w s none
  | some {u : World η} {bytes : List UInt8} (h : Alike w u) (hfits : bytes.length < maxMessageSize) :
    Receiving w (u.holding bytes) (some bytes)
  | long {s : World η} {bytes : List UInt8} (h : Alike w s) (hi : s.ram.umpMessageActive = false)
    (hl : maxMessageSize ≤ bytes.length) : Receiving w s (some bytes)

omit [Zephyr] in
theorem Receiving.alike (h : Receiving w s held) : Alike w s := by
  cases h with
  | none h _ => exact h
  | some h _ => exact h.trans alike_holding
  | long h _ _ => exact h

/-- The packets and the frames in them have been received, with one frame under way. -/
structure Agree (w : World η) (out : Except Fault Unit × World η)
    (spec : Except Fault Unit × World η) (held : Option (List UInt8)) : Prop where
  ok : out.1 = .ok ()
  specOk : spec.1 = .ok ()
  layout : spec.2.ram.layout = w.ram.layout
  receiving : Receiving spec.2 out.2 held

/-- A packet that the frame under way goes on with. -/
theorem agree_more {bytes : List UInt8} (hu : Alike w u) (hj : Joins u s bytes packet)
    (hend : sysex7EndsMessage (sysex7Status packet) = false) :
    Agree w ((handlePacket device packet).run s) ((processFrames device []).run w)
      (some (bytes ++ payloadBytes packet)) := by
  rw [run_handlePacket_more hj hend]
  refine ⟨?_, rfl, rfl, ?_⟩
  · split_ifs <;> rfl
  · split_ifs with hlong
    · refine .long (hu.trans alike_holding.idle) rfl ?_
      rw [List.length_append]
      omega
    · refine .some hu ?_
      rw [List.length_append]
      omega

/-- A packet that ends the frame under way. -/
theorem agree_last {bytes : List UInt8} (hsmall : SmallSections w.ram.layout) (hu : Alike w u)
    (hj : Joins u s bytes packet) (hend : sysex7EndsMessage (sysex7Status packet) = true) :
    Agree w ((handlePacket device packet).run s)
      ((processFrames device ([bytes ++ payloadBytes packet].filter fits)).run w) none := by
  have hlength : (bytes ++ payloadBytes packet).length = bytes.length + (payloadBytes packet).length :=
    List.length_append
  rw [run_handlePacket_last hj hend]
  by_cases hlong : maxMessageSize < 1 + bytes.length + (payloadBytes packet).length + 1
  · rw [if_pos hlong, List.filter_cons_of_neg (by rw [fits, decide_eq_true_eq]; omega)]
    exact ⟨rfl, rfl, rfl, .none (hu.trans alike_holding.idle) rfl⟩
  · have hfits : (bytes ++ payloadBytes packet).length + 2 ≤ maxMessageSize := by omega
    have hpos : fits (bytes ++ payloadBytes packet) = true := decide_eq_true hfits
    rw [if_neg hlong, List.filter_cons_of_pos hpos]
    obtain ⟨v, hv, hlayout, hidle⟩ := @processFrame_ok _ device w _ _ hfits
    obtain ⟨a, ha⟩ := @processFrame_alike _ device w u _ _ hfits hsmall hu
    rw [ha, hv, List.filter_nil, processFrames, run_bind, hv]
    exact ⟨rfl, rfl, hlayout, .none ⟨a, rfl⟩ hidle⟩

theorem agree_packet (hsmall : SmallSections w.ram.layout) (h : Receiving w s held)
    (packet : MidiUmp) :
    Agree w ((handlePacket device packet).run s)
      ((processFrames device ((assemble held packet).1.toList.filter fits)).run w)
      (assemble held packet).2 := by
  unfold assemble
  by_cases hsysex : isSysex7Packet packet = true
  swap
  · have hrun : (handlePacket device packet).run s = (.ok (), s.idle) := by
      rw [handlePacket, if_pos (by simpa using hsysex)]
      rfl
    rw [if_neg hsysex, hrun]
    exact ⟨rfl, rfl, rfl, .none h.alike.idle rfl⟩
  rw [if_pos hsysex]
  cases hstart : sysex7StartsMessage (sysex7Status packet) with
  | true =>
    have hj : Joins s s [] packet := joins_start hsysex hstart
    cases hend : sysex7EndsMessage (sysex7Status packet) with
    | true => exact agree_last hsmall h.alike hj hend
    | false => exact agree_more h.alike hj hend
  | false =>
    cases h with
    | none h hi =>
      rw [run_handlePacket_stray hsysex hstart hi]
      exact ⟨rfl, rfl, rfl, .none h hi⟩
    | @some u bytes h hfits =>
      have hj : Joins u (u.holding bytes) bytes packet := joins_holding hsysex hstart
      cases hend : sysex7EndsMessage (sysex7Status packet) with
      | true => exact agree_last hsmall h hj hend
      | false => exact agree_more h hj hend
    | @long _ bytes h hi hl =>
      have hlong : maxMessageSize ≤ (bytes ++ payloadBytes packet).length := by
        rw [List.length_append]
        omega
      rw [run_handlePacket_stray hsysex hstart hi]
      cases hend : sysex7EndsMessage (sysex7Status packet) with
      | true =>
        show Agree w _ ((processFrames device ([bytes ++ payloadBytes packet].filter fits)).run w) _
        rw [List.filter_cons_of_neg (by rw [fits, decide_eq_true_eq]; omega)]
        exact ⟨rfl, rfl, rfl, .none h hi⟩
      | false => exact ⟨rfl, rfl, rfl, .long h hi hlong⟩

theorem run_processFrames_append {frames rest : List (List UInt8)}
    (h : (processFrames device frames).run w = (.ok (), t)) :
    (processFrames device (frames ++ rest)).run w = (processFrames device rest).run t := by
  induction frames generalizing w with
  | nil =>
    have hw : w = t := congrArg Prod.snd h
    rw [hw]
    rfl
  | cons payload frames ih =>
    rw [processFrames, run_bind] at h
    rw [List.cons_append, processFrames, run_bind]
    split at h
    · exact ih h
    · exact absurd (congrArg Prod.fst h) (by simp)

theorem agree_packets (hsmall : SmallSections w.ram.layout) (h : Receiving w s held)
    (packets : List MidiUmp) :
    Agree w ((handlePackets device packets).run s)
      ((processFrames device ((feed assemble held packets).1.filter fits)).run w)
      (feed assemble held packets).2 := by
  induction packets generalizing w s held with
  | nil => exact ⟨rfl, rfl, rfl, h⟩
  | cons packet rest ih =>
    obtain ⟨hok, hspec, hlayout, hreceiving⟩ := @agree_packet _ device _ _ _ _ hsmall h packet
    obtain ⟨hok', hspec', hlayout', hreceiving'⟩ := ih (hlayout ▸ hsmall) hreceiving
    have hhandled : (handlePacket device packet).run s =
        (.ok (), ((handlePacket device packet).run s).2) := Prod.ext hok rfl
    have hframe : (processFrames device ((assemble held packet).1.toList.filter fits)).run w =
        (.ok (), _) := Prod.ext hspec rfl
    rw [run_handlePackets_cons hhandled]
    simp only [feed, List.filter_append]
    rw [run_processFrames_append hframe]
    exact ⟨hok', hspec', hlayout'.trans hlayout, hreceiving'⟩

/-- No packets lead to a fault, and their effect, the calls of the handler and its state included,
is that of the whole frames among them that fit, in their order. -/
theorem frames_processed (device : Device η) (w : World η) (hsmall : SmallSections w.ram.layout)
    (hidle : w.ram.umpMessageActive = false) (packets : List MidiUmp) :
    let out := (handlePackets device packets).run w
    let spec := (processFrames device ((feed assemble none packets).1.filter fits)).run w
    out.1 = .ok () ∧ spec.1 = .ok () ∧ Alike spec.2 out.2 := by
  obtain ⟨hok, hspec, -, hreceiving⟩ :=
    @agree_packets _ device _ _ _ _ hsmall (.none .refl hidle) packets
  exact ⟨hok, hspec, hreceiving.alike⟩

end Frames

theorem frames_processed_example :
    let packets := sysex7Packet 0 .continue [9] :: sysex7Packet 0 .start [1, 2, 3] :: openingPackets
    (feed assemble none packets).1.filter fits =
        [[0x00, 0x53, 0x43, Status.request.toByte, 0, connOpen]] ∧
      ((handlePackets ackDevice packets).run configured).1 = .ok () := by
  have hsmall : SmallSections configured.ram.layout := by simp [SmallSections, configured]
  exact ⟨by decide, (frames_processed ackDevice configured hsmall rfl _).1⟩

section Bytes

variable [Zephyr]

theorem assemble_sysex7Packet (hz : Zephyr.Documented) {chunk : List UInt8} {status : SysEx7Status}
    (hl : chunk.length ≤ 6) (hd : ∀ b ∈ chunk, b < midiStatusMin) :
    assemble held (sysex7Packet 0 status chunk) =
      match if sysex7StartsMessage status then some [] else held with
      | none => (none, none)
      | some bytes =>
        if sysex7EndsMessage status then (some (bytes ++ chunk), none)
        else (none, some (bytes ++ chunk)) := by
  obtain ⟨hsysex, hstatus⟩ := @isSysex7_sysex7Packet status _ hz _ hl
  rw [assemble, if_pos hsysex, hstatus, payloadBytes_sysex7Packet hz hl hd]

/-- The packets of a message end its frame, and those of an unfinished one end none. -/
theorem assemble_packetsFrom (hz : Zephyr.Documented) {cs : List (List UInt8)} {first : Bool}
    {bytes : List UInt8} (hne : cs ≠ [])
    (hcs : ∀ c ∈ cs, c.length ≤ 6 ∧ ∀ b ∈ c, b < midiStatusMin)
    (hheld : (if first then some [] else held) = some bytes) :
    (feed assemble held (packetsFrom 0 first cs)).1 = [bytes ++ cs.flatten] := by
  induction cs generalizing first held bytes with
  | nil => exact absurd rfl hne
  | cons c rest ih =>
    obtain ⟨hl, hd⟩ := hcs c List.mem_cons_self
    have hstarts : sysex7StartsMessage (chunkStatus first rest.isEmpty) = first := by
      cases first <;> cases rest <;> rfl
    rw [packetsFrom, feed, assemble_sysex7Packet hz hl hd, hstarts, hheld]
    cases rest with
    | nil => cases first <;> simp [chunkStatus, sysex7EndsMessage, packetsFrom]
    | cons d more =>
      have hrest := @ih (some (bytes ++ c)) false (bytes ++ c) (List.cons_ne_nil d more)
        (fun c h => hcs c (List.mem_cons_of_mem _ h)) rfl
      have hmore : sysex7EndsMessage (chunkStatus first (d :: more).isEmpty) = false := by
        cases first <;> rfl
      rw [hmore]
      simp only [Bool.false_eq_true, if_false, Option.toList_none, List.nil_append, hrest]
      simp only [List.flatten_cons, List.append_assoc]

end Bytes

end Zlibs.SysExConf
