import Zlibs.SysExConf.Special

/-! Every frame and every packet keeps to the session that the trace defines. -/
namespace Zlibs.SysExConf
open Lib Midi

variable {η : Type} {device : Device η} {id : ManufacturerId} {m : Members} {w t : World η}
  {size : Nat} {packet : MidiUmp} {E : Fault → World η → Prop}

/-- The members agree with the trace, and the handler has been called properly. -/
structure Tracks (id : ManufacturerId) (w : World η) : Prop where
  session : Session.of id w.trace = w.ram.session
  contract : Contract id w.trace

theorem Tracks.events {handler : η} {es : List Event} (h : Tracks id w)
    (hm : m.session = w.ram.session) (hes : ∀ e ∈ es, e.Inner ∧ e.Proper w.ram.session) :
    Tracks id { ram := m, handler := handler, trace := w.trace ++ es } := by
  constructor
  · rw [Session.of_append_inner fun e he => (hes e he).1, h.session, hm]
  · apply h.contract.append
    rw [h.session]
    exact hes

theorem Tracks.acts (h : Tracks id w) (ha : Acts w t) : Tracks id t := by
  obtain ⟨es, he, hes⟩ := ha.events
  rcases t with ⟨ram, handler, trace⟩
  subst he
  exact h.events ha.same.session hes

theorem Tracks.withMembers (h : Tracks id w) (hm : m.session = w.ram.session) :
    Tracks id { w with ram := m } := ⟨h.session.trans hm.symm, h.contract⟩

theorem Tracks.event {e : Event} (h : Tracks id w) (he : e.Proper w.ram.session)
    (hm : m.session = w.ram.session.next id e) :
    Tracks id { w with ram := m, trace := w.trace ++ [e] } := by
  constructor
  · rw [Session.of_snoc, h.session, hm]
  · exact h.contract.snoc (h.session ▸ he)

theorem take_eight : m.responseArray.toList.take 8 = [m.byteAt 0, m.byteAt 1, m.byteAt 2,
    m.byteAt 3, m.byteAt 4, m.byteAt 5, m.byteAt 6, m.byteAt 7] := by
  have h : 8 < maxMessageSize := by decide
  apply List.ext_getElem
  · simp [Nat.min_eq_left h.le]
  · intro i h1 h2
    simp only [List.length_take, List.length_cons, List.length_nil] at h1 h2
    rw [List.getElem_take, Members.getElem_array]
    interval_cases i <;> rfl

/-- A well-formed special request is an addressed frame of eight bytes with a request status. -/
theorem specialRequest_take {wish : UInt8} (hs : size ≤ maxMessageSize)
    (h : specialRequest id (m.responseArray.toList.take size) = some wish) (hl : m.layout ≠ []) :
    size = 8 ∧ m.Addressed id size ∧ m.byteAt statusByte = Status.request.toByte ∧
      wish = m.byteAt wishByte := by
  have h8 : size = 8 := by
    have hlen : (m.responseArray.toList.take size).length = 8 := by
      generalize m.responseArray.toList.take size = frame at h
      unfold specialRequest at h
      split at h
      · rfl
      · simp at h
    simpa [Nat.min_eq_left hs] using hlen
  subst h8
  rw [take_eight, specialRequest] at h
  split at h
  · rename_i hc
    obtain ⟨h0, h1, h2, h3, h4, h7⟩ := hc
    exact ⟨rfl, ⟨hl, by decide, h0, h7, h1, h2, h3⟩, h4, (Option.some.inj h).symm⟩
  · simp at h

theorem specialRequest_addressed (h : m.Addressed id specialReqMsgSize)
    (hs : m.byteAt statusByte = Status.request.toByte) :
    specialRequest id (m.responseArray.toList.take specialReqMsgSize) =
      some (m.byteAt wishByte) := by
  rw [show specialReqMsgSize = 8 from rfl, take_eight, specialRequest]
  exact if_pos ⟨h.start, h.id1, h.id2, h.id3, hs, h.terminated⟩

/-- A frame that is no special request for this device leaves the session as it is. -/
theorem next_request (hs : size ≤ maxMessageSize)
    (h : m.Addressed id size → m.byteAt statusByte = Status.request.toByte →
      size ≠ specialReqMsgSize) :
    m.session.next id (.request (m.responseArray.toList.take size)) = m.session := by
  simp only [Session.next]
  split
  · rename_i wish hw
    split
    · rfl
    · rename_i hl
      obtain ⟨h8, ha, hst, _⟩ := specialRequest_take hs hw hl
      exact absurd h8 (h ha hst)
  · rfl

theorem generateMessageLength_reads
    (h : m.decodedRequest.wish = .get ∨ m.decodedRequest.wish = .backup) :
    m.generateMessageLength = stdReqMinMsgSize := by
  unfold Members.generateMessageLength
  rcases h with h | h <;> rw [h] <;> split <;> rfl

theorem admitted_of_accepts {d : DecodedRequest} (h : w.ram.Accepts size d) (hr : Room 0 w)
    (hc : w.ram.responseCounter = size - 1) (hs : size ≤ maxMessageSize) :
    Admitted size { w with ram := w.ram.marked .ack d } := by
  have hkind := h.kind
  obtain ⟨rfl, hlong, henabled, hwish, hblock, hsect, hamount, hpart, hlength⟩ := h
  refine ⟨⟨henabled, ?_, ?_⟩, hkind, ?_, hc, hs, hlong, ?_⟩
  · simpa using of_decide_eq_true hblock
  · simpa using of_decide_eq_true hsect
  · exact (Members.byteAt_write_other (by decide)).trans hr.start
  · intro hw
    simp only [Members.marked_decodedRequest, Members.operands_wish] at hw
    rw [hlength, generateMessageLength_reads hw]

variable [Zephyr]

theorem Tracks.sendResponse {Q : Unit → World η → Prop} (h : Tracks id w) (hr : Room 0 w)
    (hq : ∀ t, Tracks id t → Q () t) : wpf (sendResponse device) Q E w :=
  serves_sendResponse hr fun t ht _ => hq t (h.acts ht.acts)

theorem answer_tracks (h : Tracks id w) (hr : Room 0 w) (hc : w.ram.responseCounter = size - 1)
    (hs : size ≤ maxMessageSize)
    (hne : w.ram.byteAt statusByte = Status.request.toByte → size ≠ specialReqMsgSize) :
    wpf (answer device size) (fun _ t => Tracks id t) Never w := by
  by_cases hst : w.ram.byteAt statusByte = Status.request.toByte
  · apply wpf_answer_standard hst (hne hst)
    · intro status d _
      have hm : Tracks id { w with ram := (w.ram.marked status d).cleared } := h.withMembers rfl
      refine hm.sendResponse ⟨hr.started, hr.room, ?_⟩ fun t ht => ht
      exact (Members.byteAt_write_other (by decide)).trans hr.start
    · intro d hd
      have ha := Members.accepts_of_decoded hd
      have hm : Tracks id { w with ram := w.ram.marked .ack d } := h.withMembers rfl
      refine wpf_of_never (processStandardRequest_acts (admitted_of_accepts ha hr hc hs)) ?_
      rintro done t ⟨hact, hleft⟩
      have ht := hm.acts hact
      cases done with
      | true => exact ht
      | false =>
        have hroom := hleft rfl
        have hm' : Tracks id { t with ram := t.ram.cleared } := ht.withMembers rfl
        exact hm'.sendResponse ⟨hroom.started, hroom.room, hroom.start⟩ fun u hu => hu
  · have hm : Tracks id { w with ram := w.ram.write statusByte Status.errorStatus.toByte } :=
      h.withMembers rfl
    apply wpf_answer_badStatus hst
    exact hm.sendResponse (replies_write _ hr).2 fun t ht => ht

theorem handleRequest_tracks (h : Tracks device.manufacturerId w) (hs : size ≤ maxMessageSize) :
    wpf (handleRequest device size) (fun _ t => Tracks device.manufacturerId t) Never w := by
  apply wpf_handleRequest hs
  · intro ha m hm
    refine h.event trivial ?_
    rw [next_request hs fun hc => absurd hc ha, hm.session]
  intro ha
  have h8 : specialReqMsgSize ≤ size := ha.long
  have hroom : Room 0 (w.asked size) := by
    refine ⟨?_, ?_, ha.start⟩
    · simp only [World.asked, Members.begun_responseCounter, specialReqMsgSize, wishByte] at h8 ⊢
      omega
    · simp only [World.asked, Members.begun_responseCounter, specialReqMsgSize, wishByte] at h8 ⊢
      omega
  by_cases hspecial : w.ram.byteAt statusByte = Status.request.toByte ∧ size = specialReqMsgSize
  · obtain ⟨hst, rfl⟩ := hspecial
    have hst' : (w.asked specialReqMsgSize).ram.byteAt statusByte = Status.request.toByte := hst
    apply wpf_answer_special hst'
    have hroom2 : Room 2 (w.asked specialReqMsgSize) :=
      ⟨hroom.started, (show 9 < maxMessageSize by decide), hroom.start⟩
    refine wpf_of_never (processSpecialRequest_replies hroom2) ?_
    rintro _ t ⟨hserves, hleft⟩
    have hstart : Tracks device.manufacturerId ((w.asked specialReqMsgSize).connected
        (connectionAfter (w.ram.byteAt wishByte) w.ram.configurationEnabled)) := by
      have hl : w.ram.session.layout ≠ [] := ha.layout
      refine h.event trivial ?_
      simp only [Session.next, specialRequest_addressed ha hst]
      rw [if_neg hl]
      rfl
    exact (hstart.acts hserves.acts).sendResponse hleft fun u hu => hu
  · have hne : w.ram.byteAt statusByte = Status.request.toByte → size ≠ specialReqMsgSize :=
      fun hst he => hspecial ⟨hst, he⟩
    have hstart : Tracks device.manufacturerId (w.asked size) := by
      refine h.event trivial ?_
      rw [next_request hs fun _ hst => hne hst, Members.same_begun.session]
    exact answer_tracks hstart hroom rfl hs hne

namespace Members

/-- After `reset_ump_message`. -/
def idle (m : Members) : Members := { m with responseCounter := 0, umpMessageActive := false }

/-- A frame has been started. -/
def opened (m : Members) : Members := { m.idle.pushed sysExStart with umpMessageActive := true }

/-- Where the payload of a packet goes. -/
def receiving (m : Members) (packet : MidiUmp) : Members :=
  if sysex7StartsMessage (sysex7Status packet) then m.opened else m

omit [Zephyr] in
theorem session_receiving : (m.receiving packet).session = m.session := by
  unfold receiving
  split <;> rfl

omit [Zephyr] in
theorem session_pushedAll {bytes : List UInt8} : (m.pushedAll bytes).session = m.session :=
  same_pushedAll.session

end Members

/-- The payload of a packet. -/
def payloadBytes (packet : MidiUmp) : List UInt8 :=
  (List.range (sysex7PayloadSize packet)).map (readSysex7PayloadByte packet)

/-- The size of the frame so far, with the packet and the end byte if it ends the frame. -/
def requiredSize (m : Members) (packet : MidiUmp) : Nat :=
  m.responseCounter + (payloadBytes packet).length +
    if sysex7EndsMessage (sysex7Status packet) then 1 else 0

omit [Zephyr] in
theorem wpf_resetUmpMessage {Q : Unit → World η → Prop} :
    wpf resetUmpMessage Q E w ↔ Q () { w with ram := w.ram.idle } := Iff.rfl

omit [Zephyr] in
theorem wpf_joinFrame {Q : Bool → World η → Prop}
    (hstray : sysex7StartsMessage (sysex7Status packet) = false →
      w.ram.umpMessageActive = false → Q false w)
    (hjoin : Q true { w with ram := w.ram.receiving packet }) :
    wpf (joinFrame (sysex7StartsMessage (sysex7Status packet))) Q E w := by
  rw [joinFrame]
  cases hs : sysex7StartsMessage (sysex7Status packet) with
  | true =>
    rw [Members.receiving, if_pos hs] at hjoin
    rw [if_pos rfl, wpf_bind, wpf_resetUmpMessage, wpf_bind, wpf_push (show 0 < maxMessageSize by decide),
      wpf_bind, wpf_modifyMembers, wpf_pure]
    exact hjoin
  | false =>
    rw [Members.receiving, if_neg (by simp [hs])] at hjoin
    rw [if_neg Bool.false_ne_true, wpf_bind, wpf_get, wpf_pure]
    cases ha : w.ram.umpMessageActive with
    | true => exact hjoin
    | false => exact hstray hs ha

/-- The courses that a packet can take. -/
theorem wpf_handlePacket {Q : Unit → World η → Prop}
    (hother : isSysex7Packet packet = false → Q () { w with ram := w.ram.idle })
    (hstray : isSysex7Packet packet = true →
      sysex7StartsMessage (sysex7Status packet) = false → w.ram.umpMessageActive = false → Q () w)
    (hlong : maxMessageSize < requiredSize (w.ram.receiving packet) packet →
      Q () { w with ram := (w.ram.receiving packet).idle })
    (hmore : requiredSize (w.ram.receiving packet) packet ≤ maxMessageSize →
      sysex7EndsMessage (sysex7Status packet) = false →
      Q () { w with ram := (w.ram.receiving packet).pushedAll (payloadBytes packet) })
    (hlast : requiredSize (w.ram.receiving packet) packet ≤ maxMessageSize →
      sysex7EndsMessage (sysex7Status packet) = true →
      wpf (handleRequest device (requiredSize (w.ram.receiving packet) packet))
        (fun _ t => Q () { t with ram := t.ram.idle }) E
        { w with ram :=
          { ((w.ram.receiving packet).pushedAll (payloadBytes packet)).pushed sysExEnd with
            umpMessageActive := false } }) :
    wpf (handlePacket device packet) Q E w := by
  rw [handlePacket]
  apply wpf_ite
  · intro h
    exact hother (by simpa using h)
  intro hsysex
  rw [wpf_bind]
  apply wpf_joinFrame
  · intro hstart hactive
    exact hstray (by simpa using hsysex) hstart hactive
  have hlength : (payloadBytes packet).length = sysex7PayloadSize packet := by simp [payloadBytes]
  rw [if_neg (by simp), wpf_bind, wpf_get]
  unfold requiredSize at hlong hmore hlast
  simp only [hlength] at hlong hmore hlast
  apply wpf_ite
  · intro h
    exact hlong h
  intro h
  rw [wpf_bind, wpf_pushAll (by rw [List.length_map, List.length_range]; omega)]
  cases hend : sysex7EndsMessage (sysex7Status packet) with
  | false => exact hmore (not_lt.mp h) hend
  | true =>
    simp only [hend, if_true] at h hlast
    rw [Bool.not_true, if_neg Bool.false_ne_true, wpf_bind, wpf_push ?_, wpf_bind,
      wpf_modifyMembers, wpf_bind, wpf_get, wpf_bind]
    · change wpf (handleRequest device _) (fun _ t => Q () { t with ram := t.ram.idle }) E _
      simpa [payloadBytes] using hlast (not_lt.mp h) trivial
    · simp only [Members.pushedAll_responseCounter, List.length_map, List.length_range]
      omega

theorem handlePacket_tracks (h : Tracks device.manufacturerId w) :
    wpf (handlePacket device packet) (fun _ t => Tracks device.manufacturerId t) Never w := by
  apply wpf_handlePacket
  · intro _
    exact h.withMembers rfl
  · intro _ _ _
    exact h
  · intro _
    exact h.withMembers (m := (w.ram.receiving packet).idle) Members.session_receiving
  · intro _ _
    exact h.withMembers (Members.session_pushedAll.trans Members.session_receiving)
  · intro hs _
    refine wpf_of_never (handleRequest_tracks (h.withMembers ?_) hs) fun _ t ht => ?_
    · exact Members.session_pushedAll.trans Members.session_receiving
    · exact ht.withMembers rfl

end Zlibs.SysExConf
