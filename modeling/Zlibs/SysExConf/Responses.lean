import Zlibs.SysExConf.Streams
import Zlibs.Lib.Kept

/-! What a host hears of the device: the responses, each packet of which the handler has taken. -/
namespace Zlibs.SysExConf
open Lib Midi

variable {η α : Type} {device : Device η} {w t : World η} {packets : List MidiUmp}
  {payload : List UInt8} {trace : List Event} {held : Option (List UInt8)}

/-- The packet of an event in which the handler takes one. -/
def Event.taken? : Event → Option MidiUmp
  | .sendResponse packet true => some packet
  | _ => none

def Event.isSending : Event → Bool
  | .sendResponse _ _ => true
  | _ => false

/-- The packets that the handler has taken, in their order. -/
def takenPackets (trace : List Event) : List MidiUmp := trace.filterMap Event.taken?

/-- The bytes of a frame as a packet can hold them. -/
def dataBytes (payload : List UInt8) : List UInt8 := payload.map (· &&& midiDataByteMask)

/-- The responses of which no packet is refused: all that follows one up to the next event of
another kind is taken. -/
def takenResponses : List Event → List (List UInt8)
  | [] => []
  | .response frame :: rest =>
    (if (rest.takeWhile Event.isSending).all fun e => e.taken?.isSome then
      [dataBytes (payloadOf frame)] else []) ++ takenResponses rest
  | _ :: rest => takenResponses rest

/-- An event other than a response and the packets of one. -/
def Event.Quiet : Event → Prop
  | .response _ | .sendResponse _ _ => False
  | _ => True

/-- What goes into a trace at a time: an event of its own, or a response with its packets, up to
one that is refused. -/
inductive Episode [Zephyr] : List Event → Prop
  | quiet {e : Event} (h : e.Quiet) : Episode [e]
  | taken (payload : List UInt8) :
    Episode (.response (sysExStart :: payload ++ [sysExEnd]) ::
      (sysex7Packets 0 payload).map fun packet => .sendResponse packet true)
  | refused {payload : List UInt8} {before after : List MidiUmp} {packet : MidiUmp}
      (hp : sysex7Packets 0 payload = before ++ packet :: after) :
    Episode (.response (sysExStart :: payload ++ [sysExEnd]) ::
      (before.map fun packet => .sendResponse packet true) ++ [.sendResponse packet false])

def Episodic [Zephyr] (trace : List Event) : Prop :=
  ∃ episodes : List (List Event), trace = episodes.flatten ∧ ∀ x ∈ episodes, Episode x

section Episodes

variable [Zephyr]

theorem Episodic.append {es : List Event} (h : Episodic trace) (he : Episode es) :
    Episodic (trace ++ es) := by
  obtain ⟨episodes, rfl, hall⟩ := h
  refine ⟨episodes ++ [es], by simp, fun x hx => ?_⟩
  rcases List.mem_append.mp hx with hx | hx
  · exact hall x hx
  · rw [List.mem_singleton.mp hx]
    exact he

theorem sendEach_episode {handler : η} :
    Episode (.response (sysExStart :: payload ++ [sysExEnd]) ::
      (sendEach device (sysex7Packets 0 payload) handler).1) := by
  have hcases : ∀ (packets : List MidiUmp) (handler : η),
      (sendEach device packets handler).1 = packets.map (fun packet => .sendResponse packet true) ∨
        ∃ before packet after, packets = before ++ packet :: after ∧
          (sendEach device packets handler).1 =
            before.map (fun packet => .sendResponse packet true) ++ [.sendResponse packet false] := by
    intro packets
    induction packets with
    | nil => exact fun handler => .inl rfl
    | cons packet rest ih =>
      intro handler
      rcases hr : device.dataHandler.sendResponse packet handler with ⟨_ | _, next⟩
      · exact .inr ⟨[], packet, rest, rfl, by simp [sendEach, hr]⟩
      · rcases ih next with hall | ⟨before, p, after, hp, hsent⟩
        · exact .inl (by simp [sendEach, hr, hall])
        · exact .inr ⟨packet :: before, p, after, by rw [hp]; rfl, by simp [sendEach, hr, hsent]⟩
  rcases hcases (sysex7Packets 0 payload) handler with hall | ⟨before, packet, after, hp, hsent⟩
  · rw [hall]
    exact .taken payload
  · rw [hsent]
    exact .refused hp

omit [Zephyr] in
/-- A frame that is sent is the bytes between its start and its end byte. -/
theorem frame_eq {frame : List UInt8} (hl : ¬ frame.length < 2)
    (hs : frame.head? = some sysExStart) (he : frame.getLast? = some sysExEnd) :
    frame = sysExStart :: payloadOf frame ++ [sysExEnd] := by
  cases frame with
  | nil => cases hs
  | cons b rest =>
    obtain rfl : b = sysExStart := by simpa using hs
    rcases List.eq_nil_or_concat rest with rfl | ⟨front, last, rfl⟩
    · simp at hl
    · obtain rfl : last = sysExEnd := by
        rw [List.concat_eq_append, ← List.cons_append, List.getLast?_concat] at he
        exact Option.some.inj he
      simp [payloadOf]

/-- The trace stays one of episodes. -/
abbrev Tells (x : SysExM η α) : Prop := Keeps (fun w : World η => Episodic w.trace) x

theorem tells_modifyMembers {f : Members → Members} :
    Tells (modifyMembers f : SysExM η Unit) := ⟨fun _ h => h⟩

theorem tells_modifyDecoded {f : DecodedRequest → DecodedRequest} :
    Tells (modifyDecoded f : SysExM η Unit) := ⟨fun _ h => h⟩

theorem tells_log {e : Event} (he : e.Quiet) : Tells (log e : SysExM η Unit) :=
  ⟨fun _ h => h.append (.quiet he)⟩

theorem tells_callGet {block sect : UInt8} {index : UInt16} :
    Tells (callGet device block sect index) := ⟨fun _ h => h.append (.quiet trivial)⟩

theorem tells_callSet {block sect : UInt8} {index newValue : UInt16} :
    Tells (callSet device block sect index newValue) := ⟨fun _ h => h.append (.quiet trivial)⟩

theorem tells_readResponse {i : Nat} : Tells (readResponse i : SysExM η UInt8) :=
  keeps_bind keeps_get fun _ => keeps_dite (fun _ => keeps_pure) fun _ => keeps_throw

theorem tells_writeResponse {i : Nat} {byte : UInt8} :
    Tells (writeResponse i byte : SysExM η Unit) :=
  keeps_dite (fun _ => tells_modifyMembers) fun _ => keeps_throw

theorem tells_push {byte : UInt8} : Tells (push byte : SysExM η Unit) :=
  keeps_bind keeps_get fun _ => keeps_bind tells_writeResponse fun _ => tells_modifyMembers

theorem tells_pushAll {bytes : List UInt8} : Tells (pushAll bytes : SysExM η Unit) := by
  induction bytes with
  | nil => exact keeps_pure
  | cons byte rest ih => exact keeps_bind tells_push fun _ => ih

theorem tells_startMessage {bytes : List UInt8} : Tells (startMessage bytes : SysExM η Unit) :=
  keeps_bind tells_modifyMembers fun _ => tells_pushAll

theorem tells_setStatus {status : Status} : Tells (setStatus status : SysExM η Unit) :=
  tells_writeResponse

theorem tells_refuse {status : Status} : Tells (refuse status : SysExM η Bool) :=
  keeps_bind tells_setStatus fun _ => keeps_pure

theorem tells_addToResponse {value : UInt16} : Tells (addToResponse value : SysExM η Bool) :=
  keeps_bind keeps_get fun _ => keeps_ite keeps_pure
    (keeps_bind tells_push fun _ => keeps_bind tells_push fun _ => keeps_pure)

/-- The only place where packets are sent, and a response is put into the trace. -/
theorem tells_sendResponse : Tells (sendResponse device) := by
  refine keeps_bind tells_push fun _ => ⟨fun w hw => ?_⟩
  rw [wpf_bind, wpf_get]
  apply wpf_ite
  · intro _
    exact hw
  intro hframe
  simp only [not_or, not_not] at hframe
  have heq := frame_eq hframe.1 hframe.2.1 hframe.2.2
  rw [wpf_bind, wpf_log]
  apply wpf_ite
  · intro _
    trivial
  intro _
  rw [wpf_bind]
  apply wpf_writeEach
  intro accepted
  rw [wpf_pure]
  have happend := hw.append (@sendEach_episode _ device (payloadOf w.ram.frame) _ w.handler)
  rw [← heq] at happend
  simpa using happend

theorem tells_resetUmpMessage : Tells (resetUmpMessage : SysExM η Unit) := tells_modifyMembers

theorem tells_decodeOperands : Tells (decodeOperands : SysExM η Unit) :=
  keeps_bind keeps_get fun _ => keeps_ite
    (keeps_bind tells_readResponse fun _ => keeps_bind tells_readResponse fun _ =>
      keeps_bind tells_modifyDecoded fun _ => keeps_ite
        (keeps_bind tells_readResponse fun _ => keeps_bind tells_readResponse fun _ =>
          tells_modifyDecoded) keeps_pure)
    keeps_pure

theorem tells_decodeStandardRequest {size : Nat} :
    Tells (decodeStandardRequest size : SysExM η Bool) := by
  refine keeps_ite keeps_pure (keeps_ite tells_refuse ?_)
  refine keeps_bind keeps_get fun _ => keeps_ite tells_refuse ?_
  refine keeps_bind tells_readResponse fun _ => keeps_bind tells_readResponse fun _ => ?_
  refine keeps_bind tells_readResponse fun _ => keeps_bind tells_readResponse fun _ => ?_
  refine keeps_bind tells_readResponse fun _ => keeps_bind tells_modifyDecoded fun _ => ?_
  refine keeps_bind keeps_get fun _ => keeps_ite tells_refuse (keeps_ite tells_refuse ?_)
  refine keeps_ite tells_refuse (keeps_ite tells_refuse (keeps_ite tells_refuse ?_))
  refine keeps_ite tells_refuse (keeps_bind tells_setStatus fun _ => ?_)
  exact keeps_bind tells_decodeOperands fun _ => keeps_pure

theorem tells_getValue {index : UInt16} : Tells (getValue device index) := by
  refine keeps_bind keeps_get fun _ => keeps_bind tells_callGet fun r => ?_
  refine keeps_ite (keeps_bind tells_addToResponse fun _ => keeps_pure) ?_
  refine keeps_bind keeps_get fun _ => keeps_ite ?_ tells_refuse
  exact keeps_bind tells_addToResponse fun _ => keeps_pure

theorem tells_setValue {index : UInt16} : Tells (setValue device index) := by
  refine keeps_bind keeps_get fun _ => keeps_bind tells_callSet fun r => keeps_ite keeps_pure ?_
  exact keeps_bind keeps_get fun _ => keeps_ite keeps_pure tells_refuse

theorem tells_processGet {i : Nat} : Tells (processGet device i) :=
  keeps_bind keeps_get fun _ => keeps_ite (keeps_ite tells_refuse tells_getValue) tells_getValue

theorem tells_processSet {startIndex i : Nat} : Tells (processSet device startIndex i) := by
  refine keeps_bind keeps_get fun _ => keeps_ite ?_ ?_
  · exact keeps_ite tells_refuse (keeps_ite tells_refuse tells_setValue)
  · refine keeps_bind tells_readResponse fun _ => keeps_bind tells_readResponse fun _ => ?_
    refine keeps_bind tells_modifyDecoded fun _ => keeps_bind keeps_get fun _ => ?_
    exact keeps_ite tells_refuse tells_setValue

theorem tells_processValues {startIndex : Nat} {indices : List Nat} :
    Tells (processValues device startIndex indices) := by
  induction indices with
  | nil => exact keeps_pure
  | cons i rest ih =>
    have hvalue : Tells (processValue device startIndex i) :=
      keeps_bind keeps_get fun _ => keeps_ite tells_processGet tells_processSet
    exact keeps_bind hvalue fun _ => keeps_ite keeps_pure ih

theorem tells_processParts {allPartsLoop : Bool} {counter : Nat} {parts : List Nat} :
    Tells (processParts device allPartsLoop counter parts) := by
  induction parts with
  | nil => exact keeps_pure
  | cons j rest ih =>
    have hselect : Tells (selectPart allPartsLoop j : SysExM η Unit) :=
      keeps_ite (keeps_bind tells_modifyDecoded fun _ => tells_writeResponse) keeps_pure
    refine keeps_bind tells_modifyMembers fun _ => keeps_bind hselect fun _ => ?_
    refine keeps_bind keeps_get fun _ => keeps_bind tells_processValues fun _ => ?_
    exact keeps_ite keeps_pure (keeps_bind tells_sendResponse fun _ => ih)

theorem tells_prepareResponse {size : Nat} : Tells (prepareResponse size : SysExM η Nat) := by
  refine keeps_bind keeps_get fun _ => keeps_ite ?_ keeps_pure
  refine keeps_bind tells_writeResponse fun _ => keeps_bind tells_writeResponse fun _ => ?_
  exact keeps_bind tells_modifyDecoded fun _ => keeps_pure

theorem tells_sendFinalAck {allPartsAck : Bool} : Tells (sendFinalAck device allPartsAck) := by
  rw [sendFinalAck]
  refine keeps_ite ?_ keeps_pure
  refine keeps_bind keeps_get fun _ => ?_
  exact keeps_bind tells_startMessage fun _ => tells_sendResponse

theorem tells_processStandardRequest {size : Nat} :
    Tells (processStandardRequest device size) := by
  rw [processStandardRequest]
  refine keeps_bind keeps_get fun _ => keeps_bind tells_prepareResponse fun _ => ?_
  refine keeps_bind tells_processParts fun _ => keeps_ite keeps_pure ?_
  exact keeps_bind tells_sendFinalAck fun _ => keeps_pure

theorem tells_runCustom {action : CustomAction η} {overflowed : Bool} :
    Tells (runCustom action overflowed) := by
  induction action generalizing overflowed with
  | done result next => exact ⟨fun _ h => h⟩
  | append value next ih =>
    have happend : Tells (appendCustom value : SysExM η Bool) :=
      keeps_bind keeps_get fun _ => keeps_ite keeps_pure
        (keeps_bind tells_push fun _ => keeps_bind tells_push fun _ => keeps_pure)
    exact keeps_bind happend fun appended => ih appended

theorem tells_processCustomRequest {request : CustomRequest} :
    Tells (processCustomRequest device request) := by
  refine keeps_bind keeps_get fun _ => keeps_ite ?_ (keeps_bind tells_setStatus fun _ => keeps_pure)
  refine keeps_bind tells_setStatus fun _ => keeps_bind (tells_log trivial) fun _ => ?_
  refine keeps_bind keeps_get fun _ => keeps_bind tells_runCustom fun r => ?_
  rcases r with ⟨result, overflowed⟩
  refine keeps_ite tells_refuse ?_
  cases result with
  | ack => exact keeps_pure
  | request => exact keeps_bind tells_setStatus fun _ => keeps_pure
  | _ => exact tells_refuse

theorem tells_processSpecialRequest : Tells (processSpecialRequest device) := by
  have hconstant : ∀ value, Tells (replyConstant value : SysExM η Bool) := fun value =>
    keeps_bind keeps_get fun _ => keeps_ite
      (keeps_bind tells_setStatus fun _ => keeps_bind tells_push fun _ =>
        keeps_bind tells_push fun _ => keeps_pure)
      (keeps_bind tells_setStatus fun _ => keeps_pure)
  refine keeps_bind tells_readResponse fun wish => keeps_ite ?_ (keeps_ite ?_ ?_)
  · refine keeps_bind keeps_get fun _ => keeps_ite ?_ ?_
    · exact keeps_bind tells_setStatus fun _ => keeps_pure
    · exact keeps_bind tells_modifyMembers fun _ => keeps_bind tells_setStatus fun _ => keeps_pure
  · exact keeps_bind tells_modifyMembers fun _ => keeps_bind tells_setStatus fun _ => keeps_pure
  refine keeps_ite (hconstant _) (keeps_ite (hconstant _) (keeps_bind keeps_get fun w => ?_))
  cases w.ram.customRequests.find? fun request => request.requestId = wish.toUInt16 with
  | some request => exact tells_processCustomRequest
  | none => exact keeps_bind tells_setStatus fun _ => keeps_pure

theorem tells_answerRequest {size : Nat} : Tells (answerRequest device size) := by
  have hcheck : Tells (checkStatus : SysExM η Bool) :=
    keeps_bind tells_readResponse fun _ => keeps_pure
  have hreset : Tells (resetDecodedRequest : SysExM η Unit) := tells_modifyDecoded
  refine keeps_bind hcheck fun _ => keeps_ite (keeps_bind tells_setStatus fun _ => keeps_pure) ?_
  refine keeps_bind tells_decodeStandardRequest fun _ => ?_
  refine keeps_ite (keeps_bind hreset fun _ => keeps_pure) (keeps_ite ?_ ?_)
  · exact keeps_bind tells_processSpecialRequest fun _ => keeps_pure
  · refine keeps_bind tells_processStandardRequest fun _ => ?_
    exact keeps_ite (keeps_bind hreset fun _ => keeps_pure) keeps_pure

theorem tells_handleRequest {size : Nat} : Tells (handleRequest device size) := by
  have hcheck : Tells (checkManufacturerId device) :=
    keeps_bind tells_readResponse fun _ => keeps_bind tells_readResponse fun _ =>
      keeps_bind tells_readResponse fun _ => keeps_pure
  refine keeps_bind keeps_get fun _ => keeps_bind (tells_log trivial) fun _ => ?_
  refine keeps_ite keeps_pure (keeps_ite keeps_pure (keeps_bind tells_readResponse fun _ => ?_))
  refine keeps_ite keeps_pure (keeps_bind tells_readResponse fun _ => ?_)
  refine keeps_ite keeps_pure (keeps_ite keeps_pure (keeps_bind tells_modifyDecoded fun _ => ?_))
  refine keeps_bind tells_modifyMembers fun _ => keeps_bind hcheck fun _ => ?_
  refine keeps_ite keeps_pure (keeps_bind tells_answerRequest fun _ => ?_)
  exact keeps_ite tells_sendResponse keeps_pure

theorem tells_handlePacket {packet : MidiUmp} : Tells (handlePacket device packet) := by
  have hjoin : ∀ starts, Tells (joinFrame starts : SysExM η Bool) := fun starts =>
    keeps_ite (keeps_bind tells_resetUmpMessage fun _ => keeps_bind tells_push fun _ =>
      keeps_bind tells_modifyMembers fun _ => keeps_pure) (keeps_bind keeps_get fun _ => keeps_pure)
  refine keeps_ite (keeps_bind tells_resetUmpMessage fun _ => keeps_pure) ?_
  refine keeps_bind (hjoin _) fun _ => keeps_ite keeps_pure (keeps_bind keeps_get fun _ => ?_)
  refine keeps_ite (keeps_bind tells_resetUmpMessage fun _ => keeps_pure) ?_
  refine keeps_bind tells_pushAll fun _ => keeps_ite keeps_pure (keeps_bind tells_push fun _ => ?_)
  refine keeps_bind tells_modifyMembers fun _ => keeps_bind keeps_get fun _ => ?_
  exact keeps_bind tells_handleRequest fun _ => tells_resetUmpMessage

theorem tells_invoke {c : Call} : Tells (invoke device c) := by
  refine keeps_bind (tells_log trivial) fun _ => ?_
  cases c with
  | setLayout layout =>
    refine keeps_bind (keeps_bind tells_modifyMembers fun _ => keeps_ite ?_ keeps_pure)
      fun _ => keeps_pure
    exact keeps_bind tells_modifyMembers fun _ => keeps_pure
  | setupCustomRequests requests =>
    refine keeps_bind (keeps_ite ?_ keeps_pure) fun _ => keeps_pure
    refine keeps_bind tells_modifyMembers fun _ => keeps_ite ?_ keeps_pure
    exact keeps_bind tells_modifyMembers fun _ => keeps_pure
  | reset => exact keeps_bind tells_modifyMembers fun _ => tells_resetUmpMessage
  | closeConnection => exact tells_modifyMembers
  | setUserErrorIgnoreMode state => exact tells_modifyMembers
  | handlePacket packet => exact tells_handlePacket
  | sendCustomMessage values ack =>
    refine keeps_bind tells_startMessage fun _ => keeps_bind tells_pushAll fun _ => ?_
    exact tells_sendResponse

theorem tells_invokeAll {calls : List Call} : Tells (invokeAll device calls) := by
  induction calls with
  | nil => exact keeps_pure
  | cons c rest ih => exact keeps_bind tells_invoke fun _ => ih

end Episodes

theorem chunks_map {f : UInt8 → UInt8} {n : Nat} (hn : 0 < n) (x : List UInt8) :
    chunks n (x.map f) = (chunks n x).map (List.map f) := by
  induction h : x.length using Nat.strong_induction_on generalizing x with
  | _ l ih =>
    by_cases hl : x.length ≤ n
    · rw [chunks_of_le hl, chunks_of_le (by simpa using hl)]
      rfl
    · have hgt : n < x.length := not_le.mp hl
      rw [chunks_of_gt hn hgt, chunks_of_gt hn (by simpa using hgt), ← List.map_take,
        ← List.map_drop, ih (x.drop n).length (by simp only [List.length_drop]; omega) _ rfl]
      rfl

section Heard

variable [Zephyr]

theorem packetsFrom_dataBytes {cs : List (List UInt8)} {first : Bool} :
    packetsFrom 0 first (cs.map dataBytes) = packetsFrom 0 first cs := by
  induction cs generalizing first with
  | nil => rfl
  | cons c rest ih =>
    rw [List.map_cons, packetsFrom, packetsFrom, ih, List.isEmpty_map]
    simp only [sysex7Packet, dataBytes, writePayloadFrom_masked, List.length_map]

theorem sysex7Packets_dataBytes : sysex7Packets 0 (dataBytes payload) = sysex7Packets 0 payload := by
  rw [sysex7Packets, dataBytes, chunks_map (by decide)]
  exact packetsFrom_dataBytes

omit [Zephyr] in
/-- Every chunk of the data bytes fits into a packet. -/
theorem chunk_dataBytes {c : List UInt8} (hc : c ∈ chunks 6 (dataBytes payload)) :
    c.length ≤ 6 ∧ ∀ b ∈ c, b < midiStatusMin := by
  refine ⟨length_of_mem_chunks (by decide) hc, fun b hb => ?_⟩
  have hmem : b ∈ dataBytes payload := by
    rw [← chunks_flatten (show 0 < 6 by decide) (x := dataBytes payload)]
    exact List.mem_flatten.mpr ⟨c, hc, hb⟩
  obtain ⟨a, -, rfl⟩ := List.mem_map.mp hmem
  exact masked_data

theorem assemble_whole (hz : Zephyr.Documented) :
    (feed assemble held (sysex7Packets 0 payload)).1 = [dataBytes payload] := by
  rw [← sysex7Packets_dataBytes]
  show (feed assemble held (packetsFrom 0 true (chunks 6 (dataBytes payload)))).1 = _
  rw [assemble_packetsFrom hz chunks_ne_nil (fun c hc => chunk_dataBytes hc) rfl,
    chunks_flatten (by decide)]
  rfl

/-- No frame ends before the last packet of a message. -/
theorem assemble_before (hz : Zephyr.Documented) {cs : List (List UInt8)} {first : Bool}
    {before after : List MidiUmp} {packet : MidiUmp}
    (hcs : ∀ c ∈ cs, c.length ≤ 6 ∧ ∀ b ∈ c, b < midiStatusMin)
    (h : packetsFrom 0 first cs = before ++ packet :: after) :
    (feed assemble held before).1 = [] := by
  induction cs generalizing first before held with
  | nil => simp [packetsFrom] at h
  | cons c rest ih =>
    cases before with
    | nil => rfl
    | cons p more =>
      rw [packetsFrom, List.cons_append, List.cons.injEq] at h
      obtain ⟨hp, hrest⟩ := h
      have hne : rest.isEmpty = false := by
        cases rest with
        | nil => simp [packetsFrom] at hrest
        | cons d ds => rfl
      obtain ⟨hl, hd⟩ := hcs c List.mem_cons_self
      have hends : sysex7EndsMessage (chunkStatus first false) = false := by cases first <;> rfl
      have hnone : (assemble held p).1 = none := by
        rw [← hp, hne, assemble_sysex7Packet hz hl hd, hends]
        cases first <;> cases held <;> rfl
      have hlater : (feed assemble (assemble held p).2 more).1 = [] :=
        ih (fun c h => hcs c (List.mem_cons_of_mem _ h)) hrest
      simp only [feed, hnone, Option.toList_none, List.nil_append, hlater]

omit [Zephyr] in
theorem takenPackets_append {es : List Event} :
    takenPackets (es ++ trace) = takenPackets es ++ takenPackets trace := List.filterMap_append

omit [Zephyr] in
theorem takenPackets_map :
    takenPackets (packets.map fun packet => .sendResponse packet true) = packets := by
  induction packets with
  | nil => rfl
  | cons packet rest ih =>
    rw [List.map_cons, takenPackets, List.filterMap_cons]
    exact congrArg (packet :: ·) ih

omit [Zephyr] in
theorem takenResponses_sendings {es : List Event} (h : ∀ e ∈ es, e.isSending = true) :
    takenResponses (es ++ trace) = takenResponses trace := by
  induction es with
  | nil => rfl
  | cons e rest ih =>
    have hrest := ih fun e he => h e (List.mem_cons_of_mem _ he)
    cases e with
    | sendResponse packet accepted => exact hrest
    | _ => exact absurd (h _ List.mem_cons_self) Bool.false_ne_true

omit [Zephyr] in
/-- A response with its packets, where something else comes next. -/
theorem takenResponses_response {es : List Event} (h : ∀ e ∈ es, e.isSending = true)
    (hnext : trace.takeWhile Event.isSending = []) :
    takenResponses (.response (sysExStart :: payload ++ [sysExEnd]) :: es ++ trace) =
      (if es.all fun e => e.taken?.isSome then [dataBytes payload] else []) ++
        takenResponses trace := by
  have hpayload : payloadOf (sysExStart :: payload ++ [sysExEnd]) = payload := by simp [payloadOf]
  rw [List.cons_append, takenResponses, takenResponses_sendings h, hpayload,
    List.takeWhile_append_of_pos h, hnext, List.append_nil]

/-- A new episode does not begin with a packet. -/
theorem takeWhile_episodes {episodes : List (List Event)} (h : ∀ x ∈ episodes, Episode x) :
    episodes.flatten.takeWhile Event.isSending = [] := by
  cases episodes with
  | nil => rfl
  | cons x rest =>
    cases h x List.mem_cons_self with
    | @quiet e hq => cases e <;> first | rfl | exact hq.elim
    | taken payload => rfl
    | refused hp => rfl

omit [Zephyr] in
theorem sending_map : ∀ e ∈ packets.map fun packet => Event.sendResponse packet true,
    e.isSending = true := by
  intro e he
  obtain ⟨packet, -, rfl⟩ := List.mem_map.mp he
  rfl

/-- A response that is taken whole ends a frame of its own, whatever has been held before. -/
theorem assemble_taken (hz : Zephyr.Documented) (hnext : trace.takeWhile Event.isSending = [])
    (ih : ∀ held, (feed assemble held (takenPackets trace)).1 = takenResponses trace) :
    let es := Event.response (sysExStart :: payload ++ [sysExEnd]) ::
      (sysex7Packets 0 payload).map fun packet => .sendResponse packet true
    (feed assemble held (takenPackets (es ++ trace))).1 = takenResponses (es ++ trace) := by
  intro es
  have hall : ((sysex7Packets 0 payload).map fun packet =>
      Event.sendResponse packet true).all (fun e => e.taken?.isSome) = true := by
    simp [Event.taken?]
  have hpackets : takenPackets es = sysex7Packets 0 payload := takenPackets_map
  rw [takenPackets_append, hpackets, feed_append, ih]
  exact (congrArg (· ++ _) (assemble_whole hz)).trans
    ((takenResponses_response sending_map hnext).trans (by rw [if_pos hall])).symm

/-- A response that breaks off ends no frame. -/
theorem assemble_refused (hz : Zephyr.Documented) {before after : List MidiUmp} {packet : MidiUmp}
    (hp : sysex7Packets 0 payload = before ++ packet :: after)
    (hnext : trace.takeWhile Event.isSending = [])
    (ih : ∀ held, (feed assemble held (takenPackets trace)).1 = takenResponses trace) :
    let es := Event.response (sysExStart :: payload ++ [sysExEnd]) ::
      ((before.map fun packet => .sendResponse packet true) ++ [.sendResponse packet false])
    (feed assemble held (takenPackets (es ++ trace))).1 = takenResponses (es ++ trace) := by
  intro es
  have hsending : ∀ e ∈ (before.map fun packet => Event.sendResponse packet true) ++
      [Event.sendResponse packet false], e.isSending = true := by
    intro e he
    rcases List.mem_append.mp he with he | he
    · exact sending_map e he
    · rw [List.mem_singleton.mp he]
      rfl
  have hnot : ¬ ((before.map fun packet => Event.sendResponse packet true) ++
      [Event.sendResponse packet false]).all (fun e => e.taken?.isSome) = true := by
    simp [Event.taken?]
  have hpackets : takenPackets es = before := by
    show takenPackets ((before.map fun packet => Event.sendResponse packet true) ++
      [Event.sendResponse packet false]) = before
    rw [takenPackets_append, takenPackets_map]
    exact List.append_nil before
  have hbefore : (feed assemble held before).1 = [] := by
    rw [← sysex7Packets_dataBytes] at hp
    exact assemble_before hz (fun c hc => chunk_dataBytes hc) hp
  rw [takenPackets_append, hpackets, feed_append, hbefore, ih]
  exact ((takenResponses_response hsending hnext).trans (by rw [if_neg hnot])).symm

theorem assemble_episodes (hz : Zephyr.Documented) {episodes : List (List Event)}
    (h : ∀ x ∈ episodes, Episode x) :
    (feed assemble held (takenPackets episodes.flatten)).1 = takenResponses episodes.flatten := by
  induction episodes generalizing held with
  | nil => rfl
  | cons x rest ih =>
    have hrest : ∀ x ∈ rest, Episode x := fun x hx => h x (List.mem_cons_of_mem _ hx)
    have hnext := takeWhile_episodes hrest
    have hlater : ∀ held, (feed assemble held (takenPackets rest.flatten)).1 =
        takenResponses rest.flatten := fun _ => ih hrest
    rw [List.flatten_cons]
    cases h x List.mem_cons_self with
    | @quiet e hq => cases e <;> first | exact hlater held | exact hq.elim
    | taken payload => exact assemble_taken hz hnext hlater
    | refused hp => exact assemble_refused hz hp hnext hlater

/-- In every run the host hears the responses of the device whole and in their order, without those
of which a packet was refused and without anything else: no two of them are mixed, and nothing is
left of one that breaks off. -/
theorem responses_heard (hz : Zephyr.Documented) (device : Device η) (handler : η)
    {calls : List Call} (hf : ∀ c ∈ calls, c.Fits) :
    let out := (invokeAll device calls).run (World.initial handler)
    out.1 = .ok () ∧ Episodic out.2.trace ∧
      (feed assemble none (takenPackets out.2.trace)).1 = takenResponses out.2.trace := by
  intro out
  have hok : out.1 = .ok () := by
    have htracks := @invokeAll_tracks _ device _ calls _ (@initial_tracks _ device.manufacturerId
      handler)
    rcases hr : (invokeAll device calls).run (World.initial handler) with ⟨_ | r, t⟩
    · rw [wpf, hr] at htracks
      exact absurd hf htracks.2
    · show ((invokeAll device calls).run (World.initial handler)).1 = _
      rw [hr]
  have hstart : Episodic (World.initial handler).trace :=
    ⟨[], rfl, fun x hx => absurd hx List.not_mem_nil⟩
  have hrun : (invokeAll device calls).run (World.initial handler) = (.ok (), out.2) :=
    Prod.ext hok rfl
  have hkept : Keeps (fun w : World η => Episodic w.trace) (invokeAll device calls) :=
    tells_invokeAll
  have hepisodic : Episodic out.2.trace := hkept.run hstart hrun
  refine ⟨hok, hepisodic, ?_⟩
  obtain ⟨episodes, heq, hall⟩ := hepisodic
  rw [heq]
  exact assemble_episodes hz hall

end Heard

/-- The request to open the connection and its response. -/
theorem responses_heard_open :
    let calls := Call.setLayout configured.ram.layout :: openingPackets.map Call.handlePacket
    let trace := ((invokeAll ackDevice calls).run (World.initial ())).2.trace
    (feed assemble none (takenPackets trace)).1 = takenResponses trace ∧
      takenResponses trace = [[0x00, 0x53, 0x43, Status.ack.toByte, 0, connOpen]] := by
  intro calls trace
  have hf : ∀ c ∈ calls, c.Fits := by
    intro c hc
    rcases List.mem_cons.mp hc with rfl | hc
    · trivial
    · obtain ⟨packet, -, rfl⟩ := List.mem_map.mp hc
      trivial
  have hheard := (responses_heard zephyrMidi_documented ackDevice () hf).2.2
  exact ⟨hheard, by decide +kernel⟩

end Zlibs.SysExConf
