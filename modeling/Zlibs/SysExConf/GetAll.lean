import Zlibs.SysExConf.BackupRoundTrip

/-! Requests to get all values of a section, part by part. -/
namespace Zlibs.SysExConf
open Lib Midi

variable {η : Type} {device : Device η} {m : Members} {w w' : World η} {r : Reading}
  {part : UInt8} {handler : η} {header : List UInt8} {parts : List UInt8}
  {values : List (UInt16 × UInt16)}

/-- The calls that read values, with what they read. -/
def getCalls (es : List Event) : List (UInt8 × UInt8 × UInt16 × UInt16) :=
  es.filterMap fun
    | .get block sectIndex index _ value => some (block, sectIndex, index, value)
    | _ => none

/-- The values that a response to a request to get all of them carries. -/
def replyValues (frame : List UInt8) : List UInt16 :=
  (List.range ((frame.length - stdReqMinMsgSize) / bytesPerValue)).map fun k =>
    merge14Bit (frame.getD (indexByte + 4 + 2 * k) 0) (frame.getD (indexByte + 4 + 2 * k + 1) 0)

def framePart (frame : List UInt8) : UInt8 := frame.getD partByte 0

/-- Every parameter can be read, with a value of 14 bits. -/
def Supplies (device : Device η) (r : Reading) : Prop :=
  ∀ i < r.sect.numberOfParameters.toNat, ∀ handler,
    let result := device.dataHandler.get r.block r.sectIndex (UInt16.ofNat i) handler
    result.1.1 = .ack ∧ result.1.2.toNat < 2 ^ 14

theorem Supplies.readable (h : Supplies device r) : Readable device r.block r.sectIndex r.sect :=
  fun i hi handler => (h i hi handler).1

theorem Supplies.readAll_lt {indices : List Nat} (h : Supplies device r)
    (hi : ∀ i ∈ indices, i < r.sect.numberOfParameters.toNat) :
    ∀ value ∈ (readAll device r.block r.sectIndex indices handler).1, value.2.toNat < 2 ^ 14 := by
  induction indices generalizing handler with
  | nil => simp [readAll]
  | cons i rest ih =>
    intro value hv
    rcases List.mem_cons.mp hv with rfl | hv
    · exact (h i (hi i List.mem_cons_self) handler).2
    · exact ih (fun j hj => hi j (List.mem_cons_of_mem _ hj)) value hv

theorem framePart_replyFrame (hh : IsHeader header) :
    framePart (replyFrame header part values) = part := by
  have hlong := hh.long
  rw [framePart, replyFrame, List.append_assoc, List.getD_eq_getElem?_getD,
    List.getElem?_append_left (by rw [List.length_set]; exact hlong), List.getElem?_set_self hlong]
  rfl

/-- A response gives the values back that it was made from. -/
theorem replyValues_replyFrame (hlength : header.length = indexByte + 4)
    (hv : ∀ value ∈ values, value.2.toNat < 2 ^ 14) :
    replyValues (replyFrame header part values) = values.map Prod.snd := by
  have hl : ((replyFrame header part values).length - stdReqMinMsgSize) / bytesPerValue =
      values.length := by
    simp only [replyFrame, List.length_append, List.length_set, hlength, length_valueBytes,
      List.length_singleton, indexByte, bytesPerValue, stdReqMinMsgSize]
    omega
  have hbyte : ∀ i < 2 * values.length, (replyFrame header part values).getD (indexByte + 4 + i) 0 =
      (valueBytes values).getD i 0 := by
    intro i hi
    rw [replyFrame, List.append_assoc, List.getD_eq_getElem?_getD,
      List.getElem?_append_right (by rw [List.length_set, hlength]; omega), List.length_set, hlength,
      Nat.add_sub_cancel_left, List.getElem?_append_left (by rw [length_valueBytes]; exact hi),
      List.getD_eq_getElem?_getD]
  rw [replyValues, hl]
  apply List.ext_getElem
  · simp
  intro k hk hk'
  have hk'' : k < values.length := by simpa using hk'
  obtain ⟨hhigh, hlow⟩ := valueBytes_getD hk''
  have hmerge := merge_split (hv values[k] (List.getElem_mem hk''))
  rw [List.getElem_map, List.getElem_range, hbyte _ (by omega), Nat.add_assoc _ _ 1,
    hbyte _ (by omega), hhigh, hlow, hmerge, List.getElem_map]

section Whole

variable [Zephyr]

theorem getCalls_responseEvents {frame : List UInt8} :
    getCalls (responseEvents device frame handler).1 = [] := by
  simp only [responseEvents]
  generalize sysex7Packets 0 (payloadOf frame) = packets
  change getCalls (sendEach device packets handler).1 = []
  refine List.filterMap_eq_nil_iff.mpr fun e he => ?_
  obtain ⟨_, _, rfl⟩ := sends_sendEach e he
  rfl

omit [Zephyr] in
theorem getCalls_getEvents {es : List Event} :
    getCalls (getEvents r.block r.sectIndex values ++ es) =
      values.map (fun value => (r.block, r.sectIndex, value)) ++ getCalls es := by
  rw [getCalls, List.filterMap_append, getEvents, List.filterMap_map]
  congr 1
  exact congrFun List.filterMap_eq_map values

theorem getCalls_partsReply : getCalls (partsReply device r header parts handler).1 =
    (partsRead device r header parts handler).flatMap fun reply => (r.located reply).1 := by
  induction parts generalizing handler with
  | nil => rfl
  | cons part rest ih =>
    have hrest := @ih (partReply device r header part handler).2
    simp only [partsReply, partsRead, partReply, List.append_assoc, List.flatMap_cons] at hrest ⊢
    rw [getCalls_getEvents]
    congr 1
    rw [getCalls, List.filterMap_append]
    change getCalls _ ++ getCalls _ = _
    rw [getCalls_responseEvents, List.nil_append, hrest]

theorem getCalls_finalEvents : getCalls (finalEvents device r part handler) = [] := by
  unfold finalEvents
  split
  · exact getCalls_responseEvents
  · rfl

/-- The part bytes of the responses are the parts asked for. -/
theorem partsRead_parts (hh : IsHeader header) :
    (partsRead device r header parts handler).map (fun reply => framePart reply.2) = parts := by
  induction parts generalizing handler with
  | nil => rfl
  | cons part rest ih =>
    simp only [partsRead, List.map_cons, framePart_replyFrame hh, ih]

theorem partsRead_indices : (partsRead device r header parts handler).flatMap
    (fun reply => reply.1.map Prod.fst) = (parts.flatMap r.indices).map UInt16.ofNat := by
  induction parts generalizing handler with
  | nil => rfl
  | cons part rest ih =>
    rw [partsRead, List.flatMap_cons, ih, List.flatMap_cons, List.map_append, readAll_indices]

theorem partsRead_values (hv : r.Valid) (hlength : header.length = indexByte + 4)
    (hget : Supplies device r) : (partsRead device r header parts handler).flatMap
      (fun reply => replyValues reply.2) =
        (partsRead device r header parts handler).flatMap fun reply => reply.1.map Prod.snd := by
  induction parts generalizing handler with
  | nil => rfl
  | cons part rest ih =>
    rw [partsRead, List.flatMap_cons, List.flatMap_cons, ih, replyValues_replyFrame hlength
      (hget.readAll_lt fun i hi => Reading.lt_of_mem_indices hv hi)]

/-- The part in the header makes no difference. -/
theorem partsRead_set {p : UInt8} : partsRead device r (header.set partByte p) parts handler =
    partsRead device r header parts handler := by
  have hframe : ∀ part values, replyFrame (header.set partByte p) part values =
      replyFrame header part values := by
    intro part values
    rw [replyFrame, List.set_set, replyFrame]
  induction parts generalizing handler with
  | nil => rfl
  | cons part rest ih =>
    rw [partsRead, partsRead, hframe, ih, partReply, partReply, hframe]

omit [Zephyr] in
/-- The frames carry the values of the parameters, each of which is read once and in order. -/
structure Carries (r : Reading) (es : List Event) (frames : List (List UInt8)) (indices : List Nat) :
    Prop where
  reads : (getCalls es).map (fun call => (call.1, call.2.1, call.2.2.1)) =
    indices.map fun i => (r.block, r.sectIndex, UInt16.ofNat i)
  values : frames.flatMap replyValues = (getCalls es).map fun call => call.2.2.2

omit [Zephyr] in
/-- The number of message parts of a section, in exact arithmetic. -/
def partCount (sect : Section) : Nat :=
  (sect.numberOfParameters.toNat + (paramsPerMessage - 1)) / paramsPerMessage

omit [Zephyr] in
/-- The frames are the parts of the whole section. -/
structure WholeSection (r : Reading) (es : List Event) (frames : List (List UInt8)) : Prop where
  count : frames.length = partCount r.sect
  distinct : (frames.map framePart).Nodup
  data : ∀ frame ∈ frames, (framePart frame).toNat < 2 ^ 7
  carries : Carries r es frames (List.range r.sect.numberOfParameters.toNat)

omit [Zephyr] in
theorem partCount_parts : r.sect.parts.toNat = partCount r.sect % 256 := by
  rw [parts_toNat, partCount]
  simp only [paramsPerMessage]
  split <;> omega

theorem carries_replyEvents (frame header : List UInt8) (handler : η) {indices : List Nat}
    (hv : r.Valid) (hlength : header.length = indexByte + 4) (hget : Supplies device r)
    (hparts : (replyParts r.sect part).flatMap r.indices = indices) :
    Carries r (.request frame :: replyEvents device r header part handler)
      ((partsRead device r header (replyParts r.sect part) handler).map Prod.snd) indices := by
  have hcalls : getCalls (.request frame :: replyEvents device r header part handler) =
      (partsRead device r header (replyParts r.sect part) handler).flatMap
        fun reply => (r.located reply).1 := by
    change getCalls (_ ++ _) = _
    rw [getCalls, List.filterMap_append]
    change getCalls _ ++ getCalls _ = _
    rw [getCalls_finalEvents, List.append_nil, getCalls_partsReply]
  constructor
  · rw [hcalls, List.map_flatMap, ← hparts]
    have hindices := congrArg (List.map fun index => (r.block, r.sectIndex, index))
      (@partsRead_indices _ device r handler header (replyParts r.sect part) _)
    simpa [List.map_flatMap, List.map_map, Function.comp_def, Reading.located] using hindices
  · rw [hcalls, List.flatMap_map, partsRead_values hv hlength hget, List.map_flatMap]
    simp [Reading.located, Function.comp_def]

omit [Zephyr] in
/-- Two requests that differ in their part only. -/
structure SameButPart (w w' : World η) : Prop where
  handler : w'.handler = w.handler
  operands : ∀ i < 4, w'.ram.byteAt (indexByte + i) = w.ram.byteAt (indexByte + i)

omit [Zephyr] in
theorem length_replyHeader_get {id : ManufacturerId} :
    (replyHeader id .get part r m).length = indexByte + 4 := rfl

omit [Zephyr] in
theorem SameButPart.header_eq {id : ManufacturerId} {p q : UInt8} (h : SameButPart w w') :
    replyHeader id .get q r w'.ram = (replyHeader id .get p r w.ram).set partByte q := by
  rw [replyHeader_set, replyHeader, replyHeader, if_neg (by decide), if_neg (by decide),
    h.operands 1 (by decide), h.operands 2 (by decide), h.operands 3 (by decide)]
  have hfirst := h.operands 0 (by decide)
  rw [Nat.add_zero] at hfirst
  rw [hfirst]

omit [Zephyr] in
theorem replyParts_all (hp : part = partAllMessages ∨ part = partAllMessagesWithAck) :
    replyParts r.sect part = (List.range r.sect.parts.toNat).map UInt8.ofNat := if_pos hp

/-- What a request to get all values adds to the trace. -/
theorem newEvents_get (h : ReadRequest device w.ram .get part r) (hall : r.amount = .all)
    (hpart : r.HasPart part) (hget : Supplies device r) :
    newEvents (handleRequest device stdReqMinMsgSize) w =
      .request (w.ram.responseArray.toList.take stdReqMinMsgSize) ::
        replyEvents device r (replyHeader device.manufacturerId .get part r w.ram) part w.handler :=
  handleRequest_replies h ⟨.inr hall, fun hs => by rw [hall] at hs; cases hs⟩ hpart hget.readable

omit [Zephyr] in
theorem parts_of_le (hn : r.sect.numberOfParameters.toNat ≤ 4032) :
    partCount r.sect ≤ 126 ∧ r.sect.parts.toNat = partCount r.sect := by
  have hcount : partCount r.sect ≤ 126 := by
    rw [partCount]
    simp only [paramsPerMessage]
    omega
  exact ⟨hcount, by rw [partCount_parts]; omega⟩

/-- The responses to the parts of a section. -/
def sectionFrames (device : Device η) (r : Reading) (header : List UInt8) (handler : η) :
    List (List UInt8) :=
  (partsRead device r header ((List.range r.sect.parts.toNat).map UInt8.ofNat) handler).map Prod.snd

theorem sectionFrames_parts (hh : IsHeader header) :
    (sectionFrames device r header handler).map framePart =
      (List.range r.sect.parts.toNat).map UInt8.ofNat := by
  rw [sectionFrames, List.map_map]
  exact partsRead_parts hh

/-- The parts of a section that is small enough can be told from the selectors. -/
theorem sectionFrames_lt (hh : IsHeader header) (hn : r.sect.numberOfParameters.toNat ≤ 4032) :
    ∀ frame ∈ sectionFrames device r header handler, (framePart frame).toNat < 126 := by
  intro frame hframe
  obtain ⟨hcount, hparts⟩ := parts_of_le hn
  have hmem := List.mem_map_of_mem (f := framePart) hframe
  rw [sectionFrames_parts hh] at hmem
  obtain ⟨i, hi, heq⟩ := List.mem_map.mp hmem
  rw [List.mem_range] at hi
  rw [← heq, UInt8.toNat_ofNat']
  omega

theorem wholeSection_parts {es : List Event} (hh : IsHeader header)
    (hn : r.sect.numberOfParameters.toNat ≤ 4032)
    (hcarries : Carries r es (sectionFrames device r header handler)
      (List.range r.sect.numberOfParameters.toNat)) :
    WholeSection r es (sectionFrames device r header handler) := by
  obtain ⟨hcount, hparts⟩ := parts_of_le hn
  have hbytes : (sectionFrames device r header handler).map framePart = _ := sectionFrames_parts hh
  refine ⟨?_, ?_, ?_, hcarries⟩
  · have hlen := congrArg List.length hbytes
    rw [List.length_map, List.length_map, List.length_range, hparts] at hlen
    exact hlen
  · rw [hbytes, List.nodup_map_iff_inj_on List.nodup_range]
    intro i hi j hj hij
    rw [List.mem_range] at hi hj
    have hnat := congrArg UInt8.toNat hij
    rw [UInt8.toNat_ofNat', UInt8.toNat_ofNat'] at hnat
    omega
  · intro frame hframe
    exact (sectionFrames_lt hh hn frame hframe).trans (by decide)

omit [Zephyr] in
/-- All parts are answered by the frames of the whole section, with a message at the end if it is
asked for, and one part by the frame of its values. -/
structure GetsAll [Zephyr] (device : Device η) (r : Reading) (w w' : World η) : Prop where
  parts : WholeSection r (newEvents (handleRequest device stdReqMinMsgSize) w)
    (answers (newEvents (handleRequest device stdReqMinMsgSize) w))
  ended : ∃ final, answers (newEvents (handleRequest device stdReqMinMsgSize) w') =
      answers (newEvents (handleRequest device stdReqMinMsgSize) w) ++ [final] ∧
    final.getD statusByte 0 = Status.ack.toByte ∧
    (∀ frame ∈ answers (newEvents (handleRequest device stdReqMinMsgSize) w),
      framePart frame ≠ framePart final) ∧
    Carries r (newEvents (handleRequest device stdReqMinMsgSize) w')
      (answers (newEvents (handleRequest device stdReqMinMsgSize) w))
      (List.range r.sect.numberOfParameters.toNat)
  one : ∀ (part : UInt8) (u : World η), part.toNat < partCount r.sect →
    ReadRequest device u.ram .get part r →
    ∃ frame, answers (newEvents (handleRequest device stdReqMinMsgSize) u) = [frame] ∧
      framePart frame = part ∧
      Carries r (newEvents (handleRequest device stdReqMinMsgSize) u) [frame]
        (List.range' (paramsPerMessage * part.toNat)
          (min paramsPerMessage (r.sect.numberOfParameters.toNat - paramsPerMessage * part.toNat)))

/-- The responses to a request to get all values. -/
theorem answers_all (h : ReadRequest device w.ram .get partAllMessages r) (hall : r.amount = .all)
    (hget : Supplies device r) : answers (newEvents (handleRequest device stdReqMinMsgSize) w) =
      sectionFrames device r (replyHeader device.manufacturerId .get partAllMessages r w.ram)
        w.handler := by
  rw [newEvents_get h hall (.inl rfl) hget, answers_replyEvents, if_neg (by decide),
    List.append_nil, replyParts_all (.inl rfl), sectionFrames]

theorem answers_ended (h : ReadRequest device w.ram .get partAllMessages r)
    (h' : ReadRequest device w'.ram .get partAllMessagesWithAck r) (hsame : SameButPart w w')
    (hall : r.amount = .all) (hget : Supplies device r) :
    answers (newEvents (handleRequest device stdReqMinMsgSize) w') =
      answers (newEvents (handleRequest device stdReqMinMsgSize) w) ++
        [finalAckFrame device.manufacturerId r] := by
  rw [answers_all h hall hget, newEvents_get h' hall (.inr (.inl rfl)) hget, answers_replyEvents,
    if_pos rfl, replyParts_all (.inr rfl), hsame.header_eq (p := partAllMessages), partsRead_set,
    hsame.handler, sectionFrames]

theorem getsAll_of_le (h : ReadRequest device w.ram .get partAllMessages r)
    (h' : ReadRequest device w'.ram .get partAllMessagesWithAck r) (hsame : SameButPart w w')
    (hall : r.amount = .all) (hget : Supplies device r)
    (hn : r.sect.numberOfParameters.toNat ≤ 4032) : GetsAll device r w w' := by
  have hv : r.Valid := ⟨.inr hall, fun hs => by rw [hall] at hs; cases hs⟩
  have hindices : ∀ p, r.indices p = partRange r.sect p := fun p => if_neg (by simp [hall])
  have hcover : ∀ p, p = partAllMessages ∨ p = partAllMessagesWithAck →
      (replyParts r.sect p).flatMap r.indices = List.range r.sect.numberOfParameters.toNat := by
    intro p hp
    rw [replyParts_all hp, List.flatMap_map]
    simp only [hindices]
    exact parts_cover hn
  have hanswers := answers_all h hall hget
  have hcarries := carries_replyEvents (w.ram.responseArray.toList.take stdReqMinMsgSize)
    (replyHeader device.manufacturerId .get partAllMessages r w.ram) w.handler hv
    length_replyHeader_get hget (hcover partAllMessages (.inl rfl))
  rw [replyParts_all (.inl rfl)] at hcarries
  constructor
  · rw [hanswers]
    apply wholeSection_parts isHeader_replyHeader hn
    rw [newEvents_get h hall (.inl rfl) hget]
    exact hcarries
  · refine ⟨finalAckFrame device.manufacturerId r, answers_ended h h' hsame hall hget, rfl, ?_, ?_⟩
    · intro frame hframe heq
      rw [hanswers] at hframe
      have hbound := sectionFrames_lt isHeader_replyHeader hn frame hframe
      rw [heq] at hbound
      exact absurd hbound (by decide : ¬ partAllMessagesAckPart.toNat < 126)
    · have hended := carries_replyEvents (w'.ram.responseArray.toList.take stdReqMinMsgSize)
        (replyHeader device.manufacturerId .get partAllMessagesWithAck r w'.ram) w'.handler hv
        length_replyHeader_get hget (hcover partAllMessagesWithAck (.inr rfl))
      rw [hsame.header_eq (p := partAllMessages), partsRead_set, ← hsame.header_eq,
        replyParts_all (.inr rfl)] at hended
      rw [hanswers, newEvents_get h' hall (.inr (.inl rfl)) hget, sectionFrames, ← hsame.handler]
      exact hended
  · intro part u hlt hu
    obtain ⟨hcount, hparts⟩ := parts_of_le hn
    have hne : ¬ (part = partAllMessages ∨ part = partAllMessagesWithAck) := by
      rintro (rfl | rfl)
      · exact absurd (hlt.trans_le hcount) (by decide)
      · exact absurd (hlt.trans_le hcount) (by decide)
    have hpart : r.HasPart part := by
      refine .inr (.inr ?_)
      rw [if_pos hall, UInt8.lt_iff_toNat_lt, hparts]
      exact hlt
    have hone : replyParts r.sect part = [part] := if_neg hne
    have hack : part ≠ partAllMessagesWithAck := fun heq => hne (.inr heq)
    have hcarries := carries_replyEvents (u.ram.responseArray.toList.take stdReqMinMsgSize)
      (replyHeader device.manufacturerId .get part r u.ram) u.handler hv length_replyHeader_get hget
      (show (replyParts r.sect part).flatMap r.indices = partRange r.sect part by
        rw [hone, List.flatMap_singleton, hindices])
    rw [newEvents_get hu hall hpart hget, answers_replyEvents, if_neg hack, List.append_nil]
    rw [hone] at hcarries ⊢
    exact ⟨_, rfl, framePart_replyFrame isHeader_replyHeader, hcarries⟩

/-- The number of frames is wrong, or one of them has the part of the final message. -/
theorem le_of_getsAll (h : ReadRequest device w.ram .get partAllMessages r)
    (h' : ReadRequest device w'.ram .get partAllMessagesWithAck r) (hsame : SameButPart w w')
    (hall : r.amount = .all) (hget : Supplies device r) (hgets : GetsAll device r w w') :
    r.sect.numberOfParameters.toNat ≤ 4032 := by
  by_contra hlarge
  have hcount : 126 < partCount r.sect := by
    rw [partCount]
    simp only [paramsPerMessage]
    omega
  have hanswers := answers_all h hall hget
  have hbytes : (sectionFrames device r (replyHeader device.manufacturerId .get partAllMessages r
      w.ram) w.handler).map framePart = _ := sectionFrames_parts isHeader_replyHeader
  rw [← hanswers] at hbytes
  have hlength := congrArg List.length hbytes
  rw [List.length_map, List.length_map, List.length_range, hgets.parts.count] at hlength
  -- Part 126 is among the parts.
  have hmem : UInt8.ofNat 126 ∈ (List.range r.sect.parts.toNat).map UInt8.ofNat :=
    List.mem_map_of_mem (List.mem_range.mpr (by omega))
  rw [← hbytes] at hmem
  obtain ⟨frame, hframe, hpart⟩ := List.mem_map.mp hmem
  obtain ⟨final, hfinal, -, hdiffers, -⟩ := hgets.ended
  rw [answers_ended h h' hsame hall hget] at hfinal
  have hlast := List.singleton_inj.mp (List.append_cancel_left hfinal)
  refine hdiffers frame hframe ?_
  rw [hpart, ← hlast]
  rfl

/-- A request to get all values of a section is answered completely, whatever the part, exactly when
the section has at most 126 parts. -/
theorem get_all_complete_iff (h : ReadRequest device w.ram .get partAllMessages r)
    (h' : ReadRequest device w'.ram .get partAllMessagesWithAck r) (hsame : SameButPart w w')
    (hall : r.amount = .all) (hget : Supplies device r) :
    GetsAll device r w w' ↔ r.sect.numberOfParameters.toNat ≤ 4032 :=
  ⟨le_of_getsAll h h' hsame hall hget, getsAll_of_le h h' hsame hall hget⟩

end Whole

/-- A request to get all values of a section of so many parameters. -/
def getRequest (part : UInt8) : List UInt8 :=
  [sysExStart, 0x00, 0x53, 0x43, Status.request.toByte, part, Wish.get.toByte, Amount.all.toByte,
    0, 0, 0, 0, 0, 0, sysExEnd]

def getAsked (n : UInt16) (part : UInt8) : World Unit :=
  { ram := { ({} : Members).pushedAll (getRequest part) with
      configurationEnabled := true, layout := [⟨[⟨n, 0, 0⟩]⟩] }
    handler := (), trace := [] }

theorem byteAt_getAsked {n : UInt16} {part : UInt8} {i : Nat} (hi : i < 15) :
    (getAsked n part).ram.byteAt i = (getRequest part).getD i 0 := by
  have hframe : (({} : Members).pushedAll (getRequest part)).frame = getRequest part := by
    rw [Members.frame_pushedAll (by simp [getRequest, maxMessageSize_eq])]
    rfl
  refine Members.byteAt_of_take (show (getAsked n part).ram.responseArray.toList.take
    (getRequest part).length = _ from ?_) hi
  rw [Members.frame, Members.pushedAll_responseCounter] at hframe
  exact hframe

theorem getAsked_reads (n : UInt16) (part : UInt8) :
    ReadRequest ackDevice (getAsked n part).ram .get part ⟨0, 0, ⟨n, 0, 0⟩, .all, 0⟩ := by
  refine ⟨⟨?_, by decide, ?_, ?_, ?_, ?_, ?_⟩, rfl, ⟨_, rfl, rfl⟩, .inl rfl, ?_, ?_, ?_, ?_, ?_, ?_,
    nofun⟩
  · simp [getAsked]
  all_goals exact byteAt_getAsked (by decide)

theorem getAsked_sameButPart (n : UInt16) (part part' : UInt8) :
    SameButPart (getAsked n part) (getAsked n part') := by
  refine ⟨rfl, ?_⟩
  intro i hi
  rw [byteAt_getAsked (by simp only [indexByte]; omega),
    byteAt_getAsked (by simp only [indexByte]; omega)]
  interval_cases i <;> rfl

theorem ackDevice_supplies (r : Reading) : Supplies ackDevice r := by
  intro i _ _
  exact ⟨rfl, (by decide : (0 : UInt16).toNat < 2 ^ 14)⟩

theorem get_all_complete_33 : GetsAll ackDevice ⟨0, 0, ⟨33, 0, 0⟩, .all, 0⟩
    (getAsked 33 partAllMessages) (getAsked 33 partAllMessagesWithAck) :=
  (get_all_complete_iff (getAsked_reads 33 _) (getAsked_reads 33 _) (getAsked_sameButPart 33 _ _)
    rfl (ackDevice_supplies _)).mpr (by decide)

/-- A section of 127 parts: the last of them looks like the final message. -/
theorem last_part_is_final : ¬ GetsAll ackDevice ⟨0, 0, ⟨4033, 0, 0⟩, .all, 0⟩
    (getAsked 4033 partAllMessages) (getAsked 4033 partAllMessagesWithAck) := by
  intro hgets
  have hle := le_of_getsAll (getAsked_reads 4033 _) (getAsked_reads 4033 _)
    (getAsked_sameButPart 4033 _ _) rfl (ackDevice_supplies _) hgets
  exact absurd hle (by decide)

end Zlibs.SysExConf
