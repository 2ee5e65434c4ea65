import Zlibs.SysExConf.Readings

/-! Requests that read values, followed part by part to their responses. -/
namespace Zlibs.SysExConf
open Lib Midi

/-- What a request reads: all values of a part of a section, or the one with the index. -/
structure Reading where
  block : UInt8
  sectIndex : UInt8
  sect : Section
  amount : Amount
  index : UInt16

variable {η : Type} {device : Device η} {m : Members} {w t : World η} {r : Reading}
  {part : UInt8} {handler : η} {header : List UInt8}

namespace Reading

/-- The parameters that are read for a part. -/
def indices (r : Reading) (part : UInt8) : List Nat :=
  if r.amount = .single then [r.index.toNat] else partRange r.sect part

structure Valid (r : Reading) : Prop where
  amount : r.amount = .single ∨ r.amount = .all
  index : r.amount = .single → r.index < r.sect.numberOfParameters

/-- The decoded request is the one that reads this. -/
structure Asked (r : Reading) (m : Members) : Prop where
  wish : m.decodedRequest.wish = .get
  amount : m.decodedRequest.amount = r.amount
  block : m.decodedRequest.block = r.block
  sectIndex : m.decodedRequest.sect = r.sectIndex
  sect : m.requestedSection = r.sect
  index : r.amount = .single → m.decodedRequest.index = r.index

theorem Asked.same {m' : Members} (h : r.Asked m)
    (hd : m'.decodedRequest = { m.decodedRequest with part := part }) (hl : m'.layout = m.layout) :
    r.Asked m' := by
  refine ⟨?_, ?_, ?_, ?_, ?_, ?_⟩
  · rw [hd]
    exact h.wish
  · rw [hd]
    exact h.amount
  · rw [hd]
    exact h.block
  · rw [hd]
    exact h.sectIndex
  · rw [Members.requestedSection, hd, hl]
    exact h.sect
  · rw [hd]
    exact h.index

theorem Asked.pushedAll {bytes : List UInt8} (h : r.Asked m) : r.Asked (m.pushedAll bytes) :=
  h.same Members.pushedAll_decodedRequest Members.same_pushedAll.layout

theorem lt_of_mem_indices {i : Nat} (h : r.Valid) (hi : i ∈ r.indices part) :
    i < r.sect.numberOfParameters.toNat := by
  unfold indices at hi
  split at hi
  · next hs =>
    rw [List.mem_singleton.mp hi]
    exact UInt16.lt_iff_toNat_lt.mp (h.index hs)
  · exact lt_of_mem_partRange hi

theorem length_indices : (r.indices part).length ≤ paramsPerMessage := by
  unfold indices
  split
  · rw [List.length_singleton]
    decide
  · exact length_partRange

theorem Asked.partIndices (h : r.Asked m) (ha : r.amount = .all) :
    partIndices m = partRange r.sect m.decodedRequest.part := by
  have hall := h.amount.trans ha
  rw [partIndices_all hall, startIndex_all hall, h.sect, partRange, List.range'_eq_map_range]
  rfl

/-- A step of the value loop of a request for all values. -/
theorem processValue_reads {startIndex i : Nat} (h : r.Asked w.ram) (ha : r.amount = .all)
    (hget : Readable device r.block r.sectIndex r.sect) (hi : i < r.sect.numberOfParameters.toNat)
    (hroom : w.ram.responseCounter + 2 ≤ maxMessageSize - 1) :
    wpf (processValue device startIndex i) (fun done t => done = true ∧
      t = w.afterReads r.block r.sectIndex (readAll device r.block r.sectIndex [i] w.handler))
      Never w := by
  have hack := hget i hi w.handler
  rw [processValue, wpf_bind, wpf_get, if_pos h.wish, processGet, wpf_bind, wpf_get,
    if_neg (by simp [h.amount, ha]), getValue, wpf_bind, wpf_get, wpf_bind, wpf_callGet, h.block,
    h.sectIndex]
  simp only [World.afterReads, readAll, World.afterGet]
  rcases hr : device.dataHandler.get r.block r.sectIndex (UInt16.ofNat i) w.handler with
    ⟨⟨status, value⟩, next⟩
  rw [hr] at hack
  cases hack
  rw [if_pos rfl, wpf_bind]
  refine (wpf_addToResponse ?_).mpr ?_
  · exact hroom
  · rw [wpf_pure]
    exact ⟨rfl, rfl⟩

theorem processValues_reads {startIndex : Nat} {indices : List Nat} (h : r.Asked w.ram)
    (ha : r.amount = .all) (hget : Readable device r.block r.sectIndex r.sect)
    (hi : ∀ i ∈ indices, i < r.sect.numberOfParameters.toNat)
    (hroom : w.ram.responseCounter + 2 * indices.length ≤ maxMessageSize - 1) :
    wpf (processValues device startIndex indices) (fun done t => done = true ∧
      t = w.afterReads r.block r.sectIndex (readAll device r.block r.sectIndex indices w.handler))
      Never w := by
  induction indices generalizing w with
  | nil =>
    refine ⟨rfl, ?_⟩
    simp [World.afterReads, readAll, valueBytes, getEvents, Members.pushedAll]
  | cons i rest ih =>
    rw [List.length_cons] at hroom
    rw [processValues]
    refine wpf_bind_of (processValue_reads h ha hget (hi i List.mem_cons_self) (by omega)) ?_
    rintro _ t ⟨rfl, rfl⟩
    refine wpf_of_never (ih h.pushedAll (fun j hj => hi j (List.mem_cons_of_mem _ hj)) ?_) ?_
    · simp only [World.afterReads, Members.pushedAll_responseCounter, length_valueBytes,
        length_readAll, List.length_singleton]
      omega
    · rintro done u ⟨rfl, rfl⟩
      refine ⟨rfl, ?_⟩
      simp [World.afterReads, readAll, valueBytes, getEvents, ← Members.pushedAll_append]

/-- The value loop of a part. -/
theorem values_read (hv : r.Valid) (h : r.Asked w.ram)
    (hget : Readable device r.block r.sectIndex r.sect)
    (hroom : w.ram.responseCounter + bytesPerValue * paramsPerMessage ≤ maxMessageSize - 1) :
    wpf (processValues device (startIndex w.ram) (partIndices w.ram)) (fun done t => done = true ∧
      t = w.afterReads r.block r.sectIndex (readAll device r.block r.sectIndex
        (r.indices w.ram.decodedRequest.part) w.handler)) Never w := by
  simp only [bytesPerValue, paramsPerMessage] at hroom
  rcases hv.amount with ha | ha
  · -- The index is checked and the parameter is read.
    have hone : partIndices w.ram = [0] := by simp [partIndices, h.amount, ha]
    have hindex : w.ram.decodedRequest.index = r.index := h.index ha
    have hlt := hv.index ha
    have hack := hget r.index.toNat (UInt16.lt_iff_toNat_lt.mp hlt) w.handler
    rw [UInt16.ofNat_toNat] at hack
    rw [hone]
    apply processValues_one
    rw [processValue, wpf_bind, wpf_get, if_pos h.wish, processGet, wpf_bind, wpf_get,
      if_pos (h.amount.trans ha), if_neg (by simp [Members.checkParameterIndex, hindex, h.sect, hlt]),
      getValue, wpf_bind, wpf_get, wpf_bind, wpf_callGet, h.block, h.sectIndex, hindex]
    simp only [World.afterReads, indices, if_pos ha, readAll, World.afterGet, UInt16.ofNat_toNat]
    rcases hr : device.dataHandler.get r.block r.sectIndex r.index w.handler with
      ⟨⟨status, value⟩, next⟩
    rw [hr] at hack
    cases hack
    rw [if_pos rfl, wpf_bind]
    refine (wpf_addToResponse (by simp only; omega)).mpr ?_
    rw [wpf_pure]
    exact ⟨rfl, rfl⟩
  · have hindices : r.indices w.ram.decodedRequest.part =
        partRange r.sect w.ram.decodedRequest.part := if_neg (by simp [ha])
    have hcount := @length_partRange r.sect w.ram.decodedRequest.part
    simp only [paramsPerMessage] at hcount
    rw [h.partIndices ha, hindices]
    exact processValues_reads h ha hget (fun i hi => lt_of_mem_partRange hi) (by omega)

end Reading

/-- The members while the responses are made: the header of the response to the current part. -/
structure Replying (r : Reading) (header : List UInt8) (m : Members) : Prop where
  asked : r.Asked m
  header : m.responseArray.toList.take header.length = header.set partByte m.decodedRequest.part

/-- A header that leaves room for the values of a part. -/
structure IsHeader (header : List UInt8) : Prop where
  start : header.head? = some sysExStart
  long : partByte < header.length
  room : header.length + bytesPerValue * paramsPerMessage ≤ maxMessageSize - 1

theorem Replying.start (h : Replying r header m) (hh : IsHeader header) :
    m.byteAt startByte = sysExStart := by
  have hlong := hh.long
  simp only [partByte] at hlong
  have hlength : (header.set partByte m.decodedRequest.part).length = header.length :=
    List.length_set
  have hbyte := Members.byteAt_of_take (i := startByte) (show m.responseArray.toList.take
    (header.set partByte m.decodedRequest.part).length = _ by rw [hlength]; exact h.header)
    (by rw [hlength]; simp only [startByte]; omega)
  have hstart := hh.start
  rw [List.head?_eq_getElem?] at hstart
  rw [hbyte]
  simp [hstart]

theorem Replying.pushedAll {bytes : List UInt8} (h : Replying r header m)
    (hc : header.length ≤ m.responseCounter) : Replying r header (m.pushedAll bytes) := by
  refine ⟨h.asked.pushedAll, ?_⟩
  rw [take_pushedAll hc, Members.pushedAll_decodedRequest]
  exact h.header

/-- The members when the values of a part are about to be appended. -/
def Members.toPart (m : Members) (counter : Nat) (allPartsLoop : Bool) (j : Nat) : Members :=
  let m := { m with responseCounter := counter }
  if allPartsLoop then
    { m.write partByte (UInt8.ofNat j) with
      decodedRequest := { m.decodedRequest with part := UInt8.ofNat j } }
  else m

theorem Replying.toPart {allPartsLoop : Bool} {j counter : Nat} (h : Replying r header m) :
    Replying r header (m.toPart counter allPartsLoop j) := by
  cases allPartsLoop with
  | false =>
    have hkept : m.decodedRequest = { m.decodedRequest with part := m.decodedRequest.part } := rfl
    exact ⟨h.asked.same hkept rfl, h.header⟩
  | true =>
    have hpart : (m.toPart counter true j).decodedRequest =
        { m.decodedRequest with part := UInt8.ofNat j } := rfl
    refine ⟨h.asked.same hpart rfl, ?_⟩
    change (m.write partByte (UInt8.ofNat j)).responseArray.toList.take header.length = _
    rw [Members.take_write, h.header, List.set_set]
    rfl

theorem wpf_selectPart_toPart {Q : Unit → World η → Prop} {E : Fault → World η → Prop}
    {allPartsLoop : Bool} {j counter : Nat} : wpf (selectPart allPartsLoop j) Q E
        { w with ram := { w.ram with responseCounter := counter } } ↔
      Q () { w with ram := w.ram.toPart counter allPartsLoop j } := by
  cases allPartsLoop with
  | false => rw [selectPart, if_neg Bool.false_ne_true, wpf_pure]; rfl
  | true =>
    rw [selectPart, if_pos rfl, wpf_bind, wpf_modifyDecoded, wpf_writeResponse (by decide)]
    rfl

theorem Members.toPart_responseCounter {allPartsLoop : Bool} {j counter : Nat} :
    (m.toPart counter allPartsLoop j).responseCounter = counter := by
  cases allPartsLoop <;> rfl

theorem Members.toPart_part {allPartsLoop : Bool} {j counter : Nat} :
    (m.toPart counter allPartsLoop j).decodedRequest.part =
      if allPartsLoop then UInt8.ofNat j else m.decodedRequest.part := by
  cases allPartsLoop <;> rfl

/-- The response to a part. -/
def replyFrame (header : List UInt8) (part : UInt8) (values : List (UInt16 × UInt16)) : List UInt8 :=
  header.set partByte part ++ valueBytes values ++ [sysExEnd]

section Whole

variable [Zephyr]

/-- What answering one part does. -/
def partReply (device : Device η) (r : Reading) (header : List UInt8) (part : UInt8) (handler : η) :
    List Event × η :=
  let read := readAll device r.block r.sectIndex (r.indices part) handler
  let sent := responseEvents device (replyFrame header part read.1) read.2
  (getEvents r.block r.sectIndex read.1 ++ sent.1, sent.2)

/-- What answering several parts does. -/
def partsReply (device : Device η) (r : Reading) (header : List UInt8) :
    List UInt8 → η → List Event × η
  | [], handler => ([], handler)
  | part :: rest, handler =>
    let one := partReply device r header part handler
    let later := partsReply device r header rest one.2
    (one.1 ++ later.1, later.2)

/-- A world after the responses to some parts. -/
structure Replied (device : Device η) (r : Reading) (header : List UInt8) (parts : List UInt8)
    (w t : World η) : Prop where
  ram : Replying r header t.ram
  handler : t.handler = (partsReply device r header parts w.handler).2
  trace : t.trace = w.trace ++ (partsReply device r header parts w.handler).1

/-- The values of one part are appended and the response is sent. -/
theorem sendPart_replies {P : Bool → World η → Prop} {x : SysExM η Bool} (hv : r.Valid)
    (hh : IsHeader header) (h : Replying r header w.ram)
    (hc : w.ram.responseCounter = header.length)
    (hget : Readable device r.block r.sectIndex r.sect)
    (hx : ∀ t, t.ram.decodedRequest.part = w.ram.decodedRequest.part →
      Replied device r header [w.ram.decodedRequest.part] w t → wpf x P Never t) :
    wpf (do
      if !(← processValues device (startIndex w.ram) (partIndices w.ram)) then
        return false
      sendResponse device
      x) P Never w := by
  have hroom := hh.room
  have hlong := hh.long
  have hcount := @Reading.length_indices r w.ram.decodedRequest.part
  have hmax := maxMessageSize_eq
  simp only [bytesPerValue, paramsPerMessage, partByte] at hroom hlong hcount
  have hvalues := Reading.values_read hv h.asked hget
    (by simp only [bytesPerValue, paramsPerMessage]; omega)
  have hlength : (readAll device r.block r.sectIndex (r.indices w.ram.decodedRequest.part)
      w.handler).1.length = (r.indices w.ram.decodedRequest.part).length := length_readAll
  have hparts : partsReply device r header [w.ram.decodedRequest.part] w.handler =
      let read := readAll device r.block r.sectIndex (r.indices w.ram.decodedRequest.part) w.handler
      let sent := responseEvents device (replyFrame header w.ram.decodedRequest.part read.1) read.2
      (getEvents r.block r.sectIndex read.1 ++ sent.1, sent.2) := by
    simp [partsReply, partReply]
  generalize readAll device r.block r.sectIndex (r.indices w.ram.decodedRequest.part) w.handler =
    read at hvalues hparts hlength
  refine wpf_bind_of hvalues ?_
  rintro _ t ⟨rfl, rfl⟩
  have hcounter : (w.afterReads r.block r.sectIndex read).ram.responseCounter =
      header.length + 2 * read.1.length := by simp [World.afterReads, hc]
  have hm : Replying r header (w.afterReads r.block r.sectIndex read).ram := h.pushedAll hc.ge
  have hpart : (w.afterReads r.block r.sectIndex read).ram.decodedRequest.part =
      w.ram.decodedRequest.part := by rw [World.afterReads, Members.pushedAll_decodedRequest]
  have hframe : (w.afterReads r.block r.sectIndex read).ram.frame ++ [sysExEnd] =
      replyFrame header w.ram.decodedRequest.part read.1 := by
    rw [World.afterReads, Members.frame_pushedAll (by simp [hc]; omega), Members.frame, hc,
      h.header, replyFrame]
  rw [Bool.not_true, if_neg Bool.false_ne_true, wpf_bind]
  refine wpf_sendResponse (by omega) (by omega) (hm.start hh) ?_
  rw [hframe]
  have hsent : Replying r header
      ((w.afterReads r.block r.sectIndex read).ram.pushedAll [sysExEnd]) :=
    hm.pushedAll (by omega)
  refine hx _ hpart ⟨hsent, ?_, ?_⟩
  · rw [hparts]
    rfl
  · rw [hparts, World.afterReads, List.append_assoc]

theorem processParts_replies {allPartsLoop : Bool} {js : List Nat} (hv : r.Valid)
    (hh : IsHeader header) (h : Replying r header w.ram)
    (hget : Readable device r.block r.sectIndex r.sect) :
    wpf (processParts device allPartsLoop header.length js) (fun done t => done = true ∧
      Replied device r header
        (js.map fun j => if allPartsLoop then UInt8.ofNat j else w.ram.decodedRequest.part) w t)
      Never w := by
  induction js generalizing w with
  | nil => exact ⟨rfl, h, rfl, by simp [partsReply]⟩
  | cons j rest ih =>
    rw [processParts, wpf_bind, wpf_modifyMembers, wpf_bind, wpf_selectPart_toPart, wpf_bind, wpf_get]
    have hpart : (w.ram.toPart header.length allPartsLoop j).decodedRequest.part =
        if allPartsLoop then UInt8.ofNat j else w.ram.decodedRequest.part := Members.toPart_part
    let u : World η := { w with ram := w.ram.toPart header.length allPartsLoop j }
    have hu : Replying r header u.ram := h.toPart
    refine sendPart_replies hv hh hu Members.toPart_responseCounter hget ?_
    rintro t ht ⟨hram, hhandler, htrace⟩
    have hsame : (rest.map fun j => if allPartsLoop then UInt8.ofNat j else t.ram.decodedRequest.part) =
        rest.map fun j => if allPartsLoop then UInt8.ofNat j else w.ram.decodedRequest.part := by
      apply List.map_congr_left
      intro k _
      rw [ht, hpart]
      cases allPartsLoop <;> rfl
    refine wpf_of_never (ih hram) ?_
    rintro done v ⟨rfl, hvram, hvhandler, hvtrace⟩
    rw [hsame] at hvhandler hvtrace
    refine ⟨rfl, hvram, ?_, ?_⟩
    · rw [hvhandler, hhandler, hpart]
      rfl
    · rw [hvtrace, htrace, hhandler, hpart, List.append_assoc]
      simp [partsReply]

omit [Zephyr] in
/-- A request that reads values, received while the connection is open, for a section that exists. -/
structure ReadRequest (device : Device η) (m : Members) (wish : Wish) (part : UInt8) (r : Reading) :
    Prop where
  addressed : m.Addressed device.manufacturerId stdReqMinMsgSize
  enabled : m.configurationEnabled = true
  located : ∃ blk, m.layout[r.block.toNat]? = some blk ∧ blk.sections[r.sectIndex.toNat]? = some r.sect
  reads : wish = .get ∨ wish = .backup
  request : m.byteAt statusByte = Status.request.toByte
  part : m.byteAt partByte = part
  wish : m.byteAt wishByte = wish.toByte
  amount : m.byteAt amountByte = r.amount.toByte
  block : m.byteAt blockByte = r.block
  sectIndex : m.byteAt sectionByte = r.sectIndex
  index : r.amount = .single →
    merge14Bit (m.byteAt indexByte) (m.byteAt (indexByte + 1)) = r.index

omit [Zephyr] in
/-- All parts are asked for, or one that there is. -/
def Reading.HasPart (r : Reading) (part : UInt8) : Prop :=
  part = partAllMessages ∨ part = partAllMessagesWithAck ∨
    if r.amount = .all then part < r.sect.parts else part = 0

variable {wish : Wish}

omit [Zephyr] in
theorem ReadRequest.decoded (h : ReadRequest device m wish part r) (hv : r.Valid)
    (hpart : r.HasPart part) {n : Nat} :
    ∃ d, (m.begun n).decoded stdReqMinMsgSize = .ok d ∧ d.wish = wish ∧ d.amount = r.amount ∧
      d.part = part ∧ d.block = r.block ∧ d.sect = r.sectIndex ∧
      (r.amount = .single → d.index = r.index) ∧
      ((m.begun n).marked .ack d).requestedSection = r.sect := by
  obtain ⟨blk, hblk, hsect⟩ := h.located
  let d := (m.begun n).withHeader.decodedRequest
  have hwish : d.wish = wish := by
    change Wish.ofByte (m.byteAt wishByte) = _
    rw [h.wish]
    rcases h.reads with rfl | rfl <;> rfl
  have hamount : d.amount = r.amount := by
    change Amount.ofByte (m.byteAt amountByte) = _
    rw [h.amount]
    rcases hv.amount with ha | ha <;> rw [ha] <;> rfl
  have hdpart : d.part = part := h.part
  have hblock : d.block = r.block := h.block
  have hsectIndex : d.sect = r.sectIndex := h.sectIndex
  obtain ⟨hcheckBlock, hcheckSection, hrequested⟩ :=
    @Members.checks_of_located (m.begun n).withHeader blk r.sect
      (by rw [← hblock] at hblk; exact hblk) (by rw [← hsectIndex] at hsect; exact hsect)
  have hcheckWish : (m.begun n).withHeader.checkWish = true := by
    apply decide_eq_true
    change d.wish ≠ .invalid
    rw [hwish]
    rcases h.reads with rfl | rfl <;> decide
  have hcheckAmount : (m.begun n).withHeader.checkAmount = true := by
    apply decide_eq_true
    change d.amount ≠ .invalid
    rw [hamount]
    rcases hv.amount with ha | ha <;> rw [ha] <;> decide
  have hcheckPart : (m.begun n).withHeader.checkPart = true := by
    rw [Members.checkPart, hrequested]
    change (if d.part = _ ∨ d.part = _ then decide (d.wish = .get ∨ d.wish = .backup)
      else if d.amount = .all then decide (d.part < _) else decide (d.part = 0)) = _
    rw [hwish, hamount, hdpart]
    by_cases hall : part = partAllMessages ∨ part = partAllMessagesWithAck
    · rw [if_pos hall]
      exact decide_eq_true h.reads
    · rw [if_neg hall]
      have hone := (or_assoc.mpr hpart).resolve_left hall
      split_ifs at hone ⊢ with ha
      · exact decide_eq_true hone
      · exact decide_eq_true hone
  have hlength : (m.begun n).withHeader.generateMessageLength = stdReqMinMsgSize :=
    generateMessageLength_reads (hwish ▸ h.reads)
  refine ⟨(m.begun n).withHeader.operands, ?_, ?_, ?_, ?_, ?_, ?_, ?_, ?_⟩
  · rw [Members.decoded, show (m.begun n).configurationEnabled = true from h.enabled, hcheckWish,
      hcheckBlock, hcheckSection, hcheckAmount, hcheckPart, hlength]
    rfl
  · exact Members.operands_wish.trans hwish
  · exact Members.operands_amount.trans hamount
  · exact Members.operands_part.trans hdpart
  · exact Members.operands_block.trans hblock
  · exact Members.operands_sect.trans hsectIndex
  · intro ha
    rw [Members.operands, if_pos (hamount.trans ha)]
    exact h.index ha
  · rw [Members.requestedSection, Members.marked_decodedRequest, Members.operands_block,
      Members.operands_sect]
    exact hrequested

omit [Zephyr] in
/-- What stands before the values in the responses: a backup is turned into the request that sets
them, without an index; otherwise the request is kept up to its values. -/
def replyHeader (id : ManufacturerId) (wish : Wish) (part : UInt8) (r : Reading) (m : Members) :
    List UInt8 :=
  if wish = .backup then
    [sysExStart, id.id1, id.id2, id.id3, Status.request.toByte, part, Wish.set.toByte,
      r.amount.toByte, r.block, r.sectIndex]
  else
    [sysExStart, id.id1, id.id2, id.id3, Status.ack.toByte, part, wish.toByte, r.amount.toByte,
      r.block, r.sectIndex, m.byteAt indexByte, m.byteAt (indexByte + 1), m.byteAt (indexByte + 2),
      m.byteAt (indexByte + 3)]

omit [Zephyr] in
theorem isHeader_replyHeader {id : ManufacturerId} : IsHeader (replyHeader id wish part r m) := by
  unfold replyHeader
  split
  · exact ⟨rfl, by simp, by simp [maxMessageSize_eq]⟩
  · exact ⟨rfl, by simp, by simp [maxMessageSize_eq]⟩

omit [Zephyr] in
theorem replyHeader_set {id : ManufacturerId} {p : UInt8} :
    (replyHeader id wish part r m).set partByte p = replyHeader id wish p r m := by
  unfold replyHeader
  split <;> rfl

omit [Zephyr] in
theorem take_operands : m.responseArray.toList.take (indexByte + 4) =
    m.responseArray.toList.take indexByte ++ [m.byteAt indexByte, m.byteAt (indexByte + 1),
      m.byteAt (indexByte + 2), m.byteAt (indexByte + 3)] := by
  have hlength : m.responseArray.toList.length = 79 := Members.length_array.trans maxMessageSize_eq
  have hget : ∀ i < 79, m.responseArray.toList[i]? = some (m.byteAt i) := by
    intro i hi
    rw [List.getElem?_eq_getElem (by omega), Members.getElem_array]
  simp only [indexByte, List.take_add_one, hget 10 (by decide), hget 11 (by decide),
    hget 12 (by decide), hget 13 (by decide), Option.toList_some, List.append_assoc,
    List.cons_append, List.nil_append, Nat.reduceAdd]

omit [Zephyr] in
/-- The request, once it is turned into the header of its responses. -/
theorem ReadRequest.replying {d : DecodedRequest} {n : Nat} (h : ReadRequest device m wish part r)
    (hwish : d.wish = wish) (hamount : d.amount = r.amount) (hpart : d.part = part)
    (hblock : d.block = r.block) (hsectIndex : d.sect = r.sectIndex)
    (hindex : r.amount = .single → d.index = r.index)
    (hsect : ((m.begun n).marked .ack d).requestedSection = r.sect) :
    Replying r (replyHeader device.manufacturerId wish part r m)
      (if wish = .backup then ((m.begun n).marked .ack d).asBackup else (m.begun n).marked .ack d) := by
  by_cases hb : wish = .backup
  · rw [if_pos hb]
    refine ⟨⟨rfl, hamount, hblock, hsectIndex, hsect, hindex⟩, ?_⟩
    rw [replyHeader_set]
    simp only [replyHeader, if_pos hb]
    change ((((m.begun n).write statusByte Status.ack.toByte).write statusByte
      Status.request.toByte).write wishByte Wish.set.toByte).responseArray.toList.take indexByte = _
    rw [Members.take_write, Members.take_write, Members.take_write]
    change (((m.responseArray.toList.take indexByte).set _ _).set _ _).set _ _ = _
    rw [take_header, h.addressed.start, h.addressed.id1, h.addressed.id2, h.addressed.id3, h.part,
      h.amount, h.block, h.sectIndex]
    change _ = [_, _, _, _, _, d.part, _, _, _, _]
    rw [hpart]
    rfl
  · rw [if_neg hb]
    have hg : wish = .get := h.reads.resolve_right hb
    refine ⟨⟨hwish.trans hg, hamount, hblock, hsectIndex, hsect, hindex⟩, ?_⟩
    rw [replyHeader_set]
    simp only [replyHeader, if_neg hb]
    change ((m.begun n).write statusByte Status.ack.toByte).responseArray.toList.take
      (indexByte + 4) = _
    rw [Members.take_write]
    change (m.responseArray.toList.take (indexByte + 4)).set _ _ = _
    rw [take_operands, take_header, h.addressed.start, h.addressed.id1, h.addressed.id2,
      h.addressed.id3, h.part, h.wish, h.amount, h.block, h.sectIndex]
    change _ = [_, _, _, _, _, d.part, _, _, _, _, _, _, _, _]
    rw [hpart]
    rfl

omit [Zephyr] in
/-- The parts that are answered. -/
def replyParts (sect : Section) (part : UInt8) : List UInt8 :=
  if part = partAllMessages ∨ part = partAllMessagesWithAck then
    (List.range sect.parts.toNat).map UInt8.ofNat
  else [part]

omit [Zephyr] in
/-- The response that ends the transfer of all parts. -/
def finalAckFrame (id : ManufacturerId) (r : Reading) : List UInt8 :=
  [sysExStart, id.id1, id.id2, id.id3, Status.ack.toByte, partAllMessagesAckPart, Wish.get.toByte,
    r.amount.toByte, r.block, r.sectIndex, 0, 0, 0, 0, sysExEnd]

/-- What follows the responses to the parts. -/
def finalEvents (device : Device η) (r : Reading) (part : UInt8) (handler : η) : List Event :=
  if part = partAllMessagesWithAck then
    (responseEvents device (finalAckFrame device.manufacturerId r) handler).1
  else []

theorem sendFinalAck_replies (hm : r.Asked w.ram) :
    wpf (sendFinalAck device (part = partAllMessagesWithAck)) (fun _ t =>
      t.trace = w.trace ++ finalEvents device r part w.handler) Never w := by
  rw [sendFinalAck, finalEvents]
  by_cases hp : part = partAllMessagesWithAck
  · rw [if_pos (by simpa using hp), if_pos hp, wpf_bind, wpf_get, wpf_bind,
      wpf_startMessage (by simp [maxMessageSize_eq])]
    apply wpf_sendResponse_built (by simp) (by simp [maxMessageSize_eq]) rfl
    intro m _ _ _
    rw [hm.wish, hm.amount, hm.block, hm.sectIndex]
    rfl
  · rw [if_neg (by simpa using hp), if_neg hp, wpf_pure, List.append_nil]

/-- The events of a request that reads values, after the request itself. -/
def replyEvents (device : Device η) (r : Reading) (header : List UInt8) (part : UInt8) (handler : η) :
    List Event :=
  let all := partsReply device r header (replyParts r.sect part) handler
  all.1 ++ finalEvents device r part all.2

omit [Zephyr] in
/-- The parts that the loop over the parts answers. -/
theorem map_replyParts {sect : Section} {current : UInt8} (h : current = part) :
    (List.range (if part = partAllMessages ∨ part = partAllMessagesWithAck then
        sect.parts.toNat else 1)).map (fun j =>
      if decide (part = partAllMessages ∨ part = partAllMessagesWithAck) then UInt8.ofNat j
      else current) = replyParts sect part := by
  rw [h, replyParts]
  by_cases hp : part = partAllMessages ∨ part = partAllMessagesWithAck
  · simp [hp]
  · simp [hp]

/-- A request that reads values, once it is turned into the header of its responses. -/
theorem wpf_processStandardRequest_reads {P : Bool → World η → Prop}
    {E : Fault → World η → Prop} {d : DecodedRequest} (hd : w.ram.decodedRequest = d)
    (hreads : d.wish = .get ∨ d.wish = .backup) (hpart : d.part = part)
    (hsect : w.ram.requestedSection = r.sect)
    (hcounter : (if d.wish = .backup then stdReqMinMsgSize - 1 - 2 * bytesPerValue
      else w.ram.responseCounter) = header.length)
    (hloop : wpf (do
      if !(← processParts device (decide (part = partAllMessages ∨ part = partAllMessagesWithAck))
          header.length (List.range (if part = partAllMessages ∨ part = partAllMessagesWithAck then
            r.sect.parts.toNat else 1))) then
        return false
      sendFinalAck device (part = partAllMessagesWithAck)
      return true) P E
      { w with ram := if d.wish = .backup then w.ram.asBackup else w.ram }) :
    wpf (processStandardRequest device stdReqMinMsgSize) P E w := by
  have hall : (d.wish = .backup ∨ d.wish = .get) ∧
      (d.part = partAllMessages ∨ d.part = partAllMessagesWithAck) ↔
        part = partAllMessages ∨ part = partAllMessagesWithAck := by
    rw [hpart]
    exact ⟨And.right, fun hp => ⟨hreads.symm, hp⟩⟩
  have hfinal : ((part = partAllMessages ∨ part = partAllMessagesWithAck) ∧
      d.part = partAllMessagesWithAck) ↔ part = partAllMessagesWithAck := by
    rw [hpart]
    exact ⟨And.right, fun hp => ⟨.inr hp, hp⟩⟩
  rw [processStandardRequest, wpf_bind, wpf_get, wpf_bind]
  simp only [hd, hsect, hall, hfinal]
  apply wpf_prepareResponse
  · intro hb
    rw [hd] at hb
    rw [if_pos hb] at hcounter hloop
    rw [hcounter]
    exact hloop
  · intro hn
    rw [hd] at hn
    rw [if_neg hn] at hcounter hloop
    rw [hcounter]
    exact hloop

theorem processStandardRequest_replies {d : DecodedRequest} (hv : r.Valid) (hh : IsHeader header)
    (hd : w.ram.decodedRequest = d) (hreads : d.wish = .get ∨ d.wish = .backup) (hpart : d.part = part)
    (hsect : w.ram.requestedSection = r.sect)
    (hcounter : (if d.wish = .backup then stdReqMinMsgSize - 1 - 2 * bytesPerValue
      else w.ram.responseCounter) = header.length)
    (hm : Replying r header (if d.wish = .backup then w.ram.asBackup else w.ram))
    (hget : Readable device r.block r.sectIndex r.sect) :
    wpf (processStandardRequest device stdReqMinMsgSize) (fun done t => done = true ∧
      t.trace = w.trace ++ replyEvents device r header part w.handler) Never w := by
  have hmpart : (if d.wish = .backup then w.ram.asBackup else w.ram).decodedRequest.part = part := by
    rw [← hpart, ← hd]
    split <;> rfl
  apply wpf_processStandardRequest_reads hd hreads hpart hsect hcounter
  have hrun := @processParts_replies _ device
    { w with ram := if d.wish = .backup then w.ram.asBackup else w.ram } r header _
    (decide (part = partAllMessages ∨ part = partAllMessagesWithAck))
    (List.range (if part = partAllMessages ∨ part = partAllMessagesWithAck then
      r.sect.parts.toNat else 1)) hv hh hm hget
  rw [map_replyParts hmpart] at hrun
  refine wpf_bind_of hrun ?_
  rintro _ t ⟨rfl, ht⟩
  rw [Bool.not_true, if_neg Bool.false_ne_true, wpf_bind]
  refine wpf_of_never (sendFinalAck_replies ht.ram.asked) ?_
  intro _ u hu
  rw [wpf_pure]
  refine ⟨rfl, ?_⟩
  rw [hu, ht.trace, ht.handler, List.append_assoc]
  rfl

/-- What a request that reads values adds to the trace. -/
theorem handleRequest_replies (h : ReadRequest device w.ram wish part r) (hv : r.Valid)
    (hpart : r.HasPart part) (hget : Readable device r.block r.sectIndex r.sect) :
    newEvents (handleRequest device stdReqMinMsgSize) w =
      .request (w.ram.responseArray.toList.take stdReqMinMsgSize) ::
        replyEvents device r (replyHeader device.manufacturerId wish part r w.ram) part w.handler := by
  apply newEvents_of_wpf (P := fun es => es = _)
  apply wpf_handleRequest (by decide)
  · intro hn
    exact absurd h.addressed hn
  intro _
  obtain ⟨d, hd, hwish, hamount, hdpart, hblock, hsectIndex, hindex, hsect⟩ :=
    h.decoded hv hpart (n := stdReqMinMsgSize)
  have hst : (w.asked stdReqMinMsgSize).ram.byteAt statusByte = Status.request.toByte := h.request
  have hd' : (w.asked stdReqMinMsgSize).ram.decoded stdReqMinMsgSize = .ok d := hd
  apply wpf_answer_standard hst (by decide)
  · intro status d' he
    rw [hd'] at he
    cases he
  · intro d' he
    rw [hd'] at he
    cases he
    have hreplying := h.replying hwish hamount hdpart hblock hsectIndex hindex hsect
    rw [← hwish] at hreplying
    refine wpf_of_never (processStandardRequest_replies (w := { w.asked stdReqMinMsgSize with
      ram := (w.ram.begun stdReqMinMsgSize).marked .ack d }) hv isHeader_replyHeader rfl
      (hwish ▸ h.reads) hdpart hsect ?_ hreplying hget) ?_
    · change (if d.wish = .backup then _ else _) = _
      by_cases hb : d.wish = .backup
      · simp [replyHeader, hb]
      · simp [replyHeader, hb]
    · rintro _ t ⟨rfl, ht⟩
      refine ⟨_, ?_, rfl⟩
      rw [ht, ← hwish]
      exact List.append_assoc ..

/-- The values that are read for each part, with the response that carries them. -/
def partsRead (device : Device η) (r : Reading) (header : List UInt8) :
    List UInt8 → η → List (List (UInt16 × UInt16) × List UInt8)
  | [], _ => []
  | part :: rest, handler =>
    let read := (readAll device r.block r.sectIndex (r.indices part) handler).1
    (read, replyFrame header part read) ::
      partsRead device r header rest (partReply device r header part handler).2

/-- The values of a response as they are read, with their place. -/
def Reading.located (r : Reading) (reply : List (UInt16 × UInt16) × List UInt8) :
    List (UInt8 × UInt8 × UInt16 × UInt16) × List UInt8 :=
  (reply.1.map fun value => (r.block, r.sectIndex, value), reply.2)

theorem backups_partsReply {parts : List UInt8} {es : List Event} :
    backups ((partsReply device r header parts handler).1 ++ es) =
      (partsRead device r header parts handler).map r.located ++ backups es := by
  induction parts generalizing handler with
  | nil => rfl
  | cons part rest ih =>
    have hrest := @ih (partReply device r header part handler).2
    simp only [backups, partsReply, partsRead, partReply, responseEvents, List.map_cons,
      List.cons_append, List.append_assoc] at hrest ⊢
    rw [readsByAnswer_getEvents, List.nil_append, readsByAnswer, readsByAnswer_sendEach, hrest]
    rfl

theorem backups_finalEvents : backups (finalEvents device r part handler) =
    if part = partAllMessagesWithAck then [([], finalAckFrame device.manufacturerId r)] else [] := by
  unfold finalEvents
  split
  · have hsent := @readsByAnswer_sendEach _ device handler [] []
      (sysex7Packets 0 (payloadOf (finalAckFrame device.manufacturerId r)))
    rw [List.append_nil] at hsent
    simp only [backups, responseEvents, readsByAnswer, hsent]
  · rfl

/-- The response to a part carries the values of its parameters. -/
structure CarriesPart (r : Reading) (header : List UInt8) (part : UInt8)
    (reply : List (UInt16 × UInt16) × List UInt8) : Prop where
  indices : reply.1.map Prod.fst = (r.indices part).map UInt16.ofNat
  frame : reply.2 = replyFrame header part reply.1

theorem carries_of_mem {parts : List UInt8} {reply : List (UInt16 × UInt16) × List UInt8}
    (h : reply ∈ partsRead device r header parts handler) :
    ∃ part, CarriesPart r header part reply := by
  induction parts generalizing handler with
  | nil => cases h
  | cons part rest ih =>
    rcases List.mem_cons.mp h with rfl | h
    · exact ⟨part, readAll_indices, rfl⟩
    · exact ih h

theorem backups_replyEvents {frame : List UInt8} :
    backups (.request frame :: replyEvents device r header part handler) =
      (partsRead device r header (replyParts r.sect part) handler).map r.located ++
        if part = partAllMessagesWithAck then [([], finalAckFrame device.manufacturerId r)]
        else [] := by
  rw [← @backups_finalEvents _ device r part (partsReply device r header (replyParts r.sect part)
    handler).2, ← backups_partsReply]
  rfl

/-- The responses of a request that reads values. -/
theorem answers_replyEvents {frame : List UInt8} :
    answers (.request frame :: replyEvents device r header part handler) =
      (partsRead device r header (replyParts r.sect part) handler).map Prod.snd ++
        if part = partAllMessagesWithAck then [finalAckFrame device.manufacturerId r] else [] := by
  have hbackups := congrArg (List.map Prod.snd)
    (@backups_replyEvents _ device r part handler header _ frame)
  rw [backups, map_snd_readsByAnswer] at hbackups
  rw [hbackups, List.map_append, List.map_map]
  congr 1
  split <;> rfl

end Whole

end Zlibs.SysExConf
