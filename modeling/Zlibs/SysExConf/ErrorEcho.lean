import Zlibs.SysExConf.Replies

/-! The response to a request that fails, and the request it answers. -/
namespace Zlibs.SysExConf
open Lib Midi

/-- How the reading of values ends: with the values before one that is refused, if any is. -/
structure ReadOutcome (η : Type) where
  values : List (UInt16 × UInt16)
  refused : Option Status
  handler : η

variable {η : Type} {device : Device η} {m : Members} {w t u : World η} {r : Reading} {size : Nat}
  {part : UInt8} {header : List UInt8} {ignores done : Bool} {indices : List Nat} {i : Nat}

/-- Parameters read one after the other until one is refused. Where errors are ignored, a zero
stands for a value that is refused. -/
def readUntil (device : Device η) (ignores : Bool) (block sectIndex : UInt8) :
    List Nat → η → ReadOutcome η
  | [], handler => ⟨[], none, handler⟩
  | i :: rest, handler =>
    let read := device.dataHandler.get block sectIndex (UInt16.ofNat i) handler
    if read.1.1 = .ack ∨ ignores = true then
      let value := if read.1.1 = .ack then read.1.2 else 0
      let later := readUntil device ignores block sectIndex rest read.2
      ⟨(UInt16.ofNat i, value) :: later.values, later.refused, later.handler⟩
    else ⟨[], some read.1.1, read.2⟩

/-- What is read for a part; an index is checked first. -/
def Reading.readPart (r : Reading) (device : Device η) (ignores : Bool) (part : UInt8)
    (handler : η) : ReadOutcome η :=
  if r.amount = .single ∧ ¬ r.index < r.sect.numberOfParameters then
    ⟨[], some .errorIndex, handler⟩
  else readUntil device ignores r.block r.sectIndex (r.indices part) handler

theorem readUntil_ne_ack {block sectIndex : UInt8} {handler : η} :
    (readUntil device ignores block sectIndex indices handler).refused ≠ some .ack := by
  induction indices generalizing handler with
  | nil => exact nofun
  | cons i rest ih =>
    simp only [readUntil]
    split
    · exact ih
    · rename_i h
      simp only [not_or] at h
      simpa using h.1

theorem Reading.readPart_ne_ack {handler : η} :
    (r.readPart device ignores part handler).refused ≠ some .ack := by
  unfold Reading.readPart
  split
  · exact nofun
  · exact readUntil_ne_ack

theorem length_readUntil {block sectIndex : UInt8} {handler : η} :
    (readUntil device ignores block sectIndex indices handler).values.length ≤
      indices.length := by
  induction indices generalizing handler with
  | nil => exact Nat.le_refl _
  | cons i rest ih =>
    simp only [readUntil]
    split
    · exact Nat.succ_le_succ ih
    · exact Nat.zero_le _

theorem Reading.length_readPart {handler : η} :
    (r.readPart device ignores part handler).values.length ≤ paramsPerMessage := by
  unfold Reading.readPart
  split
  · exact Nat.zero_le _
  · exact length_readUntil.trans length_indices

/-- The members after values have been appended, with the status that has refused one. -/
def Members.afterRead (m : Members) (read : ReadOutcome η) : Members :=
  match read.refused with
  | none => m.pushedAll (valueBytes read.values)
  | some status => (m.pushedAll (valueBytes read.values)).write statusByte status.toByte

/-- The end of a loop that reads values. -/
structure ReadsDone (w : World η) (read : ReadOutcome η) (done : Bool) (t : World η) : Prop where
  done : done = read.refused.isNone
  ram : t.ram = w.ram.afterRead read
  handler : t.handler = read.handler
  events : ∃ es, t.trace = w.trace ++ es

theorem getValue_until (hroom : w.ram.responseCounter + 2 ≤ maxMessageSize - 1) :
    wpf (getValue device (UInt16.ofNat i)) (ReadsDone w (readUntil device
      w.ram.userErrorIgnoreModeEnabled w.ram.decodedRequest.block w.ram.decodedRequest.sect [i]
      w.handler)) Never w := by
  rw [getValue, wpf_bind, wpf_get, wpf_bind, wpf_callGet]
  simp only [readUntil]
  generalize hread : device.dataHandler.get w.ram.decodedRequest.block w.ram.decodedRequest.sect
    (UInt16.ofNat i) w.handler = read
  have hevents : (w.afterGet device w.ram.decodedRequest.block w.ram.decodedRequest.sect
      (UInt16.ofNat i)) = { w with handler := read.2, trace := w.trace ++
        [.get w.ram.decodedRequest.block w.ram.decodedRequest.sect (UInt16.ofNat i) read.1.1
          read.1.2] } := by
    rw [World.afterGet, hread]
  rw [hevents]
  by_cases hack : read.1.1 = .ack
  · rw [if_pos hack, if_pos (.inl hack), wpf_bind]
    refine (wpf_addToResponse ?_).mpr ?_
    · exact hroom
    · rw [wpf_pure]
      exact ⟨rfl, by simp [Members.afterRead, valueBytes, hack], rfl, _, rfl⟩
  rw [if_neg hack, wpf_bind, wpf_get]
  by_cases hig : w.ram.userErrorIgnoreModeEnabled = true
  · rw [if_pos hig, if_pos (.inr hig), wpf_bind]
    refine (wpf_addToResponse ?_).mpr ?_
    · exact hroom
    · rw [wpf_pure]
      exact ⟨rfl, by simp [Members.afterRead, valueBytes, hack], rfl, _, rfl⟩
  · rw [if_neg hig, if_neg (not_or.mpr ⟨hack, hig⟩), wpf_refuse]
    exact ⟨rfl, rfl, rfl, _, rfl⟩

theorem ReadsDone.stop {block sectIndex : UInt8} {rest : List Nat}
    (h : ReadsDone w (readUntil device ignores block sectIndex [i] w.handler) false t) :
    ReadsDone w (readUntil device ignores block sectIndex (i :: rest) w.handler) false t := by
  simp only [readUntil] at h ⊢
  split at h
  · cases h.done
  · rename_i hstop
    rw [if_neg hstop]
    exact h

theorem ReadsDone.next {block sectIndex : UInt8} {rest : List Nat}
    (h : ReadsDone w (readUntil device ignores block sectIndex [i] w.handler) true t)
    (h' : ReadsDone t (readUntil device ignores block sectIndex rest t.handler) done u) :
    ReadsDone w (readUntil device ignores block sectIndex (i :: rest) w.handler) done u := by
  simp only [readUntil] at h ⊢
  split at h
  · rename_i hgo
    have hhandler := h.handler
    obtain ⟨es, hes⟩ := h.events
    obtain ⟨es', hes'⟩ := h'.events
    rw [if_pos hgo]
    dsimp only at hhandler
    rw [hhandler] at h'
    refine ⟨h'.done, ?_, h'.handler, es ++ es', by rw [hes', hes, List.append_assoc]⟩
    rw [h'.ram, h.ram]
    simp only [Members.afterRead, valueBytes, List.flatMap_cons, List.flatMap_nil, List.append_nil,
      Members.pushedAll_append]
  · cases h.done

/-- The value loop over all values of a part. -/
theorem processValues_until {startIndex : Nat} (h : r.Asked w.ram) (ha : r.amount = .all)
    (hig : w.ram.userErrorIgnoreModeEnabled = ignores)
    (hroom : w.ram.responseCounter + 2 * indices.length ≤ maxMessageSize - 1) :
    wpf (processValues device startIndex indices) (ReadsDone w (readUntil device ignores r.block
      r.sectIndex indices w.handler)) Never w := by
  induction indices generalizing w with
  | nil => exact ⟨rfl, rfl, rfl, [], (List.append_nil _).symm⟩
  | cons i rest ih =>
    rw [List.length_cons] at hroom
    have hone : wpf (processValue device startIndex i)
        (ReadsDone w (readUntil device ignores r.block r.sectIndex [i] w.handler)) Never w := by
      rw [processValue, wpf_bind, wpf_get, if_pos h.wish, processGet, wpf_bind, wpf_get,
        if_neg (by rw [h.amount, ha]; decide), ← h.block, ← h.sectIndex, ← hig]
      exact getValue_until (by omega)
    rw [processValues]
    refine wpf_bind_of hone ?_
    rintro (_ | _) t ht
    · exact ht.stop
    have hram : ∃ value, t.ram = w.ram.pushedAll (valueBytes [value]) := by
      have hr := ht.ram
      simp only [readUntil] at ht hr
      split at ht
      · rename_i hgo
        rw [if_pos hgo] at hr
        exact ⟨_, hr⟩
      · cases ht.done
    obtain ⟨value, hram⟩ := hram
    refine wpf_of_never (ih (hram ▸ h.pushedAll) ?_ ?_) fun _ u hu => ht.next hu
    · rw [hram, Members.same_pushedAll.ignores, hig]
    · rw [hram, Members.pushedAll_responseCounter, length_valueBytes, List.length_singleton]
      omega

/-- The value loop of a part. -/
theorem Reading.values_until (ha : r.amount = .single ∨ r.amount = .all) (h : r.Asked w.ram)
    (hig : w.ram.userErrorIgnoreModeEnabled = ignores)
    (hroom : w.ram.responseCounter + bytesPerValue * paramsPerMessage ≤ maxMessageSize - 1) :
    wpf (processValues device (startIndex w.ram) (partIndices w.ram))
      (ReadsDone w (r.readPart device ignores w.ram.decodedRequest.part w.handler)) Never w := by
  simp only [bytesPerValue, paramsPerMessage] at hroom
  unfold Reading.readPart
  rcases ha with ha | ha
  · have hone : partIndices w.ram = [0] := by simp [partIndices, h.amount, ha]
    have hindex : w.ram.decodedRequest.index = r.index := h.index ha
    rw [hone]
    apply processValues_one
    rw [processValue, wpf_bind, wpf_get, if_pos h.wish, processGet, wpf_bind, wpf_get,
      if_pos (h.amount.trans ha)]
    by_cases hlt : r.index < r.sect.numberOfParameters
    · rw [if_neg (by simp [Members.checkParameterIndex, hindex, h.sect, hlt]),
        if_neg fun hn => hn.2 hlt, Reading.indices, if_pos ha, hindex, ← h.block, ← h.sectIndex,
        ← hig]
      have hget := @getValue_until _ device w r.index.toNat (by omega)
      rwa [UInt16.ofNat_toNat] at hget
    · rw [if_pos (by simpa [Members.checkParameterIndex, hindex, h.sect] using hlt),
        if_pos ⟨ha, hlt⟩, wpf_refuse]
      exact ⟨rfl, rfl, rfl, [], (List.append_nil _).symm⟩
  · have hcount := @length_partRange r.sect w.ram.decodedRequest.part
    simp only [paramsPerMessage] at hcount
    rw [if_neg fun hn => absurd (hn.1.symm.trans ha) (by decide), h.partIndices ha,
      Reading.indices, if_neg (by rw [ha]; decide)]
    exact processValues_until h ha hig (by omega)

/-- Where the values of a request stop: the part, its values before, and the status. -/
structure Refusal where
  part : UInt8
  values : List (UInt16 × UInt16)
  status : Status

/-- The response that a refused value leaves, without its end byte. -/
def Refusal.frame (f : Refusal) (header : List UInt8) : List UInt8 :=
  (header.set partByte f.part).set statusByte f.status.toByte ++ valueBytes f.values

/-- A value has been refused, and the response is still to be sent. -/
structure Stopped (header : List UInt8) (f : Refusal) (w t : World η) : Prop where
  frame : t.ram.frame = f.frame header
  started : 2 ≤ t.ram.responseCounter
  room : t.ram.responseCounter < maxMessageSize
  start : t.ram.byteAt startByte = sysExStart
  events : ∃ es, t.trace = w.trace ++ es

theorem Stopped.after {f : Refusal} (h : Stopped header f t u) (he : ∃ es, t.trace = w.trace ++ es) :
    Stopped header f w u := by
  obtain ⟨es, hes⟩ := he
  obtain ⟨es', hes'⟩ := h.events
  exact ⟨h.frame, h.started, h.room, h.start, es ++ es', by rw [hes', hes, List.append_assoc]⟩

theorem stopped_of_read {f : Refusal} {es : List Event} (hh : IsHeader header)
    (h : Replying r header w.ram) (hc : w.ram.responseCounter = header.length)
    (hpart : f.part = w.ram.decodedRequest.part) (hl : f.values.length ≤ paramsPerMessage)
    (hram : t.ram =
      (w.ram.pushedAll (valueBytes f.values)).write statusByte f.status.toByte)
    (he : t.trace = w.trace ++ es) : Stopped header f w t := by
  have hroom := hh.room
  have hlong := hh.long
  simp only [bytesPerValue, paramsPerMessage, partByte] at hroom hlong hl
  have hm := maxMessageSize_eq
  have hcounter : t.ram.responseCounter = header.length + 2 * f.values.length := by
    rw [hram, Members.write_responseCounter, Members.pushedAll_responseCounter, hc,
      length_valueBytes]
  refine ⟨?_, by omega, by omega, ?_, es, he⟩
  · have hframe : (w.ram.pushedAll (valueBytes f.values)).frame =
        header.set partByte f.part ++ valueBytes f.values := by
      rw [Members.frame_pushedAll (by rw [hc, length_valueBytes]; omega), Members.frame, hc,
        h.header, hpart]
    rw [Members.frame, hram, Members.write_responseCounter, Members.take_write]
    change (w.ram.pushedAll (valueBytes f.values)).frame.set _ _ = _
    rw [hframe, List.set_append_left _ _ (by rw [List.length_set]; simp only [statusByte]; omega)]
    rfl
  · rw [hram, Members.byteAt_write_other (by decide)]
    exact (byteAt_pushedAll _ (by omega)).trans (h.start hh)

section Whole

variable [Zephyr]

/-- The first value that is refused when parts are read and answered one after the other. -/
def refusal (device : Device η) (r : Reading) (ignores : Bool) (header : List UInt8) :
    List UInt8 → η → Option Refusal
  | [], _ => none
  | part :: rest, handler =>
    let read := r.readPart device ignores part handler
    match read.refused with
    | some status => some ⟨part, read.values, status⟩
    | none => refusal device r ignores header rest
        (responseEvents device (replyFrame header part read.values) read.handler).2

theorem refusal_ne_ack {f : Refusal} {parts : List UInt8} {handler : η}
    (h : refusal device r ignores header parts handler = some f) : f.status ≠ .ack := by
  induction parts generalizing handler with
  | nil => cases h
  | cons part rest ih =>
    simp only [refusal] at h
    split at h
    · rename_i status hstatus
      cases h
      rintro rfl
      exact Reading.readPart_ne_ack hstatus
    · exact ih h

/-- The values of a part have been read, and the response with them has been sent. -/
structure Answered (device : Device η) (r : Reading) (header : List UInt8) (read : ReadOutcome η)
    (w t : World η) : Prop where
  ram : Replying r header t.ram
  part : t.ram.decodedRequest.part = w.ram.decodedRequest.part
  ignores : t.ram.userErrorIgnoreModeEnabled = w.ram.userErrorIgnoreModeEnabled
  handler : t.handler = (responseEvents device
    (replyFrame header w.ram.decodedRequest.part read.values) read.handler).2
  events : ∃ es, t.trace = w.trace ++ es

/-- The values of one part are read until one is refused. -/
theorem sendPart_until {P : Bool → World η → Prop} {x : SysExM η Bool} {read : ReadOutcome η}
    (ha : r.amount = .single ∨ r.amount = .all) (hh : IsHeader header)
    (h : Replying r header w.ram) (hc : w.ram.responseCounter = header.length)
    (hread : r.readPart device w.ram.userErrorIgnoreModeEnabled w.ram.decodedRequest.part
      w.handler = read)
    (hstop : ∀ status t, read.refused = some status →
      Stopped header ⟨w.ram.decodedRequest.part, read.values, status⟩ w t → P false t)
    (hx : ∀ t, read.refused = none → Answered device r header read w t → wpf x P Never t) :
    wpf (do
      if !(← processValues device (startIndex w.ram) (partIndices w.ram)) then
        return false
      sendResponse device
      x) P Never w := by
  have hroom := hh.room
  have hlong := hh.long
  simp only [bytesPerValue, paramsPerMessage, partByte] at hroom hlong
  have hm := maxMessageSize_eq
  have hl : read.values.length ≤ paramsPerMessage := hread ▸ Reading.length_readPart
  refine wpf_bind_of (Reading.values_until (w := w) ha h.asked rfl (by
    simp only [bytesPerValue, paramsPerMessage]; omega)) ?_
  rw [hread]
  rintro done t ⟨hdone, hram, hhandler, es, hes⟩
  unfold Members.afterRead at hram
  cases hr : read.refused with
  | some status =>
    rw [hr] at hdone hram
    subst hdone
    exact hstop status t hr (stopped_of_read hh h hc rfl hl hram hes)
  | none =>
    rw [hr] at hdone hram
    subst hdone
    dsimp only at hram
    simp only [paramsPerMessage] at hl
    have hcounter : t.ram.responseCounter = header.length + 2 * read.values.length := by
      rw [hram, Members.pushedAll_responseCounter, hc, length_valueBytes]
    have ht : Replying r header t.ram := hram ▸ h.pushedAll hc.ge
    have hframe : t.ram.frame ++ [sysExEnd] =
        replyFrame header w.ram.decodedRequest.part read.values := by
      rw [hram, Members.frame_pushedAll (by rw [hc, length_valueBytes]; omega), Members.frame, hc,
        h.header, replyFrame]
    rw [Option.isNone_none, Bool.not_true, if_neg Bool.false_ne_true, wpf_bind]
    refine wpf_sendResponse (by omega) (by omega) (ht.start hh) ?_
    rw [hframe]
    have hsent : Replying r header (t.ram.pushedAll [sysExEnd]) := ht.pushedAll (by omega)
    refine hx _ hr ⟨hsent, ?_, ?_, by rw [hhandler], ?_⟩
    · rw [Members.pushed_decodedRequest, hram, Members.pushedAll_decodedRequest]
    · rw [Members.same_pushed.ignores, hram, Members.same_pushedAll.ignores]
    · rw [hes, List.append_assoc]
      exact ⟨_, rfl⟩

/-- The end of the loop over the parts. -/
def PartsDone (r : Reading) (header : List UInt8) (refused : Option Refusal) (w : World η)
    (done : Bool) (t : World η) : Prop :=
  match refused with
  | none => done = true ∧ Replying r header t.ram ∧ ∃ es, t.trace = w.trace ++ es
  | some f => done = false ∧ Stopped header f w t

omit [Zephyr] in
theorem PartsDone.after {refused : Option Refusal} (h : PartsDone r header refused t done u)
    (he : ∃ es, t.trace = w.trace ++ es) : PartsDone r header refused w done u := by
  cases refused with
  | none =>
    obtain ⟨hdone, hram, es', hes'⟩ := h
    obtain ⟨es, hes⟩ := he
    exact ⟨hdone, hram, es ++ es', by rw [hes', hes, List.append_assoc]⟩
  | some f => exact ⟨h.1, h.2.after he⟩

theorem processParts_until {allPartsLoop : Bool} {js : List Nat}
    (ha : r.amount = .single ∨ r.amount = .all) (hh : IsHeader header)
    (h : Replying r header w.ram) (hig : w.ram.userErrorIgnoreModeEnabled = ignores) :
    wpf (processParts device allPartsLoop header.length js)
      (PartsDone r header (refusal device r ignores header
        (js.map fun j => if allPartsLoop then UInt8.ofNat j else w.ram.decodedRequest.part)
        w.handler) w) Never w := by
  induction js generalizing w with
  | nil => exact ⟨rfl, h, [], (List.append_nil _).symm⟩
  | cons j rest ih =>
    rw [processParts, wpf_bind, wpf_modifyMembers, wpf_bind, wpf_selectPart_toPart, wpf_bind, wpf_get]
    have hpart : (w.ram.toPart header.length allPartsLoop j).decodedRequest.part =
        if allPartsLoop then UInt8.ofNat j else w.ram.decodedRequest.part := Members.toPart_part
    have hignores : (w.ram.toPart header.length allPartsLoop j).userErrorIgnoreModeEnabled =
        ignores := by
      rw [← hig]
      cases allPartsLoop <;> rfl
    let u : World η := { w with ram := w.ram.toPart header.length allPartsLoop j }
    have hu : Replying r header u.ram := h.toPart
    rw [List.map_cons, refusal]
    refine sendPart_until ha hh hu Members.toPart_responseCounter rfl ?_ ?_
    · intro status t hrefused hstopped
      rw [hignores, hpart] at hrefused hstopped
      simp only [hrefused]
      exact ⟨rfl, hstopped.after ⟨[], (List.append_nil _).symm⟩⟩
    · intro t hrefused hanswered
      have hpart' := hanswered.part
      have hhandler := hanswered.handler
      rw [hignores, hpart] at hrefused hhandler
      have hsame : (rest.map fun j => if allPartsLoop then UInt8.ofNat j
            else t.ram.decodedRequest.part) =
          rest.map fun j => if allPartsLoop then UInt8.ofNat j else w.ram.decodedRequest.part := by
        apply List.map_congr_left
        intro k _
        rw [hpart', hpart]
        cases allPartsLoop <;> rfl
      have hrest := ih hanswered.ram (hanswered.ignores.trans hignores)
      rw [hsame, hhandler] at hrest
      simp only [hrefused]
      exact wpf_of_never hrest fun done v hv => hv.after hanswered.events

omit [Zephyr] in
/-- What an accepted request reads. -/
def Members.reading (m : Members) (d : DecodedRequest) : Reading where
  block := d.block
  sectIndex := d.sect
  sect := { m with decodedRequest := d }.requestedSection
  amount := d.amount
  index := d.index

/-- The value that an accepted request to read is refused with. -/
def requestRefusal (device : Device η) (m : Members) (d : DecodedRequest) (handler : η) :
    Option Refusal :=
  refusal device (m.reading d) m.userErrorIgnoreModeEnabled
    (replyHeader device.manufacturerId d.wish d.part (m.reading d) m)
    (replyParts (m.reading d).sect d.part) handler

variable {d : DecodedRequest}

omit [Zephyr] in
theorem Wish.toByte_ofByte {byte : UInt8} (h : Wish.ofByte byte ≠ .invalid) :
    byte = (Wish.ofByte byte).toByte := by
  unfold Wish.ofByte at h ⊢
  split_ifs at h ⊢ with h0 h1 h2
  · exact h0
  · exact h1
  · exact h2
  · exact absurd rfl h

omit [Zephyr] in
/-- An accepted request to read is one for a section that exists. -/
theorem readRequest_of_decoded (h : m.Addressed device.manufacturerId size)
    (hst : m.byteAt statusByte = Status.request.toByte)
    (hd : (m.begun size).decoded size = .ok d) (hreads : d.wish = .get ∨ d.wish = .backup) :
    size = stdReqMinMsgSize ∧ ReadRequest device m d.wish d.part (m.reading d) ∧
      (d.amount = .single ∨ d.amount = .all) := by
  have hkind := (Members.accepts_of_decoded hd).kind
  obtain ⟨rfl, _, henabled, hwish, hblock, hsect, _, _, hlength⟩ := Members.accepts_of_decoded hd
  rw [Members.operands_wish] at hreads
  have hsize : size = stdReqMinMsgSize := by rw [hlength, generateMessageLength_reads hreads]
  have hblock' : (m.byteAt blockByte).toNat < m.layout.length := of_decide_eq_true hblock
  have hsect' : (m.byteAt sectionByte).toNat <
      (m.layout.getD (m.byteAt blockByte).toNat ⟨[]⟩).sections.length := of_decide_eq_true hsect
  refine ⟨hsize, ⟨hsize ▸ h, henabled, ?_, ?_, hst, ?_, ?_, ?_, ?_, ?_, ?_⟩, hkind⟩
  · refine ⟨m.layout.getD (m.byteAt blockByte).toNat ⟨[]⟩, ?_, ?_⟩
    · simp only [Members.reading, Members.operands_block]
      change m.layout[(m.byteAt blockByte).toNat]? = _
      rw [List.getElem?_eq_getElem hblock', List.getD_eq_getElem _ _ hblock']
    · simp only [Members.reading, Members.requestedSection, Members.operands_block,
        Members.operands_sect]
      change _[(m.byteAt sectionByte).toNat]? =
        some (List.getD _ (m.byteAt sectionByte).toNat _)
      rw [List.getElem?_eq_getElem hsect']
      exact congrArg some (List.getD_eq_getElem _ _ hsect').symm
  · rwa [Members.operands_wish]
  · rw [Members.operands_part]
    rfl
  · rw [Members.operands_wish]
    exact Wish.toByte_ofByte (of_decide_eq_true hwish)
  · exact Amount.toByte_ofByte hkind (Members.operands_amount (m := (m.begun size).withHeader)).symm
  · simp only [Members.reading, Members.operands_block]
    rfl
  · simp only [Members.reading, Members.operands_sect]
    rfl
  · intro ha
    simp only [Members.reading, Members.operands_amount] at ha
    simp only [Members.reading, Members.operands, if_pos ha]
    rfl

/-- Where the processing of an accepted request starts. -/
def World.accepted (w : World η) (size : Nat) (d : DecodedRequest) : World η :=
  { w.asked size with ram := (w.ram.begun size).marked .ack d }

theorem processStandardRequest_until (h : w.ram.Addressed device.manufacturerId size)
    (hst : w.ram.byteAt statusByte = Status.request.toByte)
    (hd : (w.ram.begun size).decoded size = .ok d) (hreads : d.wish = .get ∨ d.wish = .backup) :
    wpf (processStandardRequest device size) (fun done t =>
      done = (requestRefusal device w.ram d w.handler).isNone ∧
        ∀ f, requestRefusal device w.ram d w.handler = some f →
          Stopped (replyHeader device.manufacturerId d.wish d.part (w.ram.reading d) w.ram) f
            (w.accepted size d) t) Never (w.accepted size d) := by
  obtain ⟨rfl, hread, hkind⟩ := readRequest_of_decoded h hst hd hreads
  have hreplying := hread.replying (d := d) (n := stdReqMinMsgSize) rfl rfl rfl rfl rfl
    (fun _ => rfl) rfl
  have hh : IsHeader (replyHeader device.manufacturerId d.wish d.part (w.ram.reading d) w.ram) :=
    isHeader_replyHeader
  have hcounter : (if d.wish = .backup then stdReqMinMsgSize - 1 - 2 * bytesPerValue
      else (w.accepted stdReqMinMsgSize d).ram.responseCounter) =
        (replyHeader device.manufacturerId d.wish d.part (w.ram.reading d) w.ram).length := by
    change (if d.wish = .backup then _ else stdReqMinMsgSize - 1) = _
    by_cases hb : d.wish = .backup
    · simp [replyHeader, hb]
    · simp [replyHeader, hb]
  have hig : (if d.wish = .backup then ((w.ram.begun stdReqMinMsgSize).marked .ack d).asBackup
      else (w.ram.begun stdReqMinMsgSize).marked .ack d).userErrorIgnoreModeEnabled =
        w.ram.userErrorIgnoreModeEnabled := by
    split <;> rfl
  have hpart : (if d.wish = .backup then ((w.ram.begun stdReqMinMsgSize).marked .ack d).asBackup
      else (w.ram.begun stdReqMinMsgSize).marked .ack d).decodedRequest.part = d.part := by
    split <;> rfl
  unfold requestRefusal
  generalize replyHeader device.manufacturerId d.wish d.part (w.ram.reading d) w.ram = header
    at hreplying hh hcounter ⊢
  refine wpf_processStandardRequest_reads (w := w.accepted stdReqMinMsgSize d)
    (r := w.ram.reading d) rfl hreads rfl rfl hcounter ?_
  have hrun := @processParts_until _ device { w.accepted stdReqMinMsgSize d with
      ram := if d.wish = .backup then ((w.ram.begun stdReqMinMsgSize).marked .ack d).asBackup
        else (w.ram.begun stdReqMinMsgSize).marked .ack d } (w.ram.reading d) header _ _
    (decide (d.part = partAllMessages ∨ d.part = partAllMessagesWithAck))
    (List.range (if d.part = partAllMessages ∨ d.part = partAllMessagesWithAck then
      (w.ram.reading d).sect.parts.toNat else 1)) hkind hh hreplying hig
  rw [map_replyParts hpart] at hrun
  refine wpf_bind_of hrun ?_
  intro done t ht
  change PartsDone _ _ (refusal _ _ _ _ _ w.handler) _ _ _ at ht
  cases hr : refusal device (w.ram.reading d) w.ram.userErrorIgnoreModeEnabled header
      (replyParts (w.ram.reading d).sect d.part) w.handler with
  | none =>
    rw [hr] at ht
    obtain ⟨rfl, hram, _⟩ := ht
    rw [Bool.not_true, if_neg Bool.false_ne_true, wpf_bind]
    refine wpf_of_never (sendFinalAck_replies hram.asked) ?_
    intro _ u _
    rw [wpf_pure]
    exact ⟨rfl, fun _ hf => by cases hf⟩
  | some f =>
    rw [hr] at ht
    obtain ⟨rfl, hstopped⟩ := ht
    rw [if_pos Bool.not_false, wpf_pure]
    refine ⟨rfl, fun f' hf => ?_⟩
    cases hf
    exact hstopped.after ⟨[], (List.append_nil _).symm⟩

omit [Zephyr] in
/-- The frame of a request to read. -/
theorem ReadRequest.take {wish : Wish} (h : ReadRequest device m wish part r) :
    m.responseArray.toList.take stdReqMinMsgSize =
      [sysExStart, device.manufacturerId.id1, device.manufacturerId.id2, device.manufacturerId.id3,
        Status.request.toByte, part, wish.toByte, r.amount.toByte, r.block, r.sectIndex,
        m.byteAt indexByte, m.byteAt (indexByte + 1), m.byteAt (indexByte + 2),
        m.byteAt (indexByte + 3), sysExEnd] := by
  rw [Members.take_terminated (by decide) (by decide) h.addressed.terminated]
  change m.responseArray.toList.take (indexByte + 4) ++ _ = _
  rw [take_operands, take_header, h.addressed.start, h.addressed.id1, h.addressed.id2,
    h.addressed.id3, h.request, h.part, h.wish, h.amount, h.block, h.sectIndex]
  rfl

omit [Zephyr] in
/-- A response that a refused value leaves is the request with another status if and only if
nothing has been made of the request before. -/
theorem refusal_frame_iff {wish : Wish} {f : Refusal} (h : ReadRequest device m wish part r)
    (hack : f.status ≠ .ack) :
    (∃ status : Status, status ≠ .ack ∧
      f.frame (replyHeader device.manufacturerId wish part r m) ++ [sysExEnd] =
        (m.responseArray.toList.take stdReqMinMsgSize).set statusByte status.toByte) ↔
      wish = .get ∧ f.values = [] ∧ f.part = part := by
  rw [h.take]
  constructor
  · rintro ⟨status, _, heq⟩
    rcases h.reads with rfl | rfl
    · rw [Refusal.frame, replyHeader, if_neg (by decide)] at heq
      have hlength := congrArg List.length heq
      simp only [List.length_append, List.length_set, List.length_cons, List.length_nil,
        length_valueBytes] at hlength
      have hvalues : f.values = [] := List.length_eq_zero_iff.mp (by omega)
      have hpart := congrArg (fun frame : List UInt8 => frame.getD partByte 0) heq
      rw [hvalues] at hpart
      exact ⟨rfl, hvalues, hpart⟩
    · rw [Refusal.frame, replyHeader, if_pos rfl] at heq
      have hwish := congrArg (fun frame : List UInt8 => frame.getD wishByte 0) heq
      exact absurd hwish (by simp [Wish.toByte])
  · rintro ⟨rfl, hvalues, hpart⟩
    refine ⟨f.status, hack, ?_⟩
    rw [Refusal.frame, replyHeader, if_neg (by decide), hvalues, hpart]
    rfl

/-- The last frame that is sent. -/
def SentLast (device : Device η) (frame : List UInt8) (w t : World η) : Prop :=
  ∃ es handler, t.trace = w.trace ++ es ++ (responseEvents device frame handler).1

theorem handleRequest_last {frame : List UInt8} (h : w.ram.Addressed device.manufacturerId size)
    (hfits : size ≤ maxMessageSize)
    (hanswer : wpf (answer device size) (fun _ t => SentLast device frame (w.asked size) t) Never
      (w.asked size)) :
    (answers (newEvents (handleRequest device size) w)).getLast? = some frame := by
  apply newEvents_of_wpf (P := fun es => (answers es).getLast? = some frame)
  apply wpf_handleRequest hfits
  · intro hn
    exact absurd h hn
  intro _
  refine wpf_of_never hanswer ?_
  rintro _ t ⟨es, handler, ht⟩
  refine ⟨[.request (w.ram.responseArray.toList.take size)] ++ es ++
    (responseEvents device frame handler).1, ?_, ?_⟩
  · rw [ht]
    simp [World.asked]
  · rw [answers_append, setCalls_responseEvents.2]
    exact List.getLast?_concat ..

/-- A standard request fails: a check or its processing refuses it, and `handle_request` is left
to send the response. -/
def Fails (device : Device η) (size : Nat) (w : World η) : Prop :=
  ((answerRequest device size).run (w.asked size)).1 = .ok true

theorem Fails.of_wpf {P : Prop} (hf : Fails device size w)
    (h : wpf (answerRequest device size) (fun failed _ => failed = true → P) Never
      (w.asked size)) : P := by
  unfold Fails at hf
  unfold wpf at h
  split at h
  · rename_i hrun
    rw [hrun] at hf
    exact h (Except.ok.inj hf)
  · exact h.elim

theorem fails_of_wpf (h : wpf (answerRequest device size) (fun failed _ => failed = true) Never
    (w.asked size)) : Fails device size w := by
  unfold Fails
  unfold wpf at h
  split at h
  · rename_i hrun
    rw [hrun, h]
  · exact h.elim

/-- If the request fails, the last frame sent is the request with the status of an error. -/
def Echoes (device : Device η) (size : Nat) (w : World η) : Prop :=
  Fails device size w → ∃ status : Status, status ≠ .ack ∧
    (answers (newEvents (handleRequest device size) w)).getLast? =
      some ((w.ram.responseArray.toList.take size).set statusByte status.toByte)

/-- If a value of an accepted request is refused, the request is no backup, and the value is the
first one of the part in its part byte. -/
def RefusedAtStart (device : Device η) (size : Nat) (w : World η) : Prop :=
  w.ram.byteAt statusByte = Status.request.toByte → ∀ d,
    (w.ram.begun size).decoded size = .ok d → d.wish ≠ .set →
      ∀ f, requestRefusal device w.ram d w.handler = some f →
        d.wish = .get ∧ f.values = [] ∧ f.part = d.part

section Outcomes

variable (h : w.ram.Addressed device.manufacturerId size) (hfits : size ≤ maxMessageSize)

include h hfits

omit [Zephyr] in
theorem asked_received : Received (w.asked size).ram size :=
  ⟨rfl, h.long, hfits, h.start, h.terminated⟩

theorem respond_last {status : Status}
    (hm : m.responseArray = ((w.asked size).ram.write statusByte status.toByte).responseArray)
    (hc : m.responseCounter = (w.asked size).ram.responseCounter)
    (hs : (w.asked size).ram.Same m) :
    wpf (sendResponse device) (fun _ t => SentLast device
      ((w.ram.responseArray.toList.take size).set statusByte status.toByte) (w.asked size) t) Never
      { w.asked size with ram := m } := by
  have hsent : wpf (sendResponse device) (fun _ t => Responds device (w.asked size)
      ((w.asked size).ram.responseArray.toList.take size) status [] (w.asked size).handler t) Never
      { ram := m, handler := (w.asked size).handler, trace := (w.asked size).trace ++ [] } :=
    respond (asked_received h hfits) hm hc hs
  rw [List.append_nil] at hsent
  exact wpf_of_never hsent fun _ t ht => ⟨[], _, ht.trace⟩

theorem echoes_of_badStatus (hst : w.ram.byteAt statusByte ≠ Status.request.toByte) :
    Echoes device size w := fun _ =>
  ⟨.errorStatus, nofun, handleRequest_last h hfits (wpf_answer_badStatus hst
    (respond_last h hfits rfl rfl ⟨rfl, rfl, rfl, rfl, rfl⟩))⟩

theorem echoes_of_error {status : Status} (hst : w.ram.byteAt statusByte = Status.request.toByte)
    (hne : size ≠ specialReqMsgSize) (hd : (w.ram.begun size).decoded size = .error status) :
    Echoes device size w := by
  have hd' : (w.asked size).ram.decoded size = .error status := hd
  refine fun _ => ⟨status, ?_, handleRequest_last h hfits (wpf_answer_standard hst hne ?_ ?_)⟩
  · rintro rfl
    unfold Members.decoded at hd
    split_ifs at hd <;> cases hd
  · intro status' d hd''
    cases hd'.symm.trans hd''
    exact respond_last h hfits rfl rfl ⟨rfl, rfl, rfl, rfl, rfl⟩
  · intro d hok
    cases hd'.symm.trans hok

theorem echoes_of_set (hst : w.ram.byteAt statusByte = Status.request.toByte)
    (hne : size ≠ specialReqMsgSize) (hd : (w.ram.begun size).decoded size = .ok d)
    (hset : d.wish = .set) : Echoes device size w := by
  intro hf
  have hacc := Members.accepts_of_decoded hd
  have hwish : w.ram.byteAt wishByte = Wish.set.toByte := by
    rw [← hset, hacc.operands, Members.operands_wish]
    exact Wish.toByte_ofByte (of_decide_eq_true hacc.wish)
  have hreq : SetRequest device w.ram size := ⟨h, hfits, hst, hne, hwish⟩
  obtain ⟨hreceived, _, hkind⟩ := set_marked hreq hd
  refine ⟨_, ?_, (congrArg List.getLast? (newEvents_request hreq).2).trans
    (List.getLast?_concat ..)⟩
  refine hf.of_wpf (wpf_answerRequest_standard hst hne ?_ ?_)
  · intro status d' herr
    cases hd.symm.trans herr
  · intro d' hok
    cases hd.symm.trans hok
    have hanswer : w.ram.setAnswer device size w.handler =
        ((w.ram.begun size).marked .ack d).setResult device w.handler := by
      rw [Members.setAnswer, hd]
    rw [hanswer]
    refine wpf_of_never (processStandardRequest_set_refused (w := w.accepted size d) hreceived hset
      hkind (Members.byteAt_write_same (by decide))) ?_
    rintro (_ | _) t ht
    · exact fun _ => ht rfl
    · exact fun h => by cases h

/-- A request to read is answered as its first refused value leaves it. -/
theorem echoes_iff_of_reads (hst : w.ram.byteAt statusByte = Status.request.toByte)
    (hne : size ≠ specialReqMsgSize) (hd : (w.ram.begun size).decoded size = .ok d)
    (hreads : d.wish = .get ∨ d.wish = .backup) : Echoes device size w ↔
      ∀ f, requestRefusal device w.ram d w.handler = some f →
        d.wish = .get ∧ f.values = [] ∧ f.part = d.part := by
  obtain ⟨rfl, hread, _⟩ := readRequest_of_decoded h hst hd hreads
  have hprocess := processStandardRequest_until h hst hd hreads
  have hd' : (w.asked stdReqMinMsgSize).ram.decoded stdReqMinMsgSize = .ok d := hd
  have hst' : (w.asked stdReqMinMsgSize).ram.byteAt statusByte = Status.request.toByte := hst
  cases hr : requestRefusal device w.ram d w.handler with
  | none =>
    refine ⟨fun _ => nofun, fun _ hf => hf.of_wpf (wpf_answerRequest_standard hst hne ?_ ?_)⟩
    · intro status d' herr
      cases hd'.symm.trans herr
    · intro d' hok
      cases hd'.symm.trans hok
      refine wpf_of_never hprocess ?_
      rintro done t ⟨hdone, _⟩
      rw [hr] at hdone
      subst hdone
      exact nofun
  | some f =>
    have hfails : Fails device stdReqMinMsgSize w := by
      refine fails_of_wpf (wpf_answerRequest_standard hst hne (fun _ _ _ => rfl) ?_)
      intro d' hok
      cases hd'.symm.trans hok
      refine wpf_of_never hprocess ?_
      rintro done t ⟨hdone, _⟩
      rw [hr] at hdone
      subst hdone
      rfl
    have hanswer : wpf (answer device stdReqMinMsgSize) (fun _ t => SentLast device (f.frame
          (replyHeader device.manufacturerId d.wish d.part (w.ram.reading d) w.ram) ++ [sysExEnd])
        (w.asked stdReqMinMsgSize) t) Never (w.asked stdReqMinMsgSize) := by
      apply wpf_answer_standard hst' hne
      · intro status d' herr
        cases hd'.symm.trans herr
      · intro d' hok
        cases hd'.symm.trans hok
        refine wpf_of_never hprocess ?_
        rintro done t ⟨hdone, hstopped⟩
        rw [hr] at hdone
        subst hdone
        obtain ⟨hframe, hstarted, hroom, hstart, es, hes⟩ := hstopped f hr
        refine wpf_sendResponse hstarted hroom hstart ⟨es, t.handler, ?_⟩
        rw [← hframe]
        exact congrArg (· ++ _) hes
    have hlast := handleRequest_last h hfits hanswer
    rw [Echoes, hlast]
    have hiff := refusal_frame_iff (f := f) hread (refusal_ne_ack hr)
    constructor
    · intro hecho f' hf'
      cases hf'
      obtain ⟨status, hack, heq⟩ := hecho hfails
      exact hiff.mp ⟨status, hack, Option.some.inj heq⟩
    · intro hstart _
      obtain ⟨status, hack, heq⟩ := hiff.mpr (hstart f rfl)
      exact ⟨status, hack, congrArg some heq⟩

end Outcomes

/-- The response to a failed request is the request with the status of the error unless a value has
been refused where the response was already under way. -/
theorem error_echoed_iff (h : w.ram.Addressed device.manufacturerId size)
    (hfits : size ≤ maxMessageSize) (hne : size ≠ specialReqMsgSize) :
    Echoes device size w ↔ RefusedAtStart device size w := by
  by_cases hst : w.ram.byteAt statusByte = Status.request.toByte
  · cases hd : (w.ram.begun size).decoded size with
    | error status =>
      refine iff_of_true (echoes_of_error h hfits hst hne hd) fun _ d hok => ?_
      cases hd.symm.trans hok
    | ok d =>
      by_cases hset : d.wish = .set
      · refine iff_of_true (echoes_of_set h hfits hst hne hd hset) fun _ d' hok hnot => ?_
        cases hd.symm.trans hok
        exact absurd hset hnot
      · have hacc := Members.accepts_of_decoded hd
        have hreads : d.wish = .get ∨ d.wish = .backup := by
          have hvalid : d.wish ≠ .invalid := by
            rw [hacc.operands, Members.operands_wish]
            exact of_decide_eq_true hacc.wish
          cases hw : d.wish with
          | get => exact .inl rfl
          | backup => exact .inr rfl
          | set => exact absurd hw hset
          | invalid => exact absurd hw hvalid
        rw [echoes_iff_of_reads h hfits hst hne hd hreads]
        constructor
        · intro hstart _ d' hok _
          cases hd.symm.trans hok
          exact hstart
        · intro hstart
          exact hstart hst d hd hset
  · exact iff_of_true (echoes_of_badStatus h hfits hst) fun hreq => absurd hreq hst

end Whole

/-- A handler that can read nothing. -/
def unreadableDevice : Device Unit where
  dataHandler := { ackDevice.dataHandler with get := fun _ _ _ _ => ((.errorRead, 0), ()) }
  manufacturerId := ackDevice.manufacturerId

/-- A request for all values of a section of two. -/
def allAsked : World Unit :=
  { ram := { ({} : Members).pushedAll [sysExStart, 0x00, 0x53, 0x43, Status.request.toByte, 0,
        Wish.get.toByte, Amount.all.toByte, 0, 0, 0, 0, 0, 0, sysExEnd] with
      configurationEnabled := true, layout := [⟨[⟨2, 0, 0⟩]⟩] }
    handler := (), trace := [] }

theorem allAsked_addressed : allAsked.ram.Addressed unreadableDevice.manufacturerId
    stdReqMinMsgSize := by
  refine ⟨?_, ?_, ?_, ?_, ?_, ?_, ?_⟩ <;> decide +kernel

theorem error_echoed_unreadable : Echoes unreadableDevice stdReqMinMsgSize allAsked ↔
    RefusedAtStart unreadableDevice stdReqMinMsgSize allAsked :=
  error_echoed_iff allAsked_addressed (by decide) (by decide)

/-- A request to back up the third parameter of a section of two. -/
def missingAsked : World Unit :=
  { ram := { ({} : Members).pushedAll [sysExStart, 0x00, 0x53, 0x43, Status.request.toByte, 0,
        Wish.backup.toByte, Amount.single.toByte, 0, 0, 0, 2, 0, 0, sysExEnd] with
      configurationEnabled := true, layout := [⟨[⟨2, 0, 0⟩]⟩] }
    handler := (), trace := [] }

/-- The response has become a request to set values and is four bytes shorter. -/
theorem missing_backup_not_echoed :
    missingAsked.ram.Addressed ackDevice.manufacturerId stdReqMinMsgSize ∧
      answers (newEvents (handleRequest ackDevice stdReqMinMsgSize) missingAsked) =
        [[sysExStart, 0x00, 0x53, 0x43, Status.errorIndex.toByte, 0, Wish.set.toByte,
          Amount.single.toByte, 0, 0, sysExEnd]] ∧
      ¬ Echoes ackDevice stdReqMinMsgSize missingAsked := by
  have hanswers : answers (newEvents (handleRequest ackDevice stdReqMinMsgSize) missingAsked) =
      [[sysExStart, 0x00, 0x53, 0x43, Status.errorIndex.toByte, 0, Wish.set.toByte,
        Amount.single.toByte, 0, 0, sysExEnd]] := by decide +kernel
  refine ⟨⟨?_, ?_, ?_, ?_, ?_, ?_, ?_⟩, hanswers, fun hecho => ?_⟩
  iterate 7 decide +kernel
  have hfails : Fails ackDevice stdReqMinMsgSize missingAsked := by
    unfold Fails
    decide +kernel
  obtain ⟨status, _, hlast⟩ := hecho hfails
  rw [hanswers, List.getLast?_singleton] at hlast
  have hlength := congrArg List.length (Option.some.inj hlast)
  rw [List.length_set, List.length_take, Members.length_array] at hlength
  exact absurd hlength (by decide)

end Zlibs.SysExConf
