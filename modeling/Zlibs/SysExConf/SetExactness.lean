import Zlibs.SysExConf.SetRequests
import Zlibs.SysExConf.Runs

/-! Which values a request sets: those of the frame, in order, unless narrow arithmetic accepts a frame
of another length. -/
namespace Zlibs.SysExConf
open Lib Midi

variable {η : Type} {device : Device η} {m : Members} {w t : World η} {size : Nat}
  {sect : Section} {status : Status} {es : List Event} {frame : List UInt8}

/-- The calls of `DataHandler::set`, by block, section, index and value. -/
def setCalls (es : List Event) : List (UInt8 × UInt8 × UInt16 × UInt16) :=
  es.filterMap fun
    | .set block sectIndex index newValue _ => some (block, sectIndex, index, newValue)
    | _ => none

/-- The response frames. -/
def answers (es : List Event) : List (List UInt8) :=
  es.filterMap fun
    | .response frame => some frame
    | _ => none

/-- What a program adds to the trace. -/
def newEvents {α : Type} (x : SysExM η α) (w : World η) : List Event :=
  (x.run w).2.trace.drop w.trace.length

theorem newEvents_of_wpf {α : Type} {x : SysExM η α} {P : List Event → Prop}
    (h : wpf x (fun _ t => ∃ es, t.trace = w.trace ++ es ∧ P es) Never w) :
    P (newEvents x w) := by
  unfold wpf at h
  unfold newEvents
  split at h
  · rename_i hx
    obtain ⟨es, he, hp⟩ := h
    rw [hx]
    simpa [he] using hp
  · exact h.elim

@[simp] theorem setCalls_append {xs ys : List Event} :
    setCalls (xs ++ ys) = setCalls xs ++ setCalls ys := List.filterMap_append

@[simp] theorem answers_append {xs ys : List Event} :
    answers (xs ++ ys) = answers xs ++ answers ys := List.filterMap_append

theorem setCalls_sendEach {packets : List MidiUmp} {handler : η} :
    setCalls (sendEach device packets handler).1 = [] ∧
      answers (sendEach device packets handler).1 = [] := by
  constructor
  · refine List.filterMap_eq_nil_iff.mpr fun e he => ?_
    obtain ⟨_, _, rfl⟩ := sends_sendEach e he
    rfl
  · refine List.filterMap_eq_nil_iff.mpr fun e he => ?_
    obtain ⟨_, _, rfl⟩ := sends_sendEach e he
    rfl

theorem setCalls_setOutcome {ignores : Bool} {block sectIndex : UInt8}
    {values : List (UInt16 × UInt16)} {handler : η} :
    let r := setOutcome device sect ignores block sectIndex values handler
    answers r.2.1 = [] ∧
      setCalls r.2.1 <+: values.map (fun value => (block, sectIndex, value)) ∧
      (r.1 = none → setCalls r.2.1 = values.map fun value => (block, sectIndex, value)) := by
  induction values generalizing handler with
  | nil => simp [setOutcome, setCalls, answers]
  | cons value rest ih =>
    obtain ⟨index, value⟩ := value
    simp only [setOutcome]
    split
    · split
      · obtain ⟨ha, hp, hn⟩ := @ih (device.dataHandler.set block sectIndex index value handler).2
        refine ⟨by simpa [answers] using ha, ?_, ?_⟩
        · simpa [setCalls] using hp
        · intro h
          simpa [setCalls] using hn h
      · simp [setCalls, answers]
    · simp [setCalls, answers]

/-- A standard SET request. -/
def setFrame (id : ManufacturerId) (part : UInt8) (amount : Amount) (block sectIndex : UInt8)
    (body : List UInt8) : List UInt8 :=
  [sysExStart, id.id1, id.id2, id.id3, Status.request.toByte, part, Wish.set.toByte,
    amount.toByte, block, sectIndex] ++ body ++ [sysExEnd]

/-- The frame has been received while the connection is open, for a section that exists. -/
structure ReceivesSet (device : Device η) (m : Members) (part : UInt8) (amount : Amount)
    (block sectIndex : UInt8) (sect : Section) (body : List UInt8) : Prop where
  held : m.responseArray.toList.take (body.length + 11) =
    setFrame device.manufacturerId part amount block sectIndex body
  fits : body.length + 11 ≤ maxMessageSize
  enabled : m.configurationEnabled = true
  located : ∃ blk, m.layout[block.toNat]? = some blk ∧ blk.sections[sectIndex.toNat]? = some sect
  amount : amount = .single ∨ amount = .all

variable {part block sectIndex : UInt8} {amount : Amount} {body : List UInt8} {i : Nat}

theorem ReceivesSet.byteAt (h : ReceivesSet device m part amount block sectIndex sect body)
    (hi : i < body.length + 11) : m.byteAt i =
      (setFrame device.manufacturerId part amount block sectIndex body).getD i 0 := by
  have hl : (setFrame device.manufacturerId part amount block sectIndex body).length =
      body.length + 11 := by simp [setFrame]
  exact Members.byteAt_of_take (by rw [hl]; exact h.held) (by omega)

theorem ReceivesSet.bodyAt (h : ReceivesSet device m part amount block sectIndex sect body)
    (hi : i < body.length) : m.byteAt (indexByte + i) = body.getD i 0 := by
  rw [h.byteAt (by simp only [indexByte]; omega)]
  have hs : indexByte + i = i + 10 := by simp only [indexByte]; omega
  rw [hs]
  simp [setFrame, List.getElem?_append_left hi]

theorem ReceivesSet.setRequest (h : ReceivesSet device m part amount block sectIndex sect body) :
    SetRequest device m (body.length + 11) := by
  obtain ⟨blk, hblk, _⟩ := h.located
  have hend : m.byteAt (body.length + 11 - 1) = sysExEnd := by
    rw [h.byteAt (by omega), show body.length + 11 - 1 = body.length + 10 from rfl]
    simp [setFrame]
  refine ⟨⟨?_, ?_, h.byteAt (by simp), hend, h.byteAt (by simp), h.byteAt (by simp),
    h.byteAt (by simp)⟩, h.fits, h.byteAt (by simp), ?_, h.byteAt (by simp)⟩
  · rintro hnil
    rw [hnil] at hblk
    simp at hblk
  · simp only [specialReqMsgSize, wishByte]
    omega
  · simp only [specialReqMsgSize, wishByte]
    omega

/-- The part exists and is no selector of all parts. -/
def PartOk (amount : Amount) (part : UInt8) (sect : Section) : Prop :=
  part ≠ partAllMessages ∧ part ≠ partAllMessagesWithAck ∧
    if amount = .all then part < sect.parts else part = 0

instance : Decidable (PartOk amount part sect) :=
  inferInstanceAs (Decidable (_ ∧ _ ∧ _))

/-- `generate_message_length` of a SET request. -/
def setLength (amount : Amount) (part : UInt8) (sect : Section) : Nat :=
  if amount = .single then stdReqMinMsgSize
  else
    let size := sect.numberOfParameters.toNat
    let size :=
      if size > paramsPerMessage then
        if part.toNat + 1 = sect.parts.toNat then
          (size + 2 ^ 16 - (sect.parts.toNat - 1) * paramsPerMessage) % 2 ^ 16
        else paramsPerMessage
      else size
    (size * bytesPerValue % 2 ^ 16 + indexByte + 1) % 2 ^ 16

theorem ReceivesSet.decoded (h : ReceivesSet device m part amount block sectIndex sect body) :
    (m.begun size).decoded (body.length + 11) =
      if body.length + 11 < 13 then .error .errorMessageLength
      else if ¬ PartOk amount part sect then .error .errorPart
      else if body.length + 11 ≠ setLength amount part sect then .error .errorMessageLength
      else .ok (m.begun size).withHeader.operands := by
  obtain ⟨blk, hblk, hsect⟩ := h.located
  let d := (m.begun size).withHeader.decodedRequest
  have hwish : d.wish = .set := by
    change Wish.ofByte (m.byteAt wishByte) = _
    rw [h.byteAt (by simp)]
    rfl
  have hamount : d.amount = amount := by
    change Amount.ofByte (m.byteAt amountByte) = _
    rw [h.byteAt (by simp)]
    rcases h.amount with rfl | rfl <;> rfl
  have hpart : d.part = part := h.byteAt (by simp)
  have hblock : d.block = block := h.byteAt (by simp)
  have hsectIndex : d.sect = sectIndex := h.byteAt (by simp)
  obtain ⟨hcheckBlock, hcheckSection, hrequested⟩ :=
    @Members.checks_of_located (m.begun size).withHeader blk sect
      (by rw [← hblock] at hblk; exact hblk) (by rw [← hsectIndex] at hsect; exact hsect)
  have henabled : (m.begun size).configurationEnabled = true := h.enabled
  have hcheckWish : (m.begun size).withHeader.checkWish = true := by
    simp [Members.checkWish, show (m.begun size).withHeader.decodedRequest.wish = .set from hwish]
  have hcheckAmount : (m.begun size).withHeader.checkAmount = true := by
    apply decide_eq_true
    change d.amount ≠ .invalid
    rw [hamount]
    rcases h.amount with rfl | rfl <;> decide
  have hcheckPart : (m.begun size).withHeader.checkPart = decide (PartOk amount part sect) := by
    rw [Members.checkPart, hrequested]
    change (if d.part = _ ∨ d.part = _ then decide (d.wish = .get ∨ d.wish = .backup)
      else if d.amount = .all then decide (d.part < _) else decide (d.part = 0)) = _
    rw [hwish, hamount, hpart]
    by_cases hall : part = partAllMessages
    · simp [hall, PartOk]
    · by_cases hack : part = partAllMessagesWithAck
      · simp [hack, PartOk]
      · rcases h.amount with rfl | rfl <;> simp [hall, hack, PartOk]
  have hlength : (m.begun size).withHeader.generateMessageLength = setLength amount part sect := by
    rw [Members.generateMessageLength, hrequested,
      show (m.begun size).withHeader.decodedRequest.amount = amount from hamount,
      show (m.begun size).withHeader.decodedRequest.wish = .set from hwish,
      show (m.begun size).withHeader.decodedRequest.part = part from hpart]
    rcases h.amount with rfl | rfl <;> rfl
  rw [Members.decoded, henabled, hcheckWish, hcheckBlock, hcheckSection, hcheckAmount, hcheckPart,
    hlength]
  simp

/-- The values that the loop reads for a part. -/
def partValues (m : Members) (sect : Section) (part : UInt8) : List (UInt16 × UInt16) :=
  (List.range (min paramsPerMessage
      (sect.numberOfParameters.toNat - paramsPerMessage * part.toNat))).map
    fun k => (UInt16.ofNat (paramsPerMessage * part.toNat + k), m.valueAt k)

/-- An accepted request, by the fields of its frame. -/
theorem ReceivesSet.marked (h : ReceivesSet device m part amount block sectIndex sect body)
    (n : Nat) : let m' := (m.begun n).marked .ack (m.begun n).withHeader.operands
    m'.decodedRequest.amount = amount ∧ m'.decodedRequest.part = part ∧
      m'.decodedRequest.block = block ∧ m'.decodedRequest.sect = sectIndex ∧
      m'.requestedSection = sect := by
  intro m'
  obtain ⟨blk, hblk, hsect⟩ := h.located
  have hamount : m'.decodedRequest.amount = amount := by
    simp only [m', Members.marked_decodedRequest, Members.operands_amount]
    change Amount.ofByte (m.byteAt amountByte) = _
    rw [h.byteAt (by simp)]
    rcases h.amount with rfl | rfl <;> rfl
  have hpart : m'.decodedRequest.part = part := by
    simp only [m', Members.marked_decodedRequest, Members.operands_part]
    exact h.byteAt (by simp)
  have hblock : m'.decodedRequest.block = block := by
    simp only [m', Members.marked_decodedRequest, Members.operands_block]
    exact h.byteAt (by simp)
  have hsectIndex : m'.decodedRequest.sect = sectIndex := by
    simp only [m', Members.marked_decodedRequest, Members.operands_sect]
    exact h.byteAt (by simp)
  refine ⟨hamount, hpart, hblock, hsectIndex, ?_⟩
  rw [Members.requestedSection, hblock, hsectIndex]
  change (m.layout.getD block.toNat ⟨[]⟩).sections.getD sectIndex.toNat ⟨0, 0, 0⟩ = sect
  simp [hblk, hsect]

theorem ReceivesSet.marked_single
    (h : ReceivesSet device m part .single block sectIndex sect body) (n : Nat) :
    let m' := (m.begun n).marked .ack (m.begun n).withHeader.operands
    m'.decodedRequest.index = m.valueAt 0 ∧ m'.decodedRequest.newValue = m.valueAt 1 := by
  intro m'
  have hwish : (m.begun n).withHeader.decodedRequest.wish = .set := by
    change Wish.ofByte (m.byteAt wishByte) = _
    rw [h.byteAt (by simp)]
    rfl
  have hamount : (m.begun n).withHeader.decodedRequest.amount = .single := by
    change Amount.ofByte (m.byteAt amountByte) = _
    rw [h.byteAt (by simp)]
    rfl
  simp only [m', Members.marked_decodedRequest, Members.operands, if_pos hamount, if_pos hwish]
  exact ⟨rfl, rfl⟩

theorem valueAt_marked {d : DecodedRequest} {k : Nat} :
    ((m.begun size).marked status d).valueAt k = m.valueAt k := by
  have hread : ∀ i, indexByte ≤ i →
      ((m.begun size).marked status d).byteAt i = m.byteAt i := by
    intro i hi
    exact Members.byteAt_write_other (by simp only [statusByte, indexByte] at hi ⊢; omega)
  rw [Members.valueAt, hread _ (by omega), hread _ (by omega), Members.valueAt]

theorem startIndex_all (ha : m.decodedRequest.amount = .all) :
    startIndex m = paramsPerMessage * m.decodedRequest.part.toNat := if_pos ha

theorem partIndices_all (ha : m.decodedRequest.amount = .all) :
    partIndices m = (List.range (min paramsPerMessage
      (m.requestedSection.numberOfParameters.toNat - startIndex m))).map (startIndex m + ·) := by
  rw [partIndices, if_pos ha, List.range'_eq_map_range]
  congr 2
  split <;> omega

theorem ReceivesSet.setValues (h : ReceivesSet device m part .all block sectIndex sect body) :
    ((m.begun size).marked .ack (m.begun size).withHeader.operands).setValues =
      partValues m sect part := by
  obtain ⟨hamount, hpart, _, _, hsect⟩ := h.marked size
  have hstart := startIndex_all hamount
  rw [Members.setValues, if_neg (by rw [hamount]; decide), partIndices_all hamount, hstart, hpart,
    hsect, partValues, List.map_map]
  apply List.map_congr_left
  intro k _
  simp [valueAt_marked]

/-- The answer to a request to set all values of a part. -/
theorem ReceivesSet.answer_all {handler : η}
    (h : ReceivesSet device m part .all block sectIndex sect body) :
    m.setAnswer device (body.length + 11) handler =
      if body.length + 11 < 13 then (.errorMessageLength, [], handler)
      else if ¬ PartOk .all part sect then (.errorPart, [], handler)
      else if body.length + 11 ≠ setLength .all part sect then (.errorMessageLength, [], handler)
      else
        let r := setOutcome device sect m.userErrorIgnoreModeEnabled block sectIndex
          (partValues m sect part) handler
        (r.1.getD .ack, r.2) := by
  rw [Members.setAnswer, h.decoded]
  by_cases hshort : body.length + 11 < 13
  · simp only [if_pos hshort]
  by_cases hpart : PartOk .all part sect
  · by_cases hlen : body.length + 11 = setLength .all part sect
    · obtain ⟨hamount, _, hblock, hsectIndex, hsect⟩ := h.marked (body.length + 11)
      simp only [if_neg hshort, if_neg (not_not.mpr hpart), if_neg (not_not.mpr hlen)]
      rw [Members.setResult, if_neg (by rw [hamount]; simp), h.setValues, Members.sets, hblock,
        hsectIndex, hsect]
      rfl
    · simp only [if_neg hshort, if_neg (not_not.mpr hpart), if_pos hlen]
  · simp only [if_neg hshort, if_pos hpart]

/-- The answer to a request to set a single value. -/
theorem ReceivesSet.answer_single {handler : η}
    (h : ReceivesSet device m part .single block sectIndex sect body) :
    m.setAnswer device (body.length + 11) handler =
      if body.length + 11 < 13 then (.errorMessageLength, [], handler)
      else if ¬ PartOk .single part sect then (.errorPart, [], handler)
      else if body.length + 11 ≠ stdReqMinMsgSize then (.errorMessageLength, [], handler)
      else if ¬ m.valueAt 0 < sect.numberOfParameters then (.errorIndex, [], handler)
      else
        let r := setOutcome device sect m.userErrorIgnoreModeEnabled block sectIndex
          [(m.valueAt 0, m.valueAt 1)] handler
        (r.1.getD .ack, r.2) := by
  rw [Members.setAnswer, h.decoded]
  by_cases hshort : body.length + 11 < 13
  · simp only [if_pos hshort]
  by_cases hpart : PartOk .single part sect
  · by_cases hlen : body.length + 11 = stdReqMinMsgSize
    · have hset : body.length + 11 = setLength .single part sect := hlen
      simp only [if_neg hshort, if_neg (not_not.mpr hpart), if_neg (not_not.mpr hset),
        if_neg (not_not.mpr hlen)]
      obtain ⟨hamount, _, hblock, hsectIndex, hsect⟩ := h.marked (body.length + 11)
      obtain ⟨hindex, hvalue⟩ := h.marked_single (body.length + 11)
      rw [Members.setResult, Members.checkParameterIndex, Members.setValues, if_pos hamount,
        Members.sets, hamount, hindex, hvalue, hblock, hsectIndex, hsect]
      by_cases hi : m.valueAt 0 < sect.numberOfParameters
      · rw [if_neg (by simp [hi]), if_neg (not_not.mpr hi)]
        rfl
      · rw [if_pos (by simp [hi]), if_pos hi]
    · have hset : ¬ body.length + 11 = setLength .single part sect := hlen
      simp only [if_neg hshort, if_neg (not_not.mpr hpart), if_pos hset, if_pos hlen]
  · simp only [if_neg hshort, if_pos hpart]

theorem parts_toNat : sect.parts.toNat =
    (sect.numberOfParameters.toNat / 32 +
      if sect.numberOfParameters.toNat % 32 ≠ 0 then 1 else 0) % 256 := UInt8.toNat_ofNat'

/-- `generate_message_length` of a SET All request, case by case. -/
theorem setLength_all : setLength .all part sect =
    if sect.numberOfParameters.toNat ≤ 32 then 2 * sect.numberOfParameters.toNat + 11
    else if part.toNat + 1 = sect.parts.toNat then
      (2 * (sect.numberOfParameters.toNat - 32 * part.toNat) % 2 ^ 16 + 11) % 2 ^ 16
    else 75 := by
  have hn := sect.numberOfParameters.toNat_lt
  have hparts : sect.parts.toNat = _ := parts_toNat
  have hp := part.toNat_lt
  unfold setLength
  rw [if_neg (by decide)]
  by_cases hsmall : sect.numberOfParameters.toNat ≤ 32
  · have hle : ¬ sect.numberOfParameters.toNat > paramsPerMessage := not_lt.mpr hsmall
    simp only [if_neg hle, if_pos hsmall, bytesPerValue, indexByte]
    omega
  · have hgt : sect.numberOfParameters.toNat > paramsPerMessage := not_le.mp hsmall
    simp only [if_pos hgt, if_neg hsmall]
    by_cases hlast : part.toNat + 1 = sect.parts.toNat
    · simp only [if_pos hlast]
      simp only [← hlast, bytesPerValue, indexByte, paramsPerMessage]
      split at hparts <;> omega
    · simp only [if_neg hlast, bytesPerValue, indexByte, paramsPerMessage]
      omega

/-- The number of values in a part, as the loop counts them. -/
def partSize (sect : Section) (part : UInt8) : Nat :=
  min paramsPerMessage (sect.numberOfParameters.toNat - paramsPerMessage * part.toNat)

/-- A part that the section has and that is no selector, with another number of values. -/
def Misfits (amount : Amount) (part : UInt8) (sect : Section) (body : List UInt8) : Prop :=
  if amount = .all then
    paramsPerMessage * part.toNat < sect.numberOfParameters.toNat ∧ part ≠ partAllMessages ∧
      part ≠ partAllMessagesWithAck ∧ body.length ≠ 2 * partSize sect part
  else part = 0 ∧ body.length ≠ 4

/-- The number of parts has wrapped below the part, or the part is the last of the wrapped number
and the length of the values after it has wrapped as well. -/
def NarrowMisfit (amount : Amount) (part : UInt8) (sect : Section) (body : List UInt8) : Prop :=
  amount = .all ∧ Misfits amount part sect body ∧ 2 ≤ body.length ∧
    (sect.parts ≤ part ∨ part.toNat + 1 = sect.parts.toNat ∧
      2 ^ 15 < sect.numberOfParameters.toNat - paramsPerMessage * part.toNat ∧
      body.length = 2 * (sect.numberOfParameters.toNat - paramsPerMessage * part.toNat - 2 ^ 15))

/-- An accepted part is one of the section. -/
theorem PartOk.lt (h : PartOk .all part sect) :
    paramsPerMessage * part.toNat < sect.numberOfParameters.toNat := by
  have hp := h.2.2
  rw [if_pos rfl, UInt8.lt_iff_toNat_lt, parts_toNat] at hp
  simp only [paramsPerMessage]
  split at hp <;> omega

/-- An accepted length is the one of the part or a wrapped one. -/
theorem length_of_accepted (hp : PartOk .all part sect)
    (hl : body.length + 11 = setLength .all part sect) (hfits : body.length + 11 ≤ maxMessageSize)
    (h2 : 2 ≤ body.length) : body.length = 2 * partSize sect part ∨
      part.toNat + 1 = sect.parts.toNat ∧
      2 ^ 15 < sect.numberOfParameters.toNat - paramsPerMessage * part.toNat ∧
      body.length =
        2 * (sect.numberOfParameters.toNat - paramsPerMessage * part.toNat - 2 ^ 15) := by
  have hlt := hp.lt
  have hpart := hp.2.2
  have hn := sect.numberOfParameters.toNat_lt
  have hparts : sect.parts.toNat = _ := parts_toNat
  rw [if_pos rfl, UInt8.lt_iff_toNat_lt] at hpart
  rw [setLength_all] at hl
  simp only [partSize, paramsPerMessage, maxMessageSize_eq] at hlt hfits ⊢
  split at hl
  · omega
  · split at hl
    · split at hparts <;> omega
    · split at hparts <;> omega

theorem accepted_of_wrapped (hlast : part.toNat + 1 = sect.parts.toNat)
    (hn : 2 ^ 15 < sect.numberOfParameters.toNat - paramsPerMessage * part.toNat)
    (hl : body.length =
      2 * (sect.numberOfParameters.toNat - paramsPerMessage * part.toNat - 2 ^ 15))
    (hfits : body.length + 11 ≤ maxMessageSize) :
    body.length + 11 = setLength .all part sect := by
  have hlt := sect.numberOfParameters.toNat_lt
  rw [setLength_all, if_pos hlast]
  simp only [paramsPerMessage, maxMessageSize_eq] at hn hl hfits
  rw [if_neg (by omega)]
  omega

/-- The pairs of a frame before its end byte, with the parameters they are for. -/
def framePairs (amount : Amount) (part : UInt8) (body : List UInt8) : List (UInt16 × UInt16) :=
  if amount = .all then
    (List.range (body.length / 2)).map fun k =>
      (UInt16.ofNat (paramsPerMessage * part.toNat + k),
        merge14Bit (body.getD (2 * k) 0) (body.getD (2 * k + 1) 0))
  else
    [(merge14Bit (body.getD 0 0) (body.getD 1 0), merge14Bit (body.getD 2 0) (body.getD 3 0))]

/-- The calls that set these pairs in their block and section. -/
def frameCalls (amount : Amount) (part block sectIndex : UInt8) (body : List UInt8) :
    List (UInt8 × UInt8 × UInt16 × UInt16) :=
  (framePairs amount part body).map fun pair => (block, sectIndex, pair)

/-- A request sets pairs of its frame in order, an acknowledged one all of them, and one with the
wrong number of values none. -/
structure SetsExactly (id : ManufacturerId) (amount : Amount) (part block sectIndex : UInt8)
    (sect : Section) (body : List UInt8) (es : List Event) : Prop where
  ordered : setCalls es <+: frameCalls amount part block sectIndex body
  complete : ∀ answer ∈ answers es, answer.getD statusByte 0 = Status.ack.toByte →
    setCalls es = frameCalls amount part block sectIndex body
  refused : Misfits amount part sect body →
    answers es = [(setFrame id part amount block sectIndex body).set statusByte
      Status.errorMessageLength.toByte] ∧ setCalls es = []

/-- The answer's status. -/
theorem getD_set_status {id : ManufacturerId} (st : Status) :
    ((setFrame id part amount block sectIndex body).set statusByte st.toByte).getD statusByte 0 =
      st.toByte := by
  simp [setFrame]

theorem ReceivesSet.valueAt {k : Nat}
    (h : ReceivesSet device m part amount block sectIndex sect body)
    (hk : 2 * k + 1 < body.length) :
    m.valueAt k = merge14Bit (body.getD (2 * k) 0) (body.getD (2 * k + 1) 0) := by
  rw [Members.valueAt, h.bodyAt (by omega), Nat.add_assoc, h.bodyAt hk]

/-- With the number of values of the part, the loop reads those of the frame. -/
theorem ReceivesSet.partValues (h : ReceivesSet device m part .all block sectIndex sect body)
    (hl : body.length = 2 * partSize sect part) :
    partValues m sect part = framePairs .all part body := by
  have hc : body.length / 2 = partSize sect part := by omega
  rw [framePairs, if_pos rfl, hc, SysExConf.partValues]
  apply List.map_congr_left
  intro k hk
  rw [List.mem_range] at hk
  have hk' : k < partSize sect part := hk
  rw [h.valueAt (by omega)]

/-- A request that is refused before any value is set. -/
theorem setsExactly_of_refused (status : Status) (hack : status ≠ .ack) (hcalls : setCalls es = [])
    (hanswers : answers es = [(setFrame device.manufacturerId part amount block sectIndex body).set
      statusByte status.toByte]) :
    SetsExactly device.manufacturerId amount part block sectIndex sect body es ↔
      (Misfits amount part sect body → status = .errorMessageLength) := by
  constructor
  · intro h hm
    have hsame := (h.refused hm).1
    rw [hanswers, List.singleton_inj] at hsame
    have hbyte := congrArg (List.getD · statusByte 0) hsame
    simp only [getD_set_status] at hbyte
    exact Status.toByte_inj.mp hbyte
  · intro h
    refine ⟨by simp [hcalls], ?_, ?_⟩
    · intro answer ha hst
      rw [hanswers, List.mem_singleton] at ha
      rw [ha, getD_set_status] at hst
      exact absurd (Status.toByte_inj.mp hst) hack
    · intro hm
      rw [h hm] at hanswers
      exact ⟨hanswers, hcalls⟩

/-- Values set one after the other are a prefix of the list, and the whole list if nothing stops. -/
theorem setsExactly_of_accepted {handler : η} {ignores : Bool}
    {r : Option Status × List Event × η}
    (hr : r = setOutcome device sect ignores block sectIndex (framePairs amount part body) handler)
    (hcalls : setCalls es = setCalls r.2.1)
    (hanswers : answers es = [(setFrame device.manufacturerId part amount block sectIndex body).set
      statusByte (r.1.getD .ack).toByte])
    (hfit : ¬ Misfits amount part sect body) :
    SetsExactly device.manufacturerId amount part block sectIndex sect body es := by
  obtain ⟨_, hprefix, hall⟩ := @setCalls_setOutcome η device sect ignores block sectIndex
    (framePairs amount part body) handler
  rw [← hr] at hprefix hall
  refine ⟨hcalls ▸ hprefix, ?_, fun hm => absurd hm hfit⟩
  intro answer ha hst
  rw [hanswers, List.mem_singleton] at ha
  rw [ha, getD_set_status] at hst
  have hack := Status.toByte_inj.mp hst
  rw [hcalls]
  apply hall
  rcases hstop : r.1 with _ | status
  · rfl
  · rw [hstop, Option.getD_some] at hack
    exact absurd (hr ▸ hstop.trans (congrArg some hack)) setOutcome_ne_ack

section Whole

variable [Zephyr]

theorem setCalls_responseEvents {handler : η} :
    setCalls (responseEvents device frame handler).1 = [] ∧
      answers (responseEvents device frame handler).1 = [frame] := by
  obtain ⟨hcalls, hanswers⟩ :=
    @setCalls_sendEach η device (sysex7Packets 0 (payloadOf frame)) handler
  exact ⟨hcalls, congrArg (frame :: ·) hanswers⟩

/-- The calls and the answers of a request to set values. -/
theorem newEvents_request (h : SetRequest device w.ram size) :
    let r := w.ram.setAnswer device size w.handler
    let es := newEvents (handleRequest device size) w
    setCalls es = setCalls r.2.1 ∧ answers es = answers r.2.1 ++
      [(w.ram.responseArray.toList.take size).set statusByte r.1.toByte] := by
  intro r es
  apply newEvents_of_wpf (P := fun es => setCalls es = _ ∧ answers es = _)
  refine wpf_of_never (handleRequest_set h) ?_
  intro _ t ht
  refine ⟨_, ht.trace.trans (List.append_assoc ..), ?_, ?_⟩
  · rw [setCalls_append, setCalls_responseEvents.1, List.append_nil]
    rfl
  · rw [answers_append, setCalls_responseEvents.2]
    rfl

theorem newEvents_set (h : ReceivesSet device w.ram part amount block sectIndex sect body) :
    let r := w.ram.setAnswer device (body.length + 11) w.handler
    let es := newEvents (handleRequest device (body.length + 11)) w
    setCalls es = setCalls r.2.1 ∧ answers es = answers r.2.1 ++
      [(setFrame device.manufacturerId part amount block sectIndex body).set statusByte
        r.1.toByte] := by
  intro r es
  obtain ⟨hcalls, hanswers⟩ := newEvents_request h.setRequest
  rw [h.held] at hanswers
  exact ⟨hcalls, hanswers⟩

/-- Unless a narrow counter lets another number of values pass, a request for a single value sets the
one of its frame. -/
theorem setsExactly_single
    (h : ReceivesSet device w.ram part .single block sectIndex sect body) :
    SetsExactly device.manufacturerId .single part block sectIndex sect body
      (newEvents (handleRequest device (body.length + 11)) w) := by
  obtain ⟨hcalls, hanswers⟩ := newEvents_set h
  rw [h.answer_single] at hcalls hanswers
  by_cases hshort : body.length + 11 < 13
  · rw [if_pos hshort] at hcalls hanswers
    exact (setsExactly_of_refused .errorMessageLength (by decide) hcalls hanswers).mpr fun _ => rfl
  rw [if_neg hshort] at hcalls hanswers
  by_cases hpart : PartOk .single part sect
  · rw [if_neg (not_not.mpr hpart)] at hcalls hanswers
    by_cases hlen : body.length + 11 = stdReqMinMsgSize
    · have hbody : body.length = 4 := by
        simp only [stdReqMinMsgSize, indexByte, bytesPerValue] at hlen
        omega
      have hfit : ¬ Misfits .single part sect body := fun hm => (hm.2 hbody).elim
      rw [if_neg (not_not.mpr hlen)] at hcalls hanswers
      by_cases hindex : w.ram.valueAt 0 < sect.numberOfParameters
      · rw [if_neg (not_not.mpr hindex)] at hcalls hanswers
        have hpairs : [(w.ram.valueAt 0, w.ram.valueAt 1)] = framePairs .single part body := by
          rw [h.valueAt (by omega), h.valueAt (by omega)]
          rfl
        rw [hpairs] at hcalls hanswers
        rw [setCalls_setOutcome.1, List.nil_append] at hanswers
        exact setsExactly_of_accepted rfl hcalls hanswers hfit
      · rw [if_pos hindex] at hcalls hanswers
        exact (setsExactly_of_refused .errorIndex (by decide) hcalls hanswers).mpr fun hm => (hfit hm).elim
    · rw [if_pos hlen] at hcalls hanswers
      exact (setsExactly_of_refused .errorMessageLength (by decide) hcalls hanswers).mpr fun _ => rfl
  · rw [if_pos hpart] at hcalls hanswers
    refine (setsExactly_of_refused .errorPart (by decide) hcalls hanswers).mpr ?_
    rintro ⟨rfl, _⟩
    exact (hpart ⟨by decide, by decide, rfl⟩).elim

omit [Zephyr] in
/-- A loop with a value to set either sets one or refuses the first. -/
theorem setOutcome_of_no_call {handler : η} {ignores : Bool}
    {value : UInt16 × UInt16} {values : List (UInt16 × UInt16)}
    (h : setCalls (setOutcome device sect ignores block sectIndex (value :: values) handler).2.1 =
      []) :
    (setOutcome device sect ignores block sectIndex (value :: values) handler).1 =
      some .errorNewValue := by
  by_cases hv : sect.Accepts value.2
  · simp only [setOutcome, if_pos hv] at h
    split at h <;> simp [setCalls] at h
  · simp only [setOutcome, if_neg hv]

omit [Zephyr] in
/-- A narrow misfit is none of a part that the wrapped number of parts refuses, nor of a length that
the wrapped computation refuses. -/
theorem narrowMisfit_of_refused (hfits : body.length + 11 ≤ maxMessageSize)
    (h : NarrowMisfit .all part sect body) (hp : PartOk .all part sect) :
    body.length + 11 = setLength .all part sect := by
  obtain ⟨_, _, _, hover | ⟨hlast, hn, hl⟩⟩ := h
  · have hlt := hp.2.2
    rw [if_pos rfl] at hlt
    exact absurd hlt (UInt8.not_lt.mpr hover)
  · exact accepted_of_wrapped hlast hn hl hfits

theorem setsExactly_all (h : ReceivesSet device w.ram part .all block sectIndex sect body) :
    SetsExactly device.manufacturerId .all part block sectIndex sect body
      (newEvents (handleRequest device (body.length + 11)) w) ↔
      ¬ NarrowMisfit .all part sect body := by
  obtain ⟨hcalls, hanswers⟩ := newEvents_set h
  rw [h.answer_all] at hcalls hanswers
  by_cases hshort : body.length + 11 < 13
  · rw [if_pos hshort] at hcalls hanswers
    rw [setsExactly_of_refused .errorMessageLength (by decide) hcalls hanswers]
    refine iff_of_true (fun _ => rfl) ?_
    rintro ⟨_, _, h2, _⟩
    omega
  have h2 : 2 ≤ body.length := by omega
  rw [if_neg hshort] at hcalls hanswers
  by_cases hpart : PartOk .all part sect
  · rw [if_neg (not_not.mpr hpart)] at hcalls hanswers
    by_cases hlen : body.length + 11 = setLength .all part sect
    · rw [if_neg (not_not.mpr hlen)] at hcalls hanswers
      rw [setCalls_setOutcome.1, List.nil_append] at hanswers
      by_cases hl : body.length = 2 * partSize sect part
      · have hfit : ¬ Misfits .all part sect body := fun hm => hm.2.2.2 hl
        rw [h.partValues hl] at hcalls hanswers
        exact iff_of_true (setsExactly_of_accepted rfl hcalls hanswers hfit)
          fun hn => hfit hn.2.1
      · have hm : Misfits .all part sect body := ⟨hpart.lt, hpart.1, hpart.2.1, hl⟩
        have hwrapped := (length_of_accepted hpart hlen h.fits h2).resolve_left hl
        refine iff_of_false ?_ (not_not.mpr ⟨rfl, hm, h2, .inr hwrapped⟩)
        intro hs
        obtain ⟨hanswer, hnone⟩ := hs.refused hm
        have hlt := hpart.lt
        obtain ⟨value, values, hv⟩ : ∃ value values,
            SysExConf.partValues w.ram sect part = value :: values := by
          apply List.exists_cons_of_length_pos
          simp only [SysExConf.partValues, List.length_map, List.length_range, paramsPerMessage]
            at hlt ⊢
          omega
        rw [hv] at hcalls hanswers
        have hstop := setOutcome_of_no_call (hcalls.symm.trans hnone)
        simp only [hstop, Option.getD_some, hanswer, List.singleton_inj] at hanswers
        have hbyte := congrArg (List.getD · statusByte 0) hanswers
        simp only [getD_set_status] at hbyte
        exact absurd (Status.toByte_inj.mp hbyte) (by decide)
    · rw [if_pos hlen] at hcalls hanswers
      rw [setsExactly_of_refused .errorMessageLength (by decide) hcalls hanswers]
      exact iff_of_true (fun _ => rfl) fun hn => hlen (narrowMisfit_of_refused h.fits hn hpart)
  · rw [if_pos hpart] at hcalls hanswers
    rw [setsExactly_of_refused .errorPart (by decide) hcalls hanswers]
    constructor
    · rintro hs ⟨_, hm, _⟩
      exact absurd (hs hm) (by decide)
    · intro hn hm
      refine (hn ⟨rfl, hm, h2, .inl ?_⟩).elim
      rw [← UInt8.not_lt]
      intro hlt
      exact hpart ⟨hm.2.1, hm.2.2.1, by rwa [if_pos rfl]⟩

/-- A request sets exactly the values of its frame, unless the number of parts or the length that it
is checked against has wrapped. -/
theorem values_set_exactly_iff
    (h : ReceivesSet device w.ram part amount block sectIndex sect body) :
    SetsExactly device.manufacturerId amount part block sectIndex sect body
      (newEvents (handleRequest device (body.length + 11)) w) ↔
      ¬ NarrowMisfit amount part sect body := by
  rcases h.amount with rfl | rfl
  · exact iff_of_true (setsExactly_single h) fun hn => nomatch hn.1
  · exact setsExactly_all h

end Whole

/-- A frame that sets all values of the first part of a section, received on an open connection. -/
def receivedAll (sect : Section) (body : List UInt8) : World Unit :=
  { ram := { ({} : Members).pushedAll (setFrame ackDevice.manufacturerId 0 .all 0 0 body) with
      configurationEnabled := true, layout := [⟨[sect]⟩] }
    handler := (), trace := [] }

theorem receivesSet_receivedAll (sect : Section) (body : List UInt8)
    (hheld : (receivedAll sect body).ram.responseArray.toList.take (body.length + 11) =
      setFrame ackDevice.manufacturerId 0 .all 0 0 body)
    (hfits : body.length + 11 ≤ maxMessageSize) :
    ReceivesSet ackDevice (receivedAll sect body).ram 0 .all 0 0 sect body :=
  ⟨hheld, hfits, rfl, ⟨_, rfl, rfl⟩, .inr rfl⟩

theorem values_set_exactly_example :
    SetsExactly ackDevice.manufacturerId .all 0 0 0 ⟨2, 0, 0⟩ [1, 2, 3, 4]
      (newEvents (handleRequest ackDevice 15) (receivedAll ⟨2, 0, 0⟩ [1, 2, 3, 4])) :=
  (values_set_exactly_iff (receivesSet_receivedAll _ _ (by decide +kernel) (by decide +kernel))).mpr
    (by rintro ⟨_, ⟨_, _, _, hl⟩, _⟩; exact hl rfl)

/-- With 32769 parameters the first part is taken for the last one, of a single value, while the
loop reads 32. -/
theorem overlong_section_set_past_frame :
    ¬ SetsExactly ackDevice.manufacturerId .all 0 0 0 ⟨32769, 0, 0⟩ [1, 2]
      (newEvents (handleRequest ackDevice 13) (receivedAll ⟨32769, 0, 0⟩ [1, 2])) := by
  have hcalls : (setCalls (newEvents (handleRequest ackDevice 13)
      (receivedAll ⟨32769, 0, 0⟩ [1, 2]))).length = 32 := by decide +kernel
  intro h
  have hone := h.ordered.length_le
  rw [hcalls] at hone
  exact absurd hone (by decide +kernel)

end Zlibs.SysExConf
