import Zlibs.SysExConf.Rules

/-! What `handle_request` and `decode_standard_request` make of the bytes at the start of the array. -/
namespace Zlibs.SysExConf
open Lib Midi

variable {η : Type} {device : Device η} {m : Members} {w : World η} {size : Nat}
  {E : Fault → World η → Prop}

namespace Members

/-- The fields before the parameter index. -/
def header (m : Members) : DecodedRequest :=
  { m.decodedRequest with
    part := m.byteAt partByte, wish := .ofByte (m.byteAt wishByte),
    amount := .ofByte (m.byteAt amountByte), block := m.byteAt blockByte,
    sect := m.byteAt sectionByte }

def withHeader (m : Members) : Members := { m with decodedRequest := m.header }

/-- The decoded request with its index and new value. -/
def operands (m : Members) : DecodedRequest :=
  let d := m.decodedRequest
  if d.amount = .single then
    { d with
      index := merge14Bit (m.byteAt indexByte) (m.byteAt (indexByte + 1)),
      newValue :=
        if d.wish = .set then
          merge14Bit (m.byteAt (indexByte + bytesPerValue))
            (m.byteAt (indexByte + bytesPerValue + 1))
        else d.newValue }
  else d

/-- The request that the first `size` bytes stand for, or the status that refuses it. -/
def decoded (m : Members) (size : Nat) : Except Status DecodedRequest :=
  if size < stdReqMinMsgSize - bytesPerValue then .error .errorMessageLength
  else if !m.configurationEnabled then .error .errorConnection
  else if !m.withHeader.checkWish then .error .errorWish
  else if !m.withHeader.checkBlock then .error .errorBlock
  else if !m.withHeader.checkSection then .error .errorSection
  else if !m.withHeader.checkAmount then .error .errorAmount
  else if !m.withHeader.checkPart then .error .errorPart
  else if size ≠ m.withHeader.generateMessageLength then .error .errorMessageLength
  else .ok m.withHeader.operands

@[simp] theorem operands_wish : m.operands.wish = m.decodedRequest.wish := by
  simp only [operands]
  split <;> rfl

@[simp] theorem operands_amount : m.operands.amount = m.decodedRequest.amount := by
  simp only [operands]
  split <;> rfl

@[simp] theorem operands_block : m.operands.block = m.decodedRequest.block := by
  simp only [operands]
  split <;> rfl

@[simp] theorem operands_sect : m.operands.sect = m.decodedRequest.sect := by
  simp only [operands]
  split <;> rfl

@[simp] theorem operands_part : m.operands.part = m.decodedRequest.part := by
  simp only [operands]
  split <;> rfl

/-- The checks that an accepted request has passed. -/
structure Accepts (m : Members) (size : Nat) (d : DecodedRequest) : Prop where
  operands : d = m.withHeader.operands
  long : stdReqMinMsgSize - bytesPerValue ≤ size
  enabled : m.configurationEnabled = true
  wish : m.withHeader.checkWish = true
  block : m.withHeader.checkBlock = true
  sect : m.withHeader.checkSection = true
  amount : m.withHeader.checkAmount = true
  part : m.withHeader.checkPart = true
  length : size = m.withHeader.generateMessageLength

theorem accepts_of_decoded {d : DecodedRequest} (h : m.decoded size = .ok d) :
    m.Accepts size d := by
  unfold decoded at h
  split_ifs at h with h1 h2 h3 h4 h5 h6 h7 h8
  simp only [Bool.not_eq_true', Bool.not_eq_false] at h2 h3 h4 h5 h6 h7
  exact ⟨(Except.ok.inj h).symm, not_lt.mp h1, h2, h3, h4, h5, h6, h7, not_not.mp h8⟩

/-- The block and the section of the decoded request exist. -/
theorem checks_of_located {blk : Block} {sect : Section}
    (hblk : m.layout[m.decodedRequest.block.toNat]? = some blk)
    (hsect : blk.sections[m.decodedRequest.sect.toNat]? = some sect) :
    m.checkBlock = true ∧ m.checkSection = true ∧ m.requestedSection = sect := by
  have hget : m.layout.getD m.decodedRequest.block.toNat ⟨[]⟩ = blk := by simp [hblk]
  refine ⟨decide_eq_true (List.getElem?_eq_some_iff.mp hblk).1, ?_, ?_⟩
  · rw [checkSection, hget]
    exact decide_eq_true (List.getElem?_eq_some_iff.mp hsect).1
  · rw [requestedSection, hget]
    simp [hsect]

theorem Accepts.kind {d : DecodedRequest} (h : m.Accepts size d) :
    d.amount = .single ∨ d.amount = .all := by
  have ha := h.amount
  rw [h.operands, operands_amount]
  cases hc : m.withHeader.decodedRequest.amount with
  | single => exact .inl rfl
  | all => exact .inr rfl
  | invalid => simp [checkAmount, hc] at ha

/-- A frame that `handle_request` answers. -/
structure Addressed (id : ManufacturerId) (m : Members) (size : Nat) : Prop where
  layout : m.layout ≠ []
  long : specialReqMsgSize ≤ size
  start : m.byteAt startByte = sysExStart
  terminated : m.byteAt (size - 1) = sysExEnd
  id1 : m.byteAt idByte1 = id.id1
  id2 : m.byteAt idByte2 = id.id2
  id3 : m.byteAt idByte3 = id.id3

/-- After `reset_decoded_request`. -/
def cleared (m : Members) : Members :=
  { m with
    decodedRequest :=
      { status := .ack, wish := .invalid, amount := .invalid, block := 0, sect := 0, part := 0,
        index := 0, newValue := 0 } }

/-- Where `handle_request` starts to answer a frame. -/
def begun (m : Members) (size : Nat) : Members := { m.cleared with responseCounter := size - 1 }

/-- A status in the frame, and any decoded request. -/
def marked (m : Members) (status : Status) (d : DecodedRequest) : Members :=
  { m.write statusByte status.toByte with decodedRequest := d }

@[simp] theorem cleared_responseCounter : m.cleared.responseCounter = m.responseCounter := rfl

@[simp] theorem begun_responseCounter : (m.begun size).responseCounter = size - 1 := rfl

@[simp] theorem marked_responseCounter {status : Status} {d : DecodedRequest} :
    (m.marked status d).responseCounter = m.responseCounter := rfl

@[simp] theorem marked_decodedRequest {status : Status} {d : DecodedRequest} :
    (m.marked status d).decodedRequest = d := rfl

@[simp] theorem marked_layout {status : Status} {d : DecodedRequest} :
    (m.marked status d).layout = m.layout := rfl

@[simp] theorem withHeader_layout : m.withHeader.layout = m.layout := rfl

theorem same_begun : Same m (m.begun size) := ⟨rfl, rfl, rfl, rfl, rfl⟩

theorem same_marked {status : Status} {d : DecodedRequest} : Same m (m.marked status d) :=
  ⟨rfl, rfl, rfl, rfl, rfl⟩

@[simp] theorem byteAt_begun {i : Nat} : (m.begun size).byteAt i = m.byteAt i := rfl

end Members

theorem wpf_resetDecodedRequest {Q : Unit → World η → Prop} :
    wpf resetDecodedRequest Q E w ↔ Q () { w with ram := w.ram.cleared } := Iff.rfl

theorem wpf_decodeOperands {Q : Unit → World η → Prop} : wpf decodeOperands Q E w ↔
    Q () { w with ram := { w.ram with decodedRequest := w.ram.operands } } := by
  rw [decodeOperands, wpf_bind, wpf_get, Members.operands]
  by_cases ha : w.ram.decodedRequest.amount = .single
  · rw [if_pos ha, if_pos ha, wpf_bind, wpf_readResponse (by decide), wpf_bind,
      wpf_readResponse (by decide), wpf_bind, wpf_modifyDecoded]
    by_cases hw : w.ram.decodedRequest.wish = .set
    · rw [if_pos hw, if_pos hw, wpf_bind, wpf_readResponse (by decide), wpf_bind,
        wpf_readResponse (by decide), wpf_modifyDecoded]
      rfl
    · rw [if_neg hw, if_neg hw, wpf_pure]
  · rw [if_neg ha, if_neg ha, wpf_pure]

theorem operands_write {byte : UInt8} : (m.write statusByte byte).operands = m.operands := by
  simp [Members.operands, Members.byteAt_write_other]

/-- A decoding step ends as the outcome says. -/
def Decides (x : SysExM η Bool) (outcome : Except Status DecodedRequest) (w : World η) : Prop :=
  wpf x (fun accepted t =>
    match outcome with
    | .error status => accepted = false ∧ ∃ d, t = { w with ram := w.ram.marked status d }
    | .ok d => accepted = true ∧ t = { w with ram := w.ram.marked .ack d }) Never w

theorem decides_ite {c : Prop} [Decidable c] {x : SysExM η Bool} {status : Status}
    {outcome : Except Status DecodedRequest} (h : ¬ c → Decides x outcome w) :
    Decides (if c then refuse status else x) (if c then .error status else outcome) w := by
  by_cases hc : c
  · rw [if_pos hc, if_pos hc, Decides, wpf_refuse]
    exact ⟨rfl, w.ram.decodedRequest, rfl⟩
  · rw [if_neg hc, if_neg hc]
    exact h hc

theorem decode_decides (hne : size ≠ specialReqMsgSize) :
    Decides (decodeStandardRequest size) (w.ram.decoded size) w := by
  rw [decodeStandardRequest, if_neg hne, Members.decoded]
  apply decides_ite
  intro _
  change Decides (if (!w.ram.configurationEnabled) = true then _ else _) _ w
  apply decides_ite
  intro _
  rw [Decides, wpf_bind, wpf_readResponse (by decide), wpf_bind, wpf_readResponse (by decide),
    wpf_bind, wpf_readResponse (by decide), wpf_bind, wpf_readResponse (by decide), wpf_bind,
    wpf_readResponse (by decide), wpf_bind, wpf_modifyDecoded, wpf_bind, wpf_get]
  change Decides (if (!w.ram.withHeader.checkWish) = true then _ else _) _
    { w with ram := w.ram.withHeader }
  apply decides_ite
  intro _
  apply decides_ite
  intro _
  apply decides_ite
  intro _
  apply decides_ite
  intro _
  apply decides_ite
  intro _
  apply decides_ite
  intro _
  rw [Decides, wpf_bind, wpf_setStatus, wpf_bind, wpf_decodeOperands, wpf_pure]
  refine ⟨rfl, ?_⟩
  rw [operands_write]
  rfl

theorem wpf_checkManufacturerId {Q : Bool → World η → Prop} :
    wpf (checkManufacturerId device) Q E w ↔
      Q (w.ram.byteAt idByte1 = device.manufacturerId.id1 ∧
        w.ram.byteAt idByte2 = device.manufacturerId.id2 ∧
        w.ram.byteAt idByte3 = device.manufacturerId.id3) w := by
  rw [checkManufacturerId, wpf_bind, wpf_readResponse (by decide), wpf_bind,
    wpf_readResponse (by decide), wpf_bind, wpf_readResponse (by decide), wpf_pure]

theorem wpf_checkStatus {Q : Bool → World η → Prop} : wpf checkStatus Q E w ↔
    Q (w.ram.byteAt statusByte = Status.request.toByte) w := by
  rw [checkStatus, wpf_bind, wpf_readResponse (by decide), wpf_pure]

variable [Zephyr]

/-- The world in which a frame is answered. -/
def World.asked (w : World η) (size : Nat) : World η :=
  { w with
    ram := w.ram.begun size,
    trace := w.trace ++ [.request (w.ram.responseArray.toList.take size)] }

/-- Answer the frame and send the response that is still to be sent. -/
def answer (device : Device η) (size : Nat) : SysExM η Unit := do
  if ← answerRequest device size then
    sendResponse device

theorem wpf_handleRequest {Q : Unit → World η → Prop} (hs : size ≤ maxMessageSize)
    (hignored : ¬ w.ram.Addressed device.manufacturerId size → ∀ m, w.ram.Same m →
      Q () { w with
        ram := m, trace := w.trace ++ [.request (w.ram.responseArray.toList.take size)] })
    (haddressed : w.ram.Addressed device.manufacturerId size →
      wpf (answer device size) Q E (w.asked size)) :
    wpf (handleRequest device size) Q E w := by
  rw [handleRequest, wpf_bind, wpf_get, wpf_bind, wpf_log]
  apply wpf_ite
  · intro he
    exact hignored (fun h => h.layout (by simpa using he)) w.ram .refl
  intro hlayout
  apply wpf_ite
  · intro he
    exact hignored (fun h => absurd h.long (by omega)) w.ram .refl
  intro hlong
  rw [wpf_bind, wpf_readResponse (by decide)]
  apply wpf_ite
  · intro he
    exact hignored (fun h => he h.start) w.ram .refl
  intro hstart
  have h8 : specialReqMsgSize = 8 := rfl
  rw [wpf_bind, wpf_readResponse (by omega)]
  apply wpf_ite
  · intro he
    exact hignored (fun h => he h.terminated) w.ram .refl
  intro hend
  rw [if_neg (by omega), wpf_bind, wpf_resetDecodedRequest, wpf_bind, wpf_modifyMembers, wpf_bind,
    wpf_checkManufacturerId]
  apply wpf_ite
  · intro he
    refine hignored (fun h => ?_) (w.ram.begun size) Members.same_begun
    simp only [Bool.not_eq_true', decide_eq_false_iff_not] at he
    exact he ⟨h.id1, h.id2, h.id3⟩
  · intro he
    simp only [Bool.not_eq_true', decide_eq_false_iff_not, not_not] at he
    obtain ⟨h1, h2, h3⟩ := he
    exact haddressed ⟨by simpa using hlayout, by omega, not_not.mp hstart, not_not.mp hend, h1, h2,
      h3⟩

theorem wpf_answer_badStatus {Q : Unit → World η → Prop}
    (h : w.ram.byteAt statusByte ≠ Status.request.toByte)
    (hq : wpf (sendResponse device) Q E
      { w with ram := w.ram.write statusByte Status.errorStatus.toByte }) :
    wpf (answer device size) Q E w := by
  rw [answer, wpf_bind, answerRequest, wpf_bind, wpf_checkStatus, decide_eq_false h,
    if_pos Bool.not_false, wpf_bind, wpf_setStatus, wpf_pure, if_pos rfl]
  exact hq

theorem wpf_answer_special {Q : Unit → World η → Prop}
    (h : w.ram.byteAt statusByte = Status.request.toByte)
    (hq : wpf (processSpecialRequest device) (fun _ => wpf (sendResponse device) Q E) E w) :
    wpf (answer device specialReqMsgSize) Q E w := by
  rw [answer, wpf_bind, answerRequest, wpf_bind, wpf_checkStatus, decide_eq_true h,
    Bool.not_true, if_neg Bool.false_ne_true, wpf_bind, decodeStandardRequest, if_pos rfl, wpf_pure,
    Bool.not_true, if_neg Bool.false_ne_true, if_pos rfl, wpf_bind]
  refine wpf_mono hq ?_ fun _ _ h => h
  intro _ t ht
  rw [wpf_pure, if_pos rfl]
  exact ht

/-- A standard request is refused with a status or processed. -/
theorem wpf_answerRequest_standard {Q : Bool → World η → Prop}
    (h : w.ram.byteAt statusByte = Status.request.toByte) (hne : size ≠ specialReqMsgSize)
    (herr : ∀ status d, w.ram.decoded size = .error status →
      Q true { w with ram := (w.ram.marked status d).cleared })
    (hok : ∀ d, w.ram.decoded size = .ok d →
      wpf (processStandardRequest device size)
        (fun done t => if done then Q false t else Q true { t with ram := t.ram.cleared }) E
        { w with ram := w.ram.marked .ack d }) :
    wpf (answerRequest device size) Q E w := by
  rw [answerRequest, wpf_bind, wpf_checkStatus, decide_eq_true h, Bool.not_true,
    if_neg Bool.false_ne_true]
  refine wpf_bind_of (decode_decides hne) ?_
  intro accepted t ht
  cases hd : w.ram.decoded size with
  | error status =>
    rw [hd] at ht
    obtain ⟨rfl, d, rfl⟩ := ht
    rw [if_pos Bool.not_false, wpf_bind, wpf_resetDecodedRequest, wpf_pure]
    exact herr status d hd
  | ok d =>
    rw [hd] at ht
    obtain ⟨rfl, rfl⟩ := ht
    rw [Bool.not_true, if_neg Bool.false_ne_true, if_neg hne, wpf_bind]
    refine wpf_mono (hok d hd) ?_ fun _ _ h => h
    rintro (_ | _) t ht
    · rw [if_pos Bool.not_false, wpf_bind, wpf_resetDecodedRequest, wpf_pure]
      exact ht
    · rw [Bool.not_true, if_neg Bool.false_ne_true, wpf_pure]
      exact ht

/-- The response to a request that is refused is still to be sent. -/
theorem wpf_answer_standard {Q : Unit → World η → Prop}
    (h : w.ram.byteAt statusByte = Status.request.toByte) (hne : size ≠ specialReqMsgSize)
    (herr : ∀ status d, w.ram.decoded size = .error status →
      wpf (sendResponse device) Q E { w with ram := (w.ram.marked status d).cleared })
    (hok : ∀ d, w.ram.decoded size = .ok d →
      wpf (processStandardRequest device size)
        (fun done t => if done then Q () t
          else wpf (sendResponse device) Q E { t with ram := t.ram.cleared }) E
        { w with ram := w.ram.marked .ack d }) :
    wpf (answer device size) Q E w := by
  rw [answer, wpf_bind]
  refine wpf_answerRequest_standard h hne (fun status d hd => ?_) fun d hd => ?_
  · rw [if_pos rfl]
    exact herr status d hd
  · refine wpf_mono (hok d hd) ?_ fun _ _ h => h
    rintro (_ | _) t ht
    · rw [if_neg Bool.false_ne_true, if_pos rfl]
      exact ht
    · rw [if_pos rfl, if_neg Bool.false_ne_true, wpf_pure]
      exact ht

end Zlibs.SysExConf
