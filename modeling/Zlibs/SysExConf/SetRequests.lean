import Zlibs.SysExConf.Frames

/-! Requests to set values, followed value by value to their response. -/
namespace Zlibs.SysExConf
open Lib Midi

variable {η : Type} {device : Device η} {m : Members} {w t : World η} {size : Nat}
  {sect : Section} {status : Status}

/-- What setting a list of values does: the status that stops it, if any, and the calls made. -/
def setOutcome (device : Device η) (sect : Section) (ignores : Bool) (block sectIndex : UInt8) :
    List (UInt16 × UInt16) → η → Option Status × List Event × η
  | [], handler => (none, [], handler)
  | (index, value) :: rest, handler =>
    if sect.Accepts value then
      let r := device.dataHandler.set block sectIndex index value handler
      let e := Event.set block sectIndex index value r.1
      if r.1 = .ack ∨ ignores = true then
        let (stopped, es, last) := setOutcome device sect ignores block sectIndex rest r.2
        (stopped, e :: es, last)
      else (some r.1, [e], r.2)
    else (some .errorNewValue, [], handler)

/-- A stop is none of an acknowledged request. -/
theorem setOutcome_ne_ack {ignores : Bool} {block sectIndex : UInt8}
    {values : List (UInt16 × UInt16)} {handler : η} :
    (setOutcome device sect ignores block sectIndex values handler).1 ≠ some .ack := by
  induction values generalizing handler with
  | nil => simp [setOutcome]
  | cons value rest ih =>
    obtain ⟨index, value⟩ := value
    simp only [setOutcome]
    split
    · split
      · exact ih
      · rename_i h
        simp only [not_or] at h
        simpa using h.1
    · simp

namespace Members

/-- The `k`-th pair of bytes of a frame. -/
def valueAt (m : Members) (k : Nat) : UInt16 :=
  merge14Bit (m.byteAt (indexByte + 2 * k)) (m.byteAt (indexByte + 2 * k + 1))

/-- The members after values have been set, with the status that stopped it. -/
def afterSets (m : Members) (stopped : Option Status) (value : UInt16) : Members :=
  let m' := { m with decodedRequest := { m.decodedRequest with newValue := value } }
  match stopped with
  | none => m'
  | some status => m'.write statusByte status.toByte

/-- What setting values at the decoded block and section does. -/
def sets (m : Members) (device : Device η) (values : List (UInt16 × UInt16)) (handler : η) :
    Option Status × List Event × η :=
  setOutcome device m.requestedSection m.userErrorIgnoreModeEnabled m.decodedRequest.block
    m.decodedRequest.sect values handler

theorem checkNewValue_iff :
    m.checkNewValue = true ↔ m.requestedSection.Accepts m.decodedRequest.newValue := by
  unfold checkNewValue Section.Accepts
  split <;> simp_all

end Members

/-- The end of a loop that sets values. -/
def SetsDone (w : World η) (r : Option Status × List Event × η) (done : Bool) (t : World η) :
    Prop :=
  done = r.1.isNone ∧ ∃ value,
    t = { ram := w.ram.afterSets r.1 value, handler := r.2.2, trace := w.trace ++ r.2.1 }

/-- One value, once it is decoded. -/
theorem setValue_outcome {index : UInt16}
    (hv : w.ram.requestedSection.Accepts w.ram.decodedRequest.newValue) :
    wpf (setValue device index)
      (SetsDone w (w.ram.sets device [(index, w.ram.decodedRequest.newValue)] w.handler))
      Never w := by
  rw [setValue, wpf_bind, wpf_get, wpf_bind, wpf_callSet]
  simp only [Members.sets, setOutcome, if_pos hv]
  apply wpf_ite
  · intro hr
    rw [if_pos (.inl hr), wpf_pure]
    exact ⟨rfl, w.ram.decodedRequest.newValue, rfl⟩
  intro hr
  rw [wpf_bind, wpf_get]
  apply wpf_ite
  · intro hi
    have hi' : w.ram.userErrorIgnoreModeEnabled = true := hi
    rw [if_pos (.inr hi'), wpf_pure]
    exact ⟨rfl, w.ram.decodedRequest.newValue, rfl⟩
  · intro hi
    have hi' : ¬ w.ram.userErrorIgnoreModeEnabled = true := hi
    rw [if_neg (not_or.mpr ⟨hr, hi'⟩), wpf_refuse]
    exact ⟨rfl, w.ram.decodedRequest.newValue, rfl⟩

/-- One value of a frame that sets all of a part. -/
theorem processSet_outcome {startIndex i : Nat} (ha : w.ram.decodedRequest.amount = .all)
    (hlo : startIndex ≤ i) (hi : i < startIndex + paramsPerMessage) :
    wpf (processSet device startIndex i)
      (SetsDone w (w.ram.sets device [(UInt16.ofNat i, w.ram.valueAt (i - startIndex))] w.handler))
      Never w := by
  have harray : ((i - startIndex) % 2 ^ 8 * bytesPerValue % 2 ^ 8 + indexByte) % 2 ^ 8 =
      indexByte + 2 * (i - startIndex) := by
    simp only [paramsPerMessage, bytesPerValue, indexByte] at hi ⊢
    omega
  have hmax : indexByte + 2 * (i - startIndex) + 1 < maxMessageSize := by
    simp only [paramsPerMessage, indexByte, maxMessageSize_eq] at hi ⊢
    omega
  rw [processSet, wpf_bind, wpf_get, if_neg (by simp [ha])]
  simp only [harray]
  rw [wpf_bind, wpf_readResponse (by omega), wpf_bind, wpf_readResponse hmax, wpf_bind,
    wpf_modifyDecoded, wpf_bind, wpf_get]
  apply wpf_ite
  · intro hv
    rw [Bool.not_eq_true', ← Bool.not_eq_true, Members.checkNewValue_iff] at hv
    have hv' : ¬ w.ram.requestedSection.Accepts (w.ram.valueAt (i - startIndex)) := hv
    rw [wpf_refuse, Members.sets, setOutcome, if_neg hv']
    refine ⟨rfl, w.ram.valueAt (i - startIndex), ?_⟩
    rw [List.append_nil]
    rfl
  · intro hv
    rw [Bool.not_eq_true', Bool.not_eq_false, Members.checkNewValue_iff] at hv
    exact setValue_outcome hv

/-- A list of values is set one after the other, up to the first that stops it. -/
theorem sets_cons {value : UInt16 × UInt16} {rest : List (UInt16 × UInt16)} {handler : η} :
    m.sets device (value :: rest) handler =
      let r := m.sets device [value] handler
      if r.1.isSome then r
      else
        let t := m.sets device rest r.2.2
        (t.1, r.2.1 ++ t.2.1, t.2.2) := by
  simp only [Members.sets, setOutcome]
  split
  · split <;> simp
  · simp

theorem processValues_outcome {startIndex : Nat} {indices : List Nat}
    (hw : w.ram.decodedRequest.wish = .set) (ha : w.ram.decodedRequest.amount = .all)
    (hi : ∀ i ∈ indices, startIndex ≤ i ∧ i < startIndex + paramsPerMessage) :
    wpf (processValues device startIndex indices)
      (SetsDone w (w.ram.sets device
        (indices.map fun i => (UInt16.ofNat i, w.ram.valueAt (i - startIndex))) w.handler))
      Never w := by
  induction indices generalizing w with
  | nil =>
    refine ⟨rfl, w.ram.decodedRequest.newValue, ?_⟩
    simp [Members.sets, setOutcome, Members.afterSets]
  | cons i rest ih =>
    obtain ⟨hlo, hhi⟩ := hi i (by simp)
    have hfirst : wpf (processValue device startIndex i) (SetsDone w
        (w.ram.sets device [(UInt16.ofNat i, w.ram.valueAt (i - startIndex))] w.handler)) Never w := by
      rw [processValue, wpf_bind, wpf_get, if_neg (by simp [hw])]
      exact processSet_outcome ha hlo hhi
    rw [processValues, List.map_cons, sets_cons]
    refine wpf_bind_of hfirst ?_
    rintro _ t ⟨rfl, value, rfl⟩
    generalize w.ram.sets device [(UInt16.ofNat i, w.ram.valueAt (i - startIndex))] w.handler = r
    rcases r with ⟨_ | status, es, handler⟩
    · -- the rest of the loop runs on members that differ in the new value only
      have hrest := @ih { ram := w.ram.afterSets none value, handler := handler,
                          trace := w.trace ++ es } hw ha fun j hj => hi j (by simp [hj])
      refine wpf_of_never hrest ?_
      rintro done u ⟨rfl, value', rfl⟩
      refine ⟨rfl, value', ?_⟩
      simp only [Option.isSome_none, Bool.false_eq_true, if_false, List.append_assoc]
      rfl
    · exact ⟨rfl, value, rfl⟩

namespace Members

/-- The parameters and the values of an accepted request to set them. -/
def setValues (m : Members) : List (UInt16 × UInt16) :=
  if m.decodedRequest.amount = .single then
    [(m.decodedRequest.index, m.decodedRequest.newValue)]
  else (partIndices m).map fun i => (UInt16.ofNat i, m.valueAt (i - startIndex m))

/-- The status and the calls with which an accepted request ends. -/
def setResult (m : Members) (device : Device η) (handler : η) : Status × List Event × η :=
  if m.decodedRequest.amount = .single ∧ m.checkParameterIndex = false then
    (.errorIndex, [], handler)
  else
    let r := m.sets device m.setValues handler
    (r.1.getD .ack, r.2)

/-- The same for the first `size` bytes, whether they are accepted or not. -/
def setAnswer (m : Members) (device : Device η) (size : Nat) (handler : η) :
    Status × List Event × η :=
  match (m.begun size).decoded size with
  | .error status => (status, [], handler)
  | .ok d => ((m.begun size).marked .ack d).setResult device handler

/-- The received frame ends with its end byte. -/
theorem take_terminated (h : 0 < size) (hs : size ≤ maxMessageSize)
    (hend : m.byteAt (size - 1) = sysExEnd) :
    m.responseArray.toList.take size = m.responseArray.toList.take (size - 1) ++ [sysExEnd] := by
  have hlt : size - 1 < m.responseArray.toList.length := by rw [length_array]; omega
  rw [show size = size - 1 + 1 by omega, List.take_add_one, List.getElem?_eq_getElem hlt,
    getElem_array, Nat.add_sub_cancel, hend]
  rfl

/-- The received frame with a status in it. -/
theorem take_marked (h4 : statusByte + 1 < size) (hs : size ≤ maxMessageSize)
    (hend : m.byteAt (size - 1) = sysExEnd) {byte : UInt8} :
    (m.write statusByte byte).responseArray.toList.take (size - 1) ++ [sysExEnd] =
      (m.responseArray.toList.take size).set statusByte byte := by
  rw [take_write, take_terminated (by omega) hs hend, List.set_append_left]
  rw [List.length_take, length_array]
  omega

end Members

theorem partIndices_bounds {i : Nat} (ha : m.decodedRequest.amount = .all)
    (h : i ∈ partIndices m) : startIndex m ≤ i ∧ i < startIndex m + paramsPerMessage := by
  simp only [partIndices, if_pos ha, List.mem_range'_1, gt_iff_lt] at h
  split at h <;> omega

theorem processValues_one {P : Bool → World η → Prop} {startIndex i : Nat}
    (h : wpf (processValue device startIndex i) P Never w) :
    wpf (processValues device startIndex [i]) P Never w := by
  rw [processValues]
  refine wpf_bind_of h ?_
  rintro (_ | _) t ht
  · exact ht
  · exact ht

/-- A request for a single parameter. -/
theorem processSet_single {startIndex i : Nat} (ha : w.ram.decodedRequest.amount = .single) :
    wpf (processSet device startIndex i)
      (fun done t => ∃ o, w.ram.setResult device w.handler = (o.1.getD .ack, o.2) ∧
        o.1 ≠ some .ack ∧ SetsDone w o done t) Never w := by
  rw [processSet, wpf_bind, wpf_get, if_pos ha]
  apply wpf_ite
  · intro hi
    have hresult : w.ram.setResult device w.handler = (.errorIndex, [], w.handler) :=
      if_pos ⟨ha, by simpa using hi⟩
    rw [wpf_refuse, hresult]
    refine ⟨(some .errorIndex, [], w.handler), rfl, by simp, rfl, w.ram.decodedRequest.newValue, ?_⟩
    simp [Members.afterSets]
  intro hi
  have hresult : w.ram.setResult device w.handler =
      (let r := w.ram.sets device w.ram.setValues w.handler; (r.1.getD .ack, r.2)) :=
    if_neg fun h => hi (by simp [h.2])
  have hvalues : w.ram.setValues =
      [(w.ram.decodedRequest.index, w.ram.decodedRequest.newValue)] := if_pos ha
  rw [hresult, hvalues]
  apply wpf_ite
  · intro hv
    rw [Bool.not_eq_true', ← Bool.not_eq_true, Members.checkNewValue_iff] at hv
    rw [wpf_refuse, Members.sets, setOutcome, if_neg hv]
    refine ⟨(some .errorNewValue, [], w.handler), rfl, by simp, rfl, w.ram.decodedRequest.newValue,
      ?_⟩
    simp [Members.afterSets]
  · intro hv
    rw [Bool.not_eq_true', Bool.not_eq_false, Members.checkNewValue_iff] at hv
    exact wpf_of_never (setValue_outcome hv) fun done t ht => ⟨_, rfl, setOutcome_ne_ack, ht⟩

/-- The value loop of an accepted request to set values. -/
theorem processValues_set (hw : w.ram.decodedRequest.wish = .set)
    (ha : w.ram.decodedRequest.amount = .single ∨ w.ram.decodedRequest.amount = .all) :
    wpf (processValues device (startIndex w.ram) (partIndices w.ram))
      (fun done t => ∃ o, w.ram.setResult device w.handler = (o.1.getD .ack, o.2) ∧
        o.1 ≠ some .ack ∧ SetsDone w o done t) Never w := by
  rcases ha with ha | ha
  · have hone : partIndices w.ram = [0] := by simp [partIndices, ha]
    rw [hone]
    apply processValues_one
    rw [processValue, wpf_bind, wpf_get, if_neg (by simp [hw])]
    exact processSet_single ha
  · rw [Members.setResult, if_neg (by simp [ha]), Members.setValues, if_neg (by simp [ha])]
    refine wpf_of_never (processValues_outcome hw ha fun i hi => partIndices_bounds ha hi) ?_
    intro done t ht
    exact ⟨_, rfl, setOutcome_ne_ack, ht⟩

section Whole

variable [Zephyr]

/-- The request is answered with a status, after the given events. -/
structure Responds (device : Device η) (w : World η) (frame : List UInt8) (status : Status)
    (es : List Event) (handler : η) (t : World η) : Prop where
  same : w.ram.Same t.ram
  left : t.handler =
    (responseEvents device (frame.set statusByte status.toByte) handler).2
  trace : t.trace = w.trace ++ es ++
    (responseEvents device (frame.set statusByte status.toByte) handler).1

/-- The frame is in the array, ready to be answered. -/
structure Received (m : Members) (size : Nat) : Prop where
  counter : m.responseCounter = size - 1
  long : specialReqMsgSize ≤ size
  fits : size ≤ maxMessageSize
  start : m.byteAt startByte = sysExStart
  terminated : m.byteAt (size - 1) = sysExEnd

theorem respond {es : List Event} {handler : η} (h : Received w.ram size)
    (hm : m.responseArray = (w.ram.write statusByte status.toByte).responseArray)
    (hc : m.responseCounter = w.ram.responseCounter) (hs : w.ram.Same m) :
    wpf (sendResponse device)
      (fun _ t => Responds device w (w.ram.responseArray.toList.take size) status es handler t)
      Never { ram := m, handler := handler, trace := w.trace ++ es } := by
  have hlong := h.long
  have hfits := h.fits
  simp only [specialReqMsgSize, wishByte] at hlong
  have hframe : m.frame ++ [sysExEnd] =
      (w.ram.responseArray.toList.take size).set statusByte status.toByte := by
    rw [Members.frame, hm, hc, h.counter]
    exact Members.take_marked (by simp only [statusByte]; omega) hfits h.terminated
  have h0 : m.byteAt startByte = sysExStart := by
    rw [Members.byteAt, hm]
    exact (Members.byteAt_write_other (by decide)).trans h.start
  have hcounter : m.responseCounter = size - 1 := hc.trans h.counter
  refine wpf_sendResponse (hcounter ▸ by omega) (hcounter ▸ by omega) h0 ?_
  refine ⟨hs.trans Members.same_pushed, ?_, ?_⟩
  · rw [hframe]
  · rw [hframe]

omit [Zephyr] in
/-- The status byte already is the one of an acknowledged request. -/
theorem write_ack (h : w.ram.byteAt statusByte = Status.ack.toByte) :
    w.ram.responseArray = (w.ram.write statusByte Status.ack.toByte).responseArray := by
  have hlt : statusByte < w.ram.responseArray.toList.length := by
    rw [Members.length_array]
    decide
  rw [← Vector.toList_inj, ← h, ← Members.getElem_array hlt]
  simp only [Members.write, Vector.toList_setIfInBounds, List.set_getElem_self]

/-- Only one part is processed, and the response is sent if its values have been set. -/
theorem wpf_processStandardRequest_set {P : Bool → World η → Prop} {E : Fault → World η → Prop}
    (hw : w.ram.decodedRequest.wish = .set)
    (hvalues : wpf (processValues device (startIndex w.ram) (partIndices w.ram))
      (fun done t => if done then wpf (sendResponse device) (fun _ => P true) E t else P false t)
      E w) : wpf (processStandardRequest device size) P E w := by
  have hread : ¬ ((w.ram.decodedRequest.wish = .backup ∨ w.ram.decodedRequest.wish = .get) ∧
      (w.ram.decodedRequest.part = partAllMessages ∨
        w.ram.decodedRequest.part = partAllMessagesWithAck)) := by simp [hw]
  rw [processStandardRequest, wpf_bind, wpf_get, wpf_bind]
  apply wpf_prepareResponse
  · intro hb
    rw [hw] at hb
    exact absurd hb (by decide)
  intro _
  simp only [decide_eq_false hread, decide_eq_false (fun h => hread (And.left h)), if_neg hread]
  rw [wpf_bind, show List.range 1 = [0] from rfl, processParts, wpf_bind, wpf_modifyMembers,
    wpf_bind, selectPart, if_neg Bool.false_ne_true, wpf_pure, wpf_bind, wpf_get, wpf_bind]
  refine wpf_mono hvalues ?_ fun _ _ he => he
  rintro (_ | _) t ht
  · exact ht
  · rw [Bool.not_true, if_neg Bool.false_ne_true, wpf_bind]
    exact wpf_mono ht (fun _ _ hp => hp) fun _ _ he => he

/-- An accepted request to set values. -/
theorem processStandardRequest_set (h : Received w.ram size)
    (hw : w.ram.decodedRequest.wish = .set)
    (ha : w.ram.decodedRequest.amount = .single ∨ w.ram.decodedRequest.amount = .all)
    (hst : w.ram.byteAt statusByte = Status.ack.toByte) :
    let r := w.ram.setResult device w.handler
    let frame := w.ram.responseArray.toList.take size
    wpf (processStandardRequest device size)
      (fun done t => if done then Responds device w frame r.1 r.2.1 r.2.2 t
        else wpf (sendResponse device)
          (fun _ u => Responds device w frame r.1 r.2.1 r.2.2 u) Never
          { t with ram := t.ram.cleared }) Never w := by
  intro r frame
  apply wpf_processStandardRequest_set hw
  refine wpf_of_never (processValues_set hw ha) ?_
  rintro _ t ⟨⟨stopped, es, handler⟩, hr, _, rfl, value, rfl⟩
  change r = _ at hr
  rw [hr]
  cases stopped with
  | none =>
    rw [if_pos (by simp)]
    exact respond h (write_ack hst) rfl ⟨rfl, rfl, rfl, rfl, rfl⟩
  | some status => exact respond h rfl rfl ⟨rfl, rfl, rfl, rfl, rfl⟩

/-- A request to set values that is not carried out ends with the status of an error. -/
theorem processStandardRequest_set_refused (h : Received w.ram size)
    (hw : w.ram.decodedRequest.wish = .set)
    (ha : w.ram.decodedRequest.amount = .single ∨ w.ram.decodedRequest.amount = .all)
    (hst : w.ram.byteAt statusByte = Status.ack.toByte) :
    wpf (processStandardRequest device size)
      (fun done _ => done = false → (w.ram.setResult device w.handler).1 ≠ .ack) Never w := by
  apply wpf_processStandardRequest_set hw
  refine wpf_of_never (processValues_set hw ha) ?_
  rintro _ t ⟨⟨stopped, es, handler⟩, hr, hack, rfl, value, rfl⟩
  rw [hr]
  cases stopped with
  | none =>
    rw [if_pos (by simp)]
    exact wpf_of_never (respond h (write_ack hst) rfl ⟨rfl, rfl, rfl, rfl, rfl⟩) fun _ _ _ => nofun
  | some status =>
    intro _ hstatus
    exact hack (congrArg some hstatus)

/-- A frame for this device that asks to set values. -/
structure SetRequest (device : Device η) (m : Members) (size : Nat) : Prop where
  addressed : m.Addressed device.manufacturerId size
  fits : size ≤ maxMessageSize
  request : m.byteAt statusByte = Status.request.toByte
  standard : size ≠ specialReqMsgSize
  wish : m.byteAt wishByte = Wish.set.toByte

omit [Zephyr] in
/-- An accepted request to set values, as its processing finds it. -/
theorem set_marked {d : DecodedRequest} (h : SetRequest device m size)
    (hd : (m.begun size).decoded size = .ok d) :
    Received ((m.begun size).marked .ack d) size ∧ d.wish = .set ∧
      (d.amount = .single ∨ d.amount = .all) := by
  have hlong := h.addressed.long
  have hacc := Members.accepts_of_decoded hd
  simp only [specialReqMsgSize, wishByte] at hlong
  refine ⟨⟨rfl, hlong, h.fits, ?_, ?_⟩, ?_, hacc.kind⟩
  · exact (Members.byteAt_write_other (by decide)).trans h.addressed.start
  · exact (Members.byteAt_write_other (by simp only [statusByte]; omega)).trans
      h.addressed.terminated
  · rw [hacc.operands, Members.operands_wish]
    change Wish.ofByte (m.byteAt wishByte) = _
    rw [h.wish]
    rfl

theorem handleRequest_set (h : SetRequest device w.ram size) :
    let r := w.ram.setAnswer device size w.handler
    let frame := w.ram.responseArray.toList.take size
    wpf (handleRequest device size)
      (fun _ t => Responds device w frame r.1 (.request frame :: r.2.1) r.2.2 t) Never w := by
  intro r frame
  have hlong : specialReqMsgSize ≤ size := h.addressed.long
  have hreceived : Received (w.asked size).ram size :=
    ⟨rfl, hlong, h.fits, h.addressed.start, h.addressed.terminated⟩
  have hdone : ∀ t, Responds device (w.asked size) frame r.1 r.2.1 r.2.2 t →
      Responds device w frame r.1 (.request frame :: r.2.1) r.2.2 t := by
    intro t ht
    refine ⟨Members.same_begun.trans ht.same, ht.left, ?_⟩
    rw [ht.trace]
    simp [World.asked, frame]
  apply wpf_handleRequest h.fits
  · intro hn
    exact absurd h.addressed hn
  intro _
  have hst : (w.asked size).ram.byteAt statusByte = Status.request.toByte := h.request
  apply wpf_answer_standard hst h.standard
  · intro status d hd
    have hr : r = (status, [], w.handler) := by
      simp only [r, Members.setAnswer]
      rw [show (w.ram.begun size).decoded size = .error status from hd]
    have hsend : wpf (sendResponse device)
        (fun _ t => Responds device (w.asked size) frame status [] w.handler t) Never
        { ram := ((w.asked size).ram.marked status d).cleared, handler := w.handler,
          trace := (w.asked size).trace ++ [] } :=
      respond hreceived rfl rfl ⟨rfl, rfl, rfl, rfl, rfl⟩
    rw [List.append_nil] at hsend
    exact wpf_of_never hsend fun _ t ht => hdone t (hr ▸ ht)
  · intro d hd
    have hr : r = ((w.ram.begun size).marked .ack d).setResult device w.handler := by
      simp only [r, Members.setAnswer]
      rw [show (w.ram.begun size).decoded size = .ok d from hd]
    let u : World η := { w.asked size with ram := (w.ram.begun size).marked .ack d }
    obtain ⟨hreq, hwish, hamount⟩ := set_marked h hd
    have hframe : ∀ st : Status, (u.ram.responseArray.toList.take size).set statusByte st.toByte =
        frame.set statusByte st.toByte := by
      intro st
      change ((w.ram.begun size).write statusByte _ |>.responseArray.toList.take size).set _ _ = _
      rw [Members.take_write, List.set_set]
      rfl
    have hstatus : u.ram.byteAt statusByte = Status.ack.toByte :=
      Members.byteAt_write_same (by decide)
    have hbegun : ∀ t, Responds device u (u.ram.responseArray.toList.take size) r.1 r.2.1 r.2.2 t →
        Responds device w frame r.1 (.request frame :: r.2.1) r.2.2 t := by
      intro t ht
      refine hdone t ⟨Members.same_marked.trans ht.same, ?_, ?_⟩
      · rw [ht.left, hframe]
      · rw [ht.trace, hframe]
    refine wpf_of_never (processStandardRequest_set hreq hwish hamount hstatus) ?_
    rintro (_ | _) t ht
    · exact wpf_of_never ht fun _ v hv => hbegun v (hr ▸ hv)
    · exact hbegun t (hr ▸ ht)

end Whole

end Zlibs.SysExConf
