import Zlibs.SysExConf.Internal

/-! What each step on the members does, as rules for reasoning about the programs built from them. -/
namespace Zlibs.SysExConf
open Lib Midi

variable {η : Type} {device : Device η} {m : Members} {w : World η} {byte : UInt8} {i j n : Nat}
  {E : Fault → World η → Prop}

namespace Members

def byteAt (m : Members) (i : Nat) : UInt8 := m.responseArray.toList.getD i 0

def write (m : Members) (i : Nat) (byte : UInt8) : Members :=
  { m with responseArray := m.responseArray.setIfInBounds i byte }

def pushed (m : Members) (byte : UInt8) : Members :=
  { m.write m.responseCounter byte with responseCounter := m.responseCounter + 1 }

def pushedAll (m : Members) : List UInt8 → Members
  | [] => m
  | byte :: rest => (m.pushed byte).pushedAll rest

/-- The members apart from the array, its counter and the decoded request. -/
structure Same (m m' : Members) : Prop where
  enabled : m'.configurationEnabled = m.configurationEnabled
  ignores : m'.userErrorIgnoreModeEnabled = m.userErrorIgnoreModeEnabled
  active : m'.umpMessageActive = m.umpMessageActive
  layout : m'.layout = m.layout
  custom : m'.customRequests = m.customRequests

theorem Same.refl : Same m m := ⟨rfl, rfl, rfl, rfl, rfl⟩

theorem Same.trans {m' m'' : Members} (h : Same m m') (h' : Same m' m'') : Same m m'' :=
  ⟨h'.enabled.trans h.enabled, h'.ignores.trans h.ignores, h'.active.trans h.active,
    h'.layout.trans h.layout, h'.custom.trans h.custom⟩

@[simp] theorem write_responseCounter : (m.write i byte).responseCounter = m.responseCounter := rfl

@[simp] theorem write_decodedRequest : (m.write i byte).decodedRequest = m.decodedRequest := rfl

@[simp] theorem write_layout : (m.write i byte).layout = m.layout := rfl

@[simp] theorem write_configurationEnabled :
    (m.write i byte).configurationEnabled = m.configurationEnabled := rfl

@[simp] theorem write_userErrorIgnoreModeEnabled :
    (m.write i byte).userErrorIgnoreModeEnabled = m.userErrorIgnoreModeEnabled := rfl

theorem same_write : Same m (m.write i byte) := ⟨rfl, rfl, rfl, rfl, rfl⟩

@[simp] theorem pushed_responseCounter :
    (m.pushed byte).responseCounter = m.responseCounter + 1 := rfl

@[simp] theorem pushed_decodedRequest : (m.pushed byte).decodedRequest = m.decodedRequest := rfl

theorem same_pushed : Same m (m.pushed byte) := ⟨rfl, rfl, rfl, rfl, rfl⟩

theorem same_pushedAll {bytes : List UInt8} : Same m (m.pushedAll bytes) := by
  induction bytes generalizing m with
  | nil => exact .refl
  | cons byte rest ih => exact same_pushed.trans ih

@[simp] theorem pushedAll_responseCounter {bytes : List UInt8} :
    (m.pushedAll bytes).responseCounter = m.responseCounter + bytes.length := by
  induction bytes generalizing m with
  | nil => rfl
  | cons byte rest ih => simp only [pushedAll, ih, pushed_responseCounter, List.length_cons]; omega

@[simp] theorem pushedAll_decodedRequest {bytes : List UInt8} :
    (m.pushedAll bytes).decodedRequest = m.decodedRequest := by
  induction bytes generalizing m with
  | nil => rfl
  | cons byte rest ih => simp [pushedAll, ih]

theorem byteAt_write_same (h : i < maxMessageSize) : (m.write i byte).byteAt i = byte := by
  simp [byteAt, write, h]

theorem byteAt_write_other (h : i ≠ j) : (m.write i byte).byteAt j = m.byteAt j := by
  simp [byteAt, write, h]

theorem take_write : (m.write i byte).responseArray.toList.take n =
    (m.responseArray.toList.take n).set i byte := by
  simp [write, List.take_set]

theorem take_write_of_le (h : n ≤ i) : (m.write i byte).responseArray.toList.take n =
    m.responseArray.toList.take n := by
  rw [take_write, List.set_eq_of_length_le]
  simp only [List.length_take]
  omega

theorem length_array : m.responseArray.toList.length = maxMessageSize := by simp

theorem getElem_array (h : i < m.responseArray.toList.length) :
    m.responseArray.toList[i] = m.byteAt i := (List.getD_eq_getElem _ _ h).symm

theorem length_frame (h : m.responseCounter ≤ maxMessageSize) :
    m.frame.length = m.responseCounter := by
  rw [frame, List.length_take, length_array]
  omega

theorem head?_frame (h : 0 < m.responseCounter) : m.frame.head? = some (m.byteAt startByte) := by
  have h0 : 0 < maxMessageSize := by decide
  rw [frame, List.head?_take, if_neg h.ne']
  simp [byteAt, List.head?_eq_getElem?, h0]

theorem frame_pushed (h : m.responseCounter < maxMessageSize) :
    (m.pushed byte).frame = m.frame ++ [byte] := by
  have hl : m.responseCounter < m.responseArray.toList.length := by rw [length_array]; exact h
  change ((m.write m.responseCounter byte).responseArray.toList.take (m.responseCounter + 1)) = _
  rw [take_write, List.take_add_one, List.getElem?_eq_getElem hl, List.set_append_right _ _
    (by simp only [List.length_take]; omega)]
  simp [frame, Nat.min_eq_left h.le]

theorem frame_pushedAll {bytes : List UInt8}
    (h : m.responseCounter + bytes.length ≤ maxMessageSize) :
    (m.pushedAll bytes).frame = m.frame ++ bytes := by
  induction bytes generalizing m with
  | nil => simp [pushedAll]
  | cons byte rest ih =>
    rw [List.length_cons] at h
    rw [pushedAll, ih (by rw [pushed_responseCounter]; omega), frame_pushed (by omega)]
    simp

/-- A message written from the start of the array. -/
def built (m : Members) (bytes : List UInt8) : Members :=
  { m with responseCounter := 0 }.pushedAll bytes

theorem same_built {bytes : List UInt8} : Same m (m.built bytes) := by
  have h : Same { m with responseCounter := 0 } (m.built bytes) := same_pushedAll
  exact ⟨h.enabled, h.ignores, h.active, h.layout, h.custom⟩

@[simp] theorem built_responseCounter {bytes : List UInt8} :
    (m.built bytes).responseCounter = bytes.length := by simp [built]

@[simp] theorem built_decodedRequest {bytes : List UInt8} :
    (m.built bytes).decodedRequest = m.decodedRequest := by simp [built]

theorem frame_built {bytes : List UInt8} (h : bytes.length ≤ maxMessageSize) :
    (m.built bytes).frame = bytes := by
  rw [built, frame_pushedAll (by simpa using h)]
  simp [frame]

theorem byteAt_built {bytes : List UInt8} (h : bytes.length ≤ maxMessageSize)
    (hb : bytes.head? = some byte) : (m.built bytes).byteAt startByte = byte := by
  have hpos : 0 < (m.built bytes).responseCounter := by
    rw [built_responseCounter]
    exact List.length_pos_of_mem (List.mem_of_mem_head? hb)
  have hh := head?_frame hpos
  rw [frame_built h, hb] at hh
  exact (Option.some.inj hh).symm

/-- The bytes of a frame held at the start of the array. -/
theorem byteAt_of_take {frame : List UInt8}
    (h : m.responseArray.toList.take frame.length = frame) (hi : i < frame.length) :
    m.byteAt i = frame.getD i 0 := by
  rw [byteAt, ← h, List.getD_eq_getElem?_getD, List.getD_eq_getElem?_getD, List.getElem?_take_of_lt hi]

end Members

theorem wpf_log {Q : Unit → World η → Prop} {event : Event} : wpf (log event) Q E w ↔
    Q () { w with trace := w.trace ++ [event] } := Iff.rfl

theorem wpf_modifyMembers {Q : Unit → World η → Prop} {f : Members → Members} :
    wpf (modifyMembers f) Q E w ↔ Q () { w with ram := f w.ram } := Iff.rfl

theorem wpf_modifyDecoded {Q : Unit → World η → Prop} {f : DecodedRequest → DecodedRequest} :
    wpf (modifyDecoded f) Q E w ↔
      Q () { w with ram := { w.ram with decodedRequest := f w.ram.decodedRequest } } := Iff.rfl

theorem wpf_readResponse {Q : UInt8 → World η → Prop} (h : i < maxMessageSize) :
    wpf (readResponse i) Q E w ↔ Q (w.ram.byteAt i) w := by
  have hb : w.ram.byteAt i = w.ram.responseArray[i] := by
    simp [Members.byteAt, h]
  rw [hb, readResponse, wpf_bind, wpf_get, dif_pos h, wpf_pure]

theorem wpf_writeResponse {Q : Unit → World η → Prop} (h : i < maxMessageSize) :
    wpf (writeResponse i byte) Q E w ↔ Q () { w with ram := w.ram.write i byte } := by
  have hw : w.ram.write i byte = { w.ram with responseArray := w.ram.responseArray.set i byte } := by
    simp [Members.write, ← Vector.toList_inj, Vector.toList_set]
  rw [hw, writeResponse, dif_pos h, wpf_modifyMembers]

theorem wpf_push {Q : Unit → World η → Prop} (h : w.ram.responseCounter < maxMessageSize) :
    wpf (push byte) Q E w ↔ Q () { w with ram := w.ram.pushed byte } := by
  rw [push, wpf_bind, wpf_get, wpf_bind, wpf_writeResponse h, wpf_modifyMembers]
  rfl

theorem wpf_push_fault {Q : Unit → World η → Prop} (h : maxMessageSize ≤ w.ram.responseCounter) :
    wpf (push byte) Q E w ↔ E .outOfBounds w := by
  rw [push, wpf_bind, wpf_get, wpf_bind, writeResponse, dif_neg (by omega), wpf_throw]

theorem wpf_pushAll {Q : Unit → World η → Prop} {bytes : List UInt8}
    (h : w.ram.responseCounter + bytes.length ≤ maxMessageSize) :
    wpf (pushAll bytes) Q E w ↔ Q () { w with ram := w.ram.pushedAll bytes } := by
  induction bytes generalizing w with
  | nil => exact wpf_pure
  | cons byte rest ih =>
    rw [List.length_cons] at h
    rw [pushAll, wpf_bind, wpf_push (by omega), ih (by simp only [Members.pushed_responseCounter]; omega)]
    rfl

theorem wpf_startMessage {Q : Unit → World η → Prop} {bytes : List UInt8}
    (h : bytes.length ≤ maxMessageSize) :
    wpf (startMessage bytes) Q E w ↔ Q () { w with ram := w.ram.built bytes } := by
  rw [startMessage, wpf_bind, wpf_modifyMembers, wpf_pushAll (by simpa using h)]
  rfl

attribute [irreducible] Members.built

theorem wpf_setStatus {Q : Unit → World η → Prop} {status : Status} :
    wpf (setStatus status) Q E w ↔
      Q () { w with ram := w.ram.write statusByte status.toByte } := by
  rw [setStatus, wpf_writeResponse (by decide), Status.toByte_and]

theorem wpf_refuse {Q : Bool → World η → Prop} {status : Status} :
    wpf (refuse status) Q E w ↔
      Q false { w with ram := w.ram.write statusByte status.toByte } := by
  rw [refuse, wpf_bind, wpf_setStatus, wpf_pure]

theorem wpf_addToResponse {Q : Bool → World η → Prop} {value : UInt16}
    (h : w.ram.responseCounter + 2 ≤ maxMessageSize - 1) :
    wpf (addToResponse value) Q E w ↔
      Q true { w with
        ram := w.ram.pushedAll [(split14Bit value).1, (split14Bit value).2] } := by
  rw [addToResponse, wpf_bind, wpf_get, if_neg (by omega), wpf_bind, wpf_push (by omega), wpf_bind,
    wpf_push (by simp only [Members.pushed_responseCounter]; omega), wpf_pure]
  rfl

/-- The world after a call of `DataHandler::get`. -/
def World.afterGet (device : Device η) (w : World η) (block sect : UInt8) (index : UInt16) :
    World η :=
  let r := device.dataHandler.get block sect index w.handler
  { w with handler := r.2, trace := w.trace ++ [.get block sect index r.1.1 r.1.2] }

/-- The world after a call of `DataHandler::set`. -/
def World.afterSet (device : Device η) (w : World η) (block sect : UInt8)
    (index newValue : UInt16) : World η :=
  let r := device.dataHandler.set block sect index newValue w.handler
  { w with handler := r.2, trace := w.trace ++ [.set block sect index newValue r.1] }

theorem wpf_callGet {Q : Status × UInt16 → World η → Prop} {block sect : UInt8} {index : UInt16} :
    wpf (callGet device block sect index) Q E w ↔
      Q (device.dataHandler.get block sect index w.handler).1
        (w.afterGet device block sect index) := Iff.rfl

theorem wpf_callSet {Q : Status → World η → Prop} {block sect : UInt8}
    {index newValue : UInt16} :
    wpf (callSet device block sect index newValue) Q E w ↔
      Q (device.dataHandler.set block sect index newValue w.handler).1
        (w.afterSet device block sect index newValue) := Iff.rfl

/-- What happens when packets are handed to the handler, which may refuse one of them. -/
def sendEach (device : Device η) : List MidiUmp → η → List Event × η
  | [], handler => ([], handler)
  | packet :: rest, handler =>
    let (accepted, next) := device.dataHandler.sendResponse packet handler
    if accepted then
      let (events, last) := sendEach device rest next
      (.sendResponse packet true :: events, last)
    else ([.sendResponse packet false], next)

theorem wpf_writeEach {Q : Bool → World η → Prop} {packets : List MidiUmp}
    (h : ∀ accepted, Q accepted { w with
      handler := (sendEach device packets w.handler).2,
      trace := w.trace ++ (sendEach device packets w.handler).1 }) :
    wpf (writeEach (callSendResponse device) packets) Q E w := by
  induction packets generalizing w with
  | nil => simpa [sendEach, writeEach, wpf_pure] using h true
  | cons packet rest ih =>
    rw [writeEach, wpf_bind]
    change wpf _ Q E { w with
      handler := (device.dataHandler.sendResponse packet w.handler).2,
      trace := w.trace ++ [.sendResponse packet
        (device.dataHandler.sendResponse packet w.handler).1] }
    rcases hr : device.dataHandler.sendResponse packet w.handler with ⟨_ | _, next⟩
    · simpa [sendEach, hr, wpf_pure] using h false
    · simp only [sendEach, hr, if_true] at h
      simp only [hr, Bool.not_true, Bool.false_eq_true, if_false]
      exact ih fun accepted => by simpa using h accepted

/-- The handler is given packets and nothing else. -/
theorem sends_sendEach {packets : List MidiUmp} {handler : η} :
    ∀ e ∈ (sendEach device packets handler).1,
      ∃ packet accepted, e = .sendResponse packet accepted := by
  induction packets generalizing handler with
  | nil => exact nofun
  | cons packet rest ih =>
    intro e he
    rcases hr : device.dataHandler.sendResponse packet handler with ⟨_ | _, next⟩
    · simp only [sendEach, hr, Bool.false_eq_true, if_false, List.mem_singleton] at he
      exact ⟨packet, false, he⟩
    · simp only [sendEach, hr, if_true, List.mem_cons] at he
      rcases he with he | he
      · exact ⟨packet, true, he⟩
      · exact ih e he

variable [Zephyr]

/-- What sending a frame does. -/
def responseEvents (device : Device η) (frame : List UInt8) (handler : η) : List Event × η :=
  let sent := sendEach device (sysex7Packets 0 (payloadOf frame)) handler
  (.response frame :: sent.1, sent.2)

/-- A frame with at least one byte between its start and the end byte is sent. -/
theorem wpf_sendResponse {Q : Unit → World η → Prop} (h2 : 2 ≤ w.ram.responseCounter)
    (h : w.ram.responseCounter < maxMessageSize) (h0 : w.ram.byteAt startByte = sysExStart) :
    let sent := responseEvents device (w.ram.frame ++ [sysExEnd]) w.handler
    Q () { ram := w.ram.pushed sysExEnd, handler := sent.2, trace := w.trace ++ sent.1 } →
      wpf (sendResponse device) Q E w := by
  intro sent hq
  have hl := Members.length_frame h.le
  have hstart := Members.head?_frame (m := w.ram) (by omega)
  rw [h0] at hstart
  have hp : payloadOf (w.ram.frame ++ [sysExEnd]) ≠ [] := by
    apply List.ne_nil_of_length_pos
    simp only [payloadOf, List.length_take, List.length_drop, List.length_append, hl,
      List.length_singleton]
    omega
  rw [sendResponse, wpf_bind, wpf_push h, wpf_bind, wpf_get]
  simp only [Members.frame_pushed h]
  rw [if_neg (by simp [hstart, hl]; omega), wpf_bind, wpf_log, if_neg (by simpa using hp),
    wpf_bind]
  apply wpf_writeEach
  intro accepted
  rw [wpf_pure]
  simpa [sent, responseEvents] using hq

/-- A message written from the start of the array is sent as it is. -/
theorem wpf_sendResponse_built {Q : Unit → World η → Prop} {bytes : List UInt8}
    (h2 : 2 ≤ bytes.length) (h : bytes.length < maxMessageSize)
    (hb : bytes.head? = some sysExStart)
    (hq : ∀ m, w.ram.Same m → m.decodedRequest = w.ram.decodedRequest →
      m.byteAt startByte = sysExStart →
      let sent := responseEvents device (bytes ++ [sysExEnd]) w.handler
      Q () { ram := m, handler := sent.2, trace := w.trace ++ sent.1 }) :
    wpf (sendResponse device) Q E { w with ram := w.ram.built bytes } := by
  have hstart : (w.ram.built bytes).byteAt startByte = sysExStart := Members.byteAt_built h.le hb
  have hcounter : (w.ram.built bytes).responseCounter = bytes.length :=
    Members.built_responseCounter
  have hend : ((w.ram.built bytes).pushed sysExEnd).byteAt startByte = sysExStart :=
    (Members.byteAt_write_other (by simp only [startByte]; omega)).trans hstart
  refine wpf_sendResponse (hcounter ▸ h2) (hcounter ▸ h) hstart ?_
  rw [Members.frame_built h.le]
  exact hq _ (Members.same_built.trans Members.same_pushed) (by simp) hend

end Zlibs.SysExConf
