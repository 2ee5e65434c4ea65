import Zlibs.SysExConf.Requests
import Zlibs.SysExConf.Session

/-! What the processing of a standard request may do, whatever the handler answers. -/
namespace Zlibs.SysExConf
open Lib Midi

variable {η : Type} {device : Device η} {m : Members} {w t u : World η} {size : Nat}
  {sect : Section} {index : UInt16}

/-- The session that the members stand for. -/
def Members.session (m : Members) : Session where
  connected := m.configurationEnabled
  layout := m.layout

theorem Members.Same.session {m' : Members} (h : m.Same m') : m'.session = m.session := by
  simp [Members.session, h.enabled, h.layout]

/-- The session is open, and the block and the section of the decoded request exist. -/
structure Members.Located (m : Members) : Prop where
  enabled : m.configurationEnabled = true
  block : m.decodedRequest.block.toNat < m.layout.length
  sect : m.decodedRequest.sect.toNat <
    (m.layout.getD m.decodedRequest.block.toNat ⟨[]⟩).sections.length

theorem Members.Located.inLayout (h : m.Located) (hi : index < m.requestedSection.numberOfParameters) :
    InLayout m.layout m.decodedRequest.block m.decodedRequest.sect index m.requestedSection := by
  refine ⟨m.layout.getD m.decodedRequest.block.toNat ⟨[]⟩, ?_, ?_, hi⟩
  · simp [h.block]
  · have hs := h.sect
    simp only [Members.requestedSection]
    rw [List.getElem?_eq_getElem hs, List.getD_eq_getElem _ _ hs]

/-- What any part of the processing does to the world. -/
structure Serves (w t : World η) : Prop where
  same : w.ram.Same t.ram
  block : t.ram.decodedRequest.block = w.ram.decodedRequest.block
  sect : t.ram.decodedRequest.sect = w.ram.decodedRequest.sect
  amount : t.ram.decodedRequest.amount = w.ram.decodedRequest.amount
  start : t.ram.byteAt startByte = w.ram.byteAt startByte
  events : ∃ es, t.trace = w.trace ++ es ∧ ∀ e ∈ es, e.Inner ∧ e.Proper w.ram.session

theorem Serves.refl : Serves w w := ⟨.refl, rfl, rfl, rfl, rfl, [], by simp⟩

theorem Serves.trans (h : Serves w t) (h' : Serves t u) : Serves w u := by
  obtain ⟨es, he, hes⟩ := h.events
  obtain ⟨es', he', hes'⟩ := h'.events
  refine ⟨h.same.trans h'.same, h'.block.trans h.block, h'.sect.trans h.sect,
    h'.amount.trans h.amount, h'.start.trans h.start, es ++ es', ?_, ?_⟩
  · rw [he', he, List.append_assoc]
  · intro e hm
    rcases List.mem_append.mp hm with hm | hm
    · exact hes e hm
    · exact h.same.session ▸ hes' e hm

theorem Serves.requestedSection (h : Serves w t) :
    t.ram.requestedSection = w.ram.requestedSection := by
  simp only [Members.requestedSection, h.same.layout, h.block, h.sect]

theorem Serves.located (h : Serves w t) (hl : w.ram.Located) : t.ram.Located := by
  constructor
  · rw [h.same.enabled]
    exact hl.enabled
  · rw [h.block, h.same.layout]
    exact hl.block
  · rw [h.block, h.sect, h.same.layout]
    exact hl.sect

/-- Only the members change, and not those that matter here. -/
theorem Serves.ofMembers {m' : Members} (hs : w.ram.Same m')
    (hd : m'.decodedRequest = w.ram.decodedRequest)
    (h0 : m'.byteAt startByte = w.ram.byteAt startByte) : Serves w { w with ram := m' } :=
  ⟨hs, by rw [hd], by rw [hd], by rw [hd], h0, [], by simp⟩

theorem serves_write {i : Nat} {byte : UInt8} (hi : i ≠ startByte) :
    Serves w { w with ram := w.ram.write i byte } :=
  .ofMembers Members.same_write rfl (Members.byteAt_write_other hi)

theorem byteAt_pushedAll (bytes : List UInt8) (h : 0 < m.responseCounter) :
    (m.pushedAll bytes).byteAt startByte = m.byteAt startByte := by
  induction bytes generalizing m with
  | nil => rfl
  | cons byte rest ih =>
    rw [Members.pushedAll, ih (by simp)]
    exact Members.byteAt_write_other (by simp only [startByte]; omega)

theorem serves_pushedAll (bytes : List UInt8) (h : 0 < w.ram.responseCounter) :
    Serves w { w with ram := w.ram.pushedAll bytes } :=
  .ofMembers Members.same_pushedAll (by simp) (byteAt_pushedAll bytes h)

/-- The handler is asked, which adds one event. -/
theorem serves_event {handler : η} {e : Event} (hi : e.Inner) (he : e.Proper w.ram.session) :
    Serves w { w with handler := handler, trace := w.trace ++ [e] } :=
  ⟨.refl, rfl, rfl, rfl, rfl, [e], rfl, by simpa using ⟨hi, he⟩⟩

theorem sendEach_proper {s : Session} {packets : List MidiUmp} {handler : η} :
    ∀ e ∈ (sendEach device packets handler).1, e.Inner ∧ e.Proper s := by
  intro e he
  obtain ⟨_, _, rfl⟩ := sends_sendEach e he
  exact ⟨trivial, trivial⟩

theorem serves_newValue {value : UInt16} : Serves w
    { w with ram := { w.ram with
      decodedRequest := { w.ram.decodedRequest with newValue := value } } } :=
  ⟨⟨rfl, rfl, rfl, rfl, rfl⟩, rfl, rfl, rfl, rfl, [], by simp⟩

/-- Room for `k` more bytes after a start byte and at least one other. -/
structure Room (k : Nat) (w : World η) : Prop where
  started : 2 ≤ w.ram.responseCounter
  room : w.ram.responseCounter + k < maxMessageSize
  start : w.ram.byteAt startByte = sysExStart

theorem Room.mono {k l : Nat} (h : Room k w) (hl : l ≤ k) : Room l w :=
  ⟨h.started, by have := h.room; omega, h.start⟩

/-- What a step on values leaves of the room. -/
structure Uses (k : Nat) (w t : World η) : Prop where
  serves : Serves w t
  wish : t.ram.decodedRequest.wish = w.ram.decodedRequest.wish
  grows : w.ram.responseCounter ≤ t.ram.responseCounter
  bounded : t.ram.responseCounter ≤ w.ram.responseCounter + k

theorem Uses.mono {k l : Nat} (h : Uses k w t) (hl : k ≤ l) : Uses l w t :=
  ⟨h.serves, h.wish, h.grows, by have := h.bounded; omega⟩

theorem Uses.room {k l : Nat} (h : Uses k w t) (hw : Room (k + l) w) : Room l t := by
  refine ⟨le_trans hw.started h.grows, ?_, h.serves.start.trans hw.start⟩
  have hb := h.bounded
  have hr := hw.room
  omega

theorem Uses.trans {k l : Nat} (h : Uses k w t) (h' : Uses l t u) : Uses (k + l) w u := by
  refine ⟨h.serves.trans h'.serves, h'.wish.trans h.wish, h.grows.trans h'.grows, ?_⟩
  have hb := h.bounded
  have hb' := h'.bounded
  omega

theorem Uses.of_serves {k : Nat} (h : Serves w t)
    (hw : t.ram.decodedRequest.wish = w.ram.decodedRequest.wish)
    (hc : t.ram.responseCounter = w.ram.responseCounter) : Uses k w t :=
  ⟨h, hw, hc.ge, by omega⟩

/-- The bytes that a value takes in the response. -/
def Members.cost (m : Members) : Nat := if m.decodedRequest.wish = .get then 2 else 0

theorem Uses.cost {k : Nat} (h : Uses k w t) : t.ram.cost = w.ram.cost := by
  rw [Members.cost, h.wish, Members.cost]

section OneValue

variable (hl : w.ram.Located) (hr : Room 2 w)
include hl hr

theorem getValue_uses (hi : index < w.ram.requestedSection.numberOfParameters) :
    wpf (getValue device index) (fun _ t => Uses 2 w t) Never w := by
  let u := w.afterGet device w.ram.decodedRequest.block w.ram.decodedRequest.sect index
  have hget : Serves w u :=
    serves_event trivial ⟨hl.enabled, _, hl.inLayout hi⟩
  have hpos : 0 < w.ram.responseCounter := lt_of_lt_of_le (by decide) hr.started
  have happend (value : UInt16) :
      wpf (addToResponse value) (fun _ t => Uses 2 w t) Never u := by
    have hroom : u.ram.responseCounter + 2 ≤ maxMessageSize - 1 := Nat.le_sub_one_of_lt hr.room
    rw [wpf_addToResponse hroom]
    exact ⟨hget.trans (serves_pushedAll _ hpos), by simp [u, World.afterGet],
      by simp [u, World.afterGet], by simp [u, World.afterGet]⟩
  rw [getValue, wpf_bind, wpf_get, wpf_bind, wpf_callGet]
  apply wpf_ite
  · intro _
    rw [wpf_bind]
    exact happend _
  intro _
  rw [wpf_bind, wpf_get]
  apply wpf_ite
  · intro _
    rw [wpf_bind]
    exact happend _
  · intro _
    rw [wpf_refuse]
    exact .of_serves (hget.trans (serves_write (by decide))) rfl rfl

omit hr in
theorem setValue_uses (hi : index < w.ram.requestedSection.numberOfParameters)
    (hv : w.ram.requestedSection.Accepts w.ram.decodedRequest.newValue) :
    wpf (setValue device index) (fun _ t => Uses 0 w t) Never w := by
  have hset : Serves w (w.afterSet device w.ram.decodedRequest.block
      w.ram.decodedRequest.sect index w.ram.decodedRequest.newValue) :=
    serves_event trivial ⟨hl.enabled, _, hl.inLayout hi, hv⟩
  rw [setValue, wpf_bind, wpf_get, wpf_bind, wpf_callSet]
  apply wpf_ite
  · intro _
    rw [wpf_pure]
    exact .of_serves hset rfl rfl
  intro _
  rw [wpf_bind, wpf_get]
  apply wpf_ite
  · intro _
    rw [wpf_pure]
    exact .of_serves hset rfl rfl
  · intro _
    rw [wpf_refuse]
    exact .of_serves (hset.trans (serves_write (by decide))) rfl rfl

end OneValue

theorem checkNewValue_accepts (h : m.checkNewValue = true) :
    m.requestedSection.Accepts m.decodedRequest.newValue := by
  intro hne
  rw [Members.checkNewValue, if_pos hne] at h
  simpa using h

/-- An index of the value loop: within the section unless one parameter is asked for, and not
further from the start than a message part. -/
def Indexed (m : Members) (startIndex i : Nat) : Prop :=
  (m.decodedRequest.amount ≠ .single → i < m.requestedSection.numberOfParameters.toNat) ∧
    i < startIndex + paramsPerMessage

theorem Serves.indexed {startIndex i : Nat} (h : Serves w t) (hi : Indexed w.ram startIndex i) :
    Indexed t.ram startIndex i := by
  unfold Indexed
  rw [h.amount, h.requestedSection]
  exact hi

theorem ofNat_lt {i : Nat} {n : UInt16} (h : i < n.toNat) : UInt16.ofNat i < n := by
  have := n.toNat_lt
  rw [UInt16.lt_iff_toNat_lt, UInt16.toNat_ofNat']
  omega

theorem processGet_uses {i : Nat} {startIndex : Nat} (hl : w.ram.Located) (hr : Room 2 w)
    (hi : Indexed w.ram startIndex i) :
    wpf (processGet device i) (fun _ t => Uses 2 w t) Never w := by
  rw [processGet, wpf_bind, wpf_get]
  apply wpf_ite
  · intro _
    apply wpf_ite
    · intro _
      rw [wpf_refuse]
      exact .of_serves (serves_write (by decide)) rfl rfl
    · intro hc
      exact getValue_uses hl hr (by simpa [Members.checkParameterIndex] using hc)
  · intro ha
    exact getValue_uses hl hr (ofNat_lt (hi.1 ha))

theorem processSet_uses {i : Nat} {startIndex : Nat} (hl : w.ram.Located)
    (hi : Indexed w.ram startIndex i) :
    wpf (processSet device startIndex i) (fun _ t => Uses 0 w t) Never w := by
  have h32 := hi.2
  have hmax := maxMessageSize_eq
  simp only [paramsPerMessage] at h32
  rw [processSet, wpf_bind, wpf_get]
  apply wpf_ite
  · intro _
    apply wpf_ite
    · intro _
      rw [wpf_refuse]
      exact .of_serves (serves_write (by decide)) rfl rfl
    intro hc
    apply wpf_ite
    · intro _
      rw [wpf_refuse]
      exact .of_serves (serves_write (by decide)) rfl rfl
    · intro hv
      exact setValue_uses hl (by simpa [Members.checkParameterIndex] using hc)
        (checkNewValue_accepts (by simpa using hv))
  · intro ha
    rw [wpf_bind, wpf_readResponse (by simp only [bytesPerValue, indexByte]; omega), wpf_bind,
      wpf_readResponse (by simp only [bytesPerValue, indexByte]; omega), wpf_bind,
      wpf_modifyDecoded, wpf_bind, wpf_get]
    apply wpf_ite
    · intro _
      rw [wpf_refuse]
      exact .of_serves (serves_newValue.trans (serves_write (by decide))) rfl rfl
    · intro hv
      refine wpf_of_never (setValue_uses (serves_newValue.located hl) (ofNat_lt (hi.1 ha))
        (checkNewValue_accepts (by simpa using hv))) fun _ t ht => ?_
      exact ⟨serves_newValue.trans ht.serves, ht.wish, ht.grows, ht.bounded⟩

theorem processValue_uses {i : Nat} {startIndex : Nat} (hl : w.ram.Located)
    (hr : Room w.ram.cost w) (hi : Indexed w.ram startIndex i) :
    wpf (processValue device startIndex i) (fun _ t => Uses w.ram.cost w t) Never w := by
  rw [processValue, wpf_bind, wpf_get]
  unfold Members.cost at hr ⊢
  split
  · rename_i hw
    rw [if_pos hw] at hr
    exact processGet_uses hl hr hi
  · exact processSet_uses hl hi

/-- The value loop keeps to the section and to the array. -/
theorem processValues_uses {indices : List Nat} {startIndex : Nat} (hl : w.ram.Located)
    (hr : Room (w.ram.cost * indices.length) w)
    (hi : ∀ i ∈ indices, Indexed w.ram startIndex i) :
    wpf (processValues device startIndex indices)
      (fun _ t => Uses (w.ram.cost * indices.length) w t) Never w := by
  induction indices generalizing w with
  | nil => exact .of_serves .refl rfl rfl
  | cons i rest ih =>
    rw [List.length_cons, Nat.mul_succ, Nat.add_comm] at hr ⊢
    rw [processValues]
    refine wpf_bind_of (processValue_uses hl (hr.mono (by omega)) (hi i (by simp))) ?_
    intro continues t ht
    apply wpf_ite
    · intro _
      rw [wpf_pure]
      exact ht.mono (by omega)
    · intro _
      have hroom : Room (t.ram.cost * rest.length) t := ht.cost ▸ ht.room hr
      refine wpf_of_never (ih (ht.serves.located hl) hroom
        fun j hj => ht.serves.indexed (hi j (by simp [hj]))) fun _ u hu => ?_
      rw [ht.cost] at hu
      exact ht.trans hu

theorem partIndices_indexed {i : Nat} (h : i ∈ partIndices m)
    (ha : m.decodedRequest.amount = .single ∨ m.decodedRequest.amount = .all) :
    Indexed m (startIndex m) i := by
  unfold partIndices at h
  split at h
  · rename_i hall
    simp only [List.mem_range'_1, gt_iff_lt] at h
    split at h <;> constructor <;> omega
  · rename_i hall
    rcases ha with ha | ha
    · simp only [List.mem_singleton] at h
      subst h
      rw [startIndex, if_neg hall]
      exact ⟨fun hne => absurd ha hne, by decide⟩
    · exact absurd ha hall

theorem length_partIndices : (partIndices m).length ≤ paramsPerMessage := by
  unfold partIndices
  split
  · simp only [List.length_range', gt_iff_lt]
    split <;> omega
  · decide

theorem serves_counter {n : Nat} :
    Serves w { w with ram := { w.ram with responseCounter := n } } :=
  ⟨⟨rfl, rfl, rfl, rfl, rfl⟩, rfl, rfl, rfl, rfl, [], by simp⟩

theorem selectPart_serves {allPartsLoop : Bool} {j : Nat} :
    wpf (selectPart allPartsLoop j) (fun _ t => Serves w t ∧
      t.ram.decodedRequest.wish = w.ram.decodedRequest.wish ∧
      t.ram.responseCounter = w.ram.responseCounter) Never w := by
  rw [selectPart]
  apply wpf_ite
  · intro _
    rw [wpf_bind, wpf_modifyDecoded, wpf_writeResponse (by decide)]
    exact ⟨⟨⟨rfl, rfl, rfl, rfl, rfl⟩, rfl, rfl, rfl,
      Members.byteAt_write_other (by decide), [], by simp⟩, rfl, rfl⟩
  · intro _
    exact ⟨.refl, rfl, rfl⟩

/-- The relation of a step that may also turn the request into another. -/
structure Acts (w t : World η) : Prop where
  same : w.ram.Same t.ram
  start : t.ram.byteAt startByte = w.ram.byteAt startByte
  events : ∃ es, t.trace = w.trace ++ es ∧ ∀ e ∈ es, e.Inner ∧ e.Proper w.ram.session

theorem Serves.acts (h : Serves w t) : Acts w t := ⟨h.same, h.start, h.events⟩

theorem Acts.serves (h : Acts w t) (h' : Serves t u) : Acts w u := by
  obtain ⟨es, he, hes⟩ := h.events
  obtain ⟨es', he', hes'⟩ := h'.events
  refine ⟨h.same.trans h'.same, h'.start.trans h.start, es ++ es', ?_, ?_⟩
  · rw [he', he, List.append_assoc]
  · intro e hm
    rcases List.mem_append.mp hm with hm | hm
    · exact hes e hm
    · exact h.same.session ▸ hes' e hm

/-- A request of an amount that exists, for a response of `counter` bytes and the values. -/
structure Processes (counter : Nat) (w : World η) : Prop where
  located : w.ram.Located
  amount : w.ram.decodedRequest.amount = .single ∨ w.ram.decodedRequest.amount = .all
  start : w.ram.byteAt startByte = sysExStart
  started : 2 ≤ counter
  room : counter + w.ram.cost * paramsPerMessage < maxMessageSize

theorem Processes.next {counter : Nat} (h : Processes counter w) (hs : Serves w t)
    (hw : t.ram.decodedRequest.wish = w.ram.decodedRequest.wish) : Processes counter t := by
  refine ⟨hs.located h.located, hs.amount ▸ h.amount, hs.start.trans h.start, h.started, ?_⟩
  rw [Members.cost, hw]
  exact h.room

/-- A backup request turned into the request to set the values that follow. -/
def Members.asBackup (m : Members) : Members :=
  { (m.write statusByte Status.request.toByte).write wishByte Wish.set.toByte with
    decodedRequest := { m.decodedRequest with wish := .get } }

theorem Members.asBackup_byteAt {i : Nat} (hs : i ≠ statusByte) (hw : i ≠ wishByte) :
    m.asBackup.byteAt i = m.byteAt i :=
  (byteAt_write_other hw.symm).trans (byteAt_write_other hs.symm)

@[simp] theorem Members.asBackup_cost : m.asBackup.cost = 2 := rfl

section Whole

variable [Zephyr] {E : Fault → World η → Prop}

theorem responseEvents_proper {s : Session} {frame : List UInt8} {handler : η} :
    ∀ e ∈ (responseEvents device frame handler).1, e.Inner ∧ e.Proper s := by
  intro e he
  rcases List.mem_cons.mp he with rfl | he
  · exact ⟨trivial, trivial⟩
  · exact sendEach_proper e he

theorem serves_responseEvents {frame : List UInt8} (h : w.ram.Same m)
    (hd : m.decodedRequest = w.ram.decodedRequest)
    (h0 : m.byteAt startByte = w.ram.byteAt startByte) :
    Serves w { ram := m, handler := (responseEvents device frame w.handler).2,
               trace := w.trace ++ (responseEvents device frame w.handler).1 } :=
  ⟨h, by rw [hd], by rw [hd], by rw [hd], h0, _, rfl, responseEvents_proper⟩

theorem serves_sendResponse {Q : Unit → World η → Prop} (hr : Room 0 w)
    (hq : ∀ t, Serves w t → t.ram.decodedRequest = w.ram.decodedRequest → Q () t) :
    wpf (sendResponse device) Q E w := by
  have h2 := hr.started
  have h0 : (w.ram.pushed sysExEnd).byteAt startByte = w.ram.byteAt startByte :=
    byteAt_pushedAll [sysExEnd] (by omega)
  refine wpf_sendResponse h2 hr.room hr.start
    (hq _ (serves_responseEvents Members.same_pushed rfl h0) rfl)

/-- The loop over the parts ends with all responses sent, or with one still to send. -/
theorem processParts_serves {allPartsLoop : Bool} {counter : Nat} {parts : List Nat}
    (hp : Processes counter w) :
    wpf (processParts device allPartsLoop counter parts)
      (fun done t => Serves w t ∧ (done = false → Room 0 t)) Never w := by
  induction parts generalizing w with
  | nil => exact ⟨.refl, by simp⟩
  | cons j rest ih =>
    rw [processParts, wpf_bind, wpf_modifyMembers]
    refine wpf_bind_of selectPart_serves ?_
    rintro _ t ⟨hct, hwish, hcounter⟩
    have hwt : Serves w t := serves_counter.trans hct
    have ht : Processes counter t := hp.next hwt hwish
    have hroom : Room (t.ram.cost * (partIndices t.ram).length) t := by
      have hcount := Nat.mul_le_mul_left t.ram.cost (length_partIndices (m := t.ram))
      refine ⟨hcounter ▸ hp.started, ?_, ht.start⟩
      rw [hcounter]
      exact lt_of_le_of_lt (Nat.add_le_add_left hcount _) ht.room
    rw [wpf_bind, wpf_get]
    refine wpf_bind_of (processValues_uses ht.located hroom fun i hi =>
      partIndices_indexed hi ht.amount) ?_
    intro continues u hu
    have hleft : Room 0 u := hu.room (l := 0) hroom
    apply wpf_ite
    · intro _
      exact ⟨hwt.trans hu.serves, fun _ => hleft⟩
    · intro _
      rw [wpf_bind]
      apply serves_sendResponse hleft
      intro v hv hd
      have huv : Serves w v := hwt.trans (hu.serves.trans hv)
      have hw : v.ram.decodedRequest.wish = w.ram.decodedRequest.wish := by
        rw [hd, hu.wish, hwish]
      refine wpf_of_never (ih (hp.next huv hw)) fun done x hx => ?_
      exact ⟨huv.trans hx.1, hx.2⟩

theorem sendFinalAck_serves {allPartsAck : Bool} (h0 : w.ram.byteAt startByte = sysExStart) :
    wpf (sendFinalAck device allPartsAck) (fun _ t => Serves w t) Never w := by
  rw [sendFinalAck]
  apply wpf_ite
  · intro _
    rw [wpf_bind, wpf_get, wpf_bind, wpf_startMessage (by simp [maxMessageSize_eq])]
    apply wpf_sendResponse_built (by simp) (by simp [maxMessageSize_eq]) rfl
    intro m hm hd hstart
    exact serves_responseEvents hm hd (hstart.trans h0.symm)
  · intro _
    exact .refl

/-- Where the processing of a request of `size` bytes starts. -/
structure Admitted (size : Nat) (w : World η) : Prop where
  located : w.ram.Located
  amount : w.ram.decodedRequest.amount = .single ∨ w.ram.decodedRequest.amount = .all
  start : w.ram.byteAt startByte = sysExStart
  counter : w.ram.responseCounter = size - 1
  fits : size ≤ maxMessageSize
  long : stdReqMinMsgSize - bytesPerValue ≤ size
  reads : w.ram.decodedRequest.wish = .get ∨ w.ram.decodedRequest.wish = .backup →
    size = stdReqMinMsgSize

omit [Zephyr] in
theorem wpf_prepareResponse {Q : Nat → World η → Prop}
    (hb : w.ram.decodedRequest.wish = .backup →
      Q (size - 1 - 2 * bytesPerValue) { w with ram := w.ram.asBackup })
    (hn : w.ram.decodedRequest.wish ≠ .backup → Q w.ram.responseCounter w) :
    wpf (prepareResponse size) Q E w := by
  rw [prepareResponse, wpf_bind, wpf_get]
  apply wpf_ite
  · intro h
    rw [wpf_bind, wpf_writeResponse (by decide), wpf_bind, wpf_writeResponse (by decide), wpf_bind,
      wpf_modifyDecoded]
    exact hb h
  · intro h
    exact hn h

omit [Zephyr] in
theorem prepareResponse_processes (h : Admitted size w) :
    wpf (prepareResponse size) (fun counter t => Acts w t ∧ Processes counter t) Never w := by
  have hmax := maxMessageSize_eq
  have hlong := h.long
  have hsize := h.fits
  simp only [stdReqMinMsgSize, indexByte, bytesPerValue] at hlong
  apply wpf_prepareResponse
  · intro hb
    rw [h.reads (.inr hb)]
    have h0 : w.ram.asBackup.byteAt startByte = w.ram.byteAt startByte := by
      rw [Members.asBackup_byteAt (by decide) (by decide)]
    exact ⟨⟨⟨rfl, rfl, rfl, rfl, rfl⟩, h0, [], by simp⟩,
      ⟨h.located.enabled, h.located.block, h.located.sect⟩,
      h.amount, h0.trans h.start, by decide, by simp [maxMessageSize_eq]⟩
  · intro hb
    rw [h.counter]
    refine ⟨⟨.refl, rfl, [], by simp⟩, h.located, h.amount, h.start, by omega, ?_⟩
    unfold Members.cost
    split
    · rename_i hg
      rw [h.reads (.inl hg)]
      decide
    · omega

/-- A standard request is processed without leaving the array, and the handler is asked about
parameters of the layout only. -/
theorem processStandardRequest_acts (h : Admitted size w) :
    wpf (processStandardRequest device size)
      (fun done t => Acts w t ∧ (done = false → Room 0 t)) Never w := by
  rw [processStandardRequest, wpf_bind, wpf_get]
  refine wpf_bind_of (prepareResponse_processes h) ?_
  rintro counter t ⟨hwt, ht⟩
  refine wpf_bind_of (processParts_serves ht) ?_
  rintro done u ⟨htu, hu⟩
  apply wpf_ite
  · intro hd
    exact ⟨hwt.serves htu, fun _ => hu (by simpa using hd)⟩
  · intro _
    refine wpf_bind_of (sendFinalAck_serves (htu.start.trans ht.start)) fun _ v hv => ?_
    exact ⟨hwt.serves (htu.trans hv), by simp⟩

end Whole

end Zlibs.SysExConf
