import Zlibs.SysExConf.SetExactness

/-! Requests that end in an error after values have been set. -/
namespace Zlibs.SysExConf
open Lib Midi

variable {η : Type} {device : Device η} {m : Members} {w : World η} {size : Nat} {sect : Section}
  {block sectIndex : UInt8} {values : List (UInt16 × UInt16)} {handler : η} {ignores : Bool}

/-- The handler acknowledges every value. -/
def Acknowledges (device : Device η) : Prop :=
  ∀ block sectIndex index newValue handler,
    (device.dataHandler.set block sectIndex index newValue handler).1 = .ack

/-- A request that is answered with an error has set no value. -/
def Atomic (es : List Event) : Prop :=
  ∀ answer ∈ answers es, answer.getD statusByte 0 ≠ Status.ack.toByte → setCalls es = []

/-- The first value is within the limits of the section and a later one is not. -/
def Mixed (sect : Section) (values : List (UInt16 × UInt16)) : Prop :=
  ∃ first rest, values = first :: rest ∧ sect.Accepts first.2 ∧ ∃ value ∈ rest, ¬ sect.Accepts value.2

theorem setOutcome_cons_of_accepts (hack : Acknowledges device) {value : UInt16 × UInt16}
    (hv : sect.Accepts value.2) :
    setOutcome device sect ignores block sectIndex (value :: values) handler =
      let r := device.dataHandler.set block sectIndex value.1 value.2 handler
      let t := setOutcome device sect ignores block sectIndex values r.2
      (t.1, .set block sectIndex value.1 value.2 r.1 :: t.2.1, t.2.2) := by
  rw [setOutcome, if_pos hv]
  exact if_pos (.inl (hack ..))

/-- With a handler that acknowledges, only a value out of the limits stops the loop. -/
theorem setOutcome_eq_none_iff (hack : Acknowledges device) :
    (setOutcome device sect ignores block sectIndex values handler).1 = none ↔
      ∀ value ∈ values, sect.Accepts value.2 := by
  induction values generalizing handler with
  | nil => simp [setOutcome]
  | cons value rest ih =>
    by_cases hv : sect.Accepts value.2
    · rw [setOutcome_cons_of_accepts hack hv]
      simpa [hv] using ih
    · simp [setOutcome, hv]

/-- The values before the first one out of the limits are set. -/
theorem setCalls_of_acknowledges (hack : Acknowledges device) :
    setCalls (setOutcome device sect ignores block sectIndex values handler).2.1 =
      (values.takeWhile fun value => sect.Accepts value.2).map
        fun value => (block, sectIndex, value) := by
  induction values generalizing handler with
  | nil => rfl
  | cons value rest ih =>
    by_cases hv : sect.Accepts value.2
    · rw [setOutcome_cons_of_accepts hack hv]
      simpa [setCalls, hv] using ih
    · simp [setOutcome, hv, setCalls]

theorem setOutcome_atomic_iff (hack : Acknowledges device) :
    let r := setOutcome device sect ignores block sectIndex values handler
    (r.1 ≠ none → setCalls r.2.1 = []) ↔ ¬ Mixed sect values := by
  cases values with
  | nil => simp [setOutcome, Mixed]
  | cons value rest =>
    by_cases hv : sect.Accepts value.2
    · have hcalls : setCalls (setOutcome device sect ignores block sectIndex (value :: rest)
          handler).2.1 ≠ [] := by
        rw [setOutcome_cons_of_accepts hack hv]
        simp [setCalls]
      have hnone := @setOutcome_eq_none_iff _ _ sect block sectIndex (value :: rest) handler ignores
        hack
      constructor
      · rintro h ⟨_, _, hcons, _, late, hm, hl⟩
        cases hcons
        refine hcalls (h fun hn => hl ?_)
        exact hnone.mp hn late (List.mem_cons_of_mem _ hm)
      · intro h hs
        refine (hs (hnone.mpr ?_)).elim
        intro late hm
        rcases List.mem_cons.mp hm with rfl | hm
        · exact hv
        · by_contra hl
          exact h ⟨value, rest, rfl, hv, late, hm, hl⟩
    · refine iff_of_true ?_ ?_
      · intro _
        simp [setOutcome, hv, setCalls]
      · rintro ⟨_, _, hcons, hfirst, _⟩
        cases hcons
        exact hv hfirst

theorem mixed_singleton {value : UInt16 × UInt16} : ¬ Mixed sect [value] := by
  rintro ⟨_, _, hcons, _, _, hm, _⟩
  cases hcons
  simp at hm

theorem Amount.toByte_ofByte {byte : UInt8} {amount : Amount}
    (h : amount = .single ∨ amount = .all) (hb : Amount.ofByte byte = amount) :
    byte = amount.toByte := by
  unfold Amount.ofByte at hb
  split_ifs at hb with h0 h1
  · rw [← hb, h0]
    rfl
  · rw [← hb, h1]
    rfl
  · rcases h with rfl | rfl <;> cases hb

theorem take_header : m.responseArray.toList.take indexByte =
    [m.byteAt startByte, m.byteAt idByte1, m.byteAt idByte2, m.byteAt idByte3, m.byteAt statusByte,
      m.byteAt partByte, m.byteAt wishByte, m.byteAt amountByte, m.byteAt blockByte,
      m.byteAt sectionByte] := by
  apply List.ext_getElem
  · rw [List.length_take, Members.length_array, maxMessageSize_eq]
    rfl
  intro i hi hi'
  rw [List.getElem_take, Members.getElem_array]
  simp only [List.length_cons, List.length_nil] at hi'
  interval_cases i <;> rfl

/-- An accepted request is a frame for the section at its block and section bytes. -/
theorem receivesSet_of_decoded {d : DecodedRequest} (h : SetRequest device m size)
    (hd : (m.begun size).decoded size = .ok d) :
    ∃ sect body, body.length + 11 = size ∧ ReceivesSet device m (m.byteAt partByte) d.amount
      (m.byteAt blockByte) (m.byteAt sectionByte) sect body := by
  have hacc := Members.accepts_of_decoded hd
  obtain ⟨_, _, hamount⟩ := set_marked h hd
  have hlong : 13 ≤ size := hacc.long
  have hfits := h.fits
  have hd' : d.amount = Amount.ofByte (m.byteAt amountByte) := by
    rw [hacc.operands, Members.operands_amount]
    rfl
  have hblock : (m.byteAt blockByte).toNat < m.layout.length := of_decide_eq_true hacc.block
  have hsect : (m.byteAt sectionByte).toNat <
      (m.layout.getD (m.byteAt blockByte).toNat ⟨[]⟩).sections.length := of_decide_eq_true hacc.sect
  rw [List.getD_eq_getElem _ _ hblock] at hsect
  let body := (m.responseArray.toList.take (size - 1)).drop indexByte
  have hbody : body.length + 11 = size := by
    simp only [body, List.length_drop, List.length_take, Members.length_array, indexByte]
    omega
  refine ⟨_, body, hbody, ?_, by omega, hacc.enabled,
    ⟨_, List.getElem?_eq_getElem hblock, List.getElem?_eq_getElem hsect⟩, hamount⟩
  have hamountByte := Amount.toByte_ofByte hamount hd'.symm
  have hbefore : m.responseArray.toList.take (size - 1) =
      m.responseArray.toList.take indexByte ++ body := by
    rw [← List.take_append_drop indexByte (m.responseArray.toList.take (size - 1)), List.take_take,
      Nat.min_eq_left (by simp only [indexByte]; omega)]
  rw [hbody, Members.take_terminated (by omega) hfits h.addressed.terminated, hbefore, take_header,
    h.addressed.start, h.addressed.id1, h.addressed.id2, h.addressed.id3, h.request, h.wish,
    hamountByte]
  rfl

/-- A request to set all values of a part that passes every check of the decoder. -/
structure AcceptsAll (device : Device η) (m : Members) (part block sectIndex : UInt8)
    (sect : Section) (body : List UInt8) : Prop where
  received : ReceivesSet device m part .all block sectIndex sect body
  long : 13 ≤ body.length + 11
  valid : PartOk .all part sect
  length : body.length + 11 = setLength .all part sect

/-- Such a request, the first value of which is within the limits and a later one is not. -/
def HalfLegal (device : Device η) (m : Members) (size : Nat) : Prop :=
  ∃ part block sectIndex sect body, body.length + 11 = size ∧
    AcceptsAll device m part block sectIndex sect body ∧ Mixed sect (framePairs .all part body)

/-- Such a request has as many values as its part. -/
def Fitting (device : Device η) (m : Members) (size : Nat) : Prop :=
  ∀ part block sectIndex sect body, body.length + 11 = size →
    AcceptsAll device m part block sectIndex sect body → body.length = 2 * partSize sect part

/-- Up to 32768 parameters no length wraps. -/
theorem fitting_of_small (h : ∀ block ∈ m.layout, ∀ sect ∈ block.sections,
    sect.numberOfParameters.toNat ≤ 32768) : Fitting device m size := by
  rintro part block sectIndex sect body rfl hall
  obtain ⟨blk, hblk, hsect⟩ := hall.received.located
  have hsmall := h blk (List.mem_of_getElem? hblk) sect (List.mem_of_getElem? hsect)
  have hlong := hall.long
  rcases length_of_accepted hall.valid hall.length hall.received.fits (by omega) with
    hl | ⟨_, hwrap, _⟩
  · exact hl
  · omega

theorem AcceptsAll.values_eq {part : UInt8} {body : List UInt8}
    (h : AcceptsAll device m part block sectIndex sect body)
    (hfit : Fitting device m (body.length + 11)) :
    partValues m sect part = framePairs .all part body :=
  h.received.partValues (hfit _ _ _ _ body rfl h)

theorem not_halfLegal_of_error {status : Status}
    (hd : (m.begun size).decoded size = .error status) : ¬ HalfLegal device m size := by
  rintro ⟨part, block, sectIndex, sect, body, rfl, h, _⟩
  rw [h.received.decoded, if_neg (not_lt.mpr h.long), if_neg (not_not.mpr h.valid),
    if_neg (not_not.mpr h.length)] at hd
  cases hd

theorem Amount.toByte_inj {a b : Amount} : a.toByte = b.toByte ↔ a = b := by
  cases a <;> cases b <;> decide

/-- The received bytes determine the request. -/
theorem ReceivesSet.unique {part part' block' sectIndex' : UInt8} {amount amount' : Amount}
    {sect' : Section} {body body' : List UInt8}
    (h : ReceivesSet device m part amount block sectIndex sect body)
    (h' : ReceivesSet device m part' amount' block' sectIndex' sect' body')
    (hl : body'.length = body.length) : part' = part ∧ amount' = amount ∧ sect' = sect := by
  have hframe := h.held.symm.trans (hl ▸ h'.held)
  simp only [setFrame, List.cons_append, List.cons.injEq, true_and] at hframe
  obtain ⟨rfl, hamount, rfl, rfl, _⟩ := hframe
  obtain ⟨blk, hblk, hsect⟩ := h.located
  obtain ⟨blk', hblk', hsect'⟩ := h'.located
  refine ⟨rfl, (Amount.toByte_inj.mp hamount).symm, ?_⟩
  rw [hblk, Option.some_inj] at hblk'
  rw [← hblk', hsect, Option.some_inj] at hsect'
  exact hsect'.symm

theorem lengths_of_decoded {part : UInt8} {amount : Amount} {body : List UInt8}
    {d : DecodedRequest} {n : Nat} (h : ReceivesSet device m part amount block sectIndex sect body)
    (hd : (m.begun n).decoded (body.length + 11) = .ok d) :
    13 ≤ body.length + 11 ∧ PartOk amount part sect ∧
      body.length + 11 = setLength amount part sect := by
  rw [h.decoded] at hd
  split_ifs at hd with hshort hpart hlen
  exact ⟨not_lt.mp hshort, hpart, not_not.mp hlen⟩

theorem atomic_of_no_call {es : List Event} (h : setCalls es = []) : Atomic es :=
  fun _ _ _ => h

theorem atomic_iff_of_outcome {es : List Event} {o : Option Status × List Event × η}
    {id : ManufacturerId} {part : UInt8} {amount : Amount} {body : List UInt8}
    (hcalls : setCalls es = setCalls o.2.1)
    (hanswers : answers es = [(setFrame id part amount block sectIndex body).set statusByte
      (o.1.getD .ack).toByte])
    (hne : o.1 ≠ some .ack) : Atomic es ↔ (o.1 ≠ none → setCalls o.2.1 = []) := by
  have hstatus : ((setFrame id part amount block sectIndex body).set statusByte
      (o.1.getD .ack).toByte).getD statusByte 0 ≠ Status.ack.toByte ↔ o.1 ≠ none := by
    rw [getD_set_status, Ne, Status.toByte_inj]
    rcases o with ⟨_ | status, es, last⟩
    · simp
    · simpa using hne
  rw [Atomic, hanswers, hcalls]
  simp only [List.mem_singleton, forall_eq]
  rw [hstatus]

section Whole

variable [Zephyr]

theorem AcceptsAll.newEvents {part : UInt8} {body : List UInt8}
    (h : AcceptsAll device w.ram part block sectIndex sect body) :
    let r := setOutcome device sect w.ram.userErrorIgnoreModeEnabled block sectIndex
      (partValues w.ram sect part) w.handler
    let es := SysExConf.newEvents (handleRequest device (body.length + 11)) w
    setCalls es = setCalls r.2.1 ∧ answers es =
      [(setFrame device.manufacturerId part .all block sectIndex body).set statusByte
        (r.1.getD .ack).toByte] := by
  intro r es
  obtain ⟨hcalls, hanswers⟩ := newEvents_set h.received
  rw [h.received.answer_all, if_neg (not_lt.mpr h.long), if_neg (not_not.mpr h.valid),
    if_neg (not_not.mpr h.length)] at hcalls hanswers
  rw [setCalls_setOutcome.1, List.nil_append] at hanswers
  exact ⟨hcalls, hanswers⟩

theorem set_atomic_iff (h : SetRequest device w.ram size) (hack : Acknowledges device)
    (hfit : Fitting device w.ram size) :
    Atomic (newEvents (handleRequest device size) w) ↔ ¬ HalfLegal device w.ram size := by
  cases hd : (w.ram.begun size).decoded size with
  | error status =>
    obtain ⟨hcalls, _⟩ := newEvents_request h
    rw [Members.setAnswer, hd] at hcalls
    exact iff_of_true (atomic_of_no_call hcalls) (not_halfLegal_of_error hd)
  | ok d =>
    obtain ⟨sect, body, rfl, hset⟩ := receivesSet_of_decoded h hd
    obtain ⟨hcalls, hanswers⟩ := newEvents_set hset
    obtain ⟨_, _, hamount⟩ := set_marked h hd
    rcases hamount with ha | ha
    · rw [ha] at hset hanswers
      obtain ⟨hlong, hpart, hlen⟩ := lengths_of_decoded hset hd
      have hnot : ¬ HalfLegal device w.ram (body.length + 11) := by
        rintro ⟨_, _, _, _, _, hl, hall, _⟩
        obtain ⟨_, hamount, _⟩ := hset.unique hall.received (Nat.add_right_cancel hl)
        cases hamount
      refine iff_of_true ?_ hnot
      have hlen' : body.length + 11 = stdReqMinMsgSize := hlen
      rw [hset.answer_single, if_neg (not_lt.mpr hlong), if_neg (not_not.mpr hpart),
        if_neg (not_not.mpr hlen')] at hcalls hanswers
      by_cases hindex : w.ram.valueAt 0 < sect.numberOfParameters
      · rw [if_neg (not_not.mpr hindex)] at hcalls hanswers
        rw [setCalls_setOutcome.1, List.nil_append] at hanswers
        rw [atomic_iff_of_outcome hcalls hanswers setOutcome_ne_ack]
        exact (setOutcome_atomic_iff hack).mpr mixed_singleton
      · rw [if_pos hindex] at hcalls
        exact atomic_of_no_call hcalls
    · rw [ha] at hset
      obtain ⟨hlong, hpart, hlen⟩ := lengths_of_decoded hset hd
      have hall : AcceptsAll device w.ram _ _ _ sect body := ⟨hset, hlong, hpart, hlen⟩
      obtain ⟨hcalls, hanswers⟩ := hall.newEvents
      rw [atomic_iff_of_outcome hcalls hanswers setOutcome_ne_ack]
      refine (setOutcome_atomic_iff hack).trans (not_congr ?_)
      constructor
      · intro hmixed
        exact ⟨_, _, _, _, body, rfl, hall, hall.values_eq hfit ▸ hmixed⟩
      · rintro ⟨_, _, _, _, _, hl, hother, hmixed⟩
        rw [← hother.values_eq (by rwa [hl])] at hmixed
        obtain ⟨rfl, _, rfl⟩ := hset.unique hother.received (Nat.add_right_cancel hl)
        exact hmixed

/-- With a handler that acknowledges, a request answered with an error has set no value, unless the
first of its values is within the limits and a later one is not: then those before the first one
out of the limits are set, in order. -/
theorem set_stops_at_illegal_value (h : SetRequest device w.ram size) (hack : Acknowledges device)
    (hfit : Fitting device w.ram size) :
    let es := newEvents (handleRequest device size) w
    (Atomic es ↔ ¬ HalfLegal device w.ram size) ∧
      ∀ part block sectIndex sect body, body.length + 11 = size →
        AcceptsAll device w.ram part block sectIndex sect body →
        setCalls es = ((framePairs .all part body).takeWhile fun pair => sect.Accepts pair.2).map
          fun pair => (block, sectIndex, pair) := by
  intro es
  refine ⟨set_atomic_iff h hack hfit, ?_⟩
  rintro part block sectIndex sect body rfl hall
  rw [hall.newEvents.1, setCalls_of_acknowledges hack, hall.values_eq hfit]

end Whole

theorem acknowledges_ackDevice : Acknowledges ackDevice := fun _ _ _ _ _ => rfl

theorem set_stops_at_illegal_value_example :
    let w := receivedAll ⟨3, 0, 100⟩ [0, 1, 0, 2, 3, 0]
    let es := newEvents (handleRequest ackDevice 17) w
    ¬ Atomic es ∧ setCalls es = [(0, 0, 0, 1), (0, 0, 1, 2)] := by
  intro w es
  have hset : ReceivesSet ackDevice w.ram 0 .all 0 0 ⟨3, 0, 100⟩ [0, 1, 0, 2, 3, 0] :=
    receivesSet_receivedAll _ [0, 1, 0, 2, 3, 0] (by decide +kernel) (by decide +kernel)
  have hall : AcceptsAll ackDevice w.ram 0 0 0 ⟨3, 0, 100⟩ [0, 1, 0, 2, 3, 0] :=
    ⟨hset, by decide, by decide, by decide⟩
  obtain ⟨hatomic, hcalls⟩ := @set_stops_at_illegal_value _ _ w 17 _ hset.setRequest
    acknowledges_ackDevice (fitting_of_small (by decide))
  refine ⟨fun h => hatomic.mp h ⟨0, 0, 0, _, _, rfl, hall, _, _, rfl, by decide, _,
    List.mem_cons_of_mem _ List.mem_cons_self, by decide⟩, ?_⟩
  exact (hcalls 0 0 0 _ _ rfl hall).trans (by decide)

/-- The first of two values is set before the second one is refused. -/
theorem second_value_refused_after_set :
    ¬ Atomic (newEvents (handleRequest ackDevice 15) (receivedAll ⟨2, 0, 100⟩ [0, 1, 3, 0])) := by
  have hanswer : (setFrame ackDevice.manufacturerId 0 .all 0 0 [0, 1, 3, 0]).set statusByte
      Status.errorNewValue.toByte ∈
        answers (newEvents (handleRequest ackDevice 15)
          (receivedAll ⟨2, 0, 100⟩ [0, 1, 3, 0])) := by decide +kernel
  intro h
  have hnone := h _ hanswer (by decide +kernel)
  exact absurd hnone (by decide +kernel)

end Zlibs.SysExConf
