import Zlibs.SysExConf.SetExactness

/-! The bytes that `_response_array` holds behind a frame make no difference to its answer. -/
namespace Zlibs.SysExConf
open Lib Midi

variable {η α β : Type} {device : Device η} {m : Members} {w t : World η} {n i : Nat}
  {x y : SysExM η α} {k : α → SysExM η β} {byte : UInt8}

/-- The world with other bytes in the array. -/
def World.over (w : World η) (a : Vector UInt8 maxMessageSize) : World η :=
  { w with ram := { w.ram with responseArray := a } }

/-- The array holds the same frame: its first `n` bytes, and what has been written since. -/
def Agrees (n : Nat) (m : Members) (a : Vector UInt8 maxMessageSize) : Prop :=
  ∀ i, i < n ∨ i < m.responseCounter → a.toList.getD i 0 = m.byteAt i

/-- A program that takes the same course over every array that holds the same frame. -/
def Blind (n : Nat) (x : SysExM η α) (w : World η) : Prop :=
  ∀ a, Agrees n w.ram a → ∃ a', x.run (w.over a) = ((x.run w).1, (x.run w).2.over a') ∧
    Agrees n (x.run w).2.ram a'

theorem blind_pure {r : α} : Blind n (pure r) w := fun a h => ⟨a, rfl, h⟩

theorem blind_throw {e : Fault} : Blind n (throw e : SysExM η α) w := fun a h => ⟨a, rfl, h⟩

theorem blind_bind (hx : Blind n x w) (hk : ∀ r t, x.run w = (.ok r, t) → Blind n (k r) t) :
    Blind n (x >>= k) w := by
  intro a ha
  obtain ⟨a', hrun, ha'⟩ := hx a ha
  rw [run_bind, run_bind, hrun]
  rcases hr : x.run w with ⟨_ | r, t⟩
  · rw [hr] at ha'
    exact ⟨a', rfl, ha'⟩
  · rw [hr] at ha'
    exact hk r t hr a' ha'

theorem wpf_ok {Q : α → World η → Prop} {E : Fault → World η → Prop} {r : α} (h : wpf x Q E w)
    (hr : x.run w = (.ok r, t)) : Q r t := by
  rw [wpf, hr] at h
  exact h

theorem blind_ite {c : Prop} [Decidable c] (hx : c → Blind n x w) (hy : ¬ c → Blind n y w) :
    Blind n (if c then x else y) w := by
  split
  · exact hx ‹_›
  · exact hy ‹_›

theorem blind_get {k : World η → SysExM η α} (hk : ∀ a, Agrees n w.ram a → k (w.over a) = k w)
    (h : Blind n (k w) w) : Blind n (get >>= k) w := by
  intro a ha
  obtain ⟨a', hrun, ha'⟩ := h a ha
  refine ⟨a', ?_, ha'⟩
  rw [run_bind]
  change (k (w.over a)).run (w.over a) = _
  rw [hk a ha, hrun, run_bind]
  rfl

/-- A change of the other members. -/
theorem blind_modifyMembers {f : Members → Members}
    (hf : ∀ m a, f { m with responseArray := a } = { f m with responseArray := a })
    (hc : (f w.ram).responseCounter ≤ w.ram.responseCounter ∨ (f w.ram).responseCounter ≤ n) :
    Blind n (modifyMembers f) w := by
  intro a ha
  have hkept : f w.ram = { f w.ram with responseArray := w.ram.responseArray } :=
    hf w.ram w.ram.responseArray
  refine ⟨a, ?_, fun i hi => ?_⟩
  · change (Except.ok (), { w.over a with ram := f { w.ram with responseArray := a } }) = _
    rw [hf]
    rfl
  · change i < n ∨ i < (f w.ram).responseCounter at hi
    change _ = (f w.ram).responseArray.toList.getD i 0
    rw [hkept]
    exact ha i (by omega)

theorem blind_modifyDecoded {f : DecodedRequest → DecodedRequest} : Blind n (modifyDecoded f) w :=
  blind_modifyMembers (fun _ _ => rfl) (.inl le_rfl)

theorem blind_log {e : Event} : Blind n (log e) w := fun a h => ⟨a, rfl, h⟩

theorem blind_readResponse (hi : i < n) : Blind n (readResponse i) w := by
  intro a ha
  refine ⟨a, ?_, ?_⟩
  · by_cases h : i < maxMessageSize
    · have hbyte := ha i (.inl hi)
      have hleft : (readResponse i).run (w.over a) = (Except.ok a[i], w.over a) := by
        simp only [readResponse, run_bind]
        change ((if h : i < maxMessageSize then pure a[i] else throw Fault.outOfBounds :
          SysExM η UInt8)).run (w.over a) = _
        rw [dif_pos h]
        rfl
      have hright : (readResponse i).run w = (Except.ok w.ram.responseArray[i], w) := by
        simp only [readResponse, run_bind]
        change ((if h : i < maxMessageSize then pure w.ram.responseArray[i] else
          throw Fault.outOfBounds : SysExM η UInt8)).run w = _
        rw [dif_pos h]
        rfl
      have heq : a[i] = w.ram.responseArray[i] := by
        simpa [Members.byteAt, h] using hbyte
      rw [hleft, hright, heq]
    · have hthrow : ∀ u : World η, (readResponse i).run u = (Except.error .outOfBounds, u) := by
        intro u
        simp only [readResponse, run_bind]
        change ((if h : i < maxMessageSize then pure u.ram.responseArray[i] else
          throw Fault.outOfBounds : SysExM η UInt8)).run u = _
        rw [dif_neg h]
        rfl
      rw [hthrow, hthrow]
  · have hsame : ((readResponse i).run w).2.ram = w.ram := by
      simp only [readResponse, run_bind]
      change (((if h : i < maxMessageSize then pure w.ram.responseArray[i] else
        throw Fault.outOfBounds : SysExM η UInt8)).run w).2.ram = _
      split <;> rfl
    rw [hsame]
    exact ha

theorem run_writeResponse (h : i < maxMessageSize) (u : World η) :
    (writeResponse i byte).run u = (.ok (), { u with ram := u.ram.write i byte }) := by
  have hw : u.ram.write i byte = { u.ram with responseArray := u.ram.responseArray.set i byte } := by
    simp [Members.write, ← Vector.toList_inj, Vector.toList_set]
  rw [writeResponse, dif_pos h, hw]
  rfl

theorem agrees_write {a : Vector UInt8 maxMessageSize} (h : Agrees n m a) :
    Agrees n (m.write i byte) (a.setIfInBounds i byte) := by
  intro j hj
  have hbyte := h j hj
  by_cases hi : i = j
  · subst hi
    by_cases hlt : i < maxMessageSize
    · rw [Members.byteAt_write_same hlt]
      simp [hlt]
    · simp [Members.byteAt, Members.write, hlt]
  · rw [Members.byteAt_write_other hi, ← hbyte]
    simp [hi]

theorem blind_writeResponse : Blind n (writeResponse i byte) w := by
  intro a ha
  by_cases h : i < maxMessageSize
  · refine ⟨a.setIfInBounds i byte, ?_, ?_⟩
    · rw [run_writeResponse h, run_writeResponse h]
      rfl
    · rw [run_writeResponse h]
      exact agrees_write ha
  · refine ⟨a, ?_, ?_⟩
    · rw [writeResponse, dif_neg h]
      rfl
    · rw [writeResponse, dif_neg h]
      exact ha

theorem blind_push : Blind n (push byte) w := by
  rw [push]
  apply blind_get fun _ _ => rfl
  intro a ha
  by_cases h : w.ram.responseCounter < maxMessageSize
  · refine ⟨a.setIfInBounds w.ram.responseCounter byte, ?_, ?_⟩
    · rw [run_bind, run_bind, run_writeResponse h, run_writeResponse h]
      rfl
    · rw [run_bind, run_writeResponse h]
      intro j hj
      change j < n ∨ j < w.ram.responseCounter + 1 at hj
      by_cases hlast : j = w.ram.responseCounter
      · subst hlast
        exact ((by simp [h]) : _ = byte).trans (Members.byteAt_write_same h).symm
      · exact agrees_write ha j (by simp only [Members.write_responseCounter]; omega)
  · refine ⟨a, ?_, ?_⟩
    · rw [run_bind, run_bind, writeResponse, dif_neg h]
      rfl
    · rw [run_bind, writeResponse, dif_neg h]
      exact ha

theorem blind_pushAll {bytes : List UInt8} : Blind n (pushAll bytes) w := by
  induction bytes generalizing w with
  | nil => exact blind_pure
  | cons byte rest ih => exact blind_bind blind_push fun _ _ _ => ih

theorem blind_startMessage {bytes : List UInt8} : Blind n (startMessage bytes) w :=
  blind_bind (blind_modifyMembers (fun _ _ => rfl) (.inl (Nat.zero_le _))) fun _ _ _ => blind_pushAll

theorem blind_setStatus {status : Status} : Blind n (setStatus status) w := blind_writeResponse

theorem blind_refuse {status : Status} : Blind n (refuse status) w :=
  blind_bind blind_setStatus fun _ _ _ => blind_pure

theorem blind_addToResponse {value : UInt16} : Blind n (addToResponse value) w := by
  rw [addToResponse]
  apply blind_get fun _ _ => rfl
  apply blind_ite
  · intro _
    exact blind_pure
  · intro _
    exact blind_bind blind_push fun _ _ _ => blind_bind blind_push fun _ _ _ => blind_pure

theorem blind_callGet {block sect : UInt8} {index : UInt16} :
    Blind n (callGet device block sect index) w := fun a h => ⟨a, rfl, h⟩

theorem blind_callSet {block sect : UInt8} {index newValue : UInt16} :
    Blind n (callSet device block sect index newValue) w := fun a h => ⟨a, rfl, h⟩

theorem blind_callSendResponse {packet : MidiUmp} : Blind n (callSendResponse device packet) w :=
  fun a h => ⟨a, rfl, h⟩

theorem blind_writeEach {packets : List MidiUmp} :
    Blind n (writeEach (callSendResponse device) packets) w := by
  induction packets generalizing w with
  | nil => exact blind_pure
  | cons packet rest ih =>
    refine blind_bind blind_callSendResponse fun _ _ _ => ?_
    apply blind_ite
    · intro _
      exact blind_pure
    · intro _
      exact ih

theorem frame_over {a : Vector UInt8 maxMessageSize} (h : Agrees n w.ram a) :
    (w.over a).ram.frame = w.ram.frame := by
  apply List.ext_getElem
  · simp [Members.frame, World.over]
  intro i hi hi'
  have hlt : i < w.ram.responseCounter := by
    simp only [Members.frame, List.length_take] at hi'
    omega
  have hbyte := h i (.inr hlt)
  have hlen : i < maxMessageSize := by
    simp only [Members.frame, List.length_take, Members.length_array] at hi'
    omega
  simpa [Members.frame, World.over, Members.byteAt, hlen] using hbyte

theorem blind_sendResponse [Zephyr] : Blind n (sendResponse device) w := by
  refine blind_bind blind_push fun _ t _ => ?_
  apply blind_get
  · intro a ha
    simp only [frame_over ha]
  apply blind_ite
  · intro _
    exact blind_pure
  intro _
  refine blind_bind blind_log fun _ _ _ => ?_
  apply blind_ite
  · intro _
    exact blind_bind blind_throw fun _ _ _ => blind_bind blind_writeEach fun _ _ _ => blind_pure
  · intro _
    exact blind_bind blind_writeEach fun _ _ _ => blind_pure

theorem blind_decodeOperands (h : w.ram.decodedRequest.amount = .single → stdReqMinMsgSize ≤ n) :
    Blind n (decodeOperands : SysExM η Unit) w := by
  rw [decodeOperands]
  apply blind_get fun _ _ => rfl
  apply blind_ite
  · intro ha
    have hn := h ha
    simp only [stdReqMinMsgSize, indexByte, bytesPerValue] at hn
    refine blind_bind (blind_readResponse (by simp only [indexByte]; omega)) fun _ _ _ => ?_
    refine blind_bind (blind_readResponse (by simp only [indexByte]; omega)) fun _ _ _ => ?_
    refine blind_bind blind_modifyDecoded fun _ _ _ => ?_
    apply blind_ite
    · intro _
      refine blind_bind (blind_readResponse (by simp only [indexByte, bytesPerValue]; omega))
        fun _ _ _ => ?_
      refine blind_bind (blind_readResponse (by simp only [indexByte, bytesPerValue]; omega))
        fun _ _ _ => ?_
      exact blind_modifyDecoded
    · intro _
      exact blind_pure
  · intro _
    exact blind_pure

theorem blind_decodeStandardRequest :
    Blind n (decodeStandardRequest n : SysExM η Bool) w := by
  rw [decodeStandardRequest]
  apply blind_ite
  · intro _
    exact blind_pure
  intro _
  apply blind_ite
  · intro _
    exact blind_refuse
  intro hlong
  simp only [stdReqMinMsgSize, indexByte, bytesPerValue] at hlong
  apply blind_get fun _ _ => rfl
  apply blind_ite
  · intro _
    exact blind_refuse
  intro _
  refine blind_bind (blind_readResponse (by simp only [partByte]; omega)) fun _ _ _ => ?_
  refine blind_bind (blind_readResponse (by simp only [wishByte]; omega)) fun _ _ _ => ?_
  refine blind_bind (blind_readResponse (by simp only [amountByte]; omega)) fun _ _ _ => ?_
  refine blind_bind (blind_readResponse (by simp only [blockByte]; omega)) fun _ _ _ => ?_
  refine blind_bind (blind_readResponse (by simp only [sectionByte]; omega)) fun _ _ _ => ?_
  refine blind_bind blind_modifyDecoded fun _ t _ => ?_
  apply blind_get fun _ _ => rfl
  apply blind_ite
  · intro _
    exact blind_refuse
  intro _
  apply blind_ite
  · intro _
    exact blind_refuse
  intro _
  apply blind_ite
  · intro _
    exact blind_refuse
  intro _
  apply blind_ite
  · intro _
    exact blind_refuse
  intro _
  apply blind_ite
  · intro _
    exact blind_refuse
  intro _
  apply blind_ite
  · intro _
    exact blind_refuse
  intro hlength
  refine blind_bind blind_setStatus fun _ u hu => ?_
  have hsame : u = { t with ram := t.ram.write statusByte Status.ack.toByte } :=
    wpf_ok (Q := fun _ u => u = _) (E := Never) (wpf_setStatus.mpr rfl) hu
  refine blind_bind (blind_decodeOperands ?_) fun _ _ _ => blind_pure
  intro ha
  rw [hsame] at ha
  have ha : t.ram.decodedRequest.amount = .single := ha
  rw [not_not.mp hlength, Members.generateMessageLength, ha]

theorem blind_checkManufacturerId (hn : specialReqMsgSize ≤ n) :
    Blind n (checkManufacturerId device) w := by
  simp only [specialReqMsgSize, wishByte] at hn
  refine blind_bind (blind_readResponse (by simp only [idByte1]; omega)) fun _ _ _ => ?_
  refine blind_bind (blind_readResponse (by simp only [idByte2]; omega)) fun _ _ _ => ?_
  exact blind_bind (blind_readResponse (by simp only [idByte3]; omega)) fun _ _ _ => blind_pure

theorem blind_checkStatus (hn : specialReqMsgSize ≤ n) : Blind n (checkStatus : SysExM η Bool) w := by
  simp only [specialReqMsgSize, wishByte] at hn
  exact blind_bind (blind_readResponse (by simp only [statusByte]; omega)) fun _ _ _ => blind_pure

theorem blind_getValue {index : UInt16} : Blind n (getValue device index) w := by
  rw [getValue]
  apply blind_get fun _ _ => rfl
  refine blind_bind blind_callGet fun r _ _ => ?_
  rcases r with ⟨result, value⟩
  apply blind_ite
  · intro _
    exact blind_bind blind_addToResponse fun _ _ _ => blind_pure
  intro _
  apply blind_get fun _ _ => rfl
  apply blind_ite
  · intro _
    exact blind_bind blind_addToResponse fun _ _ _ => blind_pure
  · intro _
    exact blind_refuse

theorem blind_setValue {index : UInt16} : Blind n (setValue device index) w := by
  rw [setValue]
  apply blind_get fun _ _ => rfl
  refine blind_bind blind_callSet fun _ _ _ => ?_
  apply blind_ite
  · intro _
    exact blind_pure
  intro _
  apply blind_get fun _ _ => rfl
  apply blind_ite
  · intro _
    exact blind_pure
  · intro _
    exact blind_refuse

theorem blind_processGet : Blind n (processGet device i) w := by
  rw [processGet]
  apply blind_get fun _ _ => rfl
  apply blind_ite
  · intro _
    apply blind_ite
    · intro _
      exact blind_refuse
    · intro _
      exact blind_getValue
  · intro _
    exact blind_getValue

/-- The pair of bytes of a value lies within the frame. -/
def PairWithin (n startIndex i : Nat) : Prop := indexByte + 2 * (i - startIndex) + 1 < n

theorem blind_processSet {startIndex : Nat}
    (hread : w.ram.decodedRequest.amount = .single ∨ PairWithin n startIndex i) :
    Blind n (processSet device startIndex i) w := by
  rw [processSet]
  apply blind_get fun _ _ => rfl
  apply blind_ite
  · intro _
    apply blind_ite
    · intro _
      exact blind_refuse
    intro _
    apply blind_ite
    · intro _
      exact blind_refuse
    · intro _
      exact blind_setValue
  · intro ha
    have hpair := hread.resolve_left ha
    simp only [PairWithin, indexByte] at hpair
    refine blind_bind (blind_readResponse (by simp only [bytesPerValue, indexByte]; omega))
      fun _ _ _ => ?_
    refine blind_bind (blind_readResponse (by simp only [bytesPerValue, indexByte]; omega))
      fun _ _ _ => ?_
    refine blind_bind blind_modifyDecoded fun _ _ _ => ?_
    apply blind_get fun _ _ => rfl
    apply blind_ite
    · intro _
      exact blind_refuse
    · intro _
      exact blind_setValue

theorem blind_processValue {startIndex : Nat}
    (hread : w.ram.decodedRequest.wish = .get ∨ w.ram.decodedRequest.amount = .single ∨
      PairWithin n startIndex i) : Blind n (processValue device startIndex i) w := by
  rw [processValue]
  apply blind_get fun _ _ => rfl
  apply blind_ite
  · intro _
    exact blind_processGet
  · intro hw
    exact blind_processSet (hread.resolve_left hw)

theorem blind_processValues {indices : List Nat} {startIndex : Nat} (hl : w.ram.Located)
    (hr : Room (w.ram.cost * indices.length) w) (hi : ∀ i ∈ indices, Indexed w.ram startIndex i)
    (hread : w.ram.decodedRequest.wish = .get ∨ w.ram.decodedRequest.amount = .single ∨
      ∀ i ∈ indices, PairWithin n startIndex i) :
    Blind n (processValues device startIndex indices) w := by
  induction indices generalizing w with
  | nil => exact blind_pure
  | cons i rest ih =>
    rw [List.length_cons, Nat.mul_succ, Nat.add_comm] at hr
    have hfirst := hi i List.mem_cons_self
    rw [processValues]
    refine blind_bind (blind_processValue ?_) fun continues t ht => ?_
    · exact hread.imp_right fun h => h.imp_right fun h => h i List.mem_cons_self
    have huses := wpf_ok (processValue_uses hl (hr.mono (by omega)) hfirst) ht
    apply blind_ite
    · intro _
      exact blind_pure
    · intro _
      refine ih (huses.serves.located hl) (huses.cost ▸ huses.room hr)
        (fun j hj => huses.serves.indexed (hi j (List.mem_cons_of_mem _ hj))) ?_
      rw [huses.wish, huses.serves.amount]
      exact hread.imp_right fun h => h.imp_right fun h j hj => h j (List.mem_cons_of_mem _ hj)

section Whole

variable [Zephyr]

omit [Zephyr] in
theorem blind_selectPart {allPartsLoop : Bool} {j : Nat} :
    Blind n (selectPart allPartsLoop j : SysExM η Unit) w := by
  rw [selectPart]
  apply blind_ite
  · intro _
    exact blind_bind blind_modifyDecoded fun _ _ _ => blind_writeResponse
  · intro _
    exact blind_pure

omit [Zephyr] in
/-- What a value loop may read: a request that gets values reads none of the frame. -/
def ReadsWithin (n : Nat) (m : Members) : Prop :=
  m.decodedRequest.wish = .get ∨ m.decodedRequest.amount = .single ∨
    ∀ i ∈ partIndices m, PairWithin n (startIndex m) i

theorem blind_processParts {allPartsLoop : Bool} {counter : Nat} {parts : List Nat}
    (hp : Processes counter w) (hc : counter ≤ n)
    (hread : parts ≠ [] → w.ram.decodedRequest.wish = .get ∨
      allPartsLoop = false ∧ parts.length ≤ 1 ∧ ReadsWithin n w.ram) :
    Blind n (processParts device allPartsLoop counter parts) w := by
  induction parts generalizing w with
  | nil => exact blind_pure
  | cons j rest ih =>
    replace hread := hread (List.cons_ne_nil j rest)
    rw [processParts]
    refine blind_bind (blind_modifyMembers (fun _ _ => rfl) (.inr hc)) fun _ u hu => ?_
    have hu : u = { w with ram := { w.ram with responseCounter := counter } } :=
      wpf_ok (Q := fun _ u => u = _) (E := Never) (wpf_modifyMembers.mpr rfl) hu
    subst hu
    refine blind_bind blind_selectPart fun _ t hsel => ?_
    obtain ⟨hct, hwish, hcounter⟩ := wpf_ok selectPart_serves hsel
    have hwt : Serves w t := serves_counter.trans hct
    have ht : Processes counter t := hp.next hwt hwish
    have hroom : Room (t.ram.cost * (partIndices t.ram).length) t := by
      have hcount := Nat.mul_le_mul_left t.ram.cost (length_partIndices (m := t.ram))
      refine ⟨hcounter ▸ hp.started, ?_, ht.start⟩
      rw [hcounter]
      exact lt_of_le_of_lt (Nat.add_le_add_left hcount _) ht.room
    have hindexed : ∀ i ∈ partIndices t.ram, Indexed t.ram (startIndex t.ram) i :=
      fun i hi => partIndices_indexed hi ht.amount
    have hreads : ReadsWithin n t.ram := by
      rcases hread with hg | ⟨rfl, -, hr⟩
      · exact .inl (hwish.trans hg)
      · have hsame : t = { w with ram := { w.ram with responseCounter := counter } } := by
          rw [selectPart, if_neg Bool.false_ne_true] at hsel
          exact wpf_ok (Q := fun _ u => u = _) (E := Never) (wpf_pure.mpr rfl) hsel
        rw [hsame]
        exact hr
    apply blind_get fun _ _ => rfl
    refine blind_bind (blind_processValues ht.located hroom hindexed hreads) fun continues u hu => ?_
    have huses := wpf_ok (processValues_uses ht.located hroom hindexed) hu
    have hleft : Room 0 u := huses.room (l := 0) hroom
    apply blind_ite
    · intro _
      exact blind_pure
    intro _
    refine blind_bind blind_sendResponse fun _ v hv => ?_
    obtain ⟨hserves, hd⟩ := wpf_ok (Q := fun _ v => Serves u v ∧
      v.ram.decodedRequest = u.ram.decodedRequest) (E := Never)
      (serves_sendResponse hleft fun t ht hd => ⟨ht, hd⟩) hv
    have hw : v.ram.decodedRequest.wish = w.ram.decodedRequest.wish := by
      rw [hd, huses.wish, hwish]
    refine ih (hp.next (hwt.trans (huses.serves.trans hserves)) hw) fun hne => ?_
    rcases hread with hg | ⟨-, hone, -⟩
    · exact .inl (hw.trans hg)
    · -- There is one part only.
      rw [List.length_cons] at hone
      exact absurd (List.length_eq_zero_iff.mp (by omega)) hne

theorem blind_sendFinalAck {allPartsAck : Bool} : Blind n (sendFinalAck device allPartsAck) w := by
  rw [sendFinalAck]
  apply blind_ite
  · intro _
    apply blind_get fun _ _ => rfl
    exact blind_bind blind_startMessage fun _ _ _ => blind_sendResponse
  · intro _
    exact blind_pure

omit [Zephyr] in
theorem blind_prepareResponse {size : Nat} :
    Blind n (prepareResponse size : SysExM η Nat) w := by
  rw [prepareResponse]
  apply blind_get fun _ _ => rfl
  apply blind_ite
  · intro _
    refine blind_bind blind_writeResponse fun _ _ _ => ?_
    refine blind_bind blind_writeResponse fun _ _ _ => ?_
    exact blind_bind blind_modifyDecoded fun _ _ _ => blind_pure
  · intro _
    exact blind_pure

/-- A standard request that has been accepted. -/
theorem blind_processStandardRequest (h : Admitted n w)
    (hread : w.ram.decodedRequest.wish ≠ .backup → ReadsWithin n w.ram) :
    Blind n (processStandardRequest device n) w := by
  rw [processStandardRequest]
  apply blind_get fun _ _ => rfl
  refine blind_bind blind_prepareResponse fun counter t ht => ?_
  obtain ⟨-, hprocesses⟩ := wpf_ok (prepareResponse_processes h) ht
  have hcourse : counter ≤ n ∧ (t.ram.decodedRequest.wish = .get ∨
      t = w ∧ w.ram.decodedRequest.wish ≠ .backup) := by
    refine wpf_ok (Q := fun counter t => counter ≤ n ∧ (t.ram.decodedRequest.wish = .get ∨
      t = w ∧ w.ram.decodedRequest.wish ≠ .backup)) (E := Never) (wpf_prepareResponse ?_ ?_) ht
    · intro _
      exact ⟨by simp only [bytesPerValue]; omega, .inl rfl⟩
    · intro hb
      exact ⟨by rw [h.counter]; omega, .inr ⟨rfl, hb⟩⟩
  obtain ⟨hle, hwish⟩ := hcourse
  refine blind_bind (blind_processParts hprocesses hle fun _ => ?_) fun done u _ => ?_
  · rcases hwish with hg | ⟨rfl, hb⟩
    · exact .inl hg
    · by_cases hg : t.ram.decodedRequest.wish = .get
      · exact .inl hg
      · have hnot : ¬ ((t.ram.decodedRequest.wish = .backup ∨ t.ram.decodedRequest.wish = .get) ∧
            (t.ram.decodedRequest.part = partAllMessages ∨
              t.ram.decodedRequest.part = partAllMessagesWithAck)) :=
          fun hall => hall.1.elim hb hg
        refine .inr ⟨decide_eq_false hnot, ?_, ?_⟩
        · rw [if_neg hnot, List.length_range]
        · exact hread hb
  · apply blind_ite
    · intro _
      exact blind_pure
    · intro _
      exact blind_bind blind_sendFinalAck fun _ _ _ => blind_pure

omit [Zephyr] in
theorem blind_appendCustom {value : UInt16} : Blind n (appendCustom value : SysExM η Bool) w := by
  rw [appendCustom]
  apply blind_get fun _ _ => rfl
  apply blind_ite
  · intro _
    exact blind_pure
  · intro _
    exact blind_bind blind_push fun _ _ _ => blind_bind blind_push fun _ _ _ => blind_pure

omit [Zephyr] in
theorem blind_runCustom {action : CustomAction η} {overflowed : Bool} :
    Blind n (runCustom action overflowed) w := by
  induction action generalizing overflowed w with
  | done result next => exact fun a h => ⟨a, rfl, h⟩
  | append value next ih =>
    rw [runCustom]
    exact blind_bind blind_appendCustom fun appended _ _ => ih appended

omit [Zephyr] in
theorem blind_processCustomRequest {request : CustomRequest} :
    Blind n (processCustomRequest device request) w := by
  rw [processCustomRequest]
  apply blind_get fun _ _ => rfl
  apply blind_ite
  · intro _
    refine blind_bind blind_setStatus fun _ _ _ => ?_
    refine blind_bind blind_log fun _ _ _ => ?_
    apply blind_get fun _ _ => rfl
    refine blind_bind blind_runCustom fun r _ _ => ?_
    rcases r with ⟨result, overflowed⟩
    apply blind_ite
    · intro _
      exact blind_refuse
    intro _
    cases result with
    | ack => exact blind_pure
    | request => exact blind_bind blind_setStatus fun _ _ _ => blind_pure
    | _ => exact blind_refuse
  · intro _
    exact blind_bind blind_setStatus fun _ _ _ => blind_pure

omit [Zephyr] in
theorem blind_replyConstant {value : UInt8} : Blind n (replyConstant value : SysExM η Bool) w := by
  rw [replyConstant]
  apply blind_get fun _ _ => rfl
  apply blind_ite
  · intro _
    refine blind_bind blind_setStatus fun _ _ _ => ?_
    exact blind_bind blind_push fun _ _ _ => blind_bind blind_push fun _ _ _ => blind_pure
  · intro _
    exact blind_bind blind_setStatus fun _ _ _ => blind_pure

omit [Zephyr] in
theorem blind_processSpecialRequest (hn : specialReqMsgSize ≤ n) :
    Blind n (processSpecialRequest device) w := by
  simp only [specialReqMsgSize, wishByte] at hn
  rw [processSpecialRequest]
  refine blind_bind (blind_readResponse (by simp only [wishByte]; omega)) fun wish _ _ => ?_
  apply blind_ite
  · intro _
    apply blind_get fun _ _ => rfl
    apply blind_ite
    · intro _
      exact blind_bind blind_setStatus fun _ _ _ => blind_pure
    · intro _
      refine blind_bind (blind_modifyMembers (fun _ _ => rfl) (.inl le_rfl)) fun _ _ _ => ?_
      exact blind_bind blind_setStatus fun _ _ _ => blind_pure
  intro _
  apply blind_ite
  · intro _
    refine blind_bind (blind_modifyMembers (fun _ _ => rfl) (.inl le_rfl)) fun _ _ _ => ?_
    exact blind_bind blind_setStatus fun _ _ _ => blind_pure
  intro _
  apply blind_ite
  · intro _
    exact blind_replyConstant
  intro _
  apply blind_ite
  · intro _
    exact blind_replyConstant
  intro _
  apply blind_get fun _ _ => rfl
  split
  · exact blind_processCustomRequest
  · exact blind_bind blind_setStatus fun _ _ _ => blind_pure

omit [Zephyr] in
/-- Every section of the layout has fewer than 32768 parameters. -/
def SmallSections (layout : List Block) : Prop :=
  ∀ block ∈ layout, ∀ sect ∈ block.sections, sect.numberOfParameters.toNat < 32768

omit [Zephyr] in
theorem SmallSections.requested (h : SmallSections m.layout) :
    m.requestedSection.numberOfParameters.toNat < 32768 := by
  unfold Members.requestedSection
  rw [List.getD_eq_getElem?_getD, List.getD_eq_getElem?_getD]
  rcases hb : m.layout[m.decodedRequest.block.toNat]? with _ | block
  · simp
  · rcases hs : block.sections[m.decodedRequest.sect.toNat]? with _ | sect
    · simp [hs]
    · simpa [hs] using h block (List.mem_of_getElem? hb) sect (List.mem_of_getElem? hs)

omit [Zephyr] in
/-- The values of an accepted part lie within its frame. -/
theorem pairWithin_of_length {i : Nat} (hw : m.decodedRequest.wish = .set)
    (ha : m.decodedRequest.amount = .all) (hpart : m.decodedRequest.part < m.requestedSection.parts)
    (hsmall : m.requestedSection.numberOfParameters.toNat < 32768)
    (hlong : stdReqMinMsgSize - bytesPerValue ≤ m.generateMessageLength) (hi : i ∈ partIndices m) :
    PairWithin m.generateMessageLength (startIndex m) i := by
  have hparts : m.requestedSection.parts.toNat = _ := parts_toNat
  rw [UInt8.lt_iff_toNat_lt] at hpart
  simp only [partIndices, if_pos ha, List.mem_range'_1, startIndex] at hi ⊢
  unfold PairWithin
  unfold Members.generateMessageLength at hlong ⊢
  simp only [ha, hw] at hlong ⊢
  unfold paramsPerMessage at hlong hi ⊢
  simp only [bytesPerValue, indexByte, stdReqMinMsgSize] at hlong hi ⊢
  obtain ⟨hlo, hhi⟩ := hi
  have hbound : i < 32 * m.decodedRequest.part.toNat + 32 ∧
      i < m.requestedSection.numberOfParameters.toNat := by
    split_ifs at hhi <;> omega
  clear hhi
  have hle : 32 * m.requestedSection.parts.toNat ≤
      m.requestedSection.numberOfParameters.toNat + 31 := by
    split_ifs at hparts <;> omega
  clear hparts
  split_ifs at hlong ⊢ <;> omega

omit [Zephyr] in
/-- What the value loop of an accepted request reads. -/
theorem readsWithin_of_accepts {d : DecodedRequest} (h : m.Accepts n d)
    (hsmall : SmallSections m.layout) (hb : (m.marked .ack d).decodedRequest.wish ≠ .backup) :
    ReadsWithin n (m.marked .ack d) := by
  have hd : d = m.withHeader.operands := h.operands
  have hwish : d.wish = m.withHeader.decodedRequest.wish := by rw [hd, Members.operands_wish]
  have hamount : d.amount = m.withHeader.decodedRequest.amount := by
    rw [hd, Members.operands_amount]
  have hpart : d.part = m.withHeader.decodedRequest.part := by rw [hd, Members.operands_part]
  have hsect : (m.marked .ack d).requestedSection = m.withHeader.requestedSection := by
    rw [Members.requestedSection, Members.marked_decodedRequest, hd, Members.operands_block,
      Members.operands_sect]
    rfl
  have hb : d.wish ≠ .backup := hb
  cases hw : d.wish with
  | get => exact .inl hw
  | backup => exact absurd hw hb
  | invalid =>
    have hcheck := of_decide_eq_true h.wish
    exact absurd (hwish.symm.trans hw) hcheck
  | set =>
    cases ha : d.amount with
    | single => exact .inr (.inl ha)
    | invalid =>
      have hcheck := of_decide_eq_true h.amount
      exact absurd (hamount.symm.trans ha) hcheck
    | all =>
      refine .inr (.inr fun i hi => ?_)
      have hw' : m.withHeader.decodedRequest.wish = .set := hwish.symm.trans hw
      have ha' : m.withHeader.decodedRequest.amount = .all := hamount.symm.trans ha
      have hlt : m.withHeader.decodedRequest.part < m.withHeader.requestedSection.parts := by
        have hcheck := h.part
        rw [Members.checkPart] at hcheck
        split_ifs at hcheck
        · simp [hw'] at hcheck
        · exact of_decide_eq_true hcheck
      have hstart : startIndex (m.marked .ack d) = startIndex m.withHeader := by
        rw [startIndex, startIndex, Members.marked_decodedRequest, hamount, hpart]
      have hindices : partIndices (m.marked .ack d) = partIndices m.withHeader := by
        rw [partIndices, partIndices, hstart, hsect, Members.marked_decodedRequest, hamount]
      rw [hindices] at hi
      rw [hstart, h.length]
      exact pairWithin_of_length hw' ha' hlt (SmallSections.requested (m := m.withHeader) hsmall)
        (h.length ▸ h.long) hi

/-- Answering a frame that has been addressed to the device. -/
theorem blind_answerRequest (hlong : specialReqMsgSize ≤ n) (hn : n ≤ maxMessageSize)
    (hr : Room 0 w) (hc : w.ram.responseCounter = n - 1) (hsmall : SmallSections w.ram.layout) :
    Blind n (answerRequest device n) w := by
  rw [answerRequest]
  refine blind_bind (blind_checkStatus hlong) fun status t ht => ?_
  have hsame : t = w := wpf_ok (Q := fun _ t => t = w) (E := Never) (wpf_checkStatus.mpr rfl) ht
  subst hsame
  apply blind_ite
  · intro _
    exact blind_bind blind_setStatus fun _ _ _ => blind_pure
  intro _
  refine blind_bind blind_decodeStandardRequest fun accepted u hu => ?_
  apply blind_ite
  · intro _
    exact blind_bind blind_modifyDecoded fun _ _ _ => blind_pure
  intro hacc
  by_cases hspecial : n = specialReqMsgSize
  · rw [if_pos hspecial]
    exact blind_bind (blind_processSpecialRequest hlong) fun _ _ _ => blind_pure
  · rw [if_neg hspecial]
    have hdec := wpf_ok (decode_decides hspecial) hu
    cases hd : t.ram.decoded n with
    | error status =>
      rw [hd] at hdec
      exact absurd hdec.1 (by simpa using hacc)
    | ok d =>
      rw [hd] at hdec
      obtain ⟨-, rfl⟩ := hdec
      have haccepts := Members.accepts_of_decoded hd
      refine blind_bind (blind_processStandardRequest (admitted_of_accepts haccepts hr hc hn)
        fun hb => readsWithin_of_accepts haccepts hsmall hb) fun done _ _ => ?_
      apply blind_ite
      · intro _
        exact blind_bind blind_modifyDecoded fun _ _ _ => blind_pure
      · intro _
        exact blind_pure

omit [Zephyr] in
theorem take_over {a : Vector UInt8 maxMessageSize} (h : Agrees n m a) :
    a.toList.take n = m.responseArray.toList.take n := by
  apply List.ext_getElem
  · simp
  intro i hi hi'
  simp only [List.length_take, Members.length_array] at hi'
  have hbyte := h i (.inl (by omega))
  have hlen : i < maxMessageSize := by omega
  simpa [Members.byteAt, hlen] using hbyte

/-- Nothing behind the frame makes a difference to what `handle_request` does. -/
theorem blind_handleRequest (hn : n ≤ maxMessageSize) (hsmall : SmallSections w.ram.layout) :
    Blind n (handleRequest device n) w := by
  rw [handleRequest]
  apply blind_get
  · intro a ha
    have htake : (w.over a).ram.responseArray.toList.take n = w.ram.responseArray.toList.take n :=
      take_over ha
    simp only [htake]
    rfl
  refine blind_bind blind_log fun _ t ht => ?_
  have ht : t.ram = w.ram := wpf_ok (Q := fun _ t => t.ram = w.ram) (E := Never)
    (wpf_log.mpr rfl) ht
  apply blind_ite
  · intro _
    exact blind_pure
  intro _
  apply blind_ite
  · intro _
    exact blind_pure
  intro hlong
  have h8 : specialReqMsgSize ≤ n := not_lt.mp hlong
  simp only [specialReqMsgSize, wishByte] at hlong
  refine blind_bind (blind_readResponse (by simp only [startByte]; omega)) fun first u hu => ?_
  have hfirst : first = t.ram.byteAt startByte ∧ u = t :=
    wpf_ok (Q := fun first u => first = t.ram.byteAt startByte ∧ u = t) (E := Never)
      ((wpf_readResponse (by decide)).mpr ⟨rfl, rfl⟩) hu
  obtain ⟨rfl, rfl⟩ := hfirst
  apply blind_ite
  · intro _
    exact blind_pure
  intro hstart
  refine blind_bind (blind_readResponse (by omega)) fun last v hv => ?_
  have hv : v = u := wpf_ok (Q := fun _ v => v = u) (E := Never)
    ((wpf_readResponse (by omega)).mpr rfl) hv
  subst hv
  apply blind_ite
  · intro _
    exact blind_pure
  intro _
  apply blind_ite
  · intro _
    exact blind_pure
  intro _
  refine blind_bind blind_modifyDecoded fun _ x hx => ?_
  have hx : x = { v with ram := v.ram.cleared } := wpf_ok (Q := fun _ x => x = _) (E := Never)
    (wpf_resetDecodedRequest.mpr rfl) hx
  refine blind_bind (blind_modifyMembers (fun _ _ => rfl) (.inr (by simp only; omega)))
    fun _ y hy => ?_
  have hy : y = { x with ram := { x.ram with responseCounter := n - 1 } } :=
    wpf_ok (Q := fun _ y => y = _) (E := Never) (wpf_modifyMembers.mpr rfl) hy
  refine blind_bind (blind_checkManufacturerId h8) fun addressed z hz => ?_
  have hz : z = y := wpf_ok (Q := fun _ z => z = y) (E := Never)
    (wpf_checkManufacturerId.mpr rfl) hz
  subst hz hy hx
  apply blind_ite
  · intro _
    exact blind_pure
  intro _
  have hroom : Room 0 { v with ram := { v.ram.cleared with responseCounter := n - 1 } } := by
    refine ⟨?_, ?_, not_not.mp hstart⟩
    · simp only
      omega
    · simp only
      omega
  refine blind_bind (blind_answerRequest h8 hn hroom rfl ?_) fun responds _ _ => ?_
  · change SmallSections v.ram.layout
    rw [ht]
    exact hsmall
  · apply blind_ite
    · intro _
      exact blind_sendResponse
    · intro _
      exact blind_pure

end Whole

end Zlibs.SysExConf
