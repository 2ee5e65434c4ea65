import Zlibs.SysExConf.BackupRoundTrip

/-! Backups of a single value, sent back as requests. -/
namespace Zlibs.SysExConf
open Lib Midi

variable {η : Type} {device : Device η} {w w' : World η} {r : Reading} {part : UInt8}
  {header : List UInt8} {values : List (UInt16 × UInt16)}

/-- Nothing is set, and no answer is an acknowledgement. -/
def Refused (es : List Event) : Prop :=
  setCalls es = [] ∧ answers es ≠ [] ∧
    ∀ answer ∈ answers es, answer.getD statusByte 0 ≠ Status.ack.toByte

section Whole

variable [Zephyr]

/-- A request to set one value without its index is too short. -/
theorem short_set_refused (h : ReceivesSet device w'.ram part .single r.block r.sectIndex r.sect
    (valueBytes values)) (hvalues : values.length = 1) :
    Refused (newEvents (handleRequest device ((valueBytes values).length + 11)) w') := by
  obtain ⟨hcalls, hanswers⟩ := newEvents_set h
  have hlength : (valueBytes values).length = 2 := by rw [length_valueBytes, hvalues]
  have herror : ∃ status, (w'.ram.begun ((valueBytes values).length + 11)).decoded
      ((valueBytes values).length + 11) = .error status ∧ status ≠ .ack := by
    have hset : setLength .single part r.sect = stdReqMinMsgSize := rfl
    rw [h.decoded, hset, hlength, if_neg (by decide)]
    by_cases hpart : PartOk .single part r.sect
    · rw [if_neg (not_not.mpr hpart), if_pos (by decide)]
      exact ⟨_, rfl, by decide⟩
    · rw [if_pos hpart]
      exact ⟨_, rfl, by decide⟩
  obtain ⟨status, hd, hne⟩ := herror
  rw [Members.setAnswer, hd] at hcalls hanswers
  refine ⟨hcalls, ?_, ?_⟩
  · rw [hanswers]
    simp
  · intro answer hanswer
    rw [hanswers, show answers ([] : List Event) = [] from rfl, List.nil_append,
      List.mem_singleton] at hanswer
    rw [hanswer, getD_set_status, Ne, Status.toByte_inj]
    exact hne

/-- The message that ends a transfer is no request. -/
theorem finalAck_refused (hlayout : w'.ram.layout ≠ [])
    (held : w'.ram.responseArray.toList.take stdReqMinMsgSize =
      finalAckFrame device.manufacturerId r) :
    Refused (newEvents (handleRequest device stdReqMinMsgSize) w') := by
  have hbyte : ∀ i < stdReqMinMsgSize,
      w'.ram.byteAt i = (finalAckFrame device.manufacturerId r).getD i 0 := fun i hi =>
    Members.byteAt_of_take (show w'.ram.responseArray.toList.take (finalAckFrame _ r).length = _
      from held) hi
  have haddressed : w'.ram.Addressed device.manufacturerId stdReqMinMsgSize :=
    ⟨hlayout, by decide, hbyte 0 (by decide), hbyte 14 (by decide), hbyte 1 (by decide),
      hbyte 2 (by decide), hbyte 3 (by decide)⟩
  have hstatus : (w'.asked stdReqMinMsgSize).ram.byteAt statusByte ≠ Status.request.toByte := by
    change w'.ram.byteAt 4 ≠ _
    rw [hbyte 4 (by decide)]
    exact (by decide : Status.ack.toByte ≠ Status.request.toByte)
  have hreceived : Received (w'.asked stdReqMinMsgSize).ram stdReqMinMsgSize :=
    ⟨rfl, by decide, by decide, haddressed.start, haddressed.terminated⟩
  apply newEvents_of_wpf
  apply wpf_handleRequest (by decide)
  · intro hn
    exact absurd haddressed hn
  intro _
  apply wpf_answer_badStatus hstatus
  have hrespond := @respond _ device ((w'.asked stdReqMinMsgSize).ram.write statusByte
    Status.errorStatus.toByte) (w'.asked stdReqMinMsgSize) stdReqMinMsgSize .errorStatus _ []
    w'.handler hreceived rfl rfl Members.same_write
  rw [List.append_nil] at hrespond
  refine wpf_of_never hrespond ?_
  intro _ t ht
  refine ⟨_, ht.trace.trans (by rw [List.append_nil]; exact List.append_assoc ..), ?_⟩
  have hframe : (w'.asked stdReqMinMsgSize).ram.responseArray.toList.take stdReqMinMsgSize =
      finalAckFrame device.manufacturerId r := held
  rw [hframe]
  have hone : answers ([.request (w'.ram.responseArray.toList.take stdReqMinMsgSize)] ++
      (responseEvents device ((finalAckFrame device.manufacturerId r).set statusByte
        Status.errorStatus.toByte) w'.handler).1) =
      [(finalAckFrame device.manufacturerId r).set statusByte Status.errorStatus.toByte] := by
    rw [answers_append, setCalls_responseEvents.2]
    rfl
  refine ⟨?_, ?_, ?_⟩
  · rw [setCalls_append, setCalls_responseEvents.1]
    rfl
  · rw [hone]
    simp
  · intro answer hanswer
    rw [hone, List.mem_singleton] at hanswer
    rw [hanswer]
    exact (by decide : Status.errorStatus.toByte ≠ Status.ack.toByte)

/-- The response to a part is a request to set one value without its index. -/
theorem single_reply_refused {reply : List (UInt16 × UInt16) × List UInt8} {part' : UInt8}
    (h : ReadRequest device w.ram .backup part r) (hsingle : r.amount = .single)
    (hreply : CarriesPart r (replyHeader device.manufacturerId .backup part r w.ram) part' reply)
    (hback : SentBack w w' reply.2) :
    Refused (newEvents (handleRequest device reply.2.length) w') := by
  have hframe : reply.2 = setFrame device.manufacturerId part' .single r.block r.sectIndex
      (valueBytes reply.1) := by
    rw [hreply.frame, replyFrame, replyHeader_set, replyHeader, if_pos rfl, hsingle]
    rfl
  have hcount : reply.1.length = 1 := by
    have hlength := congrArg List.length hreply.indices
    rw [Reading.indices, if_pos hsingle] at hlength
    simpa using hlength
  have hlength : reply.2.length = (valueBytes reply.1).length + 11 := by
    rw [hframe]
    simp [setFrame]
  have hheld := hback.held
  rw [hlength, hframe] at hheld
  rw [hlength]
  refine short_set_refused ⟨hheld, ?_, hback.enabled, ?_, .inl rfl⟩ hcount
  · rw [length_valueBytes, hcount]
    decide
  · rw [hback.layout]
    exact h.located

/-- The response to a backup of a single value leaves out the index: sent back, it is refused, for
every parameter and whatever its value. -/
theorem backup_single_refused (h : ReadRequest device w.ram .backup part r) (hv : r.Valid)
    (hsingle : r.amount = .single) (hpart : r.HasPart part)
    (hget : Readable device r.block r.sectIndex r.sect) :
    let es := newEvents (handleRequest device stdReqMinMsgSize) w
    (part = 0 → ∃ value, answers es = [setFrame device.manufacturerId 0 .single r.block r.sectIndex
      (valueBytes [(r.index, value)])]) ∧
    ∀ frame ∈ answers es, ∀ w' : World η, SentBack w w' frame →
      Refused (newEvents (handleRequest device frame.length) w') := by
  intro es
  have hes : es = _ := handleRequest_replies h hv hpart hget
  rw [hes, answers_replyEvents]
  constructor
  · rintro rfl
    refine ⟨(device.dataHandler.get r.block r.sectIndex r.index w.handler).1.2, ?_⟩
    have hindices : r.indices 0 = [r.index.toNat] := if_pos hsingle
    rw [show replyParts r.sect 0 = [0] from if_neg (by decide), if_neg (by decide), List.append_nil]
    simp only [partsRead, hindices, readAll, UInt16.ofNat_toNat, hsingle, replyHeader, replyFrame]
    rfl
  · intro frame hframe w' hback
    rcases List.mem_append.mp hframe with hframe | hframe
    · obtain ⟨reply, hreply, rfl⟩ := List.mem_map.mp hframe
      obtain ⟨part', hcarries⟩ := carries_of_mem hreply
      exact single_reply_refused h hsingle hcarries hback
    · split_ifs at hframe with hack
      · rw [List.mem_singleton] at hframe
        subst hframe
        obtain ⟨blk, hblk, _⟩ := h.located
        refine finalAck_refused ?_ hback.held
        rw [hback.layout]
        rintro hnil
        rw [hnil] at hblk
        simp at hblk
      · cases hframe

end Whole

/-- A request to back up a parameter of a section of two. -/
def singleAsked : World Unit :=
  { ram := { ({} : Members).pushedAll [sysExStart, 0x00, 0x53, 0x43, Status.request.toByte, 0,
        Wish.backup.toByte, Amount.single.toByte, 0, 0, 0, 1, 0, 0, sysExEnd] with
      configurationEnabled := true, layout := [⟨[⟨2, 0, 0⟩]⟩] }
    handler := (), trace := [] }

def singleReading : Reading := ⟨0, 0, ⟨2, 0, 0⟩, .single, 1⟩

theorem singleAsked_reads : ReadRequest ackDevice singleAsked.ram .backup 0 singleReading := by
  refine ⟨⟨?_, ?_, ?_, ?_, ?_, ?_, ?_⟩, rfl, ⟨_, rfl, rfl⟩, .inr rfl, ?_, ?_, ?_, ?_, ?_, ?_, ?_⟩ <;>
    decide +kernel

/-- The response that is 13 bytes long, sent back. -/
def singleSentBack : World Unit :=
  { ram := { ({} : Members).pushedAll [sysExStart, 0x00, 0x53, 0x43, Status.request.toByte, 0,
        Wish.set.toByte, Amount.single.toByte, 0, 0, 0, 0, sysExEnd] with
      configurationEnabled := true, layout := [⟨[⟨2, 0, 0⟩]⟩] }
    handler := (), trace := [] }

theorem backup_single_refused_example :
    Refused (newEvents (handleRequest ackDevice 13) singleSentBack) := by
  have hrefused := (backup_single_refused singleAsked_reads ⟨.inl rfl, fun _ => by decide⟩ rfl
    (.inr (.inr (by decide))) fun _ _ _ => rfl).2
  have hframe : answers (newEvents (handleRequest ackDevice stdReqMinMsgSize) singleAsked) =
      [singleSentBack.ram.responseArray.toList.take 13] := by decide +kernel
  have hlength : (singleSentBack.ram.responseArray.toList.take 13).length = 13 := by
    rw [List.length_take, Members.length_array]
    decide
  have hback : SentBack singleAsked singleSentBack
      (singleSentBack.ram.responseArray.toList.take 13) := by
    refine ⟨?_, rfl, by rw [hlength]⟩
    simp [singleSentBack, singleAsked]
  have hlast := hrefused _ (hframe ▸ List.mem_singleton_self _) singleSentBack hback
  rwa [hlength] at hlast

theorem single_backup_is_short :
    answers (newEvents (handleRequest ackDevice stdReqMinMsgSize) singleAsked) =
      [singleSentBack.ram.responseArray.toList.take 13] ∧
    setCalls (newEvents (handleRequest ackDevice 13) singleSentBack) = [] ∧
    answers (newEvents (handleRequest ackDevice 13) singleSentBack) =
      [(singleSentBack.ram.responseArray.toList.take 13).set statusByte
        Status.errorMessageLength.toByte] := by
  refine ⟨?_, ?_, ?_⟩ <;> decide +kernel

end Zlibs.SysExConf
