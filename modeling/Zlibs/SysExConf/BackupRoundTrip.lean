import Zlibs.SysExConf.Replies

/-! Requests to back up all values of a part or of all parts, and the frames of a backup sent back as
requests. -/
namespace Zlibs.SysExConf
open Lib Midi

variable {η : Type} {device : Device η} {m : Members} {w : World η} {sect : Section}
  {block sectIndex part : UInt8} {handler : η} {values : List (UInt16 × UInt16)} {k : Nat}

theorem high_of_split : ∀ high : Fin 64, ∀ odd : Bool,
    let byte := UInt8.ofNat high.val <<< 1 &&& midiDataByteMask
    let byte := if odd then byte ||| 0x01 else byte &&& ~~~0x01
    byte >>> 1 = UInt8.ofNat high.val ∧ (byte &&& 0x01 ≠ 0 ↔ odd = true) := by
  decide +kernel

theorem low_of_split : ∀ low : Fin 256,
    let byte := UInt8.ofFin low &&& midiDataByteMask
    (if UInt8.ofFin low >>> 7 &&& 0x01 ≠ 0 then byte ||| 0x80 else byte &&& ~~~0x80) =
      UInt8.ofFin low := by
  decide +kernel

theorem and_255 {n : Nat} : n &&& 255 = n % 256 := Nat.and_two_pow_sub_one_eq_mod n 8

theorem join_bytes {value : UInt16} :
    (value >>> 8 &&& 0xFF).toUInt8.toUInt16 <<< 8 ||| (value &&& 0xFF).toUInt8.toUInt16 = value := by
  have hn := value.toNat_lt
  apply UInt16.toNat_inj.mp
  simp only [UInt16.toNat_or, UInt16.toNat_shiftLeft, UInt8.toNat_toUInt16, UInt16.toNat_toUInt8,
    UInt16.toNat_and, UInt16.toNat_shiftRight, UInt16.reduceToNat, and_255, Nat.mod_mod,
    Nat.reduceMod, Nat.shiftRight_eq_div_pow]
  rw [Nat.mod_eq_of_lt (by rw [Nat.shiftLeft_eq]; omega),
    ← Nat.shiftLeft_add_eq_or_of_lt (by omega), Nat.shiftLeft_eq]
  omega

/-- A value of 14 bits is the one that its two bytes are merged to. -/
theorem merge_split {value : UInt16} (h : value.toNat < 2 ^ 14) :
    merge14Bit (split14Bit value).1 (split14Bit value).2 = value := by
  have hhigh : (value >>> 8 &&& 0xFF).toUInt8.toNat < 64 := by
    simp only [UInt16.toNat_toUInt8, UInt16.toNat_and, UInt16.toNat_shiftRight, UInt16.reduceToNat,
      and_255, Nat.mod_mod, Nat.reduceMod, Nat.shiftRight_eq_div_pow]
    omega
  obtain ⟨hmerge, hodd⟩ := high_of_split ⟨_, hhigh⟩
    (decide ((value &&& 0xFF).toUInt8 >>> 7 &&& 0x01 ≠ 0))
  have hlow := low_of_split (value &&& 0xFF).toUInt8.toFin
  simp only [UInt8.ofNat_toNat, decide_eq_true_eq, UInt8.ofFin_toFin] at hmerge hodd hlow
  rw [merge14Bit, split14Bit]
  simp only [hmerge, hodd, hlow]
  exact join_bytes

theorem valueBytes_getD (h : k < values.length) :
    (valueBytes values).getD (2 * k) 0 = (split14Bit values[k].2).1 ∧
      (valueBytes values).getD (2 * k + 1) 0 = (split14Bit values[k].2).2 := by
  induction values generalizing k with
  | nil => simp at h
  | cons value rest ih =>
    cases k with
    | zero => exact ⟨rfl, rfl⟩
    | succ k =>
      rw [List.length_cons] at h
      exact ih (by omega)

/-- The frame of the values of a part gives them back. -/
theorem framePairs_valueBytes (hv : ∀ value ∈ values, value.2.toNat < 2 ^ 14)
    (hi : values.map Prod.fst = (partRange sect part).map UInt16.ofNat) :
    framePairs .all part (valueBytes values) = values := by
  have hlength : values.length = partSize sect part := by
    have h := congrArg List.length hi
    simpa [partRange] using h
  apply List.ext_getElem
  · simp [framePairs]
  intro k hk hk'
  obtain ⟨hhigh, hlow⟩ := valueBytes_getD hk'
  have hindex : values[k].1 = UInt16.ofNat (paramsPerMessage * part.toNat + k) := by
    have hk'' : k < (values.map Prod.fst).length := by simpa using hk'
    rw [← List.getElem_map Prod.fst (h := hk'')]
    simp [hi, partRange]
  have hvalue := merge_split (hv values[k] (List.getElem_mem hk'))
  simp only [framePairs, if_true, List.getElem_map, List.getElem_range, hhigh, hlow, hvalue,
    ← hindex]

theorem part_of_lt (hn : sect.numberOfParameters.toNat ≤ 4032) (h : part < sect.parts) :
    PartOk .all part sect ∧ 0 < partSize sect part ∧
      2 * partSize sect part + 11 = setLength .all part sect := by
  have hparts : sect.parts.toNat = _ := parts_toNat
  rw [UInt8.lt_iff_toNat_lt] at h
  have hlt : part.toNat < 126 := by
    split at hparts <;> omega
  refine ⟨⟨?_, ?_, ?_⟩, ?_, ?_⟩
  · rintro rfl
    exact absurd hlt (by decide)
  · rintro rfl
    exact absurd hlt (by decide)
  · rw [if_pos rfl, UInt8.lt_iff_toNat_lt]
    exact h
  · simp only [partSize, paramsPerMessage]
    split at hparts <;> omega
  · rw [setLength_all]
    simp only [partSize, paramsPerMessage]
    split
    · split at hparts <;> omega
    · split
      · split at hparts <;> omega
      · split at hparts <;> omega

/-- The parts cover the section. -/
theorem parts_cover (hn : sect.numberOfParameters.toNat ≤ 4032) :
    (List.range sect.parts.toNat).flatMap (fun p => partRange sect (UInt8.ofNat p)) =
      List.range sect.numberOfParameters.toNat := by
  have hparts : sect.parts.toNat = _ := parts_toNat
  have hfirst : ∀ n ≤ sect.parts.toNat,
      (List.range n).flatMap (fun p => partRange sect (UInt8.ofNat p)) =
        List.range (min (32 * n) sect.numberOfParameters.toNat) := by
    intro n hle
    induction n with
    | zero => simp
    | succ n ih =>
      have hbyte : (UInt8.ofNat n).toNat = n := by
        rw [UInt8.toNat_ofNat']
        split at hparts <;> omega
      rw [List.range_succ, List.flatMap_append, ih (by omega), List.flatMap_singleton, partRange,
        partSize, hbyte, List.range_eq_range', List.range_eq_range']
      simp only [paramsPerMessage]
      by_cases hlt : 32 * n < sect.numberOfParameters.toNat
      · have happend := List.range'_append_1 (s := 0) (m := 32 * n)
          (n := min 32 (sect.numberOfParameters.toNat - 32 * n))
        rw [Nat.zero_add] at happend
        rw [Nat.min_eq_left hlt.le, happend]
        congr 1
        omega
      · rw [show sect.numberOfParameters.toNat - 32 * n = 0 by omega]
        simp
        omega
  rw [hfirst _ le_rfl]
  congr 1
  split at hparts <;> omega

/-- The parts that a request asks for. -/
def backupParts (sect : Section) (part : UInt8) : List UInt8 :=
  if part = partAllMessages then (List.range sect.parts.toNat).map UInt8.ofNat else [part]

/-- A request to back up all values of a part, or of all parts, received while the connection is
open, for a section that exists. -/
structure BackupRequest (device : Device η) (m : Members) (part block sectIndex : UInt8)
    (sect : Section) : Prop where
  addressed : m.Addressed device.manufacturerId stdReqMinMsgSize
  enabled : m.configurationEnabled = true
  located : ∃ blk, m.layout[block.toNat]? = some blk ∧ blk.sections[sectIndex.toNat]? = some sect
  request : m.byteAt statusByte = Status.request.toByte
  part : m.byteAt partByte = part
  wish : m.byteAt wishByte = Wish.backup.toByte
  amount : m.byteAt amountByte = Amount.all.toByte
  block : m.byteAt blockByte = block
  sectIndex : m.byteAt sectionByte = sectIndex

section Whole

variable [Zephyr]

omit [Zephyr] in
/-- What a backup reads. -/
def backupReading (block sectIndex : UInt8) (sect : Section) : Reading :=
  { block, sectIndex, sect, amount := .all, index := 0 }

omit [Zephyr] in
theorem BackupRequest.readRequest (h : BackupRequest device m part block sectIndex sect) :
    ReadRequest device m .backup part (backupReading block sectIndex sect) where
  addressed := h.addressed
  enabled := h.enabled
  located := h.located
  reads := .inr rfl
  request := h.request
  part := h.part
  wish := h.wish
  amount := h.amount
  block := h.block
  sectIndex := h.sectIndex
  index := nofun

omit [Zephyr] in
/-- The response to a part is the request that sets its values. -/
theorem replyFrame_backup {id : ManufacturerId} {part' : UInt8} :
    replyFrame (replyHeader id .backup part (backupReading block sectIndex sect) m) part' values =
      setFrame id part' .all block sectIndex (valueBytes values) := by
  rw [replyFrame, replyHeader_set]
  rfl

/-- The frames of a backup are those of its parts, each after the values that it carries. -/
theorem mem_backups {parts : List UInt8}
    {backup : List (UInt8 × UInt8 × UInt16 × UInt16) × List UInt8}
    (h : backup ∈ (partsRead device (backupReading block sectIndex sect)
      (replyHeader device.manufacturerId .backup part (backupReading block sectIndex sect) m) parts
      handler).map (backupReading block sectIndex sect).located) :
    ∃ part ∈ parts, ∃ handler,
      let r := readAll device block sectIndex (partRange sect part) handler
      backup = (r.1.map fun value => (block, sectIndex, value),
        setFrame device.manufacturerId part .all block sectIndex (valueBytes r.1)) := by
  induction parts generalizing handler with
  | nil => cases h
  | cons part' rest ih =>
    rcases List.mem_cons.mp h with rfl | h
    · exact ⟨part', List.mem_cons_self, handler, Prod.ext rfl replyFrame_backup⟩
    · obtain ⟨p, hp, handler', he⟩ := ih h
      exact ⟨p, List.mem_cons_of_mem _ hp, handler', he⟩

/-- The parameters that a backup reads. -/
theorem backups_indices {parts : List UInt8} {header : List UInt8} :
    (((partsRead device (backupReading block sectIndex sect) header parts handler).map
      (backupReading block sectIndex sect).located).flatMap Prod.fst).map
        (fun read => (read.1, read.2.1, read.2.2.1)) =
      (parts.flatMap (partRange sect)).map fun i => (block, sectIndex, UInt16.ofNat i) := by
  induction parts generalizing handler with
  | nil => rfl
  | cons part rest ih =>
    have hfirst := @readAll_indices _ device block sectIndex handler (partRange sect part)
    have hpairs := congrArg (List.map fun index => (block, sectIndex, index)) hfirst
    rw [partsRead, List.map_cons, List.flatMap_cons, List.flatMap_cons, List.map_append,
      List.map_append, ih]
    congr 1
    rw [List.map_map, List.map_map] at hpairs
    simp only [Reading.located, List.map_map]
    exact hpairs

omit [Zephyr] in
/-- The frame has come back to an object with the same layout and an open connection. -/
structure SentBack (w w' : World η) (frame : List UInt8) : Prop where
  layout : w'.ram.layout = w.ram.layout
  enabled : w'.ram.configurationEnabled = true
  held : w'.ram.responseArray.toList.take frame.length = frame

/-- The frame of a part restores the values that it carries. -/
theorem part_restores {w' : World η} (hset : Acknowledges device)
    (hn : sect.numberOfParameters.toNat ≤ 4032) (hpart : part < sect.parts)
    (hlocated : ∃ blk, w.ram.layout[block.toNat]? = some blk ∧
      blk.sections[sectIndex.toNat]? = some sect)
    (hindices : values.map Prod.fst = (partRange sect part).map UInt16.ofNat)
    (hvalues : ∀ value ∈ values, value.2.toNat < 2 ^ 14 ∧ sect.Accepts value.2)
    (hback : SentBack w w'
      (setFrame device.manufacturerId part .all block sectIndex (valueBytes values))) :
    let frame := setFrame device.manufacturerId part .all block sectIndex (valueBytes values)
    let es := newEvents (handleRequest device frame.length) w'
    answers es = [frame.set statusByte Status.ack.toByte] ∧
      setCalls es = values.map fun value => (block, sectIndex, value) := by
  intro frame es
  obtain ⟨hok, hpos, hlen⟩ := part_of_lt hn hpart
  have hcount : values.length = partSize sect part := by
    have h := congrArg List.length hindices
    simpa [partRange] using h
  have hbody : (valueBytes values).length = 2 * partSize sect part := by
    rw [length_valueBytes, hcount]
  have hframe : frame.length = (valueBytes values).length + 11 := by
    simp [frame, setFrame]
  have hle : partSize sect part ≤ 32 := Nat.min_le_left ..
  have hreceived : ReceivesSet device w'.ram part .all block sectIndex sect (valueBytes values) := by
    refine ⟨?_, ?_, hback.enabled, ?_, .inr rfl⟩
    · rw [← hframe]
      exact hback.held
    · rw [hbody, maxMessageSize_eq]
      omega
    · rw [hback.layout]
      exact hlocated
  have hall : AcceptsAll device w'.ram part block sectIndex sect (valueBytes values) :=
    ⟨hreceived, by omega, hok, by rw [hbody, hlen]⟩
  have hread : partValues w'.ram sect part = values := by
    rw [hreceived.partValues hbody]
    exact framePairs_valueBytes (fun value hv => (hvalues value hv).1) hindices
  obtain ⟨hcalls, hanswers⟩ := hall.newEvents
  rw [hread] at hcalls hanswers
  rw [(setOutcome_eq_none_iff hset).mpr fun value hv => (hvalues value hv).2] at hanswers
  rw [setCalls_of_acknowledges hset, List.takeWhile_eq_self_iff.mpr ?_] at hcalls
  · rw [← hframe] at hcalls hanswers
    exact ⟨hanswers, hcalls⟩
  · intro value hv
    exact decide_eq_true (hvalues value hv).2

omit [Zephyr] in
theorem lt_of_mem_backupParts {part' : UInt8} (hpart : part = partAllMessages ∨ part < sect.parts)
    (h : part' ∈ backupParts sect part) : part' < sect.parts := by
  unfold backupParts at h
  split at h
  · obtain ⟨j, hj, rfl⟩ := List.mem_map.mp h
    rw [List.mem_range] at hj
    have hlt := sect.parts.toNat_lt
    rw [UInt8.lt_iff_toNat_lt, UInt8.toNat_ofNat']
    omega
  · rename_i hne
    rw [List.mem_singleton] at h
    rw [h]
    exact hpart.resolve_left hne

/-- Each frame of a backup, sent back, is acknowledged and sets the values that were read for it.
A backup of one part reads its parameters, and all parts together are the whole section. -/
theorem backup_restores (h : BackupRequest device w.ram part block sectIndex sect)
    (hn : sect.numberOfParameters.toNat ≤ 4032)
    (hpart : part = partAllMessages ∨ part < sect.parts)
    (hget : Provides device block sectIndex sect) (hset : Acknowledges device) :
    let es := newEvents (handleRequest device stdReqMinMsgSize) w
    ((backups es).map Prod.snd = answers es) ∧
    (∀ backup ∈ backups es, ∀ w' : World η, SentBack w w' backup.2 →
      let es' := newEvents (handleRequest device backup.2.length) w'
      answers es' = [backup.2.set statusByte Status.ack.toByte] ∧ setCalls es' = backup.1) ∧
    (((backups es).flatMap Prod.fst).map fun read => (read.1, read.2.1, read.2.2.1)) =
      (((backupParts sect part).flatMap (partRange sect)).map
        fun i => (block, sectIndex, UInt16.ofNat i)) ∧
    (backupParts sect partAllMessages).flatMap (partRange sect) =
      List.range sect.numberOfParameters.toNat := by
  intro es
  have hack : part ≠ partAllMessagesWithAck := by
    rcases hpart with rfl | hlt
    · decide
    · exact (part_of_lt hn hlt).1.2.1
  have hvalid : (backupReading block sectIndex sect).Valid := ⟨.inr rfl, nofun⟩
  have hasked : (backupReading block sectIndex sect).HasPart part :=
    hpart.imp id fun hlt => .inr (by simpa [backupReading] using hlt)
  have hes := handleRequest_replies h.readRequest hvalid hasked hget.readable
  have hparts : replyParts sect part = backupParts sect part := by
    simp [replyParts, backupParts, hack]
  have hbackups : backups es = (partsRead device (backupReading block sectIndex sect)
      (replyHeader device.manufacturerId .backup part (backupReading block sectIndex sect) w.ram)
      (backupParts sect part) w.handler).map (backupReading block sectIndex sect).located := by
    rw [← hparts]
    show backups (newEvents _ w) = _
    rw [hes, backups_replyEvents, if_neg hack, List.append_nil]
    rfl
  refine ⟨map_snd_readsByAnswer, ?_, ?_, ?_⟩
  · intro backup hm w' hback
    rw [hbackups] at hm
    obtain ⟨part', hp, handler', rfl⟩ := mem_backups hm
    exact part_restores hset hn (lt_of_mem_backupParts hpart hp) h.located readAll_indices
      (readAll_provided hget fun i hi => lt_of_mem_partRange hi) hback
  · rw [hbackups]
    exact backups_indices
  · rw [backupParts, if_pos rfl, List.flatMap_map]
    exact parts_cover hn

end Whole

/-- A request to back up all parts of a section of 33 parameters. -/
def backupAsked : World Unit :=
  { ram := { ({} : Members).pushedAll ([sysExStart, 0x00, 0x53, 0x43, Status.request.toByte,
        partAllMessages, Wish.backup.toByte, Amount.all.toByte, 0, 0, 0, 0, 0, 0, sysExEnd]) with
      configurationEnabled := true, layout := [⟨[⟨33, 0, 0⟩]⟩] }
    handler := (), trace := [] }

theorem backup_restores_example :
    (backups (newEvents (handleRequest ackDevice stdReqMinMsgSize) backupAsked)).map Prod.snd =
        answers (newEvents (handleRequest ackDevice stdReqMinMsgSize) backupAsked) ∧
      ∀ backup ∈ backups (newEvents (handleRequest ackDevice stdReqMinMsgSize) backupAsked),
        ∀ w' : World Unit, SentBack backupAsked w' backup.2 →
          setCalls (newEvents (handleRequest ackDevice backup.2.length) w') = backup.1 := by
  have hasked : BackupRequest ackDevice backupAsked.ram partAllMessages 0 0 ⟨33, 0, 0⟩ := by
    refine ⟨⟨?_, ?_, ?_, ?_, ?_, ?_, ?_⟩, rfl, ⟨_, rfl, rfl⟩, ?_, ?_, ?_, ?_, ?_, ?_⟩ <;>
      decide +kernel
  have hget : Provides ackDevice 0 0 ⟨33, 0, 0⟩ := by
    intro _ _ _
    exact ⟨rfl, show (0 : UInt16).toNat < 2 ^ 14 by decide, fun hne => absurd rfl hne⟩
  obtain ⟨hanswers, hrestored, _⟩ :=
    backup_restores hasked (by decide) (.inl rfl) hget acknowledges_ackDevice
  exact ⟨hanswers, fun backup hm w' hback => (hrestored backup hm w' hback).2⟩

end Zlibs.SysExConf
