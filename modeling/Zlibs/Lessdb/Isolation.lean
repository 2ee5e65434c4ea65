import Zlibs.Lessdb.Initialisation

/-! An update of a parameter leaves every other parameter alone. -/
namespace Zlibs.Lessdb
open Lib

namespace Section

variable {sect : Section} {p p' raw value : Nat}

theorem hasBit_eq {bit : Nat} : LessDb.hasBit value bit = value.testBit bit := by
  rw [Nat.testBit_eq_decide_div_mod_eq]
  rfl

theorem hasBit_withBit {bit bit' : Nat} (hb : bit < 32) (hb' : bit' < 32) :
    LessDb.hasBit (LessDb.withBit raw bit value) bit' =
      if bit = bit' then decide (value ≠ 0) else LessDb.hasBit raw bit' := by
  have hlt : (2 : Nat) ^ bit < 2 ^ 32 := Nat.pow_lt_pow_right (by decide) hb
  rw [hasBit_eq, hasBit_eq, LessDb.withBit]
  split_ifs with hv heq heq
  · rw [Nat.testBit_or, heq, Nat.testBit_two_pow_self, Bool.or_true]
    simp [hv]
  · rw [Nat.testBit_or, Nat.testBit_two_pow_of_ne heq, Bool.or_false]
  · rw [Nat.sub_sub, Nat.add_comm 1, Nat.testBit_and, Nat.testBit_two_pow_sub_succ hlt, heq,
      Nat.testBit_two_pow_self]
    simp [hv]
  · rw [Nat.sub_sub, Nat.add_comm 1, Nat.testBit_and, Nat.testBit_two_pow_sub_succ hlt,
      Nat.testBit_two_pow_of_ne heq]
    simp [hb']

theorem bitIndex_eq : (p - p / 8 % 256 * 8) % 256 = p % 8 := by omega

theorem withBit_lt {bit : Nat} (hraw : raw < 2 ^ 8) (hb : bit < 8) :
    LessDb.withBit raw bit value < 2 ^ 8 := by
  rw [LessDb.withBit]
  split_ifs
  · exact Nat.or_lt_two_pow hraw (Nat.pow_lt_pow_right (by omega) hb)
  · exact Nat.lt_of_le_of_lt Nat.and_le_left hraw

/-- The high half of a byte. -/
theorem and_high (hraw : raw < 2 ^ 8) : raw &&& 0xF0 = 2 ^ 4 * (raw / 16) := by
  have hall : ∀ n < 2 ^ 8, n &&& 0xF0 = 2 ^ 4 * (n / 16) := by decide +kernel
  exact hall raw hraw

theorem and_low {n : Nat} : n &&& 0x0F = n % 16 := Nat.and_two_pow_sub_one_eq_mod n 4

/-- What is written for a half byte. -/
theorem insert_halfByte (htype : sect.parameterType = .halfByte) (hraw : raw < 2 ^ 8) :
    sect.insert p raw value = if p % 2 ≠ 0 then 16 * (value % 16) + raw % 16
      else 16 * (raw / 16) + value % 16 := by
  unfold Section.insert
  rw [htype]
  dsimp only
  split_ifs
  · have hmod : u32 (value % 16 * 2 ^ 4) = 2 ^ 4 * (value % 16) := by
      rw [u32_of_lt (by omega), Nat.mul_comm]
    rw [and_low, and_low, hmod, Nat.or_comm, ← Nat.two_pow_add_eq_or_of_lt (by omega)]
  · rw [and_low, and_high hraw, ← Nat.two_pow_add_eq_or_of_lt (by omega)]

theorem insert_lt (hraw : raw < 2 ^ (8 * sect.parameterType.width)) (hv : value < 2 ^ 32) :
    sect.insert p raw value < 2 ^ (8 * sect.parameterType.width) := by
  cases htype : sect.parameterType with
  | bit =>
    rw [htype] at hraw
    unfold Section.insert
    rw [htype]
    dsimp only
    exact withBit_lt hraw (by rw [Nat.mul_comm 8, bitIndex_eq]; omega)
  | byte =>
    unfold Section.insert
    rw [htype]
    dsimp only
    rw [Nat.and_two_pow_sub_one_eq_mod value 8]
    exact Nat.mod_lt _ (by decide)
  | halfByte =>
    rw [htype] at hraw
    rw [insert_halfByte htype hraw]
    have hraw : raw < 256 := hraw
    show _ < 256
    split_ifs <;> omega
  | word =>
    unfold Section.insert
    rw [htype]
    dsimp only
    rw [Nat.and_two_pow_sub_one_eq_mod value 16]
    exact Nat.mod_lt _ (by decide)
  | dword =>
    unfold Section.insert
    rw [htype]
    exact hv

/-- The parameter that is written gets the value, cut to its bits. -/
theorem extract_insert (hraw : raw < 2 ^ (8 * sect.parameterType.width)) (hv : value < 2 ^ 32) :
    sect.extract p (sect.insert p raw value) = value % 2 ^ LessDb.bits sect.parameterType := by
  cases htype : sect.parameterType with
  | bit =>
    unfold Section.extract Section.insert
    rw [htype]
    dsimp only [LessDb.bits]
    rw [Nat.mul_comm 8, bitIndex_eq, hasBit_withBit (by omega) (by omega), if_pos rfl,
      Nat.and_one_is_mod]
    rcases Nat.mod_two_eq_zero_or_one value with h | h <;> rw [Nat.pow_one, h] <;> rfl
  | byte =>
    unfold Section.extract Section.insert
    rw [htype]
    dsimp only [LessDb.bits]
    rw [Nat.and_two_pow_sub_one_eq_mod _ 8, Nat.and_two_pow_sub_one_eq_mod _ 8, Nat.mod_mod]
  | halfByte =>
    rw [htype] at hraw
    have hraw' : raw < 256 := hraw
    rw [insert_halfByte htype hraw]
    unfold Section.extract
    rw [htype]
    dsimp only [LessDb.bits]
    rw [and_low]
    split_ifs <;> omega
  | word =>
    unfold Section.extract Section.insert
    rw [htype]
    dsimp only [LessDb.bits]
    rw [Nat.and_two_pow_sub_one_eq_mod _ 16, Nat.and_two_pow_sub_one_eq_mod _ 16, Nat.mod_mod]
  | dword =>
    unfold Section.extract Section.insert
    rw [htype]
    exact (Nat.mod_eq_of_lt hv).symm

/-- Another parameter of the same place is left alone. -/
theorem extract_other (hraw : raw < 2 ^ (8 * sect.parameterType.width))
    (hshort : sect.parameterType = .bit → p < 2048 ∧ p' < 2048)
    (hcell : sect.cell p' = sect.cell p) (hne : p' ≠ p) :
    sect.extract p' (sect.insert p raw value) = sect.extract p' raw := by
  cases htype : sect.parameterType with
  | bit =>
    obtain ⟨h1, h2⟩ := hshort htype
    unfold Section.cell at hcell
    rw [htype] at hcell
    dsimp only at hcell
    unfold Section.extract Section.insert
    rw [htype]
    dsimp only
    rw [Nat.mul_comm 8, bitIndex_eq, bitIndex_eq, hasBit_withBit (by omega) (by omega),
      if_neg (by omega)]
  | halfByte =>
    rw [htype] at hraw
    have hraw' : raw < 256 := hraw
    unfold Section.cell at hcell
    rw [htype] at hcell
    dsimp only at hcell
    rw [insert_halfByte htype hraw]
    unfold Section.extract
    rw [htype]
    dsimp only
    rw [and_low, and_low]
    split_ifs <;> omega
  | byte =>
    unfold Section.cell at hcell
    rw [htype] at hcell
    exact absurd hcell hne
  | word =>
    unfold Section.cell at hcell
    rw [htype] at hcell
    dsimp only at hcell
    omega
  | dword =>
    unfold Section.cell at hcell
    rw [htype] at hcell
    dsimp only at hcell
    omega

theorem cell_apart (hcell : sect.cell p' ≠ sect.cell p) (lo : Nat) :
    Disjoint (lo + sect.cell p) (lo + sect.cell p + sect.parameterType.width)
      (lo + sect.cell p') (lo + sect.cell p' + sect.parameterType.width) := by
  unfold Disjoint
  unfold Section.cell at hcell ⊢
  cases htype : sect.parameterType <;> simp only [htype, SectionParameterType.width] at hcell ⊢ <;>
    omega

end Section

namespace LessDb

variable {hwa : Hwa} {db db' : LessDb} {address value raw : Nat} {type : SectionParameterType}
  {block : Block} {sect : Section} {b s p : Nat} {blocks : List (List Section)}
  {startAddress : Nat}

/-- A write within a section keeps what is remembered coherent. -/
theorem Wrote.coherent (h : Accepted hwa blocks startAddress db)
    (hcoherent : Coherent hwa startAddress db) (hw : Wrote hwa address value type db db')
    (hb : db.layout[b]? = some block) (hs : block.sections[s]? = some sect)
    (hlo : firstAddress startAddress block sect ≤ address)
    (hhi : address + type.width ≤ firstAddress startAddress block sect + sect.size)
    (hone : sect.Packed → type.width = 1) : Coherent hwa startAddress db' := by
  intro b' s' block' sect' hb' hs' hpacked h1 h2
  rw [hw.config.layout] at hb'
  have hend := h.end_le hb' hs'
  have hwidth := hpacked.width
  have hlast := hw.lastReadAddress
  split_ifs at hlast with hsame
  · rw [hlast, invalidAddress] at h2
    have hcount := hwa.addressCount.toNat_lt
    omega
  · rw [hlast] at h1 h2 ⊢
    rw [hw.lastReadValue, ← hcoherent b' s' block' sect' hb' hs' hpacked h1 h2]
    apply hw.apart _ _ (by omega)
    -- The byte is in another section, or another byte of the same one.
    by_contra hnot
    have hover : address < db.lastReadAddress + 1 ∧ db.lastReadAddress < address + type.width := by
      unfold Disjoint at hnot
      omega
    have hin : firstAddress startAddress block sect ≤ db.lastReadAddress := by omega
    obtain ⟨-, -, -, rfl⟩ := h.same hb hs hb' hs' hin (by omega) h1 h2
    have := hone hpacked
    omega

/-- The database as a call of the API finds it: nothing that is remembered is out of date. -/
structure Current (hwa : Hwa) (blocks : List (List Section)) (startAddress : Nat) (db : LessDb) :
    Prop extends Accepted hwa blocks startAddress db where
  coherent : Coherent hwa startAddress db

theorem Current.looked (h : Current hwa blocks startAddress db)
    (hl : Looked hwa startAddress db db') : Current hwa blocks startAddress db' :=
  ⟨h.toAccepted.config hl.config, hl.coherent⟩

theorem Current.wrote (h : Current hwa blocks startAddress db)
    (hb : db.layout[b]? = some block) (hs : block.sections[s]? = some sect)
    (hlo : firstAddress startAddress block sect ≤ address)
    (hhi : address + type.width ≤ firstAddress startAddress block sect + sect.size)
    (hone : sect.Packed → type.width = 1) (hw : Wrote hwa address value type db db') :
    Current hwa blocks startAddress db' :=
  ⟨h.toAccepted.config hw.config, hw.coherent h.toAccepted h.coherent hb hs hlo hhi hone⟩

/-- The byte that is changed is read first, past what is remembered. -/
theorem modifyByte_spec {change : Nat → Nat} (h : ReadsBack hwa)
    (hin : address + type.width ≤ hwa.addressCount.toNat)
    (hread : hwa.read db.calls address type = some raw) :
    ((modifyByte hwa address change type db).1 = true ↔ change raw < 2 ^ (8 * type.width)) ∧
      Wrote hwa address (change raw) type db (modifyByte hwa address change type db).2 := by
  have hrun : modifyByte hwa address change type db = write hwa address (change raw) type
      { db with calls := db.calls ++ [.read address type] } := by
    simp [modifyByte, bind, StateT.bind, hwaRead, hread]
  obtain ⟨hok, hw⟩ := write_spec (change raw) { db with calls := db.calls ++ [.read address type] }
    h hin
  rw [hrun]
  refine ⟨hok, ⟨hw.config.layout, hw.config.initialAddress, hw.config.layoutUid,
    hw.config.initProviders⟩, hw.written, fun address' type' hin' hdisjoint => ?_,
    hw.lastReadValue, hw.lastReadAddress⟩
  rw [hw.apart address' type' hin' hdisjoint]
  exact h.quiet ..

theorem update_eq (hsect : db.sectionAt b s = some (block, sect)) (hp : p < sect.numberOfParameters) :
    update hwa b s p value db = (match sect.parameterType with
      | .bit => modifyByte hwa (u32 (db.sectionAddress block sect + p / 8 % 256))
        (fun raw => withBit raw ((p - 8 * (p / 8 % 256)) % 256) (value &&& 1)) .bit
      | .byte => write hwa (u32 (db.sectionAddress block sect + p)) (value &&& 0xFF) .byte
      | .halfByte => modifyByte hwa (u32 (db.sectionAddress block sect + p / 2))
        (fun raw => if p % 2 ≠ 0 then (raw &&& 0x0F) ||| u32 ((value &&& 0x0F) * 2 ^ 4)
          else (raw &&& 0xF0) ||| (value &&& 0x0F)) .halfByte
      | .word => write hwa (u32 (db.sectionAddress block sect + p * 2)) (value &&& 0xFFFF) .word
      | .dword => write hwa (u32 (db.sectionAddress block sect + p * 4)) value .dword) db := by
  have hnot : ¬ p ≥ sect.numberOfParameters := Nat.not_le.mpr hp
  cases ht : sect.parameterType <;>
    simp only [update, bind, StateT.bind, get, getThe, MonadStateOf.get, StateT.get, pure, hsect,
      if_neg hnot, ht]

/-- An update of a parameter writes its place. -/
theorem update_spec (value : Nat) (h : Accepted hwa blocks startAddress db)
    (hsect : db.sectionAt b s = some (block, sect)) (hp : p < sect.numberOfParameters) :
    ∃ raw, raw < 2 ^ (8 * sect.parameterType.width) ∧
      hwa.read db.calls (firstAddress startAddress block sect + sect.cell p)
        sect.parameterType = some raw ∧
      ((update hwa b s p value db).1 = true ↔
        sect.insert p raw value < 2 ^ (8 * sect.parameterType.width)) ∧
      Wrote hwa (firstAddress startAddress block sect + sect.cell p) (sect.insert p raw value)
        sect.parameterType db (update hwa b s p value db).2 := by
  obtain ⟨hb, hs⟩ := sectionAt_some hsect
  have hcell := Section.cell_le hp
  have hend := h.end_le hb hs
  have hcount := hwa.addressCount.toNat_lt
  have hpos : 0 < sect.parameterType.width := width_pos
  have haddress : u32 (firstAddress startAddress block sect + sect.cell p) =
      firstAddress startAddress block sect + sect.cell p := u32_of_lt (by omega)
  have hin : firstAddress startAddress block sect + sect.cell p + sect.parameterType.width ≤
      hwa.addressCount.toNat := by omega
  obtain ⟨raw, hraw, hread⟩ := h.readsBack.read db.calls _ sect.parameterType hin
  refine ⟨raw, hraw, hread, ?_⟩
  rw [update_eq hsect hp, h.placed.sectionAddress hb hs]
  unfold Section.cell at haddress hin hread ⊢
  unfold Section.insert
  cases htype : sect.parameterType <;> simp only [htype] at haddress hin hread ⊢ <;> rw [haddress]
  case bit | halfByte => exact modifyByte_spec h.readsBack hin hread
  all_goals exact write_spec _ db h.readsBack hin

theorem Current.update (value : Nat) (h : Current hwa blocks startAddress db)
    (hsect : db.sectionAt b s = some (block, sect)) (hp : p < sect.numberOfParameters) :
    Current hwa blocks startAddress (update hwa b s p value db).2 := by
  obtain ⟨hb, hs⟩ := sectionAt_some hsect
  have hcell := Section.cell_le hp
  obtain ⟨raw, _, _, _, hw⟩ := update_spec value h.toAccepted hsect hp
  exact h.wrote hb hs (by omega) (by omega) (fun hpacked => hpacked.width) hw

/-- An update succeeds, its parameter then reads as the value in its bits, and every other
parameter as before. -/
def Isolated (hwa : Hwa) (db : LessDb) : Prop :=
  ∀ (b s p value : Nat) (block : Block) (sect : Section), db.sectionAt b s = some (block, sect) →
    p < sect.numberOfParameters → value < 2 ^ 32 →
    (update hwa b s p value db).1 = true ∧
      (read hwa b s p (update hwa b s p value db).2).1 =
        some (value % 2 ^ bits sect.parameterType) ∧
      ∀ b' s' p', (b', s', p') ≠ (b, s, p) →
        (read hwa b' s' p' (update hwa b s p value db).2).1 = (read hwa b' s' p' db).1

/-- No section of bits has more than 256 bytes. -/
def ShortBits (layout : List Block) : Prop :=
  ∀ block ∈ layout, ∀ sect ∈ block.sections, sect.parameterType = .bit →
    sect.numberOfParameters ≤ 2048

theorem read_none (h : ∀ block sect, db.sectionAt b s = some (block, sect) →
    ¬ p < sect.numberOfParameters) : (read hwa b s p db).1 = none := by
  rcases hsect : db.sectionAt b s with _ | ⟨block, sect⟩
  · simp [read, hsect, bind, StateT.bind, get, getThe, MonadStateOf.get, StateT.get, pure,
      StateT.pure]
  · have hge : p ≥ sect.numberOfParameters := Nat.not_lt.mp (h block sect hsect)
    simp [read, hsect, hge, bind, StateT.bind, get, getThe, MonadStateOf.get, StateT.get, pure,
      StateT.pure]

theorem update_succeeds (h : Current hwa blocks startAddress db)
    (hsect : db.sectionAt b s = some (block, sect)) (hp : p < sect.numberOfParameters)
    (hv : value < 2 ^ 32) :
    (LessDb.update hwa b s p value db).1 = true ∧
      (read hwa b s p (LessDb.update hwa b s p value db).2).1 =
        some (value % 2 ^ bits sect.parameterType) := by
  obtain ⟨raw, hraw, _, hok, hw⟩ := update_spec value h.toAccepted hsect hp
  have hlt := Section.insert_lt (p := p) hraw hv
  have hafter := h.update value hsect hp
  obtain ⟨raw', hread', hresult, _⟩ := read_spec hafter.toAccepted hafter.coherent
    (by rw [sectionAt_eq hw.config]; exact hsect) hp
  rw [hw.written _ rfl, Nat.mod_eq_of_lt hlt] at hread'
  cases hread'
  exact ⟨hok.mpr hlt, by rw [hresult, Section.extract_insert hraw hv]⟩

theorem update_others (h : Current hwa blocks startAddress db) (hshort : ShortBits db.layout)
    (hsect : db.sectionAt b s = some (block, sect)) (hp : p < sect.numberOfParameters)
    (hv : value < 2 ^ 32) {b' s' p' : Nat} (hne : (b', s', p') ≠ (b, s, p)) :
    (read hwa b' s' p' (LessDb.update hwa b s p value db).2).1 = (read hwa b' s' p' db).1 := by
  obtain ⟨raw, hraw, hread, _, hw⟩ := update_spec value h.toAccepted hsect hp
  have hlt := Section.insert_lt (p := p) hraw hv
  have hafter := h.update value hsect hp
  have hat := sectionAt_eq (b := b') (s := s') hw.config
  by_cases hvalid : ∃ block' sect', db.sectionAt b' s' = some (block', sect') ∧
      p' < sect'.numberOfParameters
  swap
  · rw [read_none fun block' sect' hsect' hp' => hvalid ⟨block', sect', by rw [← hat, hsect'], hp'⟩,
      read_none fun block' sect' hsect' hp' => hvalid ⟨block', sect', hsect', hp'⟩]
  obtain ⟨block', sect', hsect', hp'⟩ := hvalid
  obtain ⟨before, hbefore, hresult, _⟩ := read_spec h.toAccepted h.coherent hsect' hp'
  obtain ⟨after, hafter', hresult', _⟩ := read_spec hafter.toAccepted hafter.coherent
    (hat.trans hsect') hp'
  rw [hresult, hresult']
  obtain ⟨hb, hs⟩ := sectionAt_some hsect
  obtain ⟨hb', hs'⟩ := sectionAt_some hsect'
  have hcell := Section.cell_le hp
  have hcell' := Section.cell_le hp'
  have hend' := h.toAccepted.end_le hb' hs'
  have hkept : Disjoint (firstAddress startAddress block sect + sect.cell p)
      (firstAddress startAddress block sect + sect.cell p + sect.parameterType.width)
      (firstAddress startAddress block' sect' + sect'.cell p')
      (firstAddress startAddress block' sect' + sect'.cell p' + sect'.parameterType.width) →
      some (sect'.extract p' after) = some (sect'.extract p' before) := by
    intro hdisjoint
    rw [hw.apart _ _ (by omega) hdisjoint, hbefore] at hafter'
    cases hafter'
    rfl
  by_cases hsame : (b', s') = (b, s)
  · cases hsame
    rw [hsect] at hsect'
    cases hsect'
    by_cases hplace : sect.cell p' = sect.cell p
    · rw [hplace, hw.written _ rfl, Nat.mod_eq_of_lt hlt] at hafter'
      rw [hplace, hread] at hbefore
      cases hafter'
      cases hbefore
      refine congrArg some (Section.extract_other hraw (fun hbit => ?_) hplace fun heq => hne ?_)
      · have := hshort block (List.mem_of_getElem? hb) sect (List.mem_of_getElem? hs) hbit
        omega
      · rw [heq]
    · exact hkept (Section.cell_apart hplace _)
  · apply hkept
    have hfits := h.placed.fits
    rw [h.placed.layout] at hb hb'
    rcases sections_disjoint (by omega) hb hs hb' hs' (Ne.symm hsame) startAddress with hd | hd
    · exact .inl (by omega)
    · exact .inr (by omega)

/-- In a section with more than 256 bytes of bits, the first bit is also that 2048 after it. -/
theorem not_isolated (h : Current hwa blocks startAddress db)
    (hsect : db.sectionAt b s = some (block, sect)) (hbit : sect.parameterType = .bit)
    (hlong : 2048 < sect.numberOfParameters) : ¬ Isolated hwa db := by
  intro hiso
  have hread : ∀ db', Current hwa blocks startAddress db' →
      db'.sectionAt b s = some (block, sect) →
      (read hwa b s 2048 db').1 = (read hwa b s 0 db').1 := by
    intro db' h' hsect'
    obtain ⟨raw, h1, hr, _⟩ := read_spec h'.toAccepted h'.coherent hsect' hlong
    obtain ⟨raw', h2, hr', _⟩ := read_spec h'.toAccepted h'.coherent hsect' (p := 0) (by omega)
    unfold Section.cell at h1 h2
    rw [hbit] at h1 h2
    cases h1.symm.trans h2
    rw [hr, hr']
    unfold Section.extract
    rw [hbit]
  have hzero : 0 < sect.numberOfParameters := by omega
  obtain ⟨raw, _, hr, _⟩ := read_spec h.toAccepted h.coherent hsect hzero
  obtain ⟨_, _, _, _, hw⟩ := update_spec (1 - sect.extract 0 raw) h.toAccepted hsect hzero
  have hafter := hread _ (h.update (1 - sect.extract 0 raw) hsect hzero)
    ((sectionAt_eq hw.config).trans hsect)
  have hlt : 1 - sect.extract 0 raw < 2 ^ 32 := by omega
  obtain ⟨_, hown, hothers⟩ := hiso b s 0 (1 - sect.extract 0 raw) block sect hsect hzero hlt
  rw [hothers b s 2048 (by simp), hread db h hsect, hr, hown, hbit] at hafter
  have hone : sect.extract 0 raw < 2 := by
    unfold Section.extract
    rw [hbit]
    exact Nat.lt_succ_of_le (Bool.toNat_le _)
  have heq := Option.some.inj hafter
  dsimp only [bits] at heq
  omega

theorem Current.write (value : Nat) (type : SectionParameterType)
    (h : Current hwa blocks startAddress db) (hb : (built blocks)[b]? = some block)
    (hs : block.sections[s]? = some sect) {offset : Nat} (ho : offset + type.width ≤ sect.size)
    (hone : sect.Packed → type.width = 1) : Current hwa blocks startAddress
      (write hwa (u32 (firstAddress startAddress block sect + offset)) value type db).2 := by
  rw [← h.placed.layout] at hb
  obtain ⟨hlo, hhi⟩ := offset_inside h.placed hb hs ho
  have hend := h.toAccepted.end_le hb hs
  exact h.wrote hb hs hlo hhi hone (write_spec value db h.readsBack (by omega)).2

theorem writeEach_current {α : Type} {f : α → StateM LessDb Bool} {xs : List α}
    (hf : ∀ x ∈ xs, ∀ db, Current hwa blocks startAddress db →
      Current hwa blocks startAddress (f x db).2) (h : Current hwa blocks startAddress db) :
    Current hwa blocks startAddress (writeEach f xs db).2 := by
  induction xs generalizing db with
  | nil => exact h
  | cons x rest ih =>
    have hx := hf x (by simp) db h
    rw [writeEach_cons]
    split_ifs
    · exact ih (fun y hy => hf y (List.mem_cons_of_mem _ hy)) hx
    · exact hx

theorem Current.initSection (h : Current hwa blocks startAddress db)
    (hb : (built blocks)[b]? = some block) (hs : block.sections[s]? = some sect)
    {reset : FactoryResetType} :
    Current hwa blocks startAddress (initSection hwa reset b s block sect db).2 := by
  by_cases hspared : sect.preserveOnPartialReset = .enable ∧ reset = .partialReset
  · unfold LessDb.initSection
    rw [if_pos hspared]
    exact h
  rw [initSection_eq hspared, h.placed.sectionAddress (h.placed.layout ▸ hb) hs]
  have hunpacked : sect.parameterType ≠ .bit → sect.parameterType ≠ .halfByte →
      sect.Packed → sect.parameterType.width = 1 :=
    fun hbit hhalf hpacked => (hpacked.elim hbit hhalf).elim
  have hbytes : ∀ perByte width, Current hwa blocks startAddress (initBytes hwa b s
      (firstAddress startAddress block sect) perByte width sect db).2 := by
    intro perByte width
    refine writeEach_current (fun k hk db' h' => ?_) h
    exact h'.write _ .byte hb hs (Nat.succ_le_of_lt (List.mem_range.mp hk)) fun _ => rfl
  have heach : ∀ width, (∀ p < sect.numberOfParameters,
      p * width + sect.parameterType.width ≤ sect.size) →
      (sect.Packed → sect.parameterType.width = 1) → Current hwa blocks startAddress
        (initEach hwa b s (firstAddress startAddress block sect) width sect db).2 := by
    intro width hinside hone
    refine writeEach_current (fun p hp db' h' => ?_) h
    exact h'.write _ _ hb hs (hinside p (List.mem_range.mp hp)) hone
  cases htype : sect.parameterType with
  | bit => exact hbytes 8 1
  | halfByte => exact hbytes 2 4
  | byte =>
    refine heach 1 (fun p hp => ?_) (hunpacked (by simp [htype]) (by simp [htype]))
    rw [htype, Nat.mul_one]
    exact (parameter_inside hp).2.1 htype
  | word =>
    refine heach 2 (fun p hp => ?_) (hunpacked (by simp [htype]) (by simp [htype]))
    rw [htype]
    exact (parameter_inside hp).2.2.2.1 htype
  | dword =>
    refine heach 4 (fun p hp => ?_) (hunpacked (by simp [htype]) (by simp [htype]))
    rw [htype]
    exact (parameter_inside hp).2.2.2.2 htype

theorem Current.initData (h : Current hwa blocks startAddress db) {reset : FactoryResetType} :
    Current hwa blocks startAddress (initData hwa reset db).2 := by
  rw [initData_eq]
  refine writeEach_current (fun entry hentry db' h' => ?_) h
  obtain ⟨hb, hs⟩ := mem_indexedSections hentry
  exact h'.initSection (h.placed.layout ▸ hb) hs

theorem update_out_of_range (hsect : db.sectionAt b s = some (block, sect))
    (hp : ¬ p < sect.numberOfParameters) : (update hwa b s p value db).2 = db := by
  have hge : p ≥ sect.numberOfParameters := Nat.not_lt.mp hp
  simp [update, hsect, hge, bind, StateT.bind, get, getThe, MonadStateOf.get, StateT.get, pure,
    StateT.pure]

theorem Current.perform (h : Current hwa blocks startAddress db) {op : DbOp} (hop : op ≠ .clear) :
    Current hwa blocks startAddress (perform hwa op db) := by
  cases op with
  | read b s p => exact h.looked (reads_looked h.toAccepted h.coherent [(b, s, p)])
  | update b s p value =>
    show Current hwa blocks startAddress (LessDb.update hwa b s p value db).2
    rcases hsect : db.sectionAt b s with _ | ⟨block, sect⟩
    · rw [update_absent hsect]
      exact h
    · by_cases hp : p < sect.numberOfParameters
      · exact h.update value hsect hp
      · rw [update_out_of_range hsect hp]
        exact h
  | initData reset => exact h.initData
  | clear => exact absurd rfl hop
  | registerLayoutInitProvider b s provider =>
    exact ⟨⟨h.readsBack, ⟨h.placed.layout, h.placed.initialAddress, h.placed.fits⟩, h.inside⟩,
      h.coherent⟩
  | clearInitProviders =>
    exact ⟨⟨h.readsBack, ⟨h.placed.layout, h.placed.initialAddress, h.placed.fits⟩, h.inside⟩,
      h.coherent⟩

theorem run_current {ops : List DbOp} (h : Current hwa blocks startAddress db)
    (hops : ∀ op ∈ ops, op ≠ .clear) :
    Current hwa blocks startAddress (ops.foldl (fun db op => perform hwa op db) db) := by
  induction ops generalizing db with
  | nil => exact h
  | cons op rest ih =>
    exact ih (h.perform (hops op (by simp))) fun op' hop => hops op' (List.mem_cons_of_mem _ hop)

/-- The byte that is remembered when the layout is set, if it is one of packed parameters, is as the
backend has it. `set_layout` does not forget it. -/
def Fresh (hwa : Hwa) (layout : List Block) (startAddress : Nat) (db : LessDb) : Prop :=
  ∀ block ∈ layout, ∀ sect ∈ block.sections, sect.Packed →
    firstAddress startAddress block sect ≤ db.lastReadAddress →
    db.lastReadAddress < firstAddress startAddress block sect + sect.size →
    hwa.read db.calls db.lastReadAddress sect.parameterType = some db.lastReadValue

instance (hwa : Hwa) (layout : List Block) (startAddress : Nat) (db : LessDb) :
    Decidable (Fresh hwa layout startAddress db) := by
  unfold Fresh Section.Packed
  infer_instance

theorem setLayout_current {uid : Nat} (hreads : ReadsBack hwa)
    (hfresh : Fresh hwa (built blocks) startAddress db) (htotal : totalSize blocks < 2 ^ 32)
    (haccepted : (setLayout hwa (built blocks) startAddress uid db).1 = true) :
    Current hwa blocks startAddress (setLayout hwa (built blocks) startAddress uid db).2 := by
  obtain ⟨hle, hplaced⟩ := setLayout_accepted htotal haccepted
  have haccept : Accepted hwa blocks startAddress
      (setLayout hwa (built blocks) startAddress uid db).2 := ⟨hreads, hplaced, hle⟩
  have hkept : (setLayout hwa (built blocks) startAddress uid db).2.lastReadAddress =
        db.lastReadAddress ∧
      (setLayout hwa (built blocks) startAddress uid db).2.lastReadValue = db.lastReadValue ∧
      (setLayout hwa (built blocks) startAddress uid db).2.calls = db.calls := by
    simp only [setLayout]
    split_ifs <;> exact ⟨rfl, rfl, rfl⟩
  refine ⟨haccept, fun b s block sect hb hs hpacked h1 h2 => ?_⟩
  obtain ⟨haddress, hvalue, hcalls⟩ := hkept
  rw [haddress] at h1 h2 ⊢
  rw [hvalue, hcalls]
  rw [hplaced.layout] at hb
  exact hfresh block (List.mem_of_getElem? hb) sect (List.mem_of_getElem? hs) hpacked h1 h2

/-- Once a layout is accepted with no byte remembered that is out of date, and whatever is read,
updated and initialised then, an update reaches its parameter and no other one exactly when no
section of bits is too long. -/
theorem isolated_iff (hwa : Hwa) (hreads : ReadsBack hwa) (blocks : List (List Section))
    (startAddress uid : Nat) (db : LessDb) (hfresh : Fresh hwa (built blocks) startAddress db)
    (htotal : totalSize blocks < 2 ^ 32)
    (haccepted : (setLayout hwa (built blocks) startAddress uid db).1 = true) (ops : List DbOp)
    (hops : ∀ op ∈ ops, op ≠ .clear) :
    Isolated hwa (ops.foldl (fun db op => perform hwa op db)
      (setLayout hwa (built blocks) startAddress uid db).2) ↔ ShortBits (built blocks) := by
  have hnow := run_current (setLayout_current hreads hfresh htotal haccepted) hops
  constructor
  · intro hiso block hblock sect hsect hbit
    by_contra hlong
    obtain ⟨b, hb⟩ := List.getElem?_of_mem hblock
    obtain ⟨s, hs⟩ := List.getElem?_of_mem hsect
    exact not_isolated hnow (sectionAt_of (hnow.placed.layout ▸ hb) hs) hbit (by omega) hiso
  · intro hshort b s p value block sect hsect hp hv
    obtain ⟨hok, hread⟩ := update_succeeds hnow hsect hp hv
    refine ⟨hok, hread, fun b' s' p' hne => ?_⟩
    exact update_others hnow (by rw [hnow.placed.layout]; exact hshort) hsect hp hv hne

/-- A database that has read a bit at address 4 under a layout of its own. -/
def rereadDb : LessDb :=
  perform (memory 20 fun _ => 0xFF) (.read 0 0 0)
    (setLayout (memory 20 fun _ => 0xFF) (built [[⟨8, .bit, .disable, .disable, 0, 0⟩]]) 4 1 {}).2

theorem isolated_packed : rereadDb.lastReadAddress = 4 ∧ Isolated (memory 20 fun _ => 0xFF)
    ([.read 0 0 3, .update 0 1 2 500, .read 1 0 4].foldl
      (fun db op => perform (memory 20 fun _ => 0xFF) op db)
      (setLayout (memory 20 fun _ => 0xFF) (built packedBlocks) 4 0 rereadDb).2) :=
  ⟨by decide, (isolated_iff (memory 20 fun _ => 0xFF) (memory_readsBack 20 _) packedBlocks 4 0
    rereadDb (by decide) (by decide) (by decide) [.read 0 0 3, .update 0 1 2 500, .read 1 0 4]
    (by simp)).mpr (by unfold ShortBits; decide)⟩

/-- A byte read under one layout is taken for the bits that the next layout has there, so that the
update of one of them is seen as a change of all. -/
theorem stale_byte_disturbs :
    let hwa := memory 20 fun _ => 0xFF
    let db := perform hwa (.read 0 0 0)
      (setLayout hwa (built [[⟨8, .byte, .disable, .disable, 0, 0⟩]]) 4 1 {}).2
    (setLayout hwa (built packedBlocks) 4 0 db).1 = true ∧ ¬ Fresh hwa (built packedBlocks) 4 db ∧
      ¬ Isolated hwa (setLayout hwa (built packedBlocks) 4 0 db).2 := by
  refine ⟨by decide, by decide, fun hiso => ?_⟩
  obtain ⟨_, _, hothers⟩ := hiso 0 0 0 1 _ _ rfl (by decide) (by decide)
  exact absurd (hothers 0 0 1 (by decide)) (by decide)

/-- The bit of parameter 2048 is that of parameter 0. -/
theorem long_bits_shared :
    (setLayout (memory 300 fun _ => 0)
        (built [[⟨2049, .bit, .disable, .disable, 0, 0⟩]]) 0 0 {}).1 = true ∧
      ¬ Isolated (memory 300 fun _ => 0) (setLayout (memory 300 fun _ => 0)
        (built [[⟨2049, .bit, .disable, .disable, 0, 0⟩]]) 0 0 {}).2 := by
  refine ⟨by decide, fun hiso => ?_⟩
  obtain ⟨_, _, hothers⟩ := hiso 0 0 0 1 _ _ rfl (by decide) (by decide)
  exact absurd (hothers 0 0 2048 (by decide)) (by decide)

end LessDb

end Zlibs.Lessdb
