import Zlibs.EmuEeprom.Transfer

/-! Formatting, and the block copies to and from the factory page. -/
namespace Zlibs.EmuEeprom

open Zlibs.Lib

variable {g : Geometry} {f : Faults} {K : Logs → Prop} {L : Logs}
  {st : Option (Page × List Entry)} {s t : State} {S T b c : List Entry} {p q : Page} {e : Entry}
  {x : PageStatus}

/-- The end of `format` and `restore_from_factory`: page 1 becomes the valid page. -/
def activate (g : Geometry) : M Bool := do
  if !(← writePageStatus g .page1 .valid) then
    return false
  if !(← writePageStatus g .page2 .formatted) then
    return false
  modifyRam (·.setNextWriteOffset .page1 0)
  return true

inductive ActivateEnd (g : Geometry) (f : Faults) (K : Logs → Prop) (L : Logs) (r : Ram) :
    Bool → State → Prop
  | validRefused {t : State} {st : Option (Page × List Entry)} (hkept : Kept r t.ram)
      (hsees : Sees g f K L st t)
      (hst : st = none ∧ ((L .page1).length = g.pageEntries ∨ ReadFault f) ∨
        st = some (.page1, [statusEntry .valid]) ∧ BlockFault g f [statusEntry .valid]) :
      ActivateEnd g f K L r false t
  | formattedRefused {t : State} {st : Option (Page × List Entry)}
      (hkept : Kept (r.setPageStatus .page1 .valid) t.ram)
      (hsees : Sees g f K (L.marked g .page1 .valid) st t)
      (hst : st = none ∧ ReadFault f ∨
        st = some (.page2, [statusEntry .formatted]) ∧ BlockFault g f [statusEntry .formatted])
      (htail : Tail g t.ram (L.marked g .page1 .valid) st .page1 []) :
      ActivateEnd g f K L r false t
  | done {t : State}
      (hkept : Kept ((r.setPageStatus .page1 .valid).setPageStatus .page2 .formatted) t.ram)
      (hnext : t.ram.nextWriteOffsetCache = ⟨.page1, 0⟩)
      (hsees : Sees g f K ((L.marked g .page1 .valid).set .page2 (pad g [statusEntry .formatted]))
        none t) :
      ActivateEnd g f K L r true t

theorem activate_spec (h : Sees g f K L none s) (h2 : L .page2 = [])
    (hV : K (L.marked g .page1 .valid))
    (hF : K ((L.marked g .page1 .valid).set .page2 (pad g [statusEntry .formatted]))) :
    wp (activate g) (ActivateEnd g f K L s.ram) s := by
  have hidle : s.ram.flushed g = s.ram := flushed_clean h.staged
  have h2' : L.marked g .page1 .valid .page2 = [] := (Logs.set_ne (q := .page2) (p := .page1) (by decide)).trans h2
  have hlen : (L.marked g .page1 .valid .page1).length = (L .page1).length + g.entriesPerBlock := by
    rw [Logs.marked, Logs.set_self, List.length_append, length_pad_status]
  rw [activate]
  apply wp_bind_of (writePageStatus_spec h (q := .page1) (x := .valid) (by decide) h.good hV)
  rintro r t (⟨rfl, hkept, hnext, _, hsees⟩ | ⟨rfl, hnot⟩)
  · rw [hidle, Logs.flushed_none] at hnext
    rw [Logs.flushed_none] at hsees
    have htail : Tail g t.ram (L.marked g .page1 .valid) none .page1 [] := by
      rw [nextAfterStatus] at hnext
      split at hnext
      case isTrue =>
        exact .clean 0 (fun c hc => by cases hc) (by rw [hnext, hlen]; rfl) g.entriesPerBlock_pos
      case isFalse hpage =>
        exact .unknown (fun c hc => by cases hc) (Or.inl (by rwa [hnext]))
    have hmark : Logs.marked g (L.marked g .page1 .valid) .page2 .formatted =
        (L.marked g .page1 .valid).set .page2 (pad g [statusEntry .formatted]) := by
      rw [Logs.marked, h2', List.nil_append]
    apply wp_bind_of (writePageStatus_spec hsees (q := .page2) (x := .formatted) (by decide) hsees.good
      (by rw [Logs.flushed_none, hmark]; exact hF))
    rintro r u (⟨rfl, hkept', _, _, hsees'⟩ | ⟨rfl, hnot⟩)
    · rw [Logs.flushed_none, hmark] at hsees'
      simp only [Bool.not_true, Bool.false_eq_true, if_false]
      rw [wp_bind, wp_modifyRam]
      refine .done ⟨hkept'.cache.trans hkept.cache, hkept'.statuses.trans ?_,
        hkept'.dirty.trans hkept.dirty⟩ rfl (hsees'.setNext .page1 0)
      rw [Ram.setPageStatus, Ram.setPageStatus, hkept.statuses]
    · cases hnot with
      | unflushed _ _ hfault =>
        obtain ⟨p, c, hpc, _⟩ := hfault
        cases hpc
      | noRoom hram hsees' hfull =>
        rw [flushed_clean hsees.staged] at hram
        refine .formattedRefused (hram ▸ hkept) hsees' (Or.inl ⟨rfl, ?_⟩) (hram ▸ htail)
        rcases hfull with hfull | hfault
        · have := pageEntries_pos (g := g)
          rw [Logs.flushed_none, h2', List.length_nil] at hfull
          omega
        · exact hfault
      | refused hkept' hnext' _ hsees' hfault =>
        refine .formattedRefused (hkept.trans hkept') hsees' (Or.inr ⟨rfl, hfault⟩)
          (htail.move (hnext'.trans ?_) rfl fun c hc => by cases hc)
        rw [flushed_clean hsees.staged]
  · cases hnot with
    | unflushed _ _ hfault =>
      obtain ⟨p, c, hpc, _⟩ := hfault
      cases hpc
    | noRoom hram hsees' hfull =>
      rw [hidle] at hram
      exact .validRefused (hram ▸ Kept.refl _) hsees' (Or.inl ⟨rfl, hfull⟩)
    | refused hkept' _ _ hsees' hfault =>
      exact .validRefused hkept' hsees' (Or.inr ⟨rfl, hfault⟩)

/-- The logs of a formatted flash; the factory page may be formatted along. -/
def Logs.cleared (L : Logs) (formatFactoryPage : Bool) : Logs :=
  if formatFactoryPage then ((L.set .page1 []).set .page2 []).set .factory []
  else (L.set .page1 []).set .page2 []

structure FormatSafe (K : Logs → Prop) (g : Geometry) (L : Logs) (formatFactoryPage : Bool) :
    Prop where
  erased1 : K (L.set .page1 [])
  erased2 : K ((L.set .page1 []).set .page2 [])
  cleared : K (L.cleared formatFactoryPage)
  valid : K ((L.cleared formatFactoryPage).marked g .page1 .valid)
  formatted : K (((L.cleared formatFactoryPage).marked g .page1 .valid).set .page2
    (pad g [statusEntry .formatted]))

/-- The members once `format` has erased its pages. -/
def Ram.formatting (ram : Ram) (formatFactoryPage : Bool) : Ram :=
  (if formatFactoryPage then
    ((ram.clearWriteBlock.setPageStatus .page1 .erased).setPageStatus .page2
      .erased).setPageStatus .factory .erased
  else (ram.clearWriteBlock.setPageStatus .page1 .erased).setPageStatus .page2 .erased).clearCache

inductive FormatEnd (g : Geometry) (f : Faults) (K : Logs → Prop) (L : Logs)
    (formatFactoryPage : Bool) (r : Ram) : Bool → State → Prop
  | kept1 {t : State} (hram : t.ram = r.clearWriteBlock) (hsees : Sees g f K L none t)
      (hfault : EraseFault f) : FormatEnd g f K L formatFactoryPage r false t
  | kept2 {t : State} (hram : t.ram = r.clearWriteBlock.setPageStatus .page1 .erased)
      (hsees : Sees g f K (L.set .page1 []) none t) (hfault : EraseFault f) :
      FormatEnd g f K L formatFactoryPage r false t
  | keptFactory {t : State}
      (hram : t.ram = (r.clearWriteBlock.setPageStatus .page1 .erased).setPageStatus .page2 .erased)
      (hsees : Sees g f K ((L.set .page1 []).set .page2 []) none t) (hfault : EraseFault f) :
      FormatEnd g f K L formatFactoryPage r false t
  | activated {t : State} {done : Bool}
      (hend : ActivateEnd g f K (L.cleared formatFactoryPage) (r.formatting formatFactoryPage)
        done t) :
      FormatEnd g f K L formatFactoryPage r done t

theorem format_eq (formatFactoryPage : Bool) : format g formatFactoryPage = (do
    modifyRam Ram.clearWriteBlock
    if !(← hwaErasePage .page1) then
      return false
    modifyRam (·.setPageStatus .page1 .erased)
    if !(← hwaErasePage .page2) then
      return false
    modifyRam (·.setPageStatus .page2 .erased)
    if formatFactoryPage then
      if !(← hwaErasePage .factory) then
        return false
      modifyRam (·.setPageStatus .factory .erased)
    modifyRam Ram.clearCache
    activate g) := rfl

theorem Logs.cleared_page1 (L : Logs) (formatFactoryPage : Bool) :
    L.cleared formatFactoryPage .page1 = [] := by
  rw [Logs.cleared]
  split
  · rw [Logs.set_ne (q := .page1) (p := .factory) nofun,
      Logs.set_ne (q := .page1) (p := .page2) nofun, Logs.set_self]
  · rw [Logs.set_ne (q := .page1) (p := .page2) nofun, Logs.set_self]

theorem Logs.cleared_page2 (L : Logs) (formatFactoryPage : Bool) :
    L.cleared formatFactoryPage .page2 = [] := by
  rw [Logs.cleared]
  split
  · rw [Logs.set_ne (q := .page2) (p := .factory) nofun, Logs.set_self]
  · exact Logs.set_self

theorem format_spec (h : Sees g f K L st s) (formatFactoryPage : Bool)
    (hsafe : FormatSafe K g L formatFactoryPage) :
    wp (format g formatFactoryPage) (FormatEnd g f K L formatFactoryPage s.ram) s := by
  have hclear : Sees g f K L none { s with ram := s.ram.clearWriteBlock } := h.clear rfl
  rw [format_eq, wp_bind, wp_modifyRam]
  apply wp_bind_of (hwaErasePage_spec hclear rfl hsafe.erased1)
  rintro r t ⟨hram, ⟨rfl, hsees⟩ | ⟨rfl, hfault, hsees⟩⟩
  · simp only [Bool.not_true, Bool.false_eq_true, if_false]
    rw [wp_bind, wp_modifyRam, hram]
    have hsees1 : Sees g f K (L.set .page1 []) none
        { t with ram := s.ram.clearWriteBlock.setPageStatus .page1 .erased } := hsees.clear rfl
    apply wp_bind_of (hwaErasePage_spec hsees1 rfl hsafe.erased2)
    rintro r u ⟨hram', ⟨rfl, hsees'⟩ | ⟨rfl, hfault, hsees'⟩⟩
    · simp only [Bool.not_true, Bool.false_eq_true, if_false]
      rw [wp_bind, wp_modifyRam, hram']
      have hsees2 : Sees g f K ((L.set .page1 []).set .page2 []) none { u with
          ram := (s.ram.clearWriteBlock.setPageStatus .page1 .erased).setPageStatus .page2
            .erased } := hsees'.clear rfl
      have hdone : ∀ v : State, v.ram = s.ram.formatting formatFactoryPage →
          Sees g f K (L.cleared formatFactoryPage) none v →
          wp (activate g) (FormatEnd g f K L formatFactoryPage s.ram) v := by
        intro v hv hs
        apply wp_mono (activate_spec hs (L.cleared_page2 _) hsafe.valid hsafe.formatted)
        intro r t hend
        exact .activated (hv ▸ hend)
      cases formatFactoryPage with
      | false =>
        simp only [Bool.false_eq_true, if_false]
        rw [wp_bind, wp_modifyRam]
        exact hdone _ rfl (hsees2.clear rfl)
      | true =>
        simp only [if_true]
        apply wp_bind_of (hwaErasePage_spec hsees2 rfl hsafe.cleared)
        rintro r v ⟨hram'', ⟨rfl, hsees''⟩ | ⟨rfl, hfault, hsees''⟩⟩
        · simp only [Bool.not_true, Bool.false_eq_true, if_false]
          rw [wp_bind, wp_modifyRam, hram'', wp_bind, wp_modifyRam]
          exact hdone _ rfl (hsees''.clear rfl)
        · exact .keptFactory hram'' hsees'' hfault
    · exact .kept2 hram' hsees' hfault
  · exact .kept1 hram hsees hfault

/-- Why a block copy stops. -/
def CopyFault (g : Geometry) (f : Faults) : Prop := ReadFault f ∨ ∃ c, BlockFault g f c

theorem erased_block_at (wf : Blocks g S) {d : Span} {k : Nat}
    (hn : d.size = g.writeBlockSize)
    (hd : ∀ i < g.writeBlockSize, d.data i = image S (k * g.writeBlockSize + i)) :
    allErased d = true ↔ S.length ≤ k * g.entriesPerBlock := by
  rw [← wf.erased_block_iff]
  apply allErased_image (hn.trans g.writeBlockSize_eq)
  intro i hi
  rw [hd i (by rw [g.writeBlockSize_eq]; exact hi), g.writeBlockSize_eq, Nat.mul_left_comm]

/-- A block of a log as its own list of entries. -/
theorem Blocks.block (wf : Blocks g S) {k : Nat} (hk : k * g.entriesPerBlock < S.length) :
    ∃ c, (∃ e ∈ c, e ≠ erasedEntry) ∧ (∀ e ∈ c, e ∈ S) ∧ c.length = g.entriesPerBlock ∧
      S.take ((k + 1) * g.entriesPerBlock) = S.take (k * g.entriesPerBlock) ++ c ∧
      ∀ i < g.writeBlockSize, image S (k * g.writeBlockSize + i) = image c i := by
  have hmul : (k + 1) * g.entriesPerBlock = k * g.entriesPerBlock + g.entriesPerBlock :=
    Nat.succ_mul ..
  have hin : (k + 1) * g.entriesPerBlock ≤ S.length := by
    obtain ⟨n, hn⟩ := wf.aligned
    rw [hn, Nat.mul_comm g.entriesPerBlock] at hk ⊢
    exact Nat.mul_le_mul_right _ (Nat.lt_of_mul_lt_mul_right hk)
  have hget : ∀ j < g.entriesPerBlock,
      ((S.drop (k * g.entriesPerBlock)).take g.entriesPerBlock).getD j erasedEntry =
        S.getD (k * g.entriesPerBlock + j) erasedEntry := by
    intro j hj
    simp [List.getD_eq_getElem?_getD, List.getElem?_drop, hj]
  have hlen : ((S.drop (k * g.entriesPerBlock)).take g.entriesPerBlock).length =
      g.entriesPerBlock := by
    rw [List.length_take, List.length_drop]
    omega
  refine ⟨(S.drop (k * g.entriesPerBlock)).take g.entriesPerBlock, ?_, ?_, hlen, ?_, ?_⟩
  · obtain ⟨j, hj, hne⟩ := wf.used k hk
    rw [← hget j hj, List.getD_eq_getElem?_getD, List.getElem?_eq_getElem (by omega),
      Option.getD_some] at hne
    exact ⟨_, List.getElem_mem _, hne⟩
  · exact fun e he => List.mem_of_mem_drop (List.mem_of_mem_take he)
  · rw [hmul, List.take_add]
  · intro i hi
    rw [g.writeBlockSize_eq] at hi
    have hd : (k * g.writeBlockSize + i) / 4 = k * g.entriesPerBlock + i / 4 := by
      rw [g.writeBlockSize_eq, Nat.mul_left_comm]
      omega
    have hm : (k * g.writeBlockSize + i) % 4 = i % 4 := by
      rw [g.writeBlockSize_eq, Nat.mul_left_comm]
      omega
    rw [image, image, hd, hm, hget _ (by omega)]

/-- The next block of the log of `p`, behind those that `q` has of it. -/
theorem Blocks.copied (wf : Blocks g (L p)) {i : Nat} (hlt : i * g.entriesPerBlock < (L p).length) :
    ∃ c, (∃ e ∈ c, e ≠ erasedEntry) ∧ (∀ e ∈ c, e ∈ L p) ∧ c.length = g.entriesPerBlock ∧
      (i + 1) * g.entriesPerBlock ≤ (L p).length ∧
      (L.set q ((L p).take (i * g.entriesPerBlock))).set q
        (L.set q ((L p).take (i * g.entriesPerBlock)) q ++ pad g c) =
        L.set q ((L p).take ((i + 1) * g.entriesPerBlock)) ∧
      ∀ j < g.writeBlockSize, image (L p) (i * g.writeBlockSize + j) = image c j := by
  obtain ⟨c, hused, hmem, hlen, htake, himage⟩ := wf.block hlt
  have hpad : pad g c = c := by
    rw [pad, hlen, Nat.sub_self]
    exact List.append_nil _
  refine ⟨c, hused, hmem, hlen, ?_, ?_, himage⟩
  · have := congrArg List.length htake
    rw [List.length_append, List.length_take, List.length_take, hlen,
      Nat.min_eq_left hlt.le] at this
    rw [Nat.succ_mul] at this ⊢
    omega
  · rw [Logs.set_set, Logs.set_self, hpad, htake]

theorem length_copied {i : Nat} (hi : i * g.entriesPerBlock ≤ (L p).length) :
    (L.set q ((L p).take (i * g.entriesPerBlock)) q).length = i * g.entriesPerBlock := by
  rw [Logs.set_self, List.length_take]
  omega

theorem copied_offset {i : Nat} (hi : i * g.entriesPerBlock ≤ (L p).length) :
    i * g.writeBlockSize = 4 * (L.set q ((L p).take (i * g.entriesPerBlock)) q).length := by
  rw [length_copied hi, g.writeBlockSize_eq, Nat.mul_left_comm]

theorem writeBlocks_entries :
    g.pageSize / g.writeBlockSize * g.entriesPerBlock = g.pageEntries := by
  obtain ⟨k, hk⟩ := g.entriesPerBlock_dvd
  rw [g.pageSize_eq, g.writeBlockSize_eq, Nat.mul_div_mul_left _ _ (by omega), hk,
    Nat.mul_div_cancel_left _ g.entriesPerBlock_pos, Nat.mul_comm]

theorem copyBlocks_from (hne : p ≠ q) (n i : Nat)
    (hn : (i + n) * g.entriesPerBlock = g.pageEntries) (hi : i * g.entriesPerBlock ≤ (L p).length)
    (h : Sees g f K (L.set q ((L p).take (i * g.entriesPerBlock))) none s)
    (hK : ∀ k, k * g.entriesPerBlock ≤ (L p).length →
      K (L.set q ((L p).take (k * g.entriesPerBlock)))) :
    wp (copyBlocks g p q ((List.range' i n).map (· * g.writeBlockSize))) (fun r t =>
      t.ram = s.ram ∧
        ((r = true ∧ Sees g f K (L.set q (L p)) none t) ∨
          (r = false ∧ CopyFault g f ∧ ∃ k, k * g.entriesPerBlock ≤ (L p).length ∧
            Sees g f K (L.set q ((L p).take (k * g.entriesPerBlock))) none t))) s := by
  have hlog : ∀ T, L.set q T p = L p := fun T => Logs.set_ne hne
  have wf : WellFormed g (L p) := hlog _ ▸ h.wf p
  induction n generalizing i s with
  | zero =>
    refine ⟨rfl, Or.inl ⟨rfl, ?_⟩⟩
    rw [Nat.add_zero] at hn
    have hall : (L p).take (i * g.entriesPerBlock) = L p :=
      List.take_of_length_le (by rw [hn]; exact wf.fits)
    exact hall ▸ h
  | succ n ih =>
    rw [List.range'_succ, List.map_cons, copyBlocks]
    apply wp_bind_of (hwaRead_spec h.faults _ _)
    rintro r t ⟨rfl, rfl | ⟨rfl, c, hc⟩⟩
    · have hbytes : ∀ k < g.writeBlockSize, (Span.mk g.writeBlockSize fun k =>
          s.hwa.flash p (i * g.writeBlockSize + k)).data k =
            image (L p) (i * g.writeBlockSize + k) := by
        intro k _
        show s.hwa.flash p _ = _
        rw [h.flash p, hlog]
      have herased := erased_block_at wf.blocks rfl hbytes
      apply wp_ite
      · intro he
        have hall : (L p).take (i * g.entriesPerBlock) = L p :=
          List.take_of_length_le (herased.mp he)
        exact ⟨rfl, Or.inl ⟨rfl, hall ▸ h.atCalls _⟩⟩
      · intro he
        have hlt : i * g.entriesPerBlock < (L p).length := by
          by_contra hge
          exact he (herased.mpr (by omega))
        obtain ⟨c, hused, hmem, hlen, hin, hnext, himage⟩ := wf.blocks.copied (q := q) hlt
        have hc : BlockOk g c := ⟨hlen.le, hused, fun e he => wf.known e (hmem e he)⟩
        have hwrite := hwaWrite_spec (p := q) (h.atCalls (s.hwa.calls + 1)) hc
          (by rw [length_copied hi]; have := wf.fits; omega)
          (fun k hk => (hbytes k hk).trans (himage k hk)) (by rw [hnext]; exact hK _ hin)
        rw [hnext, ← copied_offset hi] at hwrite
        apply wp_bind_of hwrite
        rintro r t ⟨hram, ⟨rfl, hholds, hfails, htrace⟩ | ⟨rfl, hfault, hsees⟩⟩
        · have hsees : Sees g f K (L.set q ((L p).take ((i + 1) * g.entriesPerBlock))) none t :=
            ⟨hfails, hholds, hram ▸ h.staged, htrace, hK _ hin⟩
          apply wp_mono (ih (i + 1) (by rw [← hn]; congr 1; omega) hin hsees)
          rintro r u ⟨hram', hr⟩
          exact ⟨hram'.trans hram, hr⟩
        · exact ⟨hram, Or.inr ⟨rfl, Or.inr ⟨c, hfault⟩, i, hi, hsees⟩⟩
    · exact ⟨rfl, Or.inr ⟨rfl, Or.inl ⟨c, p, _, _, hc⟩, i, hi, h.atCalls _⟩⟩

/-- The target gets the log of the source, or a prefix of it in whole blocks. -/
theorem copyBlocks_spec (hne : p ≠ q) (h : Sees g f K L none s) (hq : L q = [])
    (hK : ∀ k, k * g.entriesPerBlock ≤ (L p).length →
      K (L.set q ((L p).take (k * g.entriesPerBlock)))) :
    wp (copyBlocks g p q g.writeOffsets) (fun r t =>
      t.ram = s.ram ∧
        ((r = true ∧ Sees g f K (L.set q (L p)) none t) ∨
          (r = false ∧ CopyFault g f ∧ ∃ k, k * g.entriesPerBlock ≤ (L p).length ∧
            Sees g f K (L.set q ((L p).take (k * g.entriesPerBlock))) none t))) s := by
  have hstart : L.set q ((L p).take (0 * g.entriesPerBlock)) = L := by
    rw [Nat.zero_mul, List.take_zero, Logs.set_eq_self hq]
  rw [Geometry.writeOffsets, List.range_eq_range']
  exact copyBlocks_from hne _ 0 (by rw [Nat.zero_add, writeBlocks_entries]) (by omega) (hstart.symm ▸ h) hK

end Zlibs.EmuEeprom
