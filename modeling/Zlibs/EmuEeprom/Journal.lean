import Zlibs.Lib.LastMatch
import Zlibs.EmuEeprom.Serialization

/-! A page as the list of entries appended to it since its last erase. -/
namespace Zlibs.EmuEeprom

open Zlibs.Lib

namespace Geometry

variable (g : Geometry)

/-- Entry slots of a page. -/
def pageEntries : Nat := g.pageSize / serializedEntrySize

/-- Write blocks of a read block. -/
def blocksPerRead : Nat := g.readBlockSize / g.writeBlockSize

theorem writeBlockSize_eq : g.writeBlockSize = 4 * g.entriesPerBlock := by
  have := g.block_entry
  simp only [entriesPerBlock, serializedEntrySize] at *
  omega

theorem pageSize_eq : g.pageSize = 4 * g.pageEntries := by
  have := g.page_entry
  simp only [pageEntries, serializedEntrySize] at *
  omega

theorem entriesPerBlock_pos : 0 < g.entriesPerBlock := by
  have := g.block_min
  have := g.writeBlockSize_eq
  simp only [serializedEntrySize] at *
  omega

theorem readBlockSize_eq : g.readBlockSize = 4 * (g.entriesPerBlock * g.blocksPerRead) := by
  have hd := Nat.div_add_mod g.readBlockSize g.writeBlockSize
  have hm : g.readBlockSize % g.writeBlockSize = 0 := g.block_internal
  rw [hm, Nat.add_zero] at hd
  rw [blocksPerRead, ← Nat.mul_assoc, ← writeBlockSize_eq, hd]

theorem blocksPerRead_pos : 0 < g.blocksPerRead := by
  have h := g.readBlockSize_eq
  simp only [readBlockSize, internalBlockSize] at h
  by_contra hz
  have : g.blocksPerRead = 0 := by omega
  rw [this] at h
  omega

/-- Read blocks of a page. -/
def pageReads : Nat := g.pageSize / g.readBlockSize

theorem pageEntries_eq : g.pageEntries = g.entriesPerBlock * g.blocksPerRead * g.pageReads := by
  have hd := Nat.div_add_mod g.pageSize g.readBlockSize
  have hm : g.pageSize % g.readBlockSize = 0 := g.page_internal
  rw [hm, Nat.add_zero, readBlockSize_eq, pageSize_eq, Nat.mul_assoc] at hd
  rw [pageReads, pageSize_eq, readBlockSize_eq]
  omega

theorem entriesPerBlock_dvd : g.entriesPerBlock ∣ g.pageEntries :=
  ⟨g.blocksPerRead * g.pageReads, by rw [pageEntries_eq, Nat.mul_assoc]⟩

/-- Room for the user's addresses and three blocks of internal records. -/
theorem capacity : g.maxAddress + 3 * g.entriesPerBlock ≤ g.pageEntries := by
  have hle := g.count_le
  have hpos := g.capacity_pos
  have hcount : addressCountFor g.pageSize g.writeBlockSize ≤
      g.pageEntries - 3 * g.entriesPerBlock := by
    unfold addressCountFor pageEntries entriesPerBlock
    dsimp only [minInternalEntryBlockCount]
    split_ifs <;> omega
  simp only [maxAddress]
  omega

theorem maxAddress_le : g.maxAddress ≤ 0xFFFF := g.count_uint16

end Geometry

/-- The entries that are not erased slots. -/
def live (entries : List Entry) : List Entry := entries.filter fun e => decide (e ≠ erasedEntry)

def valueOf (address : Nat) (e : Entry) : Option UInt16 :=
  if e.address ≠ reservedStatusAddress ∧ e.address.toNat = address then some e.value else none

/-- The value a log holds for a logical address. -/
def lookup (entries : List Entry) (address : Nat) : Option UInt16 :=
  lastMatch (valueOf address) entries

/-- The status a log gives to its page. -/
def lastStatus (entries : List Entry) : PageStatus := (lastMatch statusOf entries).getD .erased

def statusEntry (status : PageStatus) : Entry :=
  makeEntry reservedStatusAddress (serializePageStatus status)

/-- The address names a user entry of this instance or is the reserved one. -/
def KnownAddress (g : Geometry) (e : Entry) : Prop :=
  e.address = reservedStatusAddress ∨ e.address.toNat < g.maxAddress

/-- A log of whole blocks, none of them erased, inside the page. Its records may be of any kind. -/
structure Blocks (g : Geometry) (S : List Entry) : Prop where
  aligned : g.entriesPerBlock ∣ S.length
  fits : S.length ≤ g.pageEntries
  used : ∀ k, k * g.entriesPerBlock < S.length →
    ∃ j < g.entriesPerBlock, S.getD (k * g.entriesPerBlock + j) erasedEntry ≠ erasedEntry

/-- A log as the code writes it: whole blocks, none of them erased, inside the page. -/
structure WellFormed (g : Geometry) (S : List Entry) : Prop where
  aligned : g.entriesPerBlock ∣ S.length
  fits : S.length ≤ g.pageEntries
  used : ∀ k, k * g.entriesPerBlock < S.length →
    ∃ j < g.entriesPerBlock, S.getD (k * g.entriesPerBlock + j) erasedEntry ≠ erasedEntry
  known : ∀ e ∈ S, KnownAddress g e

/-- The slots of one write block that are in use. -/
structure BlockOk (g : Geometry) (c : List Entry) : Prop where
  fits : c.length ≤ g.entriesPerBlock
  used : ∃ e ∈ c, e ≠ erasedEntry
  known : ∀ e ∈ c, KnownAddress g e

/-- A block as it reads back: the unused slots are erased. -/
def pad (g : Geometry) (c : List Entry) : List Entry :=
  c ++ List.replicate (g.entriesPerBlock - c.length) erasedEntry

abbrev Logs := Page → List Entry

def Logs.set (L : Logs) (page : Page) (S : List Entry) : Logs :=
  fun p => if p = page then S else L p

variable {g : Geometry} {S T b c : List Entry} {e : Entry} {a n : Nat} {p q : Page} {L : Logs}

@[simp] theorem Logs.set_self : L.set p S p = S := if_pos rfl

theorem Logs.set_ne (h : q ≠ p) : L.set p S q = L q := if_neg h

@[simp] theorem Logs.set_set : (L.set p S).set p T = L.set p T := by
  funext q
  by_cases h : q = p <;> simp [Logs.set, h]

theorem Logs.set_eq_self (h : L p = S) : L.set p S = L := by
  funext q
  by_cases hq : q = p
  · subst hq
    rw [Logs.set_self, h]
  · rw [Logs.set_ne hq]

theorem Logs.set_comm (h : p ≠ q) : (L.set p S).set q T = (L.set q T).set p S := by
  funext r
  by_cases hp : r = p
  · subst hp
    rw [Logs.set_ne h, Logs.set_self, Logs.set_self]
  · rw [Logs.set_ne hp (S := S)]
    by_cases hq : r = q
    · subst hq
      rw [Logs.set_self, Logs.set_self]
    · rw [Logs.set_ne hq, Logs.set_ne hq, Logs.set_ne hp]

@[simp] theorem statusOf_erasedEntry : statusOf erasedEntry = none := by decide

@[simp] theorem valueOf_erasedEntry : valueOf a erasedEntry = none := by
  simp [valueOf, erasedEntry, reservedStatusAddress]

@[simp] theorem valueOf_statusEntry {st : PageStatus} : valueOf a (statusEntry st) = none := by
  simp [valueOf, statusEntry, makeEntry]

theorem statusOf_statusEntry {st : PageStatus} (h : st ≠ .erased) :
    statusOf (statusEntry st) = some st := by
  cases st <;> first | rfl | exact absurd rfl h

theorem statusEntry_ne_erasedEntry {st : PageStatus} (h : st ≠ .erased) :
    statusEntry st ≠ erasedEntry := by
  intro he
  have := statusOf_statusEntry h
  rw [he, statusOf_erasedEntry] at this
  cases this

theorem live_append : live (S ++ T) = live S ++ live T := List.filter_append ..

@[simp] theorem live_nil : live [] = [] := rfl

theorem live_singleton (h : e ≠ erasedEntry) : live [e] = [e] := by simp [live, h]

@[simp] theorem live_replicate : live (List.replicate n erasedEntry) = [] := by
  simp [live]

@[simp] theorem live_pad : live (pad g c) = live c := by
  rw [pad, live_append, live_replicate, List.append_nil]

theorem lookup_congr (h : live S = live T) (a : Nat) : lookup S a = lookup T a :=
  lastMatch_congr_filter (fun e he => by simp_all) h

theorem lastStatus_congr (h : live S = live T) : lastStatus S = lastStatus T := by
  rw [lastStatus, lastStatus, lastMatch_congr_filter (fun e he => by simp_all) h]

theorem lookup_append : lookup (S ++ T) a = (lookup T a).or (lookup S a) := lastMatch_append

@[simp] theorem lookup_nil : lookup [] a = none := rfl

@[simp] theorem lookup_pad : lookup (pad g c) a = lookup c a := lookup_congr live_pad a

theorem lookup_concat : lookup (S ++ [e]) a = (valueOf a e).or (lookup S a) := lastMatch_concat

@[simp] theorem lastStatus_nil : lastStatus [] = .erased := rfl

@[simp] theorem lastStatus_pad : lastStatus (pad g c) = lastStatus c := lastStatus_congr live_pad

theorem lastStatus_append : lastStatus (S ++ T) = (lastMatch statusOf T).getD (lastStatus S) := by
  rw [lastStatus, lastStatus, lastMatch_append]
  cases lastMatch statusOf T <;> rfl

theorem lastStatus_append_of_none (h : lastMatch statusOf T = none) :
    lastStatus (S ++ T) = lastStatus S := by
  rw [lastStatus_append, h, Option.getD_none]

theorem lastStatus_append_statusEntry {st : PageStatus} (h : st ≠ .erased) :
    lastStatus (S ++ pad g [statusEntry st]) = st := by
  have hl : live (S ++ pad g [statusEntry st]) = live (S ++ [statusEntry st]) := by
    simp [live_append]
  rw [lastStatus_congr hl, lastStatus_append, lastMatch_singleton, statusOf_statusEntry h,
    Option.getD_some]

theorem lookup_append_statusEntry {st : PageStatus} :
    lookup (S ++ pad g [statusEntry st]) a = lookup S a := by
  rw [lookup_append, lookup_pad]
  simp [lookup]

theorem length_pad (h : c.length ≤ g.entriesPerBlock) : (pad g c).length = g.entriesPerBlock := by
  rw [pad, List.length_append, List.length_replicate]
  omega

theorem image_append_pad : image (S ++ pad g c) = image (S ++ c) := by
  funext i
  rw [image, image, pad, ← List.append_assoc]
  congr 1
  rcases Nat.lt_or_ge (i / 4) (S ++ c).length with h | h
  · rw [List.getD_append _ _ _ _ h]
  · rw [List.getD_append_right _ _ _ _ h, List.getD_eq_default _ _ h]
    rw [List.getD_eq_getElem?_getD]
    cases hr : (List.replicate (g.entriesPerBlock - c.length) erasedEntry)[i / 4 - (S ++ c).length]? with
    | none => rfl
    | some e => exact (List.eq_of_mem_replicate (List.mem_of_getElem? hr))

theorem WellFormed.nil : WellFormed g [] where
  aligned := ⟨0, rfl⟩
  fits := Nat.zero_le _
  used := by simp
  known := by simp

theorem WellFormed.blocks (h : WellFormed g S) : Blocks g S := ⟨h.aligned, h.fits, h.used⟩

theorem Blocks.nil : Blocks g [] := WellFormed.nil.blocks

/-- A log that does not fill its page leaves a whole block. -/
theorem Blocks.room (h : Blocks g S) (hlt : S.length < g.pageEntries) :
    S.length + g.entriesPerBlock ≤ g.pageEntries := by
  obtain ⟨k, hk⟩ := h.aligned
  obtain ⟨m, hm⟩ := g.entriesPerBlock_dvd
  have hkm : k < m := by
    by_contra hge
    have := Nat.mul_le_mul_left g.entriesPerBlock (Nat.le_of_not_lt hge)
    omega
  have := Nat.mul_le_mul_left g.entriesPerBlock hkm
  rw [hk, hm, ← Nat.mul_succ]
  exact this

theorem Blocks.append (h : Blocks g S) (hfits : c.length ≤ g.entriesPerBlock)
    (hused : ∃ e ∈ c, e ≠ erasedEntry) (hlt : S.length < g.pageEntries) :
    Blocks g (S ++ pad g c) where
  aligned := by
    rw [List.length_append, length_pad hfits]
    exact Nat.dvd_add h.aligned (dvd_refl _)
  fits := by
    rw [List.length_append, length_pad hfits]
    exact h.room hlt
  used := by
    intro k hk
    rw [List.length_append, length_pad hfits] at hk
    rcases Nat.lt_or_ge (k * g.entriesPerBlock) S.length with hlo | hhi
    · obtain ⟨j, hj, hne⟩ := h.used k hlo
      refine ⟨j, hj, ?_⟩
      have hin : k * g.entriesPerBlock + j < S.length := by
        by_contra hge
        rw [List.getD_eq_default _ _ (Nat.le_of_not_lt hge)] at hne
        exact hne rfl
      rwa [List.getD_append _ _ _ _ hin]
    · -- the appended block itself
      obtain ⟨e, he, hne⟩ := hused
      obtain ⟨j, hj, rfl⟩ := List.getElem_of_mem he
      have hk : k * g.entriesPerBlock = S.length := by
        obtain ⟨m, hm⟩ := h.aligned
        have hpos := g.entriesPerBlock_pos
        have : k < m + 1 := by
          by_contra hge
          have := Nat.mul_le_mul_right g.entriesPerBlock (Nat.le_of_not_lt hge)
          rw [Nat.succ_mul, Nat.mul_comm m] at this
          omega
        have : m ≤ k := by
          by_contra hge
          have := Nat.mul_lt_mul_of_pos_right (Nat.lt_of_not_le hge) hpos
          rw [Nat.mul_comm m] at this
          omega
        have : k = m := by omega
        rw [this, hm, Nat.mul_comm]
      refine ⟨j, by omega, ?_⟩
      rw [hk, List.getD_append_right _ _ _ _ (by omega), Nat.add_sub_cancel_left, pad,
        List.getD_append _ _ _ _ hj]
      simpa [List.getD_eq_getElem?_getD, hj] using hne

theorem WellFormed.room (h : WellFormed g S) (hlt : S.length < g.pageEntries) :
    S.length + g.entriesPerBlock ≤ g.pageEntries := h.blocks.room hlt

theorem WellFormed.append (h : WellFormed g S) (hc : BlockOk g c)
    (hlt : S.length < g.pageEntries) : WellFormed g (S ++ pad g c) where
  aligned := (h.blocks.append hc.fits hc.used hlt).aligned
  fits := (h.blocks.append hc.fits hc.used hlt).fits
  used := (h.blocks.append hc.fits hc.used hlt).used
  known := by
    intro e he
    rcases List.mem_append.mp he with he | he
    · exact h.known e he
    · rcases List.mem_append.mp he with he | he
      · exact hc.known e he
      · exact Or.inl (by rw [List.eq_of_mem_replicate he]; rfl)

theorem statusBlockOk {st : PageStatus} (h : st ≠ .erased) : BlockOk g [statusEntry st] where
  fits := g.entriesPerBlock_pos
  used := ⟨_, List.mem_singleton_self _, statusEntry_ne_erasedEntry h⟩
  known := by
    intro e he
    rw [List.mem_singleton.mp he]
    exact Or.inl rfl

end Zlibs.EmuEeprom
