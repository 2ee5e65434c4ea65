import Zlibs.EmuEeprom.Boot

/-! The public operations of a working store over a backend that never fails. -/
namespace Zlibs.EmuEeprom

open Zlibs.Lib

variable {g : Geometry} {K : Logs → Prop} {L : Logs} {s t : State} {S T b c : List Entry}
  {A p q : Page} {e : Entry} {a : Nat}

/-- The entries a transfer of the mirror copies. -/
def dumped (g : Geometry) (r : Ram) : List Entry := copied r.cache (List.range g.maxAddress)

/-- Slots in use after a transfer of the mirror. -/
def entriesAfterTransfer (g : Geometry) (r : Ram) : Nat :=
  3 * g.entriesPerBlock + g.roundUp (dumped g r).length

theorem entriesAfterTransfer_le (r : Ram) : entriesAfterTransfer g r ≤ g.pageEntries := by
  have := room_after_transfer (g := g) r.cache
  rw [entriesAfterTransfer, dumped]
  omega

theorem Transferred.length_valid {r : Ram} (h : Transferred g (receivingLog g) (dumped g r) T) :
    (T ++ pad g [statusEntry .valid]).length = entriesAfterTransfer g r := by
  rw [List.length_append, h.length, length_pad_status, length_receivingLog, entriesAfterTransfer]
  omega

/-- What a write may leave on the flash while it runs. -/
structure WriteSafe (K : Logs → Prop) (g : Geometry) (L : Logs) (A : Page) (b : List Entry)
    (e : Entry) (r : Ram) : Prop where
  flushed : K (L.flushed g (stage A b))
  appended : ∀ T, live T = live (L A ++ b) ++ [e] → K (L.set A T)
  transfer : TransferSafe K g (L.flushed g (stage A b)) A (dumped g r)
  again : ∀ T, Transferred g (receivingLog g) (dumped g r) T →
    ∀ T', live T' = live (T ++ pad g [statusEntry .valid]) ++ [e] →
      K ((Logs.transferred g L A T).set A.other T')

/-- The ways a write of an address the instance has ends. -/
inductive WriteEnd (g : Geometry) (K : Logs → Prop) (L : Logs) (A : Page) (b : List Entry)
    (e : Entry) (s : State) : Bool → WriteStatus → State → Prop
  | cached : WriteEnd g K L A b e s true .ok
      { s with ram := { s.ram.setCache e.address.toNat e.value with cacheDirty := true } }
  | appended {t : State} {L' : Logs} {b' : List Entry}
      (hroom : (L A).length + b.length < g.pageEntries) (hw : Working g K L' A b' t)
      (hcontent : live (L' A ++ b') = live (L A ++ b) ++ [e])
      (hothers : ∀ q, q ≠ A → L' q = L q)
      (hkept : Kept (s.ram.setCache e.address.toNat e.value) t.ram) :
      WriteEnd g K L A b e s false .ok t
  | transferred {t : State} {L' : Logs} {b' T : List Entry}
      (hfull : (L A).length + b.length = g.pageEntries)
      (hT : Transferred g (receivingLog g) (dumped g s.ram) T)
      (hroom : entriesAfterTransfer g s.ram < g.pageEntries)
      (hw : Working g K L' A.other b' t)
      (hcontent : live (L' A.other ++ b') = live (T ++ pad g [statusEntry .valid]) ++ [e])
      (hfactory : L' .factory = L .factory) {r : Ram}
      (hr : r.cache = mirror (T ++ pad g [statusEntry .valid])) (hd : r.cacheDirty = false)
      (hf : r.pageStatusCache .factory = s.ram.pageStatusCache .factory)
      (hkept : Kept (r.setCache e.address.toNat e.value) t.ram) :
      WriteEnd g K L A b e s false .ok t
  | full {t : State} {T : List Entry} (hfull : (L A).length + b.length = g.pageEntries)
      (hT : Transferred g (receivingLog g) (dumped g s.ram) T)
      (hroom : entriesAfterTransfer g s.ram = g.pageEntries)
      (hw : Working g K (Logs.transferred g L A T) A.other [] t)
      (hc : t.ram.cache = mirror (T ++ pad g [statusEntry .valid])) (hd : t.ram.cacheDirty = false)
      (hf : t.ram.pageStatusCache .factory = s.ram.pageStatusCache .factory) :
      WriteEnd g K L A b e s false .pageFull t

theorem Working.write (h : Working g K L A b s) (he : e.address ≠ reservedStatusAddress)
    (ha : e.address.toNat < g.maxAddress) (hK : WriteSafe K g L A b e s.ram) (cacheOnly : Bool) :
    wp (write g e cacheOnly) (WriteEnd g K L A b e s cacheOnly) s := by
  have hbad : ¬ (e.address = reservedStatusAddress ∨ e.address.toNat ≥ g.maxAddress) := by
    rintro (hb | hb)
    · exact he hb
    · omega
  rw [EmuEeprom.write, if_neg hbad]
  cases cacheOnly with
  | true =>
    rw [writeInternal, if_neg hbad]
    exact .cached
  | false =>
    rcases Nat.lt_or_ge ((L A).length + b.length) g.pageEntries with hroom | hfull
    · apply wp_bind_of (h.append he ha hroom hK.flushed hK.appended)
      rintro r t ⟨rfl, hkept, L', b', hw, hcontent, _, hothers⟩
      exact .appended hroom hw hcontent hothers hkept
    · have hfull' := Nat.le_antisymm h.position_le hfull
      apply wp_bind_of (h.full he ha hfull hK.flushed hK.appended)
      rintro r t ⟨rfl, hkept, hw⟩
      have hvals : dumped g s.ram = copied t.ram.cache (List.range g.maxAddress) := by
        rw [hkept.cache]
        rfl
      apply wp_bind_of (hw.pageTransfer hvals hK.transfer)
      rintro r u ⟨rfl, T, hT, hwu, hc, hd, hf⟩
      have hlog := Logs.transferred_other (g := g) (L := L) (T := T) h.runtime
      have hlen := hT.length_valid
      have hflushed : (Logs.transferred g L A T).flushed g (stage A.other []) =
          Logs.transferred g L A T := rfl
      have hagain : ∀ T', live T' = live (Logs.transferred g L A T A.other ++ []) ++ [e] →
          K ((Logs.transferred g L A T).set A.other T') := by
        intro T' hT'
        rw [List.append_nil, hlog] at hT'
        exact hK.again T hT T' hT'
      have hf' : u.ram.pageStatusCache .factory = s.ram.pageStatusCache .factory :=
        hf.trans (by rw [hkept.statuses])
      rcases Nat.lt_or_ge (entriesAfterTransfer g s.ram) g.pageEntries with hlt | hge
      · apply wp_mono (hwu.append he ha (by rw [hlog, hlen, List.length_nil]; omega)
          (hflushed ▸ hwu.sees.good) hagain)
        rintro r v ⟨rfl, hkept', L', b', hwv, hcontent, _, hothers⟩
        rw [List.append_nil, hlog] at hcontent
        refine .transferred hfull' hT hlt hwv hcontent ?_ hc hd hf' hkept'
        rw [hothers _ Page.other_runtime.symm, Logs.transferred_factory h.runtime]
      · have heq := Nat.le_antisymm (entriesAfterTransfer_le (g := g) s.ram) hge
        apply wp_mono (hwu.full he ha (by rw [hlog, hlen, List.length_nil]; omega)
          (hflushed ▸ hwu.sees.good) hagain)
        rintro r v ⟨rfl, hkept', hwv⟩
        exact .full hfull' hT heq hwv (hkept'.cache.trans hc) (hkept'.dirty.trans hd)
          (by rw [hkept'.statuses, hf'])

/-- An address the instance does not have is refused before anything is done. -/
theorem write_refused (h : e.address = reservedStatusAddress ∨
    e.address.toNat ≥ g.maxAddress) (cacheOnly : Bool) :
    write g e cacheOnly s = (.writeError, s) := by
  rw [EmuEeprom.write, if_pos h]
  rfl

inductive FlushEnd (g : Geometry) (K : Logs → Prop) (L : Logs) (A : Page) (b : List Entry)
    (s : State) : State → Prop
  | programmed {t : State} (hclean : s.ram.cacheDirty = false) (hkept : Kept s.ram t.ram)
      (hw : Working g K (L.flushed g (stage A b)) A [] t) : FlushEnd g K L A b s t
  | transferred {t : State} {T : List Entry} (hdirty : s.ram.cacheDirty = true)
      (hT : Transferred g (receivingLog g) (dumped g s.ram) T)
      (hw : Working g K (Logs.transferred g L A T) A.other [] t)
      (hc : t.ram.cache = mirror (T ++ pad g [statusEntry .valid])) (hd : t.ram.cacheDirty = false)
      (hf : t.ram.pageStatusCache .factory = s.ram.pageStatusCache .factory) :
      FlushEnd g K L A b s t

theorem Working.flush (h : Working g K L A b s) (hK : K (L.flushed g (stage A b)))
    (hT : s.ram.cacheDirty = true →
      TransferSafe K g (L.flushed g (stage A b)) A (dumped g s.ram)) :
    wp (flush g) (fun r t => r = true ∧ FlushEnd g K L A b s t) s := by
  rw [EmuEeprom.flush, wp_bind, wp_get]
  apply wp_ite
  · intro hd
    apply wp_bind_of (h.pageTransfer rfl (hT hd))
    rintro r t ⟨rfl, T, hT', hw, hc, hd', hf⟩
    apply wp_mono (hw.flushWriteBlock hw.sees.good)
    rintro r u ⟨rfl, hkept, hwu⟩
    exact ⟨rfl, .transferred hd hT' hwu (hkept.cache.trans hc) (hkept.dirty.trans hd')
      (by rw [hkept.statuses, hf])⟩
  · intro hd
    apply wp_mono (h.flushWriteBlock hK)
    rintro r t ⟨rfl, hkept, hw⟩
    exact ⟨rfl, .programmed (by simpa using hd) hkept hw⟩

end Zlibs.EmuEeprom
