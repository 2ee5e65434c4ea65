import Zlibs.EmuEeprom.Cursor

/-! Every call leaves the cached offset where the logs end, unless `cache()` refuses what a
transfer or a restore has built. -/
namespace Zlibs.EmuEeprom

open Zlibs.Lib

variable {g : Geometry} {N N' : Logs} {s t : State} {S T c d : List Entry} {A p q : Page}
  {e : Entry} {x : PageStatus} {r : Ram} {statuses : Page → PageStatus}

theorem lastStatus_marked (hx : x ≠ .erased) : lastStatus (N.marked g p x p) = x := by
  rw [Logs.marked, Logs.set_self]
  exact lastStatus_append_statusEntry hx

theorem Logs.marked_ne (hq : q ≠ p) : N.marked g p x q = N q := Logs.set_ne hq

theorem Synced.marked (h : ∀ q, q ≠ .factory → q ≠ p → statuses q = .erased ∨
    statuses q = lastStatus (N q)) (hp : statuses p = x) (hx : x ≠ .erased) :
    Synced (N.marked g p x) statuses := by
  intro q hq
  by_cases hqp : q = p
  · rw [hqp, lastStatus_marked hx]
    exact .inr hp
  · rw [Logs.marked_ne hqp]
    exact h q hq hqp

/-- A page whose records are all of the store is mirrored to its end. -/
theorem Lays.cached (h : Lays g N s) (hsync : Synced N s.ram.pageStatusCache)
    (hp : findValidPage s.ram.pageStatusCache .read = some p)
    (hk : ∀ e ∈ N p, KnownAddress g e) :
    wp (cache g) (fun r t => r = true ∧ Consistent g N t ∧
      t.ram.pageStatusCache = s.ram.pageStatusCache) s := by
  have wf : WellFormed g (N p) :=
    ⟨(h.blocks p).aligned, (h.blocks p).fits, (h.blocks p).used, hk⟩
  apply wp_mono (cache_image wf (h.flash p) h.faults hp)
  rintro r t ⟨n, ⟨rfl, rfl⟩ | ⟨_, hfault, _⟩⟩
  · exact ⟨rfl, ⟨(h.withRam _).atCalls n, hsync, find_runtime hp, .idle rfl (.inr (.inr rfl))⟩, rfl⟩
  · exact absurd hfault not_readFault

theorem Filling.idle (h : Filling g N p [] s) : s.ram.writeBlockDirty = false := by
  rcases h.target with ⟨hd, _⟩ | ⟨hw, _⟩
  · exact hd
  · exact absurd rfl hw.ne_nil

theorem Filling.aimed (h : Filling g N p [] s) : Aimed N s.ram.nextWriteOffsetCache := by
  rcases h.next with hn | ⟨_, hn⟩
  · rw [hn]
    exact .inr (.inr rfl)
  · rw [hn]
    exact .inl rfl

theorem Filling.page (h : Filling g N p c s) : s.ram.nextWriteOffsetCache.page = p := by
  rcases h.next with hn | ⟨_, hn⟩ <;> rw [hn]

theorem Filling.consistent (h : Filling g N p c s) (hp : p ≠ .factory)
    (hx : s.ram.pageStatusCache p ≠ .erased) (hsync : Synced N s.ram.pageStatusCache) :
    Consistent g N s := by
  refine ⟨h.toLays, hsync, by rwa [h.page], ?_⟩
  rcases h.target with ⟨hd, rfl⟩ | ⟨hw, hc⟩
  · exact .idle hd h.aimed
  · exact .waiting hw hc h.silent hp hx (.inl (h.next.resolve_right fun hn => hw.ne_nil hn.1))

theorem Filling.flush (h : Filling g N p c s) :
    wp (flushWriteBlock g) (fun r t => r = true ∧ Kept s.ram t.ram ∧ ∃ N', Filling g N' p [] t ∧
      Grown g N p N' ∧ (N p).length + c.length ≤ (N' p).length ∧
      (N' p).length < (N p).length + c.length + g.entriesPerBlock) s := by
  have hpos := g.entriesPerBlock_pos
  rcases h.target with ⟨hd, rfl⟩ | ⟨hw, hc⟩
  · rw [wp, Lays.flushIdle hd]
    refine ⟨rfl, .refl _, N, h, .refl N p, ?_, ?_⟩ <;> rw [List.length_nil] <;> omega
  · have hn := h.next.resolve_right fun hn => hw.ne_nil hn.1
    apply wp_mono (h.toLays.flush hw)
    rintro r t ⟨rfl, hram, hl⟩
    have hlen : (N.set p (N p ++ pad g c) p).length = (N p).length + g.entriesPerBlock := by
      rw [Logs.set_self, List.length_append, length_pad hw.fits]
    have hnext : t.ram.nextWriteOffsetCache =
        ⟨p, 4 * ((N.set p (N p ++ pad g c) p).length + ([] : List Entry).length)⟩ := by
      rw [hram, hw.flushed_next hc hn, Logs.set_self]
      rfl
    have hfill : Filling g (N.set p (N p ++ pad g c)) p [] t :=
      ⟨hl, .inl ⟨hram ▸ flushed_idle _, rfl⟩, .inl hnext,
        List.forall_mem_nil _, List.forall_mem_nil _⟩
    have hcpos := List.length_pos_of_ne_nil hw.ne_nil
    exact ⟨rfl, hram ▸ kept_flushed _, _, hfill, grown_pad h.silent h.known, by omega, by omega⟩

theorem Grown.known (h : Grown g N p N') (hk : ∀ e ∈ N p, KnownAddress g e) :
    ∀ e ∈ N' p, KnownAddress g e := by
  obtain ⟨T, hT, _, hk'⟩ := h.log
  intro e he
  rw [hT] at he
  exact (List.mem_append.mp he).elim (hk e) (hk' e)

theorem known_marked (hk : ∀ e ∈ N p, KnownAddress g e) :
    ∀ e ∈ N.marked g p x p, KnownAddress g e := by
  intro e he
  rw [Logs.marked, Logs.set_self] at he
  rcases List.mem_append.mp he with he | he
  · exact hk e he
  rcases List.mem_append.mp he with he | he
  · rw [List.mem_singleton.mp he]
    exact .inl rfl
  · rw [List.eq_of_mem_replicate he]
    exact .inl rfl

/-- The old page is retired and the new one published: it takes no status record when it is full,
and is mirrored otherwise. -/
theorem Filling.publish (hA : A ≠ .factory) (h : Filling g N A.other [] s) (hL : N A = [])
    (hr : s.ram.pageStatusCache A.other = .receiving) (hm : lastStatus (N A.other) = .receiving)
    (hknown : (N A.other).length + g.entriesPerBlock ≤ g.pageEntries →
      ∀ e ∈ N A.other, KnownAddress g e) :
    wp (publish g A A.other) (fun _ t => ∃ N', Consistent g N' t) s := by
  have hne := Page.other_ne hA
  have hroom : (N A).length < g.pageEntries := by
    rw [hL]
    exact pageEntries_pos
  rw [EmuEeprom.publish]
  apply wp_bind_of (h.toLays.mark h.idle (x := .formatted) (by decide) A)
  rintro r t (⟨rfl, _, hl, hd, hk, hn⟩ | ⟨_, hfull, _⟩)
  swap
  · omega
  simp only [Bool.not_true, Bool.false_eq_true, if_false]
  have hnext : t.ram.nextWriteOffsetCache = s.ram.nextWriteOffsetCache := by
    rw [hn, nextAfterStatus, if_neg (by rw [h.page]; exact hne)]
  have hlog : N.marked g A .formatted A.other = N A.other := Logs.marked_ne hne
  have hold : t.ram.pageStatusCache A = .formatted := by
    rw [hk.statuses]
    exact if_pos rfl
  have hnew : t.ram.pageStatusCache A.other = .receiving := by
    rw [hk.statuses]
    exact (if_neg hne).trans hr
  have hsync : Synced (N.marked g A .formatted) t.ram.pageStatusCache := by
    refine .marked (fun q hq hqA => ?_) hold (by decide)
    obtain rfl := (Page.runtime_cases hA hq).resolve_left hqA
    exact .inr (hnew.trans hm.symm)
  have hpage : t.ram.nextWriteOffsetCache.page = A.other := by rw [hnext, h.page]
  have haim : Aimed (N.marked g A .formatted) t.ram.nextWriteOffsetCache := by
    rw [hnext]
    exact h.aimed.congr (by rw [h.page, hlog])
  apply wp_bind_of (hl.mark hd (x := .valid) (by decide) A.other)
  rintro r u (⟨rfl, hlt, hl', hd', hk', hn'⟩ | ⟨rfl, _, n, rfl⟩)
  · simp only [Bool.not_true, Bool.false_eq_true, if_false]
    rw [hlog] at hlt
    have hnew' : u.ram.pageStatusCache A.other = .valid := by
      rw [hk'.statuses]
      exact if_pos rfl
    have hold' : u.ram.pageStatusCache A = .formatted := by
      rw [hk'.statuses]
      exact (if_neg hne.symm).trans hold
    have hsync' : Synced ((N.marked g A .formatted).marked g A.other .valid)
        u.ram.pageStatusCache := by
      refine .marked (fun q hq hqA => ?_) hnew' (by decide)
      obtain rfl := (Page.runtime_cases hA hq).resolve_right hqA
      rw [lastStatus_marked (x := .formatted) (by decide)]
      exact .inr hold'
    have hread : findValidPage u.ram.pageStatusCache .read = some A.other :=
      findValidPage_published hA (by rw [hold']; decide) hnew'
    have hk'' := known_marked (g := g) (x := .valid) (N := N.marked g A .formatted) (p := A.other)
      (by rw [hlog]; exact hknown ((h.blocks A.other).room hlt))
    apply wp_bind_of (hl'.cached hsync' hread hk'')
    rintro r v ⟨rfl, hv, _⟩
    exact ⟨_, hv.withMirror _ false⟩
  · exact ⟨_, (Consistent.atCalls ⟨hl, hsync, by rw [hpage]; exact Page.other_runtime,
      .idle hd haim⟩ n)⟩

theorem Filling.finish (hA : A ≠ .factory) (h : Filling g N A.other c s)
    (hr : s.ram.pageStatusCache A.other = .receiving) (hm : lastStatus (N A.other) = .receiving)
    (hknown : ∀ m, g.entriesPerBlock ∣ m → (N A.other).length + c.length ≤ m →
      m < (N A.other).length + c.length + g.entriesPerBlock →
      m + g.entriesPerBlock ≤ g.pageEntries → ∀ e ∈ N A.other, KnownAddress g e) :
    wp (finishTransfer g A A.other) (fun _ t => ∃ N', Consistent g N' t) s := by
  have hne := Page.other_ne hA
  rw [finishTransfer]
  apply wp_bind_of h.flush
  rintro r t ⟨rfl, hk, N', hfill, hgrown, hle, hlt⟩
  simp only [Bool.not_true, Bool.false_eq_true, if_false]
  apply wp_bind_of (hfill.toLays.erase A)
  rintro r u ⟨rfl, hram, hl⟩
  simp only [Bool.not_true, Bool.false_eq_true, if_false]
  have hlog : N'.set A [] A.other = N' A.other := Logs.set_ne hne
  have hfill' : Filling g (N'.set A []) A.other [] u := by
    refine ⟨hl, .inl ⟨by rw [hram]; exact hfill.idle, rfl⟩, ?_,
      List.forall_mem_nil _, List.forall_mem_nil _⟩
    rw [hram, hlog]
    exact hfill.next
  apply hfill'.publish hA Logs.set_self
  · rw [hram, hk.statuses, hr]
  · rw [hlog, hgrown.lastStatus, hm]
  · rw [hlog]
    exact fun hroom => hgrown.known
      (hknown _ (hfill.blocks A.other).aligned hle hlt hroom)

/-- `page_transfer` once the new page has its receiving record. -/
theorem Lays.transferInto (h : Lays g (N.marked g A.other .receiving) s) (hA : A ≠ .factory)
    (hd : s.ram.writeBlockDirty = false) (hold : s.ram.pageStatusCache A = .valid)
    (hnew : s.ram.pageStatusCache A.other = .receiving) (hm : lastStatus (N A) = .valid)
    (haligned : g.entriesPerBlock ∣ (N A.other).length)
    (hknown : (N A.other).length + 2 * g.entriesPerBlock + g.roundUp (dumped g s.ram).length ≤
      g.pageEntries → ∀ e ∈ N A.other, KnownAddress g e) :
    wp (do
      modifyRam (·.setNextWriteOffset A.other 0)
      let status ← transferEntries g (List.range g.maxAddress)
      if status ≠ .ok then
        return status
      finishTransfer g A A.other) (fun _ t => ∃ N', Consistent g N' t) s := by
  have hsync : Synced (N.marked g A.other .receiving) s.ram.pageStatusCache := by
    refine .marked (fun q hq hqA => ?_) hnew nofun
    obtain rfl := (Page.runtime_cases hA hq).resolve_right hqA
    exact .inr (hold.trans hm.symm)
  have hfill : Filling g (N.marked g A.other .receiving) A.other []
      ⟨s.ram.setNextWriteOffset A.other 0, s.hwa⟩ :=
    ⟨h.withRam _, .inl ⟨hd, rfl⟩, .inr ⟨rfl, rfl⟩, nofun, nofun⟩
  rw [wp_bind, wp_modifyRam]
  apply wp_bind_of (hfill.transferEntries (l := List.range g.maxAddress)
    (findValidPage_receiving hA hold hnew) fun a ha => List.mem_range.mp ha)
  rintro status v ⟨hkv, N₂, c, hfill', hgrown, hend⟩
  have hnew' : v.ram.pageStatusCache A.other = .receiving := by
    rw [hkv.statuses]
    exact hnew
  have hsync' : Synced N₂ v.ram.pageStatusCache := by
    rw [hkv.statuses]
    exact hsync.congr hgrown.lastStatus
  apply wp_ite
  · intro _
    exact ⟨N₂, hfill'.consistent Page.other_runtime (by rw [hnew']; nofun) hsync'⟩
  · intro hok
    obtain ⟨_, hlen⟩ := hend.resolve_right fun hr => hok (by rw [hr]; nofun)
    apply hfill'.finish hA hnew'
    · rw [hgrown.lastStatus]
      exact lastStatus_marked nofun
    · -- what was on the page, the receiving record, the dump and the valid record
      intro m hdvd hle hlt hroom
      have hstart : (N.marked g A.other .receiving A.other).length =
          (N A.other).length + g.entriesPerBlock := by
        rw [Logs.marked, Logs.set_self, List.length_append, length_pad_status]
      have hlen' : (N₂ A.other).length + c.length =
          (N A.other).length + g.entriesPerBlock + (dumped g s.ram).length := by
        rw [hlen, hstart]
        rfl
      have hround : m - ((N A.other).length + g.entriesPerBlock) =
          g.roundUp (dumped g s.ram).length := by
        apply roundUp_eq
        · exact Nat.dvd_sub hdvd (Nat.dvd_add haligned (dvd_refl _))
        · omega
        · omega
      exact hgrown.known (known_marked (hknown (by omega)))

/-- `cache()` at the end of `page_transfer` finds only addresses of the store. -/
def Rebuilds (g : Geometry) (s : State) : Prop :=
  ∀ A S, findValidPage s.ram.pageStatusCache .read = some A →
    (flushWriteBlock g s).2.hwa.flash A.other = image S → Blocks g S →
    S.length + 2 * g.entriesPerBlock + g.roundUp (dumped g s.ram).length ≤ g.pageEntries →
    ∀ e ∈ S, KnownAddress g e

theorem Consistent.pageTransfer (h : Consistent g N s) (hbuild : Rebuilds g s) :
    wp (pageTransfer g) (fun _ t => ∃ N', Consistent g N' t) s := by
  rw [pageTransfer_eq]
  have hflush : wp (flushWriteBlock g) (fun r t => r = true ∧ t = (flushWriteBlock g s).2 ∧
      t.ram.writeBlockDirty = false ∧ Kept s.ram t.ram ∧ ∃ N', Consistent g N' t) s := by
    obtain ⟨hr, hd, hk, hN⟩ := h.flush
    exact ⟨hr, rfl, hd, hk, hN⟩
  apply wp_bind_of hflush
  rintro r t ⟨rfl, ht, hd, hk, N₁, h₁⟩
  simp only [Bool.not_true, Bool.false_eq_true, if_false]
  rw [wp_bind, wp_get]
  cases hread : findValidPage t.ram.pageStatusCache .read with
  | none => exact ⟨N₁, h₁⟩
  | some A =>
    obtain ⟨hA, hv⟩ := findValidPage_read hread
    simp only [if_neg hA]
    apply wp_bind_of (h₁.toLays.mark hd (x := .receiving) nofun A.other)
    rintro r u (⟨rfl, _, hl, hd', hk', _⟩ | ⟨rfl, _, n, rfl⟩)
    · simp only [Bool.not_true, Bool.false_eq_true, if_false]
      apply hl.transferInto hA hd'
      · rw [hk'.statuses]
        exact (if_neg (Page.other_ne hA).symm).trans hv
      · rw [hk'.statuses]
        exact if_pos rfl
      · exact (h₁.synced.eq hA (by rw [hv]; nofun)).symm.trans hv
      · exact (h₁.blocks A.other).aligned
      · have hcache : u.ram.cache = s.ram.cache := hk'.cache.trans hk.cache
        rw [dumped, hcache]
        exact hbuild A (N₁ A.other) (by rw [← hk.statuses]; exact hread)
          (by rw [← ht]; exact h₁.flash A.other) (h₁.blocks A.other)
    · exact ⟨N₁, h₁.atCalls n⟩

end Zlibs.EmuEeprom
