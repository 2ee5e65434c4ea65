import Zlibs.EmuEeprom.Append

/-! Page statuses are appended to the page they describe; a transfer moves the mirror to the other
page. -/
namespace Zlibs.EmuEeprom

open Zlibs.Lib

variable {g : Geometry} {f : Faults} {K : Logs → Prop} {L : Logs}
  {st : Option (Page × List Entry)} {s t : State} {S T b c : List Entry} {p q : Page} {e : Entry}
  {x : PageStatus}

/-- The logs once a status record is programmed behind the staged block. -/
def Logs.marked (g : Geometry) (L : Logs) (q : Page) (x : PageStatus) : Logs :=
  L.set q (L q ++ pad g [statusEntry x])

@[simp] theorem length_pad_status : (pad g [statusEntry x]).length = g.entriesPerBlock :=
  length_pad g.entriesPerBlock_pos

/-- A status record moves the offset cached for its page. -/
def nextAfterStatus (g : Geometry) (next : NextWriteOffsetCache) (L : Logs) (q : Page) :
    NextWriteOffsetCache :=
  if next.page = q then ⟨q, 4 * ((L q).length + g.entriesPerBlock)⟩ else next

/-- How `write_page_status` can fail. -/
inductive NotMarked (g : Geometry) (f : Faults) (K : Logs → Prop) (L : Logs)
    (st : Option (Page × List Entry)) (q : Page) (x : PageStatus) (r : Ram) (t : State) : Prop
  | unflushed (hram : t.ram = r) (hsees : Sees g f K L st t)
      (hfault : ∃ p c, st = some (p, c) ∧ BlockFault g f c)
  | noRoom (hram : t.ram = r.flushed g) (hsees : Sees g f K (L.flushed g st) none t)
      (hfull : (L.flushed g st q).length = g.pageEntries ∨ ReadFault f)
  | refused (hkept : Kept r t.ram)
      (hnext : t.ram.nextWriteOffsetCache = (r.flushed g).nextWriteOffsetCache)
      (hentries : t.ram.writeBlockEntries = 1)
      (hsees : Sees g f K (L.flushed g st) (some (q, [statusEntry x])) t)
      (hfault : BlockFault g f [statusEntry x])

/-- The offset cached behind a status record: the next block, or the end of the page. -/
theorem status_offset {n : Nat} (haligned : g.entriesPerBlock ∣ n)
    (hroom : n + g.entriesPerBlock ≤ g.pageEntries) :
    min (4 * n / g.writeBlockSize * g.writeBlockSize + g.writeBlockSize) g.pageSize =
      4 * (n + g.entriesPerBlock) := by
  have := block_offset haligned g.entriesPerBlock_pos
  rw [Nat.add_zero] at this
  rw [this, g.writeBlockSize_eq, g.pageSize_eq]
  omega

/-- `write_page_status` once its record is programmed. -/
theorem statusWritten_spec {u : Ram} (h : Sees g f K (L.marked g q x) none s) (hk : Kept u s.ram)
    (hroom : (L q).length + g.entriesPerBlock ≤ g.pageEntries)
    (haligned : g.entriesPerBlock ∣ (L q).length) {next : NextWriteOffsetCache}
    (hpage : s.ram.nextWriteOffsetCache.page = next.page)
    (hnext : next.page ≠ q → s.ram.nextWriteOffsetCache = next) :
    wp (do
      if (← get).ram.nextWriteOffsetCache.page = q then
        modifyRam (·.setNextWriteOffset q
          (min (4 * (L q).length / g.writeBlockSize * g.writeBlockSize + g.writeBlockSize)
            g.pageSize))
      modifyRam (·.setPageStatus q x)
      return true : M Bool) (fun r t => r = true ∧ Kept (u.setPageStatus q x) t.ram ∧
        t.ram.nextWriteOffsetCache = nextAfterStatus g next L q ∧
        Sees g f K (L.marked g q x) none t) s := by
  have hstatuses : (fun p => if p = q then x else s.ram.pageStatusCache p) =
      fun p => if p = q then x else u.pageStatusCache p := by rw [hk.statuses]
  rw [status_offset haligned hroom, wp_bind, wp_get]
  apply wp_ite
  · intro hq
    rw [hpage] at hq
    rw [wp_bind, wp_modifyRam, wp_bind, wp_modifyRam]
    refine ⟨rfl, ⟨hk.cache, hstatuses, hk.dirty⟩, ?_, h.withRam h.staged⟩
    rw [nextAfterStatus, if_pos hq]
    rfl
  · intro hq
    rw [hpage] at hq
    rw [wp_bind, wp_modifyRam]
    refine ⟨rfl, ⟨hk.cache, hstatuses, hk.dirty⟩, ?_, h.withRam h.staged⟩
    rw [nextAfterStatus, if_neg hq]
    exact hnext hq

/-- `write_page_status` from its record on: the first free block of the page takes it. -/
theorem statusRecord_spec (h : Sees g f K L none s) (hx : x ≠ .erased)
    (hlt : (L q).length < g.pageEntries) (hK : K (L.marked g q x)) :
    wp (do
      if (← writeEntry g q (4 * (L q).length)
          (makeEntry reservedStatusAddress (serializePageStatus x))) ≠ .ok then
        return false
      if !(← flushWriteBlock g) then
        return false
      if (← get).ram.nextWriteOffsetCache.page = q then
        modifyRam (·.setNextWriteOffset q
          (min (4 * (L q).length / g.writeBlockSize * g.writeBlockSize + g.writeBlockSize)
            g.pageSize))
      modifyRam (·.setPageStatus q x)
      return true : M Bool) (fun r t =>
      (r = true ∧ Kept (s.ram.setPageStatus q x) t.ram ∧
        t.ram.nextWriteOffsetCache = nextAfterStatus g s.ram.nextWriteOffsetCache L q ∧
        Sees g f K (L.marked g q x) none t) ∨
      (r = false ∧ Kept s.ram t.ram ∧
        t.ram.nextWriteOffsetCache = s.ram.nextWriteOffsetCache ∧ t.ram.writeBlockEntries = 1 ∧
        Sees g f K L (some (q, [statusEntry x])) t ∧ BlockFault g f [statusEntry x])) s := by
  have hidle : s.ram.writeBlockDirty = false := h.staged
  have hblock : BlockOk g ([] ++ [statusEntry x]) := statusBlockOk hx
  have hwrite := writeEntry_stay h (Or.inl ⟨rfl, rfl⟩) g.entriesPerBlock_pos hlt
    (stageAndFlush_spec h (Or.inl ⟨rfl, rfl⟩) place_nil (Nat.zero_le _) hblock hlt hK rfl)
  generalize hu : s.ram.staging q (4 * (L q).length) (4 * ([] : List Entry).length)
    (statusEntry x) = u at hwrite
  have hkept : Kept s.ram u := hu ▸ kept_staging ..
  have hnext : u.nextWriteOffsetCache = s.ram.nextWriteOffsetCache := by
    rw [← hu, staging_next]
  have hentries : u.writeBlockEntries = 1 := by rw [← hu, staging_entries_idle hidle]
  have hpage : u.writeBlockPage = q := by
    rw [← hu, Ram.staging, if_neg (by simp [hidle])]
    rfl
  have hdone : ∀ v : State, v.ram = u.flushed g →
      Kept s.ram v.ram ∧ v.ram.nextWriteOffsetCache.page = s.ram.nextWriteOffsetCache.page ∧
        (s.ram.nextWriteOffsetCache.page ≠ q →
          v.ram.nextWriteOffsetCache = s.ram.nextWriteOffsetCache) := by
    intro v hram
    rw [hram]
    refine ⟨hkept.trans (kept_flushed u), ?_, ?_⟩
    · rw [flushed_next_page, hnext]
    · intro hq
      rw [flushed_next (Or.inl (by rwa [hnext, hpage])), hnext]
  rw [Nat.add_zero] at hwrite
  apply wp_bind_of hwrite
  rintro r t (⟨rfl, _, hram, hsees⟩ | ⟨rfl, _, hram, hsees⟩ | ⟨rfl, _, hram, hsees, hfault⟩)
  · apply wp_bind_of (flushWriteBlock_spec hsees hK)
    rintro r v (⟨rfl, hram', hsees'⟩ | ⟨rfl, hram', hsees', q', c', hst, hfault⟩)
    · rw [hram] at hram'
      obtain ⟨hk, hpage, hn⟩ := hdone v hram'
      apply wp_mono (statusWritten_spec hsees' hk ((h.wf q).room hlt) (h.wf q).aligned hpage hn)
      rintro r t ⟨rfl, hk, hn, hs⟩
      exact Or.inl ⟨rfl, hk, hn, hs⟩
    · cases hst
      rw [hram] at hram'
      exact Or.inr ⟨rfl, hram' ▸ hkept, hram' ▸ hnext, hram' ▸ hentries, hsees', hfault⟩
  · apply wp_bind_of (flushWriteBlock_spec hsees hK)
    rintro r v (⟨rfl, hram', hsees'⟩ | ⟨rfl, hram', hsees', q', c', hst, hfault⟩)
    · rw [flushed_clean hsees.staged, hram] at hram'
      obtain ⟨hk, hpage, hn⟩ := hdone v hram'
      apply wp_mono (statusWritten_spec hsees' hk ((h.wf q).room hlt) (h.wf q).aligned hpage hn)
      rintro r t ⟨rfl, hk, hn, hs⟩
      exact Or.inl ⟨rfl, hk, hn, hs⟩
    · cases hst
  · exact Or.inr ⟨rfl, hram ▸ hkept, hram ▸ hnext, hram ▸ hentries, hsees, hfault⟩

theorem writePageStatus_spec (h : Sees g f K L st s) (hx : x ≠ .erased)
    (hK : K (L.flushed g st)) (hK' : K ((L.flushed g st).marked g q x)) :
    wp (writePageStatus g q x) (fun r t =>
      (r = true ∧ Kept (s.ram.setPageStatus q x) t.ram ∧
        t.ram.nextWriteOffsetCache =
          nextAfterStatus g (s.ram.flushed g).nextWriteOffsetCache (L.flushed g st) q ∧
        (L.flushed g st q).length < g.pageEntries ∧
        Sees g f K ((L.flushed g st).marked g q x) none t) ∨
      (r = false ∧ NotMarked g f K L st q x s.ram t)) s := by
  rw [writePageStatus]
  apply wp_bind_of (flushWriteBlock_spec h hK)
  rintro r t (⟨rfl, hram, hsees⟩ | ⟨rfl, hram, hsees, hfault⟩)
  · simp only [Bool.not_true, Bool.false_eq_true, if_false]
    apply wp_bind_of (findNextFreeOffset_spec hsees q)
    rintro r u ⟨⟨k, rfl⟩, hr⟩
    have hfits := (hsees.wf q).fits
    by_cases hlt : (L.flushed g st q).length < g.pageEntries
    · rcases hr with rfl | ⟨rfl, hfault⟩
      · rw [freeOffset, if_pos hlt]
        have hkept : Kept s.ram t.ram := hram ▸ kept_flushed s.ram
        apply wp_mono (statusRecord_spec (hsees.atCalls k) hx hlt hK')
        rintro r v (⟨rfl, hkept', hnext, hsees'⟩ | ⟨rfl, hkept', hnext, hentries, hsees', hfault⟩)
        · left
          refine ⟨rfl, ?_, ?_, hlt, hsees'⟩
          · exact ⟨hkept'.cache.trans hkept.cache, hkept'.statuses.trans (by
              rw [State.atCalls_ram, Ram.setPageStatus, Ram.setPageStatus, hkept.statuses]),
              hkept'.dirty.trans hkept.dirty⟩
          · rw [hnext, State.atCalls_ram, hram]
        · refine Or.inr ⟨rfl, .refused (hkept.trans hkept') ?_ hentries hsees' hfault⟩
          rw [hnext, State.atCalls_ram, hram]
      · exact Or.inr ⟨rfl, .noRoom hram (hsees.atCalls k) (Or.inr hfault)⟩
    · have hnone : r = none := by
        rcases hr with rfl | ⟨rfl, _⟩
        · rw [freeOffset, if_neg hlt]
        · rfl
      subst hnone
      exact Or.inr ⟨rfl, .noRoom hram (hsees.atCalls k) (Or.inl (by omega))⟩
  · exact Or.inr ⟨rfl, .unflushed hram hsees hfault⟩

/-- The entries a transfer writes: the values in the mirror, in the order of their addresses. -/
def copied (mirror : Nat → UInt16) (addresses : List Nat) : List Entry :=
  (addresses.filter fun a => decide (mirror a ≠ erasedValue)).map fun a =>
    makeEntry (UInt16.ofNat a) (mirror a)

theorem Logs.set_congr {L' : Logs} (h : ∀ q, q ≠ p → L' q = L q) : L'.set p T = L.set p T := by
  funext q
  by_cases hq : q = p
  · subst hq
    rw [Logs.set_self, Logs.set_self]
  · rw [Logs.set_ne hq, Logs.set_ne hq, h q hq]

theorem OwnStage.flushed_set (h : OwnStage st p b) : (L.flushed g st).set p T = L.set p T := by
  apply Logs.set_congr
  intro q hq
  exact Logs.flushed_of_own (h.imp And.left fun hs => ⟨b, hs⟩) hq

theorem OwnStage.flushed_eq (h : OwnStage st p b) :
    L.flushed g st = L.set p (L.flushed g st p) := by
  rw [← h.flushed_set (g := g), Logs.set_eq_self rfl]

theorem OwnStage.live_flushed (h : OwnStage st p b) :
    live (L.flushed g st p) = live (L p ++ b) := by
  rcases h with ⟨rfl, rfl⟩ | rfl
  · rw [Logs.flushed_none, List.append_nil]
  · rw [Logs.flushed_self, live_append, live_pad, live_append]

/-- A page on which a transfer has put some of its entries. -/
def Copying (L : Logs) (p : Page) (b vals T : List Entry) : Prop :=
  ∃ m, m <+: vals ∧ live T = live (L p ++ b) ++ m

/-- Where the copying of `vals` to page `p` stopped: the entries `m` are on it or staged. -/
def Stopped (g : Geometry) (f : Faults) (K : Logs → Prop) (L : Logs) (p : Page)
    (b m : List Entry) (t : State) : Prop :=
  ∃ L' st' b', Sees g f K L' st' t ∧ Tail g t.ram L' st' p b' ∧
    live (L' p ++ b') = live (L p ++ b) ++ m ∧
    (∀ q, q ≠ p → L' q = L q) ∧ (∀ q c, st' = some (q, c) → q = p)

theorem copied_cons_of_erased {m : Nat → UInt16} {a : Nat} {l : List Nat}
    (h : m a = erasedValue) : copied m (a :: l) = copied m l := by
  rw [copied, List.filter_cons_of_neg (by simp [h])]
  rfl

theorem copied_cons {m : Nat → UInt16} {a : Nat} {l : List Nat} (h : m a ≠ erasedValue) :
    copied m (a :: l) = makeEntry (UInt16.ofNat a) (m a) :: copied m l := by
  rw [copied, List.filter_cons_of_pos (by simp [h])]
  rfl

theorem Appended.cons {L' L'' : Logs} {st' st'' : Option (Page × List Entry)}
    {b' b'' m n : List Entry} (h : Appended g f K L st p b m L' st' b' s) (hown : OwnStage st' p b')
    (h' : Appended g f K L' st' p b' n L'' st'' b'' t) :
    Appended g f K L st p b (m ++ n) L'' st'' b'' t where
  sees := h'.sees
  content := by rw [h'.content, h.content, List.append_assoc]
  length := by rw [h'.length, h.length, List.length_append, Nat.add_assoc _ m.length]
  others := fun q hq => (h'.others q hq).trans
    ((Logs.flushed_of_own (hown.imp And.left fun hs => ⟨b', hs⟩) hq).trans (h.others q hq))

theorem Stopped.cons {L' : Logs} {st' : Option (Page × List Entry)} {b' m n : List Entry}
    (h : Stopped g f K L' p b' n t) (ha : Appended g f K L st p b m L' st' b' s)
    (hothers : ∀ q, q ≠ p → L' q = L q) : Stopped g f K L p b (m ++ n) t := by
  obtain ⟨L'', st'', b'', hsees, htail, hcontent, ho, hst⟩ := h
  refine ⟨L'', st'', b'', hsees, htail, ?_, fun q hq => (ho q hq).trans (hothers q hq), hst⟩
  rw [hcontent, ha.content, List.append_assoc]

theorem Declined.stopped {t : State} (h : Declined g f K L st p b e s t)
    (hown : OwnStage st p b) : Stopped g f K L p b [] t := by
  obtain ⟨_, L', st', b', hsees, htail, hcontent, _, hstaged⟩ := h
  have hflushed : ∀ q, q ≠ p → L.flushed g st q = L q := fun q hq =>
    Logs.flushed_of_own (hown.imp And.left fun hs => ⟨b, hs⟩) hq
  refine ⟨L', st', b', hsees, htail, by rw [hcontent, List.append_nil], ?_, ?_⟩
  · intro q hq
    rcases hstaged with ⟨_, rfl, _⟩ | ⟨_, hothers, _⟩
    · rfl
    · rw [hothers q hq, hflushed q hq]
  · intro q c hqc
    rcases hstaged with ⟨rfl, _⟩ | ⟨rfl, _⟩
    · rcases hown with ⟨rfl, _⟩ | rfl
      · cases hqc
      · cases hqc
        rfl
    · cases hqc
      rfl

theorem address_ofNat {a : Nat} (ha : a < g.maxAddress) :
    (UInt16.ofNat a).toNat = a ∧ UInt16.ofNat a ≠ reservedStatusAddress := by
  have hmax := g.maxAddress_le
  have hto : (UInt16.ofNat a).toNat = a := UInt16.toNat_ofNat_of_lt' (by
    show a < 65536
    omega)
  refine ⟨hto, fun hr => ?_⟩
  rw [hr] at hto
  have : reservedStatusAddress.toNat = 0xFFFF := rfl
  omega

theorem setCache_self (r : Ram) (a : Nat) : r.setCache a (r.cache a) = r := by
  have : (fun x => if x = a then r.cache a else r.cache x) = r.cache := by
    funext x
    by_cases hx : x = a
    · rw [if_pos hx, hx]
    · rw [if_neg hx]
  rw [Ram.setCache, this]

theorem transferEntries_spec {l : List Nat} (h : Sees g f K L st s)
    (hp : findValidPage s.ram.pageStatusCache .write = some p) (ht : Tail g s.ram L st p b)
    (hown : OwnStage st p b) (hl : ∀ a ∈ l, a < g.maxAddress) {m : Nat → UInt16}
    (hm : s.ram.cache = m) (hK : ∀ T, Copying L p b (copied m l) T → K (L.set p T)) :
    wp (transferEntries g l) (fun r t => Kept s.ram t.ram ∧
      ((r = .ok ∧ ∃ L' st' b', Appended g f K L st p b (copied m l) L' st' b' t ∧
          OwnStage st' p b' ∧ Tail g t.ram L' st' p b') ∨
        (r ≠ .ok ∧ ∃ n, n <+: copied m l ∧ n ≠ copied m l ∧ Stopped g f K L p b n t ∧
          Refusal g f ((L p).length + b.length + n.length) r))) s := by
  induction l generalizing s L st b with
  | nil =>
    refine ⟨Kept.refl _, Or.inl ⟨rfl, L, st, b, ⟨h, ?_, ?_, ?_⟩, hown, ht⟩⟩
    · simp [copied]
    · simp [copied]
    · exact fun q hq => (Logs.flushed_of_own (hown.imp And.left fun hs => ⟨b, hs⟩) hq).symm
  | cons a l ih =>
    rw [transferEntries, wp_bind, wp_get, hm]
    apply wp_ite
    · intro he
      rw [copied_cons_of_erased he] at hK ⊢
      exact ih h hp ht hown (fun x hx => hl x (List.mem_cons_of_mem _ hx)) hm hK
    · intro he
      rw [copied_cons he] at hK ⊢
      have ha := hl a List.mem_cons_self
      obtain ⟨hto, hne⟩ := address_ofNat ha
      have hself : s.ram.setCache a (m a) = s.ram := by rw [← hm, setCache_self]
      apply wp_bind_of (writeInternal_spec h hp ht (e := makeEntry (UInt16.ofNat a) (m a)) hne
        (hto.symm ▸ ha) ?_ ?_)
      · rintro r t (⟨rfl, hkept, L', st', b', happ, hown', htail⟩ | ⟨hr, hdec, hrefusal⟩)
        · have hkept : Kept s.ram t.ram := by
            have hset : s.ram.setCache (makeEntry (UInt16.ofNat a) (m a)).address.toNat
                (makeEntry (UInt16.ofNat a) (m a)).value = s.ram := by
              show s.ram.setCache (UInt16.ofNat a).toNat (m a) = s.ram
              rw [hto, hself]
            rwa [hset] at hkept
          have hothers : ∀ q, q ≠ p → L' q = L q := fun q hq =>
            (happ.others q hq).trans (Logs.flushed_of_own (hown.imp And.left fun hs => ⟨b, hs⟩) hq)
          have hrest := ih happ.sees (hkept.statuses ▸ hp) htail hown'
            (fun x hx => hl x (List.mem_cons_of_mem _ hx)) (hkept.cache.trans hm) (by
              rintro T ⟨k, hk, hT⟩
              rw [Logs.set_congr hothers]
              refine hK T ⟨_ :: k, List.prefix_cons_inj _ |>.mpr hk, ?_⟩
              rw [hT, happ.content, List.append_assoc, List.singleton_append])
          apply wp_mono hrest
          rintro r u ⟨hkept', ⟨rfl, L'', st'', b'', happ', hown'', htail'⟩ |
            ⟨hr, n, hn, hne, hstop, hrefusal⟩⟩
          · exact ⟨hkept.trans hkept', Or.inl ⟨rfl, L'', st'', b'', happ.cons hown' happ', hown'',
              htail'⟩⟩
          · refine ⟨hkept.trans hkept', Or.inr ⟨hr, _ :: n, List.prefix_cons_inj _ |>.mpr hn, ?_,
              hstop.cons happ hothers, ?_⟩⟩
            · exact fun he => hne (List.cons.inj he).2
            · rw [happ.length] at hrefusal
              rwa [List.length_cons, Nat.add_comm n.length, ← Nat.add_assoc]
        · apply wp_ite
          · intro _
            exact ⟨hdec.1, Or.inr ⟨hr, [], List.nil_prefix, by simp, hdec.stopped hown, hrefusal⟩⟩
          · intro hok
            exact absurd hr hok
      · rw [hown.flushed_eq]
        exact hK _ ⟨[], List.nil_prefix, by rw [hown.live_flushed, List.append_nil]⟩
      · intro T hT
        rw [hown.flushed_set]
        exact hK T ⟨_, List.prefix_append [makeEntry (UInt16.ofNat a) (m a)] _, hT⟩

/-- `n` entries in whole blocks. -/
def Geometry.roundUp (g : Geometry) (n : Nat) : Nat :=
  (n + g.entriesPerBlock - 1) / g.entriesPerBlock * g.entriesPerBlock

theorem roundUp_eq {m n : Nat} (hm : g.entriesPerBlock ∣ m) (hle : n ≤ m)
    (hlt : m < n + g.entriesPerBlock) : m = g.roundUp n := by
  have hpos := g.entriesPerBlock_pos
  obtain ⟨k, rfl⟩ := hm
  have hdiv : (n + g.entriesPerBlock - 1) / g.entriesPerBlock = k := by
    apply Nat.div_eq_of_lt_le
    · rw [Nat.mul_comm]
      omega
    · rw [Nat.add_mul, Nat.mul_comm k]
      omega
  rw [Geometry.roundUp, hdiv, Nat.mul_comm]

/-- The copy of `vals` behind the log `S`. -/
structure Transferred (g : Geometry) (S vals T : List Entry) : Prop where
  content : live T = live S ++ vals
  length : T.length = S.length + g.roundUp vals.length

theorem OwnStage.transferred {L' : Logs} {st' : Option (Page × List Entry)} {b' vals : List Entry}
    (ha : Appended g f K L none p [] vals L' st' b' t) (hown : OwnStage st' p b')
    (hwf : WellFormed g (L p)) (hwf' : WellFormed g (L'.flushed g st' p)) :
    Transferred g (L p) vals (L'.flushed g st' p) := by
  have hlen := ha.length
  rw [List.length_nil, Nat.add_zero] at hlen
  refine ⟨by rw [hown.live_flushed, ha.content, List.append_nil], ?_⟩
  have hdvd : g.entriesPerBlock ∣ (L'.flushed g st' p).length - (L p).length :=
    Nat.dvd_sub hwf'.aligned hwf.aligned
  have hpos := g.entriesPerBlock_pos
  rcases hown with ⟨rfl, rfl⟩ | rfl
  · rw [Logs.flushed_none] at hdvd ⊢
    rw [List.length_nil, Nat.add_zero] at hlen
    rw [← roundUp_eq hdvd (by omega) (by omega)]
    omega
  · obtain ⟨_, _, _, _, _, hok⟩ := ha.sees.staged
    have hfits := hok.fits
    obtain ⟨x, hx, _⟩ := hok.used
    have hne := List.length_pos_of_mem hx
    rw [Logs.flushed_self, List.length_append, length_pad hfits] at hdvd ⊢
    rw [← roundUp_eq hdvd (by omega) (by omega)]
    omega

/-- `page_transfer` from the erase of the old page on. -/
def publish (g : Geometry) (oldPage newPage : Page) : M WriteStatus := do
  if !(← writePageStatus g oldPage .formatted) then
    return .writeError
  if !(← writePageStatus g newPage .valid) then
    return .writeError
  if !(← cache g) then
    return .writeError
  modifyRam fun ram => { ram with cacheDirty := false }
  return .ok

/-- `page_transfer` once its entries are written. -/
def finishTransfer (g : Geometry) (oldPage newPage : Page) : M WriteStatus := do
  if !(← flushWriteBlock g) then
    return .writeError
  if !(← hwaErasePage oldPage) then
    return .writeError
  publish g oldPage newPage

theorem pageTransfer_eq : pageTransfer g = (do
    if !(← flushWriteBlock g) then
      return .writeError
    match findValidPage (← get).ram.pageStatusCache .read with
    | none => return .noPage
    | some oldPage =>
      if oldPage = .factory then
        return .noPage
      if !(← writePageStatus g oldPage.other .receiving) then
        return .writeError
      modifyRam (·.setNextWriteOffset oldPage.other 0)
      let status ← transferEntries g (List.range g.maxAddress)
      if status ≠ .ok then
        return status
      finishTransfer g oldPage oldPage.other) := rfl

theorem Page.other_ne {A : Page} (h : A ≠ .factory) : A.other ≠ A := by
  cases A with
  | page1 => exact fun h => by cases h
  | page2 => exact fun h => by cases h
  | factory => exact absurd rfl h

theorem findValidPage_published {statuses : Page → PageStatus} {A : Page} (hA : A ≠ .factory)
    (ho : statuses A ≠ .valid) (hn : statuses A.other = .valid) :
    findValidPage statuses .read = some A.other := by
  cases A with
  | page1 =>
    have hn : statuses .page2 = .valid := hn
    rw [findValidPage, if_neg ho, if_pos hn, Page.other]
  | page2 =>
    have hn : statuses .page1 = .valid := hn
    rw [findValidPage, if_pos hn, Page.other]
  | factory => exact absurd rfl hA

/-- The end of a page does not depend on the other pages. -/
theorem Tail.move {r u : Ram} {L' : Logs} (h : Tail g r L none p b)
    (hn : u.nextWriteOffsetCache = r.nextWriteOffsetCache) (hL : L' p = L p)
    (hst : ∀ c, st ≠ some (p, c)) : Tail g u L' st p b := by
  cases h with
  | unknown _ h => exact Tail.unknown hst (hn ▸ h)
  | clean n _ h hlt => exact Tail.clean n hst (by rw [hn, h, hL]) hlt
  | filling b hb => cases hb
  | refused b r hb => cases hb

theorem publish_spec {A : Page} (hA : A ≠ .factory) (h : Sees g f K L none s) (hL : L A = [])
    (ht : Tail g s.ram L none A.other [])
    (hF : K (L.set A (pad g [statusEntry .formatted])))
    (hV : K ((L.set A.other (L A.other ++ pad g [statusEntry .valid])).set A
      (pad g [statusEntry .formatted]))) :
    wp (publish g A A.other) (fun r t =>
      (r = .writeError ∧ Kept s.ram t.ram ∧ ∃ st', Sees g f K L st' t ∧
        Tail g t.ram L st' A.other [] ∧ (st' = none ∧ ReadFault f ∨
          st' = some (A, [statusEntry .formatted]) ∧ BlockFault g f [statusEntry .formatted])) ∨
      (r = .writeError ∧ Kept (s.ram.setPageStatus A .formatted) t.ram ∧ ∃ st',
        Sees g f K (L.set A (pad g [statusEntry .formatted])) st' t ∧
          (st' = none ∧ ((L A.other).length = g.pageEntries ∨ ReadFault f) ∨
            st' = some (A.other, [statusEntry .valid]) ∧ BlockFault g f [statusEntry .valid])) ∨
      (t.ram.pageStatusCache =
          ((s.ram.setPageStatus A .formatted).setPageStatus A.other .valid).pageStatusCache ∧
        Sees g f K ((L.set A.other (L A.other ++ pad g [statusEntry .valid])).set A
          (pad g [statusEntry .formatted])) none t ∧ t.ram.cacheDirty = false ∧
        ((r = .writeError ∧ ReadFault f ∧ ∃ k, t.ram.cache =
            mirror ((L A.other ++ pad g [statusEntry .valid]).take k) ∧
            (k = 0 ∧ t.ram.nextWriteOffsetCache = ⟨.page1, 0⟩ ∨ LateReadFault g f)) ∨
          (r = .ok ∧ t.ram.cache = mirror (L A.other ++ pad g [statusEntry .valid]) ∧
            t.ram.nextWriteOffsetCache =
              ⟨A.other, 4 * (L A.other ++ pad g [statusEntry .valid]).length⟩)))) s := by
  have hne := Page.other_ne hA
  have hidle : s.ram.flushed g = s.ram := flushed_clean h.staged
  have hF' : Logs.marked g L A .formatted = L.set A (pad g [statusEntry .formatted]) := by
    rw [Logs.marked, hL, List.nil_append]
  rw [publish]
  apply wp_bind_of (writePageStatus_spec h (q := A) (x := .formatted) nofun h.good (hF' ▸ hF))
  rintro r t (⟨rfl, hkept, hnext, _, hsees⟩ | ⟨rfl, hnot⟩)
  · rw [Logs.flushed_none, hF'] at hsees
    have hB : Logs.marked g (L.set A (pad g [statusEntry .formatted])) A.other .valid =
        (L.set A.other (L A.other ++ pad g [statusEntry .valid])).set A
          (pad g [statusEntry .formatted]) := by
      rw [Logs.marked, Logs.set_ne hne, Logs.set_comm hne.symm]
    apply wp_bind_of (writePageStatus_spec hsees (q := A.other) (x := .valid) nofun hsees.good
      (by rw [Logs.flushed_none, hB]; exact hV))
    rintro r u (⟨rfl, hkept', hnext', _, hsees'⟩ | ⟨rfl, hnot⟩)
    · rw [Logs.flushed_none, hB] at hsees'
      have hstatuses : u.ram.pageStatusCache =
          ((s.ram.setPageStatus A .formatted).setPageStatus A.other .valid).pageStatusCache := by
        rw [hkept'.statuses, Ram.setPageStatus, hkept.statuses]
        rfl
      have hvalid : findValidPage u.ram.pageStatusCache .read = some A.other := by
        apply findValidPage_published hA
        · rw [hstatuses]
          simp [Ram.setPageStatus, hne.symm]
        · rw [hstatuses]
          simp [Ram.setPageStatus]
      have hlog : (L.set A.other (L A.other ++ pad g [statusEntry .valid])).set A
          (pad g [statusEntry .formatted]) A.other = L A.other ++ pad g [statusEntry .valid] := by
        rw [Logs.set_ne hne, Logs.set_self]
      apply wp_bind_of (cache_spec hsees' hvalid)
      rw [hlog]
      rintro r v ⟨c, ⟨rfl, rfl⟩ | ⟨rfl, hfault, k, hk, rfl⟩⟩
      · refine Or.inr (Or.inr ⟨hstatuses, (hsees'.clear rfl).atCalls c, rfl,
          Or.inr ⟨rfl, ?_, rfl⟩⟩)
        show mirror (List.take _ _) = _
        rw [List.take_length]
      · have hto := cachedTo_cached u.ram A.other (L A.other ++ pad g [statusEntry .valid]) k
        refine Or.inr (Or.inr ⟨hto.statuses.trans hstatuses, (hsees'.clear hto.idle).atCalls c,
          hto.clean, Or.inl ⟨rfl, hfault, k, hto.cache, ?_⟩⟩)
        exact hk.imp_left fun hk => ⟨hk, hto.next hk⟩
    · cases hnot with
      | unflushed _ _ hfault =>
        obtain ⟨p, c, hpc, _⟩ := hfault
        cases hpc
      | noRoom hram hsees' hfull =>
        rw [flushed_clean hsees.staged] at hram
        rw [Logs.flushed_none, Logs.set_ne hne] at hfull
        exact Or.inr (Or.inl ⟨rfl, hram ▸ hkept, none, hsees', Or.inl ⟨rfl, hfull⟩⟩)
      | refused hkept' _ _ hsees' hfault =>
        exact Or.inr (Or.inl ⟨rfl, hkept.trans hkept', _, hsees', Or.inr ⟨rfl, hfault⟩⟩)
  · cases hnot with
    | unflushed _ _ hfault =>
      obtain ⟨p, c, hpc, _⟩ := hfault
      cases hpc
    | noRoom hram hsees' hfull =>
      rw [hidle] at hram
      refine Or.inl ⟨rfl, hram ▸ Kept.refl _, none, hsees', hram ▸ ht, Or.inl ⟨rfl, ?_⟩⟩
      rcases hfull with hfull | hfault
      · have := pageEntries_pos (g := g)
        rw [Logs.flushed_none, hL, List.length_nil] at hfull
        omega
      · exact hfault
    | refused hkept' hnext _ hsees' hfault =>
      refine Or.inl ⟨rfl, hkept', _, hsees', ht.move (hnext.trans (by rw [hidle])) rfl ?_,
        Or.inr ⟨rfl, hfault⟩⟩
      exact fun c hc => hne (Prod.mk.inj (Option.some.inj hc)).1.symm

/-- What the flash may hold while the page `A` is transferred: the events of a transfer, as the
property `K` sees them. -/
structure TransferSafe (K : Logs → Prop) (g : Geometry) (L : Logs) (A : Page)
    (vals : List Entry) : Prop where
  start : K L
  copying : ∀ T, Copying (L.marked g A.other .receiving) A.other [] vals T → K (L.set A.other T)
  erased : ∀ T, Transferred g (L.marked g A.other .receiving A.other) vals T →
    K ((L.set A.other T).set A [])
  formatted : ∀ T, Transferred g (L.marked g A.other .receiving A.other) vals T →
    K ((L.set A.other T).set A (pad g [statusEntry .formatted]))
  valid : ∀ T, Transferred g (L.marked g A.other .receiving A.other) vals T →
    K ((L.set A.other (T ++ pad g [statusEntry .valid])).set A
      (pad g [statusEntry .formatted]))

/-- The ways `page_transfer` from the valid page `A` ends, in the order of its steps. -/
inductive TransferEnd (g : Geometry) (f : Faults) (K : Logs → Prop) (L : Logs)
    (st : Option (Page × List Entry)) (A : Page) (vals : List Entry) (s : State) :
    WriteStatus → State → Prop
  | unflushed {t : State} (hram : t.ram = s.ram) (hsees : Sees g f K L st t)
      (hfault : ∃ p c, st = some (p, c) ∧ BlockFault g f c) :
      TransferEnd g f K L st A vals s .writeError t
  | unmarked {t : State} (hram : t.ram = s.ram.flushed g)
      (hsees : Sees g f K (L.flushed g st) none t)
      (hfull : (L.flushed g st A.other).length = g.pageEntries ∨ ReadFault f) :
      TransferEnd g f K L st A vals s .writeError t
  | receivingRefused {t : State} (hkept : Kept s.ram t.ram)
      (hnext : t.ram.nextWriteOffsetCache = (s.ram.flushed g).nextWriteOffsetCache)
      (hsees : Sees g f K (L.flushed g st) (some (A.other, [statusEntry .receiving])) t)
      (hfault : BlockFault g f [statusEntry .receiving]) :
      TransferEnd g f K L st A vals s .writeError t
  | stopped {r : WriteStatus} {t : State} {n : List Entry} (hr : r ≠ .ok)
      (hkept : Kept (s.ram.setPageStatus A.other .receiving) t.ram) (hn : n <+: vals)
      (hstop : Stopped g f K ((L.flushed g st).marked g A.other .receiving) A.other [] n t)
      (hcause : r = .pageFull ∧ n ≠ vals ∧
          g.pageEntries ≤ (L.flushed g st A.other).length + g.entriesPerBlock + n.length ∨
        r = .writeError ∧ (ReadFault f ∨ EraseFault f ∨ ∃ c, BlockFault g f c)) :
      TransferEnd g f K L st A vals s r t
  | formattedRefused {t : State} {T : List Entry} {st' : Option (Page × List Entry)}
      (hkept : Kept (s.ram.setPageStatus A.other .receiving) t.ram)
      (hT : Transferred g ((L.flushed g st).marked g A.other .receiving A.other) vals T)
      (hsees : Sees g f K (((L.flushed g st).set A.other T).set A []) st' t)
      (hst : st' = none ∧ ReadFault f ∨ st' = some (A, [statusEntry .formatted]) ∧
        BlockFault g f [statusEntry .formatted])
      (htail : Tail g t.ram (((L.flushed g st).set A.other T).set A []) st' A.other []) :
      TransferEnd g f K L st A vals s .writeError t
  | validRefused {t : State} {T : List Entry} {st' : Option (Page × List Entry)}
      (hkept : Kept ((s.ram.setPageStatus A.other .receiving).setPageStatus A .formatted) t.ram)
      (hT : Transferred g ((L.flushed g st).marked g A.other .receiving A.other) vals T)
      (hsees : Sees g f K (((L.flushed g st).set A.other T).set A
        (pad g [statusEntry .formatted])) st' t)
      (hst : st' = none ∧ (T.length = g.pageEntries ∨ ReadFault f) ∨
        st' = some (A.other, [statusEntry .valid]) ∧ BlockFault g f [statusEntry .valid]) :
      TransferEnd g f K L st A vals s .writeError t
  | unmirrored {t : State} {T : List Entry} {k : Nat}
      (hstatuses : t.ram.pageStatusCache = (((s.ram.setPageStatus A.other .receiving).setPageStatus
        A .formatted).setPageStatus A.other .valid).pageStatusCache)
      (hT : Transferred g ((L.flushed g st).marked g A.other .receiving A.other) vals T)
      (hsees : Sees g f K (((L.flushed g st).set A.other (T ++ pad g [statusEntry .valid])).set A
        (pad g [statusEntry .formatted])) none t)
      (hcache : t.ram.cache = mirror ((T ++ pad g [statusEntry .valid]).take k))
      (hdirty : t.ram.cacheDirty = false)
      (hk : k = 0 ∧ t.ram.nextWriteOffsetCache = ⟨.page1, 0⟩ ∨ LateReadFault g f)
      (hfault : ReadFault f) :
      TransferEnd g f K L st A vals s .writeError t
  | done {t : State} {T : List Entry}
      (hstatuses : t.ram.pageStatusCache = (((s.ram.setPageStatus A.other .receiving).setPageStatus
        A .formatted).setPageStatus A.other .valid).pageStatusCache)
      (hT : Transferred g ((L.flushed g st).marked g A.other .receiving A.other) vals T)
      (hsees : Sees g f K (((L.flushed g st).set A.other (T ++ pad g [statusEntry .valid])).set A
        (pad g [statusEntry .formatted])) none t)
      (hcache : t.ram.cache = mirror (T ++ pad g [statusEntry .valid]))
      (hdirty : t.ram.cacheDirty = false)
      (hnext : t.ram.nextWriteOffsetCache =
        ⟨A.other, 4 * (T ++ pad g [statusEntry .valid]).length⟩) :
      TransferEnd g f K L st A vals s .ok t

theorem findValidPage_read {statuses : Page → PageStatus} {A : Page}
    (h : findValidPage statuses .read = some A) : A ≠ .factory ∧ statuses A = .valid := by
  rw [findValidPage] at h
  split_ifs at h with h1 h2
  · cases h
    exact ⟨nofun, h1⟩
  · cases h
    exact ⟨nofun, h2⟩

/-- While the other page receives, it is the page to write. -/
theorem findValidPage_receiving {statuses : Page → PageStatus} {A : Page} (hA : A ≠ .factory)
    (hv : statuses A = .valid) (hr : statuses A.other = .receiving) :
    findValidPage statuses .write = some A.other := by
  cases A with
  | page1 =>
    have hr : statuses .page2 = .receiving := hr
    rw [findValidPage, if_neg (by simp [hr]), if_pos hv, if_pos hr, Page.other]
  | page2 =>
    have hr : statuses .page1 = .receiving := hr
    rw [findValidPage, if_pos hv, if_pos hr, Page.other]
  | factory => exact absurd rfl hA

theorem OwnStage.tail_flushed (h : Sees g f K L st s) (hown : OwnStage st p b)
    (ht : Tail g s.ram L st p b) : Tail g (s.ram.flushed g) (L.flushed g st) none p [] := by
  rcases hown with ⟨rfl, rfl⟩ | rfl
  · exact ht.flushed_other h fun c hc => by cases hc
  · apply ht.flushed_own h
    obtain ⟨_, _, _, _, _, hok⟩ := h.staged
    obtain ⟨x, hx, _⟩ := hok.used
    have hpos := List.length_pos_of_mem hx
    cases ht with
    | unknown hst => exact absurd rfl (hst _)
    | clean n hst => exact absurd rfl (hst _)
    | filling b hst _ hn =>
      rw [hn]
      dsimp only
      omega
    | refused b r hst =>
      have := congrArg List.length (Prod.mk.inj (Option.some.inj hst)).2
      simp at this

/-- A transfer once its entries are accepted by the new page. -/
theorem finishTransfer_spec {A : Page} {vals : List Entry} {L₀ : Logs} {u : State}
    (hA : A ≠ .factory) (hr : Kept (u.ram.setPageStatus A.other .receiving) s.ram)
    (hown : OwnStage st A.other b) (ht : Tail g s.ram L st A.other b)
    (ha : Appended g f K (Logs.marked g L₀ A.other .receiving) none A.other [] vals L st b s)
    (hwf : WellFormed g (Logs.marked g L₀ A.other .receiving A.other))
    (hK : TransferSafe K g L₀ A vals) {L₁ : Logs} {w : Option (Page × List Entry)}
    (hL₀ : L₀ = L₁.flushed g w) :
    wp (finishTransfer g A A.other) (TransferEnd g f K L₁ w A vals u) s := by
  have hne := Page.other_ne hA
  have hsees := ha.sees
  have hothers : L.flushed g st = L₀.set A.other (L.flushed g st A.other) := by
    rw [hown.flushed_eq]
    rw [Logs.set_self]
    apply Logs.set_congr
    intro q hq
    rw [ha.others q hq, Logs.flushed_none, Logs.marked, Logs.set_ne hq]
  have hcopying : K (L.flushed g st) := by
    rw [hothers]
    refine hK.copying _ ⟨vals, List.prefix_refl _, ?_⟩
    rw [hown.live_flushed, ha.content]
  have hstop : ∀ {L' : Logs} {st' : Option (Page × List Entry)} {b' : List Entry} {t : State},
      Sees g f K L' st' t → Tail g t.ram L' st' A.other b' →
      live (L' A.other ++ b') = live (L A.other ++ b) → (∀ q, q ≠ A.other → L' q = L q) →
      OwnStage st' A.other b' → Kept s.ram t.ram →
      (EraseFault f ∨ ∃ c, BlockFault g f c) →
      TransferEnd g f K L₁ w A vals u .writeError t := by
    intro L' st' b' t hs htail hcontent ho hown' hkept hcause
    refine .stopped nofun (hr.trans hkept) (List.prefix_refl _) ⟨L', st', b', hs, htail, ?_, ?_, ?_⟩
      (Or.inr ⟨rfl, Or.inr hcause⟩)
    · rw [hcontent, ha.content, ← hL₀]
    · intro q hq
      rw [ho q hq, ha.others q hq, ← hL₀]
      rfl
    · intro q c hqc
      rcases hown' with ⟨rfl, _⟩ | rfl
      · cases hqc
      · exact (Prod.mk.inj (Option.some.inj hqc)).1.symm
  rw [finishTransfer]
  apply wp_bind_of (flushWriteBlock_spec hsees hcopying)
  rintro r t (⟨rfl, hram, hflushed⟩ | ⟨rfl, hram, hfail, p, c, _, hfault⟩)
  · have hwf' : WellFormed g (L.flushed g st A.other) := hflushed.wf A.other
    have hT := hown.transferred ha hwf hwf'
    have htail : Tail g t.ram (L.flushed g st) none A.other [] :=
      hram ▸ hown.tail_flushed hsees ht
    have hkept : Kept s.ram t.ram := hram ▸ kept_flushed s.ram
    rw [hothers] at hflushed
    generalize hTdef : L.flushed g st A.other = T at *
    rw [hothers] at htail
    have herased := hK.erased T hT
    apply wp_bind_of (hwaErasePage_spec hflushed hflushed.staged herased)
    rintro r v ⟨hram', ⟨rfl, hsees'⟩ | ⟨rfl, hfault, hsees'⟩⟩
    · have hA0 : (L₀.set A.other T).set A [] A = [] := Logs.set_self
      have hB0 : (L₀.set A.other T).set A [] A.other = T := by
        rw [Logs.set_ne hne, Logs.set_self]
      have hF : ((L₀.set A.other T).set A []).set A (pad g [statusEntry .formatted]) =
          (L₀.set A.other T).set A (pad g [statusEntry .formatted]) := Logs.set_set
      have hV : (((L₀.set A.other T).set A []).set A.other (T ++ pad g [statusEntry .valid])).set A
          (pad g [statusEntry .formatted]) =
          (L₀.set A.other (T ++ pad g [statusEntry .valid])).set A
            (pad g [statusEntry .formatted]) := by
        rw [Logs.set_comm (p := A) hne.symm, Logs.set_set, Logs.set_set]
      have htail' : Tail g v.ram ((L₀.set A.other T).set A []) none A.other [] :=
        htail.move (hram' ▸ rfl) (hB0.trans (Logs.set_self).symm) (fun c hc => by cases hc)
      have hkept' : Kept (u.ram.setPageStatus A.other .receiving) v.ram :=
        hram' ▸ hr.trans hkept
      have hpublish := publish_spec hA hsees' hA0 htail' (hF ▸ hK.formatted T hT)
        (by rw [hB0, hV]; exact hK.valid T hT)
      rw [hB0, hF, hV] at hpublish
      apply wp_mono hpublish
      subst hL₀
      rintro r x (⟨rfl, hk, st', hs, htl, hst'⟩ | ⟨rfl, hk, st', hs, hst'⟩ |
        ⟨hstat, hs, hd, ⟨rfl, hfault, k, hc, hn⟩ | ⟨rfl, hc, hn⟩⟩)
      · exact .formattedRefused (hkept'.trans hk) hT hs hst' htl
      · refine .validRefused ⟨hk.cache.trans hkept'.cache, ?_, hk.dirty.trans hkept'.dirty⟩ hT hs
          hst'
        rw [hk.statuses, Ram.setPageStatus, hkept'.statuses]
        rfl
      · refine .unmirrored (hstat.trans ?_) hT hs hc hd hn hfault
        simp only [Ram.setPageStatus, hkept'.statuses]
      · refine .done (hstat.trans ?_) hT hs hc hd hn
        simp only [Ram.setPageStatus, hkept'.statuses]
    · refine hstop hsees' (hram' ▸ htail) ?_ ?_ (Or.inl ⟨rfl, rfl⟩) (hram' ▸ hkept) (Or.inl hfault)
      · rw [Logs.set_self, List.append_nil, ← hTdef, hown.live_flushed]
      · intro q hq
        rw [Logs.set_ne hq, ha.others q hq, Logs.flushed_none, Logs.marked, Logs.set_ne hq]
  · exact hstop hfail (hram ▸ ht) rfl (fun _ _ => rfl) hown (hram ▸ Kept.refl _)
      (Or.inr ⟨c, hfault⟩)

theorem pageTransfer_spec {A : Page} (h : Sees g f K L st s)
    (hp : findValidPage s.ram.pageStatusCache .read = some A) {vals : List Entry}
    (hvals : vals = copied s.ram.cache (List.range g.maxAddress))
    (hK : TransferSafe K g (L.flushed g st) A vals) :
    wp (pageTransfer g) (TransferEnd g f K L st A vals s) s := by
  obtain ⟨hA, hvalid⟩ := findValidPage_read hp
  have hne := Page.other_ne hA
  have hmarked : Logs.marked g (L.flushed g st) A.other .receiving =
      (L.flushed g st).set A.other (Logs.marked g (L.flushed g st) A.other .receiving A.other) := by
    rw [Logs.marked, Logs.set_self]
  rw [pageTransfer_eq]
  apply wp_bind_of (flushWriteBlock_spec h hK.start)
  rintro r t (⟨rfl, hram, hsees⟩ | ⟨rfl, hram, hsees, hfault⟩)
  · have hkept : Kept s.ram t.ram := hram ▸ kept_flushed s.ram
    simp only [Bool.not_true, Bool.false_eq_true, if_false]
    rw [wp_bind, wp_get, hkept.statuses]
    simp only [hp, if_neg hA]
    have hR : K (Logs.marked g (L.flushed g st) A.other .receiving) := by
      rw [hmarked]
      exact hK.copying _ ⟨[], List.nil_prefix, by rw [List.append_nil, List.append_nil]⟩
    apply wp_bind_of (writePageStatus_spec hsees (q := A.other) (x := .receiving) nofun
      hsees.good hR)
    rintro r u (⟨rfl, hkept', _, _, hsees'⟩ | ⟨rfl, hnot⟩)
    · rw [Logs.flushed_none] at hsees'
      simp only [Bool.not_true, Bool.false_eq_true, if_false]
      rw [wp_bind, wp_modifyRam]
      have hrecv : Kept (s.ram.setPageStatus A.other .receiving)
          (u.ram.setNextWriteOffset A.other 0) :=
        ⟨hkept'.cache.trans hkept.cache, hkept'.statuses.trans (by
          rw [Ram.setPageStatus, Ram.setPageStatus, hkept.statuses]),
          hkept'.dirty.trans hkept.dirty⟩
      have hwrite : findValidPage (u.ram.setNextWriteOffset A.other 0).pageStatusCache .write =
          some A.other := by
        rw [hrecv.statuses]
        apply findValidPage_receiving hA
        · simp [Ram.setPageStatus, hne.symm, hvalid]
        · simp [Ram.setPageStatus]
      have htail : Tail g (u.ram.setNextWriteOffset A.other 0)
          (Logs.marked g (L.flushed g st) A.other .receiving) none A.other [] :=
        .unknown (fun c hc => by cases hc) (Or.inr rfl)
      apply wp_bind_of (transferEntries_spec (hsees'.setNext A.other 0) hwrite htail
        (Or.inl ⟨rfl, rfl⟩) (fun a ha => List.mem_range.mp ha) hrecv.cache (by
          intro T hT
          rw [Logs.marked, Logs.set_set]
          exact hK.copying T (hvals ▸ hT)))
      have hvals' : copied (s.ram.setPageStatus A.other .receiving).cache
          (List.range g.maxAddress) = vals := hvals.symm
      rw [hvals']
      rintro r v ⟨hkept'', ⟨rfl, L', st', b', happ, hown, htail'⟩ |
        ⟨hr, n, hn, hne', hstop, hcause⟩⟩
      · exact finishTransfer_spec hA (hrecv.trans hkept'') hown htail' happ
          (hsees'.wf A.other) hK rfl
      · apply wp_ite
        · intro _
          refine .stopped hr (hrecv.trans hkept'') hn hstop ?_
          rcases hcause with ⟨rfl, hfull⟩ | ⟨rfl, hfault⟩
          · refine Or.inl ⟨rfl, hne', ?_⟩
            rwa [List.length_nil, Nat.add_zero, Logs.marked, Logs.set_self, List.length_append,
              length_pad_status] at hfull
          · exact Or.inr ⟨rfl, hfault.imp_right Or.inr⟩
        · intro hok
          exact absurd hr hok
    · cases hnot with
      | unflushed _ _ hfault =>
        obtain ⟨p, c, hpc, _⟩ := hfault
        cases hpc
      | noRoom hram' hsees' hfull =>
        rw [flushed_clean hsees.staged, hram] at hram'
        exact .unmarked hram' hsees' hfull
      | refused hkept' hnext _ hsees' hfault =>
        rw [flushed_clean hsees.staged, hram] at hnext
        exact .receivingRefused (hkept.trans hkept') hnext hsees' hfault
  · exact .unflushed hram hsees hfault

end Zlibs.EmuEeprom
