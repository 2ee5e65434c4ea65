import Zlibs.EmuEeprom.Format
import Zlibs.EmuEeprom.Operations

/-! The store over a backend that never fails: one valid page, the other one formatted. -/
namespace Zlibs.EmuEeprom

open Zlibs.Lib

variable {g : Geometry} {K : Logs → Prop} {L : Logs} {s t : State} {S T b c : List Entry}
  {A p q : Page} {e : Entry} {a : Nat} {m : Nat → UInt16}

theorem not_readFault : ¬ ReadFault never := fun ⟨_, _, _, _, h⟩ => by cases h

theorem not_eraseFault : ¬ EraseFault never := fun ⟨_, _, h⟩ => by cases h

theorem not_blockFault : ¬ BlockFault g never c := fun ⟨_, _, _, _, _, h⟩ => by cases h

/-- The block that holds the accepted entries `b`, if there are any. -/
def stage (A : Page) : List Entry → Option (Page × List Entry)
  | [] => none
  | e :: b => some (A, e :: b)

theorem ownStage_stage : OwnStage (stage A b) A b := by
  cases b with
  | nil => exact Or.inl ⟨rfl, rfl⟩
  | cons e b => exact Or.inr rfl

theorem OwnStage.eq_stage {st : Option (Page × List Entry)} {f : Faults}
    (h : OwnStage st A b) (hs : Sees g f K L st s) : st = stage A b := by
  rcases h with ⟨rfl, rfl⟩ | rfl
  · rfl
  · obtain ⟨_, _, _, _, _, hok⟩ := hs.staged
    obtain ⟨x, hx, _⟩ := hok.used
    cases b with
    | nil => exact absurd hx List.not_mem_nil
    | cons e b => rfl

/-- Between two operations: `A` is the valid page, `L A` what is on it and `b` what is staged. -/
structure Working (g : Geometry) (K : Logs → Prop) (L : Logs) (A : Page) (b : List Entry)
    (s : State) : Prop where
  sees : Sees g never K L (stage A b) s
  tail : Tail g s.ram L (stage A b) A b
  runtime : A ≠ .factory
  valid : s.ram.pageStatusCache A = .valid
  other : s.ram.pageStatusCache A.other = .formatted
  marked : lastStatus (L A) = .valid
  spare : L A.other = pad g [statusEntry .formatted]

theorem findValidPage_working {statuses : Page → PageStatus} (hA : A ≠ .factory)
    (hv : statuses A = .valid) (ho : statuses A.other = .formatted) (op : PageOperation) :
    findValidPage statuses op = some A := by
  cases A with
  | page1 =>
    have ho : statuses .page2 = .formatted := ho
    cases op <;> simp [findValidPage, hv, ho]
  | page2 =>
    have ho : statuses .page1 = .formatted := ho
    cases op <;> simp [findValidPage, hv, ho]
  | factory => exact absurd rfl hA

theorem Working.page (h : Working g K L A b s) (op : PageOperation) :
    findValidPage s.ram.pageStatusCache op = some A :=
  findValidPage_working h.runtime h.valid h.other op

/-- The write position is inside the page or at its end. -/
theorem Working.position_le (h : Working g K L A b s) :
    (L A).length + b.length ≤ g.pageEntries := by
  have hfits := (h.sees.wf A).fits
  have hs := h.sees.staged
  have hle := h.tail.length_le h.sees
  cases b with
  | nil => simpa using hfits
  | cons e b =>
    have := (h.sees.wf A).room hs.2.2.2.2.1
    omega

theorem stage_other (hq : q ≠ A) : L.flushed g (stage A b) q = L q :=
  Logs.flushed_of_own ((ownStage_stage (b := b)).imp And.left fun hs => ⟨b, hs⟩) hq

theorem live_stage : live (L.flushed g (stage A b) A) = live (L A ++ b) :=
  ownStage_stage.live_flushed

theorem Working.mono {K' : Logs → Prop} (h : Working g K L A b s) (hK : ∀ L, K L → K' L) :
    Working g K' L A b s :=
  ⟨h.sees.mono hK, h.tail, h.runtime, h.valid, h.other, h.marked, h.spare⟩

/-- A view at rest after the trace of earlier operations is put aside. -/
def State.beginOperation (s : State) : State := { s with hwa := { s.hwa with trace := [] } }

theorem Working.begin {K' : Logs → Prop} (h : Working g K L A b s) (hK : K' L) :
    Working g K' L A b s.beginOperation where
  sees := ⟨h.sees.faults, h.sees.holds, h.sees.staged, fun _ he => absurd he List.not_mem_nil, hK⟩
  tail := h.tail
  runtime := h.runtime
  valid := h.valid
  other := h.other
  marked := h.marked
  spare := h.spare

/-- Only the write block, the cached offset and the statuses of the two pages matter. -/
theorem Working.withRam {r : Ram} (h : Working g K L A b s) (hs : Staged g r L (stage A b))
    (ht : Tail g r L (stage A b) A b) (hA : r.pageStatusCache A = s.ram.pageStatusCache A)
    (hB : r.pageStatusCache A.other = s.ram.pageStatusCache A.other) :
    Working g K L A b { s with ram := r } where
  sees := h.sees.withRam hs
  tail := ht
  runtime := h.runtime
  valid := hA.trans h.valid
  other := hB.trans h.other
  marked := h.marked
  spare := h.spare

theorem Working.atCalls (h : Working g K L A b s) (n : Nat) :
    Working g K L A b (s.atCalls n) where
  sees := h.sees.atCalls n
  tail := h.tail
  runtime := h.runtime
  valid := h.valid
  other := h.other
  marked := h.marked
  spare := h.spare

theorem Working.remember (h : Working g K L A b s) (a : Nat) (v : Option UInt16) :
    Working g K L A b { s with ram := s.ram.remember a v } := by
  cases v with
  | none => exact h
  | some v =>
    refine h.withRam ?_ (h.tail.withRam rfl rfl) rfl rfl
    cases hst : stage A b with
    | none => exact hst ▸ h.sees.staged
    | some w => exact hst ▸ h.sees.staged

/-- A write that finds room. -/
theorem Working.append (h : Working g K L A b s) (he : e.address ≠ reservedStatusAddress)
    (ha : e.address.toNat < g.maxAddress) (hroom : (L A).length + b.length < g.pageEntries)
    (hK : K (L.flushed g (stage A b)))
    (hK' : ∀ T, live T = live (L A ++ b) ++ [e] → K (L.set A T)) :
    wp (writeInternal g e) (fun r t => r = .ok ∧
      Kept (s.ram.setCache e.address.toNat e.value) t.ram ∧ ∃ L' b', Working g K L' A b' t ∧
        live (L' A ++ b') = live (L A ++ b) ++ [e] ∧
        (L' A).length + b'.length = (L A).length + b.length + 1 ∧
        ∀ q, q ≠ A → L' q = L q) s := by
  apply wp_mono (writeInternal_spec h.sees (h.page .write) h.tail he ha hK fun T hT => by
    rw [ownStage_stage.flushed_set]
    exact hK' T hT)
  rintro r t (⟨rfl, hkept, L', st', b', happ, hown, htail⟩ | ⟨_, _, hrefusal⟩)
  · obtain rfl := hown.eq_stage happ.sees
    have hothers : ∀ q, q ≠ A → L' q = L q := fun q hq =>
      (happ.others q hq).trans (stage_other hq)
    have hne := Page.other_ne h.runtime
    refine ⟨rfl, hkept, L', b', ⟨happ.sees, htail, h.runtime, ?_, ?_, ?_, ?_⟩, happ.content,
      happ.length, hothers⟩
    · rw [hkept.statuses]
      exact h.valid
    · rw [hkept.statuses]
      exact h.other
    · have hs := htail.silent.lastStatus (S := L' A)
      rw [← hs, lastStatus_congr (T := L A ++ b ++ [e]), ((Silent.singleton
        (user_silent he)).lastStatus), h.tail.silent.lastStatus, h.marked]
      rw [happ.content, live_append (T := [e]), live_singleton (user_ne_erased he)]
    · rw [hothers _ hne, h.spare]
  · rcases hrefusal with ⟨_, hfull⟩ | ⟨_, hfault | ⟨c, hfault⟩⟩
    · omega
    · exact absurd hfault not_readFault
    · exact absurd hfault not_blockFault

/-- A write that finds the page full. -/
theorem Working.full (h : Working g K L A b s) (he : e.address ≠ reservedStatusAddress)
    (ha : e.address.toNat < g.maxAddress) (hfull : g.pageEntries ≤ (L A).length + b.length)
    (hK : K (L.flushed g (stage A b)))
    (hK' : ∀ T, live T = live (L A ++ b) ++ [e] → K (L.set A T)) :
    wp (writeInternal g e) (fun r t => r = .pageFull ∧ Kept s.ram t.ram ∧
      Working g K L A b t) s := by
  apply wp_mono (writeInternal_spec h.sees (h.page .write) h.tail he ha hK fun T hT => by
    rw [ownStage_stage.flushed_set]
    exact hK' T hT)
  rintro r t (⟨rfl, hkept, L', st', b', happ, hown, htail⟩ | ⟨_, hdec, hrefusal⟩)
  · obtain rfl := hown.eq_stage happ.sees
    have hlen := happ.length
    have hfits := (happ.sees.wf A).fits
    have hle := htail.length_le happ.sees
    rw [List.length_singleton] at hlen
    cases b' with
    | nil =>
      rw [List.length_nil] at hlen
      omega
    | cons x b' =>
      have := (happ.sees.wf A).room happ.sees.staged.2.2.2.2.1
      omega
  · rcases hrefusal with ⟨rfl, _⟩ | ⟨_, hfault | ⟨c, hfault⟩⟩
    · obtain ⟨hkept, L', st', b', hsees, htail, _, _, ⟨rfl, rfl, rfl⟩ | ⟨_, _, hfault⟩⟩ := hdec
      · exact ⟨rfl, hkept, hsees, htail, h.runtime, by rw [hkept.statuses, h.valid],
          by rw [hkept.statuses, h.other], h.marked, h.spare⟩
      · exact absurd hfault not_blockFault
    · exact absurd hfault not_readFault
    · exact absurd hfault not_blockFault

theorem roundUp_spec (n : Nat) : g.entriesPerBlock ∣ g.roundUp n ∧ n ≤ g.roundUp n ∧
    g.roundUp n < n + g.entriesPerBlock := by
  have hpos := g.entriesPerBlock_pos
  have hd := Nat.div_add_mod (n + g.entriesPerBlock - 1) g.entriesPerBlock
  have hm := Nat.mod_lt (n + g.entriesPerBlock - 1) hpos
  rw [Nat.mul_comm] at hd
  refine ⟨⟨_, Nat.mul_comm ..⟩, ?_, ?_⟩
  · rw [Geometry.roundUp]
    omega
  · rw [Geometry.roundUp]
    omega

theorem roundUp_le {k n : Nat} (hk : g.entriesPerBlock ∣ k) (hn : n ≤ k) : g.roundUp n ≤ k := by
  obtain ⟨hd, _, hlt⟩ := roundUp_spec (g := g) n
  by_contra hgt
  have := Nat.le_of_dvd (by omega) (Nat.dvd_sub hd hk)
  omega

theorem copied_length_le (m : Nat → UInt16) (n : Nat) :
    (copied m (List.range n)).length ≤ n := by
  have := List.length_filter_le (fun a => decide (m a ≠ erasedValue)) (List.range n)
  rw [copied, List.length_map]
  rwa [List.length_range] at this

theorem room_after_transfer (m : Nat → UInt16) :
    g.roundUp (copied m (List.range g.maxAddress)).length + 3 * g.entriesPerBlock ≤
      g.pageEntries := by
  have hcap := g.capacity
  have hle := copied_length_le m g.maxAddress
  have hdvd : g.entriesPerBlock ∣ g.pageEntries - 3 * g.entriesPerBlock :=
    Nat.dvd_sub g.entriesPerBlock_dvd ⟨3, Nat.mul_comm ..⟩
  have := roundUp_le hdvd (n := (copied m (List.range g.maxAddress)).length) (by omega)
  omega

theorem silent_copied {l : List Nat} (hl : ∀ a ∈ l, a < g.maxAddress) :
    Silent (copied m l) := by
  intro e he
  obtain ⟨a, ha, rfl⟩ := List.mem_map.mp he
  exact user_silent (address_ofNat (hl a (List.mem_filter.mp ha).1)).2

/-- The logs after a transfer out of page `A` to the copy `T`. -/
def Logs.transferred (g : Geometry) (L : Logs) (A : Page) (T : List Entry) : Logs :=
  (L.set A.other (T ++ pad g [statusEntry .valid])).set A (pad g [statusEntry .formatted])

/-- The spare page when its copy starts. -/
def receivingLog (g : Geometry) : List Entry :=
  pad g [statusEntry .formatted] ++ pad g [statusEntry .receiving]

theorem length_receivingLog : (receivingLog g).length = 2 * g.entriesPerBlock := by
  rw [receivingLog, List.length_append, length_pad_status, length_pad_status]
  omega

theorem Page.other_other (hA : A ≠ .factory) : A.other.other = A := by
  cases A with
  | page1 => rfl
  | page2 => rfl
  | factory => exact absurd rfl hA

theorem Page.other_runtime : A.other ≠ .factory := by cases A <;> exact nofun

theorem Page.runtime_cases (hA : A ≠ .factory) (hp : p ≠ .factory) : p = A ∨ p = A.other := by
  cases A with
  | page1 =>
    cases p with
    | page1 => exact Or.inl rfl
    | page2 => exact Or.inr rfl
    | factory => exact absurd rfl hp
  | page2 =>
    cases p with
    | page1 => exact Or.inr rfl
    | page2 => exact Or.inl rfl
    | factory => exact absurd rfl hp
  | factory => exact absurd rfl hA

/-- With room for the copy and its two status records a transfer completes. -/
theorem pageTransfer_never {st : Option (Page × List Entry)} (h : Sees g never K L st s)
    (hp : findValidPage s.ram.pageStatusCache .read = some A) {vals R : List Entry}
    (hvals : vals = copied s.ram.cache (List.range g.maxAddress))
    (hR : L.flushed g st A.other ++ pad g [statusEntry .receiving] = R)
    (hroom : g.roundUp vals.length + R.length + g.entriesPerBlock ≤ g.pageEntries)
    (hK : TransferSafe K g (L.flushed g st) A vals) :
    wp (pageTransfer g) (fun r t => r = .ok ∧ ∃ T, Transferred g R vals T ∧
      Sees g never K (Logs.transferred g (L.flushed g st) A T) none t ∧
      t.ram.pageStatusCache = (((s.ram.setPageStatus A.other .receiving).setPageStatus A
        .formatted).setPageStatus A.other .valid).pageStatusCache ∧
      t.ram.cache = mirror (T ++ pad g [statusEntry .valid]) ∧ t.ram.cacheDirty = false ∧
      t.ram.nextWriteOffsetCache =
        ⟨A.other, 4 * (T ++ pad g [statusEntry .valid]).length⟩) s := by
  have hreceiving : Logs.marked g (L.flushed g st) A.other .receiving A.other = R := by
    rw [Logs.marked, Logs.set_self, hR]
  have hlen : (L.flushed g st A.other).length + g.entriesPerBlock = R.length := by
    rw [← hR, List.length_append, length_pad_status]
  have hpos := g.entriesPerBlock_pos
  apply wp_mono (pageTransfer_spec h hp hvals hK)
  intro r t hend
  cases hend with
  | unflushed _ _ hfault =>
    obtain ⟨_, _, _, hfault⟩ := hfault
    exact absurd hfault not_blockFault
  | unmarked _ _ hfull =>
    rcases hfull with hfull | hfault
    · omega
    · exact absurd hfault not_readFault
  | receivingRefused _ _ _ hfault => exact absurd hfault not_blockFault
  | stopped hr _ hn _ hcause =>
    rcases hcause with ⟨_, hne', hfull⟩ | ⟨_, hfault | hfault | ⟨c, hfault⟩⟩
    · have hlt : _ < vals.length := Nat.lt_of_le_of_ne hn.length_le fun hl =>
        hne' (hn.eq_of_length hl)
      have := (roundUp_spec (g := g) vals.length).2.1
      omega
    · exact absurd hfault not_readFault
    · exact absurd hfault not_eraseFault
    · exact absurd hfault not_blockFault
  | formattedRefused _ _ _ hst _ =>
    rcases hst with ⟨_, hfault⟩ | ⟨_, hfault⟩
    · exact absurd hfault not_readFault
    · exact absurd hfault not_blockFault
  | validRefused _ hT _ hst =>
    rcases hst with ⟨_, hfull | hfault⟩ | ⟨_, hfault⟩
    · have := hT.length
      rw [hreceiving] at this
      omega
    · exact absurd hfault not_readFault
    · exact absurd hfault not_blockFault
  | unmirrored _ _ _ _ _ _ hfault => exact absurd hfault not_readFault
  | @done t T hstatuses hT hsees hcache hdirty hnext =>
    rw [hreceiving] at hT
    exact ⟨rfl, T, hT, hsees, hstatuses, hcache, hdirty, hnext⟩

theorem Logs.transferred_other (hA : A ≠ .factory) :
    Logs.transferred g L A T A.other = T ++ pad g [statusEntry .valid] := by
  rw [Logs.transferred, Logs.set_ne (Page.other_ne hA), Logs.set_self]

theorem Logs.transferred_factory (hA : A ≠ .factory) :
    Logs.transferred g L A T .factory = L .factory := by
  rw [Logs.transferred, Logs.set_ne hA.symm, Logs.set_ne Page.other_runtime.symm]

/-- The state `page_transfer` ends in is a working one on the other page. -/
theorem working_transferred {r : Ram} (hA : A ≠ .factory)
    (hs : Sees g never K (Logs.transferred g L A T) none t)
    (hstatuses : t.ram.pageStatusCache = (((r.setPageStatus A.other .receiving).setPageStatus A
      .formatted).setPageStatus A.other .valid).pageStatusCache)
    (hnext : t.ram.nextWriteOffsetCache =
      ⟨A.other, 4 * (T ++ pad g [statusEntry .valid]).length⟩) :
    Working g K (Logs.transferred g L A T) A.other [] t := by
  have hne := Page.other_ne hA
  refine ⟨hs, ?_, Page.other_runtime, ?_, ?_, ?_, ?_⟩
  · exact .clean 0 (fun c hc => by cases hc) (by rw [hnext, Logs.transferred_other hA]; rfl)
      g.entriesPerBlock_pos
  · rw [hstatuses]
    simp [Ram.setPageStatus]
  · rw [Page.other_other hA, hstatuses]
    simp [Ram.setPageStatus, hne.symm]
  · rw [Logs.transferred_other hA, lastStatus_append_statusEntry (fun h => by cases h)]
  · rw [Page.other_other hA, Logs.transferred, Logs.set_self]

theorem Working.pageTransfer (h : Working g K L A b s) {vals : List Entry}
    (hvals : vals = copied s.ram.cache (List.range g.maxAddress))
    (hK : TransferSafe K g (L.flushed g (stage A b)) A vals) :
    wp (pageTransfer g) (fun r t => r = .ok ∧ ∃ T, Transferred g (receivingLog g) vals T ∧
      Working g K (Logs.transferred g L A T) A.other [] t ∧
      t.ram.cache = mirror (T ++ pad g [statusEntry .valid]) ∧ t.ram.cacheDirty = false ∧
      t.ram.pageStatusCache .factory = s.ram.pageStatusCache .factory) s := by
  have hspare : L.flushed g (stage A b) A.other = pad g [statusEntry .formatted] := by
    rw [stage_other (Page.other_ne h.runtime), h.spare]
  have hroom := room_after_transfer (g := g) s.ram.cache
  have hlen := length_receivingLog (g := g)
  apply wp_mono (pageTransfer_never h.sees (h.page .read) hvals (R := receivingLog g)
    (by rw [hspare, receivingLog]) (by rw [hvals]; omega) hK)
  rintro r t ⟨rfl, T, hT, hsees, hstatuses, hcache, hdirty, hnext⟩
  have hlogs : Logs.transferred g (L.flushed g (stage A b)) A T = Logs.transferred g L A T := by
    apply Logs.set_congr
    intro q hq
    by_cases hqo : q = A.other
    · subst hqo
      rw [Logs.set_self, Logs.set_self]
    · rw [Logs.set_ne hqo, Logs.set_ne hqo, stage_other hq]
  rw [hlogs] at hsees
  refine ⟨rfl, T, hT, working_transferred h.runtime hsees hstatuses hnext, hcache, hdirty, ?_⟩
  rw [hstatuses]
  simp [Ram.setPageStatus, h.runtime.symm, Page.other_runtime.symm]

/-- A programmed block leaves nothing staged. -/
theorem Working.flushWriteBlock (h : Working g K L A b s) (hK : K (L.flushed g (stage A b))) :
    wp (flushWriteBlock g) (fun r t => r = true ∧ Kept s.ram t.ram ∧
      Working g K (L.flushed g (stage A b)) A [] t) s := by
  apply wp_mono (flushWriteBlock_spec h.sees hK)
  rintro r t (⟨rfl, hram, hsees⟩ | ⟨_, _, _, p, c, _, hfault⟩)
  · have hkept : Kept s.ram t.ram := hram ▸ kept_flushed s.ram
    refine ⟨rfl, hkept, hsees, hram ▸ ownStage_stage.tail_flushed h.sees h.tail, h.runtime, ?_, ?_,
      ?_, ?_⟩
    · rw [hkept.statuses]
      exact h.valid
    · rw [hkept.statuses]
      exact h.other
    · rw [lastStatus_congr live_stage, h.tail.silent.lastStatus, h.marked]
    · rw [stage_other (Page.other_ne h.runtime), h.spare]
  · exact absurd hfault not_blockFault

/-- The offset a read starts from: the flash holds nothing behind it. -/
theorem Working.lookup_below (h : Working g K L A b s) (a : Nat) :
    ∃ k, (if s.ram.nextWriteOffsetCache.page = A ∧ s.ram.nextWriteOffsetCache.offset > 0 then
        s.ram.nextWriteOffsetCache.offset - serializedEntrySize
      else g.pageSize - serializedEntrySize) = 4 * k ∧
      lookup ((L A).take (k + 1)) a = lookup (L A) a := by
  have hpos := pageEntries_pos (g := g)
  have hfits := (h.sees.wf A).fits
  split
  case isTrue hn =>
    have hnext := h.tail.known_next ⟨hn.1, by omega⟩
    rw [hnext] at hn ⊢
    have hn : 0 < 4 * ((L A).length + b.length) := hn.2
    refine ⟨(L A).length + b.length - 1, ?_, ?_⟩
    · simp only [serializedEntrySize]
      omega
    · rw [List.take_of_length_le (by omega)]
  case isFalse =>
    refine ⟨g.pageEntries - 1, ?_, ?_⟩
    · rw [g.pageSize_eq, serializedEntrySize]
      omega
    · rw [List.take_of_length_le (by omega)]

/-- What a read of address `a` finds. -/
def exposed (s : State) (L : Logs) (A : Page) (a : Nat) : Option UInt16 :=
  if s.ram.cache a ≠ erasedValue then some (s.ram.cache a) else lookup (L A) a

theorem Working.read (h : Working g K L A b s) (ha : a < g.maxAddress) :
    wp (read g a) (fun r t => r = (match exposed s L A a with
        | some v => (.ok, some v)
        | none => (.noVariable, none)) ∧
      ∃ n, t = { s with ram := s.ram.remember a (exposed s L A a) }.atCalls n) s := by
  rw [EmuEeprom.read]
  apply wp_ite
  · intro hge
    omega
  · intro _
    rw [wp_bind, wp_get]
    apply wp_ite
    · intro hc
      have hx : exposed s L A a = some (s.ram.cache a) := if_pos hc
      rw [hx]
      refine ⟨rfl, s.hwa.calls, ?_⟩
      have hself : (fun x => if x = a then s.ram.cache a else s.ram.cache x) = s.ram.cache := by
        funext x
        by_cases hx : x = a
        · rw [if_pos hx, hx]
        · rw [if_neg hx]
      show s = State.atCalls ⟨Ram.setCache s.ram a (s.ram.cache a), s.hwa⟩ s.hwa.calls
      rw [Ram.setCache, hself]
      rfl
    · intro hc
      have hx : exposed s L A a = lookup (L A) a := if_neg hc
      rw [h.page .read, hx]
      obtain ⟨k, hk, hlook⟩ := h.lookup_below a
      have hmax := g.maxAddress_le
      have hscan := readScan_spec (g := g) (h.sees.flash A) h.sees.faults
        (show a < 0xFFFF by omega) k
      rw [hlook] at hscan
      dsimp only
      rw [hk]
      have hdiv : 4 * k / serializedEntrySize = k := by simp
      rw [hdiv]
      apply wp_bind_of hscan
      rintro r t ⟨c, rfl, rfl | hfault⟩
      · cases lookup (L A) a with
        | none => exact ⟨rfl, c, rfl⟩
        | some v => exact ⟨rfl, c, rfl⟩
      · exact absurd hfault not_readFault

end Zlibs.EmuEeprom
