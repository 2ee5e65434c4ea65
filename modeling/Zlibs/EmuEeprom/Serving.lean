import Zlibs.EmuEeprom.Intact

/-! A working store with its logical contents, and what each public operation does to them. -/
namespace Zlibs.EmuEeprom

open Zlibs.Lib

variable {g : Geometry} {K : Logs → Prop} {L : Logs} {s t : State} {S T b c F : List Entry}
  {st : Option (Page × List Entry)} {A p q : Page} {e : Entry} {a : Nat} {r : Ram} {m n : Contents}
  {V : Permitted}

/-- The contents, and what the flash shows of them, may all be found after a power loss. -/
structure Serving (g : Geometry) (V : Permitted) (m : Contents) (L : Logs) (A : Page)
    (b : List Entry) (s : State) : Prop where
  working : Working g (Intact g V) L A b s
  represents : Represents g m s.ram (L A ++ b)
  content : V.Holds g m
  accepted : V.Holds g (lookup (L A ++ b))
  named : Named (L A ++ b)

/-- A store that serves the contents `m`, with the log `F` on its factory page. -/
def Serves (g : Geometry) (V : Permitted) (m : Contents) (F : List Entry) (s : State) : Prop :=
  ∃ L A b, Serving g V m L A b s ∧ L .factory = F

/-- Nothing is staged or only in the mirror: the flash shows the contents. -/
def Settled (g : Geometry) (V : Permitted) (m : Contents) (F : List Entry) (s : State) : Prop :=
  ∃ L A, Serving g V m L A [] s ∧ L .factory = F ∧ s.ram.cacheDirty = false

theorem Settled.serves (h : Settled g V m F s) : Serves g V m F s := by
  obtain ⟨L, A, hs, hF, _⟩ := h
  exact ⟨L, A, [], hs, hF⟩

theorem Working.recoverable (h : Working g K L A b s) (hn : Named (L A))
    (hV : V.Holds g (lookup (L A))) : Recoverable g V L A := by
  refine ⟨h.runtime, h.marked, ?_, fun _ => h.spare, hn, hV⟩
  rw [h.spare, lastStatus_formattedBlock]
  nofun

/-- The flash of a working store may be found as it is. -/
theorem Working.intact (h : Working g (Intact g V) L A b s) : Recoverable g V L A := by
  rcases h.sees.good with hnone | ⟨B, hB⟩
  · exact absurd h.marked (hnone A h.runtime)
  · rcases runtime_cases h.runtime hB.runtime with rfl | rfl
    · exact hB
    · have hm := hB.marked
      rw [h.spare, lastStatus_formattedBlock] at hm
      cases hm

/-- The valid page with a log that still marks it so. -/
theorem Working.recoverable_set (h : Working g K L A b s) (hm : lastStatus T = .valid)
    (hn : Named T) (hV : V.Holds g (lookup T)) : Recoverable g V (L.set A T) A := by
  refine .replace h.runtime hm ?_ (fun _ => h.spare) hn hV
  rw [h.spare, lastStatus_formattedBlock]
  nofun

theorem Working.recoverable_flushed (h : Working g K L A b s) (hn : Named (L A ++ b))
    (hV : V.Holds g (lookup (L A ++ b))) : Recoverable g V (L.flushed g (stage A b)) A := by
  have hlive : live (L.flushed g (stage A b) A) = live (L A ++ b) := live_stage
  rw [ownStage_stage.flushed_eq (g := g)]
  apply h.recoverable_set
  · rw [lastStatus_congr hlive, h.tail.silent.lastStatus, h.marked]
  · exact hn.congr hlive
  · exact hV.congr fun a _ => lookup_congr hlive a

theorem Represents.holds_cache (h : Represents g m r S) (hV : V.Holds g m) :
    V.Holds g fun a => if r.cache a ≠ erasedValue then some (r.cache a) else none := by
  intro a ha
  dsimp only
  cases hm : m a with
  | some v =>
    obtain ⟨hv, hc⟩ := h.cached a ha v hm
    rw [hc, if_pos hv, ← hm]
    exact hV a ha
  | none =>
    rw [(h.absent a ha hm).1, if_neg (fun hn => hn rfl), ← hm]
    exact hV a ha

theorem Serving.transferSafe (h : Serving g V m L A b s) :
    TransferSafe (Intact g V) g (L.flushed g (stage A b)) A (dumped g s.ram) := by
  apply (h.working.recoverable_flushed h.named h.accepted).transferSafe
  · rw [stage_other (Page.other_ne h.working.runtime), h.working.spare]
    exact bare_statusBlock
  · exact h.represents.holds_cache h.content

/-- Contents are delivered as they are. -/
theorem Serving.exposed (h : Serving g V m L A b s) (ha : a < g.maxAddress) :
    exposed s L A a = m a := h.represents.exposed ha

/-- What is allowed may change between two operations. -/
theorem Serving.begin {W : Permitted} (h : Serving g V m L A b s) (hm : W.Holds g m)
    (hf : W.Holds g (lookup (L A))) (hb : W.Holds g (lookup (L A ++ b))) :
    Serving g W m L A b s.beginOperation where
  working := h.working.begin (Or.inr ⟨A, h.working.recoverable h.working.intact.named hf⟩)
  represents := h.represents
  content := hm
  accepted := hb
  named := h.named

theorem Permitted.Holds.mono {W : Permitted} (h : V.Holds g m) (hW : ∀ a v, V a v → W a v) :
    W.Holds g m := fun a ha => hW a _ (h a ha)

/-- More may be allowed at any time between two operations. -/
theorem Serves.widen {W : Permitted} (h : Serves g V m F s) (hW : ∀ a v, V a v → W a v) :
    Serves g W m F s.beginOperation := by
  obtain ⟨L, A, b, hs, hF⟩ := h
  exact ⟨L, A, b, hs.begin (hs.content.mono hW) (hs.working.intact.held.mono hW)
    (hs.accepted.mono hW), hF⟩

theorem Permitted.Holds.set (h : V.Holds g m) {v : UInt16} (hv : V a (some v)) :
    V.Holds g (m.set a v) := by
  intro x hx
  rw [Contents.set]
  split
  case isTrue hxa => exact hxa ▸ hv
  case isFalse => exact h x hx

theorem lookup_of_live (he : e.address ≠ reservedStatusAddress) (h : live T = live S ++ [e]) :
    lookup T = Contents.set (lookup S) e.address.toNat e.value := by
  funext x
  rw [Contents.set, ← lookup_append_user he]
  apply lookup_congr
  rw [h, live_append, live_singleton (user_ne_erased he)]

theorem Serving.writeSafe (h : Serving g V m L A b s) (he : e.address ≠ reservedStatusAddress)
    (hv : e.value ≠ erasedValue) (hV : V e.address.toNat (some e.value)) : WriteSafe (Intact g V) g L A b e s.ram := by
  have hw := h.working
  have hlast : ∀ {T S : List Entry}, live T = live S ++ [e] → lastStatus T = lastStatus S := by
    intro T S hT
    have hlive : live T = live (S ++ [e]) := by
      rw [hT, live_append, live_singleton (user_ne_erased he)]
    rw [lastStatus_congr hlive, (Silent.singleton (user_silent he)).lastStatus]
  refine ⟨Or.inr ⟨A, hw.recoverable_flushed h.named h.accepted⟩, ?_, h.transferSafe, ?_⟩
  · intro T hT
    refine Or.inr ⟨A, hw.recoverable_set ?_ (h.named.user hv hT) ?_⟩
    · rw [hlast hT, hw.tail.silent.lastStatus, hw.marked]
    · rw [lookup_of_live he hT]
      exact h.accepted.set hV
  · intro T hT T' hT'
    have hother : Logs.transferred g L A T A.other.other = pad g [statusEntry .formatted] := by
      rw [Page.other_other hw.runtime, Logs.transferred, Logs.set_self]
    have hnamed := (hT.named bare_receivingLog.named).user hv hT'
    refine Or.inr ⟨A.other, .replace Page.other_runtime ?_ ?_ ?_ hnamed ?_⟩
    · rw [hlast hT']
      exact lastStatus_append_statusEntry (by decide)
    · rw [hother, lastStatus_formattedBlock]
      decide
    · exact fun _ => hother
    · rw [lookup_of_live he hT']
      refine Permitted.Holds.set ?_ hV
      intro a ha
      rw [hT.lookup ha, bare_receivingLog.lookup]
      exact h.represents.holds_cache h.content a ha

/-- With a clean mirror and nothing staged the flash shows the contents. -/
theorem Serving.settled (hw : Working g (Intact g V) L A [] s)
    (hr : Represents g m s.ram (L A)) (hd : s.ram.cacheDirty = false) (hV : V.Holds g m) :
    Serving g V m L A [] s := by
  have hflash : V.Holds g (lookup (L A)) := hV.congr (hr.logged hd)
  exact ⟨hw, by rwa [List.append_nil], hV, by rwa [List.append_nil],
    by rw [List.append_nil]; exact hw.intact.named⟩

theorem Serving.transferred (h : Serving g V m L A b s)
    (hT : Transferred g (receivingLog g) (dumped g s.ram) T)
    (hw : Working g (Intact g V) (Logs.transferred g L A T) A.other [] t)
    (hc : t.ram.cache = mirror (T ++ pad g [statusEntry .valid])) (hd : t.ram.cacheDirty = false) :
    Serving g V m (Logs.transferred g L A T) A.other [] t := by
  refine .settled hw ?_ hd h.content
  rw [Logs.transferred_other h.working.runtime]
  exact h.represents.transferred bare_receivingLog.lookup hT hc

theorem Serves.write (h : Serves g V m F s) (he : e.address ≠ reservedStatusAddress)
    (ha : e.address.toNat < g.maxAddress) (hv : e.value ≠ erasedValue)
    (hV : V e.address.toNat (some e.value)) (cacheOnly : Bool) :
    wp (write g e cacheOnly) (fun r t =>
      (r = .ok ∧ Serves g V (m.set e.address.toNat e.value) F t) ∨
      (r = .pageFull ∧ Settled g V m F t)) s := by
  obtain ⟨L, A, b, h, rfl⟩ := h
  have hw := h.working
  apply wp_mono (hw.write he ha (h.writeSafe he hv hV) cacheOnly)
  intro r t hend
  cases hend with
  | cached =>
    have hstaged : Staged g { s.ram.setCache e.address.toNat e.value with cacheDirty := true } L
        (stage A b) := by
      cases hst : stage A b with
      | none => exact hst ▸ hw.sees.staged
      | some w => exact hst ▸ hw.sees.staged
    exact Or.inl ⟨rfl, L, A, b, ⟨hw.withRam hstaged (hw.tail.withRam rfl rfl) rfl rfl,
      h.represents.cacheOnly hv, h.content.set hV, h.accepted, h.named⟩, rfl⟩
  | @appended t L' b' hroom hw' hcontent hothers hkept =>
    have hlook := lookup_of_live he hcontent
    have hrep := h.represents.append he hv hkept.cache hkept.dirty hcontent
    refine Or.inl ⟨rfl, L', A, b', ⟨hw', hrep, h.content.set hV, ?_,
      h.named.user hv hcontent⟩, hothers _ hw.runtime.symm⟩
    rw [hlook]
    exact h.accepted.set hV
  | @transferred t L' b' T hfull hT hroom hw' hcontent hfactory u hu hd hf hkept =>
    have hlook := lookup_of_live he hcontent
    have hrep := h.represents.transferred (u := u) bare_receivingLog.lookup hT hu
    refine Or.inl ⟨rfl, L', A.other, b', ⟨hw', hrep.append he hv hkept.cache hkept.dirty hcontent,
      h.content.set hV, ?_, (hT.named bare_receivingLog.named).user hv hcontent⟩, hfactory⟩
    rw [hlook]
    exact (h.content.congr (hrep.logged hd)).set hV
  | @full t T hfull hT hroom hw' hc hd hf =>
    exact Or.inr ⟨rfl, _, _, h.transferred hT hw' hc hd, Logs.transferred_factory hw.runtime, hd⟩

theorem Serves.pageTransfer (h : Serves g V m F s) :
    wp (pageTransfer g) (fun r t => r = .ok ∧ Settled g V m F t) s := by
  obtain ⟨L, A, b, h, rfl⟩ := h
  apply wp_mono (h.working.pageTransfer rfl h.transferSafe)
  rintro r t ⟨rfl, T, hT, hw, hc, hd, _⟩
  exact ⟨rfl, _, _, h.transferred hT hw hc hd, Logs.transferred_factory h.working.runtime, hd⟩

theorem Serves.flush (h : Serves g V m F s) :
    wp (flush g) (fun r t => r = true ∧ Settled g V m F t) s := by
  obtain ⟨L, A, b, h, rfl⟩ := h
  have hflushed : Intact g V (L.flushed g (stage A b)) :=
    Or.inr ⟨A, h.working.recoverable_flushed h.named h.accepted⟩
  apply wp_mono (h.working.flush hflushed fun _ => h.transferSafe)
  rintro r t ⟨rfl, hend⟩
  refine ⟨rfl, ?_⟩
  cases hend with
  | programmed hclean hkept hw =>
    have hrep := h.represents.congr hkept.cache hkept.dirty (live_stage (g := g))
    have hd := hkept.dirty.trans hclean
    exact ⟨_, A, .settled hw hrep hd h.content, stage_other h.working.runtime.symm, hd⟩
  | transferred hdirty hT hw hc hd hf =>
    exact ⟨_, _, h.transferred hT hw hc hd, Logs.transferred_factory h.working.runtime, hd⟩

theorem Serves.read (h : Serves g V m F s) (ha : a < g.maxAddress) :
    wp (read g a) (fun r t => r = (match m a with
        | some v => (.ok, some v)
        | none => (.noVariable, none)) ∧ ∃ n, t = s.atCalls n) s := by
  obtain ⟨L, A, b, h, rfl⟩ := h
  apply wp_mono (h.working.read ha)
  rintro r t ⟨hr, n, rfl⟩
  rw [h.exposed ha] at hr
  rw [h.represents.remember ha]
  exact ⟨hr, n, rfl⟩

theorem Serves.atCalls (h : Serves g V m F s) (n : Nat) : Serves g V m F (s.atCalls n) := by
  obtain ⟨L, A, b, h, hF⟩ := h
  exact ⟨L, A, b, ⟨h.working.atCalls n, h.represents, h.content, h.accepted, h.named⟩, hF⟩

theorem read_beyond (ha : g.maxAddress ≤ a) : EmuEeprom.read g a s = ((.readError, none), s) := by
  rw [EmuEeprom.read, if_pos ha]
  rfl

/-- What the contents answer to a read. -/
def Contents.answer (g : Geometry) (m : Contents) (address : Nat) : ReadStatus × Option UInt16 :=
  if address < g.maxAddress then
    match m address with
    | some value => (.ok, some value)
    | none => (.noVariable, none)
  else (.readError, none)

theorem Serves.read_answer (h : Serves g V m F s) (a : Nat) :
    wp (EmuEeprom.read g a) (fun r t => r = m.answer g a ∧ ∃ n, t = s.atCalls n) s := by
  rcases Nat.lt_or_ge a g.maxAddress with ha | ha
  · rw [Contents.answer, if_pos ha]
    exact h.read ha
  · rw [Contents.answer, if_neg (Nat.not_lt.mpr ha), wp, read_beyond ha]
    exact ⟨rfl, s.hwa.calls, rfl⟩

/-- Reads deliver the contents. -/
theorem Serves.contents (h : Serves g V m F s) (ha : a < g.maxAddress) : contents g s a = m a := by
  have hr := (h.read ha).1
  rw [EmuEeprom.contents, hr]
  cases m a <;> rfl

theorem Serves.pageStatus (h : Serves g V m F s) (q : Page) :
    wp (pageStatus g q) (fun _ t => Serves g V m F t) s := by
  obtain ⟨L, A, b, h, rfl⟩ := h
  apply wp_mono (h.working.pageStatus q)
  rintro r t ⟨_, hw, hc, hd⟩
  exact ⟨L, A, b, ⟨hw, h.represents.congr hc hd rfl, h.content, h.accepted, h.named⟩, rfl⟩

theorem unmarked_erased (h1 : L .page1 = []) (h2 : L .page2 = []) : Unmarked L := by
  refine unmarked_of (A := .page1) nofun ?_ ?_
  · rw [h1, lastStatus_nil]
    nofun
  · rw [Page.other, h2, lastStatus_nil]
    nofun

/-- The page that becomes the valid one is recoverable once it is marked. -/
theorem recoverable_activated (h2 : L .page2 = []) (hn : Named (L .page1))
    (hV : V.Holds g (lookup (L .page1))) :
    Recoverable g V (L.marked g .page1 .valid) .page1 := by
  have hother : L Page.page1.other = [] := h2
  refine .replace nofun (lastStatus_append_statusEntry nofun) ?_ ?_
    (hn.append bare_statusBlock.named) ?_
  · rw [hother, lastStatus_nil]
    nofun
  · rw [hother, lastStatus_nil]
    nofun
  · exact hV.congr fun a _ => lookup_append_statusEntry

theorem Recoverable.other_formatted (h : Recoverable g V L .page1) :
    Recoverable g V (L.set .page2 (pad g [statusEntry .formatted])) .page1 := by
  refine h.other_set (T := pad g [statusEntry .formatted]) ?_ fun _ => rfl
  rw [lastStatus_formattedBlock]
  nofun

/-- Erasing page 1 leaves the contents on page 2, or nothing. -/
theorem Intact.erase_page1 (h : Intact g V L) : Intact g V (L.set .page1 []) := by
  have hnone : lastStatus (L .page2) ≠ .valid → Intact g V (L.set .page1 []) := by
    intro h2
    refine Or.inl (unmarked_of (A := .page1) (by decide) ?_ ?_)
    · rw [Logs.set_self, lastStatus_nil]
      decide
    · rw [Page.other, Logs.set_ne (q := .page2) (p := .page1) (by decide)]
      exact h2
  rcases h with h | ⟨A, h⟩
  · exact hnone (h .page2 (by decide))
  · cases A with
    | page1 => exact hnone h.other
    | page2 => exact Or.inr ⟨.page2, h.other_set (T := []) (by decide) fun hT => by cases hT⟩
    | factory => exact absurd rfl h.runtime

/-- Every moment of a format is recoverable where nothing need be found again. -/
theorem formatSafe_intact (h : Intact g V L) (hV : V.Holds g fun _ => none)
    (formatFactoryPage : Bool) : FormatSafe (Intact g V) g L formatFactoryPage := by
  have hmarked : Recoverable g V ((L.cleared formatFactoryPage).marked g .page1 .valid) .page1 := by
    apply recoverable_activated (L.cleared_page2 _)
    · rw [L.cleared_page1]
      exact bare_nil.named
    · rw [L.cleared_page1]
      exact hV
  refine ⟨h.erase_page1, Or.inl (unmarked_erased ?_ Logs.set_self),
    Or.inl (unmarked_erased (L.cleared_page1 _) (L.cleared_page2 _)), Or.inr ⟨_, hmarked⟩,
    Or.inr ⟨_, hmarked.other_formatted⟩⟩
  rw [Logs.set_ne (q := .page1) (p := .page2) nofun, Logs.set_self]

theorem Serves.format (h : Serves g V m F s) (hV : V.Holds g fun _ => none)
    (formatFactoryPage : Bool) :
    wp (format g formatFactoryPage) (fun r t => r = true ∧
      Settled g V (fun _ => none) (if formatFactoryPage then [] else F) t) s := by
  obtain ⟨L, A, b, h, rfl⟩ := h
  apply wp_mono (format_working h.working.sees formatFactoryPage
    (formatSafe_intact h.working.sees.good hV formatFactoryPage))
  rintro r t ⟨rfl, hw, hf⟩
  have hrep : Represents g (fun _ => none) t.ram (L.fresh g formatFactoryPage .page1) := by
    rw [L.fresh_page1]
    exact represents_cleared hf.cache
  exact ⟨rfl, _, _, .settled hw hrep hf.dirty hV, L.fresh_factory _, hf.dirty⟩

/-- What a boot finds on a flash. -/
theorem Booted.settled {L' : Logs} (h : Booted g (Intact g V) L L' A t)
    (hm : ∀ a < g.maxAddress, lookup (L' A) a = m a) (hV : V.Holds g m) :
    Settled g V m (L .factory) t := by
  refine ⟨L', A, ?_, h.factory, h.dirty⟩
  have hrep := represents_mirror h.cache (g := g) fun a _ => h.working.intact.named.lookup_ne a
  refine .settled h.working ⟨?_, ?_, fun _ => hm⟩ h.dirty hV
  · exact fun a ha v hv => hrep.cached a ha v ((hm a ha).trans hv)
  · exact fun a ha hn => hrep.absent a ha ((hm a ha).trans hn)

theorem Recovered.lookup {T : List Entry} (h : Recovered g S T) (hS : Named S)
    (ha : a < g.maxAddress) :
    EmuEeprom.lookup T a = EmuEeprom.lookup S a := by
  rcases h with rfl | ⟨C, rfl, hC⟩
  · rfl
  · rw [hC.lookup ha, lookup_statusBlock, mirror]
    cases hv : EmuEeprom.lookup S a with
    | none => rw [Option.getD_none, if_neg (fun h => h rfl)]
    | some v =>
      rw [Option.getD_some, if_pos]
      exact fun he => hS.lookup_ne a (he ▸ hv)

theorem Recoverable.repairSafe (h : Recoverable g V L A) : RepairSafe (Intact g V) g L A where
  erased := fun _ => Or.inr ⟨A, h.other_set nofun nofun⟩
  formatted := fun _ => Or.inr ⟨A, h.other_set (by rw [lastStatus_formattedBlock]; nofun)
    fun _ => rfl⟩
  transfer := fun _ => by
    have hset := h.other_set (T := []) nofun nofun
    refine hset.transferSafe (by rw [Logs.set_self]; exact bare_nil) ?_
    intro a ha
    dsimp only
    rw [mirror]
    cases hv : lookup (L A) a with
    | none =>
      rw [Option.getD_none, if_neg (fun h => h rfl), ← hv]
      exact h.held a ha
    | some v =>
      have hne : v ≠ erasedValue := fun he => h.named.lookup_ne a (he ▸ hv)
      rw [Option.getD_some, if_pos hne, ← hv]
      exact h.held a ha

/-- `init` over a flash with one valid page exposes what that page holds. -/
theorem Recoverable.init (h : Recoverable g V L A) (hs : Sees g never (Intact g V) L st s) :
    wp (init g) (fun r t => r = true ∧ Settled g V (lookup (L A)) (L .factory) t) s := by
  apply wp_mono (init_valid hs h.runtime h.marked h.other h.spare h.repairSafe)
  rintro r t ⟨rfl, A', L', hboot, hrec⟩
  refine ⟨rfl, hboot.settled (fun a ha => ?_) h.held⟩
  exact hrec.lookup h.named ha

/-- `init` over a flash with no valid page starts empty. -/
theorem Unmarked.init (h : Unmarked L) (hs : Sees g never (Intact g V) L st s)
    (hV : V.Holds g fun _ => none) :
    wp (init g) (fun r t => r = true ∧ Settled g V (fun _ => none) (L .factory) t) s := by
  apply wp_mono (init_none hs (h .page1 nofun) (h .page2 nofun)
    (formatSafe_intact (Or.inl h) hV false))
  rintro r t ⟨rfl, hboot⟩
  refine ⟨rfl, hboot.settled (fun a _ => ?_) hV⟩
  rw [L.fresh_page1, lookup_statusBlock]

theorem Represents.contents_congr (h : Represents g m r S) (hn : ∀ a < g.maxAddress, n a = m a) :
    Represents g n r S where
  cached := fun a ha v hv => h.cached a ha v ((hn a ha).symm.trans hv)
  absent := fun a ha hv => h.absent a ha ((hn a ha).symm.trans hv)
  logged := fun hd a ha => (h.logged hd a ha).trans (hn a ha).symm

/-- Only the addresses of the instance matter. -/
theorem Settled.congr (h : Settled g V m F s) (hn : ∀ a < g.maxAddress, n a = m a) :
    Settled g V n F s := by
  obtain ⟨L, A, hs, hF, hd⟩ := h
  exact ⟨L, A, ⟨hs.working, hs.represents.contents_congr hn, hs.content.congr hn, hs.accepted,
    hs.named⟩,
    hF, hd⟩

theorem Serving.lookup_eq (h : Serving g V m L A [] s) (hd : s.ram.cacheDirty = false)
    (ha : a < g.maxAddress) : lookup (L A) a = m a := by
  have := h.represents.logged hd a ha
  rwa [List.append_nil] at this

/-- What is allowed may change between two operations of a settled store as its contents do. -/
theorem Settled.begin {W : Permitted} (h : Settled g V m F s) (hm : W.Holds g m) :
    Settled g W m F s.beginOperation := by
  obtain ⟨L, A, hs, hF, hd⟩ := h
  have hf : W.Holds g (lookup (L A)) := hm.congr fun a ha => hs.lookup_eq hd ha
  exact ⟨L, A, hs.begin hm hf (by rwa [List.append_nil]), hF, hd⟩

/-- The flash of a settled store shows its contents to any instance. -/
theorem Settled.init_of (h : Settled g V m F s) (ht : ∀ L, Sees g never (Intact g V) L none s →
    Sees g never (Intact g V) L none t) :
    wp (init g) (fun r u => r = true ∧ Settled g V m F u) t := by
  obtain ⟨L, A, hs, rfl, hd⟩ := h
  apply wp_mono (hs.working.intact.init (ht L hs.working.sees))
  rintro r u ⟨rfl, hu⟩
  exact ⟨rfl, hu.congr fun a ha => (hs.lookup_eq hd ha).symm⟩

theorem Settled.init (h : Settled g V m F s) :
    wp (init g) (fun r t => r = true ∧ Settled g V m F t) s := h.init_of fun _ => id

theorem sees_powerUp {flash : Flash} (h : Holds g L flash) (hK : K L) :
    Sees g never K L none (State.powerUp flash never) :=
  ⟨rfl, h, rfl, fun _ he => absurd he List.not_mem_nil, hK⟩

theorem Settled.init_powerUp (h : Settled g V m F s) :
    wp (EmuEeprom.init g) (fun r t => r = true ∧ Settled g V m F t)
      (State.powerUp s.hwa.flash never) :=
  h.init_of fun _ hs => sees_powerUp hs.holds hs.good

theorem readAll_spec (h : Serves g V m F s) (as : List Nat) :
    (readAll g as s).1 = as.map (m.answer g) := by
  induction as generalizing s with
  | nil => rfl
  | cons a as ih =>
    obtain ⟨hr, n, ht⟩ := h.read_answer a
    show (EmuEeprom.read g a s).1 :: (readAll g as (EmuEeprom.read g a s).2).1 = _
    rw [ht, hr, ih (h.atCalls n)]
    rfl

/-- A flash nothing was stored on: as `format` leaves it or erased, with the log `F` on the
factory page. -/
structure Flash.Formatted (g : Geometry) (F : List Entry) (flash : Flash) : Prop where
  runtime : flash .page1 = image (pad g [statusEntry .valid]) ∧
      flash .page2 = image (pad g [statusEntry .formatted]) ∨
    flash .page1 = (fun _ => erasedByte) ∧ flash .page2 = fun _ => erasedByte
  factory : flash .factory = image F
  snapshot : WellFormed g F

theorem blankFlash_formatted : blankFlash.Formatted g [] :=
  ⟨Or.inr ⟨rfl, rfl⟩, image_nil.symm, .nil⟩

theorem wellFormed_statusBlock {x : PageStatus} (hx : x ≠ .erased) :
    WellFormed g (pad g [statusEntry x]) :=
  WellFormed.nil.append (statusBlockOk hx) pageEntries_pos

/-- A formatted flash holds no values. -/
theorem Flash.Formatted.intact {flash : Flash} (h : flash.Formatted g F)
    (hV : V.Holds g fun _ => none) : ∃ L, Holds g L flash ∧ L .factory = F ∧
      (Unmarked L ∨ Recoverable g V L .page1 ∧ ∀ a, lookup (L .page1) a = none) := by
  rcases h.runtime with ⟨h1, h2⟩ | ⟨h1, h2⟩
  · let L : Logs := (Logs.set (fun _ => F) .page1 (pad g [statusEntry .valid])).set .page2
      (pad g [statusEntry .formatted])
    have hholds : Holds g L flash := by
      intro p
      cases p with
      | page1 => exact ⟨h1, wellFormed_statusBlock (by decide)⟩
      | page2 => exact ⟨h2, wellFormed_statusBlock (by decide)⟩
      | factory => exact ⟨h.factory, h.snapshot⟩
    refine ⟨L, hholds, rfl, Or.inr ⟨⟨by decide, lastStatus_validBlock, ?_, fun _ => rfl,
      bare_statusBlock.named, hV.congr fun a _ => lookup_statusBlock⟩, fun _ => lookup_statusBlock⟩⟩
    show lastStatus (pad g [statusEntry .formatted]) ≠ .valid
    rw [lastStatus_formattedBlock]
    decide
  · let L : Logs := (Logs.set (fun _ => F) .page1 []).set .page2 []
    have hholds : Holds g L flash := by
      intro p
      cases p with
      | page1 => exact ⟨h1.trans image_nil.symm, .nil⟩
      | page2 => exact ⟨h2.trans image_nil.symm, .nil⟩
      | factory => exact ⟨h.factory, h.snapshot⟩
    exact ⟨L, hholds, rfl, Or.inl (unmarked_erased rfl rfl)⟩

theorem Flash.Formatted.init {flash : Flash} (h : flash.Formatted g F)
    (hV : V.Holds g fun _ => none) :
    wp (init g) (fun r t => r = true ∧ Settled g V (fun _ => none) F t)
      (State.powerUp flash never) := by
  obtain ⟨L, hL, rfl, hnone | ⟨hrec, hlook⟩⟩ := h.intact hV
  · exact hnone.init (sees_powerUp hL (Or.inl hnone)) hV
  · apply wp_mono (hrec.init (sees_powerUp hL (Or.inr ⟨_, hrec⟩)))
    rintro r t ⟨rfl, ht⟩
    exact ⟨rfl, ht.congr fun a _ => (hlook a).symm⟩

theorem storeSafe_intact (h : Recoverable g V L A) : StoreSafe (Intact g V) g L A :=
  ⟨Or.inr ⟨A, h.factory⟩, fun _ _ => Or.inr ⟨A, h.factory⟩⟩

theorem Settled.storeActive (h : Settled g V m F s) :
    wp (storeActive g) (fun r t => r = true ∧ ∃ L A, Serving g V m L A [] t ∧ L .factory = L A ∧
      t.ram.cacheDirty = false) s := by
  obtain ⟨L, A, hs, rfl, hd⟩ := h
  have hA := hs.working.runtime
  have hlog : L.set .factory (L A) A = L A := Logs.set_ne hA
  apply wp_mono (hs.working.storeActive (storeSafe_intact hs.working.intact))
  rintro r t ⟨rfl, hw, hkept⟩
  refine ⟨rfl, _, A, ⟨hw, ?_, hs.content, ?_, ?_⟩, ?_, hkept.dirty.trans hd⟩
  · exact hs.represents.congr hkept.cache hkept.dirty (by rw [hlog])
  · rw [hlog]
    exact hs.accepted
  · rw [hlog]
    exact hs.named
  · rw [Logs.set_self, hlog]

theorem Serves.storeToFactory (h : Serves g V m F s) :
    wp (storeToFactory g) (fun r t => r = true ∧ ∃ L A, Serving g V m L A [] t ∧
      L .factory = L A ∧ t.ram.cacheDirty = false) s := by
  rw [storeToFactory_eq]
  apply wp_bind_of h.flush
  rintro r t ⟨rfl, ht⟩
  exact ht.storeActive

end Zlibs.EmuEeprom
