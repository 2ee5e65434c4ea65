import Zlibs.EmuEeprom.Availability

/-! A program that keeps to some of the pages does the same whatever is on the others. -/
namespace Zlibs.EmuEeprom

open Zlibs.Lib

variable {g : Geometry} {D : Page → Prop} {s t : State} {p q : Page} {α β : Type} {x y : M α}

/-- The same members, and the same on the pages of `D`, over a backend that never fails. -/
structure Agree (D : Page → Prop) (s t : State) : Prop where
  ram : s.ram = t.ram
  left : s.hwa.fails = never
  right : t.hwa.fails = never
  flash : ∀ p, D p → s.hwa.flash p = t.hwa.flash p
  block : s.ram.writeBlockDirty = true → D s.ram.writeBlockPage

/-- A program that depends on the pages of `D` only, and leaves the others alone. -/
def Local (D : Page → Prop) (x : M α) : Prop :=
  ∀ s t, Agree D s t → (x s).1 = (x t).1 ∧ Agree D (x s).2 (x t).2 ∧
    ∀ p, ¬ D p → (x s).2.hwa.flash p = s.hwa.flash p

theorem local_pure (a : α) : Local D (pure a : M α) := fun _ _ h => ⟨rfl, h, fun _ _ => rfl⟩

theorem local_bind {k : α → M β} (hx : Local D x) (hk : ∀ a, Local D (k a)) :
    Local D (x >>= k) := by
  intro s t h
  obtain ⟨hr, hs, hf⟩ := hx s t h
  obtain ⟨hr', hs', hf'⟩ := hk (x s).1 _ _ hs
  rw [hr] at hr' hs'
  refine ⟨?_, ?_, ?_⟩
  · change (k (x s).1 (x s).2).1 = (k (x t).1 (x t).2).1
    rw [hr]
    exact hr'
  · change Agree D (k (x s).1 (x s).2).2 (k (x t).1 (x t).2).2
    rw [hr]
    exact hs'
  · intro p hp
    exact (hf' p hp).trans (hf p hp)

theorem local_ite {c : Prop} [Decidable c] (hx : c → Local D x) (hy : ¬ c → Local D y) :
    Local D (if c then x else y) := by
  split
  · exact hx ‹_›
  · exact hy ‹_›

theorem local_get {k : State → M α} (hk : ∀ s t, s.ram = t.ram → k s = k t)
    (h : ∀ s, (s.ram.writeBlockDirty = true → D s.ram.writeBlockPage) → Local D (k s)) :
    Local D (get >>= k) := by
  intro s t hst
  have hsame : (get >>= k : M α) t = k s t := congrFun (hk t s hst.ram.symm) t
  rw [hsame]
  exact h s hst.block s t hst

theorem local_modifyRam {f : Ram → Ram} (hf : ∀ r : Ram,
    (r.writeBlockDirty = true → D r.writeBlockPage) →
      (f r).writeBlockDirty = true → D (f r).writeBlockPage) : Local D (modifyRam f) := by
  intro s t h
  exact ⟨rfl, ⟨congrArg f h.ram, h.left, h.right, h.flash, hf _ h.block⟩, fun _ _ => rfl⟩

theorem local_hwaRead (hp : D p) (offset size : Nat) : Local D (hwaRead p offset size) := by
  intro s t h
  refine ⟨?_, ⟨h.ram, h.left, h.right, h.flash, h.block⟩, fun _ _ => rfl⟩
  simp only [hwaRead, liftHwa, Hwa.read, h.left, h.right, h.flash p hp, never]

theorem local_issue {call : HwaCall} {effect : Hwa → Flash}
    (heffect : ∀ s t : State, (∀ q, D q → s.hwa.flash q = t.hwa.flash q) → ∀ q, D q →
      effect s.hwa q = effect t.hwa q)
    (hothers : ∀ h q, ¬ D q → effect h q = h.flash q) :
    Local D (liftHwa fun h => h.issue call (effect h)) := by
  intro s t h
  have hs : s.hwa.fails s.hwa.calls call = false := by rw [h.left]; rfl
  have ht : t.hwa.fails t.hwa.calls call = false := by rw [h.right]; rfl
  simp only [liftHwa, Hwa.issue, hs, ht]
  refine ⟨trivial, ⟨h.ram, h.left, h.right, ?_, h.block⟩, ?_⟩
  · intro q hq
    exact heffect s t h.flash q hq
  · intro q hq
    exact hothers s.hwa q hq

theorem local_hwaErasePage (hp : D p) : Local D (hwaErasePage p) := by
  apply local_issue
  · intro s t h q hq
    simp only [Flash.erase, Flash.setPage]
    split
    · rfl
    · exact h q hq
  · intro h q hq
    exact if_neg (by rintro rfl; exact hq hp)

theorem local_hwaWrite (hp : D p) (offset : Nat) (data : Span) :
    Local D (hwaWrite p offset data) := by
  apply local_issue
  · intro s t h q hq
    simp only [Flash.program, Flash.setPage]
    split
    · rw [h p hp]
    · exact h q hq
  · intro h q hq
    exact if_neg (by rintro rfl; exact hq hp)

/-- A local program ends as it does from a state that agrees. -/
theorem wp_local {P : α → State → Prop} (hx : Local D x) (h : Agree D s t) (ht : wp x P t) :
    wp x (fun r u => (∃ v, P r v ∧ Agree D u v) ∧
      ∀ p, ¬ D p → u.hwa.flash p = s.hwa.flash p) s := by
  obtain ⟨hr, hs, hf⟩ := hx s t h
  refine ⟨⟨(x t).2, ?_, hs⟩, hf⟩
  rw [hr]
  exact ht

/-- The same members over a flash that holds these logs. -/
def State.over (s : State) (N : Logs) : State := ⟨s.ram, ⟨fun p => image (N p), never, 0, []⟩⟩

theorem sees_over {N : Logs} (hN : ∀ p, WellFormed g (N p)) (hidle : s.ram.writeBlockDirty = false) :
    Sees g never Always N none (s.over N) where
  faults := rfl
  holds := fun p => ⟨rfl, hN p⟩
  staged := hidle
  traced := fun _ he => by cases he
  good := trivial

theorem agree_over {N : Logs} (hf : s.hwa.fails = never) (h : ∀ p, D p → s.hwa.flash p = image (N p))
    (hidle : s.ram.writeBlockDirty = false) : Agree D s (s.over N) where
  ram := rfl
  left := hf
  right := rfl
  flash := h
  block := fun hd => by rw [hidle] at hd; cases hd

/-- A change that leaves the write block alone. -/
theorem local_keep {f : Ram → Ram} (hd : ∀ r, (f r).writeBlockDirty = r.writeBlockDirty)
    (hp : ∀ r, (f r).writeBlockPage = r.writeBlockPage) : Local D (modifyRam f) := by
  apply local_modifyRam
  intro r h hdirty
  rw [hp]
  exact h (hd r ▸ hdirty)

theorem local_clearWriteBlock : Local D (modifyRam Ram.clearWriteBlock) :=
  local_modifyRam fun _ _ h => by cases h

theorem local_flushWriteBlock : Local D (flushWriteBlock g) := by
  rw [flushWriteBlock]
  apply local_get
  · intro s t h
    simp only [h]
  intro s hs
  apply local_ite
  · intro _
    exact local_pure _
  intro hdirty
  have hpage : D s.ram.writeBlockPage := hs (by simpa using hdirty)
  refine local_bind (local_hwaWrite hpage _ _) fun written => ?_
  apply local_ite
  · intro _
    exact local_pure _
  intro _
  apply local_ite
  · intro _
    exact local_bind (local_keep (fun _ => rfl) fun _ => rfl) fun _ =>
      local_bind local_clearWriteBlock fun _ => local_pure _
  · intro _
    exact local_bind local_clearWriteBlock fun _ => local_pure _

theorem local_writeEntry (hp : D p) (offset : Nat) (entry : Entry) :
    Local D (writeEntry g p offset entry) := by
  have hstage : ∀ blockOffset, Local D (modifyRam (·.stageBlock p blockOffset)) := fun _ =>
    local_modifyRam fun _ _ _ => hp
  have hend : Local D (do
      modifyRam (·.stageEntry (offset - offset / g.writeBlockSize * g.writeBlockSize) entry)
      if (← get).ram.writeBlockEntries ≥ g.entriesPerBlock then
        if !(← flushWriteBlock g) then
          return WriteStatus.writeError
      return WriteStatus.ok) := by
    refine local_bind (local_keep (fun _ => rfl) fun _ => rfl) fun _ => ?_
    apply local_get
    · intro s t h
      simp only [h]
    intro s _
    apply local_ite
    · intro _
      refine local_bind local_flushWriteBlock fun flushed => ?_
      apply local_ite
      · intro _
        exact local_pure _
      · intro _
        exact local_pure _
    · intro _
      exact local_pure _
  have hblock : Local D (do
      if !(← get).ram.writeBlockDirty then
        modifyRam (·.stageBlock p (offset / g.writeBlockSize * g.writeBlockSize))
      modifyRam (·.stageEntry (offset - offset / g.writeBlockSize * g.writeBlockSize) entry)
      if (← get).ram.writeBlockEntries ≥ g.entriesPerBlock then
        if !(← flushWriteBlock g) then
          return WriteStatus.writeError
      return WriteStatus.ok) := by
    apply local_get
    · intro s t h
      simp only [h]
    intro s _
    apply local_ite
    · intro _
      exact local_bind (hstage _) fun _ => hend
    · intro _
      exact hend
  rw [writeEntry]
  apply local_ite
  · intro _
    exact local_pure _
  intro _
  apply local_ite
  · intro _
    exact local_pure _
  intro _
  apply local_get
  · intro s t h
    simp only [h]
  intro s _
  apply local_ite
  · intro _
    refine local_bind local_flushWriteBlock fun flushed => ?_
    apply local_ite
    · intro _
      exact local_pure _
    · intro _
      exact hblock
  · intro _
    exact hblock

theorem local_scanErasedBlock (hp : D p) (offsets : List Nat) :
    Local D (scanErasedBlock g p offsets) := by
  induction offsets with
  | nil => exact local_pure _
  | cons offset rest ih =>
    rw [scanErasedBlock]
    refine local_bind (local_hwaRead hp _ _) fun buffer => ?_
    cases buffer with
    | none => exact local_pure _
    | some buffer =>
      dsimp only
      split
      · exact local_pure _
      · exact ih

theorem local_findNextFreeOffset (hp : D p) : Local D (findNextFreeOffset g p) :=
  local_bind (local_scanErasedBlock hp _) fun _ => local_pure _

theorem local_refreshNextWriteOffset (hp : D p) : Local D (refreshNextWriteOffset g p) := by
  refine local_bind (local_scanErasedBlock hp _) fun found => ?_
  have hset : ∀ offset, Local D (modifyRam (·.setNextWriteOffset p offset)) := fun _ =>
    local_keep (fun _ => rfl) fun _ => rfl
  cases found with
  | none => exact local_pure _
  | some offset =>
    cases offset with
    | none => exact local_bind (hset _) fun _ => local_pure _
    | some offset => exact local_bind (hset _) fun _ => local_pure _

theorem local_writePageStatus (hp : D p) (status : PageStatus) :
    Local D (writePageStatus g p status) := by
  have hset : Local D (modifyRam (·.setPageStatus p status)) :=
    local_keep (fun _ => rfl) fun _ => rfl
  rw [writePageStatus]
  refine local_bind local_flushWriteBlock fun flushed => ?_
  apply local_ite
  · intro _
    exact local_pure _
  intro _
  refine local_bind (local_findNextFreeOffset hp) fun offset => ?_
  cases offset with
  | none => exact local_pure _
  | some offset =>
    refine local_bind (local_writeEntry hp _ _) fun written => ?_
    apply local_ite
    · intro _
      exact local_pure _
    intro _
    refine local_bind local_flushWriteBlock fun flushed => ?_
    apply local_ite
    · intro _
      exact local_pure _
    intro _
    apply local_get
    · intro s t h
      simp only [h]
    intro s _
    apply local_ite
    · intro _
      exact local_bind (local_keep (fun _ => rfl) fun _ => rfl) fun _ =>
        local_bind hset fun _ => local_pure _
    · intro _
      exact local_bind hset fun _ => local_pure _

theorem local_activate (h1 : D .page1) (h2 : D .page2) : Local D (activate g) := by
  rw [activate]
  refine local_bind (local_writePageStatus h1 _) fun written => ?_
  apply local_ite
  · intro _
    exact local_pure _
  intro _
  refine local_bind (local_writePageStatus h2 _) fun written => ?_
  apply local_ite
  · intro _
    exact local_pure _
  · intro _
    exact local_bind (local_keep (fun _ => rfl) fun _ => rfl) fun _ => local_pure _

theorem local_appendEntry (hp : D p) (offset : Nat) (entry : Entry) :
    Local D (appendEntry g p offset entry) := by
  rw [appendEntry]
  refine local_bind (local_writeEntry hp _ _) fun status => ?_
  apply local_ite
  · intro _
    exact local_pure _
  · intro _
    exact local_bind (local_keep (fun _ => rfl) fun _ => rfl) fun _ =>
      local_bind (local_keep (fun _ => rfl) fun _ => rfl) fun _ => local_pure _

theorem local_writeInternal (hD : ∀ q, q ≠ .factory → D q) (entry : Entry) :
    Local D (writeInternal g entry false) := by
  rw [writeInternal]
  apply local_ite
  · intro _
    exact local_pure _
  intro _
  rw [if_neg Bool.false_ne_true]
  apply local_get
  · intro s t h
    simp only [h]
  intro s _
  dsimp only
  cases hpage : findValidPage s.ram.pageStatusCache .write with
  | none => exact local_pure _
  | some page =>
    have hp : D page := hD page (by rintro rfl; exact findValidPage_runtime hpage)
    dsimp only
    apply local_ite
    · intro _
      apply local_ite
      · intro _
        exact local_pure _
      · intro _
        exact local_appendEntry hp _ _
    · intro _
      refine local_bind (local_refreshNextWriteOffset hp) fun found => ?_
      apply local_ite
      · intro _
        exact local_pure _
      intro _
      apply local_get
      · intro s t h
        simp only [h]
      intro s _
      apply local_ite
      · intro _
        exact local_pure _
      · intro _
        exact local_appendEntry hp _ _

theorem local_transferEntries (hD : ∀ q, q ≠ .factory → D q) (addresses : List Nat) :
    Local D (transferEntries g addresses) := by
  induction addresses with
  | nil => exact local_pure _
  | cons address rest ih =>
    rw [transferEntries]
    apply local_get
    · intro s t h
      simp only [h]
    intro s _
    apply local_ite
    · intro _
      exact ih
    · intro _
      refine local_bind (local_writeInternal hD _) fun status => ?_
      apply local_ite
      · intro _
        exact local_pure _
      · intro _
        exact ih

theorem local_cacheEntries (buffer : Span) (base : Nat) (entries : List Nat) :
    Local D (cacheEntries g buffer base entries) := by
  induction entries with
  | nil => exact local_pure _
  | cons entry rest ih =>
    rw [cacheEntries]
    apply local_ite
    · intro _
      exact ih
    intro _
    apply local_ite
    · intro _
      exact ih
    intro _
    apply local_ite
    · intro _
      exact local_pure _
    · intro _
      exact local_bind (local_keep (fun _ => rfl) fun _ => rfl) fun _ => ih

theorem local_cacheWriteBlocks (buffer : Span) (offset : Nat) (blocks : List Nat) :
    Local D (cacheWriteBlocks g p buffer offset blocks) := by
  induction blocks with
  | nil => exact local_pure _
  | cons within rest ih =>
    rw [cacheWriteBlocks]
    apply local_ite
    · intro _
      exact local_bind (local_keep (fun _ => rfl) fun _ => rfl) fun _ =>
        local_bind local_clearWriteBlock fun _ => local_pure _
    intro _
    refine local_bind (local_keep (fun _ => rfl) fun _ => rfl) fun _ => ?_
    refine local_bind (local_cacheEntries _ _ _) fun known => ?_
    apply local_ite
    · intro _
      exact local_pure _
    · intro _
      exact ih

theorem local_cacheReadBlocks (hp : D p) (offsets : List Nat) :
    Local D (cacheReadBlocks g p offsets) := by
  induction offsets with
  | nil => exact local_bind local_clearWriteBlock fun _ => local_pure _
  | cons offset rest ih =>
    rw [cacheReadBlocks]
    refine local_bind (local_hwaRead hp _ _) fun buffer => ?_
    cases buffer with
    | none => exact local_pure _
    | some buffer =>
      refine local_bind (local_cacheWriteBlocks _ _ _) fun result => ?_
      cases result with
      | none => exact ih
      | some result => exact local_pure _

theorem local_cache (hD : ∀ q, q ≠ .factory → D q) : Local D (cache g) := by
  rw [cache]
  refine local_bind local_clearWriteBlock fun _ => ?_
  refine local_bind (local_keep (fun _ => rfl) fun _ => rfl) fun _ => ?_
  refine local_bind (local_keep (fun _ => rfl) fun _ => rfl) fun _ => ?_
  apply local_get
  · intro s t h
    simp only [h]
  intro s _
  cases hpage : findValidPage s.ram.pageStatusCache .read with
  | none => exact local_pure _
  | some page => exact local_cacheReadBlocks (hD page (by rintro rfl; exact findValidPage_runtime hpage)) _

theorem local_pageTransfer (hD : ∀ q, q ≠ .factory → D q) : Local D (pageTransfer g) := by
  rw [pageTransfer]
  refine local_bind local_flushWriteBlock fun flushed => ?_
  apply local_ite
  · intro _
    exact local_pure _
  intro _
  apply local_get
  · intro s t h
    simp only [h]
  intro s _
  cases hpage : findValidPage s.ram.pageStatusCache .read with
  | none => exact local_pure _
  | some oldPage =>
    have hold : D oldPage := hD oldPage (by rintro rfl; exact findValidPage_runtime hpage)
    have hnew : D oldPage.other := hD _ Page.other_runtime
    dsimp only
    apply local_ite
    · intro _
      exact local_pure _
    intro _
    refine local_bind (local_writePageStatus hnew _) fun written => ?_
    apply local_ite
    · intro _
      exact local_pure _
    intro _
    refine local_bind (local_keep (fun _ => rfl) fun _ => rfl) fun _ => ?_
    refine local_bind (local_transferEntries hD _) fun status => ?_
    apply local_ite
    · intro _
      exact local_pure _
    intro _
    refine local_bind local_flushWriteBlock fun flushed => ?_
    apply local_ite
    · intro _
      exact local_pure _
    intro _
    refine local_bind (local_hwaErasePage hold) fun erased => ?_
    apply local_ite
    · intro _
      exact local_pure _
    intro _
    refine local_bind (local_writePageStatus hold _) fun written => ?_
    apply local_ite
    · intro _
      exact local_pure _
    intro _
    refine local_bind (local_writePageStatus hnew _) fun written => ?_
    apply local_ite
    · intro _
      exact local_pure _
    intro _
    refine local_bind (local_cache hD) fun cached => ?_
    apply local_ite
    · intro _
      exact local_pure _
    · intro _
      exact local_bind (local_keep (fun _ => rfl) fun _ => rfl) fun _ => local_pure _

end Zlibs.EmuEeprom
