import Zlibs.EmuEeprom.History
import Zlibs.EmuEeprom.Serving

/-! The course of one operation on a flash with a valid page: a transfer erases that page, formats
it and marks the other one valid. -/
namespace Zlibs.EmuEeprom

open Zlibs.Lib

variable {g : Geometry} {K : Logs → Prop} {L L' : Logs} {s t : State} {S T b c vals : List Entry}
  {A p : Page} {e : Entry} {n : Nat} {call : HwaCall} {flash last : Flash} {V : Permitted}

/-- The page that an erase or a write changes. -/
def HwaCall.target : HwaCall → Option Page
  | .erasePage p => some p
  | .write p _ _ => some p
  | _ => none

def HwaCall.onRuntime (call : HwaCall) : Bool := call.target.any (· ≠ .factory)

/-- The erase of a page, or the record that it is formatted, written to its start. -/
def HwaCall.Retires (g : Geometry) (A : Page) : HwaCall → Prop
  | .erasePage p => p = A
  | .write p offset data =>
    p = A ∧ offset = 0 ∧ ∀ i < g.writeBlockSize, data.data i = image [statusEntry .formatted] i
  | _ => False

/-- The operations that power loss is about. -/
def Operation.Durable : Operation → Prop
  | .init => True
  | .write entry _ => entry.value ≠ erasedValue
  | .flush => True
  | .pageTransfer => True
  | _ => False

/-- The moments of an operation that finds page `A` valid. A transfer has copied all it copies when
`n` entries are on the other page. -/
inductive Course (g : Geometry) (A : Page) (n : Nat) (L : Logs) : Prop
  | before (hm : lastStatus (L A) = .valid) (ho : lastStatus (L A.other) ≠ .valid)
  | retired (hA : L A = [] ∨ L A = pad g [statusEntry .formatted])
      (hr : lastStatus (L A.other) = .receiving) (hn : (live (L A.other)).length = n)
  | after (hA : L A = pad g [statusEntry .formatted]) (hm : lastStatus (L A.other) = .valid)
      (hn : n < (live (L A.other)).length)

theorem HwaCall.Retires.target (h : call.Retires g A) : call.target = some A := by
  cases call with
  | erasePage p => exact congrArg some h
  | write p offset data => exact congrArg some h.1
  | init => exact h.elim
  | read => exact h.elim

theorem pad_ne_nil : pad g c ≠ [] := by
  have hpos := g.entriesPerBlock_pos
  intro h
  have hlen := congrArg List.length h
  rw [pad, List.length_append, List.length_replicate, List.length_nil] at hlen
  omega

/-- The bytes of a block tell what is in its slots. -/
theorem pad_eq_of_image (hc : c.length ≤ g.entriesPerBlock) (hb : b.length ≤ g.entriesPerBlock)
    (h : ∀ i < g.writeBlockSize, image c i = image b i) : pad g c = pad g b := by
  have hslot : ∀ k < g.entriesPerBlock, c.getD k erasedEntry = b.getD k erasedEntry := by
    intro k hk
    have hsize := g.writeBlockSize_eq
    rw [← deserializeEntry_image (S := b) (k := k) (d := ⟨4, fun i => image c (4 * k + i)⟩)
      fun i hi => h _ (by omega)]
    exact (deserializeEntry_image fun _ _ => rfl).symm
  have hget : ∀ S : List Entry, S.length ≤ g.entriesPerBlock → ∀ k < g.entriesPerBlock,
      (pad g S)[k]? = some (S.getD k erasedEntry) := by
    intro S hS k hk
    rw [pad, List.getElem?_append]
    split
    case isTrue hlt => rw [List.getElem?_eq_getElem hlt, List.getD_eq_getElem _ _ hlt]
    case isFalse hge =>
      rw [List.getElem?_replicate, if_pos (by omega), List.getD_eq_default _ _ (by omega)]
  refine List.ext_getElem? fun k => ?_
  rcases Nat.lt_or_ge k g.entriesPerBlock with hk | hk
  · rw [hget c hc k hk, hget b hb k hk, hslot k hk]
  · rw [List.getElem?_eq_none (by rw [length_pad hc]; exact hk),
      List.getElem?_eq_none (by rw [length_pad hb]; exact hk)]

theorem Course.retired_of_unmarked (h : Course g A n L) (hA : A ≠ .factory) (hu : Unmarked L) :
    (L A = [] ∨ L A = pad g [statusEntry .formatted]) ∧ lastStatus (L A.other) = .receiving ∧
      (live (L A.other)).length = n := by
  cases h with
  | before hm => exact absurd hm (hu A hA)
  | retired hA hr hn => exact ⟨hA, hr, hn⟩
  | after _ hm => exact absurd hm (hu A.other Page.other_runtime)

/-- On an empty page of the course, the other one is a whole copy. -/
theorem Course.receiving_of_nil (h : Course g A n L) (hL : L A = []) :
    lastStatus (L A.other) = .receiving := by
  cases h with
  | before hm =>
    rw [hL, lastStatus_nil] at hm
    cases hm
  | retired _ hr => exact hr
  | after hA => exact absurd (hA.symm.trans hL) pad_ne_nil

theorem live_length_pos (h : BlockOk g c) : 0 < (live c).length := by
  obtain ⟨e, he, hne⟩ := h.used
  exact List.length_pos_of_mem (List.mem_filter.mpr ⟨he, by simpa using hne⟩)

theorem image_pad : image (pad g c) = image c := by
  have h := image_append_pad (g := g) (S := []) (c := c)
  rwa [List.nil_append, List.nil_append] at h

theorem lastStatus_retired (h : S = [] ∨ S = pad g [statusEntry .formatted]) :
    lastStatus S ≠ .valid := by
  rcases h with rfl | rfl
  · rw [lastStatus_nil]
    nofun
  · rw [lastStatus_formattedBlock]
    nofun

/-- A block is written to a page of the course after which no page is valid. -/
theorem Course.retires_of_write (h : Course g A n L) (hA : A ≠ .factory) (hp : p ≠ .factory)
    (hc : BlockOk g c) (h' : Course g A n (L.set p (L p ++ pad g c)))
    (hu : Unmarked (L.set p (L p ++ pad g c))) :
    p = A ∧ L p = [] ∧ pad g c = pad g [statusEntry .formatted] := by
  have hne := Page.other_ne hA
  obtain ⟨hA', -, hn'⟩ := h'.retired_of_unmarked hA hu
  rcases runtime_cases hA hp with rfl | rfl
  · rw [Logs.set_self] at hA'
    rcases hA' with hA' | hA'
    · exact absurd (List.append_eq_nil_iff.mp hA').2 pad_ne_nil
    · have hlen := congrArg List.length hA'
      rw [List.length_append, length_pad hc.fits, length_pad_status] at hlen
      have hnil : L p = [] := List.length_eq_zero_iff.mp (by omega)
      rw [hnil, List.nil_append] at hA'
      exact ⟨rfl, hnil, hA'⟩
  · rw [Logs.set_self, live_append, live_pad, List.length_append] at hn'
    rw [Logs.set_ne hne.symm] at hA'
    have hpos := live_length_pos hc
    cases h with
    | before hm => exact absurd hm (lastStatus_retired hA')
    | retired _ _ hn => omega
    | after _ _ hn => omega

theorem Course.retires_of_unmarked (h : Course g A n L) (h' : Course g A n L') (hA : A ≠ .factory)
    (hm : Moves g L L' call) (hr : call.onRuntime = true) (hu : Unmarked L') :
    call.Retires g A := by
  cases call with
  | erasePage p =>
    obtain rfl : L' = L.set p [] := hm
    rcases runtime_cases hA (by simpa [HwaCall.onRuntime, HwaCall.target] using hr) with rfl | rfl
    · exact rfl
    · obtain ⟨-, hr', -⟩ := h'.retired_of_unmarked hA hu
      rw [Logs.set_self, lastStatus_nil] at hr'
      exact nomatch hr'
  | write p offset data =>
    obtain ⟨hoffset, c, hc, hd, rfl⟩ := hm
    obtain ⟨rfl, hnil, hblock⟩ :=
      h.retires_of_write hA (by simpa [HwaCall.onRuntime, HwaCall.target] using hr) hc h' hu
    rw [hnil, List.length_nil] at hoffset
    refine ⟨rfl, hoffset, fun i hi => ?_⟩
    rw [hd i hi, ← image_pad (g := g), hblock, image_pad]
  | init => exact hm.elim
  | read => exact hm.elim

theorem Course.unmarked_of_retires (h : Course g A n L) (h' : Course g A n L') (hA : A ≠ .factory)
    (hm : Moves g L L' call) (hr : call.Retires g A) : Unmarked L' := by
  cases call with
  | erasePage p =>
    obtain rfl : p = A := hr
    obtain rfl : L' = L.set p [] := hm
    refine unmarked_of hA (lastStatus_retired (g := g) (.inl Logs.set_self)) ?_
    rw [h'.receiving_of_nil Logs.set_self]
    nofun
  | write p offset data =>
    obtain ⟨rfl, rfl, hformatted⟩ := hr
    obtain ⟨hoffset, c, hc, hd, rfl⟩ := hm
    have hnil : L p = [] := List.length_eq_zero_iff.mp (by omega)
    have hblock : pad g c = pad g [statusEntry .formatted] :=
      pad_eq_of_image hc.fits g.entriesPerBlock_pos fun i hi =>
        (hd i hi).symm.trans (hformatted i hi)
    refine unmarked_of hA (lastStatus_retired (g := g) (.inr ?_)) ?_
    · rw [Logs.set_self, hnil, List.nil_append, hblock]
    · rw [Logs.set_ne (Page.other_ne hA), h.receiving_of_nil hnil]
      nofun
  | init => exact hm.elim
  | read => exact hm.elim

/-- An erase or a write of a runtime page leaves no valid page exactly where it retires the one that
was valid at first. -/
theorem Course.unmarked_iff (h : Course g A n L) (h' : Course g A n L') (hA : A ≠ .factory)
    (hm : Moves g L L' call) (hr : call.onRuntime = true) : Unmarked L' ↔ call.Retires g A :=
  ⟨h.retires_of_unmarked h' hA hm hr, h.unmarked_of_retires h' hA hm⟩

/-- A new instance asks the flash for the statuses of its pages. -/
theorem pageStatus_powerUp (hL : Holds g L flash) (p : Page) :
    (pageStatus g p (State.powerUp flash never)).1 = lastStatus (L p) := by
  have hs : Sees g never (fun _ => True) L none (State.powerUp flash never) :=
    sees_powerUp hL trivial
  have hstatus := refreshPageStatus_atRest hs (atRest_zero rfl) p
  have hrun : wp (pageStatus g p) (fun r _ => r = lastStatus (L p))
      (State.powerUp flash never) := by
    apply wp_bind_of hstatus
    rintro r t ⟨_, _, _, _, ⟨rfl, ht⟩ | ⟨_, hfault, _⟩⟩
    · show t.ram.pageStatusCache p = _
      rw [ht]
      simp [Ram.setPageStatus]
    · exact absurd hfault not_readFault
  exact hrun

/-- The flash has one status for a page, whatever log it is taken for. -/
theorem Holds.lastStatus_eq (hL : Holds g L flash) (hL' : Holds g L' flash) (p : Page) :
    lastStatus (L p) = lastStatus (L' p) := by
  rw [← pageStatus_powerUp hL, ← pageStatus_powerUp hL']

theorem Holds.unmarked_iff (hL : Holds g L flash) (hL' : Holds g L' flash) :
    Unmarked L ↔ Unmarked L' :=
  forall₂_congr fun p _ => by rw [hL.lastStatus_eq hL' p]

theorem Moves.runtime_same (hm : Moves g L L' call) (hr : call.onRuntime = false)
    (hp : p ≠ .factory) : L' p = L p := by
  cases call with
  | erasePage q =>
    obtain rfl : q = .factory := by simpa [HwaCall.onRuntime, HwaCall.target] using hr
    obtain rfl : L' = L.set .factory [] := hm
    exact Logs.set_ne hp
  | write q offset data =>
    obtain rfl : q = .factory := by simpa [HwaCall.onRuntime, HwaCall.target] using hr
    obtain ⟨-, c, -, -, rfl⟩ := hm
    exact Logs.set_ne hp
  | init => exact hm.elim
  | read => exact hm.elim

/-- The last erase or write of a runtime page decides whether the flash has a valid page. -/
theorem unmarked_iff_retires {L₀ : Logs} {done : List Event} (hA : A ≠ .factory)
    (hstart : Holds g L₀ flash) (hvalid : lastStatus (L₀ A) = .valid)
    (hlead : Leads flash done last) (hsafe : ∀ e ∈ done, Safe g never (Course g A n) e)
    (hL : Holds g L last) :
    Unmarked L ↔ ∃ e, done.find? (fun e => e.call.onRuntime) = some e ∧ e.call.Retires g A := by
  induction done generalizing last L with
  | nil =>
    obtain rfl : last = flash := hlead
    refine iff_of_false (fun hu => hu A hA ?_) (by simp)
    rw [hL.lastStatus_eq hstart, hvalid]
  | cons e done ih =>
    obtain ⟨rfl, hlead⟩ := hlead
    obtain ⟨he, hsafe⟩ := List.forall_mem_cons.mp hsafe
    obtain ⟨-, L₁, L₂, hL₁, h₁, hL₂, h₂, hmoves | ⟨_, hfail⟩⟩ := he
    case inr => cases hfail
    rw [hL.unmarked_iff hL₂]
    cases hr : e.call.onRuntime with
    | true =>
      rw [h₁.unmarked_iff h₂ hA hmoves hr]
      simp [hr]
    | false =>
      rw [List.find?_cons_of_neg (by simp [hr]), ← ih hlead hsafe hL₁]
      exact forall₂_congr fun p hp => by rw [hmoves.runtime_same hr hp]

/-- A transfer out of the valid page takes its course. -/
theorem course_transfer (hA : A ≠ .factory) (hm : lastStatus (L A) = .valid)
    (ho : lastStatus (L A.other) ≠ .valid) (hs : Silent vals) :
    TransferSafe (Course g A ((live (L A.other ++ pad g [statusEntry .receiving])).length +
      vals.length)) g L A vals := by
  have hne := Page.other_ne hA
  have hmarked : L.marked g A.other .receiving A.other =
      L A.other ++ pad g [statusEntry .receiving] := Logs.set_self
  have hlength : ∀ T, Transferred g (L.marked g A.other .receiving A.other) vals T →
      (live T).length = (live (L A.other ++ pad g [statusEntry .receiving])).length +
        vals.length := by
    intro T hT
    rw [hT.content, hmarked, List.length_append]
  have hstatus : ∀ T, Transferred g (L.marked g A.other .receiving A.other) vals T →
      lastStatus T = .receiving := fun T hT =>
    lastStatus_copying hs (List.prefix_refl _) (hmarked ▸ hT.content)
  refine ⟨.before hm ho, ?_, ?_, ?_, ?_⟩
  · rintro T ⟨n, hn, hT⟩
    rw [List.append_nil, hmarked] at hT
    refine .before ?_ ?_
    · rw [Logs.set_ne hne.symm, hm]
    · rw [Logs.set_self, lastStatus_copying hs hn hT]
      nofun
  · intro T hT
    refine .retired (.inl Logs.set_self) ?_ ?_
    · rw [Logs.set_ne hne, Logs.set_self, hstatus T hT]
    · rw [Logs.set_ne hne, Logs.set_self, hlength T hT]
  · intro T hT
    refine .retired (.inr Logs.set_self) ?_ ?_
    · rw [Logs.set_ne hne, Logs.set_self, hstatus T hT]
    · rw [Logs.set_ne hne, Logs.set_self, hlength T hT]
  · intro T hT
    refine .after Logs.set_self ?_ ?_
    · rw [Logs.set_ne hne, Logs.set_self]
      exact lastStatus_append_statusEntry nofun
    · have hvalid : 0 < (live (pad g [statusEntry .valid])).length := by
        rw [live_pad]
        decide
      rw [Logs.set_ne hne, Logs.set_self, ← hlength T hT, live_append (S := T), List.length_append]
      omega

/-- How many entries a transfer out of a working page leaves on the other one. -/
def copyLength (g : Geometry) (r : Ram) : Nat :=
  (live (receivingLog g)).length + (dumped g r).length

theorem Working.spare_unmarked (h : Working g K L A b s) : lastStatus (L A.other) ≠ .valid := by
  rw [h.spare, lastStatus_formattedBlock]
  nofun

theorem Working.flushed_valid (h : Working g K L A b s) :
    lastStatus (L.flushed g (stage A b) A) = .valid := by
  rw [lastStatus_congr live_stage, h.tail.silent.lastStatus, h.marked]

theorem Working.course (h : Working g K L A b s) : Course g A n (L.flushed g (stage A b)) := by
  refine .before h.flushed_valid ?_
  rw [stage_other (Page.other_ne h.runtime)]
  exact h.spare_unmarked

theorem Working.course_transfer (h : Working g K L A b s) :
    TransferSafe (Course g A (copyLength g s.ram)) g (L.flushed g (stage A b)) A
      (dumped g s.ram) := by
  have hspare : L.flushed g (stage A b) A.other = pad g [statusEntry .formatted] := by
    rw [stage_other (Page.other_ne h.runtime), h.spare]
  have hsilent : Silent (dumped g s.ram) := silent_copied fun _ ha => List.mem_range.mp ha
  have hcourse := EmuEeprom.course_transfer (g := g) h.runtime h.flushed_valid
    (by rw [hspare, lastStatus_formattedBlock]; nofun) hsilent
  rwa [hspare] at hcourse

theorem Working.course_write (h : Working g K L A b s) (he : e.address ≠ reservedStatusAddress) :
    WriteSafe (Course g A (copyLength g s.ram)) g L A b e s.ram := by
  have hne := Page.other_ne h.runtime
  have hlast : ∀ {T S : List Entry}, live T = live S ++ [e] → lastStatus T = lastStatus S := by
    intro T S hT
    have hlive : live T = live (S ++ [e]) := by
      rw [hT, live_append, live_singleton (user_ne_erased he)]
    rw [lastStatus_congr hlive, (Silent.singleton (user_silent he)).lastStatus]
  refine ⟨h.course, fun T hT => ?_, h.course_transfer, fun T hT T' hT' => ?_⟩
  · refine .before ?_ ?_
    · rw [Logs.set_self, hlast hT, h.tail.silent.lastStatus, h.marked]
    · rw [Logs.set_ne hne]
      exact h.spare_unmarked
  · refine .after ?_ ?_ ?_
    · rw [Logs.set_ne hne.symm, Logs.transferred, Logs.set_self]
    · rw [Logs.set_self, hlast hT']
      exact lastStatus_append_statusEntry (by decide)
    · rw [Logs.set_self, hT', live_append, hT.content, copyLength]
      simp only [List.length_append, List.length_singleton]
      omega

/-- And how many the transfer leaves that `init` does again. -/
def repeatLength (g : Geometry) (S : List Entry) : Nat :=
  (live (pad g [statusEntry .receiving])).length +
    (copied (mirror S) (List.range g.maxAddress)).length

/-- What `init` repairs takes the course of a transfer. -/
theorem course_repair (hA : A ≠ .factory) (hm : lastStatus (L A) = .valid) :
    RepairSafe (Course g A (repeatLength g (L A))) g L A := by
  have hne := Page.other_ne hA
  refine ⟨fun _ => .before ?_ ?_, fun _ => .before ?_ ?_, fun _ => ?_⟩
  · rw [Logs.set_ne hne.symm, hm]
  · rw [Logs.set_self, lastStatus_nil]
    nofun
  · rw [Logs.set_ne hne.symm, hm]
  · rw [Logs.set_self, lastStatus_formattedBlock]
    nofun
  · have hsilent : Silent (copied (mirror (L A)) (List.range g.maxAddress)) :=
      silent_copied fun _ ha => List.mem_range.mp ha
    have hcourse := course_transfer (g := g) (L := L.set A.other []) hA
      (by rw [Logs.set_ne hne.symm, hm]) (by rw [Logs.set_self, lastStatus_nil]; nofun) hsilent
    rwa [Logs.set_self, List.nil_append] at hcourse

/-- The events of an operation on a working store take the course of one transfer. -/
theorem Working.course_perform {op : Operation} (h : Working g K L A b s) (hop : op.Durable) :
    ∃ n, wp (perform g op) (fun _ t => ∀ e ∈ t.hwa.trace, Safe g never (Course g A n) e)
      s.beginOperation := by
  have hw : ∀ n, Working g (Course g A n) L A b s.beginOperation := fun n =>
    h.begin (.before h.marked h.spare_unmarked)
  cases op with
  | init =>
    refine ⟨repeatLength g (L A), ?_⟩
    apply wp_bind_of (init_valid (hw _).sees h.runtime h.marked h.spare_unmarked
      (fun _ => h.spare) (course_repair h.runtime h.marked))
    rintro r t ⟨rfl, A', L', hboot, _⟩
    exact hboot.working.sees.traced
  | write e cacheOnly =>
    refine ⟨copyLength g s.ram, ?_⟩
    by_cases hbad : e.address = reservedStatusAddress ∨ e.address.toNat ≥ g.maxAddress
    · rw [EmuEeprom.perform, wp_bind, wp, write_refused hbad]
      exact (hw _).sees.traced
    · have hbad := not_or.mp hbad
      apply wp_bind_of ((hw _).write hbad.1 (Nat.lt_of_not_le hbad.2)
        ((hw 0).course_write hbad.1) cacheOnly)
      intro r t hend
      cases hend with
      | cached => exact (hw _).sees.traced
      | appended _ hw => exact hw.sees.traced
      | transferred _ _ _ hw => exact hw.sees.traced
      | full _ _ _ hw => exact hw.sees.traced
  | flush =>
    refine ⟨copyLength g s.ram, ?_⟩
    apply wp_bind_of ((hw _).flush (hw 0).course fun _ => (hw 0).course_transfer)
    rintro r t ⟨rfl, hend⟩
    cases hend with
    | programmed _ _ hw => exact hw.sees.traced
    | transferred _ _ hw => exact hw.sees.traced
  | pageTransfer =>
    refine ⟨copyLength g s.ram, ?_⟩
    apply wp_bind_of ((hw _).pageTransfer rfl (hw 0).course_transfer)
    rintro r t ⟨rfl, T, _, hw, _⟩
    exact hw.sees.traced
  | read => exact absurd hop id
  | pageStatus => exact absurd hop id
  | format => exact absurd hop id
  | storeToFactory => exact absurd hop id
  | restoreFromFactory => exact absurd hop id

/-- And those of `init` on a flash that it can recover. -/
theorem Recoverable.course_init (h : Recoverable g V L A) (hL : Holds g L flash) :
    ∃ n, wp (perform g .init) (fun _ t => ∀ e ∈ t.hwa.trace, Safe g never (Course g A n) e)
      (State.powerUp flash never) := by
  refine ⟨repeatLength g (L A), ?_⟩
  apply wp_bind_of (init_valid (sees_powerUp hL (.before h.marked h.other)) h.runtime h.marked
    h.other h.spare (course_repair h.runtime h.marked))
  rintro r t ⟨rfl, A', L', hboot, _⟩
  exact hboot.working.sees.traced

end Zlibs.EmuEeprom
