import Zlibs.EmuEeprom.Course
import Zlibs.EmuEeprom.Refinement

/-! Power may be lost after any erase or write; a new instance starts on the flash that is left. -/
namespace Zlibs.EmuEeprom

open Zlibs.Lib

variable {g : Geometry} {L : Logs} {s t : State} {F : List Entry} {m : Contents} {V : Permitted}
  {flash last : Flash} {op : Operation} {a : Nat} {trace done : List Event}

/-- An instance, what its addresses had at the last successful flush and what was written to them
since. -/
structure Device where
  state : State
  running : Bool
  durable : Contents
  later : Nat → List UInt16

inductive PowerAction where
  | call (op : Operation)
  | loss (op : Operation)

def Device.write (d : Device) (entry : Entry) : Device :=
  { d with later := fun a => if a = entry.address.toNat then entry.value :: d.later a
                             else d.later a }

/-- What the caller knows after a call. -/
def Device.record (g : Geometry) (d : Device) : Operation → Outcome → Device
  | .write entry _, .written .ok => d.write entry
  | .flush, .done true => { d with durable := contents g d.state, later := fun _ => [] }
  | _, _ => d

def Device.call (g : Geometry) (d : Device) (op : Operation) : Device :=
  let result := perform g op d.state.beginOperation
  Device.record g { d with state := result.2, running := true } op result.1

/-- The flash after the first events of a call, the newest of which comes first. -/
def flashAfter (flash : Flash) : List Event → Flash
  | [] => flash
  | e :: _ => e.after

/-- A write that was under way may have reached the flash. -/
def Device.lost (d : Device) (op : Operation) (flash : Flash) : Device :=
  let off := { d with state := State.powerUp flash never, running := false }
  match op with
  | .write entry _ => off.write entry
  | _ => off

/-- The value an address may show: the durable one or one written later. -/
def Device.allowed (d : Device) : Permitted :=
  fun a v => v = d.durable a ∨ ∃ w ∈ d.later a, v = some w

/-- A call on a running instance, or `init` on a new one. -/
def Device.Ready (d : Device) (op : Operation) : Prop :=
  op.Durable ∧ (d.running = false → op = .init)

/-- Power is lost once the events `done` of a call have happened. -/
def LossStep (g : Geometry) (d : Device) (op : Operation) (done : List Event) (d' : Device) : Prop :=
  d.Ready op ∧ done <:+ (perform g op d.state.beginOperation).2.hwa.trace ∧
    d' = d.lost op (flashAfter d.state.hwa.flash done)

/-- The last event on a runtime page has erased the page that was valid when the call began, or has
written to it that it is formatted. -/
def Interrupts (g : Geometry) (flash : Flash) (done : List Event) : Prop :=
  ∃ A, A ≠ .factory ∧ (pageStatus g A (State.powerUp flash never)).1 = .valid ∧
    ∃ e, done.find? (fun e => e.call.onRuntime) = some e ∧ e.call.Retires g A

/-- Power is not lost between the erase of the old page and the valid record of the new one, or
there is nothing to lose. -/
def Spared (g : Geometry) (d : Device) (done : List Event) : Prop :=
  (∀ a < g.maxAddress, d.durable a = none) ∨ ¬ Interrupts g d.state.hwa.flash done

/-- Steps in which every loss of power is spared. -/
def PowerStep (g : Geometry) (_ : List PowerAction) (d : Device) : PowerAction → Device → Prop
  | .call op, d' => d.Ready op ∧ d' = d.call g op
  | .loss op, d' => ∃ done, LossStep g d op done d' ∧ Spared g d done

/-- An instance that is about to be started on a flash nothing was stored on. -/
def Unused (g : Geometry) (F : List Entry) (d : Device) : Prop :=
  ∃ flash : Flash, flash.Formatted g F ∧
    d = ⟨State.powerUp flash never, false, fun _ => none, fun _ => []⟩

/-- `init` of a new instance succeeds and every address shows a value it may show. -/
def Survives (g : Geometry) (d : Device) : Prop :=
  (init g d.state).1 = true ∧
    ∀ a < g.maxAddress, d.allowed a (contents g (init g d.state).2 a)

theorem Recoverable.mono {W : Permitted} {A : Page} (h : Recoverable g V L A)
    (hW : ∀ a v, V a v → W a v) : Recoverable g W L A :=
  ⟨h.runtime, h.marked, h.other, h.spare, h.named, h.held.mono hW⟩

theorem Intact.mono {W : Permitted} (h : Intact g V L) (hW : ∀ a v, V a v → W a v) :
    Intact g W L := h.imp id fun ⟨A, hA⟩ => ⟨A, hA.mono hW⟩

/-- The flashes of a run that kept its events safe are intact. -/
def Covered (g : Geometry) (V : Permitted) (s : State) : Prop :=
  (∃ L, Holds g L s.hwa.flash ∧ Intact g V L) ∧
    ∀ e ∈ s.hwa.trace, ∃ L, Holds g L e.after ∧ Intact g V L

theorem Serves.covered (h : Serves g V m F s) : Covered g V s := by
  obtain ⟨L, A, b, h, _⟩ := h
  have hs := h.working.sees
  refine ⟨⟨L, hs.holds, hs.good⟩, fun e he => ?_⟩
  obtain ⟨_, _, L', _, _, hL', hK', _⟩ := hs.traced e he
  exact ⟨L', hL', hK'⟩

variable {d d' : Device}

theorem allowed_write (d : Device) (e : Entry) :
    (∀ a v, d.allowed a v → (d.write e).allowed a v) ∧
      (d.write e).allowed e.address.toNat (some e.value) := by
  have hlater : ∀ a, (d.write e).later a =
      if a = e.address.toNat then e.value :: d.later a else d.later a := fun _ => rfl
  constructor
  · rintro a v (hv | ⟨w, hw, rfl⟩)
    · exact Or.inl hv
    · refine Or.inr ⟨w, ?_, rfl⟩
      rw [hlater]
      split
      · exact List.mem_cons_of_mem _ hw
      · exact hw
  · refine Or.inr ⟨e.value, ?_, rfl⟩
    rw [hlater, if_pos rfl]
    exact List.mem_cons_self

/-- What is known of a device between two actions. -/
inductive Sound (g : Geometry) (d : Device) : Prop
  | running (hr : d.running = true) (m : Contents) (F : List Entry)
      (hs : Serves g d.allowed m F d.state.beginOperation)
  | off (hr : d.running = false) (flash : Flash) (hf : d.state = State.powerUp flash never)
      (L : Logs) (hL : Holds g L flash) (hI : Intact g d.allowed L)
      (hn : Unmarked L → ∀ a < g.maxAddress, d.durable a = none)

/-- The device after a call, and the flashes a loss during it leaves. -/
structure Called (g : Geometry) (d : Device) (op : Operation) : Prop where
  sound : Sound g (d.call g op)
  losses : ∀ done, done <:+ (perform g op d.state.beginOperation).2.hwa.trace →
    ∃ L, Holds g L (flashAfter d.state.hwa.flash done) ∧
      Intact g (d.lost op (flashAfter d.state.hwa.flash done)).allowed L

theorem called_of (hsound : Sound g (d.call g op)) {W : Permitted}
    (hW : ∀ flash, (d.lost op flash).allowed = W)
    (hbefore : ∃ L, Holds g L d.state.hwa.flash ∧ Intact g W L)
    (hcov : Covered g W (perform g op d.state.beginOperation).2) : Called g d op := by
  refine ⟨hsound, fun done hdone => ?_⟩
  rw [hW]
  cases done with
  | nil => exact hbefore
  | cons e done => exact hcov.2 e (hdone.subset List.mem_cons_self)

/-- A call that writes nothing new and leaves a settled store. -/
theorem called_settled {F' : List Entry} {n : Contents}
    (hbefore : ∃ L, Holds g L d.state.hwa.flash ∧ Intact g d.allowed L)
    (hop : ∀ flash, (d.lost op flash).allowed = d.allowed)
    (hset : Settled g d.allowed n F' (perform g op d.state.beginOperation).2)
    (hrec : d.call g op =
      { d with state := (perform g op d.state.beginOperation).2, running := true }) :
    Called g d op := by
  refine called_of ?_ hop hbefore hset.serves.covered
  rw [hrec]
  exact .running rfl n F' (hset.serves.widen fun _ _ h => h)

/-- An `init` of a new instance over a flash that is intact. -/
theorem init_intact {st : Option (Page × List Entry)} (hs : Sees g never (Intact g V) L st s)
    (hn : Unmarked L → V.Holds g fun _ => none) :
    wp (init g) (fun r t => r = true ∧ ∃ n F, Settled g V n F t) s := by
  rcases hs.good with hL | ⟨A, hA⟩
  · apply wp_mono (hL.init hs (hn hL))
    rintro r t ⟨rfl, ht⟩
    exact ⟨rfl, _, _, ht⟩
  · apply wp_mono (hA.init hs)
    rintro r t ⟨rfl, ht⟩
    exact ⟨rfl, _, _, ht⟩

theorem Serves.holds (h : Serves g V m F s) : V.Holds g m := by
  obtain ⟨_, _, _, h, _⟩ := h
  exact h.content

theorem called_flush (hs : Serves g d.allowed m F d.state.beginOperation) : Called g d .flush := by
  obtain ⟨hr, hset⟩ := hs.flush
  refine called_of ?_ (fun _ => rfl) hs.covered.1 hset.serves.covered
  have hrec : d.call g .flush = { d with
      state := (flush g d.state.beginOperation).2
      running := true
      durable := contents g (flush g d.state.beginOperation).2
      later := fun _ => [] } := by
    show Device.record g _ Operation.flush (.done (flush g d.state.beginOperation).1) = _
    rw [hr]
    rfl
  rw [hrec]
  exact .running rfl m F (hset.begin fun a ha => Or.inl (hset.serves.contents ha).symm).serves

theorem called_write {e : Entry} {cacheOnly : Bool} (hv : e.value ≠ erasedValue)
    (hs : Serves g d.allowed m F d.state.beginOperation) : Called g d (.write e cacheOnly) := by
  obtain ⟨hwide, hnew⟩ := allowed_write d e
  have hs' := hs.widen hwide
  have hrec : d.call g (.write e cacheOnly) = Device.record g
      { d with state := (write g e cacheOnly d.state.beginOperation).2, running := true }
      (.write e cacheOnly) (.written (write g e cacheOnly d.state.beginOperation).1) := rfl
  refine called_of ?_ (W := (d.write e).allowed) (fun _ => rfl) hs'.covered.1 ?_
  · rw [hrec]
    by_cases hbad : e.address = reservedStatusAddress ∨ e.address.toNat ≥ g.maxAddress
    · rw [write_refused hbad]
      exact .running rfl m F hs
    · have hbad := not_or.mp hbad
      rcases hs'.write hbad.1 (Nat.lt_of_not_le hbad.2) hv hnew cacheOnly with
        ⟨hr, ht⟩ | ⟨hr, ht⟩
      · rw [show (write g e cacheOnly d.state.beginOperation).1 = .ok from hr]
        exact .running rfl _ F (ht.widen fun _ _ h => h)
      · rw [show (write g e cacheOnly d.state.beginOperation).1 = .pageFull from hr]
        exact .running rfl m F (ht.begin hs.holds).serves
  · show Covered g _ (write g e cacheOnly d.state.beginOperation).2
    by_cases hbad : e.address = reservedStatusAddress ∨ e.address.toNat ≥ g.maxAddress
    · rw [write_refused hbad]
      exact hs'.covered
    · have hbad := not_or.mp hbad
      rcases hs'.write hbad.1 (Nat.lt_of_not_le hbad.2) hv hnew cacheOnly with
        ⟨_, ht⟩ | ⟨_, ht⟩
      · exact ht.covered
      · exact ht.serves.covered

theorem Sound.call (h : Sound g d) (hready : d.Ready op) : Called g d op := by
  cases h with
  | off hr flash hf L hL hI hn =>
    obtain rfl := hready.2 hr
    have hs : Sees g never (Intact g d.allowed) L none d.state.beginOperation := by
      rw [hf]
      exact sees_powerUp hL hI
    have hset := init_intact hs fun hu a ha => Or.inl (hn hu a ha).symm
    obtain ⟨hr, n, F, hset⟩ := hset
    refine called_settled ⟨L, ?_, hI⟩ (fun _ => rfl) hset ?_
    · rw [hf]
      exact hL
    · show Device.record g _ Operation.init (.done (init g d.state.beginOperation).1) = _
      rw [hr]
      rfl
  | running hr m F hs =>
    have hbefore := hs.covered.1
    cases op with
    | init =>
      obtain ⟨L, A, b, h, rfl⟩ := hs
      obtain ⟨hr, hset⟩ := h.working.intact.init h.working.sees
      refine called_settled hbefore (fun _ => rfl) hset ?_
      show Device.record g _ Operation.init (.done (EmuEeprom.init g d.state.beginOperation).1) = _
      rw [hr]
      rfl
    | pageTransfer =>
      obtain ⟨hr, hset⟩ := hs.pageTransfer
      refine called_settled hbefore (fun _ => rfl) hset ?_
      show Device.record g _ Operation.pageTransfer
        (.written (EmuEeprom.pageTransfer g d.state.beginOperation).1) = _
      rw [hr]
      rfl
    | flush => exact called_flush hs
    | write e cacheOnly => exact called_write hready.1 hs
    | read => exact absurd hready.1 id
    | pageStatus => exact absurd hready.1 id
    | format => exact absurd hready.1 id
    | storeToFactory => exact absurd hready.1 id
    | restoreFromFactory => exact absurd hready.1 id

theorem lost_state (d : Device) (op : Operation) (flash : Flash) :
    (d.lost op flash).state = State.powerUp flash never ∧ (d.lost op flash).running = false ∧
      (d.lost op flash).durable = d.durable := by
  cases op <;> exact ⟨rfl, rfl, rfl⟩

theorem Leads.suffix (h : Leads flash trace last) (hd : done <:+ trace) :
    Leads flash done (flashAfter flash done) := by
  induction trace generalizing last with
  | nil =>
    obtain rfl := List.suffix_nil.mp hd
    rfl
  | cons e trace ih =>
    rcases List.suffix_cons_iff.mp hd with rfl | hd
    · exact ⟨rfl, h.2⟩
    · exact ih h.2 hd

theorem records_perform (hop : op.Durable) : Records (perform g op) := by
  cases op with
  | init => exact records_bind records_init fun _ => records_pure _
  | write e cacheOnly => exact records_bind (records_write _ _) fun _ => records_pure _
  | flush => exact records_bind records_flush fun _ => records_pure _
  | pageTransfer => exact records_bind records_pageTransfer fun _ => records_pure _
  | read => exact absurd hop id
  | pageStatus => exact absurd hop id
  | format => exact absurd hop id
  | storeToFactory => exact absurd hop id
  | restoreFromFactory => exact absurd hop id

/-- The events of a call lead from the flash that it finds. -/
theorem leads_perform (hop : op.Durable) (d : Device)
    (hd : done <:+ (perform g op d.state.beginOperation).2.hwa.trace) :
    Leads d.state.hwa.flash done (flashAfter d.state.hwa.flash done) := by
  obtain ⟨new, htrace, hlead⟩ := records_perform (g := g) hop d.state.beginOperation
  have htrace : (perform g op d.state.beginOperation).2.hwa.trace = new :=
    htrace.trans (List.append_nil _)
  exact hlead.suffix (htrace ▸ hd)

/-- A call that takes its course from a flash with one valid page leaves none exactly where it is
interrupted. -/
theorem unmarked_iff_interrupts {n : Nat} {A : Page} {L₀ : Logs} (hA : A ≠ .factory)
    (hstart : Holds g L₀ flash) (hvalid : lastStatus (L₀ A) = .valid)
    (hother : lastStatus (L₀ A.other) ≠ .valid) (hlead : Leads flash done last)
    (hsafe : ∀ e ∈ done, Safe g never (Course g A n) e) (hL : Holds g L last) :
    Unmarked L ↔ Interrupts g flash done := by
  rw [unmarked_iff_retires hA hstart hvalid hlead hsafe hL]
  constructor
  · exact fun h => ⟨A, hA, (pageStatus_powerUp hstart A).trans hvalid, h⟩
  · rintro ⟨B, hB, hstatus, h⟩
    rcases runtime_cases hA hB with rfl | rfl
    · exact h
    · exact absurd ((pageStatus_powerUp hstart _).symm.trans hstatus) hother

/-- Nothing is durable, or an interrupted call leaves no valid page. -/
theorem Sound.unmarked_iff (h : Sound g d) (hready : d.Ready op)
    (hd : done <:+ (perform g op d.state.beginOperation).2.hwa.trace)
    (hL : Holds g L (flashAfter d.state.hwa.flash done)) :
    (∀ a < g.maxAddress, d.durable a = none) ∨
      (Unmarked L ↔ Interrupts g d.state.hwa.flash done) := by
  have hlead := leads_perform hready.1 d hd
  cases h with
  | off hr flash hf L₀ hL₀ hI hn =>
    obtain rfl := hready.2 hr
    rw [hf] at hd hL hlead ⊢
    rcases hI with hu | ⟨A, hrec⟩
    · exact .inl (hn hu)
    · obtain ⟨n, hsafe⟩ := hrec.course_init hL₀
      exact .inr (unmarked_iff_interrupts hrec.runtime hL₀ hrec.marked hrec.other hlead
        (fun e he => hsafe e (hd.subset he)) hL)
  | running hr m F hs =>
    obtain ⟨L₀, A, b, hs, -⟩ := hs
    have hw := hs.working
    obtain ⟨n, hsafe⟩ := hw.course_perform hready.1
    exact .inr (unmarked_iff_interrupts hw.runtime hw.sees.holds hw.marked hw.spare_unmarked hlead
      (fun e he => hsafe e (hd.subset he)) hL)

theorem Sound.loss (h : Sound g d) (hn : LossStep g d op done d') : ∃ flash L,
    d'.state = State.powerUp flash never ∧ d'.running = false ∧ Holds g L flash ∧
      Intact g d'.allowed L ∧
        ((Unmarked L → ∀ a < g.maxAddress, d'.durable a = none) ↔ Spared g d done) := by
  obtain ⟨hready, hdone, rfl⟩ := hn
  obtain ⟨L, hL, hI⟩ := (h.call hready).losses done hdone
  obtain ⟨hstate, hoff, hdurable⟩ := lost_state d op (flashAfter d.state.hwa.flash done)
  refine ⟨_, L, hstate, hoff, hL, hI, ?_⟩
  rw [hdurable]
  rcases h.unmarked_iff hready hdone hL with hnone | hiff
  · exact iff_of_true (fun _ => hnone) (.inl hnone)
  · rw [hiff, Spared]
    exact imp_iff_not_or.trans or_comm

theorem sound_run {actions : List PowerAction} (hr : Run (Unused g F) (PowerStep g) actions d) :
    Sound g d := by
  refine Run.invariant (I := fun _ d => Sound g d) ?_ ?_ hr
  · rintro d ⟨flash, hflash, rfl⟩
    have hempty : (Device.mk (State.powerUp flash never) false (fun _ => none)
        fun _ => []).allowed.Holds g fun _ => none := fun _ _ => Or.inl rfl
    obtain ⟨L, hL, _, hI⟩ := hflash.intact hempty
    exact .off rfl flash rfl L hL (hI.imp id fun h => ⟨_, h.1⟩) fun _ _ _ => rfl
  · rintro _ d (op | op) d' hd hn
    · obtain ⟨hready, rfl⟩ := hn
      exact (hd.call hready).sound
    · obtain ⟨done, hloss, hspared⟩ := hn
      obtain ⟨flash, L, hf, hoff, hL, hI, hiff⟩ := hd.loss hloss
      exact .off hoff flash hf L hL hI (hiff.mpr hspared)

/-- Power loss at any moment of a call, anywhere in a run, is survived exactly where it is not
between the erase of the old page of a transfer and the valid record of the new one, or there is
nothing to lose. -/
theorem power_loss_survived_iff {actions : List PowerAction}
    (hr : Run (Unused g F) (PowerStep g) actions d) (hloss : LossStep g d op done d') :
    Survives g d' ↔ Spared g d done := by
  obtain ⟨flash, L, hf, _, hL, hI, hiff⟩ := (sound_run hr).loss hloss
  have hs : Sees g never (Intact g d'.allowed) L none d'.state := by
    rw [hf]
    exact sees_powerUp hL hI
  rw [← hiff]
  constructor
  · rintro ⟨_, hsurvives⟩ hu a ha
    have hnone := hu.init (V := .any) (hs.mono fun L hI => hI.mono fun _ _ _ => trivial)
      fun _ _ => trivial
    have hval := hsurvives a ha
    rw [hnone.2.serves.contents ha] at hval
    rcases hval with hval | ⟨w, _, hval⟩
    · exact hval.symm
    · cases hval
  · intro hguard
    have hinit := init_intact hs fun hu a ha => Or.inl (hguard hu a ha).symm
    obtain ⟨hr, n, F, hset⟩ := hinit
    refine ⟨hr, fun a ha => ?_⟩
    rw [hset.serves.contents ha]
    exact hset.serves.holds a ha

/-- A device whose address 0 has the durable value 7. -/
def storedDevice : Device :=
  let new : Device := ⟨State.powerUp blankFlash never, false, fun _ => none, fun _ => []⟩
  ((new.call smallGeometry .init).call smallGeometry (.write ⟨0, 7⟩ false)).call
    smallGeometry .flush

theorem run_call {actions : List PowerAction} (op : Operation)
    (hr : Run (Unused g F) (PowerStep g) actions d) (hready : d.Ready op) :
    Run (Unused g F) (PowerStep g) (actions ++ [.call op]) (d.call g op) :=
  .snoc hr ⟨hready, rfl⟩

theorem ready_called (op op' : Operation) (hop : op.Durable) : (d.call g op').Ready op := by
  refine ⟨hop, fun hoff => ?_⟩
  have hon : (d.call g op').running = true := by
    unfold Device.call Device.record
    dsimp only
    split <;> rfl
  rw [hon] at hoff
  cases hoff

theorem storedDevice_run : Run (Unused smallGeometry []) (PowerStep smallGeometry)
    [.call .init, .call (.write ⟨0, 7⟩ false), .call .flush] storedDevice := by
  have hnew : Run (Unused smallGeometry []) (PowerStep smallGeometry) []
      ⟨State.powerUp blankFlash never, false, fun _ => none, fun _ => []⟩ :=
    .nil ⟨blankFlash, blankFlash_formatted, rfl⟩
  have hinit := run_call .init hnew ⟨trivial, fun _ => rfl⟩
  have hvalue : (7 : UInt16) ≠ erasedValue := by decide
  have hwrite := run_call (.write ⟨0, 7⟩ false) hinit (ready_called _ _ hvalue)
  exact run_call .flush hwrite (ready_called _ _ trivial)

theorem storedDevice_ready : storedDevice.Ready .pageTransfer :=
  ready_called .pageTransfer _ trivial

theorem not_interrupts (p : Page)
    (hlast : (done.find? fun e => e.call.onRuntime).bind (fun e => e.call.target) = some p)
    (hp : (pageStatus g p (State.powerUp flash never)).1 ≠ .valid) : ¬ Interrupts g flash done := by
  rintro ⟨A, -, hA, e, he, hretires⟩
  rw [he, Option.bind_some, hretires.target] at hlast
  obtain rfl := Option.some.inj hlast
  exact hp hA

/-- The transfer of that device up to the erase of the old page. -/
def copyEvents : List Event :=
  (perform smallGeometry .pageTransfer storedDevice.state.beginOperation).2.hwa.trace.drop 3

def copiedDevice : Device :=
  storedDevice.lost .pageTransfer (flashAfter storedDevice.state.hwa.flash copyEvents)

theorem copiedDevice_run : Run (Unused smallGeometry []) (PowerStep smallGeometry)
    [.call .init, .call (.write ⟨0, 7⟩ false), .call .flush, .loss .pageTransfer] copiedDevice :=
  .snoc storedDevice_run ⟨copyEvents, ⟨storedDevice_ready, List.drop_suffix _ _, rfl⟩,
    .inr (not_interrupts .page2 (by decide +kernel) (by decide +kernel))⟩

theorem copiedDevice_ready : copiedDevice.Ready .init := ⟨trivial, fun _ => rfl⟩

/-- `init` does the transfer again, and power is lost before that erase once more. -/
def repeatEvents : List Event :=
  (perform smallGeometry .init copiedDevice.state.beginOperation).2.hwa.trace.drop 3

theorem copiedDevice_loss_survived : repeatEvents.length = 3 ∧ Survives smallGeometry
    (copiedDevice.lost .init (flashAfter copiedDevice.state.hwa.flash repeatEvents)) :=
  ⟨by decide +kernel, (power_loss_survived_iff copiedDevice_run
    ⟨copiedDevice_ready, List.drop_suffix _ _, rfl⟩).mpr
      (.inr (not_interrupts .page2 (by decide +kernel) (by decide +kernel)))⟩

/-- Power lost between the erase of the old page and the record that makes the new one valid
loses a durable value. -/
theorem transfer_loss_forgets :
    Run (Unused smallGeometry []) (PowerStep smallGeometry)
        [.call .init, .call (.write ⟨0, 7⟩ false), .call .flush] storedDevice ∧
      ∃ done d, LossStep smallGeometry storedDevice .pageTransfer done d ∧
        ¬ Survives smallGeometry d := by
  refine ⟨storedDevice_run, _, _, ⟨storedDevice_ready, List.drop_suffix 2 _, rfl⟩, ?_⟩
  rintro ⟨_, hshows⟩
  rcases hshows 0 (by decide) with h | ⟨w, hw, _⟩
  · revert h
    decide +kernel
  · have hlater : storedDevice.later 0 = [] := by decide +kernel
    have hw : w ∈ storedDevice.later 0 := hw
    rw [hlater] at hw
    exact List.not_mem_nil hw

end Zlibs.EmuEeprom
