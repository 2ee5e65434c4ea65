import Zlibs.EmuEeprom.Availability

/-! A snapshot on the factory page, and what restoring it brings back. -/
namespace Zlibs.EmuEeprom

open Zlibs.Lib

variable {g : Geometry} {L : Logs} {s t u : State} {S T F : List Entry} {A p q : Page}
  {e : Entry} {a : Nat} {flash : Flash} {op : Operation} {calls later : List Call} {m : Contents}
  {V : Permitted}

/-- The steps of a run in which no value is the erased one and no snapshot without a free block
is restored. -/
def SnapshotStep (g : Geometry) (_ : List Call) (s : State) (call : Call) (t : State) : Prop :=
  (∀ e c, call.1 = .write e c → e.value ≠ erasedValue) ∧
    (call.1 = .restoreFromFactory → Restorable g s) ∧ perform g call.1 s = (call.2, t)

def UseStep (g : Geometry) (_ : List Call) (s : State) (call : Call) (t : State) : Prop :=
  call.1.InUse ∧ perform g call.1 s = (call.2, t)

/-- Every moment of a restore is recoverable where any contents may be found. -/
theorem restoreSafe_any (h : Intact g .any L) (hF : Named (L .factory)) :
    RestoreSafe (Intact g .any) g L := by
  have h2 : ∀ T, L.restoring T .page2 = [] := fun T => by
    rw [Logs.restoring, Logs.set_ne (q := .page2) (p := .page1) (by decide), L.cleared_page2]
  have h1 : ∀ T, L.restoring T .page1 = T := fun T => Logs.set_self
  have hmarked : Recoverable g .any ((L.restoring (L .factory)).marked g .page1 .valid) .page1 := by
    apply recoverable_activated (h2 _)
    · rw [h1]
      exact hF
    · exact fun _ _ => trivial
  refine ⟨h.erase_page1, Or.inl (unmarked_erased ?_ Logs.set_self), fun k _ => ?_,
    Or.inr ⟨_, hmarked⟩, Or.inr ⟨_, hmarked.other_formatted⟩⟩
  · rw [Logs.set_ne (q := .page1) (p := .page2) (by decide), Logs.set_self]
  · have hother : lastStatus (L.restoring ((L .factory).take (k * g.entriesPerBlock)) .page2) =
        .erased := by rw [h2, lastStatus_nil]
    by_cases hv : lastStatus ((L .factory).take (k * g.entriesPerBlock)) = .valid
    · refine Or.inr ⟨.page1, by decide, by rw [h1, hv], by rw [Page.other, hother]; decide,
        by rw [Page.other, hother]; exact (fun h => by cases h), ?_, fun _ _ => trivial⟩
      rw [h1]
      intro e he
      exact hF e ((List.take_sublist _ _).filter _ |>.subset he)
    · refine Or.inl (unmarked_of (A := .page1) (by decide) (by rw [h1]; exact hv) ?_)
      rw [Page.other, hother]
      decide

/-- What a restore does to a served store. -/
theorem Serves.restore (h : Serves g .any m F s) (hF : Named F) :
    wp (restoreFromFactory g) (fun r t =>
      (r = false ∧ lastStatus F ≠ .valid ∧ Serves g .any m F t) ∨
      (r = false ∧ lastStatus F = .valid ∧ F.length = g.pageEntries) ∨
      (r = true ∧ F.length < g.pageEntries ∧ Settled g .any (lookup F) F t)) s := by
  obtain ⟨L, A, b, h, rfl⟩ := h
  apply wp_mono (h.working.restoreFromFactory fun _ => restoreSafe_any h.working.sees.good hF)
  intro r t hend
  cases hend with
  | unchanged hstatus hw hkept =>
    exact Or.inl ⟨rfl, hstatus, L, A, b, ⟨hw, h.represents.congr hkept.cache hkept.dirty rfl,
      h.content, h.accepted, h.named⟩, rfl⟩
  | lost hstatus hfull => exact Or.inr (Or.inl ⟨rfl, hstatus, hfull⟩)
  | done _ hroom hw hc hd =>
    have hlog := L.restored_page1 (g := g)
    have hrep : Represents g (lookup (L .factory)) t.ram (L.restored g .page1) := by
      rw [hlog]
      refine (represents_mirror hc fun a _ => ?_).contents_congr fun a _ =>
        lookup_append_statusEntry.symm
      rw [lookup_append_statusEntry]
      exact hF.lookup_ne a
    exact Or.inr (Or.inr ⟨rfl, hroom, _, _, .settled hw hrep hd fun _ _ => trivial,
      L.restored_factory, hd⟩)

theorem Serves.init (h : Serves g V m F s) :
    wp (init g) (fun r t => r = true ∧ ∃ n, Settled g V n F t) s := by
  obtain ⟨L, A, b, h, rfl⟩ := h
  apply wp_mono (h.working.intact.init h.working.sees)
  rintro r t ⟨rfl, ht⟩
  exact ⟨rfl, _, ht⟩

/-- The code finds a free block on the factory page exactly where its log leaves one. -/
theorem Serves.factory_free (h : Serves g V m F s) :
    (findNextFreeOffset g .factory s).1.isSome ↔ F.length < g.pageEntries := by
  obtain ⟨L, A, b, h, rfl⟩ := h
  obtain ⟨_, hf | ⟨_, hfault⟩⟩ := findNextFreeOffset_spec h.working.sees .factory
  · rw [hf, freeOffset]
    split <;> simp_all
  · exact absurd hfault not_readFault

theorem serves_run (hflash : flash.Formatted g F) (hF : Named F)
    (hr : Run (Started g flash) (SnapshotStep g) calls s) :
    ∃ m F, Serves g .any m F s ∧ Named F := by
  refine Run.invariant (I := fun _ s => ∃ m F, Serves g .any m F s ∧ Named F) ?_ ?_ hr
  · intro s hs
    have hinit := hflash.init any_none
    rw [wp, hs] at hinit
    exact ⟨_, F, hinit.2.serves, hF⟩
  · rintro calls s ⟨op, out⟩ t ⟨m, F, hs, hF⟩ ⟨hv, hrest, hrun⟩
    have hrun : perform g op s = (out, t) := hrun
    by_cases hi : op = .init
    · subst hi
      obtain ⟨rfl, rfl⟩ := Prod.mk.inj hrun
      obtain ⟨_, n, hn⟩ := hs.init
      exact ⟨n, F, hn.serves, hF⟩
    · by_cases hf : op = .restoreFromFactory
      · subst hf
        obtain ⟨rfl, rfl⟩ := Prod.mk.inj hrun
        have hfree : lastStatus F = .valid → F.length < g.pageEntries := by
          obtain ⟨L, A, b, h, rfl⟩ := hs
          exact restorable_length (h.working.mono fun _ _ => trivial) (hrest rfl)
        rcases hs.restore hF with ⟨_, _, ht⟩ | ⟨_, hstatus, hfull⟩ | ⟨_, _, ht⟩
        · exact ⟨m, F, ht, hF⟩
        · have := hfree hstatus
          omega
        · exact ⟨_, F, ht.serves, hF⟩
      · have hstep := hs.perform hi hf hv
        rw [wp, hrun] at hstep
        obtain ⟨F', hcarried⟩ := hstep
        exact ⟨_, F', hcarried.serves, hcarried.named hF⟩

/-- Everyday use leaves the factory page alone. -/
theorem serves_use (h : Serves g .any m F s) (hr : Run (· = s) (UseStep g) later u) :
    ∃ n, Serves g .any n F u := by
  refine Run.invariant (I := fun _ u => ∃ n, Serves g .any n F u) ?_ ?_ hr
  · rintro _ rfl
    exact ⟨m, h⟩
  · rintro calls s ⟨op, out⟩ t ⟨n, hs⟩ ⟨huse, hrun⟩
    have hrun : perform g op s = (out, t) := hrun
    have huse : op.InUse := huse
    have hi : op ≠ .init := fun h => by rw [h] at huse; exact huse
    have hf : op ≠ .restoreFromFactory := fun h => by rw [h] at huse; exact huse
    have hv : ∀ e c, op = .write e c → e.value ≠ erasedValue := fun e c h => by
      rw [h] at huse
      exact huse
    have hstep := hs.perform hi hf hv
    rw [wp, hrun] at hstep
    obtain ⟨F', hcarried⟩ := hstep
    obtain rfl := hcarried.kept huse
    exact ⟨_, hcarried.serves⟩

/-- The contents a restore brings back, at once and to a new instance. -/
def RoundTrip (g : Geometry) (stored restoring : State) : Prop :=
  let restored := restoreFromFactory g restoring
  let booted := init g (State.powerUp restored.2.hwa.flash never)
  restored.1 = true ∧ (∀ a, (read g a restored.2).1 = (read g a stored).1) ∧
    booted.1 = true ∧ ∀ a, (read g a booted.2).1 = (read g a stored).1

/-- A stored snapshot survives everyday use, and restoring it brings its contents back exactly
where the factory page still has a free block. -/
theorem snapshot_round_trip (hflash : flash.Formatted g F) (hF : Named F)
    (hr : Run (Started g flash) (SnapshotStep g) calls s) (hstore : storeToFactory g s = (true, t))
    (huse : Run (· = t) (UseStep g) later u) :
    RoundTrip g s u ↔ (findNextFreeOffset g .factory u).1.isSome := by
  obtain ⟨m, F₀, hs, _⟩ := serves_run hflash hF hr
  have hstored := hs.storeToFactory
  rw [wp, hstore] at hstored
  obtain ⟨_, L, A, ht, hfactory, hd⟩ := hstored
  have hnamed := ht.working.intact.named
  have hlook : ∀ a < g.maxAddress, lookup (L A) a = m a := fun a ha => ht.lookup_eq hd ha
  obtain ⟨n, hu⟩ := serves_use ⟨L, A, [], ht, hfactory⟩ huse
  have hread : ∀ v F', Serves g .any m F' v → ∀ a, (read g a v).1 = (read g a s).1 :=
    fun v F' hv a => (hv.read_answer a).1.trans (hs.read_answer a).1.symm
  rw [hu.factory_free]
  have hrestore := hu.restore hnamed
  constructor
  · rintro ⟨htrue, _⟩
    rcases hrestore with ⟨hfalse, _⟩ | ⟨hfalse, _⟩ | ⟨_, hroom, _⟩
    · rw [htrue] at hfalse
      cases hfalse
    · rw [htrue] at hfalse
      cases hfalse
    · exact hroom
  · intro hroom
    rcases hrestore with ⟨_, hstatus, _⟩ | ⟨_, _, hfull⟩ | ⟨htrue, _, hset⟩
    · exact absurd ht.working.marked hstatus
    · omega
    · have hset := hset.congr (n := m) fun a ha => (hlook a ha).symm
      have hboot := hset.init_powerUp
      exact ⟨htrue, hread _ _ hset.serves, hboot.1, hread _ _ hboot.2.serves⟩

/-- A store with two values is snapshotted, then used and restored. -/
theorem usedStore_round_trip :
    let stored := (storeToFactory smallGeometry usedStore).2
    RoundTrip smallGeometry usedStore (performAll smallGeometry
      [.write ⟨0, 1⟩ false, .write ⟨3, 2⟩ true, .flush] stored).2 := by
  intro stored
  have hstep : ∀ h s, ∀ op ∈ usedCalls, SnapshotStep smallGeometry h s
      (op, (perform smallGeometry op s).1) (perform smallGeometry op s).2 := by
    intro h s op hop
    refine ⟨?_, ?_, rfl⟩
    · rintro e c rfl
      have hvalue : e.value ∈ [7, 8] := by
        simp only [usedCalls, List.mem_cons, List.not_mem_nil, or_false, reduceCtorEq, false_or,
          Operation.write.injEq] at hop
        rcases hop with ⟨rfl, _⟩ | ⟨rfl, _⟩ <;> decide
      intro he
      rw [he] at hvalue
      exact absurd hvalue (by decide)
    · rintro rfl
      exact absurd hop (by decide)
  have huse : ∀ h s, ∀ op ∈ [Operation.write ⟨0, 1⟩ false, .write ⟨3, 2⟩ true, .flush],
      UseStep smallGeometry h s (op, (perform smallGeometry op s).1)
        (perform smallGeometry op s).2 := by
    intro h s op hop
    simp only [List.mem_cons, List.not_mem_nil, or_false] at hop
    rcases hop with rfl | rfl | rfl
    · exact ⟨(by decide : (1 : UInt16) ≠ erasedValue), rfl⟩
    · exact ⟨(by decide : (2 : UInt16) ≠ erasedValue), rfl⟩
    · exact ⟨trivial, rfl⟩
  have hrun := run_performAll hstep (.nil started_startedStore)
  have hlater : Run (· = stored) (UseStep smallGeometry) _ _ := run_performAll huse (.nil rfl)
  exact (snapshot_round_trip blankFlash_formatted bare_nil.named hrun
    (Prod.ext (by decide +kernel) rfl) hlater).mpr (by decide +kernel)

/-- A snapshot of a full page is stored but cannot be restored. -/
theorem full_snapshot_refused :
    Run (Started smallGeometry blankFlash) (SnapshotStep smallGeometry)
        (performAll smallGeometry fillingCalls startedStore).1 fullStore ∧
      (storeToFactory smallGeometry fullStore).1 = true ∧
      ¬ RoundTrip smallGeometry fullStore (storeToFactory smallGeometry fullStore).2 := by
  have hstep : ∀ h s, ∀ op ∈ fillingCalls, SnapshotStep smallGeometry h s
      (op, (perform smallGeometry op s).1) (perform smallGeometry op s).2 := by
    intro h s op hop
    rcases List.mem_append.mp hop with hop | hop
    · obtain ⟨a, _, rfl⟩ := List.mem_map.mp hop
      refine ⟨?_, nofun, rfl⟩
      rintro e c he
      cases he
      exact (by decide : (7 : UInt16) ≠ erasedValue)
    · rw [List.mem_singleton.mp hop]
      exact ⟨nofun, nofun, rfl⟩
  exact ⟨run_performAll hstep (.nil started_startedStore), by decide +kernel,
    fun h => absurd h.1 (by decide +kernel)⟩

end Zlibs.EmuEeprom
