import Zlibs.EmuEeprom.Serving

/-! The store over a backend that never fails refines a map from addresses to values. -/
namespace Zlibs.EmuEeprom

open Zlibs.Lib

variable {g : Geometry} {s t : State} {F : List Entry} {m : Contents} {V : Permitted}
  {flash : Flash} {op : Operation} {out : Outcome} {a : Nat}

/-- The abstract map after a call: an accepted write sets an address, a format clears all. -/
def Contents.after (m : Contents) : Call → Contents
  | (.write entry _, .written .ok) => m.set entry.address.toNat entry.value
  | (.format _, .done true) => fun _ => none
  | _ => m

/-- The value of the last accepted write to each address since the last format. -/
def lastWritten (calls : List Call) : Contents := calls.foldl Contents.after fun _ => none

/-- The calls a run is made of: no value is the erased one, no snapshot is restored, and an
instance is initialized again only directly after a successful flush. -/
def Admitted (calls : List Call) : Operation → Prop
  | .init => calls.getLast? = some (.flush, .done true)
  | .write entry _ => entry.value ≠ erasedValue
  | .restoreFromFactory => False
  | _ => True

/-- The state after a successful `init` on a flash. -/
def Started (g : Geometry) (flash : Flash) (s : State) : Prop :=
  init g (State.powerUp flash never) = (true, s)

def MapStep (g : Geometry) (calls : List Call) (s : State) (call : Call) (t : State) : Prop :=
  Admitted calls call.1 ∧ perform g call.1 s = (call.2, t)

/-- Every value may show. -/
def Permitted.any : Permitted := fun _ _ => True

theorem any_none : Permitted.any.Holds g fun _ => none := fun _ _ => trivial

theorem lastWritten_concat (calls : List Call) (call : Call) :
    lastWritten (calls ++ [call]) = (lastWritten calls).after call := by
  rw [lastWritten, List.foldl_append]
  rfl

/-- The calls of everyday use. -/
def Operation.InUse : Operation → Prop
  | .read _ => True
  | .write entry _ => entry.value ≠ erasedValue
  | .flush => True
  | .pageTransfer => True
  | _ => False

/-- What a call of a served store leaves. -/
structure Carried (g : Geometry) (m : Contents) (F : List Entry) (op : Operation) (out : Outcome)
    (F' : List Entry) (t : State) : Prop where
  serves : Serves g .any (m.after (op, out)) F' t
  settled : op = .flush → Settled g .any m F' t
  named : Named F → Named F'
  kept : op.InUse → F' = F

theorem Serves.perform (h : Serves g .any m F s) (hi : op ≠ .init) (hf : op ≠ .restoreFromFactory)
    (hv : ∀ e c, op = .write e c → e.value ≠ erasedValue) :
    wp (perform g op) (fun out t => ∃ F', Carried g m F op out F' t) s := by
  cases op with
  | init => exact absurd rfl hi
  | restoreFromFactory => exact absurd rfl hf
  | read a =>
    apply wp_bind_of (h.read_answer a)
    rintro r t ⟨_, n, rfl⟩
    exact ⟨F, h.atCalls n, (fun h => by cases h), id, fun _ => rfl⟩
  | write e cacheOnly =>
    have hne := hv e cacheOnly rfl
    by_cases hbad : e.address = reservedStatusAddress ∨ e.address.toNat ≥ g.maxAddress
    · rw [EmuEeprom.perform, wp_bind, wp, write_refused hbad]
      exact ⟨F, h, (fun h => by cases h), id, fun _ => rfl⟩
    · have hbad := not_or.mp hbad
      apply wp_bind_of (h.write hbad.1 (Nat.lt_of_not_le hbad.2) hne trivial cacheOnly)
      rintro r t (⟨rfl, ht⟩ | ⟨rfl, ht⟩)
      · exact ⟨F, ht, (fun h => by cases h), id, fun _ => rfl⟩
      · exact ⟨F, ht.serves, (fun h => by cases h), id, fun _ => rfl⟩
  | flush =>
    apply wp_bind_of h.flush
    rintro r t ⟨rfl, ht⟩
    exact ⟨F, ht.serves, fun _ => ht, id, fun _ => rfl⟩
  | pageTransfer =>
    apply wp_bind_of h.pageTransfer
    rintro r t ⟨rfl, ht⟩
    exact ⟨F, ht.serves, (fun h => by cases h), id, fun _ => rfl⟩
  | pageStatus q =>
    apply wp_bind_of (h.pageStatus q)
    intro r t ht
    exact ⟨F, ht, (fun h => by cases h), id, fun _ => rfl⟩
  | format formatFactoryPage =>
    apply wp_bind_of (h.format any_none formatFactoryPage)
    rintro r t ⟨rfl, ht⟩
    refine ⟨_, ht.serves, (fun h => by cases h), fun hF => ?_, False.elim⟩
    cases formatFactoryPage with
    | true => exact bare_nil.named
    | false => exact hF
  | storeToFactory =>
    apply wp_bind_of h.storeToFactory
    rintro r t ⟨rfl, L, A, hs, hL, _⟩
    exact ⟨L A, ⟨L, A, [], hs, hL⟩, (fun h => by cases h), fun _ => hs.working.intact.named, False.elim⟩

/-- The store serves the abstract map; after a flush the flash shows it. -/
def Simulates (g : Geometry) (calls : List Call) (s : State) : Prop :=
  (∃ F, Serves g .any (lastWritten calls) F s) ∧
    (calls.getLast? = some (.flush, .done true) →
      ∃ F, Settled g .any (lastWritten calls) F s)

theorem Simulates.step {calls : List Call} {call : Call} (h : Simulates g calls s)
    (hn : MapStep g calls s call t) : Simulates g (calls ++ [call]) t := by
  obtain ⟨op, out⟩ := call
  obtain ⟨hadm, hrun⟩ := hn
  have hrun : EmuEeprom.perform g op s = (out, t) := hrun
  obtain ⟨⟨F, hs⟩, hflushed⟩ := h
  rw [Simulates, lastWritten_concat, List.getLast?_concat]
  have hother : op ≠ .init → op ≠ .restoreFromFactory →
      (∀ e c, op = .write e c → e.value ≠ erasedValue) →
      (∃ F, Serves g .any ((lastWritten calls).after (op, out)) F t) ∧
        (some (op, out) = some (.flush, .done true) →
          ∃ F, Settled g .any ((lastWritten calls).after (op, out)) F t) := by
    intro hi hf hv
    have hstep := hs.perform hi hf hv
    rw [wp, hrun] at hstep
    obtain ⟨F', hcarried⟩ := hstep
    refine ⟨⟨F', hcarried.serves⟩, fun heq => ?_⟩
    obtain ⟨rfl, rfl⟩ := Prod.mk.inj (Option.some.inj heq)
    exact ⟨F', hcarried.settled rfl⟩
  cases op with
  | init =>
    obtain ⟨F', hset⟩ := hflushed hadm
    have hinit := hset.init
    have hrun : (Outcome.done (EmuEeprom.init g s).1, (EmuEeprom.init g s).2) = (out, t) := hrun
    obtain ⟨rfl, rfl⟩ := Prod.mk.inj hrun
    exact ⟨⟨F', hinit.2.serves⟩, fun h => by cases h⟩
  | restoreFromFactory => exact absurd hadm id
  | write e c =>
    refine hother (fun h => by cases h) (fun h => by cases h) ?_
    rintro e' c' heq
    cases heq
    exact hadm
  | read => exact hother (fun h => by cases h) (fun h => by cases h) fun _ _ h => by cases h
  | flush => exact hother (fun h => by cases h) (fun h => by cases h) fun _ _ h => by cases h
  | pageTransfer => exact hother (fun h => by cases h) (fun h => by cases h) fun _ _ h => by cases h
  | pageStatus => exact hother (fun h => by cases h) (fun h => by cases h) fun _ _ h => by cases h
  | format => exact hother (fun h => by cases h) (fun h => by cases h) fun _ _ h => by cases h
  | storeToFactory => exact hother (fun h => by cases h) (fun h => by cases h) fun _ _ h => by cases h

theorem simulates_run {calls : List Call} (hflash : flash.Formatted g F)
    (hr : Run (Started g flash) (MapStep g) calls s) : Simulates g calls s := by
  refine Run.invariant ?_ (fun _ _ _ _ h hn => h.step hn) hr
  intro s hs
  have hinit := hflash.init any_none
  rw [wp, hs] at hinit
  exact ⟨⟨F, hinit.2.serves⟩, fun h => by cases h⟩

/-- Every read delivers the last accepted write, and a successful flush makes the whole map
durable. -/
theorem store_refines_map {calls : List Call} (hflash : flash.Formatted g F)
    (hr : Run (Started g flash) (MapStep g) calls s) :
    (∀ a, (read g a s).1 = (lastWritten calls).answer g a) ∧
      ∀ t, flush g s = (true, t) →
        ∃ u, init g (State.powerUp t.hwa.flash never) = (true, u) ∧
          ∀ as, (readAll g as u).1 = as.map ((lastWritten calls).answer g) := by
  obtain ⟨⟨F', hs⟩, _⟩ := simulates_run hflash hr
  refine ⟨fun a => (hs.read_answer a).1, fun t ht => ?_⟩
  have hflush := hs.flush
  rw [wp, ht] at hflush
  have hinit := hflush.2.init_powerUp
  exact ⟨_, Prod.ext hinit.1 rfl, readAll_spec hinit.2.serves⟩

/-- A small instance started on a blank flash. -/
def startedStore : State := (init smallGeometry (State.powerUp blankFlash never)).2

theorem started_startedStore : Started smallGeometry blankFlash startedStore :=
  Prod.ext (by decide +kernel) rfl

theorem write_read_refines_map :
    let result := performAll smallGeometry [.write ⟨1, 7⟩ true, .read 1] startedStore
    (∀ a, (read smallGeometry a result.2).1 = (lastWritten result.1).answer smallGeometry a) ∧
      ∀ t, flush smallGeometry result.2 = (true, t) →
        ∃ u, init smallGeometry (State.powerUp t.hwa.flash never) = (true, u) ∧
          ∀ as, (readAll smallGeometry as u).1 =
            as.map ((lastWritten result.1).answer smallGeometry) := by
  have hstep : ∀ h s, ∀ op ∈ [Operation.write ⟨1, 7⟩ true, .read 1], MapStep smallGeometry h s
      (op, (perform smallGeometry op s).1) (perform smallGeometry op s).2 := by
    intro h s op hop
    refine ⟨?_, rfl⟩
    rcases List.mem_pair.mp hop with rfl | rfl
    · exact (by decide : (7 : UInt16) ≠ erasedValue)
    · trivial
  have hrun := run_performAll hstep (.nil started_startedStore)
  exact store_refines_map blankFlash_formatted hrun

end Zlibs.EmuEeprom
