import Zlibs.Settings.Validity

/-! The values held against those stored, when saves may fail. -/
namespace Zlibs.Settings
open Lib

variable {n : Nat} {σ : Type}

namespace SettingsManager

variable (mgr : SettingsManager n) (b : Backend σ)

/-- What the runs rely on: an entry is found under the key that it was saved with, a save that is
accepted replaces the entry of its key, and the keys of the list are pairwise different. -/
structure Lawful : Prop where
  subsysInit : ∀ storage, b.subsysInit storage = true
  keyMatches : ∀ i j, mgr.keyMatches b (mgr.settings i).key j = true ↔ i = j
  saveOne : ∀ k storage storage' i data, b.saveOne k storage (mgr.path i) data = some storage' →
    ∀ entry, entry ∈ b.entries storage' mgr.subtreeName ↔
      entry = ⟨(mgr.settings i).key, data, true⟩ ∨
        entry.name ≠ (mgr.settings i).key ∧ entry ∈ b.entries storage mgr.subtreeName

/-- The save of an update does not fail, or it is of the value that is held already. -/
def Saves (i : Fin n) (value : (mgr.settings i).Value) (d : mgr.State σ) : Prop :=
  (mgr.settings i).Accepts value → value ≠ d.values i →
    (b.saveOne d.attempts d.storage (mgr.path i) value.toList).isSome

/-- The same of every update that a reset makes. -/
def ResetSaves : List (Fin n) → mgr.State σ → Prop
  | [], _ => True
  | i :: rest, d =>
    ((mgr.settings i).keepOnReset = false → mgr.Saves b i (mgr.settings i).defaultValue d) ∧
      ((mgr.resetOne b i d).1 = true → ResetSaves rest (mgr.resetOne b i d).2)

/-- The calls of a run that keep the storage up to date. -/
inductive RetainedStep (mgr : SettingsManager n) where
  | update (i : Fin n) (value : (mgr.settings i).Value)
  | reset

def performRetained (d : mgr.State σ) : mgr.RetainedStep → mgr.State σ
  | .update i value => (mgr.update b i value true d).2
  | .reset => (mgr.reset b d).2

def RetainedSaves (d : mgr.State σ) : mgr.RetainedStep → Prop
  | .update i value => mgr.Saves b i value d
  | .reset => mgr.ResetSaves b (List.finRange n) d

/-- The storage agrees with the values: it holds them under the keys of the list, and nothing else,
and where it holds nothing the value is the default one. -/
structure Agrees (d : mgr.State σ) : Prop where
  entry : ∀ entry ∈ b.entries d.storage mgr.subtreeName,
    ∃ i, entry = ⟨(mgr.settings i).key, (d.values i).toList, true⟩
  absent : ∀ i, (∀ entry ∈ b.entries d.storage mgr.subtreeName,
    entry.name ≠ (mgr.settings i).key) → d.values i = (mgr.settings i).defaultValue

variable {mgr b} {i : Fin n} {value : (mgr.settings i).Value} {retention : Bool}
  {d : mgr.State σ}

/-- When an update that is refused or whose save fails changes something. -/
theorem update_false_iff : ((mgr.update b i value retention d).1 = false →
      (mgr.update b i value retention d).2.values = d.values ∧
        (mgr.update b i value retention d).2.storage = d.storage) ↔
      (retention = true → mgr.Saves b i value d) := by
  by_cases ha : (mgr.settings i).Accepts value
  · cases retention with
    | false => simp [update_accepted ha]
    | true =>
      simp only [update_accepted ha, if_true, save, Saves, ha, true_implies, Function.update_self]
      rcases hs : b.saveOne d.attempts d.storage (mgr.path i) value.toList with _ | storage
      · by_cases hv : value = d.values i
        · subst hv
          simp
        · have hne : Function.update d.values i value ≠ d.values := by
            intro he
            apply hv
            rw [← he, Function.update_self]
          simp [hv, hne]
      · simp
  · simp [update_refused ha, Saves, ha]

/-- The first setting that an entry matches is the one that it was saved for. -/
theorem Lawful.find (h : mgr.Lawful b) :
    (List.finRange n).find? (mgr.keyMatches b (mgr.settings i).key) = some i := by
  rcases hfind : (List.finRange n).find? (mgr.keyMatches b (mgr.settings i).key) with _ | j
  · have hno := List.find?_eq_none.mp hfind i (List.mem_finRange i)
    exact absurd ((h.keyMatches i i).mpr rfl) hno
  · have hj := List.find?_some hfind
    rw [(h.keyMatches i j).mp hj]

theorem Lawful.key_injective (h : mgr.Lawful b) {j : Fin n}
    (hkey : (mgr.settings i).key = (mgr.settings j).key) : i = j := by
  apply (h.keyMatches i j).mp
  rw [hkey]
  exact (h.keyMatches j j).mpr rfl

/-- A stored copy of a value that is loaded becomes that value. -/
theorem Lawful.taken (h : mgr.Lawful b) {values : Values mgr.settings} :
    mgr.taken b i ⟨(mgr.settings i).key, (values i).toList, true⟩ = some (values i) := by
  simp only [SettingsManager.taken, h.find, if_true]
  rw [dif_pos (by simp)]
  simp [Vector.toList]

theorem Lawful.taken_other (h : mgr.Lawful b) {j : Fin n} (hne : j ≠ i) {data : Bytes} :
    mgr.taken b i ⟨(mgr.settings j).key, data, true⟩ = none := by
  simp only [SettingsManager.taken, h.find]
  exact if_neg fun he => hne (Option.some.inj he)

theorem Lawful.goesOn (h : mgr.Lawful b) {data : Bytes} :
    mgr.goesOn b ⟨(mgr.settings i).key, data, true⟩ = true := by
  simp [SettingsManager.goesOn, h.find]

/-- What is loaded from entries that are copies of the values. -/
theorem Lawful.stored (h : mgr.Lawful b) {values : Values mgr.settings} {entries : List Entry}
    (hentries : ∀ entry ∈ entries, ∃ i, entry = ⟨(mgr.settings i).key, (values i).toList, true⟩) :
    mgr.stored b i entries = some (values i) ∨
      mgr.stored b i entries = none ∧ ∀ entry ∈ entries, entry.name ≠ (mgr.settings i).key := by
  induction entries with
  | nil => exact .inr ⟨rfl, nofun⟩
  | cons entry rest ih =>
    obtain ⟨j, rfl⟩ := hentries _ List.mem_cons_self
    have hrest := ih fun entry he => hentries entry (List.mem_cons_of_mem _ he)
    simp only [SettingsManager.stored, h.goesOn, if_true]
    rcases hrest with hs | ⟨hs, hkeys⟩
    · left
      rw [hs]
      rfl
    · rcases eq_or_ne j i with rfl | hne
      · left
        rw [hs, h.taken]
        rfl
      · right
        rw [hs, h.taken_other hne]
        refine ⟨rfl, fun entry he => ?_⟩
        rcases List.mem_cons.mp he with rfl | he
        · exact fun hkey => hne (h.key_injective hkey)
        · exact hkeys entry he

/-- A new manager loads what the storage agrees with. -/
theorem Agrees.init (h : mgr.Lawful b) (ha : mgr.Agrees b d) (attempts : Nat) :
    (mgr.init b ⟨defaults mgr.settings, d.storage, attempts⟩).2.values = d.values := by
  funext i
  rw [init_values (h.subsysInit _)]
  rcases h.stored (i := i) ha.entry with hs | ⟨hs, hkeys⟩
  · rw [hs]
    rfl
  · rw [hs, ha.absent i hkeys]
    rfl

theorem save_agrees (h : mgr.Lawful b) (ha : mgr.Agrees b d) {storage : σ}
    (hs : b.saveOne d.attempts d.storage (mgr.path i) value.toList = some storage) :
    mgr.Agrees b ⟨Function.update d.values i value, storage, d.attempts + 1⟩ := by
  have hmem := h.saveOne _ _ _ i _ hs
  constructor
  · intro entry he
    rcases (hmem entry).mp he with rfl | ⟨hname, he⟩
    · exact ⟨i, by simp only [Function.update_self]⟩
    · obtain ⟨j, rfl⟩ := ha.entry entry he
      have hne : j ≠ i := fun hji => hname (by rw [hji])
      exact ⟨j, by simp only [Function.update_of_ne hne]⟩
  · intro j hkeys
    rcases eq_or_ne j i with rfl | hne
    · exact absurd rfl (hkeys _ ((hmem _).mpr (.inl rfl)))
    · show Function.update d.values i value j = _
      rw [Function.update_of_ne hne]
      apply ha.absent j
      intro entry he hname
      obtain ⟨k, rfl⟩ := ha.entry entry he
      obtain rfl : k = j := h.key_injective hname
      exact hkeys _ ((hmem _).mpr (.inr ⟨fun hki => hne (h.key_injective hki), he⟩)) rfl

theorem update_agrees (h : mgr.Lawful b) (ha : mgr.Agrees b d) (hsaves : mgr.Saves b i value d) :
    mgr.Agrees b (mgr.update b i value true d).2 := by
  by_cases hok : (mgr.settings i).Accepts value
  · simp only [update_accepted hok, if_true, save, Function.update_self]
    rcases hs : b.saveOne d.attempts d.storage (mgr.path i) value.toList with _ | storage
    · -- The save fails, so the value was the one that was held.
      have hv : value = d.values i := by
        by_contra hne
        have hsome := hsaves hok hne
        rw [hs] at hsome
        cases hsome
      rw [hv, Function.update_eq_self]
      exact ⟨ha.entry, ha.absent⟩
    · exact save_agrees h ha hs
  · rw [update_refused hok]
    exact ha

theorem resetEach_agrees {is : List (Fin n)} (h : mgr.Lawful b) (ha : mgr.Agrees b d)
    (hsaves : mgr.ResetSaves b is d) : mgr.Agrees b (writeEach (mgr.resetOne b) is d).2 := by
  induction is generalizing d with
  | nil => exact ha
  | cons i rest ih =>
    obtain ⟨hi, hrest⟩ := hsaves
    have hone : mgr.Agrees b (mgr.resetOne b i d).2 := by
      unfold resetOne
      split_ifs with hkeep
      · exact ha
      · exact update_agrees h ha (hi (by simpa using hkeep))
    rw [writeEach_cons]
    split_ifs with hok
    · exact ih hone (hrest hok)
    · exact hone

/-- The retained steps of a run, each from the state that the steps before it reach. -/
def RunSaves (mgr : SettingsManager n) (b : Backend σ) :
    mgr.State σ → List mgr.RetainedStep → Prop
  | _, [] => True
  | d, step :: rest => mgr.RetainedSaves b d step ∧ RunSaves mgr b (mgr.performRetained b d step) rest

theorem run_agrees (h : mgr.Lawful b) (ha : mgr.Agrees b d) {steps : List mgr.RetainedStep}
    (hsteps : RunSaves mgr b d steps) : mgr.Agrees b (steps.foldl (mgr.performRetained b) d) := by
  induction steps generalizing d with
  | nil => exact ha
  | cons step rest ih =>
    obtain ⟨hstep, hrest⟩ := hsteps
    refine ih ?_ hrest
    cases step with
    | update i value => exact update_agrees h ha hstep
    | reset => exact resetEach_agrees h ha hstep

/-- An update that returns false leaves everything as it was exactly if it is not the save of a new
value that fails; and a run without such a save ends with the values that a new manager loads. -/
theorem update_atomic (mgr : SettingsManager n) (b : Backend σ) (h : mgr.Lawful b) :
    (∀ (d : mgr.State σ) (i : Fin n) (value : (mgr.settings i).Value) (retention : Bool),
      ((mgr.update b i value retention d).1 = false →
        (mgr.update b i value retention d).2.values = d.values ∧
          (mgr.update b i value retention d).2.storage = d.storage) ↔
        (retention = true → mgr.Saves b i value d)) ∧
      ∀ (d : mgr.State σ) (steps : List mgr.RetainedStep) (attempts : Nat),
        d.values = defaults mgr.settings → b.entries d.storage mgr.subtreeName = [] →
        RunSaves mgr b d steps →
        let last := steps.foldl (mgr.performRetained b) d
        (mgr.init b ⟨defaults mgr.settings, last.storage, attempts⟩).2.values = last.values := by
  refine ⟨fun d i value retention => update_false_iff, ?_⟩
  intro d steps attempts hnew hempty hsteps
  have hstart : mgr.Agrees b d := by
    constructor
    · rw [hempty]
      nofun
    · intro i _
      rw [hnew]
      rfl
  exact (run_agrees h hstart hsteps).init h attempts

/-- A storage of the same setting that fails the save of a given attempt. -/
def failingBackend (fails : Nat → Bool) : Backend (Option Bytes) where
  subsysInit := fun _ => true
  entries := fun storage _ => (storage.map fun data => ⟨"channel", data, true⟩).toList
  loadResult := id
  saveOne := fun k _ _ data => if fails k then none else some (some data)
  nameSteq := fun name key => (name = key, none)

theorem failingBackend_lawful (fails : Nat → Bool) :
    channelManager.Lawful (failingBackend fails) where
  subsysInit := fun _ => rfl
  keyMatches := fun i j => by
    obtain rfl : i = j := Subsingleton.elim ..
    exact ⟨fun _ => rfl, fun _ => by simp [SettingsManager.keyMatches, failingBackend]⟩
  saveOne := by
    intro k storage storage' i data hsave entry
    have hstorage : storage' = some data := by
      simp only [failingBackend] at hsave
      split_ifs at hsave
      exact (Option.some.inj hsave).symm
    have hkeys : ∀ old, entry ∈ (failingBackend fails).entries old channelManager.subtreeName →
        entry.name = "channel" := by
      intro old hentry
      rcases old with _ | old
      · cases hentry
      · rw [List.mem_singleton.mp hentry]
    rw [hstorage]
    constructor
    · intro hentry
      exact .inl (List.mem_singleton.mp hentry)
    · rintro (rfl | ⟨hname, hentry⟩)
      · exact List.mem_singleton.mpr rfl
      · exact absurd (hkeys _ hentry) hname

theorem update_atomic_channel :
    (channelManager.init (failingBackend fun k => k = 1)
      ⟨defaults channelManager.settings,
        ([.update 0 (channelValue 7), .update 0 (channelValue 7)].foldl
          (channelManager.performRetained (failingBackend fun k => k = 1))
          ⟨defaults channelManager.settings, none, 0⟩).storage, 0⟩).2.values 0 = channelValue 7 := by
  have hrun := (update_atomic channelManager (failingBackend fun k => k = 1)
    (failingBackend_lawful _)).2 ⟨defaults channelManager.settings, none, 0⟩
    [.update 0 (channelValue 7), .update 0 (channelValue 7)] 0 rfl rfl
    ⟨fun _ _ => rfl, fun _ hne => absurd rfl hne, trivial⟩
  exact congrFun hrun 0

/-- The value is held although its save has failed and the update returns false, and a new manager
loads the former one. -/
theorem failed_save_kept :
    channelManager.Lawful (failingBackend fun _ => true) ∧
      let d : channelManager.State (Option Bytes) := ⟨defaults channelManager.settings, none, 0⟩
      let updated := channelManager.update (failingBackend fun _ => true) 0 (channelValue 7) true d
      updated.1 = false ∧ updated.2.values 0 = channelValue 7 ∧ d.values 0 = channelValue 1 ∧
        (channelManager.init (failingBackend fun _ => true)
          ⟨defaults channelManager.settings, updated.2.storage, 0⟩).2.values 0 = channelValue 1 :=
  ⟨failingBackend_lawful _, rfl, rfl, rfl, rfl⟩

end SettingsManager

end Zlibs.Settings
