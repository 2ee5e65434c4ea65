import Zlibs.Lib.StateProgram
import Zlibs.Settings.Manager

/-! Which values a manager comes to hold: those its settings accept, and whatever is loaded. -/
namespace Zlibs.Settings
open Lib

variable {n : Nat} {σ : Type}

/-- Every value that is held is accepted by its setting. -/
def Valid {settings : Fin n → Setting} (values : Values settings) : Prop :=
  ∀ i, (settings i).Accepts (values i)

theorem Valid.update {settings : Fin n → Setting} {values : Values settings} {i : Fin n}
    {value : (settings i).Value} (h : Valid values) (hv : (settings i).Accepts value) :
    Valid (Function.update values i value) := by
  intro j
  rcases eq_or_ne j i with rfl | hne
  · rw [Function.update_self]
    exact hv
  · rw [Function.update_of_ne hne]
    exact h j

namespace SettingsManager

/-- What may happen to a device: the calls, and any other change of the storage. -/
inductive Step (mgr : SettingsManager n) (σ : Type) where
  | init
  | update (i : Fin n) (value : (mgr.settings i).Value) (retention : Bool)
  | reset
  | store (storage : σ)

variable (mgr : SettingsManager n) (b : Backend σ)

def perform (d : mgr.State σ) : mgr.Step σ → mgr.State σ
  | .init => (mgr.init b d).2
  | .update i value retention => (mgr.update b i value retention d).2
  | .reset => (mgr.reset b d).2
  | .store storage => { d with storage := storage }

def run (d : mgr.State σ) (steps : List (mgr.Step σ)) : mgr.State σ := steps.foldl (mgr.perform b) d

/-- What the entry is as a value of the setting that takes it. -/
def taken (i : Fin n) (entry : Entry) : Option (mgr.settings i).Value :=
  if (List.finRange n).find? (mgr.keyMatches b entry.name) = some i then
    if h : entry.data.length = (mgr.settings i).size then
      some ⟨entry.data.toArray, by simpa using h⟩
    else none
  else none

/-- The callback does not fail for the entry. -/
def goesOn (entry : Entry) : Bool :=
  match (List.finRange n).find? (mgr.keyMatches b entry.name) with
  | none => false
  | some i => entry.data.length ≠ (mgr.settings i).size || entry.readable

/-- The last value of a setting among the entries up to the one that stops the loading. -/
def stored (i : Fin n) : List Entry → Option (mgr.settings i).Value
  | [] => none
  | entry :: rest => (if mgr.goesOn b entry then stored i rest else none).or (mgr.taken b i entry)

/-- What the storage delivers at `init` is accepted by the settings that take it. -/
def AcceptedContents (storage : σ) : Prop :=
  b.subsysInit storage = true → ∀ i, ∀ value ∈ mgr.stored b i (b.entries storage mgr.subtreeName),
    (mgr.settings i).Accepts value

variable {mgr b} {i : Fin n} {entry : Entry} {values : Values mgr.settings} {d : mgr.State σ}

theorem settingsLoad_goesOn : (mgr.settingsLoad b entry values).1 = mgr.goesOn b entry := by
  unfold settingsLoad goesOn
  rcases (List.finRange n).find? (mgr.keyMatches b entry.name) with _ | i
  · rfl
  · dsimp only
    split_ifs with h <;> simp [h]

theorem settingsLoad_values :
    (mgr.settingsLoad b entry values).2 i = (mgr.taken b i entry).getD (values i) := by
  unfold settingsLoad taken
  rcases (List.finRange n).find? (mgr.keyMatches b entry.name) with _ | j
  · rfl
  · rcases eq_or_ne j i with rfl | hne
    · simp only [if_true]
      split_ifs with h
      · exact Function.update_self ..
      · rfl
    · have hno : ¬ some j = some i := fun h => hne (Option.some.inj h)
      simp only [hno, if_false]
      split_ifs with h
      · exact Function.update_of_ne hne.symm _ _
      · rfl

/-- Loading leaves the last value of each setting that was stored, and the others as they were. -/
theorem loadSubtree_values {entries : List Entry} :
    (mgr.loadSubtree b entries values).2 i = (mgr.stored b i entries).getD (values i) := by
  induction entries generalizing values with
  | nil => rfl
  | cons entry rest ih =>
    have hgo : (mgr.settingsLoad b entry values).1 = _ := settingsLoad_goesOn
    have hvalue : (mgr.settingsLoad b entry values).2 i = _ := settingsLoad_values
    rw [loadSubtree, stored]
    rcases hload : mgr.settingsLoad b entry values with ⟨_ | _, loaded⟩ <;>
      rw [hload] at hgo hvalue <;> simp only [← hgo]
    · simpa using hvalue
    · simp only [if_true, ih]
      rcases mgr.stored b i rest with _ | later
      · simpa using hvalue
      · rfl

theorem init_values (hinit : b.subsysInit d.storage = true) : (mgr.init b d).2.values i =
    (mgr.stored b i (b.entries d.storage mgr.subtreeName)).getD (d.values i) := by
  rw [← loadSubtree_values]
  simp only [init, hinit, if_true]

/-- `init` keeps valid values valid exactly when the storage holds accepted ones. -/
theorem init_valid (h : Valid d.values) :
    Valid (mgr.init b d).2.values ↔ mgr.AcceptedContents b d.storage := by
  by_cases hinit : b.subsysInit d.storage = true
  · constructor
    · intro hv _ i value hvalue
      have hi := hv i
      rw [init_values hinit, Option.mem_def.mp hvalue] at hi
      exact hi
    · intro hc i
      rw [init_values hinit]
      rcases hs : mgr.stored b i (b.entries d.storage mgr.subtreeName) with _ | value
      · exact h i
      · exact hc hinit i value hs
  · have hsame : (mgr.init b d).2 = d := by simp [init, hinit]
    rw [hsame]
    exact ⟨fun _ hi => absurd hi hinit, fun _ => h⟩

theorem update_valid {value : (mgr.settings i).Value} {retention : Bool} (h : Valid d.values) :
    Valid (mgr.update b i value retention d).2.values := by
  by_cases ha : (mgr.settings i).Accepts value
  · rw [update_values ha]
    exact h.update ha
  · rw [update_refused ha]
    exact h

theorem resetOne_valid (h : Valid d.values) : Valid (mgr.resetOne b i d).2.values := by
  unfold resetOne
  split_ifs
  · exact h
  · exact update_valid h

theorem reset_valid (h : Valid d.values) : Valid (mgr.reset b d).2.values := by
  unfold reset
  induction List.finRange n generalizing d with
  | nil => exact h
  | cons i rest ih =>
    have hi : Valid (mgr.resetOne b i d).2.values := resetOne_valid h
    rw [writeEach_cons]
    split_ifs
    · exact ih hi
    · exact hi

theorem perform_valid {step : mgr.Step σ} (h : Valid d.values)
    (hstep : step = .init → mgr.AcceptedContents b d.storage) :
    Valid (mgr.perform b d step).values := by
  cases step with
  | init => exact (init_valid h).mpr (hstep rfl)
  | update i value retention => exact update_valid h
  | reset => exact reset_valid h
  | store storage => exact h

/-- Whatever is called and stored, the values held are valid if every `init` finds accepted contents
in the storage; and an `init` that does not find them makes them invalid. -/
theorem values_valid (mgr : SettingsManager n) (b : Backend σ) (d : mgr.State σ)
    (hdefaults : Valid (defaults mgr.settings)) (hnew : d.values = defaults mgr.settings)
    (steps : List (mgr.Step σ))
    (hsteps : ∀ before after, steps = before ++ .init :: after →
      mgr.AcceptedContents b (mgr.run b d before).storage) :
    (∀ before after, steps = before ++ after → Valid (mgr.run b d before).values) ∧
      (Valid (mgr.init b (mgr.run b d steps)).2.values ↔
        mgr.AcceptedContents b (mgr.run b d steps).storage) := by
  have hvalid : ∀ before after, steps = before ++ after → Valid (mgr.run b d before).values := by
    intro before
    induction before using List.reverseRecOn with
    | nil =>
      intro _ _
      show Valid d.values
      rw [hnew]
      exact hdefaults
    | append_singleton before step ih =>
      intro after hafter
      rw [List.append_assoc, List.singleton_append] at hafter
      have hbefore := ih _ hafter
      rw [run, List.foldl_append]
      refine perform_valid hbefore fun he => ?_
      rw [he] at hafter
      exact hsteps before after hafter
  exact ⟨hvalid, init_valid (hvalid steps [] (by rw [List.append_nil]))⟩

/-- A setting of one byte that has to be between 1 and 16. -/
def channelSetting : Setting where
  key := "channel"
  size := 1
  defaultValue := #v[1]
  keepOnReset := true
  validate := some fun value : Vector UInt8 1 => 0 < value[0].toNat && value[0].toNat ≤ 16

def channelValue (channel : UInt8) : channelSetting.Value := (#v[channel] : Vector UInt8 1)

def channelManager : SettingsManager 1 where
  subtreeName := "app"
  settings := fun _ => channelSetting

/-- A storage that holds nothing but the byte of the channel, if any. -/
def channelBackend : Backend (Option Bytes) where
  subsysInit := fun _ => true
  entries := fun storage _ => (storage.map fun data => ⟨"channel", data, true⟩).toList
  loadResult := id
  saveOne := fun _ _ _ data => some (some data)
  nameSteq := fun name key => (name = key, none)

theorem values_valid_channel :
    Valid (channelManager.run channelBackend ⟨defaults channelManager.settings, some [7], 0⟩
      [.init, .update 0 (channelValue 100) true, .reset]).values := by
  have hdefaults : Valid (defaults channelManager.settings) := by
    intro i
    show channelSetting.Accepts (channelValue 1)
    decide
  have hvalid := values_valid channelManager channelBackend
    ⟨defaults channelManager.settings, some [7], 0⟩ hdefaults rfl
    [.init, .update 0 (channelValue 100) true, .reset] ?_
  · exact hvalid.1 _ [] rfl
  · intro before after hsteps
    rcases before with _ | ⟨first, _ | ⟨second, _ | ⟨third, rest⟩⟩⟩
    · intro _ i value hvalue
      obtain rfl : i = 0 := Subsingleton.elim ..
      have hstored : value = channelValue 7 := (Option.some.inj hvalue).symm
      rw [hstored]
      show channelSetting.Accepts (channelValue 7)
      decide
    · cases hsteps
    · cases hsteps
    · simp at hsteps

/-- A byte that was stored under the key is loaded unchecked. -/
theorem stored_invalid_loaded : Valid (defaults channelManager.settings) ∧
    ¬ Valid (channelManager.run channelBackend
      ⟨defaults channelManager.settings, some [100], 0⟩ [.init]).values := by
  constructor
  · intro i
    show channelSetting.Accepts (channelValue 1)
    decide
  · intro h
    have hbad : ¬ channelSetting.Accepts (channelValue 100) := by decide
    exact hbad (h 0)

end SettingsManager

end Zlibs.Settings
