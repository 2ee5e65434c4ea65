import Mathlib.Logic.Function.Basic
import Mathlib.Data.List.FinRange
import Zlibs.Lib.Sending

/-! `SettingsManager`: the values held and the copies of them in the settings storage. -/
namespace Zlibs.Settings
open Lib

/-- The bytes of an object. -/
abbrev Bytes := List UInt8

/-- A setting descriptor; its value is the object's `size` bytes. -/
structure Setting where
  key : String
  size : Nat
  defaultValue : Vector UInt8 size
  keepOnReset : Bool
  validate : Option (Vector UInt8 size → Bool)

namespace Setting

abbrev Value (s : Setting) : Type := Vector UInt8 s.size

def Accepts (s : Setting) (value : s.Value) : Prop := ∀ v ∈ s.validate, v value = true

instance {s : Setting} {value : s.Value} : Decidable (s.Accepts value) :=
  match h : s.validate with
  | none => isTrue fun v hv => by rw [h] at hv; cases hv
  | some validate =>
    if hok : validate value = true then isTrue fun v hv => by rw [h] at hv; cases hv; exact hok
    else isFalse fun ha => hok (ha validate h)

end Setting

/-- What the settings subsystem delivers when it loads a subtree: the bytes that the read callback
leaves in a buffer of the entry's length, and whether it reports success. -/
structure Entry where
  name : String
  data : Bytes
  readable : Bool

/-- The settings subsystem, which may refuse the save of any attempt. -/
structure Backend (σ : Type) where
  subsysInit : σ → Bool
  /-- The entries of a subtree, their names relative to it. -/
  entries : σ → String → List Entry
  /-- Whether loading ends well, when the callback has stopped it and when it has not. -/
  loadResult : Bool → Bool
  saveOne : Nat → σ → String → Bytes → Option σ
  nameSteq : String → String → Bool × Option String

variable {n : Nat} {σ : Type}

/-- The values of a manager, one for each setting of its list. -/
abbrev Values (settings : Fin n → Setting) := (i : Fin n) → (settings i).Value

structure Device (settings : Fin n → Setting) (σ : Type) where
  values : Values settings
  storage : σ
  /-- The saves tried so far. -/
  attempts : Nat := 0

/-- The values of a new manager. -/
def defaults (settings : Fin n → Setting) : Values settings := fun i => (settings i).defaultValue

namespace BaseSetting

def update (s : Setting) (value newValue : s.Value) : Bool × s.Value :=
  match s.validate with
  | some validate => if validate newValue then (true, newValue) else (false, value)
  | none => (true, newValue)

end BaseSetting

/-- A compile-time list of settings and the subtree that they are kept in. -/
structure SettingsManager (n : Nat) where
  subtreeName : String
  settings : Fin n → Setting

namespace SettingsManager

variable (mgr : SettingsManager n) (b : Backend σ)

abbrev State (σ : Type) := Device mgr.settings σ

def path (i : Fin n) : String := mgr.subtreeName ++ "/" ++ (mgr.settings i).key

/-- `settings_name_steq(key, KEY, &next) && !next` -/
def keyMatches (name : String) (i : Fin n) : Bool :=
  (b.nameSteq name (mgr.settings i).key).1 && (b.nameSteq name (mgr.settings i).key).2.isNone

/-- The callback for one entry: the first setting with its key takes the bytes, if their number is
the size of its value. -/
def settingsLoad (entry : Entry) (values : Values mgr.settings) : Bool × Values mgr.settings :=
  match (List.finRange n).find? (mgr.keyMatches b entry.name) with
  | none => (false, values)
  | some i =>
    if h : entry.data.length = (mgr.settings i).size then
      (entry.readable, Function.update values i ⟨entry.data.toArray, by simpa using h⟩)
    else (true, values)

/-- The subtree is loaded until the callback fails. -/
def loadSubtree : List Entry → Values mgr.settings → Bool × Values mgr.settings
  | [], values => (true, values)
  | entry :: rest, values =>
    match mgr.settingsLoad b entry values with
    | (true, values) => loadSubtree rest values
    | (false, values) => (false, values)

def init : StateM (mgr.State σ) Bool := fun d =>
  if b.subsysInit d.storage then
    let (complete, values) := mgr.loadSubtree b (b.entries d.storage mgr.subtreeName) d.values
    (b.loadResult complete, { d with values := values })
  else (false, d)

/-- `settings_save_one` of the value held. -/
def save (i : Fin n) : StateM (mgr.State σ) Bool := fun d =>
  match b.saveOne d.attempts d.storage (mgr.path i) (d.values i).toList with
  | some storage => (true, { d with storage := storage, attempts := d.attempts + 1 })
  | none => (false, { d with attempts := d.attempts + 1 })

def update (i : Fin n) (value : (mgr.settings i).Value) (retention : Bool := true) :
    StateM (mgr.State σ) Bool := fun d =>
  let (ret, newValue) := BaseSetting.update (mgr.settings i) (d.values i) value
  let d := { d with values := Function.update d.values i newValue }
  if ret && retention then mgr.save b i d else (ret, d)

/-- What `reset` does with one setting. -/
def resetOne (i : Fin n) : StateM (mgr.State σ) Bool :=
  if (mgr.settings i).keepOnReset then pure true else mgr.update b i (mgr.settings i).defaultValue

def reset : StateM (mgr.State σ) Bool := writeEach (mgr.resetOne b) (List.finRange n)

variable {mgr b} {i : Fin n} {value : (mgr.settings i).Value} {retention : Bool}
  {d : mgr.State σ}

theorem update_accepted (h : (mgr.settings i).Accepts value) : mgr.update b i value retention d =
    if retention then mgr.save b i { d with values := Function.update d.values i value }
    else (true, { d with values := Function.update d.values i value }) := by
  have hu : BaseSetting.update (mgr.settings i) (d.values i) value = (true, value) := by
    unfold BaseSetting.update
    split
    · next validate hv => rw [if_pos (h validate hv)]
    · rfl
  simp only [update, hu, Bool.true_and]

theorem update_refused (h : ¬ (mgr.settings i).Accepts value) :
    mgr.update b i value retention d = (false, d) := by
  have hu : BaseSetting.update (mgr.settings i) (d.values i) value = (false, d.values i) := by
    unfold BaseSetting.update
    split
    · next validate hv =>
      refine if_neg fun hok => h fun v hv' => ?_
      rw [hv] at hv'
      cases hv'
      exact hok
    · next hv => exact absurd (fun v hv' => by rw [hv] at hv'; cases hv') h
  simp only [update, hu, Bool.false_and, Bool.false_eq_true, if_false, Function.update_eq_self]

@[simp] theorem save_values : (mgr.save b i d).2.values = d.values := by
  unfold save
  split <;> rfl

/-- The values after an update that is accepted, whatever becomes of its save. -/
theorem update_values (h : (mgr.settings i).Accepts value) :
    (mgr.update b i value retention d).2.values = Function.update d.values i value := by
  rw [update_accepted h]
  split
  · exact save_values
  · rfl

end SettingsManager

end Zlibs.Settings
