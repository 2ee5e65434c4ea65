import Zlibs.Lib.Machine
import Zlibs.Lib.Run
import Zlibs.Settings.Atomicity

/-! A manager and its storage as a table: for each setting the value held and the value kept. -/
namespace Zlibs.Settings
open Lib

variable {n : Nat} {σ : Type}

/-- The values held, and those that outlive a restart. -/
structure Table (settings : Fin n → Setting) where
  held : Values settings
  kept : (i : Fin n) → Option (settings i).Value

namespace SettingsManager

/-- What may happen to a device. After a restart there is a new manager. -/
inductive Use (mgr : SettingsManager n) where
  | init
  | update (i : Fin n) (value : (mgr.settings i).Value) (retention : Bool)
  | reset
  | restart

variable (mgr : SettingsManager n) (b : Backend σ)

/-- A use, paired with its answer. -/
def use (d : mgr.State σ) (u : mgr.Use) : Option (mgr.Use × Bool) × mgr.State σ :=
  let r := match u with
    | .init => mgr.init b d
    | .update i value retention => mgr.update b i value retention d
    | .reset => mgr.reset b d
    | .restart => (true, { d with values := defaults mgr.settings })
  (some (u, r.1), r.2)

/-- An update of a table. Only where saves fail is a value ever held that is refused. -/
inductive TableUpdate (fails : Prop) (i : Fin n) (value : (mgr.settings i).Value) :
    Bool → Table mgr.settings → Bool → Table mgr.settings → Prop
  | refused {retention : Bool} {t : Table mgr.settings} (h : ¬ (mgr.settings i).Accepts value) :
      TableUpdate fails i value retention t false t
  | held {t : Table mgr.settings} (h : (mgr.settings i).Accepts value) :
      TableUpdate fails i value false t true { t with held := Function.update t.held i value }
  | saved {t : Table mgr.settings} (h : (mgr.settings i).Accepts value) :
      TableUpdate fails i value true t true
        ⟨Function.update t.held i value, Function.update t.kept i (some value)⟩
  | unsaved {t : Table mgr.settings} (h : (mgr.settings i).Accepts value) (hf : fails) :
      TableUpdate fails i value true t false { t with held := Function.update t.held i value }

/-- A reset goes through the settings until an update is refused. -/
inductive TableReset (fails : Prop) :
    List (Fin n) → Table mgr.settings → Bool → Table mgr.settings → Prop
  | done {t : Table mgr.settings} : TableReset fails [] t true t
  | kept {i : Fin n} {rest : List (Fin n)} {ok : Bool} {t t' : Table mgr.settings}
      (h : (mgr.settings i).keepOnReset = true) (hr : TableReset fails rest t ok t') :
      TableReset fails (i :: rest) t ok t'
  | next {i : Fin n} {rest : List (Fin n)} {ok : Bool} {t t' t'' : Table mgr.settings}
      (h : (mgr.settings i).keepOnReset = false)
      (hu : mgr.TableUpdate fails i (mgr.settings i).defaultValue true t true t')
      (hr : TableReset fails rest t' ok t'') : TableReset fails (i :: rest) t ok t''
  | stop {i : Fin n} {rest : List (Fin n)} {t t' : Table mgr.settings}
      (h : (mgr.settings i).keepOnReset = false)
      (hu : mgr.TableUpdate fails i (mgr.settings i).defaultValue true t false t') :
      TableReset fails (i :: rest) t false t'

inductive TableStep (fails : Prop) (t : Table mgr.settings) :
    mgr.Use × Bool → Table mgr.settings → Prop
  | init : TableStep fails t (.init, true) { t with held := fun i => (t.kept i).getD (t.held i) }
  | update {i : Fin n} {value : (mgr.settings i).Value} {retention ok : Bool}
      {t' : Table mgr.settings} (h : mgr.TableUpdate fails i value retention t ok t') :
      TableStep fails t (.update i value retention, ok) t'
  | reset {ok : Bool} {t' : Table mgr.settings}
      (h : mgr.TableReset fails (List.finRange n) t ok t') : TableStep fails t (.reset, ok) t'
  | restart : TableStep fails t (.restart, true) { t with held := defaults mgr.settings }

abbrev TableRun (fails : Prop) (t : Table mgr.settings) :
    List (mgr.Use × Bool) → Table mgr.settings → Prop :=
  Run (· = t) fun _ s l s' => mgr.TableStep fails s l s'

/-- Some save fails. -/
def SaveFails : Prop := ∃ k storage name data, b.saveOne k storage name data = none

/-- The entries of the storage are the values kept, under their keys. -/
structure Represents (d : mgr.State σ) (t : Table mgr.settings) : Prop where
  held : d.values = t.held
  entries : ∀ entry, entry ∈ b.entries d.storage mgr.subtreeName ↔
    ∃ i value, t.kept i = some value ∧ entry = ⟨(mgr.settings i).key, value.toList, true⟩

variable {mgr b} {i : Fin n} {value : (mgr.settings i).Value} {retention : Bool}
  {d : mgr.State σ} {t : Table mgr.settings} {entries : List Entry}

theorem Lawful.stored_absent (h : mgr.Lawful b)
    (hentries : ∀ entry ∈ entries, ∃ j data, j ≠ i ∧ entry = ⟨(mgr.settings j).key, data, true⟩) :
    mgr.stored b i entries = none := by
  induction entries with
  | nil => rfl
  | cons entry rest ih =>
    obtain ⟨j, data, hne, rfl⟩ := hentries _ List.mem_cons_self
    have hrest := ih fun entry he => hentries entry (List.mem_cons_of_mem _ he)
    simp only [SettingsManager.stored, h.goesOn, if_true, hrest, h.taken_other hne, Option.or_none]

theorem Represents.stored (h : mgr.Lawful b) (hr : mgr.Represents b d t) :
    mgr.stored b i (b.entries d.storage mgr.subtreeName) = t.kept i := by
  cases hkept : t.kept i with
  | none =>
    refine h.stored_absent fun entry he => ?_
    obtain ⟨j, value, hj, rfl⟩ := (hr.entries entry).mp he
    refine ⟨j, _, fun hji => ?_, rfl⟩
    subst hji
    rw [hkept] at hj
    cases hj
  | some value =>
    let values : Values mgr.settings := fun j => (t.kept j).getD (defaults mgr.settings j)
    have hvalue : values i = value := by simp only [values, hkept, Option.getD_some]
    have hcopies : ∀ entry ∈ b.entries d.storage mgr.subtreeName,
        ∃ j, entry = ⟨(mgr.settings j).key, (values j).toList, true⟩ := by
      intro entry he
      obtain ⟨j, value, hj, rfl⟩ := (hr.entries entry).mp he
      exact ⟨j, by simp only [values, hj, Option.getD_some]⟩
    obtain hs | ⟨-, hkeys⟩ := @Lawful.stored _ _ _ _ i h _ _ hcopies
    · rw [hs, hvalue]
    · exact absurd rfl (hkeys _ ((hr.entries _).mpr ⟨i, value, hkept, rfl⟩))

theorem loadSubtree_complete {values : Values mgr.settings}
    (hgo : ∀ entry ∈ entries, mgr.goesOn b entry = true) :
    (mgr.loadSubtree b entries values).1 = true := by
  induction entries generalizing values with
  | nil => rfl
  | cons entry rest ih =>
    have hfirst : (mgr.settingsLoad b entry values).1 = true :=
      settingsLoad_goesOn.trans (hgo entry List.mem_cons_self)
    rw [loadSubtree]
    rcases hload : mgr.settingsLoad b entry values with ⟨_ | _, loaded⟩
    · rw [hload] at hfirst
      cases hfirst
    · exact ih fun entry he => hgo entry (List.mem_cons_of_mem _ he)

theorem Represents.init (h : mgr.Lawful b) (hload : b.loadResult true = true)
    (hr : mgr.Represents b d t) : (mgr.init b d).1 = true ∧
      mgr.Represents b (mgr.init b d).2 { t with held := fun i => (t.kept i).getD (t.held i) } := by
  have hcomplete : (mgr.loadSubtree b (b.entries d.storage mgr.subtreeName) d.values).1 = true := by
    refine loadSubtree_complete fun entry he => ?_
    obtain ⟨i, value, -, rfl⟩ := (hr.entries entry).mp he
    exact h.goesOn
  refine ⟨?_, ?_, ?_⟩
  · simp only [SettingsManager.init, h.subsysInit, if_true, hcomplete, hload]
  · funext i
    rw [init_values (h.subsysInit _), hr.stored h, hr.held]
  · simp only [SettingsManager.init, h.subsysInit, if_true]
    exact hr.entries

theorem Represents.saved (h : mgr.Lawful b) (hr : mgr.Represents b d t) {storage : σ}
    (hs : b.saveOne d.attempts d.storage (mgr.path i) value.toList = some storage) :
    mgr.Represents b ⟨Function.update d.values i value, storage, d.attempts + 1⟩
      ⟨Function.update t.held i value, Function.update t.kept i (some value)⟩ := by
  refine ⟨by rw [hr.held], fun entry => (h.saveOne _ _ _ i _ hs entry).trans ?_⟩
  constructor
  · rintro (rfl | ⟨hname, he⟩)
    · exact ⟨i, value, Function.update_self .., rfl⟩
    · obtain ⟨j, v, hj, rfl⟩ := (hr.entries entry).mp he
      have hne : j ≠ i := fun hji => hname (congrArg (fun k => (mgr.settings k).key) hji)
      exact ⟨j, v, (Function.update_of_ne hne ..).trans hj, rfl⟩
  · rintro ⟨j, v, hj, rfl⟩
    rcases eq_or_ne j i with rfl | hne
    · have hv : Function.update t.kept j (some value) j = some v := hj
      rw [Function.update_self] at hv
      cases hv
      exact .inl rfl
    · have hold : t.kept j = some v := (Function.update_of_ne hne ..).symm.trans hj
      exact .inr ⟨fun hkey => hne (h.key_injective hkey), (hr.entries _).mpr ⟨j, v, hold, rfl⟩⟩

theorem Represents.update (h : mgr.Lawful b) (hr : mgr.Represents b d t) (i : Fin n)
    (value : (mgr.settings i).Value) (retention : Bool) :
    ∃ t', mgr.TableUpdate (SaveFails b) i value retention t (mgr.update b i value retention d).1 t' ∧
      mgr.Represents b (mgr.update b i value retention d).2 t' := by
  by_cases ha : (mgr.settings i).Accepts value
  swap
  · rw [update_refused ha]
    exact ⟨t, .refused ha, hr⟩
  have hheld : Function.update d.values i value = Function.update t.held i value := by rw [hr.held]
  rw [update_accepted ha]
  cases retention with
  | false => exact ⟨_, .held ha, hheld, hr.entries⟩
  | true =>
    simp only [if_true, save, Function.update_self]
    rcases hs : b.saveOne d.attempts d.storage (mgr.path i) value.toList with _ | storage
    · exact ⟨_, .unsaved ha ⟨_, _, _, _, hs⟩, hheld, hr.entries⟩
    · exact ⟨_, .saved ha, hr.saved h hs⟩

theorem Represents.reset (h : mgr.Lawful b) (hr : mgr.Represents b d t) (is : List (Fin n)) :
    ∃ t', mgr.TableReset (SaveFails b) is t (writeEach (mgr.resetOne b) is d).1 t' ∧
      mgr.Represents b (writeEach (mgr.resetOne b) is d).2 t' := by
  induction is generalizing d t with
  | nil => exact ⟨t, .done, hr⟩
  | cons i rest ih =>
    rw [writeEach_cons]
    cases hkeep : (mgr.settings i).keepOnReset with
    | true =>
      have hone : mgr.resetOne b i d = (true, d) := by
        rw [resetOne, if_pos hkeep]
        rfl
      obtain ⟨t', hstep, hr'⟩ := ih hr
      rw [hone]
      exact ⟨t', .kept hkeep hstep, hr'⟩
    | false =>
      have hone : mgr.resetOne b i d = mgr.update b i (mgr.settings i).defaultValue true d := by
        rw [resetOne, if_neg (by rw [hkeep]; exact Bool.false_ne_true)]
      obtain ⟨t', hu, hr'⟩ := hr.update h i (mgr.settings i).defaultValue true
      rw [hone]
      cases hok : (mgr.update b i (mgr.settings i).defaultValue true d).1 with
      | true =>
        rw [hok] at hu
        obtain ⟨t'', hstep, hr''⟩ := ih hr'
        exact ⟨t'', .next hkeep hu hstep, hr''⟩
      | false =>
        rw [hok] at hu
        exact ⟨t', .stop hkeep hu, hr'⟩

theorem Represents.use (h : mgr.Lawful b) (hload : b.loadResult true = true)
    (hr : mgr.Represents b d t) (u : mgr.Use) :
    ∃ l t', (mgr.use b d u).1 = some l ∧ mgr.TableStep (SaveFails b) t l t' ∧
      mgr.Represents b (mgr.use b d u).2 t' := by
  cases u with
  | init =>
    obtain ⟨hok, hr'⟩ := hr.init h hload
    exact ⟨_, _, congrArg (fun ok => some (Use.init, ok)) hok, .init, hr'⟩
  | update i value retention =>
    obtain ⟨t', hu, hr'⟩ := hr.update h i value retention
    exact ⟨_, t', rfl, .update hu, hr'⟩
  | reset =>
    obtain ⟨t', hstep, hr'⟩ := hr.reset h (List.finRange n)
    exact ⟨_, t', rfl, .reset hstep, hr'⟩
  | restart => exact ⟨_, _, rfl, .restart, rfl, hr.entries⟩

/-- Whatever is called, in whatever order, with restarts in between and saves that may fail, the
answers are those of a table in which an update holds its value and a save that succeeds keeps it,
a restart leaves what is kept, and `init` holds that again. -/
theorem manager_refines_table (mgr : SettingsManager n) (b : Backend σ) (h : mgr.Lawful b)
    (hload : b.loadResult true = true) (d : mgr.State σ) (t : Table mgr.settings)
    (hr : mgr.Represents b d t) (uses : List mgr.Use) :
    let r := feed (mgr.use b) d uses
    ∃ t', mgr.TableRun (SaveFails b) t r.1 t' ∧ mgr.Represents b r.2 t' := by
  induction uses using List.reverseRecOn with
  | nil => exact ⟨t, .nil rfl, hr⟩
  | append_singleton uses u ih =>
    obtain ⟨t', hrun, hr'⟩ := ih
    obtain ⟨l, t'', hanswer, hstep, hr''⟩ := hr'.use h hload u
    rw [feed_append]
    simp only [feed, hanswer, Option.toList_some, List.append_nil]
    exact ⟨t'', hrun.snoc hstep, hr''⟩

/-- The second save fails, so the value of the first is loaded after the restart. -/
theorem manager_refines_table_channel : ∃ t' : Table channelManager.settings,
    channelManager.TableRun (SaveFails (failingBackend fun k => k = 1))
      ⟨defaults channelManager.settings, fun _ => none⟩
      [(.update 0 (channelValue 7) true, true), (.update 0 (channelValue 9) true, false),
        (.restart, true), (.init, true)] t' ∧ t'.held 0 = channelValue 7 := by
  have hr : channelManager.Represents (failingBackend fun k => k = 1)
      ⟨defaults channelManager.settings, none, 0⟩
      ⟨defaults channelManager.settings, fun _ => none⟩ := by
    refine ⟨rfl, fun entry => ⟨fun he => ?_, ?_⟩⟩
    · cases he
    · rintro ⟨i, value, hi, -⟩
      cases hi
  obtain ⟨t', hrun, hr'⟩ := manager_refines_table channelManager (failingBackend fun k => k = 1)
    (failingBackend_lawful _) rfl _ _ hr
    [.update 0 (channelValue 7) true, .update 0 (channelValue 9) true, .restart, .init]
  exact ⟨t', hrun, (congrFun hr'.held 0).symm⟩

end SettingsManager

end Zlibs.Settings
