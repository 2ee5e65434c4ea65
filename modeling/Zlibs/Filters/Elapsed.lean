import Mathlib
import Zlibs.Filters.Analog

/-! A channel and the clock: it keeps the time of its last output in 32 bits. -/
namespace Zlibs.Filters

variable {config : FilterConfig} {ch : Channel} {uptime last shift : Nat} {x : UInt16}
  {samples : List (Nat × UInt16)}

namespace Channel

/-- The channel after an output at an uptime. -/
def stamped (uptime : Nat) (ch : Channel) : Channel :=
  { ch with lastStableMovementTime := uptime % 2 ^ 32 }

@[simp] theorem stamped_stamped {t : Nat} : (ch.stamped t).stamped last = ch.stamped last := rfl

/-- The slow threshold is due: the channel has been inactive, or the sample turns. -/
def SlowDue (config : FilterConfig) (elapsed : Nat) (x : UInt16) (ch : Channel) : Prop :=
  config.slowFilterEnableAfterInactiveMs.toNat < elapsed ∨
    decide (x.toNat ≥ ch.lastStableRawValue) ≠ ch.lastStableDirection

instance (elapsed : Nat) : Decidable (ch.SlowDue config elapsed x) :=
  inferInstanceAs (Decidable (_ ∨ _))

/-- What `filter_value` decides about the threshold. -/
def slowFilter (config : FilterConfig) (uptime rawValue : Nat) (ch : Channel) : Bool :=
  (uptime : Int) - ch.lastStableMovementTime > config.slowFilterEnableAfterInactiveMs.toNat ||
    decide (rawValue ≥ ch.lastStableRawValue) != ch.lastStableDirection

/-- A stored time of the first 2^32 milliseconds is the time of the output. Later ones make the
channel look inactive. -/
theorem slowFilter_iff (h : last ≤ uptime) :
    ((ch.stamped last).slowFilter config uptime x.toNat = true ↔
      ch.SlowDue config (uptime - last) x) ↔
      (last < 2 ^ 32 ∨ ch.SlowDue config (uptime - last) x) := by
  have hslow := config.slowFilterEnableAfterInactiveMs.toNat_lt
  have hdiv := Nat.div_add_mod last (2 ^ 32)
  unfold slowFilter SlowDue stamped
  simp only [Bool.or_eq_true, decide_eq_true_eq, bne_iff_ne]
  by_cases hturn : decide (x.toNat ≥ ch.lastStableRawValue) ≠ ch.lastStableDirection
  · exact ⟨fun _ => .inr (.inr hturn), fun _ => ⟨fun _ => .inr hturn, fun _ => .inr hturn⟩⟩
  · constructor
    · intro hiff
      by_contra hnot
      rw [not_or, not_or] at hnot
      obtain ⟨hlast, helapsed, _⟩ := hnot
      rcases hiff.mp (.inl (by omega)) with hs | hs
      · exact helapsed hs
      · exact hturn hs
    · rintro (hlast | hs)
      · rw [Nat.mod_eq_of_lt hlast]
        constructor
        · exact fun hs => hs.imp_left fun hs => by omega
        · exact fun hs => hs.imp_left fun hs => by omega
      · refine ⟨fun _ => hs, fun _ => ?_⟩
        rcases hs with hs | hs
        · exact .inl (by omega)
        · exact .inr hs

/-- A sample goes the same way when the threshold is the same. -/
theorem filterValue_stamped {u v s t : Nat}
    (h : (ch.stamped s).slowFilter config u x.toNat = (ch.stamped t).slowFilter config v x.toNat) :
    ((ch.stamped t).filterValue config v x.toNat).1 =
        ((ch.stamped s).filterValue config u x.toNat).1 ∧
      ((ch.stamped t).filterValue config v x.toNat).2 =
        ((ch.stamped s).filterValue config u x.toNat).2.stamped
          (if config.enabled ∧ ((ch.stamped s).filterValue config u x.toNat).1.isSome then v
            else t) := by
  have hdiff : (ch.stamped s).minReadingDiff config u x.toNat =
      (ch.stamped t).minReadingDiff config v x.toNat :=
    congrArg (fun slow : Bool => if slow then config.minRawReadingDiffSlow.toNat
      else config.minRawReadingDiffFast.toNat) h
  unfold filterValue
  rw [hdiff]
  generalize (ch.stamped t).minReadingDiff config v x.toNat = d
  cases he : config.enabled with
  | false => exact ⟨rfl, rfl⟩
  | true =>
    simp only [Bool.not_true, Bool.false_eq_true, if_false, true_and, stamped]
    by_cases hd : ((x.toNat : Int) - ch.lastStableRawValue).natAbs < d
    · simp [hd]
    · rcases hm : ch.medianFilter.filterValue config.medianFilterNumberOfReadings x.toNat with
        ⟨_ | value, median⟩
      · simp [hd]
      · simp only [hd, if_false, accept]
        split_ifs <;> simp_all

theorem filterValue_disabled (h : config.enabled = false) {n : Nat} :
    ch.filterValue config uptime n = (some n, ch) := by
  simp [filterValue, h]

variable (config)

/-- The time of the last output after a sample. -/
def lastOutput (last uptime : Nat) (x : UInt16) (ch : Channel) : Nat :=
  if config.enabled ∧ (ch.filterValue config uptime x.toNat).1.isSome then uptime else last

/-- What the channel returns for samples at their uptimes. -/
def outputs : Channel → List (Nat × UInt16) → List (Option Nat)
  | _, [] => []
  | ch, (uptime, x) :: samples =>
    (ch.filterValue config uptime x.toNat).1 ::
      outputs (ch.filterValue config uptime x.toNat).2 samples

/-- The slow threshold is used when it is due. -/
def SlowWhenDue : Nat → Channel → List (Nat × UInt16) → Prop
  | _, _, [] => True
  | last, ch, (uptime, x) :: samples =>
    (ch.slowFilter config uptime x.toNat = true ↔ ch.SlowDue config (uptime - last) x) ∧
      SlowWhenDue (ch.lastOutput config last uptime x)
        (ch.filterValue config uptime x.toNat).2 samples

/-- The last output of each sample is one of the first 2^32 milliseconds, or the slow threshold
is due. -/
def ClockFits : Nat → Channel → List (Nat × UInt16) → Prop
  | _, _, [] => True
  | last, ch, (uptime, x) :: samples =>
    (last < 2 ^ 32 ∨ ch.SlowDue config (uptime - last) x) ∧
      ClockFits (ch.lastOutput config last uptime x)
        (ch.filterValue config uptime x.toNat).2 samples

/-- The samples with a time added to each uptime. -/
def delay (shift : Nat) (samples : List (Nat × UInt16)) : List (Nat × UInt16) :=
  samples.map fun (uptime, x) => (uptime + shift, x)

variable {config}

theorem filterValue_stored : ((ch.stamped last).filterValue config uptime x.toNat).2 =
    ((ch.stamped last).filterValue config uptime x.toNat).2.stamped
      ((ch.stamped last).lastOutput config last uptime x) :=
  (filterValue_stamped rfl).2

theorem lastOutput_le (h : last ≤ uptime) : ch.lastOutput config last uptime x ≤ uptime := by
  unfold lastOutput
  split_ifs
  · exact Nat.le_refl _
  · exact h

theorem lastOutput_sorted (h : (last :: uptime :: samples.map Prod.fst).Pairwise (· ≤ ·)) :
    (ch.lastOutput config last uptime x :: samples.map Prod.fst).Pairwise (· ≤ ·) := by
  obtain ⟨hlast, h⟩ := List.pairwise_cons.mp h
  obtain ⟨huptime, hrest⟩ := List.pairwise_cons.mp h
  have hle : ch.lastOutput config last uptime x ≤ uptime :=
    lastOutput_le (hlast uptime (List.mem_cons_self ..))
  exact List.pairwise_cons.mpr ⟨fun t ht => Nat.le_trans hle (huptime t ht), hrest⟩

theorem slowWhenDue_iff (h : (last :: samples.map Prod.fst).Pairwise (· ≤ ·)) :
    SlowWhenDue config last (ch.stamped last) samples ↔
      ClockFits config last (ch.stamped last) samples := by
  induction samples generalizing last ch with
  | nil => exact Iff.rfl
  | cons sample samples ih =>
    obtain ⟨uptime, x⟩ := sample
    have hle : last ≤ uptime := (List.pairwise_cons.mp h).1 uptime (List.mem_cons_self ..)
    unfold SlowWhenDue ClockFits
    rw [filterValue_stored]
    exact and_congr (slowFilter_iff hle) (ih (lastOutput_sorted h))

/-- The run of the delayed samples decides both: its last outputs are the later ones. -/
theorem ClockFits.undelayed (h : (last :: samples.map Prod.fst).Pairwise (· ≤ ·))
    (hfits : ClockFits config (last + shift) (ch.stamped (last + shift)) (delay shift samples)) :
    ClockFits config last (ch.stamped last) samples ∧
      outputs config (ch.stamped (last + shift)) (delay shift samples) =
        outputs config (ch.stamped last) samples := by
  induction samples generalizing last ch with
  | nil => exact ⟨trivial, rfl⟩
  | cons sample samples ih =>
    obtain ⟨uptime, x⟩ := sample
    have hle : last ≤ uptime := (List.pairwise_cons.mp h).1 uptime (List.mem_cons_self ..)
    have helapsed : uptime + shift - (last + shift) = uptime - last := Nat.add_sub_add_right ..
    obtain ⟨hnow, hlater⟩ := hfits
    have hdue : ((ch.stamped (last + shift)).slowFilter config (uptime + shift) x.toNat = true ↔
        ch.SlowDue config (uptime + shift - (last + shift)) x) :=
      (slowFilter_iff (Nat.add_le_add_right hle shift)).mpr hnow
    have hfirst : last < 2 ^ 32 ∨ ch.SlowDue config (uptime - last) x := by
      rw [helapsed] at hnow
      exact hnow.imp_left fun hlast => by omega
    have hslow : (ch.stamped last).slowFilter config uptime x.toNat =
        (ch.stamped (last + shift)).slowFilter config (uptime + shift) x.toNat := by
      rw [Bool.eq_iff_iff, (slowFilter_iff hle).mpr hfirst, hdue, helapsed]
    obtain ⟨hout, hch⟩ := filterValue_stamped hslow
    have hlast : (ch.stamped (last + shift)).lastOutput config (last + shift) (uptime + shift) x =
        (ch.stamped last).lastOutput config last uptime x + shift := by
      unfold lastOutput
      rw [hout]
      split_ifs <;> rfl
    have hch' : ((ch.stamped (last + shift)).filterValue config (uptime + shift) x.toNat).2 =
        ((ch.stamped last).filterValue config uptime x.toNat).2.stamped
          ((ch.stamped last).lastOutput config last uptime x + shift) := by
      rw [← hlast]
      unfold lastOutput
      rw [hch, hout]
    rw [hlast, hch'] at hlater
    obtain ⟨hfits, hrest⟩ := ih (lastOutput_sorted h) hlater
    constructor
    · refine ⟨hfirst, ?_⟩
      rw [filterValue_stored]
      exact hfits
    · change _ :: outputs config _ (delay shift samples) = _
      rw [hout, hch', hrest, ← filterValue_stored]
      rfl

theorem delay_sorted (h : (last :: samples.map Prod.fst).Pairwise (· ≤ ·)) :
    ((last + shift) :: (delay shift samples).map Prod.fst).Pairwise (· ≤ ·) := by
  have hmap : (last + shift) :: (delay shift samples).map Prod.fst =
      (last :: samples.map Prod.fst).map (· + shift) := by
    simp [delay]
  rw [hmap, List.pairwise_map]
  exact h.imp fun hle => Nat.add_le_add_right hle shift

theorem outputs_disabled (h : config.enabled = false) :
    outputs config ch samples = samples.map fun sample => some sample.2.toNat := by
  induction samples generalizing ch with
  | nil => rfl
  | cons sample samples ih =>
    unfold outputs
    rw [filterValue_disabled h, ih, List.map_cons]

/-- A run and the same run at later uptimes agree: the samples that follow an output give the same
outputs, and the slow threshold is used when it is due. -/
def ByElapsed (config : FilterConfig) (last shift : Nat) (ch : Channel)
    (samples : List (Nat × UInt16)) : Prop :=
  outputs config (ch.stamped (last + shift)) (delay shift samples) =
      outputs config (ch.stamped last) samples ∧
    (config.enabled → SlowWhenDue config last (ch.stamped last) samples ∧
      SlowWhenDue config (last + shift) (ch.stamped (last + shift)) (delay shift samples))

/-- A filter goes by the time since the last output as long as that output is one of the first
2^32 milliseconds. -/
theorem elapsed_iff (h : (last :: samples.map Prod.fst).Pairwise (· ≤ ·)) :
    ByElapsed config last shift ch samples ↔
      (config.enabled →
        ClockFits config (last + shift) (ch.stamped (last + shift)) (delay shift samples)) := by
  unfold ByElapsed
  rw [slowWhenDue_iff h, slowWhenDue_iff (delay_sorted h)]
  constructor
  · exact fun hmeets he => (hmeets.2 he).2
  · intro hfits
    cases he : config.enabled with
    | false =>
      refine ⟨?_, nofun⟩
      rw [outputs_disabled he, outputs_disabled he, delay, List.map_map]
      rfl
    | true =>
      obtain ⟨hfirst, hout⟩ := (hfits he).undelayed h
      exact ⟨hout, fun _ => ⟨hfirst, hfits he⟩⟩

/-- Thresholds of 8 and 1. -/
def twoThresholds : FilterConfig := ⟨8, 1, 100, 1, 100, true⟩

/-- In the first 2^32 milliseconds the clock fits. -/
theorem clockFits_early (hlast : last < 2 ^ 32) (h : ∀ sample ∈ samples, sample.1 < 2 ^ 32) :
    ClockFits config last ch samples := by
  induction samples generalizing last ch with
  | nil => exact trivial
  | cons sample samples ih =>
    obtain ⟨hsample, hrest⟩ := List.forall_mem_cons.mp h
    refine ⟨.inl hlast, ih ?_ hrest⟩
    unfold lastOutput
    split_ifs
    · exact hsample
    · exact hlast

/-- Two outputs, the second after a turn, and a sample that the inactive channel drops. -/
theorem elapsed_three :
    outputs twoThresholds ({} : Channel) [(1, 104), (2, 90), (300, 95)] =
        [some 104, some 90, none] ∧
      ByElapsed twoThresholds 0 1000 {} [(1, 104), (2, 90), (300, 95)] := by
  refine ⟨?_, (elapsed_iff (by decide)).mpr fun _ => clockFits_early (by decide) ?_⟩
  · simp [outputs, filterValue, minReadingDiff, MedianFilter.filterValue, accept, EmaFilter.value,
      EmaFilter.percentageScale, MedianFilter.middleValue, twoThresholds]
  · simp [delay]

/-- A millisecond after an output of 100, a sample of 104 gives an output at boot and none after
2^32 milliseconds. -/
theorem late_sample_dropped :
    let ch := (({} : Channel).filterValue twoThresholds 0 100).2
    (({} : Channel).filterValue twoThresholds 0 100).1 = some 100 ∧
      ({} : Channel).filterValue twoThresholds (2 ^ 32) 100 = (some 100, ch.stamped (2 ^ 32)) ∧
      ¬ ByElapsed twoThresholds 0 (2 ^ 32) ch [(1, 104)] := by
  have hbefore : outputs twoThresholds
      ((({} : Channel).filterValue twoThresholds 0 100).2.stamped 0) [(1, 104)] = [some 104] := by
    simp [outputs, filterValue, minReadingDiff, MedianFilter.filterValue, accept, EmaFilter.value,
      EmaFilter.percentageScale, MedianFilter.middleValue, twoThresholds, stamped]
  have hafter : outputs twoThresholds
      ((({} : Channel).filterValue twoThresholds 0 100).2.stamped (2 ^ 32))
      (delay (2 ^ 32) [(1, 104)]) = [none] := by
    simp [outputs, delay, filterValue, minReadingDiff, MedianFilter.filterValue, accept,
      EmaFilter.value, EmaFilter.percentageScale, MedianFilter.middleValue, twoThresholds, stamped]
  refine ⟨?_, ?_, fun h => ?_⟩
  · simp [filterValue, minReadingDiff, MedianFilter.filterValue, accept, EmaFilter.value,
      EmaFilter.percentageScale, MedianFilter.middleValue, twoThresholds]
  · simp [filterValue, minReadingDiff, MedianFilter.filterValue, accept, EmaFilter.value,
      EmaFilter.percentageScale, MedianFilter.middleValue, twoThresholds, stamped]
  · exact nomatch hafter.symm.trans (h.1.trans hbefore)

end Channel

end Zlibs.Filters
