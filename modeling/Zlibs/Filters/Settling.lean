import Mathlib
import Zlibs.Filters.Analog

/-! What becomes of a channel that is fed the same sample for ever. -/
namespace Zlibs.Filters

variable {config : FilterConfig} {ch : Channel} {x uptime c p : Nat}

/-- A sequence that never grows is constant from some point on. -/
theorem eventually_constant {f : Nat → Nat} (h : ∀ k, f (k + 1) ≤ f k) :
    ∃ N, ∀ k, N ≤ k → f k = f N := by
  have hanti : Antitone f := antitone_nat_of_succ_le h
  obtain ⟨N, hN⟩ := WellFoundedGT.monotone_chain_condition
    (⟨fun k => OrderDual.toDual (f k), fun _ _ hij => hanti hij⟩ : ℕ →o ℕᵒᵈ)
  exact ⟨N, fun k hk => (OrderDual.toDual_inj.mp (hN k hk)).symm⟩

namespace EmaFilter

theorem value_of_le (hp : p ≤ 100) : value c x p = (p * x + (100 - p) * c) / 100 := by
  rw [value, if_neg (by simpa [percentageScale] using hp)]
  rfl

/-- The moving average and the sample that it is fed, in products. -/
theorem value_bounds (hp : p ≤ 100) : 100 * value c x p ≤ p * x + (100 - p) * c ∧
    p * x + (100 - p) * c < 100 * value c x p + 100 := by
  rw [value_of_le hp]
  omega

/-- The moving average approaches the sample, and never passes it. -/
theorem value_between (hp : p ≤ 100) :
    (c ≤ x → c ≤ value c x p ∧ value c x p ≤ x) ∧ (x ≤ c → x ≤ value c x p ∧ value c x p ≤ c) := by
  obtain ⟨q, hq⟩ := Nat.exists_eq_add_of_le hp
  obtain ⟨hlo, hhi⟩ := value_bounds (c := c) (x := x) (p := p) hp
  generalize value c x p = v at hlo hhi ⊢
  rw [hq, Nat.add_sub_cancel_left] at hlo hhi
  constructor
  · intro hcx
    constructor <;> nlinarith
  · intro hxc
    constructor <;> nlinarith

/-- A fixed point is as close to the sample as the truncation leaves it. -/
theorem fixed_point (hp : p ≤ 100) (hpos : 0 < p) (h : value c x p = c) :
    c ≤ x ∧ p * (x - c) < 100 := by
  obtain ⟨q, hq⟩ := Nat.exists_eq_add_of_le hp
  obtain ⟨hlo, hhi⟩ := value_bounds (c := c) (x := x) (p := p) hp
  rw [h, hq, Nat.add_sub_cancel_left] at hlo hhi
  have hcx : c ≤ x := by
    by_contra hlt
    have hxc : x + 1 ≤ c := by omega
    nlinarith
  obtain ⟨d, rfl⟩ := Nat.exists_eq_add_of_le hcx
  refine ⟨hcx, ?_⟩
  rw [Nat.add_sub_cancel_left]
  nlinarith

end EmaFilter

/-- The median of the samples of a window. -/
def median (size : Nat) (samples : List Nat) : Nat :=
  (samples.mergeSort (· ≤ ·)).getD (MedianFilter.middleValue size) 0

/-- The median of equal samples. -/
theorem median_eq {size : Nat} {samples : List Nat} (hlen : samples.length = size)
    (hpos : 0 < size) (h : ∀ sample ∈ samples, sample = x) : median size samples = x := by
  have hmiddle : MedianFilter.middleValue size < (samples.mergeSort (· ≤ ·)).length := by
    rw [List.length_mergeSort, hlen, MedianFilter.middleValue]
    omega
  rw [median, List.getD_eq_getElem?_getD, List.getElem?_eq_getElem hmiddle]
  exact h _ (List.mem_mergeSort.mp (List.getElem_mem hmiddle))

namespace Channel

def samples (ch : Channel) : List Nat := ch.medianFilter.analogSample

/-- The distance of a sample from the last one that was accepted. -/
def diff (x : Nat) (ch : Channel) : Nat := ((x : Int) - ch.lastStableRawValue).natAbs

theorem minReadingDiff_le (config : FilterConfig) (ch : Channel) (x uptime : Nat) : ch.minReadingDiff config uptime x ≤
    max config.minRawReadingDiffSlow.toNat config.minRawReadingDiffFast.toNat := by
  unfold minReadingDiff
  dsimp only
  split
  · exact le_max_left ..
  · exact le_max_right ..

section Accept
variable {m : Nat}

@[simp] theorem accept_samples : (ch.accept config uptime x m).2.samples = ch.samples := by
  unfold accept
  dsimp only
  split_ifs <;> rfl

@[simp] theorem accept_ema : (ch.accept config uptime x m).2.emaFilter =
    EmaFilter.value ch.emaFilter m config.emaFilterSmoothingPercentage.toNat := by
  unfold accept
  dsimp only
  split_ifs <;> rfl

/-- The value is that of the moving average, whether or not it changes. -/
@[simp] theorem accept_value : (ch.accept config uptime x m).2.lastStableFilteredValue =
    EmaFilter.value ch.emaFilter m config.emaFilterSmoothingPercentage.toNat := by
  unfold accept
  dsimp only
  split_ifs with h
  · rfl
  · exact not_not.mp h

theorem accept_raw : (ch.accept config uptime x m).2.lastStableRawValue =
    if ch.lastStableFilteredValue =
        EmaFilter.value ch.emaFilter m config.emaFilterSmoothingPercentage.toNat then
      ch.lastStableRawValue
    else x := by
  unfold accept
  dsimp only
  by_cases h : ch.lastStableFilteredValue =
      EmaFilter.value ch.emaFilter m config.emaFilterSmoothingPercentage.toNat
  · rw [if_neg (not_not.mpr h), if_pos h]
  · rw [if_pos h, if_neg h]

end Accept

/-- What one sample does to a channel: it is ignored, or collected, or it completes the window. -/
theorem filterValue_cases (ch : Channel) (x uptime : Nat) (he : config.enabled = true) :
    ((ch.filterValue config uptime x).2 = ch ∧ ch.diff x < ch.minReadingDiff config uptime x) ∨
      (ch.minReadingDiff config uptime x ≤ ch.diff x ∧
        ch.samples.length + 1 ≠ config.medianFilterNumberOfReadings ∧
        (ch.filterValue config uptime x).2 = { ch with
          medianFilter := { ch.medianFilter with analogSample := ch.samples ++ [x] } }) ∨
      (ch.minReadingDiff config uptime x ≤ ch.diff x ∧
        ch.samples.length + 1 = config.medianFilterNumberOfReadings ∧
        ∃ m, m = median config.medianFilterNumberOfReadings (ch.samples ++ [x]) ∧
          (ch.filterValue config uptime x).2 =
            (({ ch with medianFilter := ⟨[], m⟩ } : Channel).accept config uptime x m).2) := by
  unfold filterValue
  simp only [he, Bool.not_true, Bool.false_eq_true, if_false]
  by_cases hd : ((x : Int) - ch.lastStableRawValue).natAbs < ch.minReadingDiff config uptime x
  · left
    rw [if_pos hd]
    exact ⟨rfl, hd⟩
  · right
    have hpass : ch.minReadingDiff config uptime x ≤ ch.diff x := Nat.le_of_not_lt hd
    rw [if_neg hd]
    by_cases hlen : ch.samples.length + 1 = config.medianFilterNumberOfReadings
    · right
      refine ⟨hpass, hlen, _, rfl, ?_⟩
      have hwindow : (ch.medianFilter.analogSample ++ [x]).length =
          config.medianFilterNumberOfReadings := by simpa [samples] using hlen
      simp only [MedianFilter.filterValue, hwindow, if_true]
      rfl
    · left
      refine ⟨hpass, hlen, ?_⟩
      have hwindow : ¬ (ch.medianFilter.analogSample ++ [x]).length =
          config.medianFilterNumberOfReadings := by simpa [samples] using hlen
      simp only [MedianFilter.filterValue, hwindow, if_false]
      rfl

/-- The moving average is at the value, and the window is not full; and a channel that takes every
sample at once has the value of its last sample. -/
structure Sound (config : FilterConfig) (ch : Channel) : Prop where
  ema : ch.emaFilter = ch.lastStableFilteredValue
  window : ch.samples.length < config.medianFilterNumberOfReadings
  tracks : config.medianFilterNumberOfReadings = 1 →
    config.emaFilterSmoothingPercentage.toNat = 100 →
    ch.lastStableFilteredValue = ch.lastStableRawValue

/-- No sample of the window so far differs from `x`. -/
def Flushed (x : Nat) (ch : Channel) : Prop := ∀ sample ∈ ch.samples, sample = x

variable (he : config.enabled = true)

theorem accept_all {m : Nat} (hp : config.emaFilterSmoothingPercentage.toNat = 100) :
    EmaFilter.value c m config.emaFilterSmoothingPercentage.toNat = m := by
  rw [hp, EmaFilter.value_of_le le_rfl]
  omega

include he in
theorem filterValue_sound (h : ch.Sound config) :
    (ch.filterValue config uptime x).2.Sound config := by
  have hwindow := h.window
  obtain ⟨heq, -⟩ | ⟨-, hlen, heq⟩ | ⟨-, hlen, m, hm, heq⟩ :=
    filterValue_cases ch x uptime he
  · rw [heq]
    exact h
  · rw [heq]
    refine ⟨h.ema, ?_, h.tracks⟩
    show (ch.samples ++ [x]).length < _
    rw [List.length_append, List.length_singleton]
    omega
  · rw [heq]
    refine ⟨by rw [accept_ema, accept_value], ?_, ?_⟩
    · rw [accept_samples]
      show 0 < config.medianFilterNumberOfReadings
      omega
    · intro hone hp
      have hempty : ch.samples = [] := List.length_eq_zero_iff.mp (by omega)
      have hx : m = x := by
        rw [hm, hempty, hone]
        exact median_eq rfl (by decide) (by simp)
      rw [accept_value, accept_raw, accept_all hp, hx]
      split_ifs with hsame
      · have htracks := h.tracks hone hp
        exact hsame.symm.trans htracks
      · rfl

include he in
/-- A value that changes leaves an empty window behind. -/
theorem filterValue_value (ch : Channel) (uptime : Nat) : (ch.filterValue config uptime x).2.lastStableFilteredValue =
      ch.lastStableFilteredValue ∨ (ch.filterValue config uptime x).2.Flushed x := by
  obtain ⟨heq, -⟩ | ⟨-, -, heq⟩ | ⟨-, -, m, -, heq⟩ :=
    filterValue_cases ch x uptime he
  · exact .inl (by rw [heq])
  · exact .inl (by rw [heq])
  · right
    rw [heq]
    intro sample hs
    rw [accept_samples] at hs
    cases hs

include he in
/-- With a window of one sample only, the value stays, or moves as the moving average does. -/
theorem filterValue_flushed (uptime : Nat) (h : ch.Sound config) (hf : ch.Flushed x) :
    (ch.filterValue config uptime x).2.Flushed x ∧
      ((ch.filterValue config uptime x).2.lastStableFilteredValue = ch.lastStableFilteredValue ∨
        (ch.filterValue config uptime x).2.lastStableFilteredValue = EmaFilter.value
          ch.lastStableFilteredValue x config.emaFilterSmoothingPercentage.toNat) := by
  obtain ⟨heq, -⟩ | ⟨-, -, heq⟩ | ⟨-, hlen, m, hm, heq⟩ :=
    filterValue_cases ch x uptime he
  · rw [heq]
    exact ⟨hf, .inl rfl⟩
  · rw [heq]
    refine ⟨?_, .inl rfl⟩
    intro sample hs
    rcases List.mem_append.mp hs with hs | hs
    · exact hf sample hs
    · exact List.mem_singleton.mp hs
  · have hx : m = x := by
      rw [hm]
      refine median_eq (by simpa using hlen) (by omega) ?_
      intro sample hs
      rcases List.mem_append.mp hs with hs | hs
      · exact hf sample hs
      · exact List.mem_singleton.mp hs
    rw [heq]
    refine ⟨?_, .inr ?_⟩
    · intro sample hs
      rw [accept_samples] at hs
      cases hs
    · rw [accept_value, hx, ← h.ema]

/-- The channel after `k` calls with the sample `x`, each at its uptime. -/
def feed (config : FilterConfig) (uptimes : Nat → Nat) (x : Nat) (ch : Channel) : Nat → Channel
  | 0 => ch
  | k + 1 => ((feed config uptimes x ch k).filterValue config (uptimes k) x).2

variable {uptimes : Nat → Nat}

include he in
theorem feed_sound (h : ch.Sound config) (k : Nat) : (feed config uptimes x ch k).Sound config := by
  induction k with
  | zero => exact h
  | succ k ih => exact filterValue_sound he ih

/-- How far the value is from the sample. -/
def distance (x : Nat) (ch : Channel) : Nat := ((ch.lastStableFilteredValue : Int) - x).natAbs

theorem distance_value (hp : p ≤ 100) {v : Nat} (hv : v = EmaFilter.value c x p) :
    ((v : Int) - x).natAbs ≤ ((c : Int) - x).natAbs ∧
      (((v : Int) - x).natAbs = ((c : Int) - x).natAbs → v = c) := by
  obtain ⟨hup, hdown⟩ := EmaFilter.value_between (c := c) (x := x) hp
  rw [← hv] at hup hdown
  rcases Nat.le_total c x with hcx | hxc
  · have := hup hcx
    omega
  · have := hdown hxc
    omega

include he in
/-- Once the window is flushed, the value is constant from some point on. -/
theorem settles_of_flushed (h : ch.Sound config)
    (hp : config.emaFilterSmoothingPercentage.toNat ≤ 100) {K : Nat}
    (hf : (feed config uptimes x ch K).Flushed x) :
    ∃ N, ∀ k, N ≤ k → (feed config uptimes x ch k).lastStableFilteredValue =
      (feed config uptimes x ch N).lastStableFilteredValue := by
  have hflushed : ∀ k, (feed config uptimes x ch (K + k)).Flushed x := by
    intro k
    induction k with
    | zero => exact hf
    | succ k ih => exact (filterValue_flushed he _ (feed_sound he h _) ih).1
  have hstep : ∀ k, (feed config uptimes x ch (K + k + 1)).distance x ≤
      (feed config uptimes x ch (K + k)).distance x ∧
      ((feed config uptimes x ch (K + k + 1)).distance x =
        (feed config uptimes x ch (K + k)).distance x →
        (feed config uptimes x ch (K + k + 1)).lastStableFilteredValue =
          (feed config uptimes x ch (K + k)).lastStableFilteredValue) := by
    intro k
    obtain ⟨-, hsame | hmoved⟩ := filterValue_flushed he (uptimes (K + k))
      (feed_sound he h (K + k)) (hflushed k)
    · have hsame' : (feed config uptimes x ch (K + k + 1)).lastStableFilteredValue =
          (feed config uptimes x ch (K + k)).lastStableFilteredValue := hsame
      exact ⟨by rw [distance, distance, hsame'], fun _ => hsame'⟩
    · exact distance_value hp hmoved
  obtain ⟨N, hN⟩ := eventually_constant (f := fun k => (feed config uptimes x ch (K + k)).distance x)
    fun k => (hstep k).1
  have hconstant : ∀ k, (feed config uptimes x ch (K + N + k)).lastStableFilteredValue =
      (feed config uptimes x ch (K + N)).lastStableFilteredValue := by
    intro k
    induction k with
    | zero => rfl
    | succ k ih =>
      have hnext := hN (N + k + 1) (by omega)
      have hhere := hN (N + k) (by omega)
      have hequal := (hstep (N + k)).2 (hnext.trans hhere.symm)
      rw [← Nat.add_assoc K N k] at hequal
      exact hequal.trans ih
  refine ⟨K + N, fun k hk => ?_⟩
  obtain ⟨d, rfl⟩ := Nat.exists_eq_add_of_le hk
  exact hconstant d

include he in
/-- The value changes finitely often, whatever the thresholds and the uptimes. -/
theorem settles (x : Nat) (uptimes : Nat → Nat) (h : ch.Sound config) (hp : config.emaFilterSmoothingPercentage.toNat ≤ 100) :
    ∃ N, ∀ k, N ≤ k → (feed config uptimes x ch k).lastStableFilteredValue =
      (feed config uptimes x ch N).lastStableFilteredValue := by
  by_cases hf : ∃ K, (feed config uptimes x ch K).Flushed x
  · obtain ⟨K, hK⟩ := hf
    exact settles_of_flushed he h hp hK
  · -- No window is ever completed, and the value never changes.
    refine ⟨0, fun k _ => ?_⟩
    induction k with
    | zero => rfl
    | succ k ih =>
      rcases filterValue_value he (feed config uptimes x ch k) (uptimes k) with
        hsame | hflushed
      · exact (show _ = _ from hsame).trans (ih (Nat.zero_le _))
      · exact absurd ⟨k + 1, hflushed⟩ hf

include he in
/-- Without thresholds a window is completed again and again. -/
theorem completes (x : Nat) (uptimes : Nat → Nat) (h : ch.Sound config) (hslow : config.minRawReadingDiffSlow = 0)
    (hfast : config.minRawReadingDiffFast = 0) (k : Nat) : ∃ j, k ≤ j ∧
      (feed config uptimes x ch j).samples.length + 1 = config.medianFilterNumberOfReadings := by
  generalize hgap : config.medianFilterNumberOfReadings -
    (feed config uptimes x ch k).samples.length = gap
  induction gap generalizing k with
  | zero =>
    have hwindow : (feed config uptimes x ch k).samples.length < _ := (feed_sound he h k).window
    omega
  | succ gap ih =>
    obtain ⟨-, hlt⟩ | ⟨-, hlen, heq⟩ | ⟨-, hlen, -⟩ := filterValue_cases
      (feed config uptimes x ch k) x (uptimes k) he
    · have hle := minReadingDiff_le config (feed config uptimes x ch k) x (uptimes k)
      rw [hslow, hfast] at hle
      have hzero : max (0 : UInt16).toNat (0 : UInt16).toNat = 0 := rfl
      omega
    · have hnext : (feed config uptimes x ch (k + 1)).samples =
          (feed config uptimes x ch k).samples ++ [x] := congrArg samples heq
      obtain ⟨j, hj, hdone⟩ := ih (k + 1) (by rw [hnext, List.length_append]; simp; omega)
      exact ⟨j, by omega, hdone⟩
    · exact ⟨k, le_rfl, hlen⟩

include he in
/-- Where a value settles that no threshold holds back. -/
theorem settled_near (h : ch.Sound config) (hp : config.emaFilterSmoothingPercentage.toNat ≤ 100)
    (hpos : 0 < config.emaFilterSmoothingPercentage.toNat)
    (hslow : config.minRawReadingDiffSlow = 0) (hfast : config.minRawReadingDiffFast = 0)
    {N v : Nat} (hN : ∀ k, N ≤ k → (feed config uptimes x ch k).lastStableFilteredValue = v) :
    v ≤ x ∧ config.emaFilterSmoothingPercentage.toNat * (x - v) < 100 := by
  have hzero : ∀ k, (feed config uptimes x ch k).minReadingDiff config (uptimes k) x = 0 := by
    intro k
    have hle := minReadingDiff_le config (feed config uptimes x ch k) x (uptimes k)
    rw [hslow, hfast] at hle
    exact Nat.le_zero.mp hle
  -- The first window that is completed flushes the samples, and the next one is of `x` only.
  have hcomplete : ∀ k, N ≤ k → ∃ j, k ≤ j ∧ ∃ m,
      m = median config.medianFilterNumberOfReadings ((feed config uptimes x ch j).samples ++ [x]) ∧
      (feed config uptimes x ch j).samples.length + 1 = config.medianFilterNumberOfReadings ∧
      (feed config uptimes x ch (j + 1)).samples = [] ∧
      EmaFilter.value v m config.emaFilterSmoothingPercentage.toNat = v := by
    intro k hk
    obtain ⟨j, hj, hlen⟩ := completes he x uptimes h hslow hfast k
    obtain ⟨-, hlt⟩ | ⟨-, hlen', -⟩ | ⟨-, -, m, hm, heq⟩ := filterValue_cases
      (feed config uptimes x ch j) x (uptimes j) he
    · have := hzero j
      omega
    · exact absurd hlen hlen'
    · refine ⟨j, hj, m, hm, hlen, ?_, ?_⟩
      · show ((feed config uptimes x ch j).filterValue config (uptimes j) x).2.samples = []
        rw [heq, accept_samples]
        rfl
      · have hhere := hN j (by omega)
        have hnext := hN (j + 1) (by omega)
        have hema : (feed config uptimes x ch j).emaFilter = _ := (feed_sound he h j).ema
        have hvalue : (feed config uptimes x ch (j + 1)).lastStableFilteredValue =
            EmaFilter.value (feed config uptimes x ch j).emaFilter m
              config.emaFilterSmoothingPercentage.toNat := by
          show ((feed config uptimes x ch j).filterValue config (uptimes j) x).2.lastStableFilteredValue = _
          rw [heq, accept_value]
        rw [hnext, hema, hhere] at hvalue
        exact hvalue.symm
  obtain ⟨j, hj, -, -, -, hempty, -⟩ := hcomplete N le_rfl
  have hflushed : ∀ k, (feed config uptimes x ch (j + 1 + k)).Flushed x := by
    intro k
    induction k with
    | zero =>
      intro sample hs
      rw [Nat.add_zero, hempty] at hs
      cases hs
    | succ k ih => exact (filterValue_flushed he _ (feed_sound he h _) ih).1
  obtain ⟨j', hj', m, hm, hlen, -, hfixed⟩ := hcomplete (j + 1) (by omega)
  obtain ⟨d, rfl⟩ := Nat.exists_eq_add_of_le hj'
  have hx : m = x := by
    rw [hm]
    refine median_eq (by simpa using hlen) (by omega) ?_
    intro sample hs
    rcases List.mem_append.mp hs with hs | hs
    · exact hflushed d sample hs
    · exact List.mem_singleton.mp hs
  rw [hx] at hfixed
  exact EmaFilter.fixed_point hp hpos hfixed

include he in
/-- A channel that takes every sample at once comes within the thresholds. -/
theorem distance_le (h : ch.Sound config) (hone : config.medianFilterNumberOfReadings = 1)
    (hp : config.emaFilterSmoothingPercentage.toNat = 100) :
    (ch.filterValue config uptime x).2.distance x ≤
      max config.minRawReadingDiffSlow.toNat config.minRawReadingDiffFast.toNat := by
  have htracks := h.tracks hone hp
  have hwindow := h.window
  obtain ⟨heq, hlt⟩ | ⟨-, hlen, -⟩ | ⟨-, hlen, m, hm, heq⟩ :=
    filterValue_cases ch x uptime he
  · have hle := minReadingDiff_le config ch x uptime
    rw [heq, distance, htracks]
    unfold diff at hlt
    omega
  · omega
  · have hempty : ch.samples = [] := List.length_eq_zero_iff.mp (by omega)
    have hx : m = x := by
      rw [hm, hempty, hone]
      exact median_eq rfl (by decide) (by simp)
    rw [heq, distance, accept_value, accept_all hp, hx]
    simp

theorem reset_sound (hodd : config.medianFilterNumberOfReadings % 2 = 1) :
    ch.reset.Sound config :=
  ⟨rfl, show 0 < _ by omega, fun _ _ => rfl⟩

end Channel

namespace AnalogFilter

variable {size : Nat} {filter : AnalogFilter size} {index : Fin size}

/-- Every channel of a reachable filter is sound. -/
theorem Reachable.sound (he : config.enabled = true)
    (hodd : config.medianFilterNumberOfReadings % 2 = 1) (h : Reachable config filter) :
    ∀ i, (filter i).Sound config := by
  induction h with
  | new => exact fun _ => Channel.reset_sound hodd
  | step call _ ih =>
    intro i
    cases call with
    | filterValue index uptime rawValue =>
      rcases eq_or_ne i index with rfl | hne
      · simp only [perform, filterValue, Function.update_self]
        exact Channel.filterValue_sound he (ih i)
      · simp only [perform, filterValue, Function.update_of_ne hne]
        exact ih i
    | reset index =>
      rcases eq_or_ne i index with rfl | hne
      · simp only [perform, reset, Function.update_self]
        exact Channel.reset_sound hodd
      · simp only [perform, reset, Function.update_of_ne hne]
        exact ih i

/-- The filter after `k` calls for a channel with the same sample. -/
def feed (config : FilterConfig) (index : Fin size) (uptimes : Nat → Nat) (x : UInt16)
    (filter : AnalogFilter size) : Nat → AnalogFilter size
  | 0 => filter
  | k + 1 => (filterValue config index (uptimes k) x (feed config index uptimes x filter k)).2

theorem feed_channel {uptimes : Nat → Nat} {x : UInt16} {k : Nat} :
    feed config index uptimes x filter k index =
      Channel.feed config uptimes x.toNat (filter index) k := by
  induction k with
  | zero => rfl
  | succ k ih => simp only [feed, filterValue, Function.update_self, ih, Channel.feed]

/-- The value of a channel that is fed one sample for ever settles. Where it settles is within the
thresholds if every sample is taken at once, and within the truncation of the moving average if
there are no thresholds. -/
theorem value_settles (config : FilterConfig) (he : config.enabled = true)
    (hodd : config.medianFilterNumberOfReadings % 2 = 1)
    (hpos : 0 < config.emaFilterSmoothingPercentage.toNat)
    (hp : config.emaFilterSmoothingPercentage.toNat ≤ 100) (filter : AnalogFilter size)
    (h : Reachable config filter) (index : Fin size) (uptimes : Nat → Nat) (x : UInt16) :
    ∃ N v, (∀ k, N ≤ k → value index (feed config index uptimes x filter k) = v) ∧
      (config.medianFilterNumberOfReadings = 1 →
        config.emaFilterSmoothingPercentage.toNat = 100 →
        ((v : Int) - x.toNat).natAbs ≤
          max config.minRawReadingDiffSlow.toNat config.minRawReadingDiffFast.toNat) ∧
      (config.minRawReadingDiffSlow = 0 → config.minRawReadingDiffFast = 0 →
        v ≤ x.toNat ∧ config.emaFilterSmoothingPercentage.toNat * (x.toNat - v) < 100) := by
  have hsound := h.sound he hodd index
  obtain ⟨N, hN⟩ := Channel.settles he x.toNat uptimes hsound hp
  refine ⟨N, (Channel.feed config uptimes x.toNat (filter index) N).lastStableFilteredValue,
    ?_, ?_, ?_⟩
  · intro k hk
    rw [value, feed_channel]
    exact hN k hk
  · intro hone hall
    rw [← hN (N + 1) (Nat.le_succ N)]
    exact Channel.distance_le he (Channel.feed_sound he hsound N) hone hall
  · intro hslow hfast
    exact Channel.settled_near he hsound hp hpos hslow hfast hN

/-- Every sample is taken at once, and half of its difference. -/
def halvingConfig : FilterConfig where
  minRawReadingDiffSlow := 5
  minRawReadingDiffFast := 5
  slowFilterEnableAfterInactiveMs := 1000
  medianFilterNumberOfReadings := 1
  emaFilterSmoothingPercentage := 50
  enabled := true

theorem value_settles_halving :
    ∃ N v, (∀ k, N ≤ k → value (0 : Fin 1) (feed { halvingConfig with
        minRawReadingDiffSlow := 0, minRawReadingDiffFast := 0 } 0 (fun _ => 0) 20 new k) = v) ∧
      v ≤ 20 ∧ 50 * (20 - v) < 100 := by
  obtain ⟨N, v, hN, -, hnear⟩ := value_settles { halvingConfig with
    minRawReadingDiffSlow := 0, minRawReadingDiffFast := 0 } rfl (by decide) (by decide) (by decide)
    new .new (0 : Fin 1) (fun _ => 0) 20
  exact ⟨N, v, hN, hnear rfl rfl⟩

/-- The first sample moves the value half the way, and the threshold ignores it from then on. -/
theorem value_stuck : ¬ ∃ N, ∀ k, N ≤ k →
    ((value (0 : Fin 1) (feed halvingConfig 0 (fun _ => 0) 20 new k) : Int) - 20).natAbs ≤ 5 := by
  rintro ⟨N, hN⟩
  let stuck : Channel := {
    emaFilter := 10
    medianFilter := ⟨[], 20⟩
    lastStableRawValue := 20
    lastStableFilteredValue := 10
    lastStableMovementTime := 0
    lastStableDirection := true }
  have hfirst : (Channel.filterValue halvingConfig 0 20 (({} : Channel).reset)).2 = stuck := by
    simp [Channel.filterValue, Channel.reset, MedianFilter.reset, MedianFilter.filterValue,
      Channel.minReadingDiff, Channel.accept, halvingConfig, stuck, MedianFilter.middleValue,
      EmaFilter.value, EmaFilter.percentageScale]
  have hnext : (Channel.filterValue halvingConfig 0 20 stuck).2 = stuck := by
    simp [Channel.filterValue, Channel.minReadingDiff, halvingConfig, stuck]
  have hfeed : ∀ k, Channel.feed halvingConfig (fun _ => 0) 20 (({} : Channel).reset) (k + 1) =
      stuck := by
    intro k
    induction k with
    | zero => exact hfirst
    | succ k ih =>
      rw [Channel.feed, ih]
      exact hnext
  have hlast := hN (N + 1) (Nat.le_succ N)
  rw [value, feed_channel] at hlast
  have hvalue := congrArg Channel.lastStableFilteredValue (hfeed N)
  rw [show (20 : UInt16).toNat = 20 from rfl, show (new 0 : Channel) = ({} : Channel).reset from rfl,
    hvalue] at hlast
  exact absurd hlast (by decide)

end AnalogFilter

end Zlibs.Filters
