import Mathlib

/-! `constrain` and `map_range`, over any of the machine's integer types. -/
namespace Zlibs.Misc

structure IntegerType where
  bits : Nat
  signed : Bool
  bits_pos : 0 < bits

namespace IntegerType

variable (T : IntegerType) {a b z : Int}

def min : Int := if T.signed then -2 ^ (T.bits - 1) else 0

def max : Int := if T.signed then 2 ^ (T.bits - 1) - 1 else 2 ^ T.bits - 1

def Fits (z : Int) : Prop := T.min ≤ z ∧ z ≤ T.max

instance : DecidablePred T.Fits := fun _ => inferInstanceAs (Decidable (_ ∧ _))

/-- Integral promotion: what is narrower than `int` is computed with as `int`. -/
def promoted : IntegerType := if T.bits < 32 then ⟨32, true, by decide⟩ else T

/-- The value of an arithmetic expression: unsigned arithmetic wraps around, and a signed
overflow is undefined. -/
def arith (z : Int) : Option Int :=
  if T.signed then if T.Fits z then some z else none else some (z % 2 ^ T.bits)

/-- Division truncates towards zero, and by zero it is undefined. -/
def quotient (a b : Int) : Option Int := if b = 0 then none else T.arith (a.tdiv b)

def convert (z : Int) : Int :=
  if T.signed then (z + 2 ^ (T.bits - 1)) % 2 ^ T.bits - 2 ^ (T.bits - 1) else z % 2 ^ T.bits

end IntegerType

def constrain {α : Type} [LT α] [DecidableLT α] (input low high : α) : α :=
  if input < low then low else if input > high then high else input

/-- `T` is the template parameter. -/
def mapRange (T : IntegerType) (x inMin inMax outMin outMax : Int) : Option Int := do
  let A := T.promoted
  let x := constrain x inMin inMax
  if inMin = outMin ∧ inMax = outMax then
    return x
  if inMin = inMax then
    return x
  if (← A.arith (inMax - inMin)) > (← A.arith (outMax - outMin)) then
    let product ← A.arith ((← A.arith (x - inMin)) * (← A.arith ((← A.arith (outMax - outMin)) + 1)))
    let quotient ← A.quotient product (← A.arith ((← A.arith (inMax - inMin)) + 1))
    return T.convert (← A.arith (quotient + outMin))
  let product ← A.arith ((← A.arith (x - inMin)) * (← A.arith (outMax - outMin)))
  let quotient ← A.quotient product (← A.arith (inMax - inMin))
  return T.convert (← A.arith (quotient + outMin))

namespace IntegerType

variable {T : IntegerType} {a b z : Int}

theorem two_pow_bits (T : IntegerType) : (2 : Int) ^ T.bits = 2 * 2 ^ (T.bits - 1) := by
  rw [← pow_succ', Nat.sub_add_cancel T.bits_pos]

theorem min_nonpos (T : IntegerType) : T.min ≤ 0 := by
  have hpow : (0 : Int) < 2 ^ (T.bits - 1) := by positivity
  rw [min]
  split_ifs
  · omega
  · exact le_rfl

theorem Fits.of_le (h : T.Fits b) (ha : 0 ≤ a) (hab : a ≤ b) : T.Fits a :=
  ⟨T.min_nonpos.trans ha, hab.trans h.2⟩

theorem Fits.between (ha : T.Fits a) (hb : T.Fits b) (h : a ≤ z ∧ z ≤ b) : T.Fits z :=
  ⟨ha.1.trans h.1, h.2.trans hb.2⟩

theorem arith_of_fits (h : T.Fits z) : T.arith z = some z := by
  obtain ⟨hmin, hmax⟩ := h
  rw [arith]
  split_ifs with hs hf
  · rfl
  · exact absurd ⟨hmin, hmax⟩ hf
  · rw [min, if_neg hs] at hmin
    rw [max, if_neg hs] at hmax
    rw [Int.emod_eq_of_lt hmin (by omega)]

theorem convert_of_fits (h : T.Fits z) : T.convert z = z := by
  obtain ⟨hmin, hmax⟩ := h
  have hbits := two_pow_bits T
  rw [convert]
  split_ifs with hs
  · rw [min, if_pos hs] at hmin
    rw [max, if_pos hs] at hmax
    rw [Int.emod_eq_of_lt (by omega) (by omega)]
    omega
  · rw [min, if_neg hs] at hmin
    rw [max, if_neg hs] at hmax
    rw [Int.emod_eq_of_lt hmin (by omega)]

/-- Promotion keeps every value. -/
theorem Fits.promoted (h : T.Fits z) : T.promoted.Fits z := by
  obtain ⟨hmin, hmax⟩ := h
  rw [IntegerType.promoted]
  split_ifs with hbits
  · have hint : (2 : Int) ^ T.bits ≤ 2 ^ 31 := pow_le_pow_right₀ (by decide) (by omega)
    have htwo := two_pow_bits T
    rw [min] at hmin
    rw [max] at hmax
    constructor
    · change -2 ^ 31 ≤ z
      split_ifs at hmin <;> omega
    · change z ≤ 2 ^ 31 - 1
      split_ifs at hmax <;> omega
  · exact ⟨hmin, hmax⟩

theorem quotient_of_fits (hb : 0 < b) (ha : 0 ≤ a) (h : T.Fits a) :
    T.quotient a b = some (a / b) := by
  rw [quotient, if_neg hb.ne', Int.tdiv_eq_ediv_of_nonneg ha]
  exact arith_of_fits (h.of_le (Int.ediv_nonneg ha hb.le) (Int.ediv_le_self b ha))

end IntegerType

variable {n m d e : Int}

/-- A distance in a range of width `n`, scaled down to a width of `m`. -/
def scale (n m d : Int) : Int := if m < n then d * (m + 1) / (n + 1) else d * m / n

theorem scale_zero (n m : Int) : scale n m 0 = 0 := by simp [scale]

theorem scale_mono (hn : 0 < n) (hm : 0 ≤ m) (h : d ≤ e) : scale n m d ≤ scale n m e := by
  rw [scale, scale]
  split_ifs
  · exact Int.ediv_le_ediv (by omega) (mul_le_mul_of_nonneg_right h (by omega))
  · exact Int.ediv_le_ediv hn (mul_le_mul_of_nonneg_right h hm)

/-- The last distance of a range is scaled to the last one of the other. -/
theorem scale_width (hn : 0 < n) (hm : 0 ≤ m) : scale n m n = m := by
  rw [scale]
  split_ifs with h
  · -- the correction leaves a remainder of `n - m`
    have hsplit : n * (m + 1) = (n - m) + m * (n + 1) := by ring
    rw [hsplit, Int.add_mul_ediv_right _ _ (by omega), Int.ediv_eq_zero_of_lt (by omega) (by omega),
      zero_add]
  · exact Int.mul_ediv_cancel_left m hn.ne'

theorem scale_bounds (hn : 0 < n) (hm : 0 ≤ m) (h0 : 0 ≤ d) (hd : d ≤ n) :
    0 ≤ scale n m d ∧ scale n m d ≤ m := by
  constructor
  · have := scale_mono hn hm h0
    rwa [scale_zero] at this
  · have := scale_mono hn hm hd
    rwa [scale_width hn hm] at this

section Constrain

variable {x y low high : Int}

theorem constrain_bounds (h : low ≤ high) (x : Int) :
    low ≤ constrain x low high ∧ constrain x low high ≤ high := by
  unfold constrain
  split_ifs <;> omega

theorem constrain_mono (h : low ≤ high) (hxy : x ≤ y) :
    constrain x low high ≤ constrain y low high := by
  unfold constrain
  split_ifs <;> omega

theorem constrain_below (h : low ≤ high) (hx : x ≤ low) : constrain x low high = low := by
  unfold constrain
  split_ifs <;> omega

theorem constrain_above (h : low ≤ high) (hx : high ≤ x) : constrain x low high = high := by
  unfold constrain
  split_ifs <;> omega

end Constrain

/-- No value that `mapRange` computes on the way overflows: neither the widths of the ranges, with
the correction of the formula in use, nor the product. Equal ranges need no arithmetic. -/
def NoOverflow (T : IntegerType) (x inMin inMax outMin outMax : Int) : Prop :=
  inMin = outMin ∧ inMax = outMax ∨
    T.promoted.Fits (inMax - inMin) ∧ T.promoted.Fits (outMax - outMin) ∧
      if inMax - inMin > outMax - outMin then
        T.promoted.Fits (inMax - inMin + 1) ∧
          T.promoted.Fits ((constrain x inMin inMax - inMin) * (outMax - outMin + 1))
      else T.promoted.Fits ((constrain x inMin inMax - inMin) * (outMax - outMin))

instance (T : IntegerType) (x inMin inMax outMin outMax : Int) :
    Decidable (NoOverflow T x inMin inMax outMin outMax) := by
  unfold NoOverflow
  infer_instance

variable {T : IntegerType} {x inMin inMax outMin outMax : Int}

/-- `mapRange` scales the distance from the lower input bound. -/
theorem mapRange_eq (hin : inMin < inMax) (hout : outMin ≤ outMax) (hmin : T.Fits outMin)
    (hmax : T.Fits outMax) (h : NoOverflow T x inMin inMax outMin outMax) :
    mapRange T x inMin inMax outMin outMax =
      some (scale (inMax - inMin) (outMax - outMin) (constrain x inMin inMax - inMin) + outMin) := by
  have hx := constrain_bounds hin.le x
  have hbounds := scale_bounds (n := inMax - inMin) (m := outMax - outMin)
    (d := constrain x inMin inMax - inMin) (by omega) (by omega) (by omega) (by omega)
  have hresult : T.Fits
      (scale (inMax - inMin) (outMax - outMin) (constrain x inMin inMax - inMin) + outMin) :=
    hmin.between hmax ⟨by omega, by omega⟩
  rw [mapRange]
  split_ifs with hsame hempty
  · -- equal ranges
    obtain ⟨rfl, rfl⟩ := hsame
    have hscale : scale (inMax - inMin) (inMax - inMin) (constrain x inMin inMax - inMin) =
        constrain x inMin inMax - inMin := by
      rw [scale, if_neg (lt_irrefl _), Int.mul_ediv_cancel _ (by omega)]
    rw [hscale, Int.sub_add_cancel]
    rfl
  · exact absurd hempty hin.ne
  · obtain ⟨hwidth, houtWidth, hrest⟩ := h.resolve_left hsame
    have hdistance := hwidth.of_le (a := constrain x inMin inMax - inMin) (by omega) (by omega)
    simp only [IntegerType.arith_of_fits hwidth, IntegerType.arith_of_fits houtWidth,
      IntegerType.arith_of_fits hdistance, Option.bind_eq_bind, Option.bind_some]
    split_ifs at hrest ⊢ with hlarger
    · obtain ⟨hcorrected, hproduct⟩ := hrest
      have hfactor := hwidth.of_le (a := outMax - outMin + 1) (by omega) (by omega)
      rw [scale, if_pos hlarger] at hresult ⊢
      simp only [IntegerType.arith_of_fits hcorrected, IntegerType.arith_of_fits hfactor,
        IntegerType.arith_of_fits hproduct, Option.bind_some]
      rw [IntegerType.quotient_of_fits (by omega)
        (mul_nonneg (by omega) (by omega)) hproduct, Option.bind_some,
        IntegerType.arith_of_fits hresult.promoted, Option.bind_some,
        IntegerType.convert_of_fits hresult]
      rfl
    · rw [scale, if_neg hlarger] at hresult ⊢
      simp only [IntegerType.arith_of_fits hrest, Option.bind_some]
      rw [IntegerType.quotient_of_fits (by omega)
        (mul_nonneg (by omega) (by omega)) hrest, Option.bind_some,
        IntegerType.arith_of_fits hresult.promoted, Option.bind_some,
        IntegerType.convert_of_fits hresult]
      rfl

/-- `mapRange` stays within the output range, keeps the order and reaches both ends. -/
theorem mapRange_range (T : IntegerType) {inMin inMax outMin outMax : Int} (hin : inMin < inMax)
    (hout : outMin ≤ outMax) (hmin : T.Fits outMin) (hmax : T.Fits outMax) (x : Int)
    (hx : NoOverflow T x inMin inMax outMin outMax) :
    ∃ r, mapRange T x inMin inMax outMin outMax = some r ∧ (outMin ≤ r ∧ r ≤ outMax) ∧
      (x ≤ inMin → r = outMin) ∧ (inMax ≤ x → r = outMax) ∧
      ∀ y, x ≤ y → NoOverflow T y inMin inMax outMin outMax →
        ∃ r', mapRange T y inMin inMax outMin outMax = some r' ∧ r ≤ r' := by
  have hn : 0 < inMax - inMin := by omega
  have hm : 0 ≤ outMax - outMin := by omega
  have hc := constrain_bounds hin.le x
  have hbounds := scale_bounds (d := constrain x inMin inMax - inMin) hn hm (by omega) (by omega)
  refine ⟨_, mapRange_eq hin hout hmin hmax hx, ⟨by omega, by omega⟩, fun hlow => ?_,
    fun hhigh => ?_, fun y hxy hy => ⟨_, mapRange_eq hin hout hmin hmax hy, ?_⟩⟩
  · rw [constrain_below hin.le hlow, Int.sub_self, scale_zero, zero_add]
  · rw [constrain_above hin.le hhigh, scale_width hn hm, Int.sub_add_cancel]
  · have hmono := constrain_mono hin.le hxy
    have := scale_mono hn hm (d := constrain x inMin inMax - inMin)
      (e := constrain y inMin inMax - inMin) (by omega)
    omega

/-- A range around zero mapped to a smaller one: the formula with the corrections. -/
theorem mapRange_range_int :
    NoOverflow ⟨32, true, by decide⟩ (-3) (-10) 100 (-5) 5 ∧
      ∃ r, mapRange ⟨32, true, by decide⟩ (-3) (-10) 100 (-5) 5 = some r ∧ (-5 ≤ r ∧ r ≤ 5) ∧
        (-3 ≤ -10 → r = -5) ∧ (100 ≤ -3 → r = 5) ∧
        ∀ y, -3 ≤ y → NoOverflow ⟨32, true, by decide⟩ y (-10) 100 (-5) 5 →
          ∃ r', mapRange ⟨32, true, by decide⟩ y (-10) 100 (-5) 5 = some r' ∧ r ≤ r' :=
  ⟨by decide, mapRange_range ⟨32, true, by decide⟩ (by decide) (by decide) (by decide) (by decide)
    (-3) (by decide)⟩

example : mapRange ⟨32, true, by decide⟩ 150 0 100 0 10 = some 10 := by decide

end Zlibs.Misc
