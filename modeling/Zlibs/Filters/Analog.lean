import Mathlib

/-! `AnalogFilter`: a threshold, a median and a moving average, for each channel. -/
namespace Zlibs.Filters

/-- The static configuration. -/
structure FilterConfig where
  minRawReadingDiffSlow : UInt16
  minRawReadingDiffFast : UInt16
  slowFilterEnableAfterInactiveMs : UInt32
  medianFilterNumberOfReadings : Nat
  emaFilterSmoothingPercentage : UInt16
  enabled : Bool

namespace EmaFilter

def percentageScale : Nat := 100

/-- The value after a sample. -/
def value (currentValue raw percentage : Nat) : Nat :=
  if percentage > percentageScale then raw
  else (percentage * raw + (percentageScale - percentage) * currentValue) / percentageScale

end EmaFilter

structure MedianFilter where
  /-- The samples of the window so far. -/
  analogSample : List Nat := []
  lastStableValue : Nat := 0

namespace MedianFilter

variable (size : Nat)

def middleValue : Nat := (size + 1) / 2 - 1

def filterValue (raw : Nat) (filter : MedianFilter) : Option Nat × MedianFilter :=
  let samples := filter.analogSample ++ [raw]
  if samples.length = size then
    let median := (samples.mergeSort (· ≤ ·)).getD (middleValue size) 0
    (some median, { analogSample := [], lastStableValue := median })
  else (none, { filter with analogSample := samples })

def reset (filter : MedianFilter) : MedianFilter :=
  { filter with analogSample := [], lastStableValue := 0 }

end MedianFilter

/-- What `AnalogFilter` keeps of one channel. -/
structure Channel where
  emaFilter : Nat := 0
  medianFilter : MedianFilter := {}
  lastStableRawValue : Nat := 0
  lastStableFilteredValue : Nat := 0
  lastStableMovementTime : Nat := 0
  lastStableDirection : Bool := false

variable (config : FilterConfig)

namespace Channel

/-- The difference that a sample needs at an uptime. -/
def minReadingDiff (uptime rawValue : Nat) (ch : Channel) : Nat :=
  let direction : Bool := rawValue ≥ ch.lastStableRawValue
  let inactive : Int := (uptime : Int) - ch.lastStableMovementTime
  let slowFilter : Bool :=
    inactive > config.slowFilterEnableAfterInactiveMs.toNat || direction != ch.lastStableDirection
  if slowFilter then config.minRawReadingDiffSlow.toNat else config.minRawReadingDiffFast.toNat

/-- What a median makes of the channel. -/
def accept (uptime rawValue median : Nat) (ch : Channel) : Option Nat × Channel :=
  let direction : Bool := rawValue ≥ ch.lastStableRawValue
  let ema := EmaFilter.value ch.emaFilter median config.emaFilterSmoothingPercentage.toNat
  if ch.lastStableFilteredValue ≠ ema then
    (some ema, { ch with
      emaFilter := ema
      lastStableRawValue := rawValue
      lastStableFilteredValue := ema
      lastStableMovementTime := uptime % 2 ^ 32
      lastStableDirection := direction })
  else (none, { ch with emaFilter := ema })

def filterValue (uptime rawValue : Nat) (ch : Channel) : Option Nat × Channel :=
  if !config.enabled then (some rawValue, ch)
  else
    let diff := ((rawValue : Int) - ch.lastStableRawValue).natAbs
    if diff < ch.minReadingDiff config uptime rawValue then (none, ch)
    else
      match ch.medianFilter.filterValue config.medianFilterNumberOfReadings rawValue with
      | (none, median) => (none, { ch with medianFilter := median })
      | (some value, median) =>
        ({ ch with medianFilter := median } : Channel).accept config uptime rawValue value

def reset (ch : Channel) : Channel where
  emaFilter := 0
  medianFilter := ch.medianFilter.reset
  lastStableRawValue := 0
  lastStableFilteredValue := 0
  lastStableMovementTime := 0
  lastStableDirection := false

end Channel

/-- A bank of channels. -/
abbrev AnalogFilter (size : Nat) := Fin size → Channel

namespace AnalogFilter

variable {size : Nat}

def filterValue (index : Fin size) (uptime : Nat) (rawValue : UInt16) (filter : AnalogFilter size) :
    Option Nat × AnalogFilter size :=
  let (result, ch) := (filter index).filterValue config uptime rawValue.toNat
  (result, Function.update filter index ch)

def value (index : Fin size) (filter : AnalogFilter size) : Nat :=
  (filter index).lastStableFilteredValue

def reset (index : Fin size) (filter : AnalogFilter size) : AnalogFilter size :=
  Function.update filter index (filter index).reset

/-- A new filter. -/
def new : AnalogFilter size := fun _ => ({} : Channel).reset

/-- The calls, each at its uptime. -/
inductive Call (size : Nat) where
  | filterValue (index : Fin size) (uptime : Nat) (rawValue : UInt16)
  | reset (index : Fin size)

def perform (filter : AnalogFilter size) : Call size → AnalogFilter size
  | .filterValue index uptime rawValue => (filterValue config index uptime rawValue filter).2
  | .reset index => reset index filter

inductive Reachable : AnalogFilter size → Prop
  | new : Reachable new
  | step {filter : AnalogFilter size} (call : Call size) :
    Reachable filter → Reachable (perform config filter call)

end AnalogFilter

end Zlibs.Filters
