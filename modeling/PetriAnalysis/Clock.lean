/-!
# Clocks

A clock tells the time that has passed since it was started. Reading it may change it, so a
reading is an operation on a state. Nothing is assumed about successive readings.

## Main definitions

* `Duration` — a length of time in nanoseconds.
* `Clock C` — clocks with states in `C`.
* `SteppingClock` — a clock that advances by a fixed step at each reading and counts them.
* `StoppedClock` — a clock that always reads zero.
-/

namespace PetriAnalysis

/-- A length of time. -/
structure Duration where
  nanoseconds : Nat
  deriving DecidableEq

namespace Duration

/-- The length of `seconds` seconds and `nanoseconds` nanoseconds. -/
def ofParts (seconds nanoseconds : Nat) : Duration := ⟨seconds * 1000000000 + nanoseconds⟩

/-- The whole seconds. -/
def seconds (d : Duration) : Nat := d.nanoseconds / 1000000000

/-- The whole microseconds. -/
def microseconds (d : Duration) : Nat := d.nanoseconds / 1000

/-- The length in seconds, from its whole microseconds. -/
def toFloat (d : Duration) : Float := Float.ofNat d.microseconds * 0.000001

instance : Add Duration where
  add a b := ⟨a.nanoseconds + b.nanoseconds⟩

end Duration

/-- A source of elapsed time. -/
class Clock (C : Type) where
  /-- The time since the start. -/
  elapsed : StateM C Duration

/-- A clock that advances by a fixed step at each reading. -/
structure SteppingClock where
  /-- What the next reading tells. -/
  now : Duration
  /-- How far each reading advances the clock. -/
  step : Duration
  /-- The number of readings so far. -/
  reads : Nat

instance : Clock SteppingClock where
  elapsed c := (c.now, { c with now := c.now + c.step, reads := c.reads + 1 })

/-- A clock that always reads zero. -/
inductive StoppedClock where
  | stopped

instance : Clock StoppedClock where
  elapsed c := (⟨0⟩, c)

end PetriAnalysis
