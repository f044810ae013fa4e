/-!
# Clocks

The processor runs at a frequency in hertz; zero means as fast as the host allows.  A cycle takes
a whole number of nanoseconds.  A steady clock reports one and the same time at every tick; a
paced clock waits until a cycle is over and reports the time that has passed.  Times are reported
in milliseconds.
-/

namespace ChipEight

def nanosPerSecond : Nat := 1000000000

/-- Nanoseconds in milliseconds: whole seconds and the part of a second are added, then scaled. -/
def millisOfNanos (n : Nat) : Float :=
  (Float.ofNat (n / nanosPerSecond) + Float.ofNat (n % nanosPerSecond) / 1000000000.0) * 1000.0

/-- A frequency in hertz. -/
structure Frequency where
  hertz : UInt64
  deriving DecidableEq, Repr

namespace Frequency

/-- The usual clock of the machine, 1.76 MHz. -/
def standard : Frequency := ⟨1760000⟩

/-- Nanoseconds of one cycle, rounded down; none at zero hertz, where the clock never waits. -/
def cycleNanos (f : Frequency) : Nat := nanosPerSecond / f.hertz.toNat

def cycleMillis (f : Frequency) : Float := millisOfNanos f.cycleNanos

end Frequency

/-- A clock whose ticks all last equally long.  The time is kept as the bits of its binary64, so
that it is reported as it was given, whichever not-a-number it may be. -/
structure SteadyClock where
  /-- Milliseconds between two ticks, as bits. -/
  bits : UInt64
  deriving DecidableEq, Repr

namespace SteadyClock

def ofMillis (millis : Float) : SteadyClock := ⟨millis.toBits⟩

def ofFrequency (f : Frequency) : SteadyClock := ofMillis f.cycleMillis

/-- Milliseconds since the tick before, or since the start; the same at every tick. -/
def tick (c : SteadyClock) (_k : Nat) : Float := Float.ofBits c.bits

end SteadyClock

/-- A clock that follows a counter of nanoseconds. -/
structure PacedClock where
  /-- Where the counter stood at the last tick. -/
  last : Nat
  /-- Nanoseconds that a cycle takes at least. -/
  cycleNanos : Nat

namespace PacedClock

/-- Whether the cycle is over when the counter stands at `now`. -/
def isDue (c : PacedClock) (now : Nat) : Bool := decide (c.last + c.cycleNanos ≤ now)

/-- The tick when the counter stands at `now`: the milliseconds since the last one. -/
def tick (c : PacedClock) (now : Nat) : Float × PacedClock :=
  (millisOfNanos (now - c.last), { c with last := now })

/-- No tick is shorter than a cycle. -/
theorem cycleNanos_le {c : PacedClock} {now : Nat} (h : c.isDue now) :
    c.cycleNanos ≤ now - c.last := by
  simp only [isDue, decide_eq_true_eq] at h
  omega

end PacedClock

end ChipEight
