import ChipEight.Clock
/-!
# The wall clock

The counter of nanoseconds of the host, read until a cycle is over.  This is the only clock that
waits.
-/

namespace ChipEight.WallClock

/-- A clock at the given frequency that starts now. -/
def start (f : Frequency) : IO PacedClock :=
  return { last := ← IO.monoNanosNow, cycleNanos := f.cycleNanos }

/-- Waits until the cycle is over, and ticks.  Sleeping is too coarse for the length of a cycle,
so the counter is read over and over. -/
partial def tick (c : PacedClock) : IO (Float × PacedClock) := do
  let now ← IO.monoNanosNow
  if c.isDue now then return c.tick now else tick c

/-- Whether each of `n` ticks reports at least the time of a cycle. -/
def keepsPace (f : Frequency) (n : Nat) : IO Bool := do
  let mut clock ← start f
  let mut kept := true
  for _ in [0:n] do
    let (millis, next) ← tick clock
    clock := next
    kept := kept && f.cycleMillis ≤ millis
  return kept

end ChipEight.WallClock
