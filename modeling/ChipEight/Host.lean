import ChipEight.Frame
import ChipEight.Log
/-!
# Hosts

A machine shows frames, sounds a buzzer, looks at keys and asks how much time has passed.  A
`Host` says how the devices of some state `σ` answer; what an answer leaves behind is a `Reply`.
A device can ask for the run to be stopped and can write records of its own.  A `World` is all
that surrounds a machine: its devices, a pending request to stop, and the log.
-/

namespace ChipEight

/-- The devices after they have been used, and what they asked for and recorded meanwhile. -/
structure Reply (σ : Type) where
  devices : σ
  stop : Bool := false
  log : List Record := []

/-- How devices of state `σ` behave. -/
structure Host (σ : Type) where
  /-- The screen is shown a frame. -/
  refresh : Frame → σ → Reply σ
  /-- The screen sounds its buzzer. -/
  beep : σ → Reply σ
  /-- The keypad reports the key that is down. -/
  poll : σ → Option Key × Reply σ
  /-- The clock waits for the end of a cycle and reports the milliseconds since the last one. -/
  tick : σ → Float × Reply σ

/-- What surrounds a machine. -/
structure World (σ : Type) where
  devices : σ
  stopRequested : Bool := false
  log : Array Record := #[]

namespace World

variable {σ : Type}

/-- The world after a reply of its devices. -/
def accept (w : World σ) (r : Reply σ) : World σ where
  devices := r.devices
  stopRequested := w.stopRequested || r.stop
  log := w.log ++ r.log

def emit (w : World σ) (r : Record) : World σ := { w with log := w.log.push r }

def stop (w : World σ) : World σ := { w with stopRequested := true }

def poll (h : Host σ) (w : World σ) : Option Key × World σ :=
  let answer := h.poll w.devices
  (answer.1, w.accept answer.2)

def tick (h : Host σ) (w : World σ) : Float × World σ :=
  let answer := h.tick w.devices
  (answer.1, w.accept answer.2)

end World

end ChipEight
