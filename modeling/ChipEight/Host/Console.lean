import ChipEight.Host
import ChipEight.Screen
/-!
# The console

Devices whose behaviour is laid down in advance: a screen without a window, a keypad that reports
the entries of a list and then one and the same key, and a clock that follows a function.  They
can be told to stop the run at a tick of the clock or when the screen receives something.
-/

namespace ChipEight

/-- What a screen can receive. -/
inductive Signal where
  | frame
  | beep
  deriving DecidableEq, Repr

/-- The state of the devices. -/
structure Console where
  screen : Screen := {}
  /-- What the keypad reports next, one entry each time it is looked at. -/
  scriptedKeys : List (Option Key) := []
  /-- What the keypad reports after that. -/
  heldKey : Option Key := none
  /-- How often the keypad has been looked at. -/
  polls : Nat := 0
  /-- How often the clock has ticked. -/
  ticks : Nat := 0

/-- How the devices behave. -/
structure Script where
  /-- Milliseconds reported by tick `k`, counting from zero. -/
  millis : Nat → Float
  screenOff : Bool := false
  /-- The tick, counting from one, that stops the run. -/
  stopAtTick : Option Nat := none
  /-- What stops the run when the screen receives it. -/
  stopOn : Option Signal := none

namespace Console

/-- The console with a keypad and a clock that have not been used yet. -/
def prepare (c : Console) (scriptedKeys : List (Option Key)) (heldKey : Option Key) : Console :=
  { screen := c.screen, scriptedKeys := scriptedKeys, heldKey := heldKey }

def refresh (s : Script) (f : Frame) (c : Console) : Reply Console :=
  if s.screenOff then { devices := c }
  else { devices := { c with screen := c.screen.showFrame f }, stop := s.stopOn == some .frame }

/-- The screen sounds its buzzer, and records it. -/
def beep (s : Script) (c : Console) : Reply Console :=
  if s.screenOff then { devices := c }
  else
    { devices := { c with screen := c.screen.beep }
      stop := s.stopOn == some .beep
      log := [.beeped] }

def poll (c : Console) : Option Key × Reply Console :=
  match c.scriptedKeys with
  | [] => (c.heldKey, { devices := { c with polls := c.polls + 1 } })
  | key :: rest => (key, { devices := { c with scriptedKeys := rest, polls := c.polls + 1 } })

def tick (s : Script) (c : Console) : Float × Reply Console :=
  (s.millis c.ticks,
    { devices := { c with ticks := c.ticks + 1 }
      stop := s.stopAtTick == some (c.ticks + 1) })

end Console

/-- The host of a script. -/
def Script.host (s : Script) : Host Console where
  refresh := Console.refresh s
  beep := Console.beep s
  poll := Console.poll
  tick := Console.tick s

end ChipEight
