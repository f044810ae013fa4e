import ChipEight.Clock
import ChipEight.Machine.Execute
/-!
# The virtual machine

A machine together with what is needed to run it: whether it fetches instructions or waits for a
key, and how much time has gathered towards the next count of the timers.  A `Session` is a
virtual machine in a world.
-/

namespace ChipEight

/-- What the next cycle does. -/
inductive Mode where
  | fetching
  /-- The keypad is looked at, until a key is down that can be stored in the register. -/
  | awaitingKey (register : Register)
  deriving DecidableEq, Repr

/-- The mode after an instruction. -/
def Mode.after : Flow → Mode
  | .keyWait r => .awaitingKey r
  | _ => .fetching

/-- The settings of a virtual machine. -/
structure Config where
  /-- The frequency of the processor, if it is not the standard one. -/
  clockFrequency : Option Frequency := none
  /-- Where the random numbers come from. -/
  seed : Seed
  deriving DecidableEq, Repr

/-- The frequency of the processor (`clock_frequency`). -/
def Config.frequency (c : Config) : Frequency := c.clockFrequency.getD .standard

/-- A machine that can be run. -/
structure Vm where
  machine : Machine
  mode : Mode
  /-- Milliseconds gathered since the timers last counted down. -/
  elapsed : Float
  /-- Whether a run is going on. -/
  running : Bool
  config : Config

namespace Vm

/-- A virtual machine that has just been switched on. -/
def new (config : Config) : Vm where
  machine := .initial (.ofSeed config.seed)
  mode := .fetching
  elapsed := 0.0
  running := false
  config := config

/-- The virtual machine with another machine, fetching, and with no time gathered
(`reset_control`). -/
def restart (vm : Vm) (machine : Machine) : Vm :=
  { vm with machine := machine, mode := .fetching, elapsed := 0.0 }

end Vm

/-- A virtual machine in a world. -/
structure Session (σ : Type) where
  vm : Vm
  world : World σ

namespace Session

variable {σ : Type}

/-- A virtual machine that has just been switched on, among devices (`new`). -/
def new (config : Config) (devices : σ) : Session σ where
  vm := .new config
  world := { devices := devices }

/-- Returns the machine to the state in which it was switched on, erasing the program (`reset`). -/
def reset (s : Session σ) : Session σ where
  vm := s.vm.restart s.vm.machine.reset
  world := s.world.emit .reset

/-- Loads a program into the machine and restarts it; one that is too large changes nothing
(`load_bytecode`). -/
def load (s : Session σ) (program : List UInt8) : Except Error Unit × Session σ :=
  match s.vm.machine.load program with
  | .error e => (.error e, s)
  | .ok machine =>
    (.ok (), { vm := s.vm.restart machine, world := s.world.emit (.loaded program.length) })

/-- Asks for the run to be stopped before its next cycle (`stop`). -/
def stop (s : Session σ) : Session σ := { s with world := s.world.stop }

end Session

end ChipEight
