import ChipEight.CallStack
import ChipEight.Fault
import ChipEight.Frame
import ChipEight.Memory
import ChipEight.Random
/-!
# The machine

The state that a program works on, and the parts of instructions that are also needed outside
them: starting, loading a program, fetching, and counting the timers down.
-/

namespace ChipEight

/-- The state of a machine. -/
structure Machine where
  /-- The address of the next instruction. -/
  pc : Address
  index : Address
  registers : Vector UInt8 16
  stack : CallStack
  delay : UInt8
  sound : UInt8
  memory : Memory
  frame : Frame
  /-- Whether the frame has changed since it was last shown. -/
  dirty : Bool
  random : Random
  deriving DecidableEq

namespace Machine

/-- A machine that has just been switched on, with its stream of random numbers. -/
def initial (random : Random) : Machine where
  pc := UInt16.ofNat Platform.programStart
  index := 0
  registers := Vector.replicate Platform.registerCount 0
  stack := .empty
  delay := 0
  sound := 0
  memory := .initial
  frame := .blank
  dirty := true
  random := random

/-- The machine switched off and on again; only the stream of random numbers goes on (`reset` of
the processor). -/
def reset (m : Machine) : Machine := initial m.random

/-- The machine reset, with a program at its place. -/
def withProgram (m : Machine) (program : List UInt8) : Machine :=
  { m.reset with memory := Memory.initial.write Platform.programStart program }

/-- Loads a program, unless it is too large (`load_program`). -/
def load (m : Machine) (program : List UInt8) : Except Error Machine :=
  if program.length ≤ Platform.programCapacity then .ok (m.withProgram program)
  else .error (.programTooLarge program.length Platform.programCapacity)

/-- The opcode at the program counter, if it lies in memory (`instr`). -/
def fetch? (m : Machine) : Option Opcode := m.memory.opcode? m.pc

/-- The program counter moved past one instruction, wrapping at sixteen bits. -/
def advance (m : Machine) : Machine := { m with pc := m.pc + 2 }

/-- The address of the instruction that the program counter has just moved past (`instr_addr`). -/
def currentAddress (m : Machine) : Address := m.pc - 2

/-! ### Registers -/

def reg (m : Machine) (x : Register) : UInt8 := m.registers[x]

def setReg (m : Machine) (x : Register) (b : UInt8) : Machine :=
  { m with registers := m.registers.set x b }

theorem reg_setReg (m : Machine) (x y : Register) (b : UInt8) :
    (m.setReg x b).reg y = if x = y then b else m.reg y := by
  by_cases h : x = y
  · simp [reg, setReg, h]
  · have : x.val ≠ y.val := fun e => h (Fin.ext e)
    simp [reg, setReg, h, this]

/-- The values of `V0` to `Vx`. -/
def regsUpTo (m : Machine) (x : Register) : List UInt8 := m.registers.toList.take (x.val + 1)

/-! ### The frame -/

/-- The frame made blank, to be shown again (`clear_display`). -/
def clearFrame (m : Machine) : Machine := { m with frame := .blank, dirty := true }

/-! ### Timers -/

/-- The delay timer counted down, unless it is zero (`tick_delay`). -/
def tickDelay (m : Machine) : Machine := { m with delay := UInt8.ofNat (m.delay.toNat - 1) }

/-- The sound timer counted down, unless it is zero (`tick_sound`). -/
def tickSound (m : Machine) : Machine := { m with sound := UInt8.ofNat (m.sound.toNat - 1) }

/-- Whether the buzzer sounds when the sound timer is counted down: it is about to reach zero. -/
def buzzes (m : Machine) : Bool := m.sound == 1

end Machine

end ChipEight
