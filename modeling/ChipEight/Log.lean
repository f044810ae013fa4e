import ChipEight.Fault
import ChipEight.Instr.Mnemonic
import ChipEight.Key
/-!
# The log

What happens in a machine is recorded in the order in which it happens.  Records keep the values
they speak of; their wording is a function of them.
-/

namespace ChipEight

/-- How important a record is. -/
inductive Level where
  | debug
  | info
  | error
  deriving DecidableEq, Repr

def Level.name : Level → String
  | .debug => "DEBUG"
  | .info => "INFO"
  | .error => "ERROR"

/-- Something that happened. -/
inductive Record where
  /-- The instruction at `pc` is about to take effect. -/
  | executing (pc : Address) (i : Instr)
  /-- The key that a program waited for. -/
  | keyArrived (key : Key) (register : Register)
  /-- The sound timer has run out. -/
  | soundOver
  /-- A fault has ended the cycle. -/
  | stopped (f : Fault)
  | loaded (size : Nat)
  | reset
  /-- The screen has sounded its buzzer. -/
  | beeped
  deriving DecidableEq, Repr

namespace Record

/-- The importance of a record: programs are traced, sessions are told of, faults are errors. -/
def level : Record → Level
  | .executing .. | .keyArrived .. | .soundOver => .debug
  | .loaded _ | .reset | .beeped => .info
  | .stopped _ => .error

/-- The line of a trace: an address and the instruction there. -/
def trace (pc : Address) (i : Instr) : List Char :=
  Hex.fixed .upper 4 pc.toNat ++ [':', ' '] ++ i.mnemonic

def text : Record → String
  | .executing pc i => String.ofList (trace pc i)
  | .keyArrived key r =>
    "key " ++ key.label ++ " into " ++ String.ofList (Instr.registerText r.val)
  | .soundOver => "beep"
  | .stopped f => f.message
  | .loaded size => "loaded program of " ++ Nat.repr size ++ " bytes"
  | .reset => "reset"
  | .beeped => "beep"

def line (r : Record) : String := r.level.name ++ " " ++ r.text

end Record

end ChipEight
