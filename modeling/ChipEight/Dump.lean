import ChipEight.Instr.Mnemonic
import ChipEight.Machine
/-!
# Dumps

The contents of a machine as text, for people: the program area of memory, and the registers.
-/

namespace ChipEight.Dump

/-- Lines of two bytes, each after its address; a last odd byte has a line of its own. -/
def memoryLines (start : Nat) : List UInt8 → List (List Char)
  | [] => []
  | [a] => [Hex.fixed .upper 4 start ++ [':', ' '] ++ Hex.byte .upper a]
  | a :: b :: rest =>
    (Hex.fixed .upper 4 start ++ [':', ' '] ++ Hex.byte .upper a ++ Hex.byte .upper b)
      :: memoryLines (start + 2) rest

/-- The first `count` bytes of the program area, or all of it (`dump_ram`). -/
def memory (m : Memory) (count : Nat) : String :=
  String.ofList <|
    (memoryLines Platform.programStart
      (m.read Platform.programStart (min count Platform.programCapacity))).flatMap (· ++ ['\n'])

/-- A name, an equals sign and a number with at least `width` digits. -/
def field (name : List Char) (width n : Nat) : List Char :=
  name ++ '=' :: Hex.atLeast .upper width n

/-- All registers on one line: program counter, `I`, depth of the call stack, timers, and `V0` to
`VF` (`dump_registers`). -/
def registers (m : Machine) : String :=
  String.ofList <|
    field ['P', 'C'] 4 m.pc.toNat
      ++ ' ' :: field ['I'] 4 m.index.toNat
      ++ ' ' :: field ['S', 'P'] 1 m.stack.depth
      ++ ' ' :: field ['D', 'T'] 2 m.delay.toNat
      ++ ' ' :: field ['S', 'T'] 2 m.sound.toNat
      ++ (List.finRange Platform.registerCount).flatMap fun x =>
        ' ' :: field (Instr.registerText x.val) 2 (m.reg x).toNat

end ChipEight.Dump
