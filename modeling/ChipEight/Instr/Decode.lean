import ChipEight.Fault
import ChipEight.Instr
import ChipEight.Opcode
/-!
# Decoding

`Instr.decode` reads an opcode as an instruction, or says why there is none: it is outside the
table, or it is a transfer that names `VF`.  Whether an opcode is one of these depends on nothing
but the opcode.
-/

namespace ChipEight.Instr

/-- A transfer, unless one of its registers is the flag register. -/
def decodeTransfer (op : Transfer) (x y : Register) : Except Cause Instr :=
  if h : x.val < 15 ∧ y.val < 15 then .ok (.transfer op ⟨x.val, h.1⟩ ⟨y.val, h.2⟩)
  else .error .reservedRegister

def decodeArith (x y : Register) (n : Nat) : Except Cause Instr :=
  match n with
  | 0x0 => decodeTransfer .copy x y
  | 0x1 => decodeTransfer .or x y
  | 0x2 => decodeTransfer .and x y
  | 0x3 => decodeTransfer .xor x y
  | 0x4 => .ok (.arith .add x y)
  | 0x5 => .ok (.arith .sub x y)
  | 0x6 => .ok (.arith .shr x y)
  | 0x7 => .ok (.arith .subn x y)
  | 0xE => .ok (.arith .shl x y)
  | _ => .error .unsupportedOpcode

def decodeDevice (x : Register) (nn : Nat) : Except Cause Instr :=
  match nn with
  | 0x07 => .ok (.readDelay x)
  | 0x0A => .ok (.awaitKey x)
  | 0x15 => .ok (.setDelay x)
  | 0x18 => .ok (.setSound x)
  | 0x1E => .ok (.addIndex x)
  | 0x29 => .ok (.glyph x)
  | 0x33 => .ok (.decimal x)
  | 0x55 => .ok (.store x)
  | 0x65 => .ok (.fill x)
  | _ => .error .unsupportedOpcode

/-- The instruction of an opcode. -/
def decode (op : Opcode) : Except Cause Instr :=
  match Opcode.family op with
  | 0x0 =>
    if Opcode.nnn op = 0x0E0 then .ok .clear
    else if Opcode.nnn op = 0x0EE then .ok .ret
    else .error .unsupportedOpcode
  | 0x1 => .ok (.jump (Opcode.nnn op))
  | 0x2 => .ok (.call (Opcode.nnn op))
  | 0x3 => .ok (.skipEq (Opcode.x op) (Opcode.nn op))
  | 0x4 => .ok (.skipNe (Opcode.x op) (Opcode.nn op))
  | 0x5 =>
    if Opcode.n op = 0 then .ok (.skipEqReg (Opcode.x op) (Opcode.y op))
    else .error .unsupportedOpcode
  | 0x6 => .ok (.load (Opcode.x op) (Opcode.nn op))
  | 0x7 => .ok (.add (Opcode.x op) (Opcode.nn op))
  | 0x8 => decodeArith (Opcode.x op) (Opcode.y op) (Opcode.n op).val
  | 0x9 =>
    if Opcode.n op = 0 then .ok (.skipNeReg (Opcode.x op) (Opcode.y op))
    else .error .unsupportedOpcode
  | 0xA => .ok (.loadIndex (Opcode.nnn op))
  | 0xB => .ok (.jumpOffset (Opcode.nnn op))
  | 0xC => .ok (.random (Opcode.x op) (Opcode.nn op))
  | 0xD => .ok (.draw (Opcode.x op) (Opcode.y op) (Opcode.n op))
  | 0xE =>
    if Opcode.nn op = 0x9E then .ok (.skipKey (Opcode.x op))
    else if Opcode.nn op = 0xA1 then .ok (.skipNoKey (Opcode.x op))
    else .error .unsupportedOpcode
  | 0xF => decodeDevice (Opcode.x op) (Opcode.nn op).toNat
  | _ => .error .unsupportedOpcode

end ChipEight.Instr
