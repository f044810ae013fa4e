import ChipEight.Alu
import ChipEight.Platform
/-!
# Instructions

The instruction set, one constructor a form.  Operands are values of the types they stand for:
a transfer between registers cannot name `VF`, a target lies below 4096, a sprite has at most
fifteen rows.  The shifts keep the second register of their opcode although they ignore it, so
that an instruction determines its opcode.
-/

namespace ChipEight

/-- Operations `8xy0` to `8xy3`, which leave the flag alone. -/
inductive Transfer where
  | copy
  | or
  | and
  | xor
  deriving DecidableEq, Repr

/-- The byte that a transfer stores, from the values of `Vx` and `Vy`. -/
def Transfer.apply : Transfer → UInt8 → UInt8 → UInt8
  | .copy, _, b => b
  | .or, a, b => a ||| b
  | .and, a, b => a &&& b
  | .xor, a, b => a ^^^ b

/-- One instruction with its operands. -/
inductive Instr where
  /-- `00E0`: switch all pixels off. -/
  | clear
  /-- `00EE`: return from a call. -/
  | ret
  /-- `1nnn`: go to an address. -/
  | jump (target : Fin 4096)
  /-- `2nnn`: call the routine at an address. -/
  | call (target : Fin 4096)
  /-- `3xnn`: skip the next instruction if `Vx` is the byte. -/
  | skipEq (x : Register) (value : UInt8)
  /-- `4xnn`: skip the next instruction unless `Vx` is the byte. -/
  | skipNe (x : Register) (value : UInt8)
  /-- `5xy0`: skip the next instruction if `Vx` is `Vy`. -/
  | skipEqReg (x y : Register)
  /-- `6xnn`: set `Vx` to the byte. -/
  | load (x : Register) (value : UInt8)
  /-- `7xnn`: add the byte to `Vx`, without a flag. -/
  | add (x : Register) (value : UInt8)
  /-- `8xy0` to `8xy3`: combine `Vy` into `Vx`; neither is `VF`. -/
  | transfer (op : Transfer) (x y : Fin 15)
  /-- `8xy4` to `8xy7` and `8xyE`: compute `Vx`, and the flag into `VF`. -/
  | arith (op : Alu.Op) (x y : Register)
  /-- `9xy0`: skip the next instruction unless `Vx` is `Vy`. -/
  | skipNeReg (x y : Register)
  /-- `Annn`: set `I`. -/
  | loadIndex (target : Fin 4096)
  /-- `Bnnn`: go to an address offset by `V0`. -/
  | jumpOffset (target : Fin 4096)
  /-- `Cxnn`: set `Vx` to a random byte under a mask. -/
  | random (x : Register) (mask : UInt8)
  /-- `Dxyn`: draw the sprite of `rows` bytes at `I` at the coordinates in `Vx` and `Vy`. -/
  | draw (x y : Register) (rows : Fin 16)
  /-- `Ex9E`: skip the next instruction if the key numbered `Vx` is down. -/
  | skipKey (x : Register)
  /-- `ExA1`: skip the next instruction unless the key numbered `Vx` is down. -/
  | skipNoKey (x : Register)
  /-- `Fx07`: copy the delay timer to `Vx`. -/
  | readDelay (x : Register)
  /-- `Fx0A`: wait for a key and put its number in `Vx`. -/
  | awaitKey (x : Register)
  /-- `Fx15`: set the delay timer from `Vx`. -/
  | setDelay (x : Register)
  /-- `Fx18`: set the sound timer from `Vx`. -/
  | setSound (x : Register)
  /-- `Fx1E`: add `Vx` to `I`. -/
  | addIndex (x : Register)
  /-- `Fx29`: point `I` at the glyph of the digit `Vx`. -/
  | glyph (x : Register)
  /-- `Fx33`: write the three decimal digits of `Vx` at `I`. -/
  | decimal (x : Register)
  /-- `Fx55`: write `V0` to `Vx` at `I`. -/
  | store (x : Register)
  /-- `Fx65`: read `V0` to `Vx` from `I`. -/
  | fill (x : Register)
  deriving DecidableEq, Repr

/-- Whether the instruction looks at the keypad. -/
def Instr.readsKey : Instr → Bool
  | .skipKey _ | .skipNoKey _ => true
  | _ => false

end ChipEight
