/-!
# Arithmetic with a flag

Instructions `8xy4` to `8xyE` compute a byte and a flag.  The flag is part of the result, so that
the caller decides where it goes.  Subtraction flags a borrow.
-/

namespace ChipEight.Alu

/-- A byte and the flag that belongs to it. -/
structure Result where
  value : UInt8
  flag : Bool
  deriving DecidableEq, Repr

/-- The operations that define the flag. -/
inductive Op where
  | add
  | sub
  | subn
  | shr
  | shl
  deriving DecidableEq, Repr

/-- The sum modulo 256; the flag is the carry. -/
def add (a b : UInt8) : Result := ⟨a + b, decide (256 ≤ a.toNat + b.toNat)⟩

/-- `a - b` modulo 256; the flag says that the subtraction borrowed. -/
def sub (a b : UInt8) : Result := ⟨a - b, decide (a < b)⟩

/-- `b - a` modulo 256; the flag says that the subtraction borrowed. -/
def subn (a b : UInt8) : Result := sub b a

/-- Half of the byte; the flag is the bit shifted out on the right. -/
def shr (a : UInt8) : Result := ⟨a >>> 1, decide (a.toNat % 2 = 1)⟩

/-- Twice the byte modulo 256; the flag is the bit shifted out on the left. -/
def shl (a : UInt8) : Result := ⟨a <<< 1, decide (128 ≤ a.toNat)⟩

/-- The operation on the values of two registers; the shifts use the first only. -/
def Op.apply : Op → UInt8 → UInt8 → Result
  | .add, a, b => Alu.add a b
  | .sub, a, b => Alu.sub a b
  | .subn, a, b => Alu.subn a b
  | .shr, a, _ => Alu.shr a
  | .shl, a, _ => Alu.shl a

end ChipEight.Alu
