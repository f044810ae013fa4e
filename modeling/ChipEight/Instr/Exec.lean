import ChipEight.Instr
import ChipEight.Key
import ChipEight.Machine
/-!
# Execution of one instruction

`Instr.exec` is the effect of an instruction on a machine whose program counter has moved past it.
An instruction that cannot be executed gives its cause and no machine: nothing of it takes place.
`Flow` tells the caller what kind of instruction it was.
-/

namespace ChipEight

/-- What an executed instruction means for the one who runs the machine. -/
inductive Flow where
  | next
  /-- The program counter was set to another address. -/
  | jump
  /-- The frame may have changed. -/
  | draw
  /-- The program waits for a key, to be stored in the register. -/
  | keyWait (register : Register)
  deriving DecidableEq, Repr

namespace Machine

def goTo (m : Machine) (a : Nat) : Machine := { m with pc := UInt16.ofNat a }

def pointAt (m : Machine) (a : Nat) : Machine := { m with index := UInt16.ofNat a }

/-- The machine with the next instruction skipped if the condition holds (`skip`). -/
def skipIf (m : Machine) (condition : Bool) : Machine :=
  if condition then { m with pc := m.pc + 2 } else m

/-- The `length` bytes at `I` lie in memory (`checked_range`). -/
def InReach (m : Machine) (length : Nat) : Prop :=
  length = 0 ∨ m.index.toNat + length ≤ Platform.memorySize

instance (m : Machine) (length : Nat) : Decidable (m.InReach length) :=
  inferInstanceAs (Decidable (_ ∨ _))

theorem inReach_iff {m : Machine} {length : Nat} :
    m.InReach length ↔ length = 0 ∨ m.index.toNat + length ≤ 4096 := Iff.rfl

/-- The failure to reach `length` bytes at `I`, naming the last of them. -/
def beyondReach (m : Machine) (length : Nat) : Cause :=
  .addressOutOfRange (m.index.toNat + length - 1)

/-- The bytes of the decimal digits of a byte: hundreds, tens and units. -/
def decimalDigits (b : UInt8) : List UInt8 := [b / 100 % 10, b / 10 % 10, b % 10]

/-- The machine with the bytes written at `I`. -/
def writeAtIndex (m : Machine) (bs : List UInt8) : Machine :=
  { m with memory := m.memory.write m.index.toNat bs }

/-- The machine with `V0` to `Vx` read from `I`. -/
def fillRegs (m : Machine) (x : Register) : Machine :=
  { m with registers := Vector.ofFn fun i : Fin 16 =>
      if i ≤ x then m.memory.get (m.index.toNat + i.val) else m.reg i }

/-- The points of the sprite of `rows` bytes at `I`, with its corner at `(x, y)`. -/
def spritePoints (m : Machine) (x y : UInt8) (rows : Nat) : List Point :=
  Sprite.points (m.memory.read m.index.toNat rows) x.toNat y.toNat

/-- The machine with the points flipped: the flag says whether one of them was on, and the frame
is dirty if there are any (`draw_sprite`). -/
def flipPoints (m : Machine) (ps : List Point) : Machine :=
  { m.setReg flagRegister (ps.any m.frame.isOn).toUInt8 with
    frame := m.frame.flipAll ps
    dirty := m.dirty || !ps.isEmpty }

end Machine

/-- The effect of an instruction, given the key that is down (the cases of `execute`, `exec_math`
and `exec_misc`). -/
def Instr.exec (key : Option Key) (m : Machine) : Instr → Except Cause (Flow × Machine)
  | .clear => .ok (.draw, m.clearFrame)
  | .ret =>
    match m.stack.pop? with
    | some (target, rest) => .ok (.jump, { m with pc := target, stack := rest })
    | none => .error .stackUnderflow
  | .jump target => .ok (.jump, m.goTo target.val)
  | .call target =>
    match m.stack.push? m.pc with
    | some stack => .ok (.jump, { m.goTo target.val with stack := stack })
    | none => .error .stackOverflow
  | .skipEq x value => .ok (.next, m.skipIf (m.reg x == value))
  | .skipNe x value => .ok (.next, m.skipIf (m.reg x != value))
  | .skipEqReg x y => .ok (.next, m.skipIf (m.reg x == m.reg y))
  | .skipNeReg x y => .ok (.next, m.skipIf (m.reg x != m.reg y))
  | .load x value => .ok (.next, m.setReg x value)
  | .add x value => .ok (.next, m.setReg x (m.reg x + value))
  | .transfer op x y =>
    .ok (.next, m.setReg x.castSucc (op.apply (m.reg x.castSucc) (m.reg y.castSucc)))
  | .arith op x y =>
    let result := op.apply (m.reg x) (m.reg y)
    .ok (.next, (m.setReg x result.value).setReg flagRegister result.flag.toUInt8)
  | .loadIndex target => .ok (.next, m.pointAt target.val)
  | .jumpOffset target => .ok (.jump, m.goTo (target.val + (m.reg 0).toNat))
  | .random x mask =>
    .ok (.next, { m.setReg x (mask &&& m.random.byte) with random := m.random.next })
  | .draw x y rows =>
    if m.InReach rows.val then
      .ok (.draw, m.flipPoints (m.spritePoints (m.reg x) (m.reg y) rows.val))
    else .error (m.beyondReach rows.val)
  | .skipKey x => .ok (.next, m.skipIf (key.map Key.toByte == some (m.reg x)))
  | .skipNoKey x => .ok (.next, m.skipIf (key.map Key.toByte != some (m.reg x)))
  | .readDelay x => .ok (.next, m.setReg x m.delay)
  | .awaitKey x => .ok (.keyWait x, m)
  | .setDelay x => .ok (.next, { m with delay := m.reg x })
  | .setSound x => .ok (.next, { m with sound := m.reg x })
  | .addIndex x => .ok (.next, { m with index := m.index + (m.reg x).toUInt16 })
  | .glyph x =>
    .ok (.next, m.pointAt (Platform.fontStart + (m.reg x).toNat * Platform.glyphHeight))
  | .decimal x =>
    if m.InReach 3 then .ok (.next, m.writeAtIndex (Machine.decimalDigits (m.reg x)))
    else .error (m.beyondReach 3)
  | .store x =>
    if m.InReach (x.val + 1) then .ok (.next, m.writeAtIndex (m.regsUpTo x))
    else .error (m.beyondReach (x.val + 1))
  | .fill x =>
    if m.InReach (x.val + 1) then .ok (.next, m.fillRegs x)
    else .error (m.beyondReach (x.val + 1))

end ChipEight
