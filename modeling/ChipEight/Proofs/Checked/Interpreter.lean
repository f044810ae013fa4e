import ChipEight.Instr.Exec
import ChipEight.Proofs.Checked.Store
/-!
# The checked interpreter

The interpreter in single steps on a bench.  It cuts the fields of an opcode out by masks and
shifts, looks them up case by case, and reads and writes the store one element at a time, in the
order in which it is done; every index, range and sum is checked.  `Bench.execute` is the whole.
-/

namespace ChipEight.Checked

open Program

/-- What an executed instruction reports; a register is a byte here. -/
inductive Notice where
  | next
  | jump
  | draw
  | keyWait (register : UInt8)
  deriving DecidableEq, Repr

def Notice.ofFlow : Flow → Notice
  | .next => .next
  | .jump => .jump
  | .draw => .draw
  | .keyWait r => .keyWait (UInt8.ofNat r.val)

/-! ### Fields

The fields as masks and shifts cut them out (`op_code` to `op_nnn`). -/

def codeField (op : Opcode) : Nat := ((op &&& 0xF000) >>> 12).toUInt8.toNat
def xField (op : Opcode) : Nat := ((op &&& 0x0F00) >>> 8).toUInt8.toNat
def yField (op : Opcode) : Nat := ((op &&& 0x00F0) >>> 4).toUInt8.toNat
def nField (op : Opcode) : Nat := (op &&& 0x000F).toUInt8.toNat
def nnField (op : Opcode) : UInt8 := (op &&& 0x00FF).toUInt8
def nnnField (op : Opcode) : Address := op &&& 0x0FFF

namespace Bench

variable {σ : Type}

/-! ### Parts of instructions -/

/-- Records an instruction before it takes effect (`op_trace` and its kind). -/
def trace (i : Instr) : Program (Bench σ) Unit :=
  modify fun b => { b with world := b.world.emit (.executing (b.store.pc - 2) i) }

def refuse {α : Type} (cause : Cause) (op : Opcode) : Program (Bench σ) α := do
  raise (.instruction cause ((← get).store.pc - 2) op)

/-- Looks at the keypad (`current_key`). -/
def poll (h : Host σ) : Program (Bench σ) (Option Key) := do
  let (key, world) := (← get).world.poll h
  modify fun b => { b with world := world }
  return key

def skipIf (test : Bool) : Program (Bench σ) Notice := do
  if test then skip
  return .next

def assign (x : Nat) (value : UInt8) : Program (Bench σ) Notice := do
  setReg x value
  return .next

def assignFlagged (x : Nat) (result : Alu.Result) : Program (Bench σ) Notice := do
  setReg x result.value
  setReg flagRegister.val result.flag.toUInt8
  return .next

/-- The address `I`, if `length` bytes from there on lie in memory (`checked_range`). -/
def checkedRange (op : Opcode) (length : Nat) : Program (Bench σ) Nat := do
  let start := (← get).store.index.toNat
  let past ← add start length
  if past > Platform.memorySize then
    let last ← sub past 1
    refuse (.addressOutOfRange last) op
  else return start

/-! ### Drawing -/

/-- Switches the pixel at a point over, wrapping around both edges, and says whether it was on
(`xor_pixel`). -/
def flipPixel (x y : Nat) : Program (Bench σ) Bool := do
  let row ← mul (y % Platform.frameHeight) Platform.frameWidth
  let i ← add (x % Platform.frameWidth) row
  let old ← element (← get).store.pixels i
  let pixels ← replace (← get).store.pixels i (!old)
  update fun st => { st with pixels := pixels, dirty := true }
  return old

/-- The inner loop of `drawSprite`, over the columns of a row. -/
def drawRow (row : UInt8) (x y r : Nat) : List Nat → Bool → Program (Bench σ) Bool
  | [], erased => return erased
  | c :: cs, erased => do
    let bit ← shiftRight row (← sub 7 c)
    if bit &&& 1 ≠ 0 then
      let old ← flipPixel (← add x c) (← add y r)
      drawRow row x y r cs (erased || old)
    else drawRow row x y r cs erased

/-- The outer loop of `drawSprite`. -/
def drawRows (start x y : Nat) : List Nat → Bool → Program (Bench σ) Bool
  | [], erased => return erased
  | r :: rs, erased => do
    let row ← element (← get).store.memory (← add start r)
    let erased ← drawRow row x y r (List.range Platform.spriteWidth) erased
    drawRows start x y rs erased

def leavesMemory (start rows : Nat) : Program (Bench σ) Bool := do
  if rows > 0 then return decide ((← add start rows) > Platform.memorySize) else return false

/-- Draws the sprite of `rows` bytes at `I` and says whether it has erased a pixel, unless it
leaves memory (`draw_sprite`). -/
def drawSprite (x y : UInt8) (rows : Nat) : Program (Bench σ) (Option Bool) := do
  let start := (← get).store.index.toNat
  if ← leavesMemory start rows then return none
  else
    setReg flagRegister.val 0
    let erased ← drawRows start x.toNat y.toNat (List.range rows) false
    return some erased

/-! ### Instructions -/

/-- Makes the screen blank (`clear_display`). -/
def clearFrame : Program (Bench σ) Unit :=
  update fun st => { st with pixels := Vector.replicate Platform.frameSize false, dirty := true }

def clearScreen : Program (Bench σ) Notice := do
  clearFrame
  return .draw

def returnFromCall (op : Opcode) : Program (Bench σ) Notice := do
  match ← pop with
  | some a =>
    goTo a
    return .jump
  | none => refuse .stackUnderflow op

def jumpTo (a : Address) : Program (Bench σ) Notice := do
  goTo a
  return .jump

def callTo (op : Opcode) (a : Address) : Program (Bench σ) Notice := do
  if ← push (← get).store.pc then
    goTo a
    return .jump
  else refuse .stackOverflow op

def jumpToOffset (a : Address) : Program (Bench σ) Notice := do
  let offset ← reg 0
  goTo (← addAddress a offset.toUInt16)
  return .jump

def randomByte (x : Nat) (mask : UInt8) : Program (Bench σ) Notice := do
  let random := (← get).store.random
  update fun st => { st with random := random.next }
  assign x (mask &&& random.byte)

def drawAt (op : Opcode) (x y rows : Nat) : Program (Bench σ) Notice := do
  match ← drawSprite (← reg x) (← reg y) rows with
  | some erased =>
    setReg flagRegister.val erased.toUInt8
    return .draw
  | none =>
    let past ← add (← get).store.index.toNat rows
    let last ← sub past 1
    refuse (.addressOutOfRange last) op

def addToIndex (x : Nat) : Program (Bench σ) Notice := do
  let offset ← reg x
  pointAt ((← get).store.index + offset.toUInt16)
  return .next

def pointAtGlyph (x : Nat) : Program (Bench σ) Notice := do
  let digit ← reg x
  let offset ← mulAddress digit.toUInt16 (UInt16.ofNat Platform.glyphHeight)
  pointAt (← addAddress (UInt16.ofNat Platform.fontStart) offset)
  return .next

def setByte (a : Nat) (value : UInt8) : Program (Bench σ) Unit := do
  let memory ← replace (← get).store.memory a value
  update fun st => { st with memory := memory }

def writeDecimal (op : Opcode) (x : Nat) : Program (Bench σ) Notice := do
  let start ← checkedRange op 3
  let value ← reg x
  setByte start (value / 100 % 10)
  setByte (← add start 1) (value / 10 % 10)
  setByte (← add start 2) (value % 10)
  return .next

def storeRegisters (op : Opcode) (x : Nat) : Program (Bench σ) Notice := do
  let start ← checkedRange op (← add x 1)
  let past ← add (← add start x) 1
  let source ← slice (← get).store.registers 0 (← add x 1)
  let memory ← copy (← get).store.memory start past source
  update fun st => { st with memory := memory }
  return .next

def fillRegisters (op : Opcode) (x : Nat) : Program (Bench σ) Notice := do
  let start ← checkedRange op (← add x 1)
  let past ← add (← add start x) 1
  let source ← slice (← get).store.memory start past
  let registers ← copy (← get).store.registers 0 (← add x 1) source
  update fun st => { st with registers := registers }
  return .next

/-! ### Looking opcodes up -/

/-- The register of a field, for a record. -/
def named (x : Nat) : Register := Fin.ofNat 16 x

/-- The instructions of family 8 (`exec_math`). -/
def executeArith (op : Opcode) : Program (Bench σ) Notice := do
  let x := xField op
  let y := yField op
  let n := nField op
  if n ≤ 3 ∧ (x = 15 ∨ y = 15) then refuse .reservedRegister op
  else
    let a ← reg x
    let b ← reg y
    match n with
    | 0x0 => trace (.transfer .copy (Fin.ofNat 15 x) (Fin.ofNat 15 y)); assign x b
    | 0x1 => trace (.transfer .or (Fin.ofNat 15 x) (Fin.ofNat 15 y)); assign x (a ||| b)
    | 0x2 => trace (.transfer .and (Fin.ofNat 15 x) (Fin.ofNat 15 y)); assign x (a &&& b)
    | 0x3 => trace (.transfer .xor (Fin.ofNat 15 x) (Fin.ofNat 15 y)); assign x (a ^^^ b)
    | 0x4 => trace (.arith .add (named x) (named y)); assignFlagged x (Alu.add a b)
    | 0x5 => trace (.arith .sub (named x) (named y)); assignFlagged x (Alu.sub a b)
    | 0x6 => trace (.arith .shr (named x) (named y)); assignFlagged x (Alu.shr a)
    | 0x7 => trace (.arith .subn (named x) (named y)); assignFlagged x (Alu.subn a b)
    | 0xE => trace (.arith .shl (named x) (named y)); assignFlagged x (Alu.shl a)
    | _ => refuse .unsupportedOpcode op

/-- The instructions of families 0, E and F (`exec_misc`). -/
def executeMisc (h : Host σ) (op : Opcode) : Program (Bench σ) Notice := do
  let x := xField op
  match codeField op, (nnField op).toNat with
  | 0x0, 0xE0 =>
    if x = 0 then trace .clear; clearScreen else refuse .unsupportedOpcode op
  | 0x0, 0xEE =>
    if x = 0 then trace .ret; returnFromCall op else refuse .unsupportedOpcode op
  | 0xE, 0x9E =>
    trace (.skipKey (named x))
    let key ← poll h
    skipIf (key.map Key.toByte == some (← reg x))
  | 0xE, 0xA1 =>
    trace (.skipNoKey (named x))
    let key ← poll h
    skipIf (key.map Key.toByte != some (← reg x))
  | 0xF, 0x07 => trace (.readDelay (named x)); assign x (← get).store.delay
  | 0xF, 0x0A => trace (.awaitKey (named x)); return .keyWait (UInt8.ofNat x)
  | 0xF, 0x15 =>
    trace (.setDelay (named x))
    let value ← reg x
    update fun st => { st with delay := value }
    return .next
  | 0xF, 0x18 =>
    trace (.setSound (named x))
    let value ← reg x
    update fun st => { st with sound := value }
    return .next
  | 0xF, 0x1E => trace (.addIndex (named x)); addToIndex x
  | 0xF, 0x29 => trace (.glyph (named x)); pointAtGlyph x
  | 0xF, 0x33 => trace (.decimal (named x)); writeDecimal op x
  | 0xF, 0x55 => trace (.store (named x)); storeRegisters op x
  | 0xF, 0x65 => trace (.fill (named x)); fillRegisters op x
  | _, _ => refuse .unsupportedOpcode op

/-- Executes one opcode on a store whose program counter has moved past it (`execute`). -/
def execute (h : Host σ) (op : Opcode) : Program (Bench σ) Notice := do
  let x := xField op
  let y := yField op
  let n := nField op
  let nn := nnField op
  let nnn := nnnField op
  match codeField op with
  | 0x0 | 0xE | 0xF => executeMisc h op
  | 0x1 => trace (.jump (Fin.ofNat 4096 nnn.toNat)); jumpTo nnn
  | 0x2 => trace (.call (Fin.ofNat 4096 nnn.toNat)); callTo op nnn
  | 0x3 => trace (.skipEq (named x) nn); skipIf ((← reg x) == nn)
  | 0x4 => trace (.skipNe (named x) nn); skipIf ((← reg x) != nn)
  | 0x5 =>
    if n = 0 then trace (.skipEqReg (named x) (named y)); skipIf ((← reg x) == (← reg y))
    else refuse .unsupportedOpcode op
  | 0x6 => trace (.load (named x) nn); assign x nn
  | 0x7 => trace (.add (named x) nn); assign x ((← reg x) + nn)
  | 0x8 => executeArith op
  | 0x9 =>
    if n = 0 then trace (.skipNeReg (named x) (named y)); skipIf ((← reg x) != (← reg y))
    else refuse .unsupportedOpcode op
  | 0xA => trace (.loadIndex (Fin.ofNat 4096 nnn.toNat)); pointAt nnn; return .next
  | 0xB => trace (.jumpOffset (Fin.ofNat 4096 nnn.toNat)); jumpToOffset nnn
  | 0xC => trace (.random (named x) nn); randomByte x nn
  | 0xD => trace (.draw (named x) (named y) (Fin.ofNat 16 n)); drawAt op x y n
  | _ => refuse .unsupportedOpcode op

end Bench

end ChipEight.Checked
