/-!
# The CHIP-8 platform

Sizes, addresses and fixed data of the machine.  The types of registers, addresses and buffers
carry the numbers as literals (`Fin 16`, `Vector UInt8 4096`), which the arithmetic of proofs
reads; what is computed is computed from the names here.

The library is about an emulator of this platform.  A definition that stands for one of its
functions gives the name of that function in parentheses at the end of its docstring.
-/

namespace ChipEight

/-- The library's instance, under a name of its own.  Literals of `Fin 16` mention the instance that
is found for them; it is found here first, so that they are the same terms in a module that imports
more algebra. -/
instance neZero_sixteen : @NeZero Nat (@Zero.ofOfNat0 Nat (instOfNatNat 0)) 16 :=
  Nat.instNeZeroSucc

/-- The same for literals of `Fin 4096`. -/
instance neZero_memory : @NeZero Nat (@Zero.ofOfNat0 Nat (instOfNatNat 0)) 4096 :=
  Nat.instNeZeroSucc

/-- Addresses are sixteen bits wide; only the first 4096 reach memory. -/
abbrev Address := UInt16

/-- The general purpose registers `V0` to `VF`. -/
abbrev Register := Fin 16

/-- `VF` receives carries, borrows and collisions. -/
def flagRegister : Register := 15

namespace Platform

abbrev registerCount : Nat := 16

/-- Bytes of memory. -/
abbrev memorySize : Nat := 4096

/-- Programs begin here; the cells below belong to the interpreter and its font. -/
abbrev programStart : Nat := 512

/-- The longest program that fits between `programStart` and the end of memory. -/
abbrev programCapacity : Nat := memorySize - programStart

/-- Nested calls that the call stack can hold. -/
abbrev stackDepth : Nat := 16

abbrev frameWidth : Nat := 64
abbrev frameHeight : Nat := 32

/-- Pixels of a frame. -/
abbrev frameSize : Nat := frameWidth * frameHeight

/-- Sprites are eight pixels wide, one bit a pixel. -/
abbrev spriteWidth : Nat := 8

abbrev keyCount : Nat := 16

/-- The glyphs of the hexadecimal digits stand at the start of memory. -/
def fontStart : Nat := 0

/-- Rows, and so bytes, of one glyph. -/
def glyphHeight : Nat := 5

/-- The glyphs of `0` to `F`, five rows each, in the upper four bits of a byte. -/
def font : List UInt8 :=
  [0xF0, 0x90, 0x90, 0x90, 0xF0, -- 0
   0x20, 0x60, 0x20, 0x20, 0x70, -- 1
   0xF0, 0x10, 0xF0, 0x80, 0xF0, -- 2
   0xF0, 0x10, 0xF0, 0x10, 0xF0, -- 3
   0x90, 0x90, 0xF0, 0x10, 0x10, -- 4
   0xF0, 0x80, 0xF0, 0x10, 0xF0, -- 5
   0xF0, 0x80, 0xF0, 0x90, 0xF0, -- 6
   0xF0, 0x10, 0x20, 0x40, 0x40, -- 7
   0xF0, 0x90, 0xF0, 0x90, 0xF0, -- 8
   0xF0, 0x90, 0xF0, 0x10, 0xF0, -- 9
   0xF0, 0x90, 0xF0, 0x90, 0x90, -- A
   0xE0, 0x90, 0xE0, 0x90, 0xE0, -- B
   0xF0, 0x80, 0x80, 0x80, 0xF0, -- C
   0xE0, 0x90, 0x90, 0x90, 0xE0, -- D
   0xF0, 0x80, 0xF0, 0x80, 0xF0, -- E
   0xF0, 0x80, 0xF0, 0x80, 0x80] -- F

/-- The timers count down this many times a second. -/
def timerFrequency : Nat := 60

/-- Milliseconds that have to pass before the timers count down. -/
def timerPeriod : Float := 1000.0 / Float.ofNat timerFrequency

/-- Version of this implementation, as the command line prints it. -/
def version : String := "0.4.0"

end Platform

end ChipEight
