/-!
# Opcodes

An opcode is a big-endian pair of bytes.  Its fields overlap: `x`, `y` and `n` are the three
lower nibbles, `nn` is the low byte and `nnn` the low twelve bits.  They are defined by division
and remainder, so that facts about them are facts about natural numbers.
-/

namespace ChipEight

/-- One instruction as it stands in memory. -/
abbrev Opcode := UInt16

namespace Opcode

/-- The opcode of two neighbouring bytes, the first being the more significant. -/
def ofBytes (hi lo : UInt8) : Opcode := UInt16.ofNat (hi.toNat * 256 + lo.toNat)

/-- The leading nibble, which names the family of the instruction (`op_code`). -/
def family (op : Opcode) : Nat := op.toNat / 4096

/-- The second nibble (`op_x`). -/
def x (op : Opcode) : Fin 16 := ⟨op.toNat / 256 % 16, by omega⟩

/-- The third nibble (`op_y`). -/
def y (op : Opcode) : Fin 16 := ⟨op.toNat / 16 % 16, by omega⟩

/-- The last nibble (`op_n`). -/
def n (op : Opcode) : Fin 16 := ⟨op.toNat % 16, by omega⟩

/-- The low byte (`op_nn`). -/
def nn (op : Opcode) : UInt8 := op.toUInt8

/-- The low twelve bits (`op_nnn`). -/
def nnn (op : Opcode) : Fin 4096 := ⟨op.toNat % 4096, by omega⟩

theorem family_lt (op : Opcode) : family op < 16 := by
  have := op.toNat_lt
  unfold family
  omega

theorem toNat_nn (op : Opcode) : (nn op).toNat = op.toNat % 256 := by
  simp [nn]

end Opcode

end ChipEight
