import ChipEight.Instr.Encoding
/-!
# The instruction table

Which opcodes stand for no instruction is said here on their fields alone, without the decoder:
an opcode is unassigned, or it is a transfer that names `VF`.  The decoder fails on exactly these
(`decode_eq_error_iff`).
-/

namespace ChipEight

namespace Opcode

/-- The last bytes of the opcodes of family `F`. -/
def deviceCodes : List Nat := [0x07, 0x0A, 0x15, 0x18, 0x1E, 0x29, 0x33, 0x55, 0x65]

/-- The opcode is outside the instruction table. -/
def IsUnassigned (op : Opcode) : Prop :=
  family op = 0x0 ∧ op ≠ 0x00E0 ∧ op ≠ 0x00EE ∨
  (family op = 0x5 ∨ family op = 0x9) ∧ n op ≠ 0 ∨
  family op = 0x8 ∧ (0x8 ≤ (n op).val ∧ (n op).val ≤ 0xD ∨ (n op).val = 0xF) ∨
  family op = 0xE ∧ nn op ≠ 0x9E ∧ nn op ≠ 0xA1 ∨
  family op = 0xF ∧ (nn op).toNat ∉ deviceCodes

/-- The opcode is a transfer that names the flag register. -/
def IsReserved (op : Opcode) : Prop :=
  family op = 0x8 ∧ (n op).val ≤ 0x3 ∧ (x op = flagRegister ∨ y op = flagRegister)

/-- In family `0` the low twelve bits are the whole opcode. -/
theorem nnn_eq_iff {op : Opcode} (hf : family op = 0) (a : Fin 4096) :
    nnn op = a ↔ op = UInt16.ofNat a.val := by
  have ha := a.isLt
  have hlow : op.toNat / 4096 = 0 := hf
  rw [Fin.ext_iff, ← UInt16.toNat_inj, UInt16.toNat_ofNat']
  simp only [nnn]
  omega

end Opcode

namespace Instr

open Opcode

/-! ### One family after the other -/

theorem eq_flagRegister_iff (x : Register) : x = flagRegister ↔ ¬x.val < 15 := by
  have hx := x.isLt
  rw [Fin.ext_iff, show flagRegister.val = 15 from rfl]
  omega

theorem decodeTransfer_eq_error_iff {t : Transfer} {x y : Register} {cause : Cause} :
    decodeTransfer t x y = .error cause ↔
      cause = .reservedRegister ∧ (x = flagRegister ∨ y = flagRegister) := by
  rw [eq_flagRegister_iff, eq_flagRegister_iff]
  unfold decodeTransfer
  split
  · rename_i below
    simp [below.1, below.2]
  · rename_i above
    have hflag : ¬x.val < 15 ∨ ¬y.val < 15 := by omega
    simp only [hflag, and_true, Except.error.injEq, eq_comm]

theorem decodeArith_eq_error_iff {x y : Register} {n : Nat} (hn : n < 16) {cause : Cause} :
    decodeArith x y n = .error cause ↔
      cause = .unsupportedOpcode ∧ (0x8 ≤ n ∧ n ≤ 0xD ∨ n = 0xF) ∨
      cause = .reservedRegister ∧ n ≤ 0x3 ∧ (x = flagRegister ∨ y = flagRegister) := by
  unfold decodeArith
  split
  case h_1 | h_2 | h_3 | h_4 => simp [decodeTransfer_eq_error_iff]
  case h_10 =>
    simp only [imp_false] at *
    have hout : 0x8 ≤ n ∧ n ≤ 0xD ∨ n = 0xF := by omega
    have hhigh : ¬n ≤ 0x3 := by omega
    simp only [hout, hhigh, false_and, and_false, and_true, or_false, Except.error.injEq, eq_comm]
  all_goals simp

theorem decodeDevice_eq_error_iff {x : Register} {nn : Nat} {cause : Cause} :
    decodeDevice x nn = .error cause ↔ cause = .unsupportedOpcode ∧ nn ∉ deviceCodes := by
  unfold decodeDevice
  split
  case h_10 =>
    have hout : nn ∉ deviceCodes := by simp_all [deviceCodes]
    simp only [hout, not_false_eq_true, and_true, Except.error.injEq, eq_comm]
  all_goals simp [deviceCodes]

/-! ### The table -/

/-- The decoder fails on the unassigned opcodes and on the transfers that name `VF`. -/
theorem decode_eq_error_iff {op : Opcode} {cause : Cause} :
    decode op = .error cause ↔
      cause = .unsupportedOpcode ∧ op.IsUnassigned ∨
      cause = .reservedRegister ∧ op.IsReserved := by
  have hlt := family_lt op
  unfold decode IsUnassigned IsReserved
  split <;> rename_i hf
  case h_1 =>
    have hclear : nnn op = 0x0E0 ↔ op = 0x00E0 := nnn_eq_iff hf 0x0E0
    have hret : nnn op = 0x0EE ↔ op = 0x00EE := nnn_eq_iff hf 0x0EE
    rw [hf]
    split
    · rename_i ha; simp [hclear.1 ha]
    · rename_i hne
      split
      · rename_i ha; simp [hret.1 ha]
      · rename_i hne'
        have hout : op ≠ 0x00E0 ∧ op ≠ 0x00EE := ⟨mt hclear.2 hne, mt hret.2 hne'⟩
        simp [hout, @eq_comm _ cause]
  case h_6 | h_10 =>
    split
    · rename_i hn; simp [hf, hn]
    · rename_i hn; simp [hf, hn, @eq_comm _ cause]
  case h_9 => simp [hf, decodeArith_eq_error_iff (n op).isLt]
  case h_15 =>
    split
    · rename_i hb; simp [hf, hb]
    · rename_i hne
      split
      · rename_i hb; simp [hf, hb]
      · rename_i hne'; simp [hf, hne, hne', @eq_comm _ cause]
  case h_16 => simp [hf, decodeDevice_eq_error_iff]
  case h_17 =>
    simp only [imp_false] at *
    omega
  all_goals simp [hf]

end Instr

end ChipEight
