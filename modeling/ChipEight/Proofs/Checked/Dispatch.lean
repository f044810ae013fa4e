import ChipEight.Proofs.Checked.Interpreter
import ChipEight.Proofs.InstructionTable
/-!
# The checked interpreter finds the instruction

Masks and shifts give the fields of an opcode, and the case distinction over them ends at the
instruction that the opcode decodes to (`Bench.run_execute`) or in the fault of the decoder
(`Bench.run_execute_of_error`).
-/

namespace ChipEight.Checked

open Program

/-! ### Fields -/

/-- Masking four bits and shifting them down is a quotient and a remainder. -/
theorem and_shiftRight_nibble (n k : Nat) : (n &&& (0xF <<< k)) >>> k = (n >>> k) % 16 := by
  rw [Nat.shiftRight_and_distrib, Nat.shiftLeft_shiftRight]
  exact Nat.and_two_pow_sub_one_eq_mod _ 4

theorem codeField_eq (op : Opcode) : codeField op = Opcode.family op := by
  have nibble := and_shiftRight_nibble op.toNat 12
  have := op.toNat_lt
  simp only [codeField, Opcode.family, UInt16.toNat_toUInt8, UInt16.toNat_shiftRight,
    UInt16.toNat_and]
  simp only [Nat.reduceShiftLeft, UInt16.reduceToNat, Nat.reduceMod, Nat.reducePow] at nibble ⊢
  omega

theorem xField_eq (op : Opcode) : xField op = (Opcode.x op).val := by
  have nibble := and_shiftRight_nibble op.toNat 8
  simp only [xField, Opcode.x, UInt16.toNat_toUInt8, UInt16.toNat_shiftRight, UInt16.toNat_and]
  simp only [Nat.reduceShiftLeft, UInt16.reduceToNat, Nat.reduceMod, Nat.reducePow] at nibble ⊢
  omega

theorem yField_eq (op : Opcode) : yField op = (Opcode.y op).val := by
  have nibble := and_shiftRight_nibble op.toNat 4
  simp only [yField, Opcode.y, UInt16.toNat_toUInt8, UInt16.toNat_shiftRight, UInt16.toNat_and]
  simp only [Nat.reduceShiftLeft, UInt16.reduceToNat, Nat.reduceMod, Nat.reducePow] at nibble ⊢
  omega

theorem nField_eq (op : Opcode) : nField op = (Opcode.n op).val := by
  have nibble := and_shiftRight_nibble op.toNat 0
  simp only [nField, Opcode.n, UInt16.toNat_toUInt8, UInt16.toNat_and]
  simp only [Nat.shiftLeft_zero, Nat.shiftRight_zero, UInt16.reduceToNat, Nat.reducePow]
    at nibble ⊢
  omega

theorem nnField_eq (op : Opcode) : nnField op = Opcode.nn op := by
  have byte : op.toNat &&& 0xFF = op.toNat % 256 := Nat.and_two_pow_sub_one_eq_mod _ 8
  apply UInt8.toNat_inj.1
  rw [Opcode.toNat_nn]
  simp only [nnField, UInt16.toNat_toUInt8, UInt16.toNat_and]
  simp only [UInt16.reduceToNat, Nat.reducePow] at byte ⊢
  omega

theorem nnnField_eq (op : Opcode) : nnnField op = UInt16.ofNat (Opcode.nnn op).val := by
  have bits : op.toNat &&& 0xFFF = op.toNat % 4096 := Nat.and_two_pow_sub_one_eq_mod _ 12
  apply UInt16.toNat_inj.1
  simp only [nnnField, Opcode.nnn, UInt16.toNat_and, UInt16.toNat_ofNat']
  simp only [UInt16.reduceToNat, Nat.reducePow] at bits ⊢
  omega

theorem ofNat_toNat_ofNat (a : Fin 4096) : Fin.ofNat 4096 (UInt16.ofNat a.val).toNat = a := by
  have := a.isLt
  apply Fin.ext
  simp only [UInt16.toNat_ofNat', Fin.val_ofNat]
  omega

namespace Bench

variable {σ : Type}

theorem named_val (x : Register) : named x.val = x := Fin.ofNat_val_eq_self x

def traced (b : Bench σ) (i : Instr) : Bench σ :=
  { b with world := b.world.emit (.executing (b.store.pc - 2) i) }

@[simp] theorem run_trace (i : Instr) (b : Bench σ) : (trace i).run b = .done () (b.traced i) :=
  rfl

theorem run_refuse {α : Type} (cause : Cause) (op : Opcode) (b : Bench σ) :
    (refuse cause op : Program (Bench σ) α).run b =
      .fault (.instruction cause (b.store.pc - 2) op) b := rfl

/-! ### Instructions -/

/-- What is done for an instruction once it is recorded. -/
def effect (h : Host σ) (op : Opcode) : Instr → Program (Bench σ) Notice
  | .clear => clearScreen
  | .ret => returnFromCall op
  | .jump a => jumpTo (UInt16.ofNat a.val)
  | .call a => callTo op (UInt16.ofNat a.val)
  | .skipEq x value => do skipIf ((← reg x.val) == value)
  | .skipNe x value => do skipIf ((← reg x.val) != value)
  | .skipEqReg x y => do skipIf ((← reg x.val) == (← reg y.val))
  | .load x value => assign x.val value
  | .add x value => do assign x.val ((← reg x.val) + value)
  | .transfer t x y => do assign x.val (t.apply (← reg x.val) (← reg y.val))
  | .arith o x y => do assignFlagged x.val (o.apply (← reg x.val) (← reg y.val))
  | .skipNeReg x y => do skipIf ((← reg x.val) != (← reg y.val))
  | .loadIndex a => do pointAt (UInt16.ofNat a.val); return .next
  | .jumpOffset a => jumpToOffset (UInt16.ofNat a.val)
  | .random x mask => randomByte x.val mask
  | .draw x y rows => drawAt op x.val y.val rows.val
  | .skipKey x => do
    let key ← poll h
    skipIf (key.map Key.toByte == some (← reg x.val))
  | .skipNoKey x => do
    let key ← poll h
    skipIf (key.map Key.toByte != some (← reg x.val))
  | .readDelay x => do assign x.val (← get).store.delay
  | .awaitKey x => return .keyWait (UInt8.ofNat x.val)
  | .setDelay x => do
    let value ← reg x.val
    update fun st => { st with delay := value }
    return .next
  | .setSound x => do
    let value ← reg x.val
    update fun st => { st with sound := value }
    return .next
  | .addIndex x => addToIndex x.val
  | .glyph x => pointAtGlyph x.val
  | .decimal x => writeDecimal op x.val
  | .store x => storeRegisters op x.val
  | .fill x => fillRegisters op x.val

/-! ### The instruction is found -/

section Fields

open Instr

variable {f : Nat} (hf : f < 16)

include hf

theorem codeField_formNnn (a : Fin 4096) : codeField (formNnn f a) = f := by
  rw [codeField_eq, family_formNnn hf]

theorem nnnField_formNnn (a : Fin 4096) : nnnField (formNnn f a) = UInt16.ofNat a.val := by
  rw [nnnField_eq, nnn_formNnn hf]

theorem codeField_formXnn (x : Register) (b : UInt8) : codeField (formXnn f x b) = f := by
  rw [codeField_eq, family_formXnn hf]

theorem xField_formXnn (x : Register) (b : UInt8) : xField (formXnn f x b) = x.val := by
  rw [xField_eq, x_formXnn hf]

theorem nnField_formXnn (x : Register) (b : UInt8) : nnField (formXnn f x b) = b := by
  rw [nnField_eq, nn_formXnn hf]

theorem codeField_formXyn (x y : Register) (n : Fin 16) : codeField (formXyn f x y n) = f := by
  rw [codeField_eq, family_formXyn hf]

theorem xField_formXyn (x y : Register) (n : Fin 16) : xField (formXyn f x y n) = x.val := by
  rw [xField_eq, x_formXyn hf]

theorem yField_formXyn (x y : Register) (n : Fin 16) : yField (formXyn f x y n) = y.val := by
  rw [yField_eq, y_formXyn hf]

theorem nField_formXyn (x y : Register) (n : Fin 16) : nField (formXyn f x y n) = n.val := by
  rw [nField_eq, n_formXyn hf]

end Fields

open Instr in
/-- The case distinction ends at the instruction.  The family `8xyn` is apart, since it looks at
its registers before the record is written. -/
theorem execute_eq (h : Host σ) {op : Opcode} {i : Instr} (decoded : decode op = .ok i)
    (family : Opcode.family op ≠ 0x8) :
    execute h op = (do trace i; effect h op i) := by
  obtain rfl : encode i = op := encode_of_decode decoded
  cases i with
  | clear =>
    have code : codeField (encode .clear) = 0x0 := by rw [codeField_eq]; rfl
    have low : (nnField (encode .clear)).toNat = 0xE0 := by rw [nnField_eq]; rfl
    have second : xField (encode .clear) = 0 := by rw [xField_eq]; rfl
    simp only [execute, executeMisc, code, low, second, effect, if_true]
  | ret =>
    have code : codeField (encode .ret) = 0x0 := by rw [codeField_eq]; rfl
    have low : (nnField (encode .ret)).toNat = 0xEE := by rw [nnField_eq]; rfl
    have second : xField (encode .ret) = 0 := by rw [xField_eq]; rfl
    simp only [execute, executeMisc, code, low, second, effect, if_true]
  | jump a | call a | loadIndex a | jumpOffset a =>
    simp (disch := decide) only [encode, execute, codeField_formNnn, nnnField_formNnn,
      ofNat_toNat_ofNat, effect]
  | skipEq x value | skipNe x value | load x value | add x value | random x value =>
    simp (disch := decide) only [encode, execute, codeField_formXnn, xField_formXnn,
      nnField_formXnn, named_val, effect]
  | skipEqReg x y | skipNeReg x y | draw x y rows =>
    simp (disch := decide) only [encode, execute, codeField_formXyn, xField_formXyn,
      yField_formXyn, nField_formXyn, named_val, effect, Fin.val_zero, if_true,
      Fin.ofNat_val_eq_self]
  | transfer t x y | arith o x y =>
    exact absurd (family_formXyn (by decide) ..) family
  | _ =>
    simp (disch := decide) only [encode, execute, executeMisc, codeField_formXnn,
      xField_formXnn, nnField_formXnn, UInt8.reduceToNat, named_val, effect]

/-! ### The family `8xyn` -/

theorem transferCode_val (t : Transfer) : (Instr.transferCode t).val =
    match t with | .copy => 0x0 | .or => 0x1 | .and => 0x2 | .xor => 0x3 := by
  cases t <;> rfl

theorem arithCode_val (o : Alu.Op) : (Instr.arithCode o).val =
    match o with | .add => 0x4 | .sub => 0x5 | .shr => 0x6 | .subn => 0x7 | .shl => 0xE := by
  cases o <;> rfl

theorem executeArith_transfer (t : Transfer) (x y : Fin 15) :
    (executeArith (Instr.encode (.transfer t x y)) : Program (Bench σ) Notice) = (do
      let a ← reg x.val
      let b ← reg y.val
      trace (.transfer t x y)
      assign x.val (t.apply a b)) := by
  have free (k : Nat) : ¬(k ≤ 3 ∧ (x.val = 15 ∨ y.val = 15)) := by omega
  cases t <;>
    simp (disch := decide) only [Instr.encode, executeArith, xField_formXyn, yField_formXyn,
      nField_formXyn, transferCode_val, Fin.val_castSucc, free, if_false,
      Fin.ofNat_val_eq_self, Transfer.apply]

theorem executeArith_arith (o : Alu.Op) (x y : Register) :
    (executeArith (Instr.encode (.arith o x y)) : Program (Bench σ) Notice) = (do
      let a ← reg x.val
      let b ← reg y.val
      trace (.arith o x y)
      assignFlagged x.val (o.apply a b)) := by
  cases o <;>
    simp (disch := decide) only [Instr.encode, executeArith, xField_formXyn, yField_formXyn,
      nField_formXyn, arithCode_val, named_val, Nat.reduceLeDiff, false_and, if_false,
      Alu.Op.apply]

/-- An opcode is recorded as its instruction, whose effect follows. -/
theorem run_execute (h : Host σ) {op : Opcode} {i : Instr} (decoded : Instr.decode op = .ok i)
    (b : Bench σ) : (execute h op).run b = (effect h op i).run (b.traced i) := by
  by_cases family : Opcode.family op = 0x8
  · have arith : execute h op = executeArith op := by
      simp only [execute, codeField_eq, family]
    obtain rfl : Instr.encode i = op := Instr.encode_of_decode decoded
    rw [arith]
    cases i with
    | transfer t x y =>
      have rx (b : Bench σ) := run_reg x.castSucc b
      have ry (b : Bench σ) := run_reg y.castSucc b
      simp only [Fin.val_castSucc] at rx ry
      simp only [executeArith_transfer, effect, run_bind, rx, ry, run_trace, Outcome.andThen_done]
      rfl
    | arith o x y =>
      simp only [executeArith_arith, effect, run_bind, run_reg, run_trace, Outcome.andThen_done]
      rfl
    | clear | ret => cases family
    | _ =>
      simp [Instr.encode, Instr.family_formNnn, Instr.family_formXnn, Instr.family_formXyn]
        at family
  · rw [execute_eq h decoded family, run_bind, run_trace, Outcome.andThen_done]

/-! ### Opcodes without an instruction -/

/-- In family `0` the second nibble and the low byte are the whole opcode. -/
theorem eq_of_xField_eq_zero {op : Opcode} (family : Opcode.family op = 0) (x : xField op = 0) :
    op.toNat = (nnField op).toNat := by
  rw [xField_eq] at x
  have whole := Instr.toNat_formXnn (Opcode.family_lt op) (Opcode.x op) (Opcode.nn op)
  rw [Instr.formXnn_family, family, x] at whole
  rw [nnField_eq]
  omega

theorem run_execute_of_isUnassigned (h : Host σ) {op : Opcode} (unassigned : op.IsUnassigned)
    (b : Bench σ) :
    (execute h op).run b = .fault (.instruction .unsupportedOpcode (b.store.pc - 2) op) b := by
  rcases unassigned with ⟨family, clear, ret⟩ | ⟨family | family, n⟩ | ⟨family, n⟩ |
    ⟨family, skipKey, skipNoKey⟩ | ⟨family, device⟩
  · have whole := eq_of_xField_eq_zero family
    simp only [execute, executeMisc, codeField_eq, family]
    split
    case h_1 low =>
      have second : xField op ≠ 0 := fun x => clear (UInt16.toNat_inj.1 ((whole x).trans low))
      rw [if_neg second, run_refuse]
    case h_2 low =>
      have second : xField op ≠ 0 := fun x => ret (UInt16.toNat_inj.1 ((whole x).trans low))
      rw [if_neg second, run_refuse]
    all_goals first | rfl | contradiction
  · simp only [execute, codeField_eq, family, nField_eq, Fin.val_eq_zero_iff, n, if_false,
      run_refuse]
  · simp only [execute, codeField_eq, family, nField_eq, Fin.val_eq_zero_iff, n, if_false,
      run_refuse]
  · have transfers : ¬((Opcode.n op).val ≤ 3 ∧
        ((Opcode.x op).val = 15 ∨ (Opcode.y op).val = 15)) := by omega
    simp only [execute, executeArith, codeField_eq, family, nField_eq, transfers, if_false,
      xField_eq, yField_eq, run_bind, run_reg, Outcome.andThen_done]
    split
    case h_10 => rfl
    all_goals omega
  · rw [← nnField_eq] at skipKey skipNoKey
    simp only [execute, executeMisc, codeField_eq, family]
    split
    case h_3 low => exact absurd (UInt8.toNat_inj.1 low) skipKey
    case h_4 low => exact absurd (UInt8.toNat_inj.1 low) skipNoKey
    all_goals first | rfl | contradiction
  · rw [← nnField_eq] at device
    simp only [execute, executeMisc, codeField_eq, family]
    split
    case h_14 => rfl
    all_goals first | contradiction | simp_all [Opcode.deviceCodes]

theorem run_execute_of_isReserved (h : Host σ) {op : Opcode} (reserved : op.IsReserved)
    (b : Bench σ) :
    (execute h op).run b = .fault (.instruction .reservedRegister (b.store.pc - 2) op) b := by
  obtain ⟨family, n, flag⟩ := reserved
  have transfers : (Opcode.n op).val ≤ 3 ∧
      ((Opcode.x op).val = 15 ∨ (Opcode.y op).val = 15) :=
    ⟨n, flag.imp (congrArg Fin.val) (congrArg Fin.val)⟩
  simp only [execute, executeArith, codeField_eq, family, nField_eq, xField_eq, yField_eq,
    transfers, and_true, if_true, run_refuse]

/-- An opcode that the decoder does not read is refused with the decoder's cause. -/
theorem run_execute_of_error (h : Host σ) {op : Opcode} {cause : Cause}
    (decoded : Instr.decode op = .error cause) (b : Bench σ) :
    (execute h op).run b = .fault (.instruction cause (b.store.pc - 2) op) b := by
  rcases Instr.decode_eq_error_iff.1 decoded with ⟨rfl, unassigned⟩ | ⟨rfl, reserved⟩
  · exact run_execute_of_isUnassigned h unassigned b
  · exact run_execute_of_isReserved h reserved b

end Bench

end ChipEight.Checked
