import ChipEight.Instr.Decode
/-!
# Encoding

`Instr.encode` gives the opcode of an instruction.  Decoding and encoding are inverse to each
other: `decode_eq_ok_iff`.
-/

namespace ChipEight.Instr

/-- An opcode from its family and its low twelve bits. -/
def formNnn (family : Nat) (nnn : Fin 4096) : Opcode := UInt16.ofNat (family * 4096 + nnn.val)

/-- An opcode from its family, a register and a byte. -/
def formXnn (family : Nat) (x : Register) (nn : UInt8) : Opcode :=
  UInt16.ofNat (family * 4096 + x.val * 256 + nn.toNat)

/-- An opcode from its family and three nibbles. -/
def formXyn (family : Nat) (x y : Register) (n : Fin 16) : Opcode :=
  UInt16.ofNat (family * 4096 + x.val * 256 + y.val * 16 + n.val)

/-- The last nibble of a transfer. -/
def transferCode : Transfer → Fin 16
  | .copy => 0x0
  | .or => 0x1
  | .and => 0x2
  | .xor => 0x3

/-- The last nibble of an operation with a flag. -/
def arithCode : Alu.Op → Fin 16
  | .add => 0x4
  | .sub => 0x5
  | .shr => 0x6
  | .subn => 0x7
  | .shl => 0xE

def encode : Instr → Opcode
  | .clear => 0x00E0
  | .ret => 0x00EE
  | .jump target => formNnn 0x1 target
  | .call target => formNnn 0x2 target
  | .skipEq x value => formXnn 0x3 x value
  | .skipNe x value => formXnn 0x4 x value
  | .skipEqReg x y => formXyn 0x5 x y 0
  | .load x value => formXnn 0x6 x value
  | .add x value => formXnn 0x7 x value
  | .transfer op x y => formXyn 0x8 x.castSucc y.castSucc (transferCode op)
  | .arith op x y => formXyn 0x8 x y (arithCode op)
  | .skipNeReg x y => formXyn 0x9 x y 0
  | .loadIndex target => formNnn 0xA target
  | .jumpOffset target => formNnn 0xB target
  | .random x mask => formXnn 0xC x mask
  | .draw x y rows => formXyn 0xD x y rows
  | .skipKey x => formXnn 0xE x 0x9E
  | .skipNoKey x => formXnn 0xE x 0xA1
  | .readDelay x => formXnn 0xF x 0x07
  | .awaitKey x => formXnn 0xF x 0x0A
  | .setDelay x => formXnn 0xF x 0x15
  | .setSound x => formXnn 0xF x 0x18
  | .addIndex x => formXnn 0xF x 0x1E
  | .glyph x => formXnn 0xF x 0x29
  | .decimal x => formXnn 0xF x 0x33
  | .store x => formXnn 0xF x 0x55
  | .fill x => formXnn 0xF x 0x65

/-! ### The fields of a form -/

section Fields

variable {f : Nat} (hf : f < 16)

include hf

theorem toNat_formNnn (a : Fin 4096) : (formNnn f a).toNat = f * 4096 + a.val := by
  have := a.isLt
  simp only [formNnn, UInt16.toNat_ofNat']
  omega

theorem toNat_formXnn (x : Register) (b : UInt8) :
    (formXnn f x b).toNat = f * 4096 + x.val * 256 + b.toNat := by
  have := x.isLt
  have := b.toNat_lt
  simp only [formXnn, UInt16.toNat_ofNat']
  omega

theorem toNat_formXyn (x y : Register) (n : Fin 16) :
    (formXyn f x y n).toNat = f * 4096 + x.val * 256 + y.val * 16 + n.val := by
  have := x.isLt
  have := y.isLt
  have := n.isLt
  simp only [formXyn, UInt16.toNat_ofNat']
  omega

theorem family_formNnn (a : Fin 4096) : Opcode.family (formNnn f a) = f := by
  have := a.isLt
  rw [Opcode.family, toNat_formNnn hf a]
  omega

theorem nnn_formNnn (a : Fin 4096) : Opcode.nnn (formNnn f a) = a := by
  have := a.isLt
  apply Fin.ext
  simp only [Opcode.nnn, toNat_formNnn hf a]
  omega

theorem family_formXnn (x : Register) (b : UInt8) : Opcode.family (formXnn f x b) = f := by
  have := x.isLt
  have := b.toNat_lt
  rw [Opcode.family, toNat_formXnn hf x b]
  omega

theorem x_formXnn (x : Register) (b : UInt8) : Opcode.x (formXnn f x b) = x := by
  have := x.isLt
  have := b.toNat_lt
  apply Fin.ext
  simp only [Opcode.x, toNat_formXnn hf x b]
  omega

theorem nn_formXnn (x : Register) (b : UInt8) : Opcode.nn (formXnn f x b) = b := by
  have := b.toNat_lt
  apply UInt8.toNat_inj.1
  rw [Opcode.toNat_nn, toNat_formXnn hf x b]
  omega

theorem family_formXyn (x y : Register) (n : Fin 16) :
    Opcode.family (formXyn f x y n) = f := by
  have := x.isLt
  have := y.isLt
  have := n.isLt
  rw [Opcode.family, toNat_formXyn hf x y n]
  omega

theorem x_formXyn (x y : Register) (n : Fin 16) : Opcode.x (formXyn f x y n) = x := by
  have := x.isLt
  have := y.isLt
  have := n.isLt
  apply Fin.ext
  simp only [Opcode.x, toNat_formXyn hf x y n]
  omega

theorem y_formXyn (x y : Register) (n : Fin 16) : Opcode.y (formXyn f x y n) = y := by
  have := y.isLt
  have := n.isLt
  apply Fin.ext
  simp only [Opcode.y, toNat_formXyn hf x y n]
  omega

theorem n_formXyn (x y : Register) (n : Fin 16) : Opcode.n (formXyn f x y n) = n := by
  have := n.isLt
  apply Fin.ext
  simp only [Opcode.n, toNat_formXyn hf x y n]
  omega

end Fields

/-! ### An opcode is put together from its fields -/

theorem formNnn_family (op : Opcode) : formNnn (Opcode.family op) (Opcode.nnn op) = op := by
  apply UInt16.toNat_inj.1
  rw [toNat_formNnn (Opcode.family_lt op)]
  simp only [Opcode.family, Opcode.nnn]
  omega

theorem formXnn_family (op : Opcode) :
    formXnn (Opcode.family op) (Opcode.x op) (Opcode.nn op) = op := by
  apply UInt16.toNat_inj.1
  rw [toNat_formXnn (Opcode.family_lt op), Opcode.toNat_nn]
  simp only [Opcode.family, Opcode.x]
  omega

theorem formXyn_family (op : Opcode) :
    formXyn (Opcode.family op) (Opcode.x op) (Opcode.y op) (Opcode.n op) = op := by
  apply UInt16.toNat_inj.1
  rw [toNat_formXyn (Opcode.family_lt op)]
  simp only [Opcode.family, Opcode.x, Opcode.y, Opcode.n]
  omega

/-! ### The two directions -/

theorem decodeArith_transferCode (op : Transfer) (x y : Fin 15) :
    decodeArith x.castSucc y.castSucc (transferCode op).val = .ok (.transfer op x y) := by
  have h : ∀ t, decodeTransfer t x.castSucc y.castSucc = .ok (.transfer t x y) := by
    simp [decodeTransfer]
  cases op <;> exact h _

theorem decodeArith_arithCode (op : Alu.Op) (x y : Register) :
    decodeArith x y (arithCode op).val = .ok (.arith op x y) := by
  cases op <;> rfl

/-- Every instruction is read back from its opcode. -/
theorem decode_encode (i : Instr) : decode (encode i) = .ok i := by
  cases i with
  | clear => rfl
  | ret => rfl
  | transfer op x y =>
    simp [decode, encode, family_formXyn, x_formXyn, y_formXyn, n_formXyn,
      decodeArith_transferCode]
  | arith op x y =>
    simp [decode, encode, family_formXyn, x_formXyn, y_formXyn, n_formXyn,
      decodeArith_arithCode]
  | _ =>
    simp [decode, encode, family_formNnn, nnn_formNnn, family_formXnn, x_formXnn, nn_formXnn,
      family_formXyn, x_formXyn, y_formXyn, n_formXyn, decodeDevice]

theorem eq_of_decodeTransfer {op : Transfer} {x y : Register} {i : Instr}
    (h : decodeTransfer op x y = .ok i) : encode i = formXyn 0x8 x y (transferCode op) := by
  unfold decodeTransfer at h
  split at h
  · cases h
    rfl
  · cases h

theorem eq_of_decodeArith {x y : Register} {n : Fin 16} {i : Instr}
    (h : decodeArith x y n.val = .ok i) : encode i = formXyn 0x8 x y n := by
  obtain ⟨n, hn⟩ := n
  simp only at h
  unfold decodeArith at h
  split at h
  case h_1 | h_2 | h_3 | h_4 => exact eq_of_decodeTransfer h
  case h_10 => cases h
  all_goals
    cases h
    rfl

theorem eq_of_decodeDevice {x : Register} {b : UInt8} {i : Instr}
    (h : decodeDevice x b.toNat = .ok i) : encode i = formXnn 0xF x b := by
  unfold decodeDevice at h
  split at h
  case h_10 => cases h
  all_goals
    rename_i hb
    cases h
    exact congrArg (formXnn 0xF x) (UInt8.toNat_inj.1 hb).symm

/-- An opcode is the encoding of the instruction read from it. -/
theorem encode_of_decode {op : Opcode} {i : Instr} (h : decode op = .ok i) : encode i = op := by
  have nnn := formNnn_family op
  have xnn := formXnn_family op
  have xyn := formXyn_family op
  unfold decode at h
  split at h <;> rename_i hf
  case h_1 =>
    rw [hf] at nnn
    split at h
    · rename_i ha
      cases h
      rw [ha] at nnn
      exact nnn
    · split at h
      · rename_i ha
        cases h
        rw [ha] at nnn
        exact nnn
      · cases h
  case h_6 | h_10 =>
    split at h
    · rename_i hn
      cases h
      rw [hf, hn] at xyn
      exact xyn
    · cases h
  case h_9 =>
    rw [hf] at xyn
    rw [eq_of_decodeArith h, xyn]
  case h_15 =>
    rw [hf] at xnn
    split at h
    · rename_i hb
      cases h
      rw [hb] at xnn
      exact xnn
    · split at h
      · rename_i hb
        cases h
        rw [hb] at xnn
        exact xnn
      · cases h
  case h_16 =>
    rw [hf] at xnn
    rw [eq_of_decodeDevice h, xnn]
  case h_17 => cases h
  all_goals
    rw [hf] at nnn xnn xyn
    cases h
    first
      | exact nnn
      | exact xnn
      | exact xyn

/-- Reading and writing agree: an opcode holds an instruction just when it is its encoding. -/
theorem decode_eq_ok_iff {op : Opcode} {i : Instr} : decode op = .ok i ↔ op = encode i :=
  ⟨fun h => (encode_of_decode h).symm, fun h => h ▸ decode_encode i⟩

theorem encode_injective {i j : Instr} (h : encode i = encode j) : i = j := by
  have := decode_encode i
  rw [h, decode_encode j] at this
  cases this
  rfl

end ChipEight.Instr
