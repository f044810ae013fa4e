import ChipEight.Host.Console
import ChipEight.Proofs.Footprints
/-!
# Arithmetic

The operations with a flag lose nothing: a byte and its flag are the two digits of a result that is
too large or too small for a byte, and together they satisfy an equation between whole numbers
(`Alu.Op.Balances`), which no other byte and flag satisfy.  On a machine the byte goes to `Vx` and
the flag to `VF`, which may be the same register or one of the operands; the operands are those
that were there before, and the flag is what remains.
-/

namespace ChipEight

variable {σ : Type}

namespace Alu

/-- The equation between the operands, a byte and its flag. -/
def Op.Balances : Op → (a b value flag : Nat) → Prop
  | .add, a, b, value, flag => value + 256 * flag = a + b
  | .sub, a, b, value, flag => value + b = a + 256 * flag
  | .subn, a, b, value, flag => value + a = b + 256 * flag
  | .shr, a, _, value, flag => 2 * value + flag = a
  | .shl, a, _, value, flag => value + 256 * flag = 2 * a

theorem add_balances (a b : UInt8) :
    (add a b).value.toNat + 256 * (add a b).flag.toNat = a.toNat + b.toNat := by
  have a_lt := a.toNat_lt
  have b_lt := b.toNat_lt
  rw [add, UInt8.toNat_add]
  by_cases carry : 256 ≤ a.toNat + b.toNat
  · rw [decide_eq_true carry, Bool.toNat_true]
    omega
  · rw [decide_eq_false carry, Bool.toNat_false]
    omega

theorem sub_balances (a b : UInt8) :
    (sub a b).value.toNat + b.toNat = a.toNat + 256 * (sub a b).flag.toNat := by
  have a_lt := a.toNat_lt
  have b_lt := b.toNat_lt
  rw [sub, UInt8.toNat_sub]
  by_cases borrow : a < b
  · rw [decide_eq_true borrow, Bool.toNat_true]
    rw [UInt8.lt_iff_toNat_lt] at borrow
    omega
  · rw [decide_eq_false borrow, Bool.toNat_false]
    rw [UInt8.lt_iff_toNat_lt] at borrow
    omega

theorem shr_balances (a : UInt8) :
    2 * (shr a).value.toNat + (shr a).flag.toNat = a.toNat := by
  have half : (a >>> 1).toNat = a.toNat / 2 := by
    rw [UInt8.toNat_shiftRight]
    exact Nat.shiftRight_eq_div_pow a.toNat 1
  rw [shr, half]
  by_cases odd : a.toNat % 2 = 1
  · rw [decide_eq_true odd, Bool.toNat_true]
    omega
  · rw [decide_eq_false odd, Bool.toNat_false]
    omega

theorem shl_balances (a : UInt8) :
    (shl a).value.toNat + 256 * (shl a).flag.toNat = 2 * a.toNat := by
  have a_lt := a.toNat_lt
  have double : (a <<< 1).toNat = a.toNat * 2 % 256 := by
    rw [UInt8.toNat_shiftLeft]
    exact congrArg (· % 256) (Nat.shiftLeft_eq a.toNat 1)
  rw [shl, double]
  by_cases high : 128 ≤ a.toNat
  · rw [decide_eq_true high, Bool.toNat_true]
    omega
  · rw [decide_eq_false high, Bool.toNat_false]
    omega

namespace Op

theorem balances_apply (o : Op) (a b : UInt8) :
    o.Balances a.toNat b.toNat (o.apply a b).value.toNat (o.apply a b).flag.toNat := by
  cases o with
  | add => exact add_balances a b
  | sub => exact sub_balances a b
  | subn => exact sub_balances b a
  | shr => exact shr_balances a
  | shl => exact shl_balances a

/-- The operands decide which byte and which flag balance them. -/
theorem Balances.unique {o : Op} {a b value flag value' flag' : Nat}
    (balances : o.Balances a b value flag) (byte : value < 256) (bit : flag ≤ 1)
    (balances' : o.Balances a b value' flag') (byte' : value' < 256) (bit' : flag' ≤ 1) :
    value' = value ∧ flag' = flag := by
  cases o <;> simp only [Balances] at balances balances' <;> omega

end Op

end Alu

namespace Instr

theorem decode_of_arith {op : Opcode} {o : Alu.Op} (family : op.family = 0x8)
    (last : op.n = arithCode o) : decode op = .ok (.arith o op.x op.y) := by
  simp only [decode, family, last, decodeArith_arithCode]

theorem decode_of_transfer {op : Opcode} {t : Transfer} (family : op.family = 0x8)
    (last : op.n = transferCode t) (x_lt : op.x.val < 15) (y_lt : op.y.val < 15) :
    decode op = .ok (.transfer t ⟨op.x.val, x_lt⟩ ⟨op.y.val, y_lt⟩) := by
  simp only [decode, family, last]
  exact decodeArith_transferCode t ⟨op.x.val, x_lt⟩ ⟨op.y.val, y_lt⟩

theorem decode_of_family_add {op : Opcode} (family : op.family = 0x7) :
    decode op = .ok (.add op.x op.nn) := by
  simp only [decode, family]

theorem exists_transferCode {n : Fin 16} (small : n ≤ 0x3) : ∃ t, n = transferCode t := by
  have four : ∀ n : Fin 16, n ≤ 0x3 → n = 0x0 ∨ n = 0x1 ∨ n = 0x2 ∨ n = 0x3 := by decide
  rcases four n small with rfl | rfl | rfl | rfl
  · exact ⟨.copy, rfl⟩
  · exact ⟨.or, rfl⟩
  · exact ⟨.and, rfl⟩
  · exact ⟨.xor, rfl⟩

end Instr

/-! ### Opcodes -/

namespace Machine

variable {op : Opcode} (h : Host σ) (m : Machine) (w : World σ)

/-- The byte goes to `Vx`, and after it the flag to `VF`. -/
theorem execute_arith {o : Alu.Op} (family : op.family = 0x8) (last : op.n = Instr.arithCode o) :
    ∃ m', (m.execute h op w).1 = .ok (.next, m') ∧
      m'.reg flagRegister = (o.apply (m.reg op.x) (m.reg op.y)).flag.toUInt8 ∧
      (op.x ≠ flagRegister → m'.reg op.x = (o.apply (m.reg op.x) (m.reg op.y)).value) ∧
      ∀ part ∉ [.register op.x, .register flagRegister], m.Shares m' part := by
  obtain ⟨done, others⟩ :=
    execute_within h w (Instr.decode_of_arith family last) fun _ => rfl
  refine ⟨_, done, ?_, ?_, others⟩
  · rw [reg_setReg, if_pos rfl]
  · intro other
    rw [reg_setReg, if_neg other.symm, reg_setReg, if_pos rfl]

/-- A transfer that does not name `VF` stores its byte in `Vx`. -/
theorem execute_transfer {t : Transfer} (family : op.family = 0x8)
    (last : op.n = Instr.transferCode t) (x_ne : op.x ≠ flagRegister)
    (y_ne : op.y ≠ flagRegister) :
    ∃ m', (m.execute h op w).1 = .ok (.next, m') ∧
      m'.reg op.x = t.apply (m.reg op.x) (m.reg op.y) ∧
      ∀ part ∉ [.register op.x], m.Shares m' part := by
  have lt {x : Register} (ne : x ≠ flagRegister) : x.val < 15 := by
    have : x.val ≠ 15 := fun same => ne (Fin.ext same)
    omega
  obtain ⟨done, others⟩ := execute_within h w
    (Instr.decode_of_transfer family last (lt x_ne) (lt y_ne)) fun _ => rfl
  refine ⟨_, done, ?_, others⟩
  rw [reg_setReg]
  exact if_pos rfl

end Machine

/-- **Arithmetic conserves the exact result.**  With `a` and `b` for what `Vx` and `Vy` held before,
an opcode `8xy4`, `8xy5`, `8xy6`, `8xy7` or `8xyE` is executed on any machine.  Of the bytes and
flags only one pair balances `a` and `b`: the flag goes to `VF`, and the byte to `Vx`, unless that
is `VF`.  `7xnn` adds modulo 256, and `8xy0` to `8xy3` combine `a` and `b` bit by bit, if they do
not name `VF`; both change `Vx` alone, and nothing but these registers is ever changed. -/
theorem arithmetic_conserves (h : Host σ) (op : Opcode) (m : Machine) (w : World σ) :
    (∀ o : Alu.Op, op.family = 0x8 → op.n = Instr.arithCode o →
      ∃ m' value flag, (m.execute h op w).1 = .ok (.next, m') ∧
        value < 256 ∧ flag ≤ 1 ∧
        o.Balances (m.reg op.x).toNat (m.reg op.y).toNat value flag ∧
        (∀ value' < 256, ∀ flag' ≤ 1,
          o.Balances (m.reg op.x).toNat (m.reg op.y).toNat value' flag' →
            value' = value ∧ flag' = flag) ∧
        (m'.reg flagRegister).toNat = flag ∧
        (op.x ≠ flagRegister → (m'.reg op.x).toNat = value) ∧
        ∀ part ∉ [.register op.x, .register flagRegister], m.Shares m' part) ∧
    (op.family = 0x7 →
      ∃ m', (m.execute h op w).1 = .ok (.next, m') ∧
        (m'.reg op.x).toNat = ((m.reg op.x).toNat + op.nn.toNat) % 256 ∧
        ∀ part ∉ [.register op.x], m.Shares m' part) ∧
    (op.family = 0x8 → op.n ≤ 0x3 → op.x ≠ flagRegister → op.y ≠ flagRegister →
      ∃ m', (m.execute h op w).1 = .ok (.next, m') ∧
        (op.n = 0x0 → m'.reg op.x = m.reg op.y) ∧
        (op.n = 0x1 → m'.reg op.x = m.reg op.x ||| m.reg op.y) ∧
        (op.n = 0x2 → m'.reg op.x = m.reg op.x &&& m.reg op.y) ∧
        (op.n = 0x3 → m'.reg op.x = m.reg op.x ^^^ m.reg op.y) ∧
        ∀ part ∉ [.register op.x], m.Shares m' part) := by
  refine ⟨?_, ?_, ?_⟩
  · intro o family last
    obtain ⟨m', done, flag, value, others⟩ := Machine.execute_arith h m w family last
    have balances := o.balances_apply (m.reg op.x) (m.reg op.y)
    generalize o.apply (m.reg op.x) (m.reg op.y) = result at flag value balances
    have byte := result.value.toNat_lt
    have bit : result.flag.toNat ≤ 1 := result.flag.toNat_le
    refine ⟨m', _, _, done, byte, bit, balances, ?_, ?_, ?_, others⟩
    · intro value' byte' flag' bit' balances'
      exact balances.unique byte bit balances' byte' bit'
    · rw [flag]
      cases result.flag <;> rfl
    · intro other
      rw [value other]
  · intro family
    obtain ⟨done, others⟩ :=
      Machine.execute_within h w (Instr.decode_of_family_add family) fun _ => rfl
    refine ⟨_, done, ?_, others⟩
    rw [Machine.reg_setReg, if_pos rfl]
    exact UInt8.toNat_add ..
  · intro family small x_ne y_ne
    obtain ⟨t, last⟩ := Instr.exists_transferCode small
    obtain ⟨m', done, value, others⟩ := Machine.execute_transfer h m w family last x_ne y_ne
    refine ⟨m', done, ?_, ?_, ?_, ?_, others⟩
    -- The last nibble is that of one transfer only.
    all_goals
      intro code
      rw [last] at code
      cases t <;> first | exact value | exact absurd code (by decide)

/-- With 200 in `VF`, opcode `8FF4` leaves the carry of 400 there, and `7F64` the rest of 300. -/
theorem arithmetic_conserves_carry :
    let h := Script.host { millis := fun _ => 0.0 }
    let w : World Console := { devices := {} }
    let m := (Machine.initial (.ofSeed 0)).setReg flagRegister 200
    (∃ m', (m.execute h 0x8FF4 w).1 = .ok (.next, m') ∧
      (m'.reg flagRegister).toNat = 1 ∧ m'.reg 0 = 0) ∧
    ∃ m', (m.execute h 0x7F64 w).1 = .ok (.next, m') ∧
      (m'.reg flagRegister).toNat = 44 ∧ m'.reg 0 = 0 := by
  intro h w m
  have held : (m.reg flagRegister).toNat = 200 := by
    rw [Machine.reg_setReg, if_pos rfl]
    rfl
  constructor
  · obtain ⟨flagged, -, -⟩ := arithmetic_conserves h 0x8FF4 m w
    obtain ⟨m', value, flag, done, byte, bit, balances, -, stored, -, others⟩ :=
      flagged .add rfl rfl
    have sum : value + 256 * flag =
        (m.reg flagRegister).toNat + (m.reg flagRegister).toNat := balances
    have kept : m.Shares m' (.register 0) := others (.register 0) (by decide)
    exact ⟨m', done, by omega, kept⟩
  · obtain ⟨-, added, -⟩ := arithmetic_conserves h 0x7F64 m w
    obtain ⟨m', done, value, others⟩ := added rfl
    have kept : m.Shares m' (.register 0) := others (.register 0) (by decide)
    have rest : (m'.reg flagRegister).toNat = ((m.reg flagRegister).toNat + 100) % 256 := value
    exact ⟨m', done, by omega, kept⟩

end ChipEight
