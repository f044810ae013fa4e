import ChipEight.Proofs.Turns
/-!
# Footprints

`Instr.footprint` lists the parts of a machine that an instruction may change; an instruction that
is executed leaves all other parts as they are (`Instr.shares_of_exec`).  What becomes of memory is
said cell by cell: `Instr.Writes` lists the bytes that an instruction places, and each cell holds
afterwards the byte placed in it, or what it held before (`Instr.get_of_writes`,
`Instr.get_of_no_writes`).
-/

namespace ChipEight

variable {σ : Type}

namespace Machine

/-- A part of a machine. -/
inductive Part where
  | pc
  | index
  | register (x : Register)
  | stack
  | delay
  | sound
  | memory
  /-- The pixels, and the mark that they have changed. -/
  | frame
  | random
  deriving DecidableEq, Repr

/-- The two machines agree on a part. -/
def Shares (m m' : Machine) : Part → Prop
  | .pc => m'.pc = m.pc
  | .index => m'.index = m.index
  | .register x => m'.reg x = m.reg x
  | .stack => m'.stack = m.stack
  | .delay => m'.delay = m.delay
  | .sound => m'.sound = m.sound
  | .memory => m'.memory = m.memory
  | .frame => m'.frame = m.frame ∧ m'.dirty = m.dirty
  | .random => m'.random = m.random

variable {m m' m'' : Machine} {part : Part}

theorem Shares.refl (m : Machine) (part : Part) : m.Shares m part := by
  cases part with
  | frame => exact ⟨rfl, rfl⟩
  | _ => rfl

theorem Shares.trans (first : m.Shares m' part) (second : m'.Shares m'' part) :
    m.Shares m'' part := by
  cases part with
  | frame => exact ⟨second.1.trans first.1, second.2.trans first.2⟩
  | _ => exact Eq.trans second first

/-- The parts are the whole of a machine. -/
theorem eq_of_shares (all : ∀ part, m.Shares m' part) : m' = m := by
  have registers : m'.registers = m.registers := by
    apply Vector.ext
    intro i lt
    exact all (.register ⟨i, lt⟩)
  obtain ⟨frame, dirty⟩ := all .frame
  cases m
  cases m'
  rw [mk.injEq]
  exact ⟨all .pc, all .index, registers, all .stack, all .delay, all .sound, all .memory, frame,
    dirty, all .random⟩

theorem shares_setReg {x : Register} (b : UInt8) (other : part ≠ .register x) :
    m.Shares (m.setReg x b) part := by
  cases part with
  | register y =>
    have apart : x ≠ y := fun same => other (same ▸ rfl)
    change (m.setReg x b).reg y = m.reg y
    rw [reg_setReg, if_neg apart]
  | frame => exact ⟨rfl, rfl⟩
  | _ => rfl

theorem shares_skipIf (condition : Bool) (other : part ≠ .pc) :
    m.Shares (m.skipIf condition) part := by
  cases condition with
  | false => exact .refl m part
  | true =>
    cases part with
    | pc => exact absurd rfl other
    | frame => exact ⟨rfl, rfl⟩
    | _ => rfl

theorem shares_fillRegs {x : Register} (others : ∀ y ≤ x, part ≠ .register y) :
    m.Shares (m.fillRegs x) part := by
  cases part with
  | register y =>
    have beyond : ¬y ≤ x := fun within => others y within rfl
    change (m.fillRegs x).reg y = m.reg y
    simp [fillRegs, reg, beyond]
  | frame => simp only [Shares, fillRegs, and_self]
  | _ => simp only [Shares, fillRegs]

theorem shares_flipPoints (ps : List Point) (flag : part ≠ .register flagRegister)
    (other : part ≠ .frame) : m.Shares (m.flipPoints ps) part := by
  refine (shares_setReg (ps.any m.frame.isOn).toUInt8 flag).trans ?_
  cases part with
  | frame => exact absurd rfl other
  | _ => rfl

end Machine

namespace Instr

open Machine

/-- The parts that an instruction may change. -/
def footprint : Instr → List Part
  | .clear => [.frame]
  | .jump _ | .jumpOffset _ => [.pc]
  | .skipEq .. | .skipNe .. | .skipEqReg .. | .skipNeReg .. | .skipKey _ | .skipNoKey _ => [.pc]
  | .call _ | .ret => [.pc, .stack]
  | .load x _ | .add x _ | .readDelay x => [.register x]
  | .transfer _ x _ => [.register x.castSucc]
  | .arith _ x _ => [.register x, .register flagRegister]
  | .fill x => ((List.finRange 16).filter (· ≤ x)).map .register
  | .random x _ => [.register x, .random]
  | .draw .. => [.register flagRegister, .frame]
  | .loadIndex _ | .addIndex _ | .glyph _ => [.index]
  | .setDelay _ => [.delay]
  | .setSound _ => [.sound]
  | .decimal _ | .store _ => [.memory]
  | .awaitKey _ => []

variable {key : Option Key} {m m' : Machine} {i : Instr} {flow : Flow} {part : Part}

/-- An instruction changes nothing outside its footprint. -/
theorem shares_of_exec (effect : i.exec key m = .ok (flow, m')) (outside : part ∉ i.footprint) :
    m.Shares m' part := by
  cases i with
  | skipEq x b | skipNe x b | skipEqReg x y | skipNeReg x y | skipKey x | skipNoKey x =>
    cases effect
    exact shares_skipIf _ (by simpa [footprint] using outside)
  | load x b | add x b | transfer op x y | readDelay x =>
    cases effect
    exact shares_setReg _ (by simpa [footprint] using outside)
  | arith op x y =>
    cases effect
    obtain ⟨other, flag⟩ : part ≠ .register x ∧ part ≠ .register flagRegister := by
      simpa [footprint] using outside
    exact (shares_setReg _ other).trans (shares_setReg _ flag)
  | random x mask =>
    cases effect
    obtain ⟨other, stream⟩ : part ≠ .register x ∧ part ≠ .random := by
      simpa [footprint] using outside
    refine (shares_setReg (mask &&& m.random.byte) other).trans ?_
    cases part with
    | random => exact absurd rfl stream
    | frame => exact ⟨rfl, rfl⟩
    | _ => rfl
  | draw x y rows =>
    simp only [exec] at effect
    split at effect
    · cases effect
      obtain ⟨flag, other⟩ : part ≠ .register flagRegister ∧ part ≠ .frame := by
        simpa [footprint] using outside
      exact shares_flipPoints _ flag other
    · cases effect
  | fill x =>
    simp only [exec] at effect
    split at effect
    · cases effect
      apply shares_fillRegs
      rintro y within rfl
      exact outside (by simpa [footprint] using within)
    · cases effect
  | awaitKey x =>
    cases effect
    exact .refl m part
  | ret | call a | decimal x | store x =>
    simp only [exec] at effect
    split at effect
    · cases effect
      cases part with
      | pc | stack | memory => first | rfl | simp [footprint] at outside
      | frame => exact ⟨rfl, rfl⟩
      | _ => rfl
    · cases effect
  | clear | jump a | jumpOffset a | loadIndex a | addIndex x | glyph x | setDelay x | setSound x =>
    cases effect
    cases part with
    | pc | index | delay | sound => first | rfl | simp [footprint] at outside
    | frame => first | exact ⟨rfl, rfl⟩ | simp [footprint] at outside
    | _ => rfl

/-- Two instructions have memory in their footprint. -/
theorem eq_of_memory_mem_footprint (mem : .memory ∈ i.footprint) :
    ∃ x, i = .decimal x ∨ i = .store x := by
  cases i with
  | decimal x => exact ⟨x, .inl rfl⟩
  | store x => exact ⟨x, .inr rfl⟩
  | _ => simp [footprint] at mem

/-! ### Memory -/

/-- The bytes that an instruction places, from `I` on. -/
def stored (m : Machine) : Instr → List UInt8
  | .decimal x => decimalDigits (m.reg x)
  | .store x => m.regsUpTo x
  | _ => []

/-- An instruction, executed on `m`, places a byte at an address. -/
inductive Writes (m : Machine) : Instr → Nat → UInt8 → Prop where
  | hundreds (x : Register) : Writes m (.decimal x) m.index.toNat (m.reg x / 100)
  | tens (x : Register) : Writes m (.decimal x) (m.index.toNat + 1) (m.reg x / 10 % 10)
  | units (x : Register) : Writes m (.decimal x) (m.index.toNat + 2) (m.reg x % 10)
  | register {x y : Register} (within : y ≤ x) :
    Writes m (.store x) (m.index.toNat + y.val) (m.reg y)

theorem stored_advance (m : Machine) (i : Instr) : i.stored m.advance = i.stored m := by
  cases i <;> rfl

theorem getElem?_regsUpTo (m : Machine) (x : Register) (k : Nat) (b : UInt8) :
    (m.regsUpTo x)[k]? = some b ↔ ∃ y ≤ x, y.val = k ∧ m.reg y = b := by
  have length : m.registers.toList.length = 16 := Vector.length_toList
  rw [regsUpTo, List.getElem?_take]
  constructor
  · intro found
    split at found
    · rename_i within
      obtain ⟨lt, there⟩ := List.getElem?_eq_some_iff.1 found
      rw [length] at lt
      exact ⟨⟨k, lt⟩, Nat.lt_succ_iff.1 within, rfl, by simpa [reg] using there⟩
    · cases found
  · rintro ⟨y, within, rfl, rfl⟩
    rw [if_pos (Nat.lt_succ_iff.2 within), List.getElem?_eq_some_iff]
    exact ⟨by omega, by simp [reg]⟩

theorem hundreds_mod (b : UInt8) : b / 100 % 10 = b / 100 := by
  have small : b.toNat / 100 < 10 := by
    have := b.toNat_lt
    omega
  apply UInt8.toNat_inj.1
  rw [UInt8.toNat_mod, UInt8.toNat_div]
  exact Nat.mod_eq_of_lt small

/-- The bytes are placed one after the other. -/
theorem writes_iff {a : Nat} {b : UInt8} :
    i.Writes m a b ↔ ∃ k, (i.stored m)[k]? = some b ∧ a = m.index.toNat + k := by
  constructor
  · intro writes
    cases writes with
    | hundreds x => exact ⟨0, congrArg some (hundreds_mod _), rfl⟩
    | tens x => exact ⟨1, rfl, rfl⟩
    | units x => exact ⟨2, rfl, rfl⟩
    | @register x y within => exact ⟨y.val, (getElem?_regsUpTo ..).2 ⟨y, within, rfl, rfl⟩, rfl⟩
  · rintro ⟨k, found, rfl⟩
    cases i with
    | decimal x =>
      match k with
      | 0 =>
        cases found
        exact (hundreds_mod (m.reg x)).symm ▸ .hundreds x
      | 1 =>
        cases found
        exact .tens x
      | 2 =>
        cases found
        exact .units x
    | store x =>
      obtain ⟨y, within, rfl, rfl⟩ := (getElem?_regsUpTo ..).1 found
      exact .register within
    | _ => cases found

theorem writes_advance {a : Nat} {b : UInt8} : i.Writes m.advance a b ↔ i.Writes m a b := by
  rw [writes_iff, writes_iff, stored_advance]
  rfl

theorem memory_of_exec (effect : i.exec key m = .ok (flow, m')) :
    m'.memory = m.memory.write m.index.toNat (i.stored m) := by
  cases i with
  | decimal x | store x =>
    simp only [exec] at effect
    split at effect
    · cases effect
      rfl
    · cases effect
  | _ =>
    have kept : m.Shares m' .memory := shares_of_exec effect (by simp [footprint])
    exact kept

/-- An instruction that is executed places its bytes within memory. -/
theorem lt_of_writes {a : Nat} {b : UInt8} (effect : i.exec key m = .ok (flow, m'))
    (writes : i.Writes m a b) : a < 4096 := by
  have reach {length : Nat} (within : m.InReach length) (some_byte : 0 < length) :
      m.index.toNat + length ≤ 4096 := within.resolve_left (by omega)
  cases writes with
  | hundreds x | tens x | units x =>
    simp only [exec] at effect
    split at effect
    · rename_i within
      have := reach within (by decide)
      omega
    · cases effect
  | register le =>
    simp only [exec] at effect
    split at effect
    · rename_i within
      have := reach within (by omega)
      have := Fin.le_def.1 le
      omega
    · cases effect

theorem get_of_writes {a : Nat} {b : UInt8} (effect : i.exec key m = .ok (flow, m'))
    (writes : i.Writes m a b) : m'.memory.get a = b := by
  have within := lt_of_writes effect writes
  obtain ⟨k, found, rfl⟩ := writes_iff.1 writes
  rw [memory_of_exec effect, Memory.get_write, if_pos ⟨Nat.le_add_right .., within⟩,
    Nat.add_sub_cancel_left, found]
  rfl

theorem get_of_no_writes {a : Nat} (effect : i.exec key m = .ok (flow, m'))
    (untouched : ∀ b, ¬i.Writes m a b) : m'.memory.get a = m.memory.get a := by
  rw [memory_of_exec effect, Memory.get_write]
  split
  · rename_i place
    cases found : (i.stored m)[a - m.index.toNat]? with
    | none => rfl
    | some b => exact absurd (writes_iff.2 ⟨_, found, by omega⟩) (untouched b)
  · rfl

end Instr

/-- An opcode that is executed changes nothing outside the footprint of its instruction. -/
theorem Machine.shares_of_execute {h : Host σ} {op : Opcode} {m m' : Machine}
    {w : World σ} {flow : Flow}
    (done : (m.execute h op w).1 = .ok (flow, m')) :
    ∃ i, op = Instr.encode i ∧ ∀ part, part ∉ i.footprint → m.Shares m' part := by
  obtain ⟨i, key, decoded, effect⟩ := exec_of_execute done
  refine ⟨i, (Instr.encode_of_decode decoded).symm, ?_⟩
  intro part outside
  exact Instr.shares_of_exec effect outside

/-- An instruction that does not look at the keypad is executed within its footprint. -/
theorem Machine.execute_within (h : Host σ) {op : Opcode} {i : Instr} {flow : Flow}
    {m m' : Machine} (w : World σ) (decoded : Instr.decode op = .ok i)
    (effect : ∀ key, i.exec key m = .ok (flow, m')) :
    (m.execute h op w).1 = .ok (flow, m') ∧ ∀ part ∉ i.footprint, m.Shares m' part := by
  constructor
  · rw [Machine.execute_of_decode decoded, effect]
  · intro part outside
    exact Instr.shares_of_exec (effect none) outside

/-! ### Turns -/

/-- The parts that neither time nor a fault nor the arrival of a key changes, nor the showing of a
frame. -/
def Machine.Part.isSteady : Machine.Part → Bool
  | .index | .stack | .memory | .random => true
  | .pc | .register _ | .delay | .sound | .frame => false

namespace Turn

variable {turn : Turn σ} {part : Machine.Part}

/-- A turn changes no steady part outside the footprint of the instruction that it executes. -/
theorem shares_of_executed? (steady : part.isSteady = true)
    (outside : ∀ e, turn.executed? = some e → part ∉ e.instr.footprint) :
    turn.session.vm.machine.Shares turn.after.vm.machine part := by
  have account := turn.account
  generalize turn.executed? = did at outside account
  generalize turn.result = result, turn.after.vm = vm, turn.calls = calls at account
  have elapsed (before : Vm) (same : turn.session.vm.machine.Shares before.machine part) :
      turn.session.vm.machine.Shares (before.elapse turn.millis).machine part := by
    obtain ⟨delay, sound, _, passed⟩ := Vm.sameButTime_elapse turn.millis before
    rw [passed]
    refine same.trans ?_
    cases part <;> first | rfl | cases steady
  cases account with
  | outOfRange => exact .refl _ part
  | refused => cases part <;> first | rfl | cases steady
  | waited => exact elapsed _ (.refl _ part)
  | keyed => exact elapsed _ (Machine.shares_setReg _ (by rintro rfl; cases steady))
  | @executed i flow m mode fetched effect =>
    apply elapsed
    have kept : turn.session.vm.machine.advance.Shares m part :=
      Instr.shares_of_exec effect (outside _ rfl)
    cases part <;> first | exact kept | cases steady

end Turn

end ChipEight
