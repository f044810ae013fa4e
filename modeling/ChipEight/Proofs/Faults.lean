import ChipEight.Proofs.Execution
import ChipEight.Proofs.InstructionTable
/-!
# Which faults are raised

`Machine.Refuses` says on the fields of an opcode and the state of the machine for which cause an
opcode is refused.  Execution fails exactly for these causes, and a cycle adds exactly the fault
of a program counter out of range: `fault_iff`.
-/

namespace ChipEight

variable {σ : Type}

open Opcode

/-- The opcode transfers `length` bytes at `I`. -/
def Opcode.Touches (op : Opcode) (length : Nat) : Prop :=
  family op = 0xD ∧ length = (n op).val ∨
  family op = 0xF ∧ nn op = 0x33 ∧ length = 3 ∨
  family op = 0xF ∧ (nn op = 0x55 ∨ nn op = 0x65) ∧ length = (x op).val + 1

/-- The bytes at `I` that an instruction transfers, if it does so at all. -/
def Instr.span? : Instr → Option Nat
  | .draw _ _ rows => some rows.val
  | .decimal _ => some 3
  | .store x | .fill x => some (x.val + 1)
  | _ => none

namespace Machine

/-- The machine cannot execute the opcode, for the given cause. -/
def Refuses (m : Machine) (op : Opcode) : Cause → Prop
  | .unsupportedOpcode => op.IsUnassigned
  | .reservedRegister => op.IsReserved
  | .stackOverflow => family op = 0x2 ∧ m.stack.depth = 16
  | .stackUnderflow => op = 0x00EE ∧ m.stack.depth = 0
  | .addressOutOfRange address => ∃ length, op.Touches length ∧ 0 < length ∧
      4096 < m.index.toNat + length ∧ address = m.index.toNat + length - 1

/-- The bytes at `I` are out of reach exactly if there are some and the last is beyond memory. -/
theorem shortfall?_eq_some_iff {m : Machine} {length : Nat} {cause : Cause} :
    Instr.shortfall? m length = some cause ↔
      0 < length ∧ 4096 < m.index.toNat + length ∧
        cause = .addressOutOfRange (m.index.toNat + length - 1) := by
  have short : ¬m.InReach length ↔ 0 < length ∧ 4096 < m.index.toNat + length := by
    rw [inReach_iff]
    omega
  unfold Instr.shortfall?
  split
  · rename_i reached
    simp only [reduceCtorEq, false_iff]
    exact fun h => short.2 ⟨h.1, h.2.1⟩ reached
  · rename_i missed
    simp only [(short.1 missed).1, (short.1 missed).2, true_and, beyondReach, Option.some.injEq,
      eq_comm]

/-- Nothing but the opcode matters where the decoder fails. -/
theorem refuses_iff_of_decode_eq_error {m : Machine} {op : Opcode} {c cause : Cause}
    (decoded : Instr.decode op = .error c) : m.Refuses op cause ↔ cause = c := by
  have unassigned : op.IsUnassigned ↔ c = .unsupportedOpcode := by
    have h := @Instr.decode_eq_error_iff op .unsupportedOpcode
    simpa [decoded] using h.symm
  have reserved : op.IsReserved ↔ c = .reservedRegister := by
    have h := @Instr.decode_eq_error_iff op .reservedRegister
    simpa [decoded] using h.symm
  have either := Instr.decode_eq_error_iff.1 decoded
  cases cause with
  | unsupportedOpcode => rw [Refuses, unassigned, eq_comm]
  | reservedRegister => rw [Refuses, reserved, eq_comm]
  | stackOverflow =>
    refine iff_of_false ?_ (by rintro rfl; simp at either)
    rintro ⟨hf, -⟩
    simp [IsUnassigned, IsReserved, hf] at either
  | stackUnderflow =>
    refine iff_of_false ?_ (by rintro rfl; simp at either)
    rintro ⟨rfl, -⟩
    cases decoded
  | addressOutOfRange address =>
    refine iff_of_false ?_ (by rintro rfl; simp at either)
    rintro ⟨length, ⟨hf, -⟩ | ⟨hf, hnn, -⟩ | ⟨hf, hnn | hnn, -⟩, -⟩ <;>
      simp [IsUnassigned, IsReserved, deviceCodes, *] at either

theorem family_clear : family (Instr.encode .clear) = 0x0 := rfl

theorem family_ret : family (Instr.encode .ret) = 0x0 := rfl

/-- The opcodes that transfer bytes at `I` are those of the instructions that do. -/
theorem touches_encode_iff {i : Instr} {length : Nat} :
    (Instr.encode i).Touches length ↔ i.span? = some length := by
  cases i with
  | clear | ret => simp [Touches, family_clear, family_ret, Instr.span?]
  | _ =>
    simp [Touches, Instr.span?, Instr.encode, Instr.family_formNnn, Instr.family_formXnn,
      Instr.family_formXyn, Instr.nn_formXnn, Instr.x_formXnn, Instr.n_formXyn, eq_comm]

theorem refuses_encode_iff {m : Machine} {i : Instr} {cause : Cause} :
    m.Refuses (Instr.encode i) cause ↔ i.obstacle? m = some cause := by
  have decoded := Instr.decode_encode i
  cases cause with
  | unsupportedOpcode =>
    refine iff_of_false (fun h => ?_) (by cases i <;>
      simp [Instr.obstacle?, shortfall?_eq_some_iff])
    rw [Instr.decode_eq_error_iff.2 (.inl ⟨rfl, h⟩)] at decoded
    cases decoded
  | reservedRegister =>
    refine iff_of_false (fun h => ?_) (by cases i <;>
      simp [Instr.obstacle?, shortfall?_eq_some_iff])
    rw [Instr.decode_eq_error_iff.2 (.inr ⟨rfl, h⟩)] at decoded
    cases decoded
  | stackOverflow =>
    cases i with
    | clear | ret => simp [Refuses, family_clear, family_ret, Instr.obstacle?]
    | _ =>
      simp [Refuses, Instr.encode, Instr.family_formNnn, Instr.family_formXnn,
        Instr.family_formXyn, Instr.obstacle?, shortfall?_eq_some_iff]
  | stackUnderflow =>
    have isRet : Instr.encode i = 0x00EE ↔ i = .ret :=
      ⟨fun h => Instr.encode_injective (h.trans rfl), fun h => h ▸ rfl⟩
    rw [Refuses, isRet]
    cases i <;> simp [Instr.obstacle?, shortfall?_eq_some_iff]
  | addressOutOfRange address =>
    simp only [Refuses, touches_encode_iff]
    cases i <;> simp [Instr.span?, Instr.obstacle?, shortfall?_eq_some_iff]

theorem execute_eq_error_iff (h : Host σ) (op : Opcode) (m : Machine) (w : World σ) {f : Fault} :
    (m.execute h op w).1 = .error f ↔
      ∃ cause, m.Refuses op cause ∧ f = .instruction cause m.currentAddress op := by
  have run := m.execution h op w
  generalize m.execute h op w = result at run
  cases run with
  | undecoded decoded => simp [refuses_iff_of_decode_eq_error decoded, eq_comm]
  | blocked decoded obstacle =>
    cases Instr.encode_of_decode decoded
    simp [refuses_encode_iff, obstacle, eq_comm]
  | done decoded free =>
    cases Instr.encode_of_decode decoded
    simp [refuses_encode_iff, free]

theorem execute_eq_ok_iff (h : Host σ) (op : Opcode) (m : Machine) (w : World σ) :
    (∃ result, (m.execute h op w).1 = .ok result) ↔ ∀ cause, ¬m.Refuses op cause := by
  have failure := @execute_eq_error_iff σ h op m w
  cases outcome : (m.execute h op w).1 with
  | ok result =>
    refine iff_of_true ⟨result, rfl⟩ fun cause refused => ?_
    have faulted := failure.2 ⟨cause, refused, rfl⟩
    rw [outcome] at faulted
    cases faulted
  | error f =>
    obtain ⟨cause, refused, -⟩ := failure.1 outcome
    exact iff_of_false (by simp) fun accepted => accepted cause refused

/-! ### The address of a fault -/

theorem le_address_of_refuses {m : Machine} {op : Opcode} {address : Nat}
    (refused : m.Refuses op (.addressOutOfRange address)) : 4096 ≤ address := by
  obtain ⟨length, -, -, beyond, rfl⟩ := refused
  omega

theorem currentAddress_advance (m : Machine) : m.advance.currentAddress = m.pc := by
  simp [advance, currentAddress]

theorem fetch?_eq_none_iff (m : Machine) : m.fetch? = none ↔ 4096 ≤ m.pc.toNat + 1 := by
  rw [fetch?, Memory.opcode?, ite_eq_right_iff]
  simp only [reduceCtorEq, imp_false]
  exact Nat.not_lt

theorem fetch?_eq_some_iff (m : Machine) {op : Opcode} :
    m.fetch? = some op ↔ m.pc.toNat + 1 < 4096 ∧
      op = Opcode.ofBytes (m.memory.get m.pc.toNat) (m.memory.get (m.pc.toNat + 1)) := by
  unfold fetch? Memory.opcode?
  split
  · rename_i within
    simp only [within, true_and, Option.some.injEq, eq_comm]
  · rename_i beyond
    simp only [beyond, false_and, reduceCtorEq]

/-- A program that was loaded starts with its first two bytes. -/
theorem fetch?_withProgram (m : Machine) (hi lo : UInt8) (rest : List UInt8) :
    (m.withProgram (hi :: lo :: rest)).fetch? = some (Opcode.ofBytes hi lo) := by
  have start : (m.withProgram (hi :: lo :: rest)).pc.toNat = 512 := rfl
  have memory : (m.withProgram (hi :: lo :: rest)).memory =
      Memory.initial.write Platform.programStart (hi :: lo :: rest) := by
    simp only [withProgram]
  refine (fetch?_eq_some_iff _).2 ⟨by rw [start]; decide, ?_⟩
  rw [start, memory, Memory.get_write, Memory.get_write]
  simp [Platform.programStart]

/-- An instruction that is fetched fails for what stands at the program counter. -/
theorem execute_eq_error_iff_of_fetch? (h : Host σ) (w : World σ) {m : Machine} {op : Opcode}
    (fetched : m.fetch? = some op) {f : Fault} :
    (m.advance.execute h op w).1 = .error f ↔
      m.pc.toNat + 1 < 4096 ∧ ∃ op cause,
        op = Opcode.ofBytes (m.memory.get m.pc.toNat) (m.memory.get (m.pc.toNat + 1)) ∧
        m.advance.Refuses op cause ∧ f = .instruction cause m.pc op := by
  obtain ⟨within, standing⟩ := (fetch?_eq_some_iff m).1 fetched
  rw [execute_eq_error_iff, currentAddress_advance]
  simp only [within, true_and, ← standing, exists_eq_left, exists_and_left]

end Machine

/-- A cycle fails just when it fetches, and either no instruction fits at the program counter or
the one that stands there fails. -/
theorem Session.cycle_eq_error_iff (h : Host σ) (s : Session σ) (f : Fault) :
    (s.cycle h).1 = .error f ↔
      s.vm.mode = .fetching ∧
        (4096 ≤ s.vm.machine.pc.toNat + 1 ∧ f = .pcOutOfRange s.vm.machine.pc ∨
         s.vm.machine.pc.toNat + 1 < 4096 ∧
          ∃ op cause,
            op = Opcode.ofBytes (s.vm.machine.memory.get s.vm.machine.pc.toNat)
              (s.vm.machine.memory.get (s.vm.machine.pc.toNat + 1)) ∧
            s.vm.machine.advance.Refuses op cause ∧
            f = .instruction cause s.vm.machine.pc op) := by
  have run := s.course h
  generalize s.cycle h = result at run
  cases run with
  | outOfRange mode fetched =>
    have beyond := (Machine.fetch?_eq_none_iff _).1 fetched
    simp [mode, beyond, Nat.not_lt.2 beyond, eq_comm]
  | fault mode fetched executed | instr mode fetched executed =>
    have within := ((Machine.fetch?_eq_some_iff _).1 fetched).1
    have failure := Machine.execute_eq_error_iff_of_fetch? h s.world fetched (f := f)
    rw [executed] at failure
    simpa [mode, Nat.not_le.2 within] using failure
  | noKey mode | key mode => simp [mode]

/-- **Faults are raised exactly when they should be.**  An opcode fails on a machine just for the
causes for which it is refused, and the fault names the address two below the program counter and
the opcode; otherwise it is executed.  A cycle fails just when it fetches, and either no
instruction fits at the program counter or the one that stands there fails. -/
theorem fault_iff (h : Host σ) :
    (∀ (op : Opcode) (m : Machine) (w : World σ) (f : Fault),
      (m.execute h op w).1 = .error f ↔
        ∃ cause, m.Refuses op cause ∧ f = .instruction cause (m.pc - 2) op) ∧
    (∀ (op : Opcode) (m : Machine) (w : World σ),
      (∃ result, (m.execute h op w).1 = .ok result) ↔ ∀ cause, ¬m.Refuses op cause) ∧
    (∀ (op : Opcode) (m : Machine) (address : Nat),
      m.Refuses op (.addressOutOfRange address) → 4096 ≤ address) ∧
    (∀ (s : Session σ) (f : Fault), (s.cycle h).1 = .error f ↔
      s.vm.mode = .fetching ∧
        (4096 ≤ s.vm.machine.pc.toNat + 1 ∧ f = .pcOutOfRange s.vm.machine.pc ∨
         s.vm.machine.pc.toNat + 1 < 4096 ∧
          ∃ op cause,
            op = Opcode.ofBytes (s.vm.machine.memory.get s.vm.machine.pc.toNat)
              (s.vm.machine.memory.get (s.vm.machine.pc.toNat + 1)) ∧
            s.vm.machine.advance.Refuses op cause ∧
            f = .instruction cause s.vm.machine.pc op)) := by
  refine ⟨?_, ?_, ?_, ?_⟩
  · intro op m w f
    exact m.execute_eq_error_iff h op w
  · intro op m w
    exact m.execute_eq_ok_iff h op w
  · intro op m address refused
    exact Machine.le_address_of_refuses refused
  · intro s f
    exact s.cycle_eq_error_iff h f

end ChipEight
