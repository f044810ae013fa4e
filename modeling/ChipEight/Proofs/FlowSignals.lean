import ChipEight.Proofs.Footprints
import ChipEight.Proofs.StraightLines
/-!
# What the flow tells

An executed instruction tells its caller a flow, and it moves the program counter.  The two agree:
where a jump is told the counter is at the target, a key wait leaves the whole machine alone, and
otherwise the counter stays or goes past one instruction (`flow_agrees`).  The instructions that
can skip come in pairs that ask opposite questions about the same operands, so that of the two
exactly one skips.
-/

namespace ChipEight

variable {σ : Type}

namespace Opcode

/-- The opcode is `00E0` or `Dxyn`. -/
def IsDraw (op : Opcode) : Prop := op = 0x00E0 ∨ family op = 0xD

/-- The opcode is `Fr0A`. -/
def IsKeyWait (op : Opcode) (r : Register) : Prop := family op = 0xF ∧ nn op = 0x0A ∧ x op = r

/-- The opcode is `3xnn`, `4xnn`, `5xy0`, `9xy0`, `Ex9E` or `ExA1`. -/
def IsSkip (op : Opcode) : Prop :=
  family op = 0x3 ∨ family op = 0x4 ∨ (family op = 0x5 ∨ family op = 0x9) ∧ n op = 0 ∨
    family op = 0xE ∧ (nn op = 0x9E ∨ nn op = 0xA1)

/-- The opcodes are `3xnn` and `4xnn`, or `5xy0` and `9xy0`, or `Ex9E` and `ExA1`, with the same
operands. -/
def Opposes (op op' : Opcode) : Prop :=
  family op = 0x3 ∧ family op' = 0x4 ∧ x op' = x op ∧ nn op' = nn op ∨
  family op = 0x5 ∧ family op' = 0x9 ∧ x op' = x op ∧ y op' = y op ∧ n op = 0 ∧ n op' = 0 ∨
  family op = 0xE ∧ family op' = 0xE ∧ x op' = x op ∧ nn op = 0x9E ∧ nn op' = 0xA1

end Opcode

/-! ### Flows -/

namespace Instr

/-- The flow that the instruction tells when it is executed. -/
def flow : Instr → Flow
  | .ret | .jump _ | .call _ | .jumpOffset _ => .jump
  | .clear | .draw .. => .draw
  | .awaitKey x => .keyWait x
  | .skipEq .. | .skipNe .. | .skipEqReg .. | .skipNeReg .. | .skipKey _ | .skipNoKey _
  | .load .. | .add .. | .transfer .. | .arith .. | .random .. | .readDelay _ | .fill _
  | .loadIndex _ | .addIndex _ | .glyph _ | .setDelay _ | .setSound _ | .decimal _ | .store _ =>
    .next

variable {key : Option Key} {m m' : Machine} {i : Instr} {flow : Flow}

/-- The flow is a matter of the instruction alone. -/
theorem flow_of_exec (effect : i.exec key m = .ok (flow, m')) : flow = i.flow := by
  cases i with
  | ret => exact flow_of_exec_ret effect
  | call a => exact flow_of_exec_call effect
  | draw x y rows | decimal x | store x | fill x =>
    simp only [exec] at effect
    split at effect
    · cases effect
      rfl
    · cases effect
  | _ =>
    cases effect
    rfl

theorem isDraw_encode_iff : (encode i).IsDraw ↔ i.flow = .draw := by
  have isClear : encode i = 0x00E0 ↔ i = .clear := by
    constructor
    · intro same
      exact encode_injective (same.trans rfl)
    · rintro rfl
      rfl
  rw [Opcode.IsDraw, isClear]
  cases i with
  | clear => simp [Instr.flow]
  | ret => simp [Machine.family_ret, Instr.flow]
  | _ => simp [encode, family_formNnn, family_formXnn, family_formXyn, Instr.flow]

theorem isKeyWait_encode_iff {r : Register} :
    (encode i).IsKeyWait r ↔ i.flow = .keyWait r := by
  unfold Opcode.IsKeyWait
  cases i with
  | clear | ret => simp [Machine.family_clear, Machine.family_ret, Instr.flow]
  | _ =>
    simp [encode, family_formNnn, family_formXnn, family_formXyn, nn_formXnn, x_formXnn,
      Instr.flow]

/-- The program counter is moved by jumps and skips. -/
theorem pc_mem_footprint_iff :
    .pc ∈ i.footprint ↔ (encode i).IsJump ∨ (encode i).IsSkip := by
  rw [isJump_encode_iff, Opcode.IsSkip]
  cases i with
  | clear | ret => simp [Machine.family_clear, Machine.family_ret, footprint]
  | _ =>
    simp [encode, family_formNnn, family_formXnn, family_formXyn, nn_formXnn, n_formXyn,
      footprint]

/-- An instruction that is no jump moves the program counter past one other at most, and only if
it is one of those that can skip. -/
theorem pc_of_straight (effect : i.exec key m = .ok (flow, m')) (straight : flow ≠ .jump) :
    m'.pc = m.pc ∨ m'.pc = m.pc + 2 ∧ (encode i).IsSkip := by
  by_cases moves : .pc ∈ i.footprint
  · have skip : (encode i).IsSkip := by
      refine (pc_mem_footprint_iff.1 moves).resolve_left ?_
      intro jump
      exact straight ((flow_eq_jump_iff effect).2 jump)
    cases exec_moves effect with
    | jump | jumpOffset | call | ret => exact absurd rfl straight
    | awaitKey same => exact .inl (congrArg Machine.pc same)
    | straight _ pc => exact pc.imp_right fun past => ⟨past, skip⟩
  · exact .inl (shares_of_exec effect moves)

end Instr

namespace Machine

/-- The target that the opcode of a jump names. -/
def Targets (m : Machine) (op : Opcode) (pc : Address) : Prop :=
  (op.family = 0x1 ∨ op.family = 0x2) ∧ pc.toNat = op.nnn.val ∨
  op.family = 0xB ∧ pc.toNat = op.nnn.val + (m.reg 0).toNat ∨
  op = 0x00EE ∧ m.stack.toList.getLast? = some pc

/-- Offset by a register, a target is beyond memory at most, and never wraps. -/
theorem toNat_ofNat_offset (a : Fin 4096) (b : UInt8) :
    (UInt16.ofNat (a.val + b.toNat)).toNat = a.val + b.toNat := by
  have a_lt := a.isLt
  have b_lt := b.toNat_lt
  rw [UInt16.toNat_ofNat']
  omega

theorem toNat_ofNat_target (a : Fin 4096) : (UInt16.ofNat a.val).toNat = a.val :=
  toNat_ofNat_offset a 0

end Machine

namespace Instr

variable {key : Option Key} {m m' : Machine} {i : Instr}

/-- A jump goes to its target. -/
theorem targets_of_exec (effect : i.exec key m = .ok (.jump, m')) :
    m.Targets (encode i) m'.pc := by
  cases exec_moves effect with
  | @jump a pc | @call a pc =>
    refine .inl ⟨?_, ?_⟩
    · simp [encode, family_formNnn]
    · rw [pc, Machine.toNat_ofNat_target]
      simp [encode, nnn_formNnn]
  | @jumpOffset a pc =>
    refine .inr (.inl ⟨family_formNnn (by decide) a, ?_⟩)
    rw [pc, Machine.toNat_ofNat_offset, encode, nnn_formNnn (by decide)]
  | ret popped =>
    refine .inr (.inr ⟨rfl, ?_⟩)
    rw [CallStack.toList_pop? popped, List.getLast?_concat]
  | straight quiet => simp at quiet

end Instr

/-! ### Skips -/

theorem Instr.decode_of_skipKey {op : Opcode} (family : op.family = 0xE) (nn : op.nn = 0x9E) :
    decode op = .ok (.skipKey op.x) := by
  simp only [decode, family, nn, if_true]

namespace Machine

variable {h h' : Host σ} {op op' : Opcode} {m : Machine} {w w' : World σ}

/-- The opcode is executed and does nothing but skip the next instruction. -/
def Skips (h : Host σ) (op : Opcode) (m : Machine) (w : World σ) : Prop :=
  (m.execute h op w).1 = .ok (.next, { m with pc := m.pc + 2 })

/-- The opcode is executed and does nothing. -/
def Passes (h : Host σ) (op : Opcode) (m : Machine) (w : World σ) : Prop :=
  (m.execute h op w).1 = .ok (.next, m)

theorem pc_add_two_ne (m : Machine) : m.pc + 2 ≠ m.pc := by
  intro same
  have wraps : (m.pc + 2).toNat = (m.pc.toNat + 2) % 65536 := UInt16.toNat_add m.pc 2
  have small := m.pc.toNat_lt
  rw [same] at wraps
  omega

theorem not_skips_of_passes (passes : m.Passes h op w) : ¬m.Skips h op w := by
  intro skips
  rw [Passes, skips] at passes
  have same : ({ m with pc := m.pc + 2 } : Machine) = m :=
    (Prod.mk.inj (Except.ok.inj passes)).2
  exact m.pc_add_two_ne (congrArg pc same)

/-- The opposite opcodes ask the same question and skip on opposite answers. -/
theorem exists_skipIf_of_opposes (opposes : op.Opposes op')
    (same : (h'.poll w'.devices).1 = (h.poll w.devices).1) :
    ∃ answer, (m.execute h op w).1 = .ok (.next, m.skipIf answer) ∧
      (m.execute h' op' w').1 = .ok (.next, m.skipIf !answer) := by
  rcases opposes with ⟨family, family', x, nn⟩ | ⟨family, family', x, y, n, n'⟩ |
    ⟨family, family', x, nn, nn'⟩
  · have decoded : Instr.decode op = .ok (.skipEq op.x op.nn) := by
      simp only [Instr.decode, family]
    have decoded' : Instr.decode op' = .ok (.skipNe op.x op.nn) := by
      simp only [Instr.decode, family', x, nn]
    exact ⟨_, congrArg Prod.fst (execute_of_told decoded rfl),
      congrArg Prod.fst (execute_of_told decoded' rfl)⟩
  · have decoded : Instr.decode op = .ok (.skipEqReg op.x op.y) := by
      simp only [Instr.decode, family, n, if_true]
    have decoded' : Instr.decode op' = .ok (.skipNeReg op.x op.y) := by
      simp only [Instr.decode, family', n', x, y, if_true]
    exact ⟨_, congrArg Prod.fst (execute_of_told decoded rfl),
      congrArg Prod.fst (execute_of_told decoded' rfl)⟩
  · have decoded := Instr.decode_of_skipKey family nn
    have decoded' : Instr.decode op' = .ok (.skipNoKey op.x) := by
      have other : ¬(0xA1 : UInt8) = 0x9E := by decide
      simp only [Instr.decode, family', nn', x, other, if_true, if_false]
    refine ⟨_, congrArg Prod.fst (execute_of_told decoded rfl),
      congrArg Prod.fst (execute_of_told decoded' ?_)⟩
    rw [same]
    rfl

/-- Of two opposite opcodes exactly one skips. -/
theorem one_skips_of_opposes (opposes : op.Opposes op')
    (same : (h'.poll w'.devices).1 = (h.poll w.devices).1) :
    m.Skips h op w ∧ m.Passes h' op' w' ∨ m.Passes h op w ∧ m.Skips h' op' w' := by
  obtain ⟨answer, done, done'⟩ := exists_skipIf_of_opposes (m := m) opposes same
  cases answer with
  | true => exact .inl ⟨done, done'⟩
  | false => exact .inr ⟨done, done'⟩

/-- The key that is down has the number in the byte. -/
theorem key_eq_iff {key : Option Key} {b : UInt8} :
    (key.map Key.toByte == some b) = true ↔ ∃ k, key = some k ∧ k.code.val = b.toNat := by
  rw [beq_iff_eq, Option.map_eq_some_iff]
  refine exists_congr fun k => and_congr_right fun _ => ?_
  rw [← UInt8.toNat_inj, Key.toNat_toByte]

theorem skips_key_iff (family : op.family = 0xE) (nn : op.nn = 0x9E) :
    m.Skips h op w ↔
      ∃ k, (h.poll w.devices).1 = some k ∧ k.code.val = (m.reg op.x).toNat := by
  have decoded := Instr.decode_of_skipKey family nn
  have done : (m.execute h op w).1 = .ok (.next, m.skipIf
      ((h.poll w.devices).1.map Key.toByte == some (m.reg op.x))) :=
    congrArg Prod.fst (execute_of_told decoded rfl)
  rw [← key_eq_iff]
  -- The two outcomes exclude each other, so the answer can be read off what was done.
  generalize ((h.poll w.devices).1.map Key.toByte == some (m.reg op.x)) = answer at done
  cases answer with
  | true => exact iff_of_true done rfl
  | false => exact iff_of_false (not_skips_of_passes done) Bool.false_ne_true

end Machine

/-- **The flow and the program counter tell the same story.**  When an opcode is executed, a jump is
told just for `1nnn`, `2nnn`, `Bnnn` and `00EE`, and the program counter is at the target; a drawing
just for `00E0` and `Dxyn`; a key wait just for `Fr0A`, which changes nothing.  Unless a jump is
told, the program counter stays or goes past one instruction, and that only for the opcodes that can
skip.  On one machine, and with one key down, exactly one of two opposite opcodes skips; `Ex9E` does
if a key is down whose number is the whole byte in `Vx`, and so never without a key or if the byte
is above 15. -/
theorem flow_agrees (h : Host σ) (op : Opcode) (m : Machine) (w : World σ) :
    (∀ flow m', (m.execute h op w).1 = .ok (flow, m') →
      (flow = .jump ↔ op.IsJump) ∧ (flow = .jump → m.Targets op m'.pc) ∧
      (flow = .draw ↔ op.IsDraw) ∧
      (∀ r, flow = .keyWait r ↔ op.IsKeyWait r) ∧ (∀ r, flow = .keyWait r → m' = m) ∧
      (flow ≠ .jump → m'.pc = m.pc ∨ m'.pc = m.pc + 2 ∧ op.IsSkip)) ∧
    (∀ (h' : Host σ) (op' : Opcode) (w' : World σ), op.Opposes op' →
      (h'.poll w'.devices).1 = (h.poll w.devices).1 →
        (m.Skips h op w ∧ m.Passes h' op' w' ∨ m.Passes h op w ∧ m.Skips h' op' w') ∧
        ¬(m.Skips h op w ∧ m.Skips h' op' w')) ∧
    (op.family = 0xE → op.nn = 0x9E →
      (m.Skips h op w ↔
        ∃ k, (h.poll w.devices).1 = some k ∧ k.code.val = (m.reg op.x).toNat) ∧
      (15 < (m.reg op.x).toNat ∨ (h.poll w.devices).1 = none → ¬m.Skips h op w)) := by
  refine ⟨?_, ?_, ?_⟩
  · intro flow m' done
    obtain ⟨i, key, decoded, effect⟩ := Machine.exec_of_execute done
    obtain rfl := Instr.encode_of_decode decoded
    have told := Instr.flow_of_exec effect
    refine ⟨Instr.flow_eq_jump_iff effect, ?_, ?_, ?_, ?_, Instr.pc_of_straight effect⟩
    · rintro rfl
      exact Instr.targets_of_exec effect
    · rw [told, Instr.isDraw_encode_iff]
    · intro r
      rw [told, Instr.isKeyWait_encode_iff]
    · rintro r rfl
      cases Instr.exec_moves effect with
      | awaitKey same => exact same
      | straight quiet => simp at quiet
  · intro h' op' w' opposes same
    have one := Machine.one_skips_of_opposes (m := m) opposes same
    refine ⟨one, ?_⟩
    rintro ⟨skips, skips'⟩
    rcases one with ⟨-, passes'⟩ | ⟨passes, -⟩
    · exact Machine.not_skips_of_passes passes' skips'
    · exact Machine.not_skips_of_passes passes skips
  · intro family nn
    have iff := Machine.skips_key_iff (h := h) (m := m) (w := w) family nn
    refine ⟨iff, ?_⟩
    intro never skips
    obtain ⟨k, down, number⟩ := iff.1 skips
    rcases never with large | silent
    · have := k.code.isLt
      omega
    · rw [silent] at down
      cases down

/-- With 11 in `V0` and key 11 down, opcode `E09E` skips, `E0A1` does not, and `BFFF` goes to an
address beyond memory. -/
theorem flow_agrees_key :
    let h := Script.host { millis := fun _ => 0.0 }
    let w : World Console := { devices := { heldKey := some ⟨11⟩ } }
    let m := (Machine.initial (.ofSeed 0)).setReg 0 11
    m.Skips h 0xE09E w ∧ m.Passes h 0xE0A1 w ∧
      ∃ m', (m.execute h 0xBFFF w).1 = .ok (.jump, m') ∧ m'.pc.toNat = 0x100A := by
  intro h w m
  have held : m.reg 0 = 11 := by
    rw [Machine.reg_setReg, if_pos rfl]
  obtain ⟨-, pairs, key⟩ := flow_agrees h 0xE09E m w
  have skips : m.Skips h 0xE09E w := by
    refine (key rfl rfl).1.2 ⟨⟨11⟩, rfl, ?_⟩
    change 11 = (m.reg 0).toNat
    rw [held]
    rfl
  have opposes : Opcode.Opposes 0xE09E 0xE0A1 := .inr (.inr (by decide))
  obtain ⟨one, not_both⟩ := pairs h 0xE0A1 w opposes rfl
  have passes : m.Passes h 0xE0A1 w := by
    rcases one with ⟨-, passes⟩ | ⟨-, skips'⟩
    · exact passes
    · exact absurd ⟨skips, skips'⟩ not_both
  have done : (m.execute h 0xBFFF w).1 = .ok (.jump, m.goTo (0xFFF + (m.reg 0).toNat)) := rfl
  obtain ⟨-, targets, -⟩ := (flow_agrees h 0xBFFF m w).1 _ _ done
  refine ⟨skips, passes, _, done, ?_⟩
  rcases targets rfl with ⟨family, -⟩ | ⟨-, pc⟩ | ⟨ret, -⟩
  · exact absurd family (by decide)
  · rw [pc, held]
    rfl
  · exact absurd ret (by decide)

end ChipEight
