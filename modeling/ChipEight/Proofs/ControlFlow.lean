import ChipEight.Proofs.Execution
/-!
# Control flow

How the instructions move the program counter and the call stack, and what they tell their
caller.  `Machine.Moves` is the list; an instruction that is executed is on it (`exec_moves`).
-/

namespace ChipEight

namespace Machine

/-- How an instruction takes the program counter and the call stack of `m` to those of `m'`, and
the flow that it reports. -/
inductive Moves (m m' : Machine) : Instr → Flow → Prop where
  | jump {a : Fin 4096} (pc : m'.pc = UInt16.ofNat a.val) (stack : m'.stack = m.stack) :
      Moves m m' (.jump a) .jump
  | jumpOffset {a : Fin 4096} (pc : m'.pc = UInt16.ofNat (a.val + (m.reg 0).toNat))
      (stack : m'.stack = m.stack) : Moves m m' (.jumpOffset a) .jump
  | call {a : Fin 4096} (pc : m'.pc = UInt16.ofNat a.val)
      (pushed : m.stack.push? m.pc = some m'.stack) : Moves m m' (.call a) .jump
  | ret (popped : m.stack.pop? = some (m'.pc, m'.stack)) : Moves m m' .ret .jump
  | awaitKey {x : Register} (same : m' = m) : Moves m m' (.awaitKey x) (.keyWait x)
  /-- Straight on, or past the next instruction. -/
  | straight {i : Instr} {flow : Flow} (quiet : flow = .next ∨ flow = .draw)
      (pc : m'.pc = m.pc ∨ m'.pc = m.pc + 2) (stack : m'.stack = m.stack) : Moves m m' i flow

theorem skipIf_pc (m : Machine) (condition : Bool) :
    (m.skipIf condition).pc = m.pc ∨ (m.skipIf condition).pc = m.pc + 2 := by
  cases condition
  · exact .inl rfl
  · exact .inr rfl

theorem skipIf_stack (m : Machine) (condition : Bool) :
    (m.skipIf condition).stack = m.stack := by
  cases condition <;> rfl

theorem fillRegs_pc (m : Machine) (x : Register) : (m.fillRegs x).pc = m.pc := by
  simp only [fillRegs]

theorem fillRegs_stack (m : Machine) (x : Register) : (m.fillRegs x).stack = m.stack := by
  simp only [fillRegs]

end Machine

namespace Instr

open Machine

theorem exec_moves {key : Option Key} {m m' : Machine} {i : Instr} {flow : Flow}
    (effect : i.exec key m = .ok (flow, m')) : m.Moves m' i flow := by
  cases i with
  | ret =>
    simp only [exec] at effect
    split at effect
    · rename_i popped
      cases effect
      exact .ret popped
    · cases effect
  | call a =>
    simp only [exec] at effect
    split at effect
    · rename_i pushed
      cases effect
      exact .call rfl pushed
    · cases effect
  | jump a => cases effect; exact .jump rfl rfl
  | jumpOffset a => cases effect; exact .jumpOffset rfl rfl
  | awaitKey x => cases effect; exact .awaitKey rfl
  | clear => cases effect; exact .straight (.inr rfl) (.inl rfl) rfl
  | draw x y rows =>
    simp only [exec] at effect
    split at effect
    · cases effect
      exact .straight (.inr rfl) (.inl rfl) rfl
    · cases effect
  | decimal x | store x =>
    simp only [exec] at effect
    split at effect
    · cases effect
      exact .straight (.inl rfl) (.inl rfl) rfl
    · cases effect
  | fill x =>
    simp only [exec] at effect
    split at effect
    · cases effect
      exact .straight (.inl rfl) (.inl (fillRegs_pc m x)) (fillRegs_stack m x)
    · cases effect
  | skipEq x b | skipNe x b | skipEqReg x y | skipNeReg x y | skipKey x | skipNoKey x =>
    cases effect
    exact .straight (.inl rfl) (skipIf_pc ..) (skipIf_stack ..)
  | _ => cases effect; exact .straight (.inl rfl) (.inl rfl) rfl

theorem flow_of_exec_call {key : Option Key} {m m' : Machine} {a : Fin 4096} {flow : Flow}
    (effect : (call a).exec key m = .ok (flow, m')) : flow = .jump := by
  simp only [exec] at effect
  split at effect <;> cases effect
  rfl

theorem flow_of_exec_ret {key : Option Key} {m m' : Machine} {flow : Flow}
    (effect : ret.exec key m = .ok (flow, m')) : flow = .jump := by
  simp only [exec] at effect
  split at effect <;> cases effect
  rfl

/-- Calls and returns work on the call stack, and no other instruction does. -/
theorem exec_stack {key : Option Key} {m m' : Machine} {i : Instr} {flow : Flow}
    (effect : i.exec key m = .ok (flow, m')) :
    (∃ a, i = .call a ∧ m.stack.push? m.pc = some m'.stack) ∨
    (i = .ret ∧ m.stack.pop? = some (m'.pc, m'.stack)) ∨
    ((∀ a, i ≠ .call a) ∧ i ≠ .ret ∧ m'.stack = m.stack) := by
  cases exec_moves effect with
  | call _ pushed => exact .inl ⟨_, rfl, pushed⟩
  | ret popped => exact .inr (.inl ⟨rfl, popped⟩)
  | jump _ stack => exact .inr (.inr ⟨nofun, nofun, stack⟩)
  | jumpOffset _ stack => exact .inr (.inr ⟨nofun, nofun, stack⟩)
  | awaitKey same => exact .inr (.inr ⟨nofun, nofun, by rw [same]⟩)
  | straight quiet _ stack =>
    refine .inr (.inr ⟨?_, ?_, stack⟩)
    · rintro a rfl
      rw [flow_of_exec_call effect] at quiet
      rcases quiet with quiet | quiet <;> cases quiet
    · rintro rfl
      rw [flow_of_exec_ret effect] at quiet
      rcases quiet with quiet | quiet <;> cases quiet

end Instr

end ChipEight
