import ChipEight.Host.Console
import ChipEight.Proofs.Checked.Safety
import ChipEight.Proofs.ControlFlow
import ChipEight.Proofs.Faults
import ChipEight.Proofs.Sessions
/-!
# An invariant of all sessions

Between two calls the program counter lies at most an offset of `V0` beyond memory, the return
addresses are those of calls that stood in memory, and a machine that waits for a key stands
right behind the instruction that told it to (`session_invariant`).  The bounds hang together:
a return goes to an address on the stack, and the stack takes the program counter of a fetch.
-/

namespace ChipEight

variable {σ : Type}

namespace Vm

/-- What a virtual machine keeps from cycle to cycle. -/
structure InOrder (vm : Vm) : Prop where
  pc_le : vm.machine.pc.toNat ≤ 0x10FE
  returns_mem : ∀ a ∈ vm.machine.stack.returns, 0x0002 ≤ a.toNat ∧ a.toNat ≤ 0x1000
  waiting : ∀ r, vm.mode = .awaitingKey r → vm.machine.dirty = false ∧
    0x0002 ≤ vm.machine.pc.toNat ∧ vm.machine.pc.toNat ≤ 0x1000 ∧
    vm.machine.memory.opcode? (vm.machine.pc - 2) = some (Instr.encode (.awaitKey r))

theorem InOrder.of_fetching {vm : Vm} (mode : vm.mode = .fetching)
    (pc_le : vm.machine.pc.toNat ≤ 0x10FE)
    (returns_mem : ∀ a ∈ vm.machine.stack.returns, 0x0002 ≤ a.toNat ∧ a.toNat ≤ 0x1000) :
    vm.InOrder where
  pc_le := pc_le
  returns_mem := returns_mem
  waiting := fun r awaiting => by rw [mode] at awaiting; cases awaiting

theorem InOrder.restart (vm : Vm) (stream : Random) (memory : Memory) :
    (vm.restart { Machine.initial stream with memory := memory }).InOrder :=
  .of_fetching rfl (by decide : (512 : UInt16).toNat ≤ 0x10FE) (fun _ ha => nomatch ha)

end Vm

/-! ### What a fetch gives and an instruction keeps -/

namespace Machine

/-- Behind an instruction in memory the program counter is in memory or just past it. -/
theorem pc_advance_of_fetch? {m : Machine} {op : Opcode} (fetched : m.fetch? = some op) :
    m.advance.pc.toNat = m.pc.toNat + 2 ∧ m.pc.toNat + 2 ≤ 0x1000 := by
  have within := ((fetch?_eq_some_iff m).1 fetched).1
  have sum : (m.pc + 2).toNat = (m.pc.toNat + 2) % 65536 := UInt16.toNat_add m.pc 2
  simp only [advance]
  omega

theorem mem_returns_of_push? {s t : CallStack} {a b : Address} (pushed : s.push? a = some t)
    (mem : b ∈ t.returns) : b = a ∨ b ∈ s.returns := by
  unfold CallStack.push? at pushed
  split at pushed
  · cases pushed
    exact List.mem_cons.1 mem
  · cases pushed

theorem returns_of_pop? {s t : CallStack} {a : Address} (popped : s.pop? = some (a, t)) :
    s.returns = a :: t.returns := by
  obtain ⟨returns, bound⟩ := s
  cases returns with
  | nil => cases popped
  | cons b rest => cases popped; rfl

/-- An instruction at a fetched place keeps the bounds. -/
theorem Moves.bounds {m m' : Machine} {i : Instr} {flow : Flow} (moves : m.Moves m' i flow)
    (low : 0x0002 ≤ m.pc.toNat) (high : m.pc.toNat ≤ 0x1000)
    (returns_mem : ∀ a ∈ m.stack.returns, 0x0002 ≤ a.toNat ∧ a.toNat ≤ 0x1000) :
    m'.pc.toNat ≤ 0x10FE ∧ ∀ a ∈ m'.stack.returns, 0x0002 ≤ a.toNat ∧ a.toNat ≤ 0x1000 := by
  cases moves with
  | @jump a pc stack =>
    have := a.isLt
    rw [pc, stack, UInt16.toNat_ofNat']
    exact ⟨by omega, returns_mem⟩
  | @jumpOffset a pc stack =>
    have := a.isLt
    have := (m.reg 0).toNat_lt
    rw [pc, stack, UInt16.toNat_ofNat']
    exact ⟨by omega, returns_mem⟩
  | @call a pc pushed =>
    have := a.isLt
    rw [pc, UInt16.toNat_ofNat']
    refine ⟨by omega, fun b mem => ?_⟩
    rcases mem_returns_of_push? pushed mem with rfl | old
    · exact ⟨low, high⟩
    · exact returns_mem b old
  | ret popped =>
    rw [returns_of_pop? popped] at returns_mem
    have target := returns_mem m'.pc (List.mem_cons_self ..)
    exact ⟨by omega, fun b mem => returns_mem b (List.mem_cons_of_mem _ mem)⟩
  | awaitKey same =>
    subst same
    exact ⟨by omega, returns_mem⟩
  | straight _ pc stack =>
    rw [stack]
    refine ⟨?_, returns_mem⟩
    rcases pc with pc | pc
    · rw [pc]; omega
    · rw [pc, UInt16.toNat_add, show (2 : UInt16).toNat = 2 from rfl]
      omega

end Machine

theorem Mode.after_eq_awaitingKey_iff {flow : Flow} {r : Register} :
    Mode.after flow = .awaitingKey r ↔ flow = .keyWait r := by
  cases flow <;> simp [Mode.after]

/-! ### Cycles and calls -/

namespace Session

theorem inOrder_cycle (h : Host σ) (s : Session σ) (inOrder : s.vm.InOrder) :
    (s.cycle h).2.vm.InOrder := by
  have run := s.course h
  generalize s.cycle h = result at run
  cases run with
  | outOfRange => exact ⟨inOrder.pc_le, inOrder.returns_mem, inOrder.waiting⟩
  | fault mode fetched =>
    have place := Machine.pc_advance_of_fetch? fetched
    exact .of_fetching mode (by change s.vm.machine.advance.pc.toNat ≤ 0x10FE; omega)
      inOrder.returns_mem
  | @instr op flow m w mode fetched executed =>
    have place := Machine.pc_advance_of_fetch? fetched
    have ran := s.vm.machine.advance.execution h op s.world
    rw [executed] at ran
    cases ran with
    | @done i _ _ decoded _ effect =>
      have moves := Instr.exec_moves effect
      have bounds := moves.bounds (by omega) (by omega) inOrder.returns_mem
      obtain ⟨delay, sound, elapsed, after⟩ :=
        passTime_vm h ((s.afterInstr flow m _).present h)
      rw [after, present_vm]
      refine ⟨bounds.1, bounds.2, fun r awaiting => ?_⟩
      -- Only `Fx0A` leads to a wait, and it leaves the machine behind itself.
      cases Mode.after_eq_awaitingKey_iff.1 awaiting
      cases moves with
      | awaitKey same =>
        subst same
        refine ⟨rfl, ?_, ?_, ?_⟩
        · change 0x0002 ≤ s.vm.machine.advance.pc.toNat
          omega
        · change s.vm.machine.advance.pc.toNat ≤ 0x1000
          omega
        · change s.vm.machine.memory.opcode? s.vm.machine.advance.currentAddress = _
          rw [Machine.currentAddress_advance, Instr.encode_of_decode decoded]
          exact fetched
      | straight quiet => simp at quiet
  | @noKey r w =>
    obtain ⟨delay, sound, elapsed, after⟩ := passTime_vm h { s with world := w }
    rw [after]
    exact ⟨inOrder.pc_le, inOrder.returns_mem, inOrder.waiting⟩
  | @key r k w =>
    obtain ⟨delay, sound, elapsed, after⟩ := passTime_vm h
      (s.afterInstr .next (s.vm.machine.setReg r k.toByte) (w.emit (.keyArrived k r)))
    rw [after]
    exact .of_fetching rfl inOrder.pc_le inOrder.returns_mem

theorem inOrder_load (s : Session σ) (program : List UInt8) (inOrder : s.vm.InOrder) :
    (s.load program).2.vm.InOrder := by
  unfold load Machine.load
  split
  · exact inOrder
  · rename_i loaded
    split at loaded
    · cases loaded
      exact .restart ..
    · cases loaded

theorem inOrder_perform (s t : Session σ) (c : Call σ) (inOrder : s.vm.InOrder)
    (performed : s.perform c = some t) : t.vm.InOrder :=
  perform_induction (P := fun s => s.vm.InOrder) inOrder_load
    (fun s _ => .restart s.vm s.vm.machine.random .initial) (fun _ h => h) (fun _ _ h => h)
    inOrder_cycle (fun _ h => h) (fun _ _ h => ⟨h.pc_le, h.returns_mem, h.waiting⟩) inOrder
    performed

theorem running_cycle (h : Host σ) (s : Session σ) (idle : s.vm.running = false) :
    (s.cycle h).2.vm.running = false := by
  have run := s.course h
  generalize s.cycle h = result at run
  cases run with
  | outOfRange | fault => rfl
  | instr => simpa only [passTime_running, present_vm, afterInstr] using idle
  | noKey | key => simpa only [passTime_running, afterInstr] using idle

theorem running_perform (s t : Session σ) (c : Call σ) (idle : s.vm.running = false)
    (performed : s.perform c = some t) : t.vm.running = false := by
  cases c with
  | load program =>
    cases performed
    unfold load
    split <;> exact idle
  | cycle h => cases performed; exact running_cycle h s idle
  | runSteps h n => cases performed; rfl
  | run h fuel =>
    simp only [perform, run, Option.map_map, Option.map_eq_some_iff] at performed
    obtain ⟨_, _, rfl⟩ := performed
    rfl
  | _ => cases performed; exact idle

theorem inOrder_of_reachable {s : Session σ} (reached : s.Reachable) : s.vm.InOrder :=
  Reachable.induction (P := fun s => s.vm.InOrder)
    (fun config stream _ => .restart (Vm.new config) stream .initial) inOrder_perform reached

theorem running_of_reachable {s : Session σ} (reached : s.Reachable) : s.vm.running = false :=
  Reachable.induction (P := fun s => s.vm.running = false) (fun _ _ _ => rfl) running_perform
    reached

end Session

/-- **The invariant of all sessions.**  It bounds the call stack, the program counter and the
return addresses; no run is going on between two calls; and a machine that waits for a key has
shown its frame and stands behind the instruction `Fr0A`.  So moving past an instruction and
skipping the next never wrap, and the address of the instruction that is executed is found below
the program counter.  That the stack has sixteen slots and a register is one of sixteen is in the
types of a session; the checked virtual machine, where both are plain numbers, keeps the bounds by
what it does. -/
theorem session_invariant {s : Session σ} (reached : s.Reachable) :
    s.vm.machine.stack.depth ≤ 16 ∧
    s.vm.machine.pc.toNat ≤ 0x10FE ∧
    (s.vm.machine.advance.skipIf true).pc.toNat = s.vm.machine.pc.toNat + 2 + 2 ∧
    (∀ op, s.vm.machine.fetch? = some op →
      s.vm.machine.advance.currentAddress.toNat + 2 = s.vm.machine.advance.pc.toNat) ∧
    (∀ a ∈ s.vm.machine.stack.toList, 0x0002 ≤ a.toNat ∧ a.toNat ≤ 0x1000) ∧
    s.vm.running = false ∧
    (∀ r, s.vm.mode = .awaitingKey r →
      r.val ≤ 15 ∧ s.vm.machine.dirty = false ∧
      0x0002 ≤ s.vm.machine.pc.toNat ∧ s.vm.machine.pc.toNat ≤ 0x1000 ∧
      (Opcode.ofBytes (s.vm.machine.memory.get (s.vm.machine.pc.toNat - 2))
        (s.vm.machine.memory.get (s.vm.machine.pc.toNat - 1))).toNat = 0xF00A + r.val * 0x100) ∧
    (∃ rig : Checked.Rig σ, rig.Reachable ∧ rig.view = s) ∧
    ∀ rig : Checked.Rig σ, rig.Reachable → rig.view = s →
      rig.bench.store.sp ≤ 16 ∧
      (∀ a ∈ rig.bench.store.slots.toList.take rig.bench.store.sp,
        0x0002 ≤ a.toNat ∧ a.toNat ≤ 0x1000) ∧
      ∀ register, rig.stage = .awaitingKey register → register.toNat ≤ 15 := by
  have inOrder := Session.inOrder_of_reachable reached
  have bound := inOrder.pc_le
  refine ⟨s.vm.machine.stack.length_le, bound, ?_, ?_, ?_, Session.running_of_reachable reached,
    ?_, Checked.Rig.exists_rig_of_reachable reached, ?_⟩
  · change (s.vm.machine.pc + 2 + 2).toNat = s.vm.machine.pc.toNat + 2 + 2
    rw [UInt16.toNat_add, UInt16.toNat_add, show (2 : UInt16).toNat = 2 from rfl]
    omega
  · intro op fetched
    rw [Machine.currentAddress_advance]
    exact (Machine.pc_advance_of_fetch? fetched).1.symm
  · intro a mem
    exact inOrder.returns_mem a (List.mem_reverse.1 mem)
  · intro r awaiting
    obtain ⟨clean, low, high, standing⟩ := inOrder.waiting r awaiting
    refine ⟨Nat.le_of_lt_succ r.isLt, clean, low, high, ?_⟩
    have below : (s.vm.machine.pc - 2).toNat = s.vm.machine.pc.toNat - 2 :=
      UInt16.toNat_sub_of_le _ _ (UInt16.le_iff_toNat_le.2 low)
    have standing' := (Machine.fetch?_eq_some_iff { s.vm.machine with pc := s.vm.machine.pc - 2 }).1
      standing
    have next : s.vm.machine.pc.toNat - 2 + 1 = s.vm.machine.pc.toNat - 1 := by omega
    simp only [below, next] at standing'
    rw [← standing'.2, Instr.encode, Instr.toNat_formXnn (by decide),
      show (0x0A : UInt8).toNat = 0x0A from rfl]
    omega
  · rintro rig lifted rfl
    have sound := Checked.Rig.sound_of_reachable lifted
    refine ⟨sound.store, ?_, ?_⟩
    · intro a mem
      exact inOrder.returns_mem a (List.mem_reverse.2 mem)
    · intro register awaiting
      have below := sound.stage
      rw [awaiting] at below
      exact Nat.le_of_lt_succ below

/-- A machine that executes `F30A` waits for a key behind that instruction. -/
theorem session_invariant_waiting :
    let s := ((Session.start { seed := 0 } (.ofSeed 0) ({} : Console)).load [0xF3, 0x0A]).2
    let t := (s.cycle (Script.host { millis := fun _ => 0.0 })).2
    t.Reachable ∧ t.vm.mode = .awaitingKey 3 ∧ t.vm.machine.dirty = false ∧
      (Opcode.ofBytes (t.vm.machine.memory.get (t.vm.machine.pc.toNat - 2))
        (t.vm.machine.memory.get (t.vm.machine.pc.toNat - 1))).toNat = 0xF30A := by
  intro s t
  have reached : t.Reachable :=
    ⟨{ seed := 0 }, .ofSeed 0, {},
      [.load [0xF3, 0x0A], .cycle (Script.host { millis := fun _ => 0.0 })], rfl⟩
  have decoded : Instr.decode 0xF30A = .ok (.awaitKey 3) := rfl
  have fetched : s.vm.machine.fetch? = some 0xF30A :=
    Machine.fetch?_withProgram (.initial (.ofSeed 0)) 0xF3 0x0A []
  have fetching : s.vm.mode = .fetching := rfl
  have awaiting : t.vm.mode = .awaitingKey 3 := by
    simp only [t, Session.cycle, Session.work, fetching, Session.step, fetched, Machine.execute,
      decoded, Instr.readsKey, Instr.exec]
    exact (Session.passTime_mode ..).trans (by rw [Session.present_vm]; rfl)
  obtain ⟨-, -, -, -, -, -, waiting, -⟩ := session_invariant reached
  obtain ⟨-, clean, -, -, standing⟩ := waiting 3 awaiting
  exact ⟨reached, awaiting, clean, standing⟩

end ChipEight
