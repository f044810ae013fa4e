import ChipEight.Proofs.Stores
import ChipEight.Proofs.StraightLines
/-!
# Spill and fill

Registers that are written to memory and read back from the same place are what they were, however
long the code in between and whatever it does, as long as it writes none of these bytes
(`spill_and_fill`).  The code in between is a `Machine.Interlude`; the turns of a virtual machine
are one, with their faults and their waits for keys.
-/

namespace ChipEight

variable {σ : Type}

/-- The opcode writes `length` bytes at `I`: it is `Fx33` or `Fx55`. -/
def Opcode.Stores (op : Opcode) (length : Nat) : Prop :=
  family op = 0xF ∧ (nn op = 0x33 ∧ length = 3 ∨ nn op = 0x55 ∧ length = (x op).val + 1)

namespace Machine

/-- The bytes that the opcode writes on this machine, if any, are apart from the `length` bytes
from `start` on. -/
def Spares (m : Machine) (op : Opcode) (start length : Nat) : Prop :=
  ∀ written, op.Stores written →
    m.index.toNat + written ≤ start ∨ start + length ≤ m.index.toNat

/-- Code that spares the `length` bytes from `start` on.  Before, between and after its
instructions anything may happen that leaves memory alone. -/
inductive Interlude (start length : Nat) : Machine → Machine → Prop where
  | quiet {m m' : Machine} (same : m'.memory = m.memory) : Interlude start length m m'
  | executed {τ : Type} (h : Host τ) (w : World τ) (op : Opcode) {flow : Flow}
      {m u v m' : Machine} (same : u.memory = m.memory) (spares : u.Spares op start length)
      (done : (u.execute h op w).1 = .ok (flow, v)) (later : Interlude start length v m') :
      Interlude start length m m'

end Machine

/-! ### The bytes in between -/

namespace Instr

/-- What an instruction writes lies among the bytes that its opcode names. -/
theorem stores_of_writes {m : Machine} {i : Instr} {a : Nat} {b : UInt8}
    (writes : i.Writes m a b) :
    ∃ length, (encode i).Stores length ∧ m.index.toNat ≤ a ∧ a < m.index.toNat + length := by
  have family {x : Register} {b : UInt8} : (formXnn 0xF x b).family = 0xF :=
    family_formXnn (by decide) x b
  have nn {x : Register} {b : UInt8} : (formXnn 0xF x b).nn = b := nn_formXnn (by decide) x b
  cases writes with
  | hundreds x | tens x | units x => exact ⟨3, ⟨family, .inl ⟨nn, rfl⟩⟩, by omega, by omega⟩
  | @register x y within =>
    have length : (formXnn 0xF x 0x55).x.val + 1 = x.val + 1 := by rw [x_formXnn (by decide)]
    have le : y.val ≤ x.val := within
    exact ⟨x.val + 1, ⟨family, .inr ⟨nn, length.symm⟩⟩, by omega, by omega⟩

end Instr

namespace Machine

variable {m m' u v : Machine} {start length a : Nat}

theorem get_of_spares {h : Host σ} {op : Opcode} {w : World σ} {flow : Flow}
    (done : (m.execute h op w).1 = .ok (flow, m')) (spares : m.Spares op start length)
    (within : start ≤ a ∧ a < start + length) : m'.memory.get a = m.memory.get a := by
  obtain ⟨i, key, decoded, effect⟩ := exec_of_execute done
  refine Instr.get_of_no_writes effect ?_
  intro b writes
  obtain ⟨written, stores, low, high⟩ := Instr.stores_of_writes writes
  rw [Instr.encode_of_decode decoded] at stores
  rcases spares written stores with before | after
  · omega
  · omega

/-- The bytes that code spares stay as they are. -/
theorem Interlude.get (between : m.Interlude start length m')
    (within : start ≤ a ∧ a < start + length) : m'.memory.get a = m.memory.get a := by
  induction between with
  | quiet same => rw [same]
  | executed h w op same spares done later ih => rw [ih, get_of_spares done spares within, same]

theorem Interlude.of_memory_eq (same : u.memory = m.memory)
    (between : u.Interlude start length m') : m.Interlude start length m' := by
  cases between with
  | quiet last => exact .quiet (last.trans same)
  | executed h w op first spares done later =>
    exact .executed h w op (first.trans same) spares done later

theorem Interlude.trans_memory_eq (between : m.Interlude start length u)
    (same : m'.memory = u.memory) : m.Interlude start length m' := by
  induction between with
  | quiet first => exact .quiet (same.trans first)
  | executed h w op first spares done later ih => exact .executed h w op first spares done (ih same)

/-! ### Spilling and filling -/

theorem reg_fillRegs (m : Machine) (x y : Register) : (m.fillRegs x).reg y =
    if y ≤ x then m.memory.get (m.index.toNat + y.val) else m.reg y := by
  simp [reg, fillRegs]

theorem fillRegs_memory (m : Machine) (x : Register) : (m.fillRegs x).memory = m.memory := by
  simp only [fillRegs]

theorem fillRegs_index (m : Machine) (x : Register) : (m.fillRegs x).index = m.index := by
  simp only [fillRegs]

variable {key key' : Option Key} {x : Register} {flow flow' : Flow}

theorem eq_of_exec_fill (effect : (Instr.fill x).exec key m = .ok (flow, m')) :
    m' = m.fillRegs x := by
  simp only [Instr.exec] at effect
  split at effect <;> cases effect
  rfl

/-- What was spilled is filled in again. -/
theorem reg_of_spill_of_fill (spill : (Instr.store x).exec key m = .ok (flow, u))
    (between : u.Interlude m.index.toNat (x.val + 1) v) (index : v.index = m.index)
    (fill : (Instr.fill x).exec key' v = .ok (flow', m')) (y : Register) :
    m'.reg y = if y ≤ x then m.reg y else v.reg y := by
  rw [eq_of_exec_fill fill, reg_fillRegs, index]
  by_cases within : y ≤ x
  · have le : y.val ≤ x.val := within
    have placed : u.memory.get (m.index.toNat + y.val) = m.reg y :=
      Instr.get_of_writes spill (.register within)
    have kept := between.get (a := m.index.toNat + y.val) ⟨by omega, by omega⟩
    rw [if_pos within, if_pos within, kept, placed]
  · rw [if_neg within, if_neg within]

end Machine

theorem Memory.eq_of_get {m m' : Memory} (same : ∀ a, m.get a = m'.get a) : m = m' := by
  obtain ⟨cells⟩ := m
  obtain ⟨cells'⟩ := m'
  congr
  apply Vector.ext
  intro a lt
  have byte := same a
  simp only [get, lt, dif_pos] at byte
  exact byte

/-- Bytes that are written over themselves change nothing. -/
theorem Memory.write_of_get {m : Memory} {start : Nat} {bs : List UInt8}
    (same : ∀ k b, bs[k]? = some b → m.get (start + k) = b) : m.write start bs = m := by
  apply eq_of_get
  intro a
  rw [get_write]
  split
  · rename_i place
    cases found : bs[a - start]? with
    | none => rfl
    | some b =>
      have byte := same _ b found
      rw [show start + (a - start) = a by omega] at byte
      exact byte.symm
  · rfl

namespace Machine

variable {m u : Machine} {x : Register}

/-- What was filled in is spilled to where it came from: nothing changes. -/
theorem exec_store_of_fillRegs (memory : u.memory = (m.fillRegs x).memory)
    (registers : u.registers = (m.fillRegs x).registers)
    (index : u.index = (m.fillRegs x).index) (reach : m.InReach (x.val + 1)) (key : Option Key) :
    (Instr.store x).exec key u = .ok (.next, u) := by
  rw [fillRegs_memory] at memory
  rw [fillRegs_index] at index
  have reach' : u.InReach (x.val + 1) := by
    rw [InReach, index]
    exact reach
  have same : u.memory.write u.index.toNat (u.regsUpTo x) = u.memory := by
    apply Memory.write_of_get
    intro k b found
    obtain ⟨y, within, rfl, rfl⟩ := (Instr.getElem?_regsUpTo u x k b).1 found
    have filled : u.reg y = (m.fillRegs x).reg y := by rw [reg, registers, reg]
    rw [filled, reg_fillRegs, if_pos within, memory, index]
  rw [Instr.exec, if_pos reach', writeAtIndex, same]

end Machine

/-! ### Turns -/

namespace Turn

/-- The turns between two others are an interlude, if the code that they execute is. -/
theorem interlude_of_chain {start length : Nat} {turn last : Turn σ} {between : List (Turn σ)}
    (chain : (turn :: (between ++ [last])).IsChain LeadsTo)
    (spares : ∀ t ∈ between, ∀ e, t.executed? = some e →
      t.session.vm.machine.Spares (Instr.encode e.instr) start length) :
    turn.after.vm.machine.Interlude start length last.session.vm.machine := by
  induction between generalizing turn with
  | nil =>
    obtain ⟨running, same⟩ := (List.isChain_cons.1 chain).1 last rfl
    refine .quiet ?_
    rw [same]
  | cons next rest ih =>
    obtain ⟨leads, chain⟩ := List.isChain_cons.1 chain
    obtain ⟨running, same⟩ := leads next rfl
    have memory : next.session.vm.machine.memory = turn.after.vm.machine.memory := by rw [same]
    have later := ih chain fun t mem => spares t (List.mem_cons_of_mem _ mem)
    -- A turn is one instruction of the interlude, or it leaves memory alone.
    cases did : next.executed? with
    | none =>
      refine later.of_memory_eq ?_
      rw [← memory]
      refine memory_after_of_no_store ?_
      intro e did'
      rw [did] at did'
      cases did'
    | some e =>
      obtain ⟨flow, m, delay, sound, done, after⟩ := execute_of_executed? did
      have apart : next.session.vm.machine.advance.Spares (Instr.encode e.instr) start length :=
        spares next (List.mem_cons_self ..) e did
      have later' : m.Interlude start length last.session.vm.machine := by
        refine later.of_memory_eq ?_
        rw [after]
      exact .executed (u := next.session.vm.machine.advance) _ _ _ memory apart done later'

/-- Registers that a turn spills come back with the turn that fills them in. -/
theorem reg_of_spill_of_fill {first last : Turn σ} {between : List (Turn σ)} {pc pc' : Address}
    {x : Register} (chain : (first :: (between ++ [last])).IsChain LeadsTo)
    (spills : first.executed? = some ⟨pc, .store x⟩)
    (fills : last.executed? = some ⟨pc', .fill x⟩)
    (index : last.session.vm.machine.index = first.session.vm.machine.index)
    (spares : ∀ t ∈ between, ∀ e, t.executed? = some e →
      t.session.vm.machine.Spares (Instr.encode e.instr)
        first.session.vm.machine.index.toNat (x.val + 1)) (y : Register) :
    last.after.vm.machine.reg y =
      if y ≤ x then first.session.vm.machine.reg y else last.session.vm.machine.reg y := by
  obtain ⟨_, spilled, _, _, _, spill, after⟩ := effect_of_executed? spills
  obtain ⟨_, filled, _, _, _, fill, after'⟩ := effect_of_executed? fills
  have code := interlude_of_chain chain spares
  have between : spilled.Interlude first.session.vm.machine.index.toNat (x.val + 1)
      last.session.vm.machine.advance := by
    refine Machine.Interlude.of_memory_eq ?_ (code.trans_memory_eq rfl)
    rw [after]
  rw [after']
  exact Machine.reg_of_spill_of_fill spill between index fill y

end Turn

/-! ### Opcodes -/

namespace Instr

variable {m : Machine} {x : Register}

theorem decode_of_store {op : Opcode} (family : op.family = 0xF) (nn : op.nn = 0x55) :
    decode op = .ok (.store op.x) := by
  simp [decode, family, nn, decodeDevice]

theorem decode_of_fill {op : Opcode} (family : op.family = 0xF) (nn : op.nn = 0x65) :
    decode op = .ok (.fill op.x) := by
  simp [decode, family, nn, decodeDevice]

theorem exec_store_of_inReach (key : Option Key) (reach : m.InReach (x.val + 1)) :
    (store x).exec key m = .ok (.next, m.writeAtIndex (m.regsUpTo x)) := by
  rw [exec, if_pos reach]

theorem exec_fill_of_inReach (key : Option Key) (reach : m.InReach (x.val + 1)) :
    (fill x).exec key m = .ok (.next, m.fillRegs x) := by
  rw [exec, if_pos reach]

end Instr

/-- **Spill and fill.**  On any machine on which the bytes are in reach, `Fx55` is executed; if then
any code follows that spares these bytes, and `I` is the same again, `Fx65` with the same `x` is
executed, `V0` to `Vx` become what they were at `Fx55`, and the other registers stay.  So it is with
the turns that calls take without restarting the machine, where faults, waits for keys and the
counting of timers come in between.  And if `Fx55` follows `Fx65`, with the same `x` and `I`, it
changes nothing. -/
theorem spill_and_fill :
    (∀ (h : Host σ) (op : Opcode) (m : Machine) (w : World σ),
      op.family = 0xF → op.nn = 0x55 → m.index.toNat + op.x.val < 4096 →
        ∃ spilled, (m.execute h op w).1 = .ok (.next, spilled) ∧
          ∀ u : Machine, spilled.Interlude m.index.toNat (op.x.val + 1) u → u.index = m.index →
            ∀ (h' : Host σ) (op' : Opcode) (w' : World σ),
              op'.family = 0xF → op'.nn = 0x65 → op'.x = op.x →
                ∃ filled, (u.execute h' op' w').1 = .ok (.next, filled) ∧
                  ∀ y, filled.reg y = if y ≤ op.x then m.reg y else u.reg y) ∧
    (∀ (s : Session σ) (calls : List (Call σ)) (first last : Turn σ) (between : List (Turn σ))
      (pc pc' : Address) (x : Register), (∀ c ∈ calls, c.restarts = false) →
        first :: (between ++ [last]) <:+: s.turns calls →
        first.executed? = some ⟨pc, .store x⟩ → last.executed? = some ⟨pc', .fill x⟩ →
        last.session.vm.machine.index = first.session.vm.machine.index →
        (∀ turn ∈ between, ∀ e, turn.executed? = some e →
          turn.session.vm.machine.Spares (Instr.encode e.instr)
            first.session.vm.machine.index.toNat (x.val + 1)) →
          ∀ y, last.after.vm.machine.reg y =
            if y ≤ x then first.session.vm.machine.reg y else last.session.vm.machine.reg y) ∧
    ∀ (h : Host σ) (op : Opcode) (m : Machine) (w : World σ),
      op.family = 0xF → op.nn = 0x65 → m.index.toNat + op.x.val < 4096 →
        ∃ filled, (m.execute h op w).1 = .ok (.next, filled) ∧
          ∀ u : Machine, u.memory = filled.memory → u.registers = filled.registers →
            u.index = filled.index → ∀ (h' : Host σ) (op' : Opcode) (w' : World σ),
              op'.family = 0xF → op'.nn = 0x55 → op'.x = op.x →
                (u.execute h' op' w').1 = .ok (.next, u) := by
  refine ⟨?_, ?_, ?_⟩
  · intro h op m w family nn within
    have reach : m.InReach (op.x.val + 1) := Machine.inReach_iff.2 (.inr (by omega))
    have spill (key : Option Key) := Instr.exec_store_of_inReach key reach
    have spilled := Machine.execute_within h w (Instr.decode_of_store family nn) spill
    refine ⟨_, spilled.1, ?_⟩
    intro u between index h' op' w' family' nn' x
    have reach' : u.InReach (op.x.val + 1) := by
      rw [Machine.InReach, index]
      exact reach
    have fill (key : Option Key) := Instr.exec_fill_of_inReach key reach'
    have filled := Machine.execute_within h' w' (x ▸ Instr.decode_of_fill family' nn') fill
    refine ⟨_, filled.1, ?_⟩
    exact Machine.reg_of_spill_of_fill (spill none) between index (fill none)
  · intro s calls first last between pc pc' x keep among spills fills index spares
    have whole := Session.isChain_turns keep (s := s)
    obtain ⟨earlier, later, parts⟩ := among
    rw [← parts] at whole
    have chain := whole.left_of_append.right_of_append
    exact Turn.reg_of_spill_of_fill chain spills fills index spares
  · intro h op m w family nn within
    have reach : m.InReach (op.x.val + 1) := Machine.inReach_iff.2 (.inr (by omega))
    have fill (key : Option Key) := Instr.exec_fill_of_inReach key reach
    have filled := Machine.execute_within h w (Instr.decode_of_fill family nn) fill
    refine ⟨_, filled.1, ?_⟩
    intro u memory registers index h' op' w' family' nn' x
    have spill := Machine.exec_store_of_fillRegs memory registers index reach
    exact (Machine.execute_within h' w' (x ▸ Instr.decode_of_store family' nn') spill).1

/-- The program `F055 F065` spills `V0` in one turn and fills it in with the next. -/
theorem Session.turns_of_spill_and_fill (h : Host σ) {config : Config} {stream : Random}
    {devices : σ} {s : Session σ}
    (loaded : s = ((start config stream devices).load [0xF0, 0x55, 0xF0, 0x65]).2) :
    (Turn.mk h s).executed? = some ⟨0x200, .store 0⟩ ∧
      (Turn.mk h (s.cycle h).2).executed? = some ⟨0x202, .fill 0⟩ ∧
      (s.cycle h).2.vm.machine.index = s.vm.machine.index := by
  subst loaded
  let s := ((start config stream devices).load [0xF0, 0x55, 0xF0, 0x65]).2
  have memory : s.vm.machine.memory = Memory.initial.write 512 [0xF0, 0x55, 0xF0, 0x65] := rfl
  have fetched : s.vm.machine.fetch? = some (Instr.encode (.store 0)) :=
    Machine.fetch?_withProgram (.initial stream) 0xF0 0x55 [0xF0, 0x65]
  have reach : s.vm.machine.advance.InReach ((0 : Register).val + 1) :=
    .inr (show 0 + 1 ≤ 4096 by decide)
  have spill (key : Option Key) := Instr.exec_store_of_inReach key reach
  obtain ⟨spills, mode, delay, sound, after⟩ := Turn.after_of_exec ⟨h, s⟩ rfl fetched spill
  change (s.cycle h).2.vm.mode = .fetching at mode
  change (s.cycle h).2.vm.machine = _ at after
  have pc : (s.cycle h).2.vm.machine.pc = 0x202 := by
    rw [after]
    rfl
  have index : (s.cycle h).2.vm.machine.index = 0 := by
    rw [after]
    rfl
  have kept (a : Nat) (beyond : 0 < a) :
      (s.cycle h).2.vm.machine.memory.get a = s.vm.machine.memory.get a := by
    have elsewhere : ∀ b, ¬(Instr.store 0).Writes s.vm.machine.advance a b := by
      intro b writes
      obtain ⟨length, ⟨-, ⟨digits, -⟩ | ⟨-, rfl⟩⟩, -, high⟩ := Instr.stores_of_writes writes
      · exact absurd digits (by decide)
      · have only : a < 0 + 1 := high
        omega
    have same := Instr.get_of_no_writes (spill none) elsewhere
    rw [after]
    exact same
  have fetched' : (s.cycle h).2.vm.machine.fetch? = some (Instr.encode (.fill 0)) := by
    refine (Machine.fetch?_eq_some_iff _).2 ⟨by rw [pc]; decide, ?_⟩
    rw [pc, kept _ (by decide), kept _ (by decide), memory, Memory.get_write, Memory.get_write]
    rfl
  have reach' : (s.cycle h).2.vm.machine.advance.InReach ((0 : Register).val + 1) := by
    refine .inr ?_
    change (s.cycle h).2.vm.machine.index.toNat + 1 ≤ 4096
    rw [index]
    decide
  have fill (key : Option Key) := Instr.exec_fill_of_inReach key reach'
  obtain ⟨fills, -⟩ := Turn.after_of_exec ⟨h, (s.cycle h).2⟩ mode fetched' fill
  exact ⟨spills, pc ▸ fills, index.trans rfl⟩

/-- Two registers are spilled to `300` and `301` and come back, although `F033` writes the three
bytes behind and `60FF` overwrites one of them.  Where they were filled in, nothing is left to
spill.  The program `F055 F065` spills and fills in two turns. -/
theorem spill_and_fill_next_door :
    let h := Script.host { millis := fun _ => 0.0 }
    let w : World Console := { devices := {} }
    let m := (((Machine.initial (.ofSeed 0)).pointAt 0x300).setReg 0 7).setReg 1 9
    let s := ((Session.start { seed := 0 } (.ofSeed 0) ({} : Console)).load
      [0xF0, 0x55, 0xF0, 0x65]).2
    (∃ spilled u filled, (m.execute h 0xF155 w).1 = .ok (.next, spilled) ∧
      spilled.Interlude 0x300 2 u ∧ u.reg 0 = 0xFF ∧
      (u.execute h 0xF165 w).1 = .ok (.next, filled) ∧ filled.reg 0 = 7 ∧ filled.reg 1 = 9) ∧
    (∃ filled, (m.execute h 0xF165 w).1 = .ok (.next, filled) ∧
      (filled.execute h 0xF155 w).1 = .ok (.next, filled)) ∧
    ((s.cycle h).2.cycle h).2.vm.machine.reg 0 = 0 := by
  intro h w m s
  obtain ⟨spills, turns, fills⟩ := spill_and_fill (σ := Console)
  refine ⟨?_, ?_, ?_⟩
  · obtain ⟨spilled, done, back⟩ := spills h 0xF155 m w rfl rfl (by decide)
    let there := spilled.pointAt 0x302
    let written := there.writeAtIndex (Machine.decimalDigits (there.reg 0))
    let u := (written.setReg 0 0xFF).pointAt 0x300
    have decimal : (there.execute h 0xF033 w).1 = .ok (.next, written) := by
      have reach : there.InReach 3 := .inr (show 0x302 + 3 ≤ 4096 by decide)
      refine (Machine.execute_within h (i := .decimal 0) w rfl fun key => ?_).1
      rw [Instr.exec, if_pos reach]
    have other {v : Machine} {op : Opcode} (family : op.family ≠ 0xF) : v.Spares op 0x300 2 :=
      fun _ stores => absurd stores.1 family
    have behind : there.Spares 0xF033 0x300 2 := fun _ _ => .inr (show 0x302 ≤ 0x302 by decide)
    have code : spilled.Interlude 0x300 2 u :=
      .executed h w 0xA302 rfl (other (by decide)) rfl
        (.executed h w 0xF033 rfl behind decimal
          (.executed h w 0x60FF rfl (other (by decide)) rfl
            (.executed h w 0xA300 rfl (other (by decide)) rfl (.quiet rfl))))
    obtain ⟨filled, done', regs⟩ := back u code rfl h 0xF165 w rfl rfl rfl
    have first : filled.reg 0 = 7 := regs 0
    have second : filled.reg 1 = 9 := regs 1
    have overwritten : u.reg 0 = 0xFF := by
      change (written.setReg 0 0xFF).reg 0 = 0xFF
      rw [Machine.reg_setReg, if_pos rfl]
    exact ⟨spilled, u, filled, done, code, overwritten, done', first, second⟩
  · obtain ⟨filled, done, same⟩ := fills h 0xF165 m w rfl rfl (by decide)
    exact ⟨filled, done, same filled rfl rfl rfl h 0xF155 w rfl rfl rfl⟩
  · obtain ⟨spills, fills, index⟩ := Session.turns_of_spill_and_fill h (s := s) rfl
    have keep : ∀ c ∈ [Call.cycle h, Call.cycle h], c.restarts = false := by simp [Call.restarts]
    have two (s : Session Console) :
        ⟨h, s⟩ :: ([] ++ [⟨h, (s.cycle h).2⟩]) <:+: s.turns [.cycle h, .cycle h] := List.infix_rfl
    have back := turns s _ _ _ [] _ _ 0 keep (two s) spills fills index
      (fun _ mem => absurd mem List.not_mem_nil) 0
    rw [if_pos (Fin.le_refl 0)] at back
    exact back

end ChipEight
