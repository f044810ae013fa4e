import ChipEight.Proofs.Checked.Dispatch
import ChipEight.Proofs.Execution
import ChipEight.Proofs.Sprites
/-!
# The effects of checked instructions

On a store whose stack is in order no check of an instruction fails.  The instruction leads to a
store that stands for the machine that `Instr.exec` gives, or it fails as `Instr.exec` does and
leaves the store as it is: `Bench.effect_agrees`.
-/

namespace ChipEight.Checked

open Program

namespace Bench

variable {σ : Type}

/-- An instruction on a bench has come out as it does on the machine, in the given world. -/
def Agrees (op : Opcode) (b : Bench σ) (w : World σ) (o : Outcome (Bench σ) Notice) :
    Except Cause (Flow × Machine) → Prop
  | .ok (flow, m) => ∃ st : Store, o = .done (.ofFlow flow) ⟨st, w⟩ ∧ st.Sound ∧ st.view = m
  | .error cause => o = .fault (.instruction cause (b.store.pc - 2) op) ⟨b.store, w⟩

/-! ### Registers and the program counter -/

theorem run_assign (x : Register) (value : UInt8) (b : Bench σ) :
    (assign x.val value).run b =
      .done .next { b with
        store := { b.store with registers := b.store.registers.set x.val value x.isLt } } := by
  simp only [assign, run_bind, run_setReg, Outcome.andThen_done, run_pure]

theorem run_assignFlagged (x : Register) (result : Alu.Result) (b : Bench σ) :
    (assignFlagged x.val result).run b =
      .done .next { b with store := { b.store with
        registers := (b.store.registers.set x.val result.value x.isLt).set flagRegister.val
          result.flag.toUInt8 flagRegister.isLt } } := by
  simp only [assignFlagged, run_bind, run_setReg, Outcome.andThen_done, run_pure]

theorem run_skipIf (test : Bool) (b : Bench σ) :
    (skipIf test).run b = .done .next
      { b with store := if test then { b.store with pc := b.store.pc + 2 } else b.store } := by
  cases test <;> rfl

theorem sound_skipped {st : Store} (sound : st.Sound) (test : Bool) :
    (if test then { st with pc := st.pc + 2 } else st : Store).Sound := by
  cases test <;> exact sound

theorem view_skipped (st : Store) (test : Bool) :
    (if test then { st with pc := st.pc + 2 } else st : Store).view = st.view.skipIf test := by
  cases test <;> rfl

theorem skipIf_agrees (op : Opcode) {b : Bench σ} (sound : b.store.Sound) (test : Bool) :
    Agrees op b b.world ((skipIf test).run b) (.ok (.next, b.store.view.skipIf test)) :=
  ⟨_, run_skipIf test b, sound_skipped sound test, view_skipped b.store test⟩

theorem run_poll (h : Host σ) (b : Bench σ) :
    (poll h).run b = .done (b.world.poll h).1 { b with world := (b.world.poll h).2 } := rfl

/-! ### Bytes at `I` -/

theorem run_checkedRange (op : Opcode) {length : Nat} (pos : 0 < length) (small : length ≤ 16)
    (b : Bench σ) :
    (checkedRange op length).run b =
      if b.store.view.InReach length then .done b.store.index.toNat b
      else .fault (.instruction (b.store.view.beyondReach length) (b.store.pc - 2) op) b := by
  have start := b.store.index.toNat_lt
  have reach : b.store.view.InReach length ↔ ¬4096 < b.store.index.toNat + length := by
    simp only [Machine.inReach_iff, Store.view]
    omega
  simp (disch := omega) only [checkedRange, run_bind, run_get, Outcome.andThen_done, run_add, reach]
  by_cases beyond : 4096 < b.store.index.toNat + length
  · simp (disch := omega) only [beyond, not_true_eq_false, if_true, if_false, run_bind, run_refuse,
      run_sub, Outcome.andThen_done]
    rfl
  · simp only [beyond, not_false_eq_true, if_true, if_false, run_pure]

theorem run_setByte {a : Nat} (within : a < 4096) (value : UInt8) (b : Bench σ) :
    (setByte a value).run b = .done () { b with store := { b.store with
      memory := ((Memory.mk b.store.memory).set a value).cells } } := by
  have same : b.store.memory.set a value = ((Memory.mk b.store.memory).set a value).cells := by
    apply Vector.ext
    intro i bound
    rw [Memory.set, Vector.getElem_set, Vector.getElem_setIfInBounds]
  simp only [setByte, run_bind, run_get, Outcome.andThen_done, run_replace _ within, run_update,
    same]

theorem overwrite_eq_write (v : Vector UInt8 4096) (first : Nat) (bs : List UInt8) :
    overwrite v first bs = ((Memory.mk v).write first bs).cells := by
  induction bs generalizing v first with
  | nil => rfl
  | cons b bs ih => rw [overwrite, Memory.write, ih]; rfl

theorem slice_eq_read (v : Vector UInt8 4096) {first length : Nat}
    (within : first + length ≤ 4096) :
    (v.toList.take (first + length)).drop first = (Memory.mk v).read first length := by
  apply List.ext_getElem
  · simp only [List.length_drop, List.length_take, Vector.length_toList, Memory.length_read]
    omega
  · intro k bound bound'
    rw [Memory.length_read] at bound'
    simp only [List.getElem_drop, List.getElem_take, Vector.getElem_toList, Memory.read,
      List.getElem_map, List.getElem_range, Memory.get]
    have place : first + k < 4096 := by omega
    rw [dif_pos place]

theorem writeDecimal_agrees (op : Opcode) (x : Register) (key : Option Key) {b : Bench σ}
    (sound : b.store.Sound) :
    Agrees op b b.world ((writeDecimal op x.val).run b)
      (Instr.exec key b.store.view (.decimal x)) := by
  simp only [writeDecimal, run_bind, run_checkedRange op (show 0 < 3 by decide) (by decide),
    Instr.exec]
  by_cases reach : b.store.view.InReach 3
  · have within : b.store.index.toNat + 3 ≤ 4096 := by
      simpa [Machine.inReach_iff, Store.view] using reach
    rw [if_pos reach, if_pos reach]
    refine ⟨{ b.store with memory := (b.store.view.memory.write b.store.index.toNat
      (Machine.decimalDigits (b.store.view.reg x))).cells }, ?_, sound.of_sp_eq rfl,
      Store.view_memory ..⟩
    simp (disch := omega) only [Outcome.andThen_done, run_reg, run_pure, run_add, run_setByte]
    rfl
  · rw [if_neg reach, if_neg reach]
    rfl

theorem storeRegisters_agrees (op : Opcode) (x : Register) (key : Option Key) {b : Bench σ}
    (sound : b.store.Sound) :
    Agrees op b b.world ((storeRegisters op x.val).run b)
      (Instr.exec key b.store.view (.store x)) := by
  have := x.isLt
  simp (disch := omega) only [storeRegisters, run_bind, run_add, Outcome.andThen_done,
    run_checkedRange op (Nat.succ_pos x.val) x.isLt, Instr.exec]
  by_cases reach : b.store.view.InReach (x.val + 1)
  · have within : b.store.index.toNat + (x.val + 1) ≤ 4096 := by
      simpa [Machine.inReach_iff, Store.view] using reach
    rw [if_pos reach, if_pos reach]
    refine ⟨{ b.store with memory := (b.store.view.memory.write b.store.index.toNat
      (b.store.view.regsUpTo x)).cells }, ?_, sound.of_sp_eq rfl,
      Store.view_memory ..⟩
    have length : (b.store.view.regsUpTo x).length =
        b.store.index.toNat + x.val + 1 - b.store.index.toNat := by
      simp only [Machine.regsUpTo, List.length_take, Vector.length_toList]
      omega
    simp (disch := omega) only [Outcome.andThen_done, run_get, run_update, run_pure, run_add,
      run_slice b.store.registers (Nat.zero_le _) x.isLt, List.drop_zero]
    rw [show b.store.registers.toList.take (x.val + 1) = b.store.view.regsUpTo x from rfl,
      run_copy _ (by omega) (by omega) length, overwrite_eq_write]
    rfl
  · rw [if_neg reach, if_neg reach]
    rfl

theorem overwrite_eq_fillRegs (st : Store) (x : Register) :
    overwrite st.registers 0 (st.view.memory.read st.index.toNat (x.val + 1)) =
      (st.view.fillRegs x).registers := by
  apply Vector.ext
  intro i bound
  rw [getElem_overwrite, if_pos (Nat.zero_le i), Nat.sub_zero]
  simp only [Machine.fillRegs, Vector.getElem_ofFn, Fin.le_def]
  by_cases up : i ≤ x.val
  · rw [if_pos up, Memory.read, List.getElem?_map, List.getElem?_range (by omega)]
    rfl
  · rw [if_neg up, List.getElem?_eq_none (by rw [Memory.length_read]; omega)]
    rfl

theorem fillRegisters_agrees (op : Opcode) (x : Register) (key : Option Key) {b : Bench σ}
    (sound : b.store.Sound) :
    Agrees op b b.world ((fillRegisters op x.val).run b)
      (Instr.exec key b.store.view (.fill x)) := by
  have := x.isLt
  simp (disch := omega) only [fillRegisters, run_bind, run_add, Outcome.andThen_done,
    run_checkedRange op (Nat.succ_pos x.val) x.isLt, Instr.exec]
  by_cases reach : b.store.view.InReach (x.val + 1)
  · have within : b.store.index.toNat + (x.val + 1) ≤ 4096 := by
      simpa [Machine.inReach_iff, Store.view] using reach
    rw [if_pos reach, if_pos reach]
    refine ⟨{ b.store with registers := (b.store.view.fillRegs x).registers }, ?_,
      sound.of_sp_eq rfl, ?_⟩
    · have source : (b.store.memory.toList.take (b.store.index.toNat + x.val + 1)).drop
          b.store.index.toNat = b.store.view.memory.read b.store.index.toNat (x.val + 1) :=
        slice_eq_read b.store.memory within
      have forward : b.store.index.toNat ≤ b.store.index.toNat + x.val + 1 := by omega
      have length : (b.store.view.memory.read b.store.index.toNat (x.val + 1)).length =
          x.val + 1 - 0 := Memory.length_read ..
      simp (disch := omega) only [Outcome.andThen_done, run_get, run_update, run_pure, run_add,
        run_slice b.store.memory forward within, source,
        run_copy b.store.registers (Nat.zero_le _) x.isLt length, overwrite_eq_fillRegs]
      rfl
    · rw [Store.view_registers]
      simp only [Machine.fillRegs]
  · rw [if_neg reach, if_neg reach]
    rfl

/-! ### Drawing -/

/-- The bench with the points flipped; the frame is dirty if there are any. -/
def struck (b : Bench σ) (ps : List Point) : Bench σ :=
  { b with store := { b.store with
      pixels := (b.store.view.frame.flipAll ps).pixels
      dirty := b.store.dirty || !ps.isEmpty } }

@[simp] theorem struck_nil (b : Bench σ) : b.struck [] = b := by
  simp only [struck, List.isEmpty_nil, Bool.not_true, Bool.or_false]
  rfl

theorem struck_append (b : Bench σ) (ps qs : List Point) :
    (b.struck ps).struck qs = b.struck (ps ++ qs) := by
  have frame : (b.struck ps).store.view.frame = b.store.view.frame.flipAll ps := rfl
  have either : (!(ps ++ qs).isEmpty) = (!ps.isEmpty || !qs.isEmpty) := by
    cases ps <;> simp
  simp only [struck] at frame ⊢
  simp only [frame, Frame.flipAll_append, either, Bool.or_assoc]

theorem run_flipPixel (x y : Nat) (b : Bench σ) :
    (flipPixel x y).run b = .done (b.store.view.frame.isOn ⟨x, y⟩) (b.struck [⟨x, y⟩]) := by
  have place : x % 64 + y % 32 * 64 < 2048 := by omega
  simp (disch := omega) only [flipPixel, Platform.frameWidth, Platform.frameHeight, run_bind,
    run_get, Outcome.andThen_done, run_update, run_pure, run_mul, run_add, run_element _ place,
    run_replace _ place]
  simp only [struck, List.isEmpty_cons, Bool.not_false, Bool.or_true]
  rfl

theorem isSet_iff (row : UInt8) {c : Nat} (column : c < 8) :
    row >>> UInt8.ofNat (7 - c) &&& 1 ≠ 0 ↔ Sprite.isSet row c = true := by
  have small : (7 - c) % 2 ^ 8 % 8 = 7 - c := by omega
  rw [ne_eq, ← UInt8.toNat_inj, UInt8.toNat_and, UInt8.toNat_shiftRight, UInt8.toNat_ofNat',
    small, Sprite.isSet, Nat.testBit, Nat.and_comm]
  simp

def columnPoints (row : UInt8) (x y : Nat) (cs : List Nat) : List Point :=
  (cs.filter (Sprite.isSet row)).map fun c => ⟨x + c, y⟩

theorem run_drawRow (row : UInt8) {x y r : Nat} (hx : x < 0x10000) (hy : y + r < 0x10000)
    {cs : List Nat} (columns : ∀ c ∈ cs, c < 8) (erased : Bool) (b : Bench σ) :
    (drawRow row x y r cs erased).run b =
      .done (erased || b.store.view.frame.hits (columnPoints row x (y + r) cs))
        (b.struck (columnPoints row x (y + r) cs)) := by
  induction cs generalizing erased b with
  | nil => simp [drawRow, columnPoints, Frame.hits]
  | cons c cs ih =>
    have column := columns c (List.mem_cons_self ..)
    have rest := ih fun d mem => columns d (List.mem_cons_of_mem _ mem)
    simp (disch := omega) only [drawRow, run_bind, run_sub, Outcome.andThen_done, run_shiftRight,
      isSet_iff row column]
    by_cases on : Sprite.isSet row c
    · have points : columnPoints row x (y + r) (c :: cs) =
          ⟨x + c, y + r⟩ :: columnPoints row x (y + r) cs := by
        simp only [columnPoints, List.filter_cons_of_pos on, List.map_cons]
      simp (disch := omega) only [on, if_true, run_bind, run_add, Outcome.andThen_done,
        run_flipPixel, rest, points, struck_append, List.singleton_append, Frame.hits,
        Bool.or_assoc]
      rfl
    · have points : columnPoints row x (y + r) (c :: cs) = columnPoints row x (y + r) cs := by
        simp only [columnPoints, List.filter_cons_of_neg on]
      rw [if_neg on, rest, points]

theorem read_succ (m : Memory) (start length : Nat) :
    m.read start (length + 1) = m.get start :: m.read (start + 1) length := by
  simp only [Memory.read, List.range_succ_eq_map, List.map_cons, List.map_map, Nat.add_zero,
    List.cons.injEq, true_and]
  refine List.map_congr_left fun k _ => congrArg m.get ?_
  change start + (k + 1) = start + 1 + k
  omega

theorem run_drawRows {start x y k n : Nat} (within : 0 < n → start + (k + n) ≤ 4096)
    (hx : x < 0x10000) (hy : y + (k + n) < 0x10000) (erased : Bool) (b : Bench σ) :
    (drawRows start x y (List.range' k n) erased).run b =
      .done (erased || b.store.view.frame.hits
          (Sprite.points (b.store.view.memory.read (start + k) n) x (y + k)))
        (b.struck (Sprite.points (b.store.view.memory.read (start + k) n) x (y + k))) := by
  -- The induction takes the rows from the top, so the first row and the frame vary.
  induction n generalizing k erased b with
  | zero => simp [drawRows, Memory.read, Sprite.points, Frame.hits]
  | succ n ih =>
    have place : start + k < 4096 := by omega
    have below : 0 < n → start + (k + 1 + n) ≤ 4096 := by omega
    have byte : b.store.memory[start + k] = b.store.view.memory.get (start + k) := by
      rw [Memory.get, dif_pos place]
      rfl
    have columns : ∀ c ∈ List.range 8, c < 8 := fun c => List.mem_range.1
    have row : columnPoints (b.store.view.memory.get (start + k)) x (y + k) (List.range 8) =
        Sprite.rowPoints (b.store.view.memory.get (start + k)) x (y + k) := rfl
    have memory (ps : List Point) : (b.struck ps).store.view.memory = b.store.view.memory := rfl
    have frame (ps : List Point) :
        (b.struck ps).store.view.frame = b.store.view.frame.flipAll ps := rfl
    rw [List.range'_succ, drawRows]
    have low : y + k < 0x10000 := by omega
    have rest : y + (k + 1 + n) < 0x10000 := by omega
    simp (disch := omega) only [run_bind, run_get, run_add, Outcome.andThen_done,
      run_element _ place, byte, run_drawRow _ hx low columns, row, ih below rest,
      memory, frame, struck_append, read_succ, Sprite.points, Frame.hits_append, Bool.or_assoc,
      Nat.add_assoc]

theorem run_leavesMemory {start rows : Nat} (small : start + rows < 0x10000000000000000)
    (b : Bench σ) :
    (leavesMemory start rows).run b = .done (decide (0 < rows ∧ 4096 < start + rows)) b := by
  unfold leavesMemory
  by_cases some_rows : 0 < rows
  · rw [if_pos some_rows]
    simp only [run_bind, run_add small, Outcome.andThen_done, run_pure, some_rows, true_and,
      gt_iff_lt]
  · rw [if_neg some_rows]
    simp only [run_pure, some_rows, false_and, decide_false]

theorem run_drawSprite (x y : UInt8) (rows : Fin 16) (b : Bench σ) :
    (drawSprite x y rows.val).run b =
      if b.store.view.InReach rows.val then
        .done (some ((b.store.view.spritePoints x y rows.val).any b.store.view.frame.isOn))
          (struck { b with store := { b.store with
            registers := b.store.registers.set flagRegister.val 0 flagRegister.isLt } }
            (b.store.view.spritePoints x y rows.val))
      else .done none b := by
  have start := b.store.index.toNat_lt
  have few := rows.isLt
  have hx := x.toNat_lt
  have hy := y.toNat_lt
  have reach : b.store.view.InReach rows.val ↔
      ¬(0 < rows.val ∧ 4096 < b.store.index.toNat + rows.val) := by
    simp only [Machine.inReach_iff, Store.view]
    omega
  simp (disch := omega) only [drawSprite, run_bind, run_get, Outcome.andThen_done, reach,
    run_leavesMemory]
  by_cases beyond : 0 < rows.val ∧ 4096 < b.store.index.toNat + rows.val
  · simp only [beyond, and_self, decide_true, if_true, run_pure, not_true_eq_false, if_false]
  · have within : 0 < rows.val → b.store.index.toNat + (0 + rows.val) ≤ 4096 := by omega
    have flag (b : Bench σ) := run_setReg flagRegister 0 b
    have points : Sprite.points (b.store.view.memory.read (b.store.index.toNat + 0) rows.val)
        x.toNat (y.toNat + 0) = b.store.view.spritePoints x y rows.val := rfl
    have apart : ((b.store.view.spritePoints x y rows.val).map Point.index).Nodup :=
      Sprite.nodup_index (by rw [Memory.length_read]; omega) x.toNat y.toNat
    have right : x.toNat < 0x10000 := by omega
    have low : y.toNat + (0 + rows.val) < 0x10000 := by omega
    simp only [beyond, decide_false, Bool.false_eq_true, if_false, not_false_eq_true, if_true,
      run_bind, flag, Outcome.andThen_done, List.range_eq_range', run_drawRows within right low,
      run_pure, Bool.false_or]
    rw [Store.view_registers, points, Frame.hits_eq_any apart]

theorem drawAt_agrees (op : Opcode) (x y : Register) (rows : Fin 16) (key : Option Key)
    {b : Bench σ} (sound : b.store.Sound) :
    Agrees op b b.world ((drawAt op x.val y.val rows.val).run b)
      (Instr.exec key b.store.view (.draw x y rows)) := by
  have start := b.store.index.toNat_lt
  have few := rows.isLt
  simp only [drawAt, run_bind, run_reg, Outcome.andThen_done, run_drawSprite, Instr.exec]
  by_cases reach : b.store.view.InReach rows.val
  · rw [if_pos reach, if_pos reach]
    simp only [Outcome.andThen_done, run_bind, run_setReg, run_pure]
    refine ⟨_, rfl, sound.of_sp_eq rfl, ?_⟩
    simp only [struck, Vector.set_set]
    rfl
  · have some_rows : 0 < rows.val := by
      rw [Machine.inReach_iff] at reach
      omega
    rw [if_neg reach, if_neg reach]
    simp (disch := omega) only [Outcome.andThen_done, run_bind, run_get, run_add, run_sub,
      run_refuse]
    rfl

/-! ### Jumps and calls -/

theorem returnFromCall_agrees (op : Opcode) (key : Option Key) {b : Bench σ}
    (sound : b.store.Sound) :
    Agrees op b b.world ((returnFromCall op).run b) (Instr.exec key b.store.view .ret) := by
  have popped := run_pop sound
  have stack : b.store.view.stack = b.store.calls := rfl
  simp only [returnFromCall, run_bind, Instr.exec, stack]
  cases calls : b.store.calls.pop? with
  | some top =>
    obtain ⟨a, rest⟩ := top
    rw [calls] at popped
    obtain ⟨st, ran, sound', view⟩ := popped
    rw [ran]
    refine ⟨{ st with pc := a }, rfl, sound'.of_sp_eq rfl, ?_⟩
    change { st.view with pc := a } = { b.store.view with pc := a, stack := rest }
    rw [view]
  | none =>
    rw [calls] at popped
    rw [popped]
    rfl

theorem callTo_agrees (op : Opcode) (a : Fin 4096) (key : Option Key) {b : Bench σ}
    (sound : b.store.Sound) :
    Agrees op b b.world ((callTo op (UInt16.ofNat a.val)).run b)
      (Instr.exec key b.store.view (.call a)) := by
  have pushed := run_push b.store.pc sound
  have stack : b.store.view.stack.push? b.store.view.pc = b.store.calls.push? b.store.pc := rfl
  simp only [callTo, run_bind, run_get, Outcome.andThen_done, Instr.exec, stack]
  cases calls : b.store.calls.push? b.store.pc with
  | some longer =>
    rw [calls] at pushed
    obtain ⟨st, ran, sound', view⟩ := pushed
    rw [ran]
    refine ⟨{ st with pc := UInt16.ofNat a.val }, rfl, sound'.of_sp_eq rfl, ?_⟩
    change { st.view with pc := UInt16.ofNat a.val } =
      { b.store.view.goTo a.val with stack := longer }
    rw [view, Machine.goTo]
  | none =>
    rw [calls] at pushed
    rw [pushed]
    rfl

theorem jumpToOffset_agrees (op : Opcode) (a : Fin 4096) (key : Option Key) {b : Bench σ}
    (sound : b.store.Sound) :
    Agrees op b b.world ((jumpToOffset (UInt16.ofNat a.val)).run b)
      (Instr.exec key b.store.view (.jumpOffset a)) := by
  -- An address and a byte more stay far below sixteen bits, and so the sum does not trap.
  have address := a.isLt
  have offset := (b.store.view.reg 0).toNat_lt
  have sum : (UInt16.ofNat a.val).toNat + (b.store.view.reg 0).toUInt16.toNat < 0x10000 := by
    simp only [UInt16.toNat_ofNat', UInt8.toNat_toUInt16]
    omega
  have target : UInt16.ofNat a.val + (b.store.view.reg 0).toUInt16 =
      UInt16.ofNat (a.val + (b.store.view.reg 0).toNat) := by
    apply UInt16.toNat_inj.1
    simp only [UInt16.toNat_add, UInt16.toNat_ofNat', UInt8.toNat_toUInt16]
    omega
  have zero := run_reg 0 b
  simp only [Fin.val_zero] at zero
  simp only [jumpToOffset, run_bind, zero, Outcome.andThen_done, run_addAddress sum, target,
    run_goTo, run_pure]
  exact ⟨_, rfl, sound.of_sp_eq rfl, rfl⟩

theorem pointAtGlyph_agrees (op : Opcode) (x : Register) (key : Option Key) {b : Bench σ}
    (sound : b.store.Sound) :
    Agrees op b b.world ((pointAtGlyph x.val).run b)
      (Instr.exec key b.store.view (.glyph x)) := by
  -- The register may hold any byte; even the glyph of 255 would begin below sixteen bits.
  have digit := (b.store.view.reg x).toNat_lt
  have product : (b.store.view.reg x).toUInt16.toNat *
      (UInt16.ofNat Platform.glyphHeight).toNat < 0x10000 := by
    simp only [UInt16.toNat_ofNat', UInt8.toNat_toUInt16, Platform.glyphHeight]
    omega
  have sum : (UInt16.ofNat Platform.fontStart).toNat +
      ((b.store.view.reg x).toUInt16 * UInt16.ofNat Platform.glyphHeight).toNat < 0x10000 := by
    simp only [UInt16.toNat_mul, UInt16.toNat_ofNat', UInt8.toNat_toUInt16, Platform.fontStart,
      Platform.glyphHeight]
    omega
  have target : UInt16.ofNat Platform.fontStart +
        (b.store.view.reg x).toUInt16 * UInt16.ofNat Platform.glyphHeight =
      UInt16.ofNat (Platform.fontStart + (b.store.view.reg x).toNat * Platform.glyphHeight) := by
    apply UInt16.toNat_inj.1
    simp only [UInt16.toNat_add, UInt16.toNat_mul, UInt16.toNat_ofNat', UInt8.toNat_toUInt16,
      Platform.fontStart, Platform.glyphHeight]
    omega
  simp only [pointAtGlyph, run_bind, run_reg, Outcome.andThen_done, run_mulAddress product,
    run_addAddress sum, target, run_pointAt, run_pure]
  exact ⟨_, rfl, sound.of_sp_eq rfl, rfl⟩

/-! ### All instructions -/

/-- Every instruction comes out on the bench as it does on the machine. -/
theorem effect_agrees (h : Host σ) (op : Opcode) (i : Instr) {b : Bench σ}
    (sound : b.store.Sound) :
    Agrees op b (b.world.askFor h i).2 ((effect h op i).run b)
      (i.exec (b.world.askFor h i).1 b.store.view) := by
  cases i with
  | clear => exact ⟨_, rfl, sound.of_sp_eq rfl, rfl⟩
  | ret => exact returnFromCall_agrees op none sound
  | jump a => exact ⟨_, rfl, sound.of_sp_eq rfl, rfl⟩
  | call a => exact callTo_agrees op a none sound
  | skipEq x value | skipNe x value | skipEqReg x y | skipNeReg x y =>
    simp only [effect, run_bind, run_reg, Outcome.andThen_done]
    exact skipIf_agrees op sound _
  | load x value | readDelay x =>
    exact ⟨_, run_assign x _ b, sound.of_sp_eq rfl, rfl⟩
  | add x value =>
    simp only [effect, run_bind, run_reg, Outcome.andThen_done]
    exact ⟨_, run_assign x _ b, sound.of_sp_eq rfl, rfl⟩
  | transfer t x y =>
    have rx := run_reg x.castSucc b
    have ry := run_reg y.castSucc b
    simp only [Fin.val_castSucc] at rx ry
    simp only [effect, run_bind, rx, ry, Outcome.andThen_done]
    exact ⟨_, run_assign x.castSucc _ b, sound.of_sp_eq rfl, rfl⟩
  | arith o x y =>
    simp only [effect, run_bind, run_reg, Outcome.andThen_done]
    exact ⟨_, run_assignFlagged x _ b, sound.of_sp_eq rfl, rfl⟩
  | loadIndex a => exact ⟨_, rfl, sound.of_sp_eq rfl, rfl⟩
  | jumpOffset a => exact jumpToOffset_agrees op a none sound
  | random x mask =>
    simp only [effect, randomByte, run_bind, run_get, run_update, Outcome.andThen_done,
      run_assign]
    exact ⟨_, rfl, sound.of_sp_eq rfl, rfl⟩
  | draw x y rows => exact drawAt_agrees op x y rows none sound
  | skipKey x | skipNoKey x =>
    simp only [effect, run_bind, run_poll, run_reg, Outcome.andThen_done]
    exact skipIf_agrees op (b := { b with world := (b.world.poll h).2 }) sound _
  | awaitKey x => exact ⟨_, rfl, sound, rfl⟩
  | setDelay x | setSound x | addIndex x =>
    simp only [effect, addToIndex, run_bind, run_reg, Outcome.andThen_done]
    exact ⟨_, rfl, sound.of_sp_eq rfl, rfl⟩
  | glyph x => exact pointAtGlyph_agrees op x none sound
  | decimal x => exact writeDecimal_agrees op x none sound
  | store x => exact storeRegisters_agrees op x none sound
  | fill x => exact fillRegisters_agrees op x none sound

/-- An opcode on a bench has come out as it does on the machine and in its world. -/
def Follows (b : Bench σ) (o : Outcome (Bench σ) Notice) :
    Except Fault (Flow × Machine) × World σ → Prop
  | (.ok (flow, m), w) =>
    ∃ st : Store, o = .done (.ofFlow flow) ⟨st, w⟩ ∧ st.Sound ∧ st.view = m
  | (.error f, w) => o = .fault f ⟨b.store, w⟩

/-- Every opcode comes out on the bench as it does on the machine: no check fails, and a fault
leaves the store as it is. -/
theorem execute_follows (h : Host σ) (op : Opcode) {b : Bench σ} (sound : b.store.Sound) :
    Follows b ((execute h op).run b) (b.store.view.execute h op b.world) := by
  have address : b.store.view.currentAddress = b.store.pc - 2 := rfl
  have run := b.store.view.execution h op b.world
  generalize b.store.view.execute h op b.world = result at run
  cases run with
  | undecoded decoded => exact run_execute_of_error h decoded b
  | @blocked i cause decoded obstacle =>
    have agrees := effect_agrees h op i (b := b.traced i) sound
    have failed : i.exec ((b.traced i).world.askFor h i).1 (b.traced i).store.view =
        .error cause := Instr.exec_eq_error_iff.2 obstacle
    have silent := Instr.readsKey_of_obstacle? obstacle
    rw [failed, World.askFor_of_readsKey_eq_false silent] at agrees
    rw [run_execute h decoded b]
    exact agrees
  | @done i flow m' decoded free effect =>
    have agrees := effect_agrees h op i (b := b.traced i) sound
    have done : i.exec ((b.traced i).world.askFor h i).1 (b.traced i).store.view =
        .ok (flow, m') := effect
    rw [done] at agrees
    rw [run_execute h decoded b]
    exact agrees

end Bench

end ChipEight.Checked
