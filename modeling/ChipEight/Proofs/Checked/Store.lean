import ChipEight.Host
import ChipEight.Machine
import ChipEight.Proofs.Checked.Program
/-!
# The store

The state of a machine as it lies in arrays.  The call stack is an array of sixteen slots and the
number of those in use; slots that are no longer in use keep what they held.  `Store.view` is the
machine that a store stands for.  A `Bench` is a store in a world.
-/

namespace ChipEight.Checked

open Program

/-- The state of a machine in arrays. -/
structure Store where
  pc : Address
  index : Address
  registers : Vector UInt8 16
  /-- The next free slot of the call stack. -/
  sp : Nat
  slots : Vector Address 16
  delay : UInt8
  sound : UInt8
  memory : Vector UInt8 4096
  pixels : Vector Bool 2048
  dirty : Bool
  random : Random

namespace Store

/-- The return addresses in use, the newest first. -/
def calls (st : Store) : CallStack where
  returns := (st.slots.toList.take st.sp).reverse
  length_le := by simp only [List.length_reverse, List.length_take, Vector.length_toList]; omega

/-- The machine that a store stands for. -/
def view (st : Store) : Machine where
  pc := st.pc
  index := st.index
  registers := st.registers
  stack := st.calls
  delay := st.delay
  sound := st.sound
  memory := ⟨st.memory⟩
  frame := ⟨st.pixels⟩
  dirty := st.dirty
  random := st.random

theorem view_registers (st : Store) (registers : Vector UInt8 16) :
    ({ st with registers := registers } : Store).view =
      { st.view with registers := registers } := rfl

theorem view_memory (st : Store) (memory : Memory) :
    ({ st with memory := memory.cells } : Store).view = { st.view with memory := memory } := rfl

/-- The slots in use are slots of the array. -/
def Sound (st : Store) : Prop := st.sp ≤ 16

/-- Nothing but the number of slots in use matters. -/
theorem Sound.of_sp_eq {st st' : Store} (sound : st.Sound) (same : st'.sp = st.sp) :
    st'.Sound := by
  rw [Sound, same]
  exact sound

theorem depth_calls {st : Store} (sound : st.Sound) : st.calls.depth = st.sp := by
  unfold Sound at sound
  simp only [CallStack.depth, calls, List.length_reverse, List.length_take, Vector.length_toList]
  omega

end Store

structure Bench (σ : Type) where
  store : Store
  world : World σ

namespace Bench

variable {σ : Type}

def update (f : Store → Store) : Program (Bench σ) Unit :=
  modify fun b => { b with store := f b.store }

@[simp] theorem run_update (f : Store → Store) (b : Bench σ) :
    (update f).run b = .done () { b with store := f b.store } := rfl

/-! ### Registers -/

def reg (x : Nat) : Program (Bench σ) UInt8 := do
  element (← get).store.registers x

def setReg (x : Nat) (a : UInt8) : Program (Bench σ) Unit := do
  let registers ← replace (← get).store.registers x a
  update fun st => { st with registers := registers }

theorem run_reg (x : Register) (b : Bench σ) :
    (reg x.val).run b = .done (b.store.view.reg x) b := by
  simp only [reg, run_bind, run_get, Outcome.andThen_done, run_element _ x.isLt]
  rfl

theorem run_setReg (x : Register) (a : UInt8) (b : Bench σ) :
    (setReg x.val a).run b = .done () { b with
      store := { b.store with registers := b.store.registers.set x.val a x.isLt } } := by
  simp only [setReg, run_bind, run_get, Outcome.andThen_done, run_replace _ x.isLt, run_update]

/-! ### Program counter and `I` -/

def goTo (a : Address) : Program (Bench σ) Unit := update fun st => { st with pc := a }

def skip : Program (Bench σ) Unit := update fun st => { st with pc := st.pc + 2 }

def pointAt (a : Address) : Program (Bench σ) Unit := update fun st => { st with index := a }

@[simp] theorem run_goTo (a : Address) (b : Bench σ) :
    (goTo a).run b = .done () { b with store := { b.store with pc := a } } := rfl

@[simp] theorem run_skip (b : Bench σ) :
    skip.run b = .done () { b with store := { b.store with pc := b.store.pc + 2 } } := rfl

@[simp] theorem run_pointAt (a : Address) (b : Bench σ) :
    (pointAt a).run b = .done () { b with store := { b.store with index := a } } := rfl

/-! ### The call stack -/

/-- Takes a free slot for a return address, and says whether there was one (`push_stack`). -/
def push (a : Address) : Program (Bench σ) Bool := do
  let st := (← get).store
  if st.sp < 16 then
    let slots ← replace st.slots st.sp a
    let sp ← add st.sp 1
    update fun st => { st with slots := slots, sp := sp }
    return true
  else return false

/-- Gives the newest slot back, and says what it held (`pop_stack`). -/
def pop : Program (Bench σ) (Option Address) := do
  let st := (← get).store
  if st.sp = 0 then return none
  else
    let sp ← sub st.sp 1
    update fun st => { st with sp := sp }
    return some (← element st.slots sp)

/-- The return addresses in use, the oldest first (`stack`). -/
def stack : Program (Bench σ) (List Address) := do
  let st := (← get).store
  slice st.slots 0 st.sp

theorem calls_push {st : Store} (room : st.sp < 16) (a : Address) :
    ({ st with slots := st.slots.set st.sp a, sp := st.sp + 1 } : Store).calls.returns =
      a :: st.calls.returns := by
  have length : st.sp < (st.slots.toList.set st.sp a).length := by simpa using room
  simp only [Store.calls, Vector.toList_set]
  rw [List.take_succ_eq_append_getElem length, List.take_set_of_le (Nat.le_refl _),
    List.getElem_set_self, List.reverse_append]
  rfl

theorem calls_pop {st : Store} (used : 0 < st.sp) (last : st.sp - 1 < 16) :
    st.calls.returns =
      st.slots[st.sp - 1] :: ({ st with sp := st.sp - 1 } : Store).calls.returns := by
  have length : st.sp - 1 < st.slots.toList.length := by
    rw [Vector.length_toList]
    exact last
  have split := List.take_succ_eq_append_getElem length
  rw [Nat.sub_add_cancel used] at split
  simp only [Store.calls, split, List.reverse_append, Vector.getElem_toList]
  rfl

theorem run_push (a : Address) {b : Bench σ} (sound : b.store.Sound) :
    match b.store.calls.push? a with
    | some calls => ∃ st : Store, (push a).run b = .done true { b with store := st } ∧
        st.Sound ∧ st.view = { b.store.view with stack := calls }
    | none => (push a).run b = .done false b := by
  have depth := Store.depth_calls sound
  by_cases room : b.store.sp < 16
  · have pushed : b.store.calls.push? a = some ⟨a :: b.store.calls.returns, by
        rw [List.length_cons, show b.store.calls.returns.length = b.store.sp from depth]
        exact room⟩ := by
      rw [CallStack.push?, dif_pos (depth ▸ room)]
    rw [pushed]
    refine ⟨{ b.store with slots := b.store.slots.set b.store.sp a, sp := b.store.sp + 1 },
      ?_, room, ?_⟩
    · simp (disch := omega) only [push, run_bind, run_get, Outcome.andThen_done, if_pos room,
        run_replace _ room, run_add, run_update, run_pure]
    · simp only [Store.view, Machine.mk.injEq, true_and, and_true]
      exact CallStack.ext (calls_push room a)
  · have full : b.store.calls.push? a = none := by
      rw [CallStack.push?, dif_neg (depth ▸ room)]
    rw [full]
    simp only [push, run_bind, run_get, Outcome.andThen_done, if_neg room, run_pure]

theorem run_pop {b : Bench σ} (sound : b.store.Sound) :
    match b.store.calls.pop? with
    | some (a, calls) => ∃ st : Store, pop.run b = .done (some a) { b with store := st } ∧
        st.Sound ∧ st.view = { b.store.view with stack := calls }
    | none => pop.run b = .done none b := by
  have depth := Store.depth_calls sound
  by_cases none_left : b.store.sp = 0
  · have empty : b.store.calls.pop? = none :=
      (CallStack.pop?_eq_none_iff _).2 (depth.trans none_left)
    rw [empty]
    simp only [pop, run_bind, run_get, Outcome.andThen_done, if_pos none_left, run_pure]
  · have used : 0 < b.store.sp := Nat.pos_of_ne_zero none_left
    unfold Store.Sound at sound
    have last : b.store.sp - 1 < 16 := by omega
    have newest := calls_pop used last
    have popped : b.store.calls.pop? = some (b.store.slots[b.store.sp - 1],
        ({ b.store with sp := b.store.sp - 1 } : Store).calls) := by
      cases calls : b.store.calls with
      | mk returns bound =>
        rw [calls] at newest
        subst newest
        rfl
    rw [popped]
    refine ⟨{ b.store with sp := b.store.sp - 1 }, ?_, ?_, rfl⟩
    · simp only [pop, run_bind, run_get, Outcome.andThen_done, if_neg none_left,
        run_sub used, run_update, run_element _ last, run_pure]
    · change b.store.sp - 1 ≤ 16
      omega

theorem run_stack {b : Bench σ} (sound : b.store.Sound) :
    stack.run b = .done b.store.calls.toList b := by
  simp only [stack, run_bind, run_get, Outcome.andThen_done,
    run_slice _ (Nat.zero_le _) sound, Store.calls, CallStack.toList, List.reverse_reverse,
    List.drop_zero]

end Bench

end ChipEight.Checked
