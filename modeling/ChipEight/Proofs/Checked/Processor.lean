import ChipEight.Proofs.Checked.Effects
/-!
# Processor sessions

A machine can be used without a virtual machine around it: opcodes are executed in any order,
programs are loaded, the screen is cleared, timers are counted down, and the program counter and
`I` may stand anywhere in between.  Each of these is a checked program on a bench.  Started on a
machine that was switched on, no check ever fails, and every answer is that of the machine:
`Bench.serveAll_follows`.
-/

namespace ChipEight.Checked

open Program

/-- A call on a machine from outside. -/
inductive Service (σ : Type) where
  | execute (h : Host σ) (op : Opcode)
  | load (program : List UInt8)
  | reset
  | clear
  | tickDelay
  | tickSound
  | fetch
  | stack
  /-- The program counter and `I` are put anywhere. -/
  | place (pc index : Address)

inductive Answer where
  | nothing
  | executed (result : Except Fault Notice)
  | loaded (result : Except Error Unit)
  | buzzed (sounds : Bool)
  | fetched (op : Option Opcode)
  | calls (returns : List Address)

/-! ### On the machine -/

namespace Service

variable {σ : Type}

/-- The answer of a machine, and what becomes of it and its world. -/
def onMachine (m : Machine) (w : World σ) : Service σ → Answer × Machine × World σ
  | .execute h op =>
    match m.execute h op w with
    | (.ok (flow, m'), w') => (.executed (.ok (.ofFlow flow)), m', w')
    | (.error f, w') => (.executed (.error f), m, w')
  | .load program =>
    match m.load program with
    | .ok m' => (.loaded (.ok ()), m', w.emit (.loaded program.length))
    | .error e => (.loaded (.error e), m, w)
  | .reset => (.nothing, m.reset, w)
  | .clear => (.nothing, m.clearFrame, w)
  | .tickDelay => (.nothing, m.tickDelay, w)
  | .tickSound => (.buzzed m.buzzes, m.tickSound, w)
  | .fetch => (.fetched m.fetch?, m, w)
  | .stack => (.calls m.stack.toList, m, w)
  | .place pc index => (.nothing, { m with pc := pc, index := index }, w)

def allOnMachine (m : Machine) (w : World σ) : List (Service σ) → List Answer × Machine × World σ
  | [] => ([], m, w)
  | c :: rest =>
    let (answer, m, w) := c.onMachine m w
    let (answers, m, w) := allOnMachine m w rest
    (answer :: answers, m, w)

end Service

/-- The store that is switched on (`default`). -/
def Store.initial (random : Random) : Store where
  pc := UInt16.ofNat Platform.programStart
  index := 0
  registers := Vector.replicate Platform.registerCount 0
  sp := 0
  slots := Vector.replicate Platform.stackDepth 0
  delay := 0
  sound := 0
  memory := Memory.initial.cells
  pixels := Vector.replicate Platform.frameSize false
  dirty := true
  random := random

theorem Store.sound_initial (random : Random) : (Store.initial random).Sound := Nat.zero_le 16

theorem Store.view_initial (random : Random) : (Store.initial random).view = .initial random := by
  simp only [Store.view, Store.initial, Machine.initial, Frame.blank, Machine.mk.injEq, true_and,
    and_true]
  exact CallStack.ext rfl

namespace Bench

variable {σ : Type}

/-! ### Checked programs -/

/-- Erases memory, stack and frame (`clear_memory`). -/
def erase : Program (Bench σ) Unit :=
  update fun st => { st with
    memory := Vector.replicate Platform.memorySize 0
    slots := Vector.replicate Platform.stackDepth 0
    pixels := Vector.replicate Platform.frameSize false }

def place (first : Nat) (bs : List UInt8) : Program (Bench σ) Unit := do
  let past ← add first bs.length
  let memory ← copy (← get).store.memory first past bs
  update fun st => { st with memory := memory }

/-- The machine switched off and on again (`reset` of the processor). -/
def reset : Program (Bench σ) Unit := do
  erase
  place Platform.fontStart Platform.font
  update fun st => { st with
    registers := Vector.replicate Platform.registerCount 0
    pc := UInt16.ofNat Platform.programStart
    sp := 0
    index := 0
    delay := 0
    sound := 0 }
  clearFrame

/-- Loads a program, unless it is too large (`load_program`). -/
def load (program : List UInt8) : Program (Bench σ) (Except Error Unit) := do
  if program.length ≤ Platform.programCapacity then
    reset
    place Platform.programStart program
    modify fun b => { b with world := b.world.emit (.loaded program.length) }
    return .ok ()
  else return .error (.programTooLarge program.length Platform.programCapacity)

/-- Counts the delay timer down (`tick_delay`). -/
def tickDelay : Program (Bench σ) Unit :=
  update fun st => { st with delay := UInt8.ofNat (st.delay.toNat - 1) }

/-- Counts the sound timer down, and says whether it has just run out (`tick_sound`). -/
def tickSound : Program (Bench σ) Bool := do
  let old := (← get).store.sound
  if old > 0 then
    let sound ← decrement old
    update fun st => { st with sound := sound }
    return sound == 0
  else return false

/-- The opcode at an index, if both its bytes are there (`opcode_at`). -/
def opcodeAt (bytes : Vector UInt8 4096) (cursor : Nat) : Program (Bench σ) (Option Opcode) := do
  match bytes[cursor]? with
  | none => return none
  | some hi =>
    match bytes[← add cursor 1]? with
    | none => return none
    | some lo => return some (Opcode.ofBytes hi lo)

/-- The opcode at the program counter (`instr`). -/
def fetch : Program (Bench σ) (Option Opcode) := do
  let st := (← get).store
  opcodeAt st.memory st.pc.toNat

def serve : Service σ → Program (Bench σ) Answer
  | .execute h op => do return .executed (← attempt (execute h op))
  | .load program => do return .loaded (← load program)
  | .reset => do
    reset
    return .nothing
  | .clear => do
    clearFrame
    return .nothing
  | .tickDelay => do
    tickDelay
    return .nothing
  | .tickSound => do return .buzzed (← tickSound)
  | .fetch => do return .fetched (← fetch)
  | .stack => do return .calls (← stack)
  | .place pc index => do
    update fun st => { st with pc := pc, index := index }
    return .nothing

def serveAll : List (Service σ) → Program (Bench σ) (List Answer)
  | [] => return []
  | c :: rest => do
    let answer ← serve c
    let answers ← serveAll rest
    return answer :: answers

/-! ### No check fails -/

theorem run_place {first : Nat} {bs : List UInt8} (within : first + bs.length ≤ 4096)
    (b : Bench σ) :
    (place first bs).run b = .done () { b with store := { b.store with
      memory := (b.store.view.memory.write first bs).cells } } := by
  simp (disch := omega) only [place, run_bind, run_get, run_update, Outcome.andThen_done, run_add,
    run_copy _ (Nat.le_add_right ..) within (Nat.add_sub_cancel_left ..).symm,
    overwrite_eq_write]
  rfl

theorem run_reset (b : Bench σ) :
    reset.run b = .done () { b with store := .initial b.store.random } := by
  have font : Platform.fontStart + Platform.font.length ≤ 4096 := by decide
  simp only [reset, erase, clearFrame, run_bind, run_update, Outcome.andThen_done, run_place font]
  rfl

theorem run_load_of_le {program : List UInt8} (fits : program.length ≤ Platform.programCapacity)
    (b : Bench σ) :
    (load program).run b = .done (.ok ())
      ⟨{ Store.initial b.store.random with
          memory := (Memory.initial.write Platform.programStart program).cells },
        b.world.emit (.loaded program.length)⟩ := by
  have within : Platform.programStart + program.length ≤ 4096 := by
    change 512 + program.length ≤ 4096
    change program.length ≤ 3584 at fits
    omega
  simp only [load, if_pos fits, run_bind, run_reset, run_place within, run_modify, run_pure,
    Outcome.andThen_done]
  rfl

theorem run_load (program : List UInt8) (b : Bench σ) :
    match b.store.view.load program with
    | .ok m => ∃ st : Store, (load program).run b =
          .done (.ok ()) ⟨st, b.world.emit (.loaded program.length)⟩ ∧ st.Sound ∧ st.view = m
    | .error e => (load program).run b = .done (.error e) b := by
  unfold Machine.load
  by_cases fits : program.length ≤ Platform.programCapacity
  · rw [if_pos fits]
    refine ⟨_, run_load_of_le fits b, (Store.sound_initial b.store.random).of_sp_eq rfl, ?_⟩
    rw [Store.view_memory, Store.view_initial]
    rfl
  · simp only [if_neg fits, load, run_pure]

theorem ofNat_pred {b : UInt8} (positive : b ≠ 0) : UInt8.ofNat (b.toNat - 1) = b - 1 := by
  have low : (1 : UInt8).toNat ≤ b.toNat :=
    Nat.pos_of_ne_zero fun zero => positive (UInt8.toNat_inj.1 zero)
  have high := b.toNat_lt
  apply UInt8.toNat_inj.1
  rw [UInt8.toNat_sub_of_le _ _ (UInt8.le_iff_toNat_le.2 low), UInt8.toNat_ofNat',
    show (1 : UInt8).toNat = 1 from rfl]
  omega

theorem run_tickSound (b : Bench σ) :
    tickSound.run b = .done b.store.view.buzzes { b with store := { b.store with
      sound := UInt8.ofNat (b.store.sound.toNat - 1) } } := by
  have buzzes : b.store.view.buzzes = (b.store.sound == 1) := rfl
  simp only [tickSound, run_bind, run_get, Outcome.andThen_done, buzzes]
  by_cases silent : b.store.sound = 0
  · have same : UInt8.ofNat (b.store.sound.toNat - 1) = b.store.sound := by
      rw [silent]
      rfl
    have quiet : ¬b.store.sound > 0 ∧ (b.store.sound == 1) = false := by
      rw [silent]
      decide
    rw [same, if_neg quiet.1, quiet.2, run_pure]
  · have last : (b.store.sound - 1 == 0) = (b.store.sound == 1) := by
      rw [Bool.eq_iff_iff, beq_iff_eq, beq_iff_eq, UInt8.sub_eq_iff_eq_add, UInt8.zero_add]
    rw [if_pos (UInt8.pos_iff_ne_zero.2 silent), ofNat_pred silent]
    simp only [run_bind, run_decrement silent, run_update, run_pure, Outcome.andThen_done, last]

theorem run_opcodeAt (memory : Memory) (a : Address) (b : Bench σ) :
    (opcodeAt memory.cells a.toNat).run b = .done (memory.opcode? a) b := by
  have address := a.toNat_lt
  unfold opcodeAt Memory.opcode?
  by_cases within : a.toNat + 1 < 4096
  · have first : a.toNat < 4096 := by omega
    rw [if_pos within, Vector.getElem?_eq_getElem first]
    simp (disch := omega) only [run_bind, run_add, Outcome.andThen_done,
      Vector.getElem?_eq_getElem within, run_pure, Memory.get, dif_pos within, dif_pos first]
  · rw [if_neg within]
    by_cases first : a.toNat < 4096
    · rw [Vector.getElem?_eq_getElem first]
      simp (disch := omega) only [run_bind, run_add, Outcome.andThen_done,
        Vector.getElem?_eq_none (Nat.not_lt.1 within), run_pure]
    · rw [Vector.getElem?_eq_none (Nat.not_lt.1 first), run_pure]

theorem run_fetch (b : Bench σ) : fetch.run b = .done b.store.view.fetch? b := by
  simp only [fetch, run_bind, run_get, Outcome.andThen_done]
  exact run_opcodeAt b.store.view.memory b.store.pc b

/-- A call on a store that is in order is answered as the machine answers it. -/
theorem serve_follows (c : Service σ) {b : Bench σ} (sound : b.store.Sound) :
    ∃ st : Store, (serve c).run b =
        .done (c.onMachine b.store.view b.world).1 ⟨st, (c.onMachine b.store.view b.world).2.2⟩ ∧
      st.Sound ∧ st.view = (c.onMachine b.store.view b.world).2.1 := by
  cases c with
  | execute h op =>
    have follows := execute_follows h op sound
    simp only [serve, run_bind, Service.onMachine]
    rcases executed : b.store.view.execute h op b.world with ⟨_ | ⟨flow, m⟩, w⟩
    · rw [executed] at follows
      rw [run_attempt_of_fault follows]
      exact ⟨b.store, rfl, sound, rfl⟩
    · rw [executed] at follows
      obtain ⟨st, ran, sound', view⟩ := follows
      rw [run_attempt_of_done ran]
      exact ⟨st, rfl, sound', view⟩
  | load program =>
    have loads := run_load program b
    simp only [serve, run_bind, Service.onMachine]
    cases loaded : b.store.view.load program with
    | error e =>
      rw [loaded] at loads
      rw [loads]
      exact ⟨b.store, rfl, sound, rfl⟩
    | ok m =>
      rw [loaded] at loads
      obtain ⟨st, ran, sound', view⟩ := loads
      rw [ran]
      exact ⟨st, rfl, sound', view⟩
  | reset =>
    simp only [serve, run_bind, run_reset]
    exact ⟨_, rfl, Store.sound_initial _, Store.view_initial _⟩
  | clear => exact ⟨_, rfl, sound.of_sp_eq rfl, rfl⟩
  | tickDelay => exact ⟨_, rfl, sound.of_sp_eq rfl, rfl⟩
  | tickSound =>
    simp only [serve, run_bind, run_tickSound]
    exact ⟨_, rfl, sound.of_sp_eq rfl, rfl⟩
  | fetch =>
    simp only [serve, run_bind, run_fetch]
    exact ⟨b.store, rfl, sound, rfl⟩
  | stack =>
    simp only [serve, run_bind, run_stack sound]
    exact ⟨b.store, rfl, sound, rfl⟩
  | place pc index => exact ⟨_, rfl, sound.of_sp_eq rfl, rfl⟩

theorem serveAll_follows (calls : List (Service σ)) {b : Bench σ} (sound : b.store.Sound) :
    ∃ st : Store, (serveAll calls).run b =
        .done (Service.allOnMachine b.store.view b.world calls).1
          ⟨st, (Service.allOnMachine b.store.view b.world calls).2.2⟩ ∧
      st.Sound ∧ st.view = (Service.allOnMachine b.store.view b.world calls).2.1 := by
  induction calls generalizing b with
  | nil => exact ⟨b.store, rfl, sound, rfl⟩
  | cons c rest ih =>
    obtain ⟨st, ran, sound', view⟩ := serve_follows c sound
    obtain ⟨last, others, sound'', view'⟩ :=
      ih (b := ⟨st, (c.onMachine b.store.view b.world).2.2⟩) sound'
    simp only [view] at others view'
    refine ⟨last, ?_, sound'', view'⟩
    simp only [serveAll, run_bind, ran, others, Outcome.andThen_done, run_pure]
    rfl

end Bench

end ChipEight.Checked
