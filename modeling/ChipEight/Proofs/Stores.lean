import ChipEight.Proofs.Footprints
import ChipEight.Proofs.FreshStarts
/-!
# What memory holds

Two instructions place bytes in memory: one the decimal digits of a register, the other a range of
registers.  After any history each cell of memory holds the byte that was placed in it last, and
before that its byte of the font or the program: `memory_recalls`.  The history is a list of turns,
so that faults, waits for keys and the counting of timers are among them; a program that overwrites
its own instructions is no exception.
-/

namespace ChipEight

variable {σ : Type}

namespace Turn

/-- The turn executes an instruction that places a byte at an address. -/
def Writes (turn : Turn σ) (a : Nat) (b : UInt8) : Prop :=
  ∃ e, turn.executed? = some e ∧ e.instr.Writes turn.session.vm.machine a b

variable {turn : Turn σ} {a : Nat} {b : UInt8}

theorem get_after_of_writes (writes : turn.Writes a b) :
    turn.after.vm.machine.memory.get a = b := by
  obtain ⟨e, did, writes⟩ := writes
  obtain ⟨key, m, flow, _, _, effect, after⟩ := effect_of_executed? did
  have placed := Instr.get_of_writes effect (Instr.writes_advance.2 writes)
  rw [after]
  exact placed

/-- A turn that executes neither of the two instructions leaves memory alone, whether it faults,
waits, stores a key or counts the timers down. -/
theorem memory_after_of_no_store
    (others : ∀ e, turn.executed? = some e → ∀ x, e.instr ≠ .decimal x ∧ e.instr ≠ .store x) :
    turn.after.vm.machine.memory = turn.session.vm.machine.memory := by
  have shared : turn.session.vm.machine.Shares turn.after.vm.machine .memory := by
    refine shares_of_executed? rfl ?_
    intro e did mem
    rcases Instr.eq_of_memory_mem_footprint mem with ⟨x, digits | dump⟩
    · exact (others e did x).1 digits
    · exact (others e did x).2 dump
  exact shared

theorem get_after_of_no_writes (untouched : ∀ b, ¬turn.Writes a b) :
    turn.after.vm.machine.memory.get a = turn.session.vm.machine.memory.get a := by
  cases did : turn.executed? with
  | none =>
    rw [memory_after_of_no_store]
    intro e did'
    rw [did] at did'
    cases did'
  | some e =>
    obtain ⟨key, m, flow, _, _, effect, after⟩ := effect_of_executed? did
    have elsewhere : ∀ b, ¬e.instr.Writes turn.session.vm.machine.advance a b := by
      intro b writes
      exact untouched b ⟨e, did, Instr.writes_advance.1 writes⟩
    have kept := Instr.get_of_no_writes effect elsewhere
    rw [after]
    exact kept

end Turn

/-! ### The last byte placed -/

/-- The last of the turns that place a byte at an address places this one. -/
def LastWritten (turns : List (Turn σ)) (a : Nat) (b : UInt8) : Prop :=
  ∃ before turn after, turns = before ++ turn :: after ∧ turn.Writes a b ∧
    ∀ later ∈ after, ∀ c, ¬later.Writes a c

/-- No turn places a byte at the address. -/
def Untouched (turns : List (Turn σ)) (a : Nat) : Prop := ∀ turn ∈ turns, ∀ b, ¬turn.Writes a b

section

variable {turns : List (Turn σ)} {turn : Turn σ} {a : Nat} {b : UInt8}

theorem LastWritten.of_concat (last : LastWritten (turns ++ [turn]) a b) :
    turn.Writes a b ∨ LastWritten turns a b ∧ ∀ c, ¬turn.Writes a c := by
  obtain ⟨before, writer, after, split, writes, untouched⟩ := last
  rcases split_concat split with ⟨-, rfl, -⟩ | ⟨between, rfl, earlier⟩
  · exact .inl writes
  · right
    constructor
    · refine ⟨before, writer, between, earlier, writes, ?_⟩
      intro later mem
      exact untouched later (List.mem_append_left _ mem)
    · exact untouched turn (List.mem_append_right _ (List.mem_singleton_self turn))

theorem Untouched.of_concat (untouched : Untouched (turns ++ [turn]) a) :
    Untouched turns a ∧ ∀ c, ¬turn.Writes a c := by
  constructor
  · intro earlier mem
    exact untouched earlier (List.mem_append_left _ mem)
  · exact untouched turn (List.mem_append_right _ (List.mem_singleton_self turn))

/-- An address is untouched, or there is a byte that was placed last. -/
theorem untouched_or_lastWritten (turns : List (Turn σ)) (a : Nat) :
    Untouched turns a ∨ ∃ b, LastWritten turns a b := by
  induction turns with
  | nil =>
    left
    intro turn mem
    cases mem
  | cons turn rest ih =>
    rcases ih with untouched | ⟨b, before, writer, after, rfl, writes, later⟩
    · by_cases writer : ∃ b, turn.Writes a b
      · obtain ⟨b, writes⟩ := writer
        exact .inr ⟨b, [], turn, rest, rfl, writes, untouched⟩
      · left
        intro other mem b writes
        rcases List.mem_cons.1 mem with rfl | mem
        · exact writer ⟨b, writes⟩
        · exact untouched other mem b writes
    · exact .inr ⟨b, turn :: before, writer, after, rfl, writes, later⟩

end

namespace Memory

/-- Each cell holds what the turns placed in it last, or else what it held in `loaded`. -/
def Recalls (memory loaded : Memory) (turns : List (Turn σ)) : Prop :=
  ∀ a, (∀ b, LastWritten turns a b → memory.get a = b) ∧
    (Untouched turns a → memory.get a = loaded.get a)

theorem Recalls.nil (loaded : Memory) : loaded.Recalls loaded ([] : List (Turn σ)) := by
  intro a
  constructor
  · rintro b ⟨before, turn, after, split, -⟩
    simp at split
  · intro _
    rfl

theorem Recalls.concat {loaded : Memory} {turns : List (Turn σ)} {turn : Turn σ}
    (recalls : turn.session.vm.machine.memory.Recalls loaded turns) :
    turn.after.vm.machine.memory.Recalls loaded (turns ++ [turn]) := by
  intro a
  constructor
  · intro b last
    rcases last.of_concat with writes | ⟨last, untouched⟩
    · exact Turn.get_after_of_writes writes
    · rw [Turn.get_after_of_no_writes untouched]
      exact (recalls a).1 b last
  · intro untouched
    obtain ⟨earlier, untouched⟩ := untouched.of_concat
    rw [Turn.get_after_of_no_writes untouched]
    exact (recalls a).2 earlier

end Memory

/-- What a cell of memory holds when a program has been loaded. -/
def loadedByte (program : List UInt8) (a : Nat) : UInt8 :=
  if a < 80 then Platform.font[a]?.getD 0
  else if a < 512 then 0
  else program[a - 512]?.getD 0

theorem Session.machine_of_load {s s₀ : Session σ} {program : List UInt8}
    (loaded : s.load program = (.ok (), s₀)) :
    s₀.vm.machine = s.vm.machine.withProgram program := by
  unfold load Machine.load at loaded
  by_cases fits : program.length ≤ Platform.programCapacity
  · rw [if_pos fits] at loaded
    cases loaded
    rfl
  · rw [if_neg fits] at loaded
    cases loaded

/-- **The last writer of each cell, and the footprint of each instruction.**  Let a program be
loaded, and let any calls follow that load no other and do not reset.  In the end, and before each
of the turns that they take whether they end or not, each cell of memory holds the byte that was
placed in it last, and its loaded byte if none was; the bytes placed are the digits of `Vx` by
`Fx33`, and `V0` to `Vx` by `Fx55`, with the registers and `I` as they were when the instruction
was executed.  A turn that executes neither leaves all memory alone.  On any machine, an opcode
that is executed is that of an instruction, and it changes nothing outside the footprint of the
instruction. -/
theorem memory_recalls :
    (∀ (s s₀ : Session σ) (program : List UInt8) (calls : List (Call σ)),
      s.load program = (.ok (), s₀) → (∀ c ∈ calls, c.restarts = false) →
        (∀ t, s₀.performAll calls = some t → ∀ a < 4096,
          (∀ b, LastWritten (s₀.turns calls) a b → t.vm.machine.memory.get a = b) ∧
          (Untouched (s₀.turns calls) a → t.vm.machine.memory.get a = loadedByte program a) ∧
          (Untouched (s₀.turns calls) a ∨ ∃ b, LastWritten (s₀.turns calls) a b)) ∧
        ∀ past turn later, s₀.turns calls = past ++ turn :: later → ∀ a < 4096,
          (∀ b, LastWritten past a b → turn.session.vm.machine.memory.get a = b) ∧
          (Untouched past a → turn.session.vm.machine.memory.get a = loadedByte program a) ∧
          (Untouched past a ∨ ∃ b, LastWritten past a b)) ∧
    (∀ turn : Turn σ,
      (∀ e, turn.executed? = some e → ∀ x, e.instr ≠ .decimal x ∧ e.instr ≠ .store x) →
        turn.after.vm.machine.memory = turn.session.vm.machine.memory) ∧
    ∀ (h : Host σ) (op : Opcode) (m m' : Machine) (w : World σ) (flow : Flow),
      (m.execute h op w).1 = .ok (flow, m') →
        ∃ i, op = Instr.encode i ∧ ∀ part, part ∉ i.footprint → m.Shares m' part := by
  refine ⟨?_, fun turn others => Turn.memory_after_of_no_store others, ?_⟩
  · intro s s₀ program calls loaded keep
    have cycle (h : Host σ) (past : List (Turn σ)) (t : Session σ)
        (recalls : t.vm.machine.memory.Recalls s₀.vm.machine.memory past) :
        (t.cycle h).2.vm.machine.memory.Recalls s₀.vm.machine.memory (past ++ [⟨h, t⟩]) :=
      Memory.Recalls.concat recalls
    have quiet (past : List (Turn σ)) (t u : Session σ) (running : Bool)
        (same : u.vm = { t.vm with running := running })
        (recalls : t.vm.machine.memory.Recalls s₀.vm.machine.memory past) :
        u.vm.machine.memory.Recalls s₀.vm.machine.memory past := by
      rw [same]
      exact recalls
    have start : s₀.vm.machine.memory.Recalls s₀.vm.machine.memory ([] : List (Turn σ)) := .nil _
    have answer (turns : List (Turn σ)) (memory : Memory)
        (recalls : memory.Recalls s₀.vm.machine.memory turns) (a : Nat) (within : a < 4096) :
        (∀ b, LastWritten turns a b → memory.get a = b) ∧
          (Untouched turns a → memory.get a = loadedByte program a) ∧
          (Untouched turns a ∨ ∃ b, LastWritten turns a b) := by
      refine ⟨(recalls a).1, ?_, untouched_or_lastWritten turns a⟩
      intro untouched
      rw [(recalls a).2 untouched, Session.machine_of_load loaded]
      exact Memory.get_initial_write program within
    constructor
    · intro t performed
      exact answer _ _ (Session.performAll_turns_induction cycle quiet keep start performed)
    · intro past turn later split
      exact answer _ _ (Session.turns_at_every_turn_of_keep cycle quiet keep start split)
  · intro h op m m' w flow done
    exact Machine.shares_of_execute done

/-- The program `F033` writes the digits of `V0` over the first three bytes of the font. -/
theorem memory_recalls_digits :
    let s := Session.start { seed := 0 } (.ofSeed 0) ({} : Console)
    let s₀ := (s.load [0xF0, 0x33]).2
    let h := Script.host { millis := fun _ => 0.0 }
    let t := (s₀.cycle h).2
    s.load [0xF0, 0x33] = (.ok (), s₀) ∧ s₀.performAll [.cycle h] = some t ∧
      LastWritten (s₀.turns [.cycle h]) 0 0 ∧ t.vm.machine.memory.get 0 = 0 ∧
      Untouched (s₀.turns [.cycle h]) 3 ∧ t.vm.machine.memory.get 3 = 0x90 := by
  intro s s₀ h t
  have fetched : s₀.vm.machine.fetch? = some (Instr.encode (.decimal 0)) :=
    Machine.fetch?_withProgram (.initial (.ofSeed 0)) 0xF0 0x33 []
  have reach : s₀.vm.machine.advance.InReach 3 := .inr (by decide)
  have effect : (Instr.decimal 0).exec none s₀.vm.machine.advance = .ok (.next,
      s₀.vm.machine.advance.writeAtIndex
        (Machine.decimalDigits (s₀.vm.machine.advance.reg 0))) := by
    rw [Instr.exec, if_pos reach]
  have cycled : (s₀.cycle h).1 = .ok .next :=
    congrArg Prod.fst (Session.cycle_of_exec rfl fetched (Instr.decode_encode _) rfl effect)
  have did : (Turn.mk h s₀).executed? = some ⟨0x200, .decimal 0⟩ :=
    Turn.executed?_eq_some_iff.2 ⟨rfl, fetched, rfl, .next, cycled⟩
  have turns : s₀.turns [.cycle h] = [⟨h, s₀⟩] := rfl
  have writes : (Instr.decimal 0).Writes s₀.vm.machine 0 0 := by
    have zero : s₀.vm.machine.reg 0 = 0 := rfl
    have hundreds := Instr.Writes.hundreds (m := s₀.vm.machine) 0
    rw [zero] at hundreds
    exact hundreds
  have last : LastWritten (s₀.turns [.cycle h]) 0 0 := by
    refine ⟨[], ⟨h, s₀⟩, [], turns, ⟨_, did, writes⟩, ?_⟩
    intro later mem
    cases mem
  have untouched : Untouched (s₀.turns [.cycle h]) 3 := by
    rw [turns]
    rintro turn mem b ⟨e, executed, writes⟩
    cases List.mem_singleton.1 mem
    rw [did] at executed
    cases executed
    obtain ⟨k, found, place⟩ := Instr.writes_iff.1 writes
    have third : 3 = 0 + k := place
    obtain rfl : k = 3 := by omega
    cases found
  have keep : ∀ c ∈ [Call.cycle h], c.restarts = false := by simp [Call.restarts]
  obtain ⟨ended, -⟩ := memory_recalls.1 s s₀ [0xF0, 0x33] [.cycle h] rfl keep
  exact ⟨rfl, rfl, last, (ended t rfl 0 (by decide)).1 0 last, untouched,
    (ended t rfl 3 (by decide)).2.1 untouched⟩

end ChipEight
