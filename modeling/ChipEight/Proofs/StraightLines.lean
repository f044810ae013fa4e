import ChipEight.Host.Console
import ChipEight.Proofs.FaultAtomicity
import ChipEight.Proofs.SessionInvariant
import ChipEight.Proofs.Turns
import Mathlib.Data.List.Chain
/-!
# Straight lines

Without jumps a program runs forward, two bytes or four at a time, and no instruction lies beyond
the end of memory.  `Machine.room` counts the instructions that still fit in front of the program
counter.  A turn that executes an instruction and does not jump uses up some of the room
(`Turn.room_of_ok`), a wait for a key uses up none, and so straight-line code cannot run forever
(`straight_line_ends`).  What stands in memory does not matter, and may change on the way.
-/

namespace ChipEight

variable {σ : Type}

/-- The opcode is `1nnn`, `2nnn`, `Bnnn` or `00EE`. -/
def Opcode.IsJump (op : Opcode) : Prop :=
  family op = 0x1 ∨ family op = 0x2 ∨ family op = 0xB ∨ op = 0x00EE

/-! ### Instructions -/

namespace Instr

theorem isJump_encode_iff {i : Instr} :
    (encode i).IsJump ↔ i = .ret ∨ ∃ a, i = .jump a ∨ i = .call a ∨ i = .jumpOffset a := by
  have isRet : encode i = 0x00EE ↔ i = .ret := by
    constructor
    · intro same
      exact encode_injective (same.trans rfl)
    · rintro rfl
      rfl
  rw [Opcode.IsJump, isRet]
  cases i with
  | clear => simp [Machine.family_clear]
  | ret => simp
  | _ => simp [encode, family_formNnn, family_formXnn, family_formXyn]

/-- Jumps, calls and returns are told as jumps, and nothing else is. -/
theorem flow_eq_jump_iff {key : Option Key} {m m' : Machine} {i : Instr} {flow : Flow}
    (effect : i.exec key m = .ok (flow, m')) : flow = .jump ↔ (encode i).IsJump := by
  rw [isJump_encode_iff]
  cases exec_moves effect with
  | jump | jumpOffset | call | ret => simp
  | awaitKey => simp
  | straight quiet =>
    constructor
    · rintro rfl
      simp at quiet
    · rintro (rfl | ⟨a, rfl | rfl | rfl⟩)
      · exact flow_of_exec_ret effect
      · cases effect
        rfl
      · exact flow_of_exec_call effect
      · cases effect
        rfl

end Instr

/-! ### Room in front of the program counter -/

namespace Machine

/-- The instructions that fit between the program counter and the end of memory. -/
def room (m : Machine) : Nat := (4096 - m.pc.toNat) / 2

theorem room_le (m : Machine) : m.room ≤ 2048 := by
  unfold room
  omega

/-- An instruction that does not jump uses up room, also where it skips the next one. -/
theorem room_of_exec {key : Option Key} {m m' : Machine} {op : Opcode} {i : Instr} {flow : Flow}
    (fetched : m.fetch? = some op) (effect : i.exec key m.advance = .ok (flow, m'))
    (straight : flow ≠ .jump) : m'.room + 1 ≤ m.room := by
  obtain ⟨past, within⟩ := pc_advance_of_fetch? fetched
  have ahead : m'.pc = m.advance.pc ∨ m'.pc = m.advance.pc + 2 := by
    cases Instr.exec_moves effect with
    | jump | jumpOffset | call | ret => exact absurd rfl straight
    | awaitKey same => exact .inl (congrArg pc same)
    | straight _ pc => exact pc
  have skipped : (m.advance.pc + 2).toNat = (m.advance.pc.toNat + 2) % 65536 :=
    UInt16.toNat_add m.advance.pc 2
  unfold room
  -- Behind a fetched instruction the program counter is at most 4096, so that it does not wrap.
  rcases ahead with next | next
  · rw [next]
    omega
  · rw [next]
    omega

end Machine

theorem Vm.room_elapse (millis : Float) (vm : Vm) :
    (vm.elapse millis).machine.room = vm.machine.room := by
  obtain ⟨_, _, _, same⟩ := Vm.sameButTime_elapse millis vm
  rw [same]
  rfl

/-! ### Turns -/

namespace Turn

/-- The turn is not one that waits for a key. -/
def fetches (turn : Turn σ) : Bool := decide (turn.session.vm.mode = .fetching)

variable {turn : Turn σ}

/-- A turn that neither faults nor jumps uses up room for what it executes. -/
theorem room_of_ok {flow : Flow} (ended : turn.result = .ok flow) (straight : flow ≠ .jump) :
    turn.after.vm.machine.room + turn.executed?.toList.length ≤ turn.session.vm.machine.room := by
  have account := turn.account
  rw [ended] at account
  generalize turn.executed? = did, turn.after.vm = vm, turn.calls = calls at account
  cases account with
  | @executed i flow m mode fetched effect =>
    have used : m.room + 1 ≤ turn.session.vm.machine.room :=
      Machine.room_of_exec fetched effect straight
    rw [Vm.room_elapse]
    exact used
  | waited | keyed =>
    rw [Vm.room_elapse]
    exact Nat.le_refl _

theorem result_eq_jump_iff :
    turn.result = .ok .jump ↔ ∃ e, turn.executed? = some e ∧ (Instr.encode e.instr).IsJump := by
  have account := turn.account
  generalize turn.executed? = did, turn.result = result, turn.after.vm = vm,
    turn.calls = calls at account
  cases account with
  | outOfRange | refused | waited | keyed => simp
  | executed _ _ effect => simp [Instr.flow_eq_jump_iff effect]

/-- Of the turns that do not fault, those that fetch are those that execute. -/
theorem isSome_executed?_of_ok {flow : Flow} (ended : turn.result = .ok flow) :
    turn.executed?.isSome = turn.fetches := by
  have account := turn.account
  rw [ended] at account
  unfold fetches
  generalize turn.executed? = did, turn.after.vm = vm, turn.calls = calls at account
  cases account with
  | executed mode | waited mode | keyed mode => simp [mode]

theorem fetches_of_error {f : Fault} (failed : turn.result = .error f) : turn.fetches = true := by
  obtain ⟨mode, -⟩ := (turn.session.cycle_eq_error_iff turn.host f).1 failed
  exact decide_eq_true mode

/-- The next turn begins with the virtual machine that this one leaves; all around it may have
changed. -/
def LeadsTo (turn next : Turn σ) : Prop :=
  ∃ running, next.session.vm = { turn.after.vm with running := running }

theorem LeadsTo.room {next : Turn σ} (leads : turn.LeadsTo next) :
    next.session.vm.machine.room = turn.after.vm.machine.room := by
  obtain ⟨running, same⟩ := leads
  rw [same]

end Turn

/-- The turns of calls that do not restart the machine lead from one to the next. -/
theorem Session.isChain_turns {s : Session σ} {calls : List (Call σ)}
    (keep : ∀ c ∈ calls, c.restarts = false) : (s.turns calls).IsChain Turn.LeadsTo := by
  let Chained (past : List (Turn σ)) (s : Session σ) : Prop :=
    past.IsChain Turn.LeadsTo ∧
      ∀ last ∈ past.getLast?, ∃ running, s.vm = { last.after.vm with running := running }
  have append (past : List (Turn σ)) (turn : Turn σ) (chained : Chained past turn.session) :
      (past ++ [turn]).IsChain Turn.LeadsTo := by
    refine List.isChain_append.2 ⟨chained.1, .singleton _, ?_⟩
    intro last mem next first
    cases first
    exact chained.2 last mem
  have cycle (h : Host σ) (past : List (Turn σ)) (s : Session σ) (chained : Chained past s) :
      Chained (past ++ [⟨h, s⟩]) (s.cycle h).2 := by
    refine ⟨append past ⟨h, s⟩ chained, ?_⟩
    intro last mem
    rw [List.getLast?_concat] at mem
    cases mem
    exact ⟨_, rfl⟩
  have quiet (past : List (Turn σ)) (s t : Session σ) (running : Bool)
      (same : t.vm = { s.vm with running := running }) (chained : Chained past s) :
      Chained past t := by
    refine ⟨chained.1, ?_⟩
    intro last mem
    obtain ⟨_, vm⟩ := chained.2 last mem
    exact ⟨running, by rw [same, vm]⟩
  have start : Chained [] s := ⟨.nil, nofun⟩
  rcases (s.turns calls).eq_nil_or_concat with none | ⟨before, turn, split⟩
  · rw [none]
    exact .nil
  · rw [List.concat_eq_append] at split
    rw [split]
    exact append before turn (turns_at_every_turn_of_keep cycle quiet keep start split)

/-! ### Runs -/

/-- As long as no turn faults or jumps, what is executed fits in front of the program counter. -/
theorem length_executedBy_le {turns : List (Turn σ)} (chain : turns.IsChain Turn.LeadsTo)
    (straight : ∀ turn ∈ turns, ∃ flow, turn.result = .ok flow ∧ flow ≠ .jump) :
    ∀ first ∈ turns.head?, (executedBy turns).length ≤ first.session.vm.machine.room := by
  induction turns with
  | nil => exact nofun
  | cons turn rest ih =>
    intro first mem
    cases mem
    obtain ⟨flow, ended, noJump⟩ := straight turn (List.mem_cons_self ..)
    have here := Turn.room_of_ok ended noJump
    obtain ⟨leads, chain⟩ := List.isChain_cons.1 chain
    have later : (executedBy rest).length ≤ turn.after.vm.machine.room := by
      cases rest with
      | nil => exact Nat.zero_le _
      | cons next rest =>
        rw [← (leads next rfl).room]
        exact ih chain (fun other mem => straight other (List.mem_cons_of_mem _ mem)) next rfl
    rw [executedBy_cons, List.length_append]
    omega

section

variable {turns : List (Turn σ)}

theorem exists_jump {first : Turn σ} (chain : turns.IsChain Turn.LeadsTo)
    (ended : ∀ turn ∈ turns, ∃ flow, turn.result = .ok flow) (begins : turns.head? = some first)
    (long : first.session.vm.machine.room < (executedBy turns).length) :
    ∃ turn ∈ turns, turn.result = .ok .jump := by
  by_contra noJump
  have straight : ∀ turn ∈ turns, ∃ flow, turn.result = .ok flow ∧ flow ≠ .jump := by
    intro turn mem
    obtain ⟨flow, result⟩ := ended turn mem
    refine ⟨flow, result, ?_⟩
    rintro rfl
    exact noJump ⟨turn, mem, result⟩
  have fits := length_executedBy_le chain straight first begins
  omega

/-- Wherever it begins, code that executes more than 2048 instructions has jumped. -/
theorem exists_isJump (chain : turns.IsChain Turn.LeadsTo)
    (ended : ∀ turn ∈ turns, ∃ flow, turn.result = .ok flow)
    (long : 2048 < (executedBy turns).length) :
    ∃ e ∈ executedBy turns, (Instr.encode e.instr).IsJump := by
  cases begins : turns.head? with
  | none =>
    rw [List.head?_eq_none_iff.1 begins] at long
    cases long
  | some first =>
    have room := first.session.vm.machine.room_le
    obtain ⟨turn, mem, jumped⟩ := exists_jump chain ended begins (by omega)
    obtain ⟨e, did, jump⟩ := Turn.result_eq_jump_iff.1 jumped
    exact ⟨e, List.mem_filterMap.2 ⟨turn, mem, did⟩, jump⟩

theorem countP_fetches_of_ok (ended : ∀ turn ∈ turns, ∃ flow, turn.result = .ok flow) :
    turns.countP Turn.fetches = (executedBy turns).length := by
  rw [executedBy, List.length_filterMap_eq_countP]
  apply List.countP_congr
  intro turn mem
  obtain ⟨flow, result⟩ := ended turn mem
  rw [Turn.isSome_executed?_of_ok result]

/-- No turn faults, or one is the first that does. -/
theorem ended_or_exists_fault (turns : List (Turn σ)) :
    (∀ turn ∈ turns, ∃ flow, turn.result = .ok flow) ∨
      ∃ past turn later f, turns = past ++ turn :: later ∧ turn.result = .error f ∧
        ∀ earlier ∈ past, ∃ flow, earlier.result = .ok flow := by
  induction turns with
  | nil => exact .inl nofun
  | cons turn rest ih =>
    cases result : turn.result with
    | error f => exact .inr ⟨[], turn, rest, f, rfl, result, nofun⟩
    | ok flow =>
      rcases ih with ended | ⟨past, faulty, later, f, rfl, failed, ended⟩
      · left
        intro other mem
        rcases List.mem_cons.1 mem with rfl | mem
        · exact ⟨flow, result⟩
        · exact ended other mem
      · right
        refine ⟨turn :: past, faulty, later, f, rfl, failed, ?_⟩
        intro other mem
        rcases List.mem_cons.1 mem with rfl | mem
        · exact ⟨flow, result⟩
        · exact ended other mem

/-- Code that does not jump has faulted when it fetches for the 2049th time. -/
theorem exists_fault (chain : turns.IsChain Turn.LeadsTo)
    (straight : ∀ e ∈ executedBy turns, ¬(Instr.encode e.instr).IsJump)
    (long : 2048 < turns.countP Turn.fetches) :
    ∃ past turn later f, turns = past ++ turn :: later ∧ turn.result = .error f ∧
      (past ++ [turn]).countP Turn.fetches ≤ 2049 := by
  rcases ended_or_exists_fault turns with ended | ⟨past, turn, later, f, rfl, failed, ended⟩
  · rw [countP_fetches_of_ok ended] at long
    obtain ⟨e, mem, jump⟩ := exists_isJump chain ended long
    exact absurd jump (straight e mem)
  · refine ⟨past, turn, later, f, rfl, failed, ?_⟩
    rw [List.countP_append, countP_fetches_of_ok ended, List.countP_singleton,
      if_pos (Turn.fetches_of_error failed)]
    by_contra many
    have chain : past.IsChain Turn.LeadsTo := chain.left_of_append
    obtain ⟨e, mem, jump⟩ := exists_isJump chain ended (by omega)
    rw [executedBy_append] at straight
    exact straight e (List.mem_append_left _ mem) jump

end

/-- **Straight-line code cannot run forever.**  Take any turns one after the other that calls
take without restarting the machine.  If none of them faults and they execute more instructions
than fit between the program counter of the first and the end of memory, then one of them tells
of a jump; so 2049 executed instructions have `1nnn`, `2nnn`, `Bnnn` or `00EE` among them.  If none
of these is executed, then a turn that is at most the 2049th to fetch has faulted.  A turn tells of
a jump just if it executes one of the four. -/
theorem straight_line_ends (s : Session σ) (calls : List (Call σ))
    (keep : ∀ c ∈ calls, c.restarts = false) (turns : List (Turn σ))
    (among : turns <:+: s.turns calls) :
    (∀ first, turns.head? = some first → (∀ turn ∈ turns, ∃ flow, turn.result = .ok flow) →
      (4096 - first.session.vm.machine.pc.toNat) / 2 < (executedBy turns).length →
        ∃ turn ∈ turns, turn.result = .ok .jump) ∧
    ((∀ turn ∈ turns, ∃ flow, turn.result = .ok flow) → 2049 ≤ (executedBy turns).length →
      ∃ e ∈ executedBy turns, (Instr.encode e.instr).IsJump) ∧
    ((∀ e ∈ executedBy turns, ¬(Instr.encode e.instr).IsJump) →
      2049 ≤ turns.countP Turn.fetches →
        ∃ past turn later f, turns = past ++ turn :: later ∧ turn.result = .error f ∧
          (past ++ [turn]).countP Turn.fetches ≤ 2049) ∧
    ∀ turn ∈ turns, turn.result = .ok .jump ↔
      ∃ e, turn.executed? = some e ∧ (Instr.encode e.instr).IsJump := by
  have chain : turns.IsChain Turn.LeadsTo := by
    obtain ⟨earlier, later, split⟩ := among
    have whole := Session.isChain_turns keep (s := s)
    rw [← split] at whole
    exact whole.left_of_append.right_of_append
  refine ⟨?_, ?_, ?_, ?_⟩
  · intro first begins ended long
    exact exists_jump chain ended begins long
  · intro ended long
    exact exists_isJump chain ended long
  · intro straight long
    exact exists_fault chain straight long
  · intro turn _
    exact Turn.result_eq_jump_iff

/-! ### Jumping without end, and standing beyond the end -/

theorem Turn.after_of_jump (turn : Turn σ) {a : Fin 4096}
    (mode : turn.session.vm.mode = .fetching)
    (fetched : turn.session.vm.machine.fetch? = some (Instr.encode (.jump a))) :
    turn.executed? = some ⟨turn.session.vm.machine.pc, .jump a⟩ ∧ turn.result = .ok .jump ∧
      turn.after.vm.mode = .fetching ∧ turn.after.vm.machine.pc = UInt16.ofNat a.val ∧
      turn.after.vm.machine.memory = turn.session.vm.machine.memory := by
  have effect : (Instr.jump a).exec ((Instr.jump a).told turn.key)
      turn.session.vm.machine.advance =
        .ok (.jump, turn.session.vm.machine.advance.goTo a.val) := rfl
  obtain ⟨did, result, after, -⟩ := (Account.executed mode fetched effect).eq
  obtain ⟨_, _, _, passed⟩ := Vm.sameButTime_elapse turn.millis
    { turn.session.vm with
      machine := { turn.session.vm.machine.advance.goTo a.val with dirty := false }
      mode := .after .jump }
  rw [after, passed]
  exact ⟨did, result, rfl, rfl, rfl⟩

namespace Session

variable {h : Host σ}

/-- A jump to itself is executed in turn after turn. -/
theorem turns_of_loop {s : Session σ} {a : Fin 4096} (mode : s.vm.mode = .fetching)
    (pc : s.vm.machine.pc = UInt16.ofNat a.val)
    (fetched : s.vm.machine.fetch? = some (Instr.encode (.jump a))) (n : Nat) :
    executedBy (s.turns (List.replicate n (.cycle h))) =
        List.replicate n ⟨s.vm.machine.pc, .jump a⟩ ∧
      ∀ turn ∈ s.turns (List.replicate n (.cycle h)), turn.result = .ok .jump := by
  induction n generalizing s with
  | zero => exact ⟨rfl, nofun⟩
  | succ n ih =>
    obtain ⟨did, result, mode', pc', memory'⟩ := Turn.after_of_jump ⟨h, s⟩ mode fetched
    rw [← pc] at pc'
    have fetched' : (s.cycle h).2.vm.machine.fetch? = some (Instr.encode (.jump a)) := by
      rw [← fetched, Machine.fetch?, Machine.fetch?, ← memory', ← pc']
      rfl
    obtain ⟨executed, results⟩ := ih mode' (pc'.trans pc) fetched'
    have split : s.turns (List.replicate (n + 1) (.cycle h)) =
        ⟨h, s⟩ :: (Turn.after ⟨h, s⟩).turns (List.replicate n (.cycle h)) := rfl
    constructor
    · rw [split, executedBy_cons, did, executed, pc']
      rfl
    · intro turn mem
      rcases List.mem_cons.1 mem with rfl | mem
      · exact result
      · exact results turn mem

/-- Where no instruction fits, turn after turn fetches in vain. -/
theorem turns_of_stuck {s : Session σ} (stuck : s.Stuck) (n : Nat) :
    executedBy (s.turns (List.replicate n (.cycle h))) = [] ∧
      (s.turns (List.replicate n (.cycle h))).countP Turn.fetches = n := by
  induction n generalizing s with
  | zero => exact ⟨rfl, rfl⟩
  | succ n ih =>
    obtain ⟨failed, after⟩ := cycle_of_stuck h stuck
    have stays : (s.cycle h).2.Stuck := by
      unfold Stuck
      rw [after]
      exact stuck
    obtain ⟨executed, fetches⟩ := ih stays
    have idle : (Turn.mk h s).executed? = none := Turn.executed?_of_error failed
    have fetching : (Turn.mk h s).fetches = true := Turn.fetches_of_error failed
    have split : s.turns (List.replicate (n + 1) (.cycle h)) =
        ⟨h, s⟩ :: (s.cycle h).2.turns (List.replicate n (.cycle h)) := rfl
    rw [split, executedBy_cons, idle, executed, List.countP_cons, fetches, if_pos fetching]
    exact ⟨rfl, rfl⟩

end Session

/-- The program `1200` jumps in every turn, and the program `1FFF` has jumped out of memory after
its first. -/
theorem straight_line_ends_loop :
    let h := Script.host { millis := fun _ => 0.0 }
    let s := Session.start { seed := 0 } (.ofSeed 0) ({} : Console)
    let loop := (s.load [0x12, 0x00]).2
    let lost := ((s.load [0x1F, 0xFF]).2.cycle h).2
    let calls := List.replicate 2049 (Call.cycle h)
    (∃ turn ∈ loop.turns calls, turn.result = .ok .jump) ∧
      (∃ e ∈ executedBy (loop.turns calls), (Instr.encode e.instr).IsJump) ∧
      ∃ past turn later f, lost.turns calls = past ++ turn :: later ∧ turn.result = .error f ∧
        (past ++ [turn]).countP Turn.fetches ≤ 2049 := by
  intro h s loop lost calls
  have keep : ∀ c ∈ calls, c.restarts = false := by
    intro c mem
    rw [List.eq_of_mem_replicate mem]
    rfl
  have fetched : loop.vm.machine.fetch? = some (Instr.encode (.jump 0x200)) :=
    Machine.fetch?_withProgram (.initial (.ofSeed 0)) 0x12 0x00 []
  obtain ⟨executed, jumped⟩ := Session.turns_of_loop (h := h) rfl rfl fetched 2049
  have long : (executedBy (loop.turns calls)).length = 2049 := by
    rw [executed, List.length_replicate]
  have ended : ∀ turn ∈ loop.turns calls, ∃ flow, turn.result = .ok flow := by
    intro turn mem
    exact ⟨.jump, jumped turn mem⟩
  have fetched' : (s.load [0x1F, 0xFF]).2.vm.machine.fetch? = some (Instr.encode (.jump 0xFFF)) :=
    Machine.fetch?_withProgram (.initial (.ofSeed 0)) 0x1F 0xFF []
  obtain ⟨-, -, mode, pc, -⟩ := Turn.after_of_jump ⟨h, (s.load [0x1F, 0xFF]).2⟩ rfl fetched'
  have stuck : lost.Stuck := by
    refine ⟨mode, (Machine.fetch?_eq_none_iff _).2 ?_⟩
    change 4096 ≤ (Turn.after ⟨h, (s.load [0x1F, 0xFF]).2⟩).vm.machine.pc.toNat + 1
    rw [pc]
    decide
  obtain ⟨idle, fetches⟩ := Session.turns_of_stuck (h := h) stuck 2049
  obtain ⟨tells, jumps, -⟩ := straight_line_ends loop calls keep _ List.infix_rfl
  obtain ⟨-, -, faults, -⟩ := straight_line_ends lost calls keep _ List.infix_rfl
  refine ⟨tells ⟨h, loop⟩ rfl ended ?_, jumps ended (by rw [long]), faults ?_ (by rw [fetches])⟩
  · rw [long]
    decide
  · rw [idle]
    exact nofun

end ChipEight
