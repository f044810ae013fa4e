import ChipEight.Host.Console
import ChipEight.Proofs.FaultAtomicity
import ChipEight.Proofs.SessionInvariant
import ChipEight.Proofs.Turns
import ChipEight.Proofs.Unnoticed
/-!
# Fresh starts

A machine that is reset or loaded is a machine that has just been switched on, but for its program,
its random numbers and what surrounds it.  So nothing of an earlier program shows in anything that
comes later: `no_program_leaks`.  The log alone remembers, and nobody reads it
(`Session.performAll_behind`).
-/

namespace ChipEight

variable {σ : Type}

/-! ### Answers -/

/-- What a call gives back. -/
inductive Call.Result where
  | done
  | loaded (result : Except Error Unit)
  | cycled (result : Except Fault Flow)
  | ran (result : Except Fault Unit)

namespace Session

def answer (s : Session σ) : Call σ → Option Call.Result
  | .load program => some (.loaded (s.load program).1)
  | .reset | .stop | .connect _ => some .done
  | .cycle h => some (.cycled (s.cycle h).1)
  | .runSteps h n => some (.ran (s.runSteps h n).1)
  | .run h fuel => (s.run h fuel).map fun r => .ran r.1

/-- What the calls give back, up to one that does not end. -/
def answers (s : Session σ) : List (Call σ) → List (Option Call.Result)
  | [] => []
  | c :: rest => s.answer c :: ((s.perform c).map fun t => t.answers rest).getD []

/-! ### Nobody reads the log -/

/-- The session with older records in front of its log. -/
def behind (log : Array Record) (s : Session σ) : Session σ := s.inWorld (World.behind log)

end Session

/-- The turn of a session with older records in front of its log. -/
def Turn.behind (log : Array Record) (turn : Turn σ) : Turn σ :=
  ⟨turn.host, turn.session.behind log⟩

namespace Session

variable (log : Array Record)

theorem cycle_behind (h : Host σ) (s : Session σ) :
    (s.behind log).cycle h = ((s.cycle h).1, (s.cycle h).2.behind log) :=
  (World.unnoticed_behind log).cycle h s

theorem result_behind (turn : Turn σ) : (turn.behind log).result = turn.result := by
  unfold Turn.result Turn.behind
  rw [cycle_behind]

theorem calls_behind (turn : Turn σ) : (turn.behind log).calls = turn.calls := by
  have watched : (turn.session.behind log).watched [] = (turn.session.watched []).behind log := rfl
  unfold Turn.calls Turn.behind
  rw [watched, cycle_behind]
  rfl

theorem cycles_behind (h : Host σ) (n : Nat) (s : Session σ) :
    cycles h n (s.behind log) = ((cycles h n s).1, (cycles h n s).2.behind log) ∧
      cycleTurns h n (s.behind log) = (cycleTurns h n s).map (Turn.behind log) := by
  induction n generalizing s with
  | zero => exact ⟨rfl, rfl⟩
  | succ n ih =>
    have asked : (s.behind log).world.stopRequested = s.world.stopRequested := rfl
    unfold cycles cycleTurns
    rw [asked, cycle_behind]
    split
    · exact ⟨rfl, rfl⟩
    · rcases s.cycle h with ⟨f | flow, t⟩
      · exact ⟨rfl, rfl⟩
      · obtain ⟨ended, turns⟩ := ih t
        exact ⟨ended, congrArg (Turn.behind log ⟨h, s⟩ :: ·) turns⟩

theorem cyclesUntilStop_behind (h : Host σ) (fuel : Nat) (s : Session σ) :
    cyclesUntilStop h fuel (s.behind log) =
      (cyclesUntilStop h fuel s).map fun r => (r.1, r.2.behind log) := by
  induction fuel generalizing s with
  | zero => rfl
  | succ fuel ih =>
    have asked : (s.behind log).world.stopRequested = s.world.stopRequested := rfl
    unfold cyclesUntilStop
    rw [asked, cycle_behind]
    split
    · rfl
    · rcases s.cycle h with ⟨f | flow, t⟩
      · rfl
      · exact ih t

theorem load_behind (program : List UInt8) (s : Session σ) :
    (s.behind log).load program = ((s.load program).1, (s.load program).2.behind log) := by
  have machine : (s.behind log).vm = s.vm := rfl
  unfold load
  rw [machine]
  cases s.vm.machine.load program with
  | error e => rfl
  | ok m =>
    have emitted := (World.unnoticed_behind log).emit s.world (.loaded program.length)
    change (_, ({ vm := _, world := World.emit (World.behind log s.world) _ } : Session σ)) = _
    rw [emitted]
    rfl

/-- A call answers the same behind other records, does the same, and adds the same records. -/
theorem perform_behind (c : Call σ) (s : Session σ) :
    (s.behind log).answer c = s.answer c ∧
      (s.behind log).perform c = (s.perform c).map (behind log) ∧
      (s.behind log).callTurns c = (s.callTurns c).map (Turn.behind log) := by
  cases c with
  | load program =>
    simp only [answer, perform, load_behind]
    exact ⟨trivial, rfl, rfl⟩
  | reset =>
    have emitted := (World.unnoticed_behind log).emit s.world .reset
    refine ⟨rfl, ?_, rfl⟩
    change some ({ vm := _, world := World.emit (World.behind log s.world) _ } : Session σ) = _
    rw [emitted]
    rfl
  | stop | connect devices => exact ⟨rfl, rfl, rfl⟩
  | cycle h =>
    simp only [answer, perform, cycle_behind]
    exact ⟨trivial, rfl, rfl⟩
  | runSteps h n =>
    obtain ⟨ended, turns⟩ := cycles_behind log h n (s.setRunning true)
    have ran : (s.behind log).runSteps h n =
        ((s.runSteps h n).1, (s.runSteps h n).2.behind log) := by
      have running : (s.behind log).setRunning true = (s.setRunning true).behind log := rfl
      rw [runSteps, running, ended]
      rfl
    simp only [answer, perform, ran]
    exact ⟨trivial, rfl, turns⟩
  | run h fuel =>
    obtain ⟨-, turns⟩ := cycles_behind log h fuel (s.setRunning true)
    have ran : (s.behind log).run h fuel =
        (s.run h fuel).map fun r => (r.1, r.2.behind log) := by
      have ended := cyclesUntilStop_behind log h fuel (s.setRunning true)
      change (cyclesUntilStop h fuel ((s.setRunning true).behind log)).map _ = _
      rw [ended, run, Option.map_map, Option.map_map]
      rfl
    simp only [answer, perform, ran, Option.map_map]
    exact ⟨rfl, rfl, turns⟩

theorem performAll_behind (calls : List (Call σ)) (s : Session σ) :
    (s.behind log).answers calls = s.answers calls ∧
      (s.behind log).performAll calls = (s.performAll calls).map (behind log) ∧
      (s.behind log).turns calls = (s.turns calls).map (Turn.behind log) := by
  induction calls generalizing s with
  | nil => exact ⟨rfl, rfl, rfl⟩
  | cons c rest ih =>
    obtain ⟨answer, performed, turns⟩ := perform_behind log c s
    simp only [answers, performAll, Session.turns, answer, performed, turns]
    cases s.perform c with
    | none => simp
    | some t =>
      obtain ⟨answers, all, later⟩ := ih t
      simp [answers, all, later]

/-! ### The state of a fresh machine -/

end Session

theorem Vm.restart_of_idle {vm : Vm} (idle : vm.running = false) (m : Machine) :
    vm.restart m = { Vm.new vm.config with machine := m } := by
  rw [restart, new, idle]

theorem Machine.withProgram_nil (m : Machine) : m.withProgram [] = m.reset := by
  simp only [withProgram, Memory.write, reset, initial]

theorem Memory.get_initial_write (program : List UInt8) {a : Nat} (within : a < 4096) :
    (Memory.initial.write Platform.programStart program).get a =
      if a < 80 then Platform.font[a]?.getD 0
      else if a < 512 then 0
      else program[a - 512]?.getD 0 := by
  rw [Memory.get_write]
  by_cases font : a < 80
  · have low : ¬(Platform.programStart ≤ a ∧ a < 4096) := by
      unfold Platform.programStart
      omega
    have glyph : Platform.font[a]? = some (Platform.font.get ⟨a, font⟩) :=
      List.getElem?_eq_getElem font
    rw [if_neg low, if_pos font, Memory.initial, Memory.get_write, if_pos ⟨Nat.zero_le a, within⟩,
      show a - Platform.fontStart = a from rfl, glyph]
    rfl
  · rw [if_neg font, Memory.get_initial (Nat.not_lt.1 font)]
    by_cases low : a < 512
    · rw [if_pos low, if_neg]
      unfold Platform.programStart
      omega
    · rw [if_neg low, if_pos ⟨Nat.not_lt.1 low, within⟩]

namespace Call

/-- The program that a call leaves in memory when it restarts the machine. -/
def program : Call σ → List UInt8
  | .load program => program
  | _ => []

/-- What a call records when it restarts the machine. -/
def record : Call σ → Record
  | .load program => .loaded program.length
  | _ => .reset

end Call

namespace Session

/-- A session that has just been switched on with a program at its place. -/
def fresh (config : Config) (stream : Random) (program : List UInt8) (world : World σ) :
    Session σ where
  vm := { Vm.new config with machine := (Machine.initial stream).withProgram program }
  world := world

theorem load_of_le {s : Session σ} {program : List UInt8} (idle : s.vm.running = false)
    (fits : program.length ≤ Platform.programCapacity) :
    s.load program = (.ok (), fresh s.vm.config s.vm.machine.random program
      (s.world.emit (.loaded program.length))) := by
  unfold load Machine.load
  rw [if_pos fits]
  dsimp only
  rw [Vm.restart_of_idle idle]
  rfl

theorem load_of_lt {s : Session σ} {program : List UInt8}
    (large : Platform.programCapacity < program.length) :
    s.load program =
      (.error (.programTooLarge program.length Platform.programCapacity), s) := by
  unfold load Machine.load
  rw [if_neg (Nat.not_le.2 large)]

theorem reset_eq {s : Session σ} (idle : s.vm.running = false) :
    s.reset = fresh s.vm.config s.vm.machine.random [] (s.world.emit .reset) := by
  unfold reset
  rw [Vm.restart_of_idle idle, fresh, Machine.withProgram_nil]
  rfl

/-- A call that restarts the machine answers the same whatever went before, and leaves a fresh
machine. -/
theorem perform_of_restarts {s : Session σ} {c : Call σ} (idle : s.vm.running = false)
    (restarts : c.restarts = true) :
    s.perform c = some (fresh s.vm.config s.vm.machine.random c.program
        (s.world.emit c.record)) ∧
      s.callTurns c = [] ∧ ∀ t : Session σ, t.answer c = s.answer c := by
  cases c with
  | load program =>
    have fits : program.length ≤ Platform.programCapacity := by
      simpa [Call.restarts] using restarts
    refine ⟨?_, rfl, fun t => ?_⟩
    · rw [perform, load_of_le idle fits]
      rfl
    · simp only [answer, load, Machine.load, if_pos fits]
  | reset =>
    refine ⟨?_, rfl, fun t => rfl⟩
    rw [perform, reset_eq idle]
    rfl
  | stop | connect | cycle | runSteps | run => cases restarts

/-- The records of a world come in front of those that follow. -/
theorem fresh_emit (config : Config) (stream : Random) (program : List UInt8) (w : World σ)
    (r : Record) :
    fresh config stream program (w.emit r) =
      (fresh config stream program { w with log := #[r] }).behind w.log := by
  have pushed : w.log.push r = w.log ++ #[r] := Array.push_eq_append
  unfold World.emit
  rw [pushed]
  rfl

/-- From a restart on, the machine goes through what a fresh one does in a world with an empty
log. -/
theorem performAll_of_restarts {s : Session σ} {c : Call σ} (idle : s.vm.running = false)
    (restarts : c.restarts = true) (rest : List (Call σ)) :
    let start := fresh s.vm.config s.vm.machine.random c.program
      { s.world with log := #[c.record] }
    s.answers (c :: rest) = s.answer c :: start.answers rest ∧
      s.performAll (c :: rest) = (start.performAll rest).map (behind s.world.log) ∧
      s.turns (c :: rest) = (start.turns rest).map (Turn.behind s.world.log) := by
  intro start
  obtain ⟨performed, turns, -⟩ := perform_of_restarts idle restarts
  rw [fresh_emit] at performed
  obtain ⟨answers, all, later⟩ := performAll_behind s.world.log rest start
  refine ⟨?_, ?_, ?_⟩
  · rw [Session.answers, performed]
    exact congrArg (s.answer c :: ·) answers
  · rw [performAll, performed]
    exact all
  · rw [Session.turns, turns, performed]
    exact later

end Session

namespace Checked

open Program

namespace Rig

/-- All that a rig has is written anew, whatever it held. -/
theorem run_load_of_le {program : List UInt8}
    (fits : program.length ≤ Platform.programCapacity) (r : Rig σ) :
    (load program).run r = .done (.ok ()) { r with
      bench := ⟨{ Store.initial r.bench.store.random with
          memory := (Memory.initial.write Platform.programStart program).cells },
        r.bench.world.emit (.loaded program.length)⟩
      stage := .fetching
      elapsed := 0.0 } := by
  simp only [load, run_bind, run_onBench, Bench.run_load_of_le fits, Outcome.mapState_done,
    Outcome.andThen_done]
  rfl

theorem run_load_of_lt {program : List UInt8}
    (large : Platform.programCapacity < program.length) (r : Rig σ) :
    (load program).run r =
      .done (.error (.programTooLarge program.length Platform.programCapacity)) r := by
  simp only [load, Bench.load, if_neg (Nat.not_le.2 large), run_bind, run_onBench, run_pure,
    Outcome.mapState_done, Outcome.andThen_done]

theorem run_reset (r : Rig σ) :
    reset.run r = .done () { r with
      bench := ⟨.initial r.bench.store.random, r.bench.world.emit .reset⟩
      stage := .fetching
      elapsed := 0.0 } := by
  simp only [reset, run_bind, run_touch, run_onBench, Bench.run_reset, Outcome.mapState_done,
    Outcome.andThen_done]
  rfl

end Rig

end Checked

/-- **No program leaks into the next one.**  Let two sessions have the same settings, random
numbers, devices and request to stop, and whatever programs, stacks, screens, timers and waits
before.  From a call on that restarts the machine, all calls answer the same on both, take the same
turns with the same calls on devices and the same results, and lead to the same state and the same
new records: what comes out is one outcome behind the records that either log had.  A program that
fits and a reset leave the machine that is switched on with it, with the font below it and zeros
elsewhere; a program that is too large leaves all as it is.  So it is in the checked virtual
machine, where each array is written anew, the unused slots of the call stack included. -/
theorem no_program_leaks :
    (∀ s₁ s₂ : Session σ, s₁.Reachable → s₂.Reachable → s₁.vm.config = s₂.vm.config →
      s₁.vm.machine.random = s₂.vm.machine.random →
      s₁.world.stopRequested = s₂.world.stopRequested →
      s₁.world.devices = s₂.world.devices →
      ∀ c : Call σ, c.restarts = true → ∀ rest,
        s₁.answers (c :: rest) = s₂.answers (c :: rest) ∧
        (∃ outcome : Option (Session σ),
          s₁.performAll (c :: rest) = outcome.map (Session.behind s₁.world.log) ∧
          s₂.performAll (c :: rest) = outcome.map (Session.behind s₂.world.log)) ∧
        (∃ turns : List (Turn σ),
          s₁.turns (c :: rest) = turns.map (Turn.behind s₁.world.log) ∧
          s₂.turns (c :: rest) = turns.map (Turn.behind s₂.world.log)) ∧
        (s₁.turns (c :: rest)).map Turn.calls = (s₂.turns (c :: rest)).map Turn.calls ∧
        (s₁.turns (c :: rest)).map Turn.result = (s₂.turns (c :: rest)).map Turn.result) ∧
    (∀ s : Session σ, s.Reachable →
      (∀ program : List UInt8, program.length ≤ 3584 →
        s.load program = (.ok (),
          { vm := { Vm.new s.vm.config with
              machine := { Machine.initial s.vm.machine.random with
                memory := Memory.initial.write 512 program } }
            world := s.world.emit (.loaded program.length) })) ∧
      s.reset =
        { vm := { Vm.new s.vm.config with machine := .initial s.vm.machine.random }
          world := s.world.emit .reset }) ∧
    (∀ (program : List UInt8) a, a < 4096 →
      (Memory.initial.write 512 program).get a =
        if a < 80 then Platform.font[a]?.getD 0
        else if a < 512 then 0
        else program[a - 512]?.getD 0) ∧
    (∀ (s : Session σ) (program : List UInt8), 3584 < program.length →
      s.load program = (.error (.programTooLarge program.length 3584), s)) ∧
    ∀ r : Checked.Rig σ,
      (∀ program : List UInt8, program.length ≤ 3584 →
        (Checked.Rig.load program).run r = .done (.ok ()) { r with
          bench := ⟨{ Checked.Store.initial r.bench.store.random with
              memory := (Memory.initial.write 512 program).cells },
            r.bench.world.emit (.loaded program.length)⟩
          stage := .fetching
          elapsed := 0.0 }) ∧
      (∀ program : List UInt8, 3584 < program.length →
        (Checked.Rig.load program).run r =
          .done (.error (.programTooLarge program.length 3584)) r) ∧
      Checked.Rig.reset.run r = .done () { r with
        bench := ⟨.initial r.bench.store.random, r.bench.world.emit .reset⟩
        stage := .fetching
        elapsed := 0.0 } := by
  refine ⟨?_, ?_, ?_, ?_, ?_⟩
  · intro s₁ s₂ reached₁ reached₂ config random stop devices c restarts rest
    have idle₁ := Session.running_of_reachable reached₁
    have idle₂ := Session.running_of_reachable reached₂
    obtain ⟨answers₁, all₁, turns₁⟩ := Session.performAll_of_restarts idle₁ restarts rest
    obtain ⟨answers₂, all₂, turns₂⟩ := Session.performAll_of_restarts idle₂ restarts rest
    obtain ⟨-, -, same⟩ := Session.perform_of_restarts idle₁ restarts
    have world : ({ s₂.world with log := #[c.record] } : World σ) =
        { s₁.world with log := #[c.record] } := by
      rw [World.mk.injEq]
      exact ⟨devices.symm, stop.symm, rfl⟩
    rw [← config, ← random, world] at answers₂ all₂ turns₂
    refine ⟨?_, ⟨_, all₁, all₂⟩, ⟨_, turns₁, turns₂⟩, ?_, ?_⟩
    · rw [answers₁, answers₂, same s₂]
    · rw [turns₁, turns₂, List.map_map, List.map_map]
      congr 1
      funext turn
      exact (Session.calls_behind _ turn).trans (Session.calls_behind _ turn).symm
    · rw [turns₁, turns₂, List.map_map, List.map_map]
      congr 1
      funext turn
      exact (Session.result_behind _ turn).trans (Session.result_behind _ turn).symm
  · intro s reached
    have idle := Session.running_of_reachable reached
    constructor
    · intro program fits
      exact Session.load_of_le idle fits
    · rw [Session.reset_eq idle, Session.fresh, Machine.withProgram_nil]
      rfl
  · intro program a within
    exact Memory.get_initial_write program within
  · intro s program large
    exact Session.load_of_lt large
  · intro r
    refine ⟨?_, ?_, Checked.Rig.run_reset r⟩
    · intro program fits
      exact Checked.Rig.run_load_of_le fits r
    · intro program large
      exact Checked.Rig.run_load_of_lt large r

/-- A machine that has executed `6007` and one that has done nothing yet go on alike when `1200` is
loaded. -/
theorem no_program_leaks_register :
    let h := Script.host { millis := fun _ => 0.0 }
    let s₂ := Session.start { seed := 0 } (.ofSeed 0) ({} : Console)
    let s₁ := ((s₂.load [0x60, 0x07]).2.cycle h).2.connect {}
    s₁.vm.machine.reg 0 = 7 ∧ s₂.vm.machine.reg 0 = 0 ∧
      s₁.answers [.load [0x12, 0x00], .runSteps h 9] =
        s₂.answers [.load [0x12, 0x00], .runSteps h 9] := by
  intro h s₂ s₁
  have fetched : (s₂.load [0x60, 0x07]).2.vm.machine.fetch? = some (Instr.encode (.load 0 7)) :=
    Machine.fetch?_withProgram (.initial (.ofSeed 0)) 0x60 0x07 []
  have cycled := Session.cycle_of_exec (h := h) rfl fetched (Instr.decode_encode _) rfl rfl
  obtain ⟨delay, sound, elapsed, vm⟩ :
      ∃ delay sound elapsed, s₁.vm = { s₂.vm with
        machine := { (s₂.load [0x60, 0x07]).2.vm.machine.advance.setReg 0 7 with
          dirty := false, delay := delay, sound := sound }
        elapsed := elapsed } := by
    change ∃ _ _ _, ((s₂.load [0x60, 0x07]).2.cycle h).2.vm = _
    rw [cycled]
    obtain ⟨delay, sound, elapsed, passed⟩ := Session.passTime_vm h (Session.present h _)
    refine ⟨delay, sound, elapsed, ?_⟩
    rw [passed, Session.present_vm]
    rfl
  have stop : s₁.world.stopRequested = s₂.world.stopRequested := by
    change ((s₂.load [0x60, 0x07]).2.cycle h).2.world.stopRequested = _
    rw [cycled, Session.passTime, Session.elapse_world rfl]
    rfl
  have reached₂ : s₂.Reachable := ⟨{ seed := 0 }, .ofSeed 0, {}, [], rfl⟩
  have reached₁ : s₁.Reachable :=
    ⟨{ seed := 0 }, .ofSeed 0, {}, [.load [0x60, 0x07], .cycle h, .connect {}], rfl⟩
  obtain ⟨alike, -⟩ := @no_program_leaks Console
  refine ⟨?_, rfl, (alike s₁ s₂ reached₁ reached₂ ?_ ?_ stop rfl _ rfl _).1⟩
  · rw [vm]
    exact (Machine.reg_setReg ..).trans (if_pos rfl)
  · rw [vm]
  · rw [vm]
    rfl

end ChipEight
