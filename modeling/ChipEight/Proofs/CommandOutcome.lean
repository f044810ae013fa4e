import ChipEight.CommandLine.Outcome
import ChipEight.Proofs.FreshStarts
import ChipEight.Proofs.Keypads
import ChipEight.Proofs.Presentation
/-!
# What the command leaves behind

`CommandLine.Ending` lists the ways in which the command ends.  Where a program has been run, the
screen that is printed is the frame of the machine at the end of the run: the screen is in step
with the machine from the beginning, when both are blank, and every cycle keeps it so, whether it
shows the frame, faults or waits (`Session.InStep.cycle`).  The screen is printed in strips as they
lie in the buffer, the machine's frame by coordinates; both give the same text
(`Frame.printed_eq_text`).
-/

namespace ChipEight

/-! ### Two ways to print a frame -/

namespace Frame

theorem strips_eq {count : Nat} {cells : List Bool} (length : cells.length = 64 * count) :
    strips cells = (List.range count).map fun y => (cells.drop (64 * y)).take 64 := by
  induction count generalizing cells with
  | zero =>
    obtain rfl := List.length_eq_zero_iff.1 length
    rw [strips]
    rfl
  | succ count ih =>
    have full : ¬cells.isEmpty = true := by
      rw [List.isEmpty_iff, ← List.length_eq_zero_iff]
      omega
    have rest : (cells.drop 64).length = 64 * count := by
      rw [List.length_drop]
      omega
    rw [strips, if_neg full]
    change cells.take 64 :: strips (cells.drop 64) = _
    rw [ih rest, List.range_succ_eq_map, List.map_cons, List.map_map]
    congr 1
    apply List.map_congr_left
    intro y _
    change ((cells.drop 64).drop (64 * y)).take 64 = (cells.drop (64 * (y + 1))).take 64
    rw [List.drop_drop, Nat.mul_succ, Nat.add_comm]

theorem take_drop_eq_row (f : Frame) {y : Nat} (within : y < 32) :
    (f.pixels.toList.drop (64 * y)).take 64 = f.row y := by
  have length : f.pixels.toList.length = 2048 := Vector.length_toList
  have row_length : (f.row y).length = 64 := by rw [row, List.length_map, List.length_range]
  apply List.ext_getElem
  · rw [List.length_take, List.length_drop, length, row_length]
    omega
  · intro x left right
    have column : x < 64 := by
      rw [List.length_take] at left
      omega
    have place : 64 * y + x = (⟨x, y⟩ : Point).index.val := by
      rw [Point.val_index]
      change 64 * y + x = x % 64 + y % 32 * 64
      omega
    simp only [List.getElem_take, List.getElem_drop, row, List.getElem_map, List.getElem_range,
      isOn, place, Vector.getElem_toList]
    rfl

/-- The strips of the buffer are the rows of the frame. -/
theorem printed_eq_text (f : Frame) : f.printed = f.text := by
  have length : f.pixels.toList.length = 64 * 32 := Vector.length_toList
  have same : strips f.pixels.toList = f.rows := by
    rw [strips_eq length, rows]
    apply List.map_congr_left
    intro y mem
    exact take_drop_eq_row f (List.mem_range.1 mem)
  rw [printed, same, text]

end Frame

/-! ### The screen in step -/

namespace Session

variable {σ : Type} {h : Host σ} {shown : σ → Option Frame}

/-- The screen has the frame of the machine, whether this bears a mark or not. -/
def InStep (shown : σ → Option Frame) (s : Session σ) : Prop :=
  shown s.world.devices = some s.vm.machine.frame

/-- A cycle that waits for a key shows nothing. -/
theorem shown_of_waiting {s : Session σ} {r : Register} (shows : h.ShowsOn shown)
    (waiting : s.vm.mode = .awaitingKey r) :
    shown (s.cycle h).2.world.devices = shown s.world.devices := by
  have looked : shown (s.world.poll h).2.devices = shown s.world.devices :=
    shows.poll s.world.devices
  have run := s.course h
  generalize s.cycle h = result at run
  cases run with
  | outOfRange mode | fault mode | instr mode =>
    rw [waiting] at mode
    cases mode
  | noKey mode polled | key mode polled =>
    rw [polled] at looked
    rw [shows.passTime]
    exact looked

/-- A cycle that faults shows nothing and leaves the frame alone, one that waits does so too, and
any other shows the frame that it leaves, unless it left it as it was. -/
theorem InStep.cycle (shows : h.ShowsOn shown) {s : Session σ} (inStep : s.InStep shown) :
    (s.cycle h).2.InStep shown := by
  cases mode : s.vm.mode with
  | awaitingKey r =>
    obtain ⟨-, frame⟩ := frame_of_waiting (h := h) mode
    unfold InStep
    rw [frame, shown_of_waiting shows mode]
    exact inStep
  | fetching =>
    rcases cycled : s.cycle h with ⟨f | flow, t⟩
    · obtain ⟨-, vm, devices, -⟩ := eq_of_cycle_eq_error cycled
      unfold InStep
      rw [vm, devices]
      exact inStep
    · obtain ⟨_, _, _, -, -, -, -, clean, -⟩ :=
        shows_of_executed mode (congrArg Prod.fst cycled)
      have upToDate : s.UpToDate shown := fun _ => inStep
      have after := upToDate.cycle shows clean
      rw [cycled] at after
      exact after

theorem InStep.runSteps (shows : h.ShowsOn shown) {s : Session σ} (inStep : s.InStep shown)
    (n : Nat) : (s.runSteps h n).2.InStep shown := by
  have ran : (cycles h n (s.setRunning true)).2.InStep shown := by
    apply cycles_induction h
    · intro t held
      exact held.cycle shows
    · intro t held
      exact held
    · exact inStep
  exact ran

theorem InStep.run (shows : h.ShowsOn shown) {s : Session σ} (inStep : s.InStep shown) {fuel : Nat}
    {r : Except Fault Unit × Session σ} (done : s.run h fuel = some r) : r.2.InStep shown := by
  rw [← run_eq_runSteps done]
  exact inStep.runSteps shows fuel

end Session

/-! ### No key -/

/-- No key will ever be down. -/
def Console.Silent (c : Console) : Prop := ∀ n, c.answers n = none

/-- Where no key will ever be down, none is reported at any turn of a run. -/
theorem Console.Silent.key_eq_none {script : Script} {n : Nat} {s : Session Console}
    (silent : s.world.devices.Silent) :
    ∀ turn ∈ Session.cycleTurns script.host n s, turn.key = none := by
  induction n generalizing s with
  | zero =>
    intro turn mem
    cases mem
  | succ n ih =>
    intro turn mem
    unfold Session.cycleTurns at mem
    split at mem
    · cases mem
    · rcases List.mem_cons.1 mem with rfl | later
      · exact (Host.Scripted.key _ script.host_scripted).trans (silent 0)
      · rcases cycled : s.cycle script.host with ⟨f | flow, t⟩
        · rw [cycled] at later
          cases later
        · rw [cycled] at later
          refine ih ?_ turn later
          intro k
          have next := script.host_scripted.after ⟨script.host, s⟩ k
          rw [Turn.after, cycled] at next
          exact next.trans (silent _)

/-! ### How the command ends -/

namespace CommandLine

/-- The call that a run comes to. -/
def Arguments.call (a : Arguments) (h : Host Console) (fuel : Nat) : Call Console :=
  match a.steps with
  | some count => .runSteps h count.toNat
  | none => .run h fuel

variable (files : String → Except FileError (List UInt8)) (millis : Nat → Float)
  (entropy : StreamKey) (fuel : Nat) (words : List String)

/-- The ways in which the command ends. -/
inductive Ending : Outcome → Prop where
  | rejected (parsed : Arguments.parse? words = none) : Ending .misuse
  | unreadable {a : Arguments} {e : FileError} (parsed : Arguments.parse? words = some a)
      (file : files a.file = .error e) : Ending (.failure (.file e))
  | tooLarge {a : Arguments} {program : List UInt8} (parsed : Arguments.parse? words = some a)
      (file : files a.file = .ok program) (large : Platform.programCapacity < program.length) :
      Ending (.failure (.programTooLarge program.length Platform.programCapacity))
  | ran {a : Arguments} {program : List UInt8} {s t : Session Console}
      {result : Except Fault Unit} (parsed : Arguments.parse? words = some a)
      (file : files a.file = .ok program) (fits : program.length ≤ Platform.programCapacity)
      (loaded : (a.session entropy).load program = (.ok (), s))
      (run : a.run { millis := millis : Script }.host fuel s = some (result, t)) :
      Ending (.finished result t.world.devices.screen)

/-- A program runs forever, as far as the fuel lasts. -/
def Endless : Prop :=
  ∃ a program s, Arguments.parse? words = some a ∧ files a.file = .ok program ∧
    program.length ≤ Platform.programCapacity ∧
    (a.session entropy).load program = (.ok (), s) ∧
    a.run { millis := millis : Script }.host fuel s = none

/-- The command ends in one of these ways, or a program runs forever. -/
theorem ending :
    (∃ o, outcome? files millis entropy fuel words = some o ∧
      Ending files millis entropy fuel words o) ∨
    outcome? files millis entropy fuel words = none ∧
      Endless files millis entropy fuel words := by
  cases parsed : Arguments.parse? words with
  | none =>
    simp only [outcome?, parsed]
    exact .inl ⟨_, rfl, .rejected parsed⟩
  | some a =>
    cases file : files a.file with
    | error e =>
      simp only [outcome?, parsed, file]
      exact .inl ⟨_, rfl, .unreadable parsed file⟩
    | ok program =>
      by_cases fits : program.length ≤ Platform.programCapacity
      · have loaded : (a.session entropy).load program = (.ok (), _) :=
          Session.load_of_le rfl fits
        simp only [outcome?, parsed, file, loaded]
        cases run : a.run { millis := millis : Script }.host fuel _ with
        | none => exact .inr ⟨rfl, a, program, _, parsed, file, fits, loaded, run⟩
        | some r => exact .inl ⟨_, rfl, .ran parsed file fits loaded run⟩
      · have large : Platform.programCapacity < program.length := Nat.not_le.1 fits
        simp only [outcome?, parsed, file, Session.load_of_lt large]
        exact .inl ⟨_, rfl, .tooLarge parsed file large⟩

/-- The screen of the command shows no window, but keeps its frame. -/
theorem showsOn : (Script.host { millis := millis }).ShowsOn fun c => some c.screen.frame := by
  refine @Script.host_showsOn_of _ (fun screen => some screen.frame) rfl ?_ ?_
  · intro screen frame
    rfl
  · intro screen
    rfl

variable {files millis entropy fuel words}

section

variable {a : Arguments} {program : List UInt8} {s t : Session Console}
  {result : Except Fault Unit}

/-- A run starts at the frequency that is given, on the random numbers of the seed that is given or
else of the system's key, with a blank screen and no key. -/
theorem eq_fresh_of_load (loaded : (a.session entropy).load program = (.ok (), s)) :
    s = .fresh { clockFrequency := a.frequency.map Frequency.mk, seed := a.origin entropy }
      (.ofSeed (a.origin entropy)) program { devices := {}, log := #[.loaded program.length] } := by
  by_cases fits : program.length ≤ Platform.programCapacity
  · rw [Session.load_of_le rfl fits] at loaded
    cases loaded
    rfl
  · rw [Session.load_of_lt (Nat.not_le.1 fits)] at loaded
    cases loaded

theorem inStep_of_run (loaded : (a.session entropy).load program = (.ok (), s))
    (run : a.run { millis := millis : Script }.host fuel s = some (result, t)) :
    t.world.devices.screen.frame = t.vm.machine.frame := by
  have start : s.InStep fun c => some c.screen.frame := by
    rw [eq_fresh_of_load loaded]
    rfl
  have ended : t.InStep fun c => some c.screen.frame := by
    unfold Arguments.run at run
    split at run
    · cases run
      exact start.runSteps (showsOn millis) _
    · exact start.run (showsOn millis) run
  exact Option.some.inj ended

theorem key_eq_none_of_load (loaded : (a.session entropy).load program = (.ok (), s)) :
    ∀ turn ∈ s.callTurns (a.call { millis := millis : Script }.host fuel), turn.key = none := by
  have silent : (s.setRunning true).world.devices.Silent := by
    intro n
    rw [eq_fresh_of_load loaded]
    rfl
  unfold Arguments.call
  split
  · exact silent.key_eq_none
  · exact silent.key_eq_none

theorem run_of_le {more : Nat} (le : fuel ≤ more) {h : Host Console}
    (run : a.run h fuel s = some (result, t)) : a.run h more s = some (result, t) := by
  unfold Arguments.run at run ⊢
  split
  · rename_i count steps
    rwa [steps] at run
  · rename_i steps
    rw [steps] at run
    obtain ⟨r, done, same⟩ := Option.map_eq_some_iff.1 run
    exact Option.map_eq_some_iff.2 ⟨r, Session.cyclesUntilStop_of_le le done, same⟩

end

/-! ### What the outcomes say -/

namespace Outcome

variable (result : Except Fault Unit) (screen : Screen)

theorem finished_stdout : (finished result screen).stdout = screen.text ++ "\n" := by
  rcases result with f | ⟨⟩
  · rfl
  · rfl

theorem finished_stdout_ne : (finished result screen).stdout ≠ "" := by
  rw [finished_stdout]
  simp

end Outcome

section

variable {o : Outcome} (answer : outcome? files millis entropy fuel words = some o)

include answer

theorem ending_of_outcome? : Ending files millis entropy fuel words o := by
  rcases ending files millis entropy fuel words with ⟨_, other, ends⟩ | ⟨endless, -⟩
  · cases answer.symm.trans other
    exact ends
  · cases answer.symm.trans endless

/-- An answer does not depend on the fuel. -/
theorem outcome?_of_le {more : Nat} (le : fuel ≤ more) :
    outcome? files millis entropy more words = some o := by
  cases ending_of_outcome? answer with
  | rejected parsed => simp only [outcome?, parsed]
  | unreadable parsed file => simp only [outcome?, parsed, file]
  | tooLarge parsed file large => simp only [outcome?, parsed, file, Session.load_of_lt large]
  | ran parsed file fits loaded run =>
    simp only [outcome?, parsed, file, loaded, run_of_le le run, Option.map_some]

theorem exitCode_eq_misuse_iff : o.exitCode = 64 ↔ Arguments.parse? words = none := by
  cases ending_of_outcome? answer with
  | rejected parsed => exact iff_of_true rfl parsed
  | unreadable parsed | tooLarge parsed => simp [parsed, Outcome.failure]
  | @ran a program s t result parsed =>
    rcases result with f | ⟨⟩
    · simp [parsed, Outcome.finished]
    · simp [parsed, Outcome.finished]

/-- There is no screen just where there is no run. -/
theorem no_screen_iff : o.exitCode = 1 ∧ o.stdout = "" ↔
    ∃ a, Arguments.parse? words = some a ∧ ((∃ e, files a.file = .error e) ∨
      ∃ program, files a.file = .ok program ∧ 3584 < program.length) := by
  cases ending_of_outcome? answer with
  | rejected parsed =>
    refine iff_of_false (by simp [Outcome.misuse]) ?_
    rintro ⟨a, accepted, -⟩
    cases parsed.symm.trans accepted
  | unreadable parsed file => exact iff_of_true ⟨rfl, rfl⟩ ⟨_, parsed, .inl ⟨_, file⟩⟩
  | tooLarge parsed file large =>
    exact iff_of_true ⟨rfl, rfl⟩ ⟨_, parsed, .inr ⟨_, file, large⟩⟩
  | ran parsed file fits =>
    refine iff_of_false (fun said => Outcome.finished_stdout_ne _ _ said.2) ?_
    rintro ⟨a', parsed', other⟩
    cases parsed.symm.trans parsed'
    rcases other with ⟨e, file'⟩ | ⟨program', file', large⟩
    · cases file.symm.trans file'
    · cases file.symm.trans file'
      exact absurd fits (Nat.not_le.2 large)

theorem ran_of_fits {a : Arguments} {program : List UInt8}
    (parsed : Arguments.parse? words = some a) (file : files a.file = .ok program)
    (fits : program.length ≤ 3584) :
    ∃ s t result, (a.session entropy).load program = (.ok (), s) ∧
      a.run { millis := millis : Script }.host fuel s = some (result, t) ∧
      o = .finished result t.world.devices.screen := by
  cases ending_of_outcome? answer with
  | rejected parsed' => cases parsed.symm.trans parsed'
  | unreadable parsed' file' =>
    cases parsed.symm.trans parsed'
    cases file.symm.trans file'
  | tooLarge parsed' file' large =>
    cases parsed.symm.trans parsed'
    cases file.symm.trans file'
    exact absurd fits (Nat.not_le.2 large)
  | ran parsed' file' _ loaded run =>
    cases parsed.symm.trans parsed'
    cases file.symm.trans file'
    exact ⟨_, _, _, loaded, run, rfl⟩

end

/-- Only a run without a number of steps can go on forever. -/
theorem outcome?_eq_none_iff : outcome? files millis entropy fuel words = none ↔
    ∃ a program s, Arguments.parse? words = some a ∧ files a.file = .ok program ∧
      program.length ≤ 3584 ∧ (a.session entropy).load program = (.ok (), s) ∧
      a.steps = none ∧ s.run (Script.host { millis := millis }) fuel = none := by
  constructor
  · intro endless
    rcases ending files millis entropy fuel words with ⟨_, ends, -⟩ | ⟨-, endless⟩
    · cases endless.symm.trans ends
    · obtain ⟨a, program, s, parsed, file, fits, loaded, run⟩ := endless
      unfold Arguments.run at run
      split at run
      · cases run
      · exact ⟨a, program, s, parsed, file, fits, loaded, ‹_›, run⟩
  · rintro ⟨a, program, s, parsed, file, -, loaded, steps, run⟩
    simp only [outcome?, parsed, file, loaded, Arguments.run, steps, run, Option.map_none]

/-- **The command, end to end.**  Whatever its words, the files, the clock and the key that the
system draws, the command either ends, and then in the same way however much fuel there is, or it
runs a program without a number of steps and the run does not end.  It exits with 64, and prints
the usage and nothing else, just when the words are rejected; it prints no screen and exits with 1
just when the file cannot be read or is larger than 3584 bytes.  Otherwise it runs the program, for
as many steps as it is told or until it ends, with no key ever down, at the frequency that it is
told, and on the random numbers of the seed that it is told or, without one, of the key that the
system has drawn.  It prints one screen: the frame of the machine at the end of the run, which is
the frame that the screen was shown last, whichever way it is written, also when the run has
faulted or has executed nothing.  It exits with 0 when the run has ended well, and with 1 when it
has faulted, with the kind of the fault and its numbers on the error output. -/
theorem command_outcome (files : String → Except FileError (List UInt8)) (millis : Nat → Float)
    (entropy : StreamKey) (words : List String) :
    (∀ fuel o, outcome? files millis entropy fuel words = some o →
      (o.exitCode = 64 ↔ Arguments.parse? words = none) ∧
      (Arguments.parse? words = none → o.stderr = "" ∧
        o.stdout = "Chip8 v" ++ Platform.version ++ "\n" ++ usage ++ "\n") ∧
      (o.exitCode = 1 ∧ o.stdout = "" ↔ ∃ a, Arguments.parse? words = some a ∧
        ((∃ e, files a.file = .error e) ∨
          ∃ program, files a.file = .ok program ∧ 3584 < program.length)) ∧
      ∀ a program, Arguments.parse? words = some a → files a.file = .ok program →
        program.length ≤ 3584 →
        ∃ s t result, (a.session entropy).load program = (.ok (), s) ∧
          s.vm.config.clockFrequency = a.frequency.map Frequency.mk ∧
          (∀ n, a.seed = some n → s.vm.machine.random = .ofSeed (.number n)) ∧
          (a.seed = none → s.vm.machine.random = ⟨entropy, 0⟩) ∧
          (∀ count, a.steps = some count →
            s.runSteps (Script.host { millis := millis }) count.toNat = (result, t)) ∧
          (a.steps = none → s.run (Script.host { millis := millis }) fuel = some (result, t)) ∧
          (∀ turn ∈ s.callTurns (a.call (Script.host { millis := millis }) fuel),
            turn.key = none) ∧
          t.world.devices.screen.frame = t.vm.machine.frame ∧
          o.stdout = t.vm.machine.frame.text ++ "\n" ∧
          o.stdout = t.world.devices.screen.frame.printed ++ "\n" ∧
          (o.exitCode = 0 ↔ result = .ok ()) ∧ (result = .ok () → o.stderr = "") ∧
          ∀ f, result = .error f → o.exitCode = 1 ∧ o.stderr = "Error: " ++ f.kind ++ " \x7b " ++
            ", ".intercalate (f.fields.map fun field => field.1 ++ ": " ++ Nat.repr field.2) ++
            " \x7d" ++ "\n") ∧
    (∀ fuel, outcome? files millis entropy fuel words = none ↔
      ∃ a program s, Arguments.parse? words = some a ∧ files a.file = .ok program ∧
        program.length ≤ 3584 ∧ (a.session entropy).load program = (.ok (), s) ∧
        a.steps = none ∧ s.run (Script.host { millis := millis }) fuel = none) ∧
    ∀ fuel more o, fuel ≤ more → outcome? files millis entropy fuel words = some o →
      outcome? files millis entropy more words = some o := by
  refine ⟨?_, fun fuel => outcome?_eq_none_iff,
    fun fuel more o le answer => outcome?_of_le answer le⟩
  intro fuel o answer
  refine ⟨exitCode_eq_misuse_iff answer, ?_, no_screen_iff answer, ?_⟩
  · intro parsed
    have misuse : o = .misuse := by
      rw [outcome?, parsed] at answer
      exact (Option.some.inj answer).symm
    rw [misuse]
    exact ⟨rfl, rfl⟩
  · intro a program parsed file fits
    obtain ⟨s, t, result, loaded, run, rfl⟩ := ran_of_fits answer parsed file fits
    have same := inStep_of_run loaded run
    have stdout := Outcome.finished_stdout result t.world.devices.screen
    have start := eq_fresh_of_load loaded
    have frequency : s.vm.config.clockFrequency = a.frequency.map Frequency.mk := by
      rw [start]
      rfl
    have random : s.vm.machine.random = .ofSeed (a.origin entropy) := by
      rw [start]
      rfl
    refine ⟨s, t, result, loaded, frequency, ?_, ?_, ?_, ?_, key_eq_none_of_load loaded, same,
      ?_, ?_, ?_⟩
    · intro n seed
      rw [random, Arguments.origin, seed]
    · intro seed
      rw [random, Arguments.origin, seed]
      rfl
    · intro count steps
      rw [Arguments.run, steps] at run
      exact Option.some.inj run
    · intro steps
      rw [Arguments.run, steps] at run
      exact run
    · rw [stdout, Screen.text, Frame.printed_eq_text, same]
    · rw [stdout, Screen.text]
    · rcases result with f | ⟨⟩
      · refine ⟨by simp [Outcome.finished], nofun, ?_⟩
        rintro _ ⟨⟩
        exact ⟨rfl, rfl⟩
      · exact ⟨by simp [Outcome.finished], fun _ => rfl, nofun⟩

/-- A program that returns where nothing was called is reported, below a blank screen. -/
theorem command_outcome_fault :
    ∃ o, outcome? (fun _ => .ok [0x00, 0xEE]) (fun _ => 0.0) (.replicate 8 0) 0
        ["run", "rom.ch8", "--steps", "1"] = some o ∧
      o.exitCode = 1 ∧ o.stdout = Frame.blank.text ++ "\n" ∧
      o.stderr = "Error: StackUnderflow \x7b pc: 512, opcode: 238 \x7d\n" := by
  have parsed : Arguments.parse? ["run", "rom.ch8", "--steps", "1"] =
      some { file := "rom.ch8", steps := some 1 } := by decide
  obtain ⟨answers, endless, -⟩ := command_outcome (fun _ => .ok [0x00, 0xEE]) (fun _ => 0.0)
    (.replicate 8 0) ["run", "rom.ch8", "--steps", "1"]
  cases answer : outcome? (fun _ => .ok [0x00, 0xEE]) (fun _ => 0.0) (.replicate 8 0) 0
      ["run", "rom.ch8", "--steps", "1"] with
  | none =>
    obtain ⟨a, _, _, parsed', -, -, -, steps, -⟩ := (endless 0).1 answer
    cases parsed.symm.trans parsed'
    cases steps
  | some o =>
    obtain ⟨-, -, -, ran⟩ := answers 0 o answer
    obtain ⟨s, t, result, loaded, -, -, -, run, -, -, -, stdout, -, -, -, failed⟩ :=
      ran _ [0x00, 0xEE] parsed rfl (by decide)
    have started : s.setRunning true =
        (Session.fresh { seed := .system (.replicate 8 0) } ⟨.replicate 8 0, 0⟩ [0x00, 0xEE]
          { devices := {}, log := #[.loaded 2] }).setRunning true := by
      rw [eq_fresh_of_load loaded]
      rfl
    have fetched : (s.setRunning true).vm.machine.fetch? = some 0x00EE := by
      rw [started]
      exact Machine.fetch?_withProgram (.initial ⟨.replicate 8 0, 0⟩) 0x00 0xEE []
    have refused : (s.setRunning true).vm.machine.advance.Refuses 0x00EE .stackUnderflow := by
      rw [started]
      exact ⟨rfl, rfl⟩
    obtain ⟨faulted, vm⟩ := Session.cycle_of_refuses
      (h := Script.host { millis := fun _ => 0.0 }) (by rw [started]; rfl) fetched refused
    have ends : (s.setRunning true).EndsAfter (Script.host { millis := fun _ => 0.0 }) 0
        (.error _, _) :=
      .fault (fun _ lt => absurd lt (Nat.not_lt_zero _)) (by rw [started]; rfl) faulted
    have done := run 1 rfl
    rw [Session.runSteps, ends.cycles_eq (by decide)] at done
    cases done
    have frame : (Session.afterCycles (Script.host { millis := fun _ => 0.0 }) 1
        (s.setRunning true)).vm.machine.frame = .blank := by
      change (Session.cycle _ _).2.vm.machine.frame = _
      rw [vm, started]
      rfl
    obtain ⟨code, stderr⟩ := failed _ rfl
    refine ⟨o, rfl, code, ?_, ?_⟩
    · rw [stdout, ← frame]
      rfl
    · have pc : (s.setRunning true).vm.machine.pc = 512 := by
        rw [started]
        rfl
      rw [stderr, pc]
      decide

end CommandLine

end ChipEight
