import ChipEight.CommandLine.Arguments
import ChipEight.Host.Console
import ChipEight.Vm.Paced
/-!
# What the command does

From the words of a command to what it prints and its exit code.  Words that are no command get
the usage and exit code 64.  A file that cannot be read and a program that is too large are
reported, with exit code 1.  Otherwise the program is run with no key ever down, and the frame
that the screen received last is printed, whatever ended the run.  The log is apart from this: its
lines go out while the command runs, and `--debug` changes nothing else.
-/

namespace ChipEight.CommandLine

/-- What a process leaves behind, apart from its log. -/
structure Outcome where
  exitCode : Nat
  stdout : String := ""
  stderr : String := ""
  deriving DecidableEq, Repr

/-- How the command is used. -/
def usage : String :=
  "\n".intercalate
    ["",
      "usage: chip8 run FILE [OPTIONS]",
      "",
      "commands:",
      "    run     Run the target ROM file",
      "",
      "options:",
      "    --frequency HZ  CPU clock frequency, 0 runs unthrottled (default 1760000)",
      "    --steps N       Stop after N cycles",
      "    --seed N        Seed for the random number generator",
      "    --debug         Trace every executed instruction",
      "",
      "examples:",
      "    chip8 run breakout.rom",
      "    chip8 run maze.rom --frequency 0 --steps 5000",
      ""]

namespace Outcome

/-- The answer to words that are no command (`print_usage`). -/
def misuse : Outcome where
  exitCode := 64
  stdout := "Chip8 v" ++ Platform.version ++ "\n" ++ usage ++ "\n"

def report (e : Error) : String := "Error: " ++ e.report ++ "\n"

/-- An error before the run. -/
def failure (e : Error) : Outcome where
  exitCode := 1
  stderr := report e

/-- The end of a run, with the screen it left. -/
def finished (result : Except Fault Unit) (screen : Screen) : Outcome :=
  match result with
  | .ok () => { exitCode := 0, stdout := screen.text ++ "\n" }
  | .error f => { exitCode := 1, stdout := screen.text ++ "\n", stderr := report (.fault f) }

end Outcome

namespace Arguments

/-- Where the random numbers come from: the seed that is given, or else a key of the system. -/
def origin (a : Arguments) (entropy : StreamKey) : Seed :=
  match a.seed with
  | some n => .number n
  | none => .system entropy

/-- A session with the settings of the arguments; `entropy` is the system's key. -/
def session (a : Arguments) (entropy : StreamKey) : Session Console :=
  .new { clockFrequency := a.frequency.map Frequency.mk, seed := a.origin entropy } {}

/-- Runs a session as long as the arguments say. -/
def run (a : Arguments) (h : Host Console) (fuel : Nat) (s : Session Console) :
    Option (Except Fault Unit × Session Console) :=
  match a.steps with
  | some count => some (s.runSteps h count.toNat)
  | none => s.run h fuel

/-- `run` with a clock that ticks in a monad. -/
@[specialize] def runPaced {m : Type → Type} [Monad m] (a : Arguments) (h : Host Console)
    (tick : Session Console → m (Float × Session Console)) (fuel : Nat) (s : Session Console) :
    m (Option (Except Fault Unit × Session Console)) :=
  match a.steps with
  | some count => some <$> s.runStepsPaced h tick count.toNat
  | none => s.runPaced h tick fuel

/-- Paced by the clock of the host, it is the same run. -/
theorem run_eq_paced (a : Arguments) (h : Host Console) (fuel : Nat) (s : Session Console) :
    a.run h fuel s = (a.runPaced (m := Id) h (fun s => pure (s.tick h)) fuel s).run := by
  unfold run runPaced
  split
  · rw [Session.runSteps_eq_paced]
    rfl
  · exact Session.run_eq_paced ..

end Arguments

/-- What the command does with its words, given the files, the milliseconds of each tick and a key
of the system; nothing if the run has not ended when the fuel is used up (`main` and
`run_bytecode`). -/
def outcome? (files : String → Except FileError (List UInt8)) (millis : Nat → Float)
    (entropy : StreamKey) (fuel : Nat) (words : List String) : Option Outcome :=
  match Arguments.parse? words with
  | none => some .misuse
  | some a =>
    match files a.file with
    | .error e => some (.failure (.file e))
    | .ok program =>
      match (a.session entropy).load program with
      | (.error e, _) => some (.failure e)
      | (.ok (), s) =>
        (a.run { millis := millis : Script }.host fuel s).map fun (result, s) =>
          .finished result s.world.devices.screen

end ChipEight.CommandLine
