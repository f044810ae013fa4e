import ChipEight.CommandLine.FileTree
import ChipEight.CommandLine.Outcome
import ChipEight.Dump
import ChipEight.WallClock
/-!
# The program

`chip8 run FILE [OPTIONS]` runs a program paced by the wall clock and prints the last frame.
What to do and what to print is decided in `ChipEight.CommandLine`; here are only the file, the
clock and the streams.  The log goes to standard error; `CHIP8_LOG` sets the least level that is
written, or `off`.
-/

namespace ChipEight.CommandLine

/-- Whether a record is written: `limit` counts the levels from errors on, none at zero. -/
def isWritten (limit : Nat) : Level → Bool
  | .error => decide (1 ≤ limit)
  | .info => decide (3 ≤ limit)
  | .debug => decide (4 ≤ limit)

/-- The number of levels that a name admits. -/
def limitOf? : String → Option Nat
  | "off" => some 0
  | "error" => some 1
  | "warn" => some 2
  | "info" => some 3
  | "debug" => some 4
  | "trace" => some 5
  | _ => none

def writeLine (limit : Nat) (level : Level) (text : String) : IO Unit :=
  if isWritten limit level then IO.eprintln (level.name ++ " " ++ text) else return ()

/-- Writes the log of a session and empties it. -/
def flushLog (limit : Nat) (s : Session Console) : IO (Session Console) := do
  for r in s.world.log do
    writeLine limit r.level r.text
  return { s with world := { s.world with log := #[] } }

/-- Whether a failure has the system's number `n`, which some calls give negated. -/
def hasNumber (code n : UInt32) : Bool := code == n || code == 0 - n

/-- The reason why a file could not be read. -/
def fileError (e : IO.Error) : FileError :=
  match e with
  | .noFileOrDirectory .. => .notFound
  | .permissionDenied .. => .system 13 "PermissionDenied" "Permission denied"
  | .inappropriateType _ code _ => if hasNumber code 20 then .notADirectory else .isADirectory
  | .invalidArgument _ code _ => if hasNumber code 36 then .nameTooLong else .other (toString e)
  | _ => .other (toString e)

/-- A tick of the wall clock: it is that of a host whose clock reports the time that has passed.
What has been logged goes out before it waits. -/
def tick (limit : Nat) (clock : IO.Ref PacedClock) (s : Session Console) :
    IO (Float × Session Console) := do
  let s ← flushLog limit s
  let (millis, next) ← WallClock.tick (← clock.get)
  clock.set next
  return s.tick { millis := fun _ => millis : Script }.host

/-- More cycles than any host goes through: a century of them at a thousand million a second. -/
def lifetime : Nat := 4000000000000000000

/-- Writes what a command leaves behind, and gives its exit code. -/
def conclude (o : Outcome) : IO UInt32 := do
  IO.print o.stdout
  IO.eprint o.stderr
  return UInt32.ofNat o.exitCode

/-- A key from the random bytes of the host, four for each word. -/
def entropy : IO StreamKey := do
  let bytes ← IO.getRandomBytes 32
  return Vector.ofFn fun i : Fin 8 =>
    (List.range 4).foldr (fun k n => n * 256 + (bytes.data.getD (4 * i.val + k) 0).toUInt32) 0

def runFile (a : Arguments) : IO UInt32 := do
  let named := (← IO.getEnv "CHIP8_LOG").bind limitOf?
  let limit := named.getD (if a.debug then 4 else 3)
  writeLine limit .info ("load rom: " ++ a.file)
  match ← (IO.FS.readBinFile a.file).toBaseIO with
  | .error e => conclude (.failure (.file (fileError e)))
  | .ok bytes =>
    match (a.session (← entropy)).load bytes.toList with
    | (.error e, _) => conclude (.failure e)
    | (.ok (), s) =>
      let s ← flushLog limit s
      let host := { millis := fun _ => 0.0 : Script }.host
      let clock ← IO.mkRef (← WallClock.start s.vm.config.frequency)
      let began ← IO.monoNanosNow
      let some (result, s) ← a.runPaced host (tick limit clock) lifetime s | return 0
      let s ← flushLog limit s
      let screen := s.world.devices.screen
      let took := (← IO.monoNanosNow) - began
      writeLine limit .info ("time taken: " ++ toString (took / 1000000) ++ "ms, "
        ++ toString screen.frames ++ " frames, " ++ toString screen.beeps ++ " beeps")
      if let .error f := result then
        writeLine limit .error (Dump.registers s.vm.machine)
        writeLine limit .error ("program halted: " ++ f.message)
      conclude (.finished result screen)

end ChipEight.CommandLine

def main (words : List String) : IO UInt32 :=
  match ChipEight.CommandLine.Arguments.parse? words with
  | some a => ChipEight.CommandLine.runFile a
  | none => ChipEight.CommandLine.conclude .misuse
