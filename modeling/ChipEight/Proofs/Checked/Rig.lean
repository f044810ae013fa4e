import ChipEight.Proofs.Checked.Processor
import ChipEight.Proofs.Sessions
/-!
# The checked virtual machine

A `Rig` is a bench with what is needed to run it.  While it waits for a key it remembers the
register as a byte, which becomes an index when the key arrives.  Cycles, runs and calls from
outside are checked programs on a rig; `Rig.view` is the session that a rig stands for.
-/

namespace ChipEight.Checked

open Program

/-- What the next cycle does. -/
inductive Stage where
  | fetching
  | awaitingKey (register : UInt8)
  deriving DecidableEq, Repr

structure Rig (σ : Type) where
  bench : Bench σ
  stage : Stage
  elapsed : Float
  running : Bool
  config : Config

def Stage.mode : Stage → Mode
  | .fetching => .fetching
  | .awaitingKey register => .awaitingKey (Fin.ofNat 16 register.toNat)

/-- A byte that stands for a register is less than sixteen. -/
def Stage.Sound : Stage → Prop
  | .fetching => True
  | .awaitingKey register => register.toNat < 16

theorem toNat_ofNat_register (x : Register) : (UInt8.ofNat x.val).toNat = x.val := by
  have := x.isLt
  rw [UInt8.toNat_ofNat']
  omega

theorem exists_register {register : UInt8} (below : register.toNat < 16) :
    ∃ x : Register, register = UInt8.ofNat x.val :=
  ⟨⟨register.toNat, below⟩, UInt8.ofNat_toNat.symm⟩

namespace Stage

def after : Flow → Stage
  | .keyWait register => .awaitingKey (UInt8.ofNat register.val)
  | _ => .fetching

theorem mode_after (flow : Flow) : (after flow).mode = .after flow := by
  cases flow with
  | keyWait register =>
    change Mode.awaitingKey (Fin.ofNat 16 (UInt8.ofNat register.val).toNat) = .awaitingKey register
    rw [toNat_ofNat_register, Fin.ofNat_val_eq_self]
  | _ => rfl

theorem sound_after (flow : Flow) : (after flow).Sound := by
  cases flow with
  | keyWait register =>
    change (UInt8.ofNat register.val).toNat < 16
    rw [toNat_ofNat_register]
    exact register.isLt
  | _ => trivial

end Stage

namespace Rig

variable {σ : Type} {α : Type}

/-- The session that a rig stands for. -/
def view (r : Rig σ) : Session σ where
  vm := {
    machine := r.bench.store.view
    mode := r.stage.mode
    elapsed := r.elapsed
    running := r.running
    config := r.config }
  world := r.bench.world

structure Sound (r : Rig σ) : Prop where
  store : r.bench.store.Sound
  stage : r.stage.Sound

def start (config : Config) (stream : Random) (devices : σ) : Rig σ where
  bench := { store := .initial stream, world := { devices := devices } }
  stage := .fetching
  elapsed := 0.0
  running := false
  config := config

theorem view_start (config : Config) (stream : Random) (devices : σ) :
    (start config stream devices).view = Session.start config stream devices := by
  simp only [view, start, Store.view_initial]
  rfl

theorem sound_start (config : Config) (stream : Random) (devices : σ) :
    (start config stream devices).Sound := ⟨Store.sound_initial stream, trivial⟩

/-! ### Cycles -/

def onBench (p : Program (Bench σ) α) : Program (Rig σ) α :=
  within Rig.bench (fun b r => { r with bench := b }) p

def touch (f : World σ → World σ) : Program (Rig σ) Unit :=
  modify fun r => { r with bench := { r.bench with world := f r.bench.world } }

def enter (stage : Stage) : Program (Rig σ) Unit := modify fun r => { r with stage := stage }

/-- Fetches and executes the instruction at the program counter, which moves past it first,
wrapping at sixteen bits (`step`). -/
def step (h : Host σ) : Program (Rig σ) Notice := do
  let pc := (← get).bench.store.pc
  match ← onBench Bench.fetch with
  | none => raise (.pcOutOfRange pc)
  | some op =>
    onBench (Bench.goTo (pc + 2))
    let notice ← onBench (Bench.execute h op)
    match notice with
    | .keyWait register => enter (.awaitingKey register)
    | _ => pure ()
    return notice

/-- Shows the frame if it has changed (`take_display_dirty`, then `refresh`). -/
def present (h : Host σ) : Program (Rig σ) Unit := do
  let st := (← get).bench.store
  onBench (Bench.update fun st => { st with dirty := false })
  if st.dirty then
    touch fun w => w.accept (h.refresh ⟨st.pixels⟩ w.devices)

def awaitKey (h : Host σ) (register : UInt8) : Program (Rig σ) Notice := do
  match ← onBench (Bench.poll h) with
  | none => return .keyWait register
  | some key =>
    touch fun w => w.emit (.keyArrived key (Bench.named register.toNat))
    onBench (Bench.setReg register.toNat key.toByte)
    enter .fetching
    return .next

/-- Notes that a fault has ended the cycle. -/
def halt (f : Fault) (r : Rig σ) : Rig σ :=
  { r with
    bench := { r.bench with world := r.bench.world.emit (.stopped f) }
    running := false }

def work (h : Host σ) : Program (Rig σ) Notice := do
  match (← get).stage with
  | .awaitingKey register => awaitKey h register
  | .fetching =>
    let notice ← onFault (step h) halt
    present h
    return notice

/-- Gathers time and counts the timers down when it is enough (`advance_timers`). -/
def advanceTimers (h : Host σ) (millis : Float) : Program (Rig σ) Unit := do
  modify fun r => { r with elapsed := r.elapsed + millis }
  if (← get).elapsed > Platform.timerPeriod then
    onBench Bench.tickDelay
    if ← onBench Bench.tickSound then
      touch fun w => w.emit .soundOver
      touch fun w => w.accept (h.beep w.devices)
    modify fun r => { r with elapsed := 0.0 }

def tick (h : Host σ) : Program (Rig σ) Float := do
  let (millis, world) := (← get).bench.world.tick h
  touch fun _ => world
  return millis

/-- One cycle of the processor (`cycle`). -/
def cycle (h : Host σ) : Program (Rig σ) Notice := do
  let notice ← work h
  advanceTimers h (← tick h)
  return notice

/-! ### Runs -/

/-- Whether a stop is asked for; the request is withdrawn (`take_stop_request`). -/
def takeStop : Program (Rig σ) Bool := do
  let requested := (← get).bench.world.stopRequested
  touch fun w => { w with stopRequested := false }
  return requested

def setRunning (running : Bool) : Program (Rig σ) Unit :=
  modify fun r => { r with running := running }

def cycles (h : Host σ) : Nat → Program (Rig σ) (Except Fault Unit)
  | 0 => return .ok ()
  | n + 1 => do
    if ← takeStop then return .ok ()
    else
      match ← attempt (cycle h) with
      | .error f => return .error f
      | .ok _ => cycles h n

/-- Runs for at most `n` cycles (`run_steps`). -/
def runSteps (h : Host σ) (n : Nat) : Program (Rig σ) (Except Fault Unit) := do
  setRunning true
  let result ← cycles h n
  setRunning false
  return result

def cyclesUntilStop (h : Host σ) : Nat → Program (Rig σ) (Option (Except Fault Unit))
  | 0 => return none
  | fuel + 1 => do
    if ← takeStop then return some (.ok ())
    else
      match ← attempt (cycle h) with
      | .error f => return some (.error f)
      | .ok _ => cyclesUntilStop h fuel

/-- Runs until a stop or a fault, or until the fuel is used up (`run`). -/
def run (h : Host σ) (fuel : Nat) : Program (Rig σ) (Option (Except Fault Unit)) := do
  setRunning true
  let result ← cyclesUntilStop h fuel
  setRunning false
  return result

/-! ### Calls from outside -/

/-- Fetching, with no time gathered (`reset_control`). -/
def restart : Program (Rig σ) Unit := do
  enter .fetching
  modify fun r => { r with elapsed := 0.0 }

/-- Loads a program and restarts (`load_bytecode`). -/
def load (program : List UInt8) : Program (Rig σ) (Except Error Unit) := do
  match ← onBench (Bench.load program) with
  | .error e => return .error e
  | .ok _ =>
    restart
    return .ok ()

/-- Returns the rig to the state in which it was switched on (`reset`). -/
def reset : Program (Rig σ) Unit := do
  touch fun w => w.emit .reset
  onBench Bench.reset
  restart

/-- A call, and whether it ends. -/
def perform : Call σ → Program (Rig σ) Bool
  | .load program => do
    let _ ← load program
    return true
  | .reset => do
    reset
    return true
  | .stop => do
    touch World.stop
    return true
  | .connect devices => do
    touch fun w => { w with devices := devices }
    return true
  | .cycle h => do
    let _ ← attempt (cycle h)
    return true
  | .runSteps h n => do
    let _ ← runSteps h n
    return true
  | .run h fuel => do return (← run h fuel).isSome

def performAll : List (Call σ) → Program (Rig σ) Bool
  | [] => return true
  | c :: rest => do
    if ← perform c then performAll rest else return false

end Rig

end ChipEight.Checked
