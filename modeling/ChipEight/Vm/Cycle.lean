import ChipEight.Vm
/-!
# Cycles

A cycle executes one instruction and shows the frame if it has changed, or looks for the key that
the program waits for.  Then the clock ticks, and the timers count down if enough time has
gathered.  A fault ends the cycle before the frame is shown and before the clock ticks.
-/

namespace ChipEight.Session

variable {σ : Type}

/-- Fetches and executes the instruction at the program counter (`step`). -/
def step (h : Host σ) (s : Session σ) : Except Fault Flow × Session σ :=
  match s.vm.machine.fetch? with
  | none => (.error (.pcOutOfRange s.vm.machine.pc), s)
  | some op =>
    match s.vm.machine.advance.execute h op s.world with
    | (.error f, world) =>
      (.error f, { vm := { s.vm with machine := s.vm.machine.advance }, world := world })
    | (.ok (flow, machine), world) =>
      (.ok flow, { vm := { s.vm with machine := machine, mode := .after flow }, world := world })

/-- Shows the frame if it has changed (`take_display_dirty`, then `refresh`). -/
def present (h : Host σ) (s : Session σ) : Session σ :=
  if s.vm.machine.dirty then
    { vm := { s.vm with machine := { s.vm.machine with dirty := false } }
      world := s.world.accept (h.refresh s.vm.machine.frame s.world.devices) }
  else s

/-- Looks for a key to store in the register. -/
def awaitKey (h : Host σ) (r : Register) (s : Session σ) : Flow × Session σ :=
  match s.world.poll h with
  | (none, world) => (.keyWait r, { s with world := world })
  | (some key, world) =>
    (.next,
      { vm := { s.vm with machine := s.vm.machine.setReg r key.toByte, mode := .fetching }
        world := world.emit (.keyArrived key r) })

/-- The part of a cycle before the clock ticks. -/
def work (h : Host σ) (s : Session σ) : Except Fault Flow × Session σ :=
  match s.vm.mode with
  | .awaitingKey r =>
    let (flow, s) := s.awaitKey h r
    (.ok flow, s)
  | .fetching =>
    match s.step h with
    | (.ok flow, s) => (.ok flow, s.present h)
    | (.error f, s) =>
      (.error f, { vm := { s.vm with running := false }, world := s.world.emit (.stopped f) })

/-- Counts the timers down by one, and sounds the buzzer when the sound timer runs out. -/
def countDown (h : Host σ) (s : Session σ) : Session σ :=
  let vm := { s.vm with machine := s.vm.machine.tickDelay.tickSound, elapsed := 0.0 }
  if s.vm.machine.buzzes then
    let world := s.world.emit .soundOver
    { vm := vm, world := world.accept (h.beep world.devices) }
  else { vm := vm, world := s.world }

/-- Gathers the milliseconds that have passed.  The timers count down when more than their period
has gathered; what is over is dropped, so that they never catch up (`advance_timers`). -/
def elapse (h : Host σ) (millis : Float) (s : Session σ) : Session σ :=
  let total := s.vm.elapsed + millis
  if total > Platform.timerPeriod then s.countDown h
  else { s with vm := { s.vm with elapsed := total } }

/-- One cycle of the processor (`cycle`). -/
def cycle (h : Host σ) (s : Session σ) : Except Fault Flow × Session σ :=
  match s.work h with
  | (.error f, s) => (.error f, s)
  | (.ok flow, s) =>
    let (millis, world) := s.world.tick h
    (.ok flow, { s with world := world }.elapse h millis)

end ChipEight.Session
