import ChipEight.Proofs.Execution
/-!
# Device calls

`Host.watched` behaves as a host does and keeps a list of the calls made on its devices.  Watching
changes nothing (`Session.watched_cycle`), so the list tells which calls a cycle makes, in which
order and with what answers; `Session.deviceCalls` says it without the watching.
-/

namespace ChipEight

variable {σ : Type}

/-- A call on a device, with what was shown or answered. -/
inductive DeviceCall where
  | refresh (frame : Frame)
  | beep
  | poll (key : Option Key)
  | tick (millis : Float)

/-- Devices and the calls made on them, the oldest first. -/
structure Watched (σ : Type) where
  devices : σ
  calls : List DeviceCall

def Reply.watched (r : Reply σ) (calls : List DeviceCall) : Reply (Watched σ) where
  devices := ⟨r.devices, calls⟩
  stop := r.stop
  log := r.log

/-- The host that keeps a list of calls. -/
def Host.watched (h : Host σ) : Host (Watched σ) where
  refresh f d := (h.refresh f d.devices).watched (d.calls ++ [.refresh f])
  beep d := (h.beep d.devices).watched (d.calls ++ [.beep])
  poll d :=
    let answer := h.poll d.devices
    (answer.1, answer.2.watched (d.calls ++ [.poll answer.1]))
  tick d :=
    let answer := h.tick d.devices
    (answer.1, answer.2.watched (d.calls ++ [.tick answer.1]))

namespace World

def watched (w : World σ) (calls : List DeviceCall) : World (Watched σ) where
  devices := ⟨w.devices, calls⟩
  stopRequested := w.stopRequested
  log := w.log

theorem watched_emit (w : World σ) (calls : List DeviceCall) (r : Record) :
    (w.watched calls).emit r = (w.emit r).watched calls := rfl

theorem watched_poll (h : Host σ) (w : World σ) (calls : List DeviceCall) :
    (w.watched calls).poll h.watched =
      ((w.poll h).1, (w.poll h).2.watched (calls ++ [.poll (w.poll h).1])) := rfl

end World

def Instr.deviceCalls (h : Host σ) (w : World σ) (i : Instr) : List DeviceCall :=
  if i.readsKey then [.poll (w.poll h).1] else []

theorem World.watched_askFor (h : Host σ) (w : World σ) (calls : List DeviceCall) (i : Instr) :
    (w.watched calls).askFor h.watched i =
      ((w.askFor h i).1, (w.askFor h i).2.watched (calls ++ i.deviceCalls h w)) := by
  unfold askFor Instr.deviceCalls
  cases i.readsKey with
  | true => rfl
  | false => simp

namespace Machine

def deviceCalls (h : Host σ) (op : Opcode) (w : World σ) : List DeviceCall :=
  match Instr.decode op with
  | .error _ => []
  | .ok i => i.deviceCalls h w

theorem watched_execute (h : Host σ) (op : Opcode) (m : Machine) (w : World σ)
    (calls : List DeviceCall) :
    m.execute h.watched op (w.watched calls) =
      ((m.execute h op w).1, (m.execute h op w).2.watched (calls ++ deviceCalls h op w)) := by
  unfold deviceCalls
  cases decoded : Instr.decode op with
  | error cause => simp [execute, decoded]
  | ok i =>
    simp only [execute_of_decode decoded, World.watched_emit, World.watched_askFor]
    cases i.exec ((w.emit (.executing m.currentAddress i)).askFor h i).1 m <;> rfl

theorem deviceCalls_of_execute_eq_error {h : Host σ} {op : Opcode} {m : Machine} {w w' : World σ}
    {f : Fault} (failed : m.execute h op w = (.error f, w')) : deviceCalls h op w = [] := by
  have run := m.execution h op w
  rw [failed] at run
  unfold deviceCalls
  cases run with
  | undecoded decoded => rw [decoded]
  | blocked decoded obstacle =>
    simp only [decoded, Instr.deviceCalls, Instr.readsKey_of_obstacle? obstacle,
      Bool.false_eq_true, if_false]

end Machine

namespace Session

def watched (s : Session σ) (calls : List DeviceCall) : Session (Watched σ) where
  vm := s.vm
  world := s.world.watched calls

/-! ### The calls of the parts of a cycle -/

def stepCalls (h : Host σ) (s : Session σ) : List DeviceCall :=
  match s.vm.machine.fetch? with
  | none => []
  | some op => Machine.deviceCalls h op s.world

def presentCalls (s : Session σ) : List DeviceCall :=
  if s.vm.machine.dirty then [.refresh s.vm.machine.frame] else []

def elapseCalls (millis : Float) (s : Session σ) : List DeviceCall :=
  if s.vm.elapsed + millis > Platform.timerPeriod ∧ s.vm.machine.buzzes then [.beep] else []

def passTimeCalls (h : Host σ) (s : Session σ) : List DeviceCall :=
  .tick (s.world.tick h).1 ::
    elapseCalls (s.world.tick h).1 { s with world := (s.world.tick h).2 }

def workCalls (h : Host σ) (s : Session σ) : List DeviceCall :=
  match s.vm.mode with
  | .awaitingKey _ => [.poll (s.world.poll h).1]
  | .fetching =>
    match s.step h with
    | (.error _, _) => s.stepCalls h
    | (.ok _, t) => s.stepCalls h ++ t.presentCalls

def deviceCalls (h : Host σ) (s : Session σ) : List DeviceCall :=
  match s.work h with
  | (.error _, _) => s.workCalls h
  | (.ok _, t) => s.workCalls h ++ t.passTimeCalls h

/-! ### Watching changes nothing -/

theorem watched_step (h : Host σ) (s : Session σ) (calls : List DeviceCall) :
    (s.watched calls).step h.watched =
      ((s.step h).1, (s.step h).2.watched (calls ++ s.stepCalls h)) := by
  have machine : (s.watched calls).vm = s.vm := rfl
  have world : (s.watched calls).world = s.world.watched calls := rfl
  unfold step stepCalls
  rw [machine, world]
  cases s.vm.machine.fetch? with
  | none => simp [watched]
  | some op =>
    simp only [Machine.watched_execute]
    rcases s.vm.machine.advance.execute h op s.world with ⟨_ | ⟨flow, m⟩, w⟩ <;> rfl

theorem watched_present (h : Host σ) (s : Session σ) (calls : List DeviceCall) :
    (s.watched calls).present h.watched =
      (s.present h).watched (calls ++ s.presentCalls) := by
  have machine : (s.watched calls).vm = s.vm := rfl
  unfold present presentCalls
  rw [machine]
  cases s.vm.machine.dirty with
  | true => rfl
  | false => simp

theorem watched_elapse (h : Host σ) (millis : Float) (s : Session σ) (calls : List DeviceCall) :
    (s.watched calls).elapse h.watched millis =
      (s.elapse h millis).watched (calls ++ s.elapseCalls millis) := by
  have machine : (s.watched calls).vm = s.vm := rfl
  unfold elapse elapseCalls countDown
  simp only [machine]
  by_cases due : s.vm.elapsed + millis > Platform.timerPeriod
  · cases buzz : s.vm.machine.buzzes with
    | true => simp only [due, if_true, and_self]; rfl
    | false => simp [due, watched]
  · simp [due, watched]

theorem watched_work (h : Host σ) (s : Session σ) (calls : List DeviceCall) :
    (s.watched calls).work h.watched =
      ((s.work h).1, (s.work h).2.watched (calls ++ s.workCalls h)) := by
  have mode : (s.watched calls).vm.mode = s.vm.mode := rfl
  unfold work workCalls
  rw [mode]
  cases s.vm.mode with
  | awaitingKey r =>
    have world : (s.watched calls).world = s.world.watched calls := rfl
    simp only [awaitKey, world, World.watched_poll]
    rcases s.world.poll h with ⟨_ | key, w⟩ <;> rfl
  | fetching =>
    simp only [watched_step]
    rcases s.step h with ⟨f | flow, t⟩
    · rfl
    · simp only [watched_present, List.append_assoc]

theorem watched_passTime (h : Host σ) (s : Session σ) (calls : List DeviceCall) :
    (s.watched calls).passTime h.watched =
      (s.passTime h).watched (calls ++ s.passTimeCalls h) := by
  have ticked : (s.watched calls).passTime h.watched =
      (watched { s with world := (s.world.tick h).2 }
        (calls ++ [.tick (s.world.tick h).1])).elapse h.watched (s.world.tick h).1 := rfl
  rw [ticked, watched_elapse, List.append_assoc]
  rfl

/-- A watched cycle is the cycle, and its calls are added to the list. -/
theorem watched_cycle (h : Host σ) (s : Session σ) (calls : List DeviceCall) :
    (s.watched calls).cycle h.watched =
      ((s.cycle h).1, (s.cycle h).2.watched (calls ++ s.deviceCalls h)) := by
  unfold cycle deviceCalls
  rw [watched_work]
  rcases s.work h with ⟨f | flow, t⟩
  · rfl
  · have passed := watched_passTime h t (calls ++ s.workCalls h)
    rw [List.append_assoc] at passed
    exact congrArg (Prod.mk (Except.ok flow)) passed

/-- A cycle that faults makes no calls. -/
theorem deviceCalls_of_cycle_eq_error {h : Host σ} {s s' : Session σ} {f : Fault}
    (failed : s.cycle h = (.error f, s')) : s.deviceCalls h = [] := by
  have run := s.course h
  rw [failed] at run
  unfold deviceCalls workCalls stepCalls
  cases run with
  | outOfRange mode fetched => simp only [work, step, mode, fetched]
  | fault mode fetched executed =>
    simp only [work, step, mode, fetched, executed,
      Machine.deviceCalls_of_execute_eq_error executed]

end Session

end ChipEight
