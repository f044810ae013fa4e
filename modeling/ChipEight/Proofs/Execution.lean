import ChipEight.Vm.Cycle
/-!
# What one step can do

An instruction fails exactly when something is in its way (`Instr.exec_eq_error_iff`), which
depends on the machine and not on the keypad.  `Machine.Execution` lists the ways in which an
opcode can be executed and `Session.Course` the courses that a cycle can take, with the guard and
the whole outcome of each; `Machine.execution` and `Session.course` say that there are no others.
Later proofs go by cases on these and leave the definitions alone.
-/

namespace ChipEight

variable {σ : Type}

namespace Instr

/-- What is in the way of `length` bytes at `I`. -/
def shortfall? (m : Machine) (length : Nat) : Option Cause :=
  if m.InReach length then none else some (m.beyondReach length)

/-- What is in the way of an instruction. -/
def obstacle? (m : Machine) : Instr → Option Cause
  | .ret => if m.stack.depth = 0 then some .stackUnderflow else none
  | .call _ => if m.stack.depth = 16 then some .stackOverflow else none
  | .draw _ _ rows => shortfall? m rows.val
  | .decimal _ => shortfall? m 3
  | .store x | .fill x => shortfall? m (x.val + 1)
  | _ => none

/-- An instruction fails with what is in its way, whatever the keypad reports. -/
theorem exec_eq_error_iff {key : Option Key} {m : Machine} {i : Instr} {cause : Cause} :
    i.exec key m = .error cause ↔ i.obstacle? m = some cause := by
  cases i with
  | call target =>
    simp only [exec, obstacle?]
    split <;> rename_i pushed
    · have room : m.stack.depth ≠ 16 := fun full => by
        simp [(m.stack.push?_eq_none_iff m.pc).2 full] at pushed
      simp [room]
    · simp [(m.stack.push?_eq_none_iff m.pc).1 pushed]
  | ret =>
    simp only [exec, obstacle?]
    split <;> rename_i popped
    · have some_call : m.stack.depth ≠ 0 := fun empty => by
        simp [m.stack.pop?_eq_none_iff.2 empty] at popped
      simp [some_call]
    · simp [m.stack.pop?_eq_none_iff.1 popped]
  | draw x y rows | decimal x | store x | fill x =>
    simp only [exec, obstacle?, shortfall?]
    split <;> simp_all
  | _ => simp [exec, obstacle?]

theorem exec_eq_ok_of_obstacle?_eq_none {m : Machine} {i : Instr} (key : Option Key)
    (free : i.obstacle? m = none) : ∃ flow m', i.exec key m = .ok (flow, m') := by
  cases result : i.exec key m with
  | ok r => exact ⟨r.1, r.2, rfl⟩
  | error cause =>
    rw [exec_eq_error_iff, free] at result
    cases result

/-- The instructions that look at the keypad cannot fail. -/
theorem readsKey_of_obstacle? {m : Machine} {i : Instr} {cause : Cause}
    (blocked : i.obstacle? m = some cause) : i.readsKey = false := by
  cases i with
  | skipKey x | skipNoKey x => simp [obstacle?] at blocked
  | _ => rfl

end Instr

/-! ### Opcodes -/

namespace World

/-- Looks at the keypad on behalf of an instruction, if it reads it. -/
def askFor (h : Host σ) (i : Instr) (w : World σ) : Option Key × World σ :=
  if i.readsKey then w.poll h else (none, w)

theorem askFor_of_readsKey_eq_false {h : Host σ} {i : Instr} {w : World σ}
    (silent : i.readsKey = false) : w.askFor h i = (none, w) := by
  simp [askFor, silent]

end World

namespace Machine

/-- The ways in which an opcode is executed, each with its outcome. -/
inductive Execution (h : Host σ) (op : Opcode) (m : Machine) (w : World σ) :
    Except Fault (Flow × Machine) × World σ → Prop where
  | undecoded {cause : Cause} (decoded : Instr.decode op = .error cause) :
      Execution h op m w (.error (.instruction cause m.currentAddress op), w)
  | blocked {i : Instr} {cause : Cause} (decoded : Instr.decode op = .ok i)
      (obstacle : i.obstacle? m = some cause) :
      Execution h op m w (.error (.instruction cause m.currentAddress op),
        w.emit (.executing m.currentAddress i))
  | done {i : Instr} {flow : Flow} {m' : Machine} (decoded : Instr.decode op = .ok i)
      (free : i.obstacle? m = none)
      (effect : i.exec ((w.emit (.executing m.currentAddress i)).askFor h i).1 m =
        .ok (flow, m')) :
      Execution h op m w (.ok (flow, m'),
        ((w.emit (.executing m.currentAddress i)).askFor h i).2)

theorem execute_of_decode {h : Host σ} {op : Opcode} {m : Machine} {w : World σ} {i : Instr}
    (decoded : Instr.decode op = .ok i) :
    m.execute h op w =
      match i.exec ((w.emit (.executing m.currentAddress i)).askFor h i).1 m with
      | .error cause => (.error (.instruction cause m.currentAddress op),
          ((w.emit (.executing m.currentAddress i)).askFor h i).2)
      | .ok result => (.ok result, ((w.emit (.executing m.currentAddress i)).askFor h i).2) := by
  simp only [execute, decoded]
  rfl

theorem execution (h : Host σ) (op : Opcode) (m : Machine) (w : World σ) :
    Execution h op m w (m.execute h op w) := by
  cases decoded : Instr.decode op with
  | error cause =>
    have result : m.execute h op w = (.error (.instruction cause m.currentAddress op), w) := by
      simp only [execute, decoded]
    rw [result]
    exact .undecoded decoded
  | ok i =>
    rw [execute_of_decode decoded]
    cases obstacle : i.obstacle? m with
    | some cause =>
      have silent := Instr.readsKey_of_obstacle? obstacle
      simp only [World.askFor_of_readsKey_eq_false silent, Instr.exec_eq_error_iff.2 obstacle]
      exact .blocked decoded obstacle
    | none =>
      obtain ⟨flow, m', effect⟩ := Instr.exec_eq_ok_of_obstacle?_eq_none
        ((w.emit (.executing m.currentAddress i)).askFor h i).1 obstacle
      simp only [effect]
      exact .done decoded obstacle effect

/-- An opcode that is executed is that of an instruction, and has its effect. -/
theorem exec_of_execute {h : Host σ} {op : Opcode} {m m' : Machine} {w : World σ} {flow : Flow}
    (done : (m.execute h op w).1 = .ok (flow, m')) :
    ∃ i key, Instr.decode op = .ok i ∧ i.exec key m = .ok (flow, m') := by
  have ran := m.execution h op w
  generalize m.execute h op w = outcome at ran done
  cases ran with
  | undecoded | blocked => cases done
  | @done i _ _ decoded free effect =>
    cases done
    exact ⟨i, _, decoded, effect⟩

end Machine

/-! ### Cycles -/

namespace Session

/-- The end of a cycle: the clock ticks and the time that has passed is gathered. -/
def passTime (h : Host σ) (s : Session σ) : Session σ :=
  { s with world := (s.world.tick h).2 }.elapse h (s.world.tick h).1

def afterInstr (s : Session σ) (flow : Flow) (m : Machine) (w : World σ) : Session σ where
  vm := { s.vm with machine := m, mode := .after flow }
  world := w

/-- The courses that a cycle takes, each with its outcome. -/
inductive Course (h : Host σ) (s : Session σ) : Except Fault Flow × Session σ → Prop where
  | outOfRange (mode : s.vm.mode = .fetching) (fetched : s.vm.machine.fetch? = none) :
      Course h s (.error (.pcOutOfRange s.vm.machine.pc),
        { vm := { s.vm with running := false }
          world := s.world.emit (.stopped (.pcOutOfRange s.vm.machine.pc)) })
  | fault {op : Opcode} {f : Fault} {w : World σ} (mode : s.vm.mode = .fetching)
      (fetched : s.vm.machine.fetch? = some op)
      (executed : s.vm.machine.advance.execute h op s.world = (.error f, w)) :
      Course h s (.error f,
        { vm := { s.vm with machine := s.vm.machine.advance, running := false }
          world := w.emit (.stopped f) })
  | instr {op : Opcode} {flow : Flow} {m : Machine} {w : World σ}
      (mode : s.vm.mode = .fetching) (fetched : s.vm.machine.fetch? = some op)
      (executed : s.vm.machine.advance.execute h op s.world = (.ok (flow, m), w)) :
      Course h s (.ok flow, ((s.afterInstr flow m w).present h).passTime h)
  | noKey {r : Register} {w : World σ} (mode : s.vm.mode = .awaitingKey r)
      (polled : s.world.poll h = (none, w)) :
      Course h s (.ok (.keyWait r), { s with world := w }.passTime h)
  | key {r : Register} {k : Key} {w : World σ} (mode : s.vm.mode = .awaitingKey r)
      (polled : s.world.poll h = (some k, w)) :
      Course h s (.ok .next,
        (s.afterInstr .next (s.vm.machine.setReg r k.toByte) (w.emit (.keyArrived k r))).passTime h)

theorem course (h : Host σ) (s : Session σ) : Course h s (s.cycle h) := by
  cases mode : s.vm.mode with
  | awaitingKey r =>
    cases polled : s.world.poll h with
    | mk answer w =>
      cases answer with
      | none =>
        have result : s.cycle h = (.ok (.keyWait r), { s with world := w }.passTime h) := by
          simp only [cycle, work, mode, awaitKey, polled]
          rfl
        rw [result]
        exact .noKey mode polled
      | some k =>
        have result : s.cycle h = (.ok .next, (s.afterInstr .next
            (s.vm.machine.setReg r k.toByte) (w.emit (.keyArrived k r))).passTime h) := by
          simp only [cycle, work, mode, awaitKey, polled]
          rfl
        rw [result]
        exact .key mode polled
  | fetching =>
    cases fetched : s.vm.machine.fetch? with
    | none =>
      have result : s.cycle h = (.error (.pcOutOfRange s.vm.machine.pc),
          { vm := { s.vm with running := false }
            world := s.world.emit (.stopped (.pcOutOfRange s.vm.machine.pc)) }) := by
        simp only [cycle, work, mode, step, fetched]
      rw [result]
      exact .outOfRange mode fetched
    | some op =>
      cases executed : s.vm.machine.advance.execute h op s.world with
      | mk outcome w =>
        cases outcome with
        | error f =>
          have result : s.cycle h = (.error f,
              { vm := { s.vm with machine := s.vm.machine.advance, running := false }
                world := w.emit (.stopped f) }) := by
            simp only [cycle, work, mode, step, fetched, executed]
          rw [result]
          exact .fault mode fetched executed
        | ok done =>
          have result : s.cycle h =
              (.ok done.1, ((s.afterInstr done.1 done.2 w).present h).passTime h) := by
            simp only [cycle, work, mode, step, fetched, executed]
            rfl
          rw [result]
          exact .instr mode fetched executed

/-- The course of a cycle whose instruction is known. -/
theorem cycle_of_exec {h : Host σ} {s : Session σ} {op : Opcode} {i : Instr} {flow : Flow}
    {m : Machine} (mode : s.vm.mode = .fetching) (fetched : s.vm.machine.fetch? = some op)
    (decoded : Instr.decode op = .ok i) (silent : i.readsKey = false)
    (effect : i.exec none s.vm.machine.advance = .ok (flow, m)) :
    s.cycle h = (.ok flow, ((s.afterInstr flow m
      (s.world.emit (.executing s.vm.machine.advance.currentAddress i))).present h).passTime h) := by
  simp only [cycle, work, mode, step, fetched, Machine.execute_of_decode decoded,
    World.askFor_of_readsKey_eq_false silent, effect]
  rfl

/-- The buzzer is all that time has the world do. -/
theorem elapse_world {h : Host σ} {millis : Float} {s : Session σ}
    (silent : s.vm.machine.buzzes = false) : (s.elapse h millis).world = s.world := by
  by_cases due : s.vm.elapsed + millis > Platform.timerPeriod
  · rw [show s.elapse h millis = s.countDown h from if_pos due, countDown, silent]
    rfl
  · rw [show s.elapse h millis = _ from if_neg due]

theorem countDown_vm (h : Host σ) (s : Session σ) :
    (s.countDown h).vm =
      { s.vm with machine := s.vm.machine.tickDelay.tickSound, elapsed := 0.0 } := by
  unfold countDown
  split <;> rfl

/-- The end of a cycle changes the machine's timers and the time gathered, and nothing else of
the virtual machine. -/
theorem passTime_vm (h : Host σ) (s : Session σ) :
    ∃ delay sound elapsed, (s.passTime h).vm =
      { s.vm with
        machine := { s.vm.machine with delay := delay, sound := sound }, elapsed := elapsed } := by
  have either : ∀ (millis : Float) (t : Session σ), (t.elapse h millis).vm = (t.countDown h).vm ∨
      (t.elapse h millis).vm = { t.vm with elapsed := t.vm.elapsed + millis } := by
    intro millis t
    by_cases due : t.vm.elapsed + millis > Platform.timerPeriod
    · exact .inl (congrArg vm (if_pos due))
    · exact .inr (congrArg vm (if_neg due))
  rcases either (s.world.tick h).1 { s with world := (s.world.tick h).2 } with result | result
  · rw [countDown_vm] at result
    exact ⟨_, _, _, result⟩
  · exact ⟨_, _, _, result⟩

theorem passTime_mode (h : Host σ) (s : Session σ) : (s.passTime h).vm.mode = s.vm.mode := by
  obtain ⟨_, _, _, after⟩ := passTime_vm h s
  rw [after]

theorem passTime_running (h : Host σ) (s : Session σ) :
    (s.passTime h).vm.running = s.vm.running := by
  obtain ⟨_, _, _, after⟩ := passTime_vm h s
  rw [after]

/-- Showing the frame changes nothing of the virtual machine but the mark on the frame, which is
off afterwards. -/
theorem present_vm (h : Host σ) (s : Session σ) :
    (s.present h).vm = { s.vm with machine := { s.vm.machine with dirty := false } } := by
  unfold present
  split
  · rfl
  · rename_i clean
    simp only [Bool.not_eq_true] at clean
    rw [← clean]

end Session

end ChipEight
