import ChipEight.Proofs.Faults
import ChipEight.Proofs.Histories
/-!
# What a turn comes to

`Turn.Account` lists what a turn can come to: the instruction that it executes, its result, the
virtual machine that it leaves and the calls on devices that it makes, the oldest first.  The
virtual machine before, the key that the keypad reports and the time that the clock reports decide
between the five cases (`Turn.Account.eq`), and one of them always applies (`Turn.account`).
-/

namespace ChipEight

variable {σ : Type}

namespace Vm

/-! ### Time -/

/-- With these milliseconds the timers count down. -/
def isDue (millis : Float) (vm : Vm) : Bool := decide (vm.elapsed + millis > Platform.timerPeriod)

/-- The virtual machine when the clock has reported these milliseconds. -/
def elapse (millis : Float) (vm : Vm) : Vm :=
  if vm.isDue millis then { vm with machine := vm.machine.tickDelay.tickSound, elapsed := 0.0 }
  else { vm with elapsed := vm.elapsed + millis }

/-- The calls at the end of a cycle: a tick, and the buzzer when the sound timer runs out. -/
def timeCalls (millis : Float) (vm : Vm) : List DeviceCall :=
  .tick millis :: if vm.isDue millis && vm.machine.buzzes then [.beep] else []

/-- The virtual machines differ in their timers and in the time gathered, if at all. -/
def SameButTime (vm vm' : Vm) : Prop :=
  ∃ delay sound elapsed, vm' =
    { vm with
      machine := { vm.machine with delay := delay, sound := sound }, elapsed := elapsed }

theorem SameButTime.refl (vm : Vm) : vm.SameButTime vm := ⟨_, _, _, rfl⟩

theorem SameButTime.symm {vm vm' : Vm} (same : vm.SameButTime vm') : vm'.SameButTime vm := by
  obtain ⟨delay, sound, elapsed, rfl⟩ := same
  exact ⟨_, _, _, rfl⟩

theorem SameButTime.trans {vm vm' vm'' : Vm} (first : vm.SameButTime vm')
    (second : vm'.SameButTime vm'') : vm.SameButTime vm'' := by
  obtain ⟨delay, sound, elapsed, rfl⟩ := first
  obtain ⟨delay', sound', elapsed', rfl⟩ := second
  exact ⟨delay', sound', elapsed', rfl⟩

theorem sameButTime_elapse (millis : Float) (vm : Vm) : vm.SameButTime (vm.elapse millis) := by
  unfold elapse
  split
  · exact ⟨_, _, _, rfl⟩
  · exact ⟨_, _, _, rfl⟩

theorem mode_elapse (millis : Float) (vm : Vm) : (vm.elapse millis).mode = vm.mode := by
  obtain ⟨_, _, _, same⟩ := sameButTime_elapse millis vm
  rw [same]

theorem stack_elapse (millis : Float) (vm : Vm) :
    (vm.elapse millis).machine.stack = vm.machine.stack := by
  obtain ⟨_, _, _, same⟩ := sameButTime_elapse millis vm
  rw [same]

/-- Of the calls at the end of a cycle, those that meet a condition. -/
theorem countP_timeCalls (p : DeviceCall → Bool) (millis : Float) (vm : Vm) :
    (vm.timeCalls millis).countP p = (if p (.tick millis) then 1 else 0) +
      if vm.isDue millis && vm.machine.buzzes && p .beep then 1 else 0 := by
  unfold timeCalls
  rw [List.countP_cons, Nat.add_comm]
  cases vm.isDue millis && vm.machine.buzzes <;> simp [List.countP_singleton]

end Vm

namespace Session

theorem elapse_vm (h : Host σ) (millis : Float) (s : Session σ) :
    (s.elapse h millis).vm = s.vm.elapse millis := by
  unfold Vm.elapse Vm.isDue
  by_cases due : s.vm.elapsed + millis > Platform.timerPeriod
  · rw [show s.elapse h millis = s.countDown h from if_pos due, countDown_vm,
      if_pos (decide_eq_true due)]
  · rw [show s.elapse h millis = _ from if_neg due, if_neg (by simpa using due)]

theorem passTime_vm_eq (h : Host σ) (s : Session σ) :
    (s.passTime h).vm = s.vm.elapse (s.world.tick h).1 := elapse_vm ..

theorem passTimeCalls_eq (h : Host σ) (s : Session σ) :
    s.passTimeCalls h = s.vm.timeCalls (s.world.tick h).1 := by
  simp [passTimeCalls, elapseCalls, Vm.timeCalls, Vm.isDue]

end Session

/-! ### Accounts -/

namespace Instr

/-- The looks at the keypad that an instruction takes, if this key is down. -/
def looks (key : Option Key) (i : Instr) : List DeviceCall :=
  if i.readsKey then [.poll key] else []

theorem countP_looks (p : DeviceCall → Bool) (key : Option Key) (i : Instr) :
    (i.looks key).countP p = if i.readsKey && p (.poll key) then 1 else 0 := by
  unfold looks
  cases i.readsKey <;> simp [List.countP_singleton]

/-- What an instruction is told of the keypad, if this key is down. -/
def told (key : Option Key) (i : Instr) : Option Key := if i.readsKey then key else none

end Instr

/-- What an instruction learns by asking is what the keypad reports. -/
theorem World.fst_askFor_emit (h : Host σ) (i : Instr) (w : World σ) (r : Record) :
    ((w.emit r).askFor h i).1 = i.told (h.poll w.devices).1 := by
  unfold askFor Instr.told
  split <;> rfl

namespace Machine

theorem execute_of_told {h : Host σ} {op : Opcode} {i : Instr} {m m' : Machine} {w : World σ}
    {flow : Flow} (decoded : Instr.decode op = .ok i)
    (effect : i.exec (i.told (h.poll w.devices).1) m = .ok (flow, m')) :
    m.execute h op w =
      (.ok (flow, m'), ((w.emit (.executing m.currentAddress i)).askFor h i).2) := by
  rw [execute_of_decode decoded, World.fst_askFor_emit, effect]

/-- The frames that are shown after an instruction. -/
def shows (m : Machine) : List DeviceCall := if m.dirty then [.refresh m.frame] else []

theorem countP_shows (p : DeviceCall → Bool) (m : Machine) :
    m.shows.countP p = if m.dirty && p (.refresh m.frame) then 1 else 0 := by
  unfold shows
  cases m.dirty <;> simp [List.countP_singleton]

end Machine

namespace Turn

def result (turn : Turn σ) : Except Fault Flow := (turn.session.cycle turn.host).1

/-- What the keypad reports, if it is looked at. -/
def key (turn : Turn σ) : Option Key := (turn.host.poll turn.session.world.devices).1

/-- What the clock reports when the work of the turn is done. -/
def millis (turn : Turn σ) : Float :=
  ((turn.session.work turn.host).2.world.tick turn.host).1

/-- The calls on devices, as a watched turn has them. -/
def calls (turn : Turn σ) : List DeviceCall :=
  ((turn.session.watched []).cycle turn.host.watched).2.world.devices.calls

theorem calls_eq (turn : Turn σ) : turn.calls = turn.session.deviceCalls turn.host := by
  rw [calls, Session.watched_cycle]
  rfl

/-- What a turn can come to. -/
inductive Account (turn : Turn σ) :
    Option Executed → Except Fault Flow → Vm → List DeviceCall → Prop where
  | outOfRange (mode : turn.session.vm.mode = .fetching)
      (fetched : turn.session.vm.machine.fetch? = none) :
      Account turn none (.error (.pcOutOfRange turn.session.vm.machine.pc))
        { turn.session.vm with running := false } []
  | refused {op : Opcode} {cause : Cause} (mode : turn.session.vm.mode = .fetching)
      (fetched : turn.session.vm.machine.fetch? = some op)
      (refused : turn.session.vm.machine.advance.Refuses op cause) :
      Account turn none (.error (.instruction cause turn.session.vm.machine.pc op))
        { turn.session.vm with machine := turn.session.vm.machine.advance, running := false } []
  | executed {i : Instr} {flow : Flow} {m : Machine} (mode : turn.session.vm.mode = .fetching)
      (fetched : turn.session.vm.machine.fetch? = some (Instr.encode i))
      (effect : i.exec (i.told turn.key) turn.session.vm.machine.advance = .ok (flow, m)) :
      Account turn (some ⟨turn.session.vm.machine.pc, i⟩) (.ok flow)
        (Vm.elapse turn.millis
          { turn.session.vm with machine := { m with dirty := false }, mode := .after flow })
        (i.looks turn.key ++ m.shows ++
          Vm.timeCalls turn.millis { turn.session.vm with machine := m })
  | waited {r : Register} (mode : turn.session.vm.mode = .awaitingKey r)
      (key : turn.key = none) :
      Account turn none (.ok (.keyWait r)) (turn.session.vm.elapse turn.millis)
        (.poll none :: turn.session.vm.timeCalls turn.millis)
  | keyed {r : Register} {k : Key} (mode : turn.session.vm.mode = .awaitingKey r)
      (key : turn.key = some k) :
      Account turn none (.ok .next)
        (Vm.elapse turn.millis
          { turn.session.vm with
            machine := turn.session.vm.machine.setReg r k.toByte, mode := .fetching })
        (.poll (some k) :: turn.session.vm.timeCalls turn.millis)

end Turn

namespace Session

variable {h : Host σ} {s : Session σ}

/-! ### The work of a turn -/

theorem cycle_of_outOfRange (mode : s.vm.mode = .fetching) (fetched : s.vm.machine.fetch? = none) :
    (s.cycle h).1 = .error (.pcOutOfRange s.vm.machine.pc) ∧
      (s.cycle h).2.vm = { s.vm with running := false } := by
  simp only [cycle, work, mode, step, fetched, and_self]

theorem cycle_of_refuses {op : Opcode} {cause : Cause} (mode : s.vm.mode = .fetching)
    (fetched : s.vm.machine.fetch? = some op)
    (refused : s.vm.machine.advance.Refuses op cause) :
    (s.cycle h).1 = .error (.instruction cause s.vm.machine.pc op) ∧
      (s.cycle h).2.vm = { s.vm with machine := s.vm.machine.advance, running := false } := by
  have failed : (s.vm.machine.advance.execute h op s.world).1 =
      .error (.instruction cause s.vm.machine.pc op) :=
    (Machine.execute_eq_error_iff h op _ s.world).2
      ⟨cause, refused, by rw [Machine.currentAddress_advance]⟩
  rcases outcome : s.vm.machine.advance.execute h op s.world with ⟨f | done, w⟩
  · rw [outcome] at failed
    cases failed
    simp only [cycle, work, mode, step, fetched, outcome, and_self]
  · rw [outcome] at failed
    cases failed

theorem step_of_exec {i : Instr} {flow : Flow} {m : Machine}
    (fetched : s.vm.machine.fetch? = some (Instr.encode i))
    (effect : i.exec (i.told (h.poll s.world.devices).1) s.vm.machine.advance = .ok (flow, m)) :
    s.step h = (.ok flow,
      s.afterInstr flow m ((s.world.emit (.executing s.vm.machine.pc i)).askFor h i).2) := by
  simp only [step, fetched, Machine.execute_of_told (Instr.decode_encode i) effect,
    Machine.currentAddress_advance]
  rfl

theorem work_of_exec {i : Instr} {flow : Flow} {m : Machine} (mode : s.vm.mode = .fetching)
    (fetched : s.vm.machine.fetch? = some (Instr.encode i))
    (effect : i.exec (i.told (h.poll s.world.devices).1) s.vm.machine.advance = .ok (flow, m)) :
    (s.work h).1 = .ok flow ∧
      (s.work h).2.vm =
        { s.vm with machine := { m with dirty := false }, mode := .after flow } ∧
      s.workCalls h = i.looks (h.poll s.world.devices).1 ++ m.shows := by
  have stepped := step_of_exec fetched effect
  have looked : Machine.deviceCalls h (Instr.encode i) s.world =
      i.looks (h.poll s.world.devices).1 := by
    rw [Machine.deviceCalls, Instr.decode_encode]
    rfl
  simp only [work, workCalls, mode, stepped, stepCalls, fetched, looked, present_vm, true_and]
  exact ⟨rfl, rfl⟩

theorem work_of_noKey {r : Register} (mode : s.vm.mode = .awaitingKey r)
    (silent : (h.poll s.world.devices).1 = none) :
    (s.work h).1 = .ok (.keyWait r) ∧ (s.work h).2.vm = s.vm ∧ s.workCalls h = [.poll none] := by
  have polled : s.world.poll h = (none, (s.world.poll h).2) := Prod.ext silent rfl
  simp only [work, workCalls, mode, awaitKey]
  rw [polled]
  exact ⟨rfl, rfl, rfl⟩

theorem work_of_key {r : Register} {k : Key} (mode : s.vm.mode = .awaitingKey r)
    (down : (h.poll s.world.devices).1 = some k) :
    (s.work h).1 = .ok .next ∧
      (s.work h).2.vm =
        { s.vm with machine := s.vm.machine.setReg r k.toByte, mode := .fetching } ∧
      s.workCalls h = [.poll (some k)] := by
  have polled : s.world.poll h = (some k, (s.world.poll h).2) := Prod.ext down rfl
  simp only [work, workCalls, mode, awaitKey]
  rw [polled]
  exact ⟨rfl, rfl, rfl⟩

end Session

namespace Turn

variable {turn : Turn σ}

theorem executed?_of_waiting {r : Register} (mode : turn.session.vm.mode = .awaitingKey r) :
    turn.executed? = none := by
  simp only [executed?, mode]

theorem executed?_of_error {f : Fault} (failed : turn.result = .error f) :
    turn.executed? = none := by
  cases did : turn.executed? with
  | none => rfl
  | some e =>
    obtain ⟨-, -, -, flow, cycled⟩ := executed?_eq_some_iff.1 did
    rw [Turn.result, cycled] at failed
    cases failed

theorem calls_of_error {f : Fault} (failed : turn.result = .error f) : turn.calls = [] := by
  rw [calls_eq]
  exact Session.deviceCalls_of_cycle_eq_error (Prod.ext failed rfl)

/-- When its work is done, a turn ends with a tick. -/
theorem eq_of_work {flow : Flow} (worked : (turn.session.work turn.host).1 = .ok flow) :
    turn.result = .ok flow ∧
      turn.after.vm = (turn.session.work turn.host).2.vm.elapse turn.millis ∧
      turn.calls = turn.session.workCalls turn.host ++
        (turn.session.work turn.host).2.vm.timeCalls turn.millis := by
  have work : turn.session.work turn.host = (.ok flow, (turn.session.work turn.host).2) :=
    Prod.ext worked rfl
  have cycled : turn.session.cycle turn.host =
      (.ok flow, (turn.session.work turn.host).2.passTime turn.host) := by
    rw [Session.cycle, work]
    rfl
  refine ⟨?_, ?_, ?_⟩
  · rw [result, cycled]
  · rw [after, cycled, Session.passTime_vm_eq]
    rfl
  · rw [calls_eq, Session.deviceCalls, work, millis]
    exact congrArg (turn.session.workCalls turn.host ++ ·) (Session.passTimeCalls_eq ..)

variable {did : Option Executed} {result : Except Fault Flow} {vm : Vm} {calls : List DeviceCall}

/-- What a turn comes to is decided by what leads to it. -/
theorem Account.eq (account : turn.Account did result vm calls) :
    turn.executed? = did ∧ turn.result = result ∧ turn.after.vm = vm ∧ turn.calls = calls := by
  cases account with
  | outOfRange mode fetched =>
    obtain ⟨failed, left⟩ := Session.cycle_of_outOfRange (h := turn.host) mode fetched
    exact ⟨executed?_of_error failed, failed, left, calls_of_error failed⟩
  | refused mode fetched refused =>
    obtain ⟨failed, left⟩ := Session.cycle_of_refuses (h := turn.host) mode fetched refused
    exact ⟨executed?_of_error failed, failed, left, calls_of_error failed⟩
  | @executed i flow m mode fetched effect =>
    obtain ⟨worked, left, work_calls⟩ := Session.work_of_exec (h := turn.host) mode fetched effect
    obtain ⟨ended, after, calls⟩ := eq_of_work worked
    refine ⟨?_, ended, ?_, ?_⟩
    · exact executed?_eq_some_iff.2 ⟨mode, fetched, rfl, flow, ended⟩
    · rw [after, left]
    · rw [calls, left, work_calls]
      rfl
  | waited mode key =>
    obtain ⟨worked, left, work_calls⟩ := Session.work_of_noKey (h := turn.host) mode key
    obtain ⟨ended, after, calls⟩ := eq_of_work worked
    refine ⟨executed?_of_waiting mode, ended, ?_, ?_⟩
    · rw [after, left]
    · rw [calls, left, work_calls]
      rfl
  | keyed mode key =>
    obtain ⟨worked, left, work_calls⟩ := Session.work_of_key (h := turn.host) mode key
    obtain ⟨ended, after, calls⟩ := eq_of_work worked
    refine ⟨executed?_of_waiting mode, ended, ?_, ?_⟩
    · rw [after, left]
    · rw [calls, left, work_calls]
      rfl

theorem exists_account (turn : Turn σ) :
    ∃ did result vm calls, turn.Account did result vm calls := by
  cases mode : turn.session.vm.mode with
  | awaitingKey r =>
    cases key : turn.key with
    | none => exact ⟨_, _, _, _, .waited mode key⟩
    | some k => exact ⟨_, _, _, _, .keyed mode key⟩
  | fetching =>
    cases fetched : turn.session.vm.machine.fetch? with
    | none => exact ⟨_, _, _, _, .outOfRange mode fetched⟩
    | some op =>
      rcases outcome : turn.session.vm.machine.advance.execute turn.host op turn.session.world
        with ⟨f | done, w⟩
      · obtain ⟨cause, refused, -⟩ := (Machine.execute_eq_error_iff turn.host op _ _).1
          (congrArg Prod.fst outcome)
        exact ⟨_, _, _, _, .refused mode fetched refused⟩
      · have ran := turn.session.vm.machine.advance.execution turn.host op turn.session.world
        rw [outcome] at ran
        cases ran with
        | @done i flow m decoded free =>
          obtain ⟨flow, m, effect⟩ :=
            Instr.exec_eq_ok_of_obstacle?_eq_none (i.told turn.key) free
          refine ⟨_, _, _, _, .executed mode ?_ effect⟩
          rw [fetched, Instr.encode_of_decode decoded]

theorem account (turn : Turn σ) :
    turn.Account turn.executed? turn.result turn.after.vm turn.calls := by
  obtain ⟨did, result, vm, calls, account⟩ := turn.exists_account
  obtain ⟨rfl, rfl, rfl, rfl⟩ := account.eq
  exact account

/-- A turn executes the opcode of its instruction, and then changes the mark on the frame and the
timers. -/
theorem execute_of_executed? {e : Executed} (did : turn.executed? = some e) :
    ∃ flow m delay sound,
      (turn.session.vm.machine.advance.execute turn.host (Instr.encode e.instr)
        turn.session.world).1 = .ok (flow, m) ∧
      turn.after.vm.machine = { m with dirty := false, delay := delay, sound := sound } := by
  have account := turn.account
  rw [did] at account
  generalize turn.result = result, turn.after.vm = vm, turn.calls = calls at account
  cases account with
  | @executed i flow m mode fetched effect =>
    obtain ⟨delay, sound, _, passed⟩ := Vm.sameButTime_elapse turn.millis
      { turn.session.vm with machine := { m with dirty := false }, mode := .after flow }
    rw [passed]
    refine ⟨flow, m, delay, sound, ?_, rfl⟩
    exact congrArg Prod.fst (Machine.execute_of_told (Instr.decode_encode i) effect)

/-- An executed instruction has its effect, but for the mark on the frame and the timers. -/
theorem effect_of_executed? {e : Executed} (did : turn.executed? = some e) :
    ∃ key m flow delay sound, e.instr.exec key turn.session.vm.machine.advance = .ok (flow, m) ∧
      turn.after.vm.machine = { m with dirty := false, delay := delay, sound := sound } := by
  obtain ⟨flow, m, delay, sound, done, after⟩ := execute_of_executed? did
  obtain ⟨i, key, decoded, effect⟩ := Machine.exec_of_execute done
  rw [Instr.decode_encode] at decoded
  cases decoded
  exact ⟨key, m, flow, delay, sound, effect, after⟩

/-- What a turn leaves that executes an instruction whatever key is down. -/
theorem after_of_exec (turn : Turn σ) {i : Instr} {flow : Flow} {m : Machine}
    (mode : turn.session.vm.mode = .fetching)
    (fetched : turn.session.vm.machine.fetch? = some (Instr.encode i))
    (effect : ∀ key, i.exec key turn.session.vm.machine.advance = .ok (flow, m)) :
    turn.executed? = some ⟨turn.session.vm.machine.pc, i⟩ ∧
      turn.after.vm.mode = .after flow ∧
      ∃ delay sound,
        turn.after.vm.machine = { m with dirty := false, delay := delay, sound := sound } := by
  obtain ⟨did, -, after, -⟩ := (Account.executed mode fetched (effect _)).eq
  obtain ⟨delay, sound, _, passed⟩ := Vm.sameButTime_elapse turn.millis
    { turn.session.vm with machine := { m with dirty := false }, mode := .after flow }
  rw [after, passed]
  exact ⟨did, rfl, delay, sound, rfl⟩

/-- A turn that executes nothing leaves the call stack alone. -/
theorem stack_of_executed?_eq_none (idle : turn.executed? = none) :
    turn.after.vm.machine.stack = turn.session.vm.machine.stack := by
  have account := turn.account
  rw [idle] at account
  generalize turn.result = result, turn.after.vm = vm, turn.calls = calls at account
  cases account with
  | outOfRange => rfl
  | refused => rfl
  | waited => exact Vm.stack_elapse ..
  | keyed => exact Vm.stack_elapse ..

end Turn

/-! ### Turns one after the other -/

namespace DeviceCall

def isPoll : DeviceCall → Bool
  | .poll _ => true
  | .refresh _ | .beep | .tick _ => false

def isBeep : DeviceCall → Bool
  | .beep => true
  | .refresh _ | .poll _ | .tick _ => false

/-- A look at the keypad or a frame: time has no part in these. -/
def isTimeless : DeviceCall → Bool
  | .poll _ | .refresh _ => true
  | .beep | .tick _ => false

end DeviceCall

/-- The calls on devices that turns make. -/
def deviceCallsOf (turns : List (Turn σ)) : List DeviceCall := turns.flatMap Turn.calls

theorem deviceCallsOf_append (past later : List (Turn σ)) :
    deviceCallsOf (past ++ later) = deviceCallsOf past ++ deviceCallsOf later :=
  List.flatMap_append

theorem executedBy_append (past later : List (Turn σ)) :
    executedBy (past ++ later) = executedBy past ++ executedBy later :=
  List.filterMap_append

theorem mem_executedBy_concat {past : List (Turn σ)} {turn : Turn σ} {e : Executed}
    (did : turn.executed? = some e) : e ∈ executedBy (past ++ [turn]) :=
  List.mem_filterMap.2 ⟨turn, by simp, did⟩

theorem mem_executedBy_append_left {past later : List (Turn σ)} {e : Executed}
    (mem : e ∈ executedBy past) : e ∈ executedBy (past ++ later) := by
  rw [executedBy_append]
  exact List.mem_append_left _ mem

theorem executedBy_cons (turn : Turn σ) (later : List (Turn σ)) :
    executedBy (turn :: later) = turn.executed?.toList ++ executedBy later := by
  cases did : turn.executed? with
  | none => exact List.filterMap_cons_none did
  | some e => exact List.filterMap_cons_some did

namespace Session

/-- The turns of `n` cycles that look at no request to stop. -/
def laps (h : Host σ) (n : Nat) (s : Session σ) : List (Turn σ) :=
  (List.range n).map fun k => ⟨h, s.afterCycles h k⟩

theorem laps_succ (h : Host σ) (n : Nat) (s : Session σ) :
    s.laps h (n + 1) = s.laps h n ++ [⟨h, s.afterCycles h n⟩] := by
  rw [laps, List.range_succ, List.map_append]
  rfl

/-! ### Watched runs -/

theorem watched_cycles (h : Host σ) (n : Nat) (s : Session σ) (calls : List DeviceCall) :
    cycles h.watched n (s.watched calls) =
      ((cycles h n s).1, (cycles h n s).2.watched (calls ++ deviceCallsOf (cycleTurns h n s))) := by
  induction n generalizing s calls with
  | zero =>
    rw [cycleTurns, deviceCallsOf, List.flatMap_nil, List.append_nil]
    rfl
  | succ n ih =>
    have asked : (s.watched calls).world.stopRequested = s.world.stopRequested := rfl
    have made : s.deviceCalls h = Turn.calls ⟨h, s⟩ := (Turn.calls_eq ⟨h, s⟩).symm
    unfold cycles cycleTurns
    rw [asked, watched_cycle, made]
    split
    · rw [deviceCallsOf, List.flatMap_nil, List.append_nil]
      rfl
    · rcases s.cycle h with ⟨f | flow, t⟩
      · rw [deviceCallsOf, List.flatMap_singleton]
      · rw [deviceCallsOf, List.flatMap_cons, ← List.append_assoc]
        exact ih t _

/-- The calls of a run are those of its turns. -/
theorem watched_runSteps (h : Host σ) (n : Nat) (s : Session σ) (calls : List DeviceCall) :
    ((s.watched calls).runSteps h.watched n).2.world.devices.calls =
      calls ++ deviceCallsOf (cycleTurns h n (s.setRunning true)) := by
  have ran := watched_cycles h n (s.setRunning true) calls
  change (cycles h.watched n ((s.setRunning true).watched calls)).2.world.devices.calls = _
  rw [ran]
  rfl

end Session

end ChipEight
