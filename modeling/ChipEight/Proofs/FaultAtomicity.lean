import ChipEight.Host.Console
import ChipEight.Proofs.Checked.Safety
import ChipEight.Proofs.DeviceCalls
import ChipEight.Proofs.Faults
/-!
# Faults are atomic

A cycle that faults has changed nothing but the program counter, which has moved past an
instruction that failed, and the note that a run is going on; it has not called any device.  A
machine whose program counter is out of range stays as it is until it is restarted.
-/

namespace ChipEight

variable {σ : Type}

/-- Where the program counter stands after a cycle that faults. -/
def Fault.stopsAt (pc : Address) : Fault → Address
  | .pcOutOfRange _ => pc
  | .instruction .. => pc + 2

namespace Session

theorem eq_of_cycle_eq_error {h : Host σ} {s s' : Session σ} {f : Fault}
    (failed : s.cycle h = (.error f, s')) :
    s.vm.mode = .fetching ∧
    s'.vm = { s.vm with
      machine := { s.vm.machine with pc := f.stopsAt s.vm.machine.pc }, running := false } ∧
    s'.world.devices = s.world.devices ∧ s'.world.stopRequested = s.world.stopRequested := by
  have run := s.course h
  rw [failed] at run
  cases run with
  | outOfRange mode fetched => exact ⟨mode, rfl, rfl, rfl⟩
  | @fault op f w mode fetched executed =>
    have ran := s.vm.machine.advance.execution h op s.world
    rw [executed] at ran
    cases ran with
    | undecoded decoded => exact ⟨mode, rfl, rfl, rfl⟩
    | blocked decoded obstacle => exact ⟨mode, rfl, rfl, rfl⟩

/-! ### Out of range for good -/

/-- An instruction is to be fetched, and none fits at the program counter. -/
def Stuck (s : Session σ) : Prop := s.vm.mode = .fetching ∧ s.vm.machine.fetch? = none

theorem stuck_of_cycle {h : Host σ} {s s' : Session σ} {pc : Address}
    (failed : s.cycle h = (.error (.pcOutOfRange pc), s')) :
    s'.Stuck ∧ s'.vm.machine.pc = pc := by
  have run := s.course h
  rw [failed] at run
  cases run with
  | outOfRange mode fetched => exact ⟨⟨mode, fetched⟩, rfl⟩
  | @fault op f w mode fetched executed =>
    have ran := s.vm.machine.advance.execution h op s.world
    rw [executed] at ran
    cases ran

theorem cycle_of_stuck (h : Host σ) {s : Session σ} (stuck : s.Stuck) :
    (s.cycle h).1 = .error (.pcOutOfRange s.vm.machine.pc) ∧
      (s.cycle h).2.vm = { s.vm with running := false } := by
  have run := s.course h
  generalize s.cycle h = result at run
  cases run with
  | outOfRange => exact ⟨rfl, rfl⟩
  | fault mode fetched | instr mode fetched => rw [stuck.2] at fetched; cases fetched
  | noKey mode | key mode => rw [stuck.1] at mode; cases mode

theorem perform_of_stuck {s t : Session σ} {c : Call σ} (stuck : s.Stuck)
    (idle : s.vm.running = false) (keeps : c.restarts = false)
    (performed : s.perform c = some t) : t.vm = s.vm := by
  -- Within a run all but the note that it is going on stays.
  let Same (t : Session σ) : Prop := ∃ running, t.vm = { s.vm with running := running }
  have cycle (h : Host σ) (t : Session σ) (same : Same t) : Same (t.cycle h).2 := by
    obtain ⟨running, vm⟩ := same
    have stays : t.Stuck := by
      unfold Stuck
      rw [vm]
      exact stuck
    exact ⟨false, by rw [(cycle_of_stuck h stays).2, vm]⟩
  have finish (t : Session σ) (same : Same t) : (t.setRunning false).vm = s.vm := by
    obtain ⟨running, vm⟩ := same
    rw [← idle]
    change ({ t.vm with running := s.vm.running } : Vm) = s.vm
    rw [vm]
  cases c with
  | load program =>
    have large : ¬program.length ≤ Platform.programCapacity := by simpa [Call.restarts] using keeps
    cases performed
    simp only [load, Machine.load, if_neg large]
  | reset => cases keeps
  | stop | connect devices => cases performed; rfl
  | cycle h =>
    cases performed
    rw [(cycle_of_stuck h stuck).2, ← idle]
  | runSteps h n =>
    cases performed
    exact finish _ (cycles_induction (P := Same) h (cycle h) (fun _ same => same) n _ ⟨true, rfl⟩)
  | run h fuel =>
    simp only [perform, run, Option.map_map, Option.map_eq_some_iff] at performed
    obtain ⟨r, done, rfl⟩ := performed
    exact finish _ (cyclesUntilStop_induction (P := Same) h (cycle h) (fun _ same => same)
      ⟨true, rfl⟩ done)

theorem performAll_of_stuck {calls : List (Call σ)} {s t : Session σ} (stuck : s.Stuck)
    (idle : s.vm.running = false) (keep : ∀ c ∈ calls, c.restarts = false)
    (performed : s.performAll calls = some t) : t.vm = s.vm := by
  induction calls generalizing s with
  | nil => cases performed; rfl
  | cons c rest ih =>
    obtain ⟨u, first, others⟩ := Option.bind_eq_some_iff.1 performed
    have vm := perform_of_stuck stuck idle (keep c (List.mem_cons_self ..)) first
    rw [← vm]
    refine ih ?_ (vm ▸ idle) (fun d mem => keep d (List.mem_cons_of_mem _ mem)) others
    unfold Stuck
    rw [vm]
    exact stuck

end Session

/-- **Faults are atomic.**  A cycle that faults was to fetch an instruction.  All that the virtual
machine has is as it was before, but for the program counter, which has moved past the
instruction unless none was fetched, and the note that a run is going on; the devices and a
request to stop are untouched, and a watched cycle has made no call.  If nothing could be fetched,
calls that do not restart the machine leave it as it is, and every further cycle fails likewise.
And this is no matter of the machine being thrown away with the fault: in the checked virtual
machine, which writes to its store step by step, a cycle that faults leaves a store in which
nothing but the program counter has been written. -/
theorem fault_atomic (h : Host σ) {s s' : Session σ} {f : Fault}
    (failed : s.cycle h = (.error f, s')) :
    s.vm.mode = .fetching ∧
    s'.vm = { s.vm with
      machine := { s.vm.machine with pc := f.stopsAt s.vm.machine.pc }, running := false } ∧
    s'.world.devices = s.world.devices ∧
    s'.world.stopRequested = s.world.stopRequested ∧
    ((s.watched []).cycle h.watched).2.world.devices.calls = [] ∧
    (∀ pc, f = .pcOutOfRange pc → ∀ (calls : List (Call σ)) (t : Session σ),
      (∀ c ∈ calls, c.restarts = false) → s'.performAll calls = some t →
        t.vm = s'.vm ∧ ∀ h' : Host σ, (t.cycle h').1 = .error f) ∧
    (s.Reachable → ∃ r : Checked.Rig σ, r.Reachable ∧ r.view = s) ∧
    ∀ r : Checked.Rig σ, r.Reachable → r.view = s →
      (Checked.Rig.cycle h).run r = .fault f { r with
        bench := ⟨{ r.bench.store with pc := f.stopsAt s.vm.machine.pc }, s'.world⟩
        running := false } := by
  obtain ⟨mode, vm, devices, stop⟩ := Session.eq_of_cycle_eq_error failed
  refine ⟨mode, vm, devices, stop, ?_, ?_, Checked.Rig.exists_rig_of_reachable, ?_⟩
  · rw [Session.watched_cycle, Session.deviceCalls_of_cycle_eq_error failed]
    rfl
  · rintro pc rfl calls t keep performed
    obtain ⟨stuck, rfl⟩ := Session.stuck_of_cycle failed
    have idle : s'.vm.running = false := by rw [vm]
    have same := Session.performAll_of_stuck stuck idle keep performed
    have stays : t.Stuck := by
      unfold Session.Stuck
      rw [same]
      exact stuck
    constructor
    · exact same
    · intro h'
      rw [← same]
      exact (Session.cycle_of_stuck h' stays).1
  · intro r reached seen
    have follows := Checked.Rig.cycle_follows h (Checked.Rig.sound_of_reachable reached)
    rw [seen, failed] at follows
    obtain ⟨pc, w, running, ran, view⟩ := follows
    have pc_eq : s'.vm.machine.pc = pc := view ▸ rfl
    have world_eq : s'.world = w := view ▸ rfl
    have running_eq : s'.vm.running = running := view ▸ rfl
    rw [vm] at pc_eq running_eq
    rw [ran, ← pc_eq, ← world_eq, ← running_eq]

theorem Memory.get_initial {a : Nat} (behind : Platform.font.length ≤ a) :
    Memory.initial.get a = 0 := by
  have past : Platform.font[a - Platform.fontStart]? = none :=
    List.getElem?_eq_none behind
  have zero : Memory.blank.get a = 0 := by
    unfold Memory.get Memory.blank
    split <;> simp
  rw [Memory.initial, Memory.get_write, past, zero]
  simp

/-- In the middle of a call, with its registers and timers in use, a program spills two registers of
which the second would lie beyond the end of memory: neither is stored. -/
theorem fault_atomic_spill :
    let m : Machine := { (Machine.initial (.ofSeed 0)).withProgram [0xF1, 0x55] with
      index := 0xFFF
      registers := .ofFn fun x => UInt8.ofNat (x.val + 1)
      stack := ⟨[0x208, 0x300], by decide⟩
      delay := 7
      sound := 9
      dirty := false }
    let s : Session Console := {
      vm := { Vm.new { seed := 0 } with machine := m, running := true }
      world := { devices := {} } }
    let h := Script.host { millis := fun _ => 0.0 }
    (s.cycle h).1 = .error (.instruction (.addressOutOfRange 0x1000) 0x200 0xF155) ∧
      (s.cycle h).2.vm = { s.vm with machine := { m with pc := 0x202 }, running := false } ∧
      ((s.watched []).cycle h.watched).2.world.devices.calls = [] := by
  intro m s h
  have fetched : m.fetch? = some 0xF155 :=
    Machine.fetch?_withProgram (.initial (.ofSeed 0)) 0xF1 0x55 []
  have refused : m.advance.Refuses 0xF155 (.addressOutOfRange 0x1000) :=
    ⟨2, .inr (.inr ⟨rfl, .inl rfl, rfl⟩), by decide, by decide, rfl⟩
  have result : (s.cycle h).1 = .error (.instruction (.addressOutOfRange 0x1000) 0x200 0xF155) := by
    obtain ⟨within, standing⟩ := (Machine.fetch?_eq_some_iff m).1 fetched
    exact (s.cycle_eq_error_iff h _).2
      ⟨rfl, .inr ⟨within, 0xF155, .addressOutOfRange 0x1000, standing, refused, rfl⟩⟩
  obtain ⟨-, vm, -, -, quiet, -⟩ := fault_atomic h (Prod.ext result rfl : s.cycle h = (_, _))
  exact ⟨result, vm, quiet⟩

end ChipEight
