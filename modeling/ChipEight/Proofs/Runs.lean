import ChipEight.Host.Console
import ChipEight.Proofs.DeviceCalls
import ChipEight.Proofs.Faults
import ChipEight.Proofs.Sessions
import Mathlib.Logic.Function.Iterate
/-!
# Bounded and unbounded runs

A run is cycles one after the other.  `Session.GoesOn` says that nothing but their number can end
it before cycle `n`, and `Session.EndsAfter` that it ends there: a stop is asked for before the
next cycle, or the next cycle faults.  Runs of both kinds are told by these (`cycles_add`,
`cyclesUntilStop_eq_some_iff`), and so they agree: `runs_agree`.
-/

namespace ChipEight

variable {σ : Type}

namespace Session

/-- The session after `n` cycles that look at no request to stop. -/
def afterCycles (h : Host σ) (n : Nat) (s : Session σ) : Session σ :=
  (fun t => (t.cycle h).2)^[n] s

/-- Before none of the first `n` cycles a stop is asked for, and none of them faults. -/
def GoesOn (h : Host σ) (n : Nat) (s : Session σ) : Prop :=
  ∀ k < n, (s.afterCycles h k).world.stopRequested = false ∧
    ∃ flow, ((s.afterCycles h k).cycle h).1 = .ok flow

/-- How a run ends that has gone on for `n` cycles: a request to stop is withdrawn and no further
cycle is executed, or one more cycle faults. -/
inductive EndsAfter (h : Host σ) (s : Session σ) (n : Nat) :
    Except Fault Unit × Session σ → Prop where
  | stop (before : s.GoesOn h n) (asked : (s.afterCycles h n).world.stopRequested = true) :
      EndsAfter h s n (.ok (), (s.afterCycles h n).withdrawStop)
  | fault {f : Fault} (before : s.GoesOn h n)
      (going : (s.afterCycles h n).world.stopRequested = false)
      (failed : ((s.afterCycles h n).cycle h).1 = .error f) :
      EndsAfter h s n (.error f, s.afterCycles h (n + 1))

/-! ### Going on -/

theorem afterCycles_succ (h : Host σ) (n : Nat) (s : Session σ) :
    s.afterCycles h (n + 1) = ((s.afterCycles h n).cycle h).2 :=
  Function.iterate_succ_apply' _ n s

theorem GoesOn.mono {h : Host σ} {s : Session σ} {m n : Nat} (goesOn : s.GoesOn h n) (le : m ≤ n) :
    s.GoesOn h m := by
  intro k lt
  exact goesOn k (Nat.lt_of_lt_of_le lt le)

theorem goesOn_succ_iff {h : Host σ} {n : Nat} {s : Session σ} :
    s.GoesOn h (n + 1) ↔ s.GoesOn h n ∧ (s.afterCycles h n).world.stopRequested = false ∧
      ∃ flow, ((s.afterCycles h n).cycle h).1 = .ok flow := by
  constructor
  · intro goesOn
    exact ⟨goesOn.mono (Nat.le_succ n), goesOn n (Nat.lt_succ_self n)⟩
  · rintro ⟨goesOn, last⟩ k lt
    rcases Nat.lt_succ_iff_lt_or_eq.1 lt with earlier | rfl
    · exact goesOn k earlier
    · exact last

theorem goesOn_or_endsAfter (h : Host σ) (n : Nat) (s : Session σ) :
    s.GoesOn h n ∨ ∃ m < n, ∃ r, s.EndsAfter h m r := by
  induction n with
  | zero =>
    left
    intro k lt
    cases lt
  | succ n ih =>
    rcases ih with goesOn | ⟨m, lt, r, ends⟩
    · cases asked : (s.afterCycles h n).world.stopRequested with
      | true => exact .inr ⟨n, Nat.lt_succ_self n, _, .stop goesOn asked⟩
      | false =>
        cases result : ((s.afterCycles h n).cycle h).1 with
        | error f => exact .inr ⟨n, Nat.lt_succ_self n, _, .fault goesOn asked result⟩
        | ok flow => exact .inl (goesOn_succ_iff.2 ⟨goesOn, asked, flow, result⟩)
    · exact .inr ⟨m, Nat.lt_succ_of_lt lt, r, ends⟩

/-! ### Runs of both kinds -/

theorem cycles_succ_of_ok {h : Host σ} {s : Session σ} {flow : Flow} (n : Nat)
    (going : s.world.stopRequested = false) (cycled : (s.cycle h).1 = .ok flow) :
    cycles h (n + 1) s = cycles h n (s.cycle h).2 := by
  rw [cycles, going, show s.cycle h = (.ok flow, (s.cycle h).2) from Prod.ext cycled rfl]
  rfl

theorem cyclesUntilStop_succ_of_ok {h : Host σ} {s : Session σ} {flow : Flow} (fuel : Nat)
    (going : s.world.stopRequested = false) (cycled : (s.cycle h).1 = .ok flow) :
    cyclesUntilStop h (fuel + 1) s = cyclesUntilStop h fuel (s.cycle h).2 := by
  rw [cyclesUntilStop, going, show s.cycle h = (.ok flow, (s.cycle h).2) from Prod.ext cycled rfl]
  rfl

theorem cycles_add {h : Host σ} {a : Nat} {s : Session σ} (b : Nat) (goesOn : s.GoesOn h a) :
    cycles h (a + b) s = cycles h b (s.afterCycles h a) := by
  induction a generalizing b with
  | zero => rw [Nat.zero_add]; rfl
  | succ a ih =>
    obtain ⟨before, going, flow, cycled⟩ := goesOn_succ_iff.1 goesOn
    rw [Nat.add_assoc, Nat.add_comm 1 b, ih (b + 1) before, cycles_succ_of_ok b going cycled,
      afterCycles_succ]

theorem cyclesUntilStop_add {h : Host σ} {a : Nat} {s : Session σ} (fuel : Nat)
    (goesOn : s.GoesOn h a) :
    cyclesUntilStop h (a + fuel) s = cyclesUntilStop h fuel (s.afterCycles h a) := by
  induction a generalizing fuel with
  | zero => rw [Nat.zero_add]; rfl
  | succ a ih =>
    obtain ⟨before, going, flow, cycled⟩ := goesOn_succ_iff.1 goesOn
    rw [Nat.add_assoc, Nat.add_comm 1 fuel, ih (fuel + 1) before,
      cyclesUntilStop_succ_of_ok fuel going cycled, afterCycles_succ]

theorem cycles_of_goesOn {h : Host σ} {n : Nat} {s : Session σ} (goesOn : s.GoesOn h n) :
    cycles h n s = (.ok (), s.afterCycles h n) := cycles_add 0 goesOn

theorem EndsAfter.goesOn {h : Host σ} {s : Session σ} {m : Nat} {r : Except Fault Unit × Session σ}
    (ends : s.EndsAfter h m r) : s.GoesOn h m := by
  cases ends with
  | stop before => exact before
  | fault before => exact before

theorem EndsAfter.cycles_eq {h : Host σ} {s : Session σ} {m n : Nat}
    {r : Except Fault Unit × Session σ} (ends : s.EndsAfter h m r) (lt : m < n) :
    cycles h n s = r := by
  obtain ⟨rest, rfl⟩ := Nat.exists_eq_add_of_lt lt
  rw [Nat.add_assoc, cycles_add (rest + 1) ends.goesOn]
  cases ends with
  | stop before asked => rw [cycles, asked]; rfl
  | @fault f before going failed =>
    rw [cycles, going, afterCycles_succ, show (s.afterCycles h m).cycle h =
      (.error f, ((s.afterCycles h m).cycle h).2) from Prod.ext failed rfl]
    rfl

theorem EndsAfter.cyclesUntilStop_eq {h : Host σ} {s : Session σ} {m fuel : Nat}
    {r : Except Fault Unit × Session σ} (ends : s.EndsAfter h m r) (lt : m < fuel) :
    cyclesUntilStop h fuel s = some r := by
  obtain ⟨rest, rfl⟩ := Nat.exists_eq_add_of_lt lt
  rw [Nat.add_assoc, cyclesUntilStop_add (rest + 1) ends.goesOn]
  cases ends with
  | stop before asked => rw [cyclesUntilStop, asked]; rfl
  | @fault f before going failed =>
    rw [cyclesUntilStop, going, afterCycles_succ, show (s.afterCycles h m).cycle h =
      (.error f, ((s.afterCycles h m).cycle h).2) from Prod.ext failed rfl]
    rfl

/-- A run that nothing bounds is over just when something has ended it. -/
theorem cyclesUntilStop_eq_some_iff {h : Host σ} {fuel : Nat} {s : Session σ}
    {r : Except Fault Unit × Session σ} :
    cyclesUntilStop h fuel s = some r ↔ ∃ m < fuel, s.EndsAfter h m r := by
  constructor
  · intro done
    rcases goesOn_or_endsAfter h fuel s with goesOn | ⟨m, lt, r', ends⟩
    · have nothing : cyclesUntilStop h fuel s = none := cyclesUntilStop_add 0 goesOn
      rw [nothing] at done
      cases done
    · rw [ends.cyclesUntilStop_eq lt] at done
      cases done
      exact ⟨m, lt, ends⟩
  · rintro ⟨m, lt, ends⟩
    exact ends.cyclesUntilStop_eq lt

/-! ### The note that a run is going on -/

theorem running_of_cycle_eq_ok {h : Host σ} {s : Session σ} {flow : Flow}
    (cycled : (s.cycle h).1 = .ok flow) : (s.cycle h).2.vm.running = s.vm.running := by
  have run := s.course h
  generalize s.cycle h = result at run cycled
  cases run with
  | outOfRange | fault => cases cycled
  | instr => simp only [passTime_running, present_vm, afterInstr]
  | noKey | key => simp only [passTime_running, afterInstr]

theorem GoesOn.running {h : Host σ} {n : Nat} {s : Session σ} (goesOn : s.GoesOn h n) :
    (s.afterCycles h n).vm.running = s.vm.running := by
  induction n with
  | zero => rfl
  | succ n ih =>
    obtain ⟨before, -, flow, cycled⟩ := goesOn_succ_iff.1 goesOn
    rw [afterCycles_succ, running_of_cycle_eq_ok cycled, ih before]

theorem setRunning_of_running {s : Session σ} {running : Bool} (same : s.vm.running = running) :
    s.setRunning running = s := by
  subst same
  rfl

theorem runSteps_of_goesOn {h : Host σ} {n : Nat} {s : Session σ}
    (goesOn : (s.setRunning true).GoesOn h n) :
    s.runSteps h n = (.ok (), ((s.setRunning true).afterCycles h n).setRunning false) := by
  rw [runSteps, cycles_of_goesOn goesOn]

theorem runSteps_add {h : Host σ} {a : Nat} {s : Session σ} (b : Nat)
    (goesOn : (s.setRunning true).GoesOn h a) :
    (s.runSteps h a).2.runSteps h b = s.runSteps h (a + b) := by
  have again : (((s.setRunning true).afterCycles h a).setRunning false).setRunning true =
      (s.setRunning true).afterCycles h a := setRunning_of_running goesOn.running
  rw [runSteps_of_goesOn goesOn, runSteps, runSteps, again, cycles_add b goesOn]

/-! ### Watched runs -/

theorem watched_afterCycles (h : Host σ) (n : Nat) (s : Session σ) (calls : List DeviceCall) :
    ∃ calls', (s.watched calls).afterCycles h.watched n = (s.afterCycles h n).watched calls' := by
  induction n with
  | zero => exact ⟨calls, rfl⟩
  | succ n ih =>
    obtain ⟨calls', watched⟩ := ih
    refine ⟨calls' ++ (s.afterCycles h n).deviceCalls h, ?_⟩
    rw [afterCycles_succ, afterCycles_succ, watched, watched_cycle]

theorem GoesOn.watched {h : Host σ} {n : Nat} {s : Session σ} (goesOn : s.GoesOn h n)
    (calls : List DeviceCall) : (s.watched calls).GoesOn h.watched n := by
  intro k lt
  obtain ⟨calls', watched⟩ := watched_afterCycles h k s calls
  rw [watched, watched_cycle]
  exact goesOn k lt

end Session

/-- **Bounded and unbounded runs agree.**  A bounded run goes on until its cycles are used up,
unless a stop or a fault ends it before.  If the first `a` cycles go on, those and then `b` more
come out as `a + b` at once, down to the calls on the devices and a request to stop that is left
over.  A run that nothing bounds is over if it goes on for some number of cycles and then ends; a
bounded run of more cycles comes out the same, and one of no more cycles goes on to its last, with
the request that ends the other still to be looked at. -/
theorem runs_agree (h : Host σ) (s : Session σ) :
    (∀ n,
      (s.setRunning true).GoesOn h n ∧
          s.runSteps h n = (.ok (), ((s.setRunning true).afterCycles h n).setRunning false) ∨
        ∃ m < n, ∃ r, (s.setRunning true).EndsAfter h m r ∧
          s.runSteps h n = (r.1, r.2.setRunning false)) ∧
    (∀ a b, (s.setRunning true).GoesOn h a →
      (s.runSteps h a).2.runSteps h b = s.runSteps h (a + b) ∧
      ∀ calls, ((s.watched calls).runSteps h.watched a).2.runSteps h.watched b =
        (s.watched calls).runSteps h.watched (a + b)) ∧
    (∀ fuel r, s.run h fuel = some r ↔
      ∃ m < fuel, ∃ r', (s.setRunning true).EndsAfter h m r' ∧ r = (r'.1, r'.2.setRunning false)) ∧
    ∀ m r, (s.setRunning true).EndsAfter h m r →
      (∀ n, m < n → s.runSteps h n = (r.1, r.2.setRunning false)) ∧
      (∀ n ≤ m, s.runSteps h n =
        (.ok (), ((s.setRunning true).afterCycles h n).setRunning false)) ∧
      (r.1 = .ok () → (s.runSteps h m).2.world.stopRequested = true) := by
  refine ⟨?_, ?_, ?_, ?_⟩
  · intro n
    rcases Session.goesOn_or_endsAfter h n (s.setRunning true) with goesOn | ⟨m, lt, r, ends⟩
    · exact .inl ⟨goesOn, Session.runSteps_of_goesOn goesOn⟩
    · refine .inr ⟨m, lt, r, ends, ?_⟩
      rw [Session.runSteps, ends.cycles_eq lt]
  · intro a b goesOn
    constructor
    · exact Session.runSteps_add b goesOn
    · intro calls
      exact Session.runSteps_add b (goesOn.watched calls)
  · intro fuel r
    simp only [Session.run, Option.map_eq_some_iff, Session.cyclesUntilStop_eq_some_iff]
    constructor
    · rintro ⟨r', ⟨m, lt, ends⟩, rfl⟩
      exact ⟨m, lt, r', ends, rfl⟩
    · rintro ⟨m, lt, r', ends, rfl⟩
      exact ⟨r', ⟨m, lt, ends⟩, rfl⟩
  · intro m r ends
    refine ⟨?_, ?_, ?_⟩
    · intro n lt
      rw [Session.runSteps, ends.cycles_eq lt]
    · intro n le
      exact Session.runSteps_of_goesOn (ends.goesOn.mono le)
    · intro stopped
      rw [Session.runSteps_of_goesOn ends.goesOn]
      cases ends with
      | stop before asked => exact asked
      | fault => cases stopped

/-- A clock that asks for a stop at its first tick ends a run after one cycle; a run of one cycle
leaves the request. -/
theorem runs_agree_stopped :
    let s := ((Session.start { seed := 0 } (.ofSeed 0) ({} : Console)).load [0x12, 0x00]).2
    let h := Script.host { millis := fun _ => 0.0, stopAtTick := some 1 }
    let t := (s.setRunning true).afterCycles h 1
    (s.runSteps h 1).2.world.stopRequested = true ∧
      (∀ n, 1 < n → s.runSteps h n = (.ok (), t.withdrawStop.setRunning false)) ∧
      s.run h 2 = some (.ok (), t.withdrawStop.setRunning false) := by
  intro s h t
  have decoded : Instr.decode 0x1200 = .ok (.jump 0x200) := rfl
  have fetched : (s.setRunning true).vm.machine.fetch? = some 0x1200 :=
    Machine.fetch?_withProgram (.initial (.ofSeed 0)) 0x12 0x00 []
  have cycled := Session.cycle_of_exec (h := h) rfl fetched decoded rfl rfl
  have goesOn : (s.setRunning true).GoesOn h 1 := by
    intro k lt
    obtain rfl : k = 0 := Nat.lt_one_iff.1 lt
    exact ⟨rfl, .jump, congrArg Prod.fst cycled⟩
  have asked : t.world.stopRequested = true := by
    change ((s.setRunning true).cycle h).2.world.stopRequested = true
    rw [cycled, Session.passTime, Session.elapse_world rfl]
    rfl
  obtain ⟨-, -, unbounded, ends⟩ := runs_agree h s
  obtain ⟨longer, -, pending⟩ := ends 1 _ (.stop goesOn asked)
  exact ⟨pending rfl, longer, (unbounded 2 _).2 ⟨1, by decide, _, .stop goesOn asked, rfl⟩⟩

end ChipEight
