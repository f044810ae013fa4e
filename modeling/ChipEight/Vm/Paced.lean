import ChipEight.Vm.Run
/-!
# Paced runs

`Session.cycles` takes the time of each cycle from the clock of the host, which answers at once.
A clock that waits has to be asked in a monad, so `Session.paced` goes through the same cycles
with a tick that is an action.  Where the action is the tick of the host, it is the run that
`cycles` and `cyclesUntilStop` describe (`cycles_eq_paced`, `cyclesUntilStop_eq_paced`), and so
`runStepsPaced` and `runPaced` are `runSteps` and `run`.
-/

namespace ChipEight.Session

variable {σ : Type}

/-- The clock of the host ticks. -/
def tick (h : Host σ) (s : Session σ) : Float × Session σ :=
  let (millis, world) := s.world.tick h
  (millis, { s with world := world })

section

variable {m : Type → Type} [Monad m]

/-- At most `n` cycles, each as long as the tick says, until a stop or a fault; there is no result
if neither has come. -/
@[specialize] def paced (h : Host σ) (tick : Session σ → m (Float × Session σ)) :
    Nat → Session σ → m (Option (Except Fault Unit) × Session σ)
  | 0, s => return (none, s)
  | n + 1, s =>
    if s.world.stopRequested then return (some (.ok ()), s.withdrawStop)
    else
      match s.work h with
      | (.error f, s) => return (some (.error f), s)
      | (.ok _, s) => do
        let (millis, s) ← tick s
        paced h tick n (s.elapse h millis)

/-- `runSteps` with a clock that ticks in a monad. -/
@[specialize] def runStepsPaced (h : Host σ) (tick : Session σ → m (Float × Session σ))
    (n : Nat) (s : Session σ) : m (Except Fault Unit × Session σ) := do
  let (result, s) ← paced h tick n (s.setRunning true)
  return (result.getD (.ok ()), s.setRunning false)

/-- `run` with a clock that ticks in a monad. -/
@[specialize] def runPaced (h : Host σ) (tick : Session σ → m (Float × Session σ)) (fuel : Nat)
    (s : Session σ) : m (Option (Except Fault Unit × Session σ)) := do
  let (result, s) ← paced h tick fuel (s.setRunning true)
  return result.map (·, s.setRunning false)

end

/-! ### Paced by the clock of the host -/

variable (h : Host σ) (n : Nat) (s : Session σ)

/-- Cycles paced by the clock of the host. -/
def pacedByHost : Option (Except Fault Unit) × Session σ :=
  (paced (m := Id) h (fun s => pure (s.tick h)) n s).run

theorem pacedByHost_succ : pacedByHost h (n + 1) s =
    if s.world.stopRequested then (some (.ok ()), s.withdrawStop)
    else
      match s.cycle h with
      | (.error f, s) => (some (.error f), s)
      | (.ok _, s) => pacedByHost h n s := by
  unfold pacedByHost
  rw [paced, cycle]
  split
  · rfl
  · rcases s.work h with ⟨f | flow, t⟩
    · rfl
    · rfl

/-- A run of some cycles is a paced run that is content with what it has come to. -/
theorem cycles_eq_paced :
    cycles h n s = ((pacedByHost h n s).1.getD (.ok ()), (pacedByHost h n s).2) := by
  induction n generalizing s with
  | zero => rfl
  | succ n ih =>
    rw [pacedByHost_succ, cycles]
    split
    · rfl
    · rcases s.cycle h with ⟨f | flow, t⟩
      · rfl
      · exact ih t

/-- A run that nothing bounds is a paced run that has come to a result. -/
theorem cyclesUntilStop_eq_paced :
    cyclesUntilStop h n s = (pacedByHost h n s).1.map (·, (pacedByHost h n s).2) := by
  induction n generalizing s with
  | zero => rfl
  | succ n ih =>
    rw [pacedByHost_succ, cyclesUntilStop]
    split
    · rfl
    · rcases s.cycle h with ⟨f | flow, t⟩
      · rfl
      · exact ih t

theorem runSteps_eq_paced :
    s.runSteps h n = (runStepsPaced (m := Id) h (fun s => pure (s.tick h)) n s).run := by
  rw [runSteps, cycles_eq_paced]
  rfl

theorem run_eq_paced :
    s.run h n = (runPaced (m := Id) h (fun s => pure (s.tick h)) n s).run := by
  rw [run, cyclesUntilStop_eq_paced, Option.map_map]
  rfl

end ChipEight.Session
