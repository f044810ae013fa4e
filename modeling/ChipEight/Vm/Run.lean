import ChipEight.Vm.Cycle
/-!
# Runs

A run goes through cycles until it is stopped, a cycle faults, or its number of cycles is used up.
The request to stop is looked at, and withdrawn, before each cycle; a run of no cycles does not
look.  `run` has no number of cycles and may never end, so it is given `fuel`, and says nothing
when that is used up.
-/

namespace ChipEight.Session

variable {σ : Type}

/-- Withdraws the request to stop (`take_stop_request`, where there is one). -/
def withdrawStop (s : Session σ) : Session σ :=
  { s with world := { s.world with stopRequested := false } }

def setRunning (s : Session σ) (running : Bool) : Session σ :=
  { s with vm := { s.vm with running := running } }

/-- The loop of `runSteps`. -/
def cycles (h : Host σ) : Nat → Session σ → Except Fault Unit × Session σ
  | 0, s => (.ok (), s)
  | n + 1, s =>
    if s.world.stopRequested then (.ok (), s.withdrawStop)
    else
      match s.cycle h with
      | (.error f, s) => (.error f, s)
      | (.ok _, s) => cycles h n s

/-- Runs for at most `n` cycles (`run_steps`). -/
def runSteps (h : Host σ) (n : Nat) (s : Session σ) : Except Fault Unit × Session σ :=
  let (result, s) := cycles h n (s.setRunning true)
  (result, s.setRunning false)

/-- The loop of `run`: cycles that nothing bounds but the fuel. -/
def cyclesUntilStop (h : Host σ) : Nat → Session σ → Option (Except Fault Unit × Session σ)
  | 0, _ => none
  | fuel + 1, s =>
    if s.world.stopRequested then some (.ok (), s.withdrawStop)
    else
      match s.cycle h with
      | (.error f, s) => some (.error f, s)
      | (.ok _, s) => cyclesUntilStop h fuel s

/-- Runs until a stop or a fault; nothing if neither has come when the fuel is used up (`run`). -/
def run (h : Host σ) (fuel : Nat) (s : Session σ) : Option (Except Fault Unit × Session σ) :=
  (cyclesUntilStop h fuel (s.setRunning true)).map fun (result, s) => (result, s.setRunning false)

/-- More fuel keeps a finished answer. -/
theorem cyclesUntilStop_of_le {h : Host σ} {fuel more : Nat} {s : Session σ}
    {r : Except Fault Unit × Session σ} (le : fuel ≤ more)
    (done : cyclesUntilStop h fuel s = some r) : cyclesUntilStop h more s = some r := by
  induction fuel generalizing more s with
  | zero => cases done
  | succ fuel ih =>
    obtain ⟨more, rfl⟩ : ∃ k, more = k + 1 := ⟨more - 1, by omega⟩
    unfold cyclesUntilStop at done ⊢
    split
    · rename_i stopped
      rwa [if_pos stopped] at done
    · rename_i going
      rw [if_neg going] at done
      split <;> rename_i cycled <;> rw [cycled] at done
      · exact done
      · exact ih (by omega) done

/-- Up to `n` cycles that do not look at requests to stop, with what is seen of the virtual
machine after each; a fault comes last. -/
def traceCycles {α : Type} (h : Host σ) (view : Vm → α) :
    Nat → Session σ → List (Except Fault Flow × α) × Session σ
  | 0, s => ([], s)
  | n + 1, s =>
    match s.cycle h with
    | (.error f, s) => ([(.error f, view s.vm)], s)
    | (.ok flow, s) =>
      let seen := view s.vm
      let (rest, last) := traceCycles h view n s
      ((.ok flow, seen) :: rest, last)

end ChipEight.Session
