import ChipEight.Vm.Run
/-!
# Whole sessions

A virtual machine is used by calls from outside, in any number and order.  The devices of each
call may behave in their own way, and other devices may take their place between two calls.  What
holds when the machine is switched on and is kept by the parts of which calls are made holds of
every session: `Session.performAll_induction`.
-/

namespace ChipEight

variable {σ : Type}

/-- A call on a virtual machine from outside. -/
inductive Call (σ : Type) where
  | load (program : List UInt8)
  | reset
  | stop
  /-- Other devices take the place of the present ones. -/
  | connect (devices : σ)
  | cycle (h : Host σ)
  | runSteps (h : Host σ) (n : Nat)
  /-- A run that has ended before the fuel is used up. -/
  | run (h : Host σ) (fuel : Nat)

/-- Whether the machine is switched on anew, and so forgets what it was doing. -/
def Call.restarts : Call σ → Bool
  | .load program => decide (program.length ≤ Platform.programCapacity)
  | .reset => true
  | _ => false

/-- How the devices behave during the call, if it goes through cycles. -/
def Call.host? : Call σ → Option (Host σ)
  | .cycle h | .runSteps h _ | .run h _ => some h
  | .load _ | .reset | .stop | .connect _ => none

namespace Session

/-- A virtual machine that has just been switched on, among devices.  Its random numbers are
those of a seed or any others. -/
def start (config : Config) (stream : Random) (devices : σ) : Session σ where
  vm := { Vm.new config with machine := .initial stream }
  world := { devices := devices }

/-- The random numbers of the settings are among those that a session can start with. -/
theorem start_ofSeed (config : Config) (devices : σ) :
    start config (.ofSeed config.seed) devices = new config devices := rfl

def connect (s : Session σ) (devices : σ) : Session σ :=
  { s with world := { s.world with devices := devices } }

def perform (s : Session σ) : Call σ → Option (Session σ)
  | .load program => some (s.load program).2
  | .reset => some s.reset
  | .stop => some s.stop
  | .connect devices => some (s.connect devices)
  | .cycle h => some (s.cycle h).2
  | .runSteps h n => some (s.runSteps h n).2
  | .run h fuel => (s.run h fuel).map Prod.snd

def performAll (s : Session σ) : List (Call σ) → Option (Session σ)
  | [] => some s
  | c :: rest => (s.perform c).bind fun t => t.performAll rest

def Reachable (s : Session σ) : Prop :=
  ∃ config stream devices calls, (start config stream devices).performAll calls = some s

/-! ### Induction along runs -/

/-- What a cycle and the withdrawal of a request to stop keep, the cycles of a bounded run keep. -/
theorem cycles_induction {P : Session σ → Prop} (h : Host σ)
    (cycle : ∀ s, P s → P (s.cycle h).2) (withdraw : ∀ s, P s → P s.withdrawStop) (n : Nat)
    (s : Session σ) (start : P s) : P (cycles h n s).2 := by
  induction n generalizing s with
  | zero => exact start
  | succ n ih =>
    have next := cycle s start
    unfold cycles
    split
    · exact withdraw s start
    · split <;> rename_i cycled <;> rw [cycled] at next
      · exact next
      · exact ih _ next

theorem cyclesUntilStop_induction {P : Session σ → Prop} (h : Host σ)
    (cycle : ∀ s, P s → P (s.cycle h).2) (withdraw : ∀ s, P s → P s.withdrawStop) {fuel : Nat}
    {s : Session σ} {r : Except Fault Unit × Session σ} (start : P s)
    (done : cyclesUntilStop h fuel s = some r) : P r.2 := by
  induction fuel generalizing s with
  | zero => cases done
  | succ fuel ih =>
    have next := cycle s start
    unfold cyclesUntilStop at done
    split at done
    · cases done
      exact withdraw s start
    · split at done <;> rename_i cycled <;> rw [cycled] at next
      · cases done
        exact next
      · exact ih next done

/-! ### Induction along sessions -/

/-- What the parts of a call keep, the call keeps; only the host of the call counts. -/
theorem perform_induction_of_host {P : Session σ → Prop} {s t : Session σ} {c : Call σ}
    (load : ∀ s program, P s → P (s.load program).2) (reset : ∀ s, P s → P s.reset)
    (stop : ∀ s, P s → P s.stop) (connect : ∀ devices, c = .connect devices → P (s.connect devices))
    (cycle : ∀ h, c.host? = some h → ∀ s, P s → P (s.cycle h).2)
    (withdraw : ∀ s, P s → P s.withdrawStop) (running : ∀ s b, P s → P (s.setRunning b))
    (start : P s) (performed : s.perform c = some t) : P t := by
  cases c with
  | load program => cases performed; exact load s program start
  | reset => cases performed; exact reset s start
  | stop => cases performed; exact stop s start
  | connect devices => cases performed; exact connect devices rfl
  | cycle h => cases performed; exact cycle h rfl s start
  | runSteps h n =>
    cases performed
    exact running _ false (cycles_induction h (cycle h rfl) withdraw n _ (running s true start))
  | run h fuel =>
    simp only [perform, run, Option.map_map, Option.map_eq_some_iff] at performed
    obtain ⟨r, done, rfl⟩ := performed
    exact running _ false
      (cyclesUntilStop_induction h (cycle h rfl) withdraw (running s true start) done)

/-- What every part of every call keeps, a call keeps. -/
theorem perform_induction {P : Session σ → Prop}
    (load : ∀ s program, P s → P (s.load program).2) (reset : ∀ s, P s → P s.reset)
    (stop : ∀ s, P s → P s.stop) (connect : ∀ s devices, P s → P (s.connect devices))
    (cycle : ∀ h s, P s → P (s.cycle h).2) (withdraw : ∀ s, P s → P s.withdrawStop)
    (running : ∀ s b, P s → P (s.setRunning b)) {s t : Session σ} {c : Call σ} (start : P s)
    (performed : s.perform c = some t) : P t :=
  perform_induction_of_host load reset stop (fun devices _ => connect s devices start)
    (fun h _ => cycle h) withdraw running start performed

/-- What every call keeps, calls one after the other keep. -/
theorem performAll_induction {P : Session σ → Prop}
    (perform : ∀ s t c, P s → s.perform c = some t → P t) {calls : List (Call σ)}
    {s t : Session σ} (start : P s) (performed : s.performAll calls = some t) : P t := by
  induction calls generalizing s with
  | nil => cases performed; exact start
  | cons c rest ih =>
    obtain ⟨u, first, others⟩ := Option.bind_eq_some_iff.1 performed
    exact ih (perform s u c start first) others

/-- What holds of a machine that was switched on and is kept by every call holds of every
session. -/
theorem Reachable.induction {P : Session σ → Prop}
    (start : ∀ config stream devices, P (start config stream devices))
    (perform : ∀ s t c, P s → s.perform c = some t → P t) {s : Session σ}
    (reached : s.Reachable) : P s := by
  obtain ⟨config, stream, devices, calls, performed⟩ := reached
  exact performAll_induction perform (start config stream devices) performed

end Session

end ChipEight
