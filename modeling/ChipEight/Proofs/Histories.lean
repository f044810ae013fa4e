import ChipEight.Instr.Encoding
import ChipEight.Proofs.Runs
import ChipEight.Proofs.Sessions
/-!
# Histories

A `Turn` is a cycle as it begins.  `Session.turns` lists the turns that some calls take, whether
one by one or in runs; what holds before the first and is carried on by each turn holds at the end
of a list of calls that does not restart the machine (`performAll_turns_induction`).  Where calls
may restart the machine, `Session.happenings` lists the restarts among the turns.
-/

namespace ChipEight

variable {σ : Type}

/-- A cycle as it begins: how the devices behave, and the session. -/
structure Turn (σ : Type) where
  host : Host σ
  session : Session σ

/-- An instruction that was executed, and the address at which it stood. -/
structure Executed where
  pc : Address
  instr : Instr

namespace Turn

def after (turn : Turn σ) : Session σ := (turn.session.cycle turn.host).2

/-- What the cycle executes, if it does not wait for a key and does not fault. -/
def executed? (turn : Turn σ) : Option Executed :=
  match turn.session.vm.mode, turn.session.vm.machine.fetch?,
      (turn.session.cycle turn.host).1 with
  | .fetching, some op, .ok _ =>
    (Instr.decode op).toOption.map fun i => ⟨turn.session.vm.machine.pc, i⟩
  | _, _, _ => none

theorem executed?_eq_some_iff {turn : Turn σ} {e : Executed} :
    turn.executed? = some e ↔ turn.session.vm.mode = .fetching ∧
      turn.session.vm.machine.fetch? = some (Instr.encode e.instr) ∧
      turn.session.vm.machine.pc = e.pc ∧
      ∃ flow, (turn.session.cycle turn.host).1 = .ok flow := by
  unfold executed?
  constructor
  · intro did
    split at did
    · rename_i op flow mode fetched cycled
      rw [mode, fetched]
      cases decoded : Instr.decode op with
      | error cause =>
        rw [decoded] at did
        cases did
      | ok i =>
        rw [decoded] at did
        cases did
        exact ⟨rfl, by rw [Instr.encode_of_decode decoded], rfl, flow, cycled⟩
    · cases did
  · rintro ⟨mode, fetched, pc, flow, cycled⟩
    simp only [mode, fetched, cycled, Instr.decode_encode, Except.toOption, Option.map_some, pc]

end Turn

/-- The executed instructions, the oldest first. -/
def executedBy (turns : List (Turn σ)) : List Executed := turns.filterMap Turn.executed?

/-- A list is split at its last element or before it. -/
theorem split_concat {α : Type} {past before later : List α} {x a : α}
    (split : past ++ [x] = before ++ a :: later) :
    (past = before ∧ x = a ∧ later = []) ∨
      ∃ between, later = between ++ [x] ∧ past = before ++ a :: between := by
  rcases later.eq_nil_or_concat with rfl | ⟨between, last, rfl⟩
  · obtain ⟨same, last⟩ := List.append_inj' split rfl
    exact .inl ⟨same, List.singleton_inj.1 last, rfl⟩
  · rw [List.concat_eq_append, ← List.cons_append, ← List.append_assoc] at split
    obtain ⟨same, last⟩ := List.append_inj' split rfl
    cases last
    exact .inr ⟨between, List.concat_eq_append, same⟩

namespace Session

/-! ### The turns of calls -/

/-- The turns of a run of at most `n` cycles. -/
def cycleTurns (h : Host σ) : Nat → Session σ → List (Turn σ)
  | 0, _ => []
  | n + 1, s =>
    if s.world.stopRequested then []
    else
      ⟨h, s⟩ ::
        match s.cycle h with
        | (.error _, _) => []
        | (.ok _, t) => cycleTurns h n t

def callTurns (s : Session σ) : Call σ → List (Turn σ)
  | .cycle h => [⟨h, s⟩]
  | .runSteps h n | .run h n => cycleTurns h n (s.setRunning true)
  | .load _ | .reset | .stop | .connect _ => []

def turns (s : Session σ) : List (Call σ) → List (Turn σ)
  | [] => []
  | c :: rest => s.callTurns c ++ ((s.perform c).map fun t => t.turns rest).getD []

theorem callTurns_of_restarts {s : Session σ} {c : Call σ} (restarts : c.restarts = true) :
    s.callTurns c = [] := by
  cases c with
  | load | reset => rfl
  | stop | connect | cycle | runSteps | run => cases restarts

/-- The devices behave in every turn of a run as they do in the run. -/
theorem host_of_mem_cycleTurns {h : Host σ} {n : Nat} {s : Session σ} {turn : Turn σ}
    (mem : turn ∈ cycleTurns h n s) : turn.host = h := by
  induction n generalizing s with
  | zero => cases mem
  | succ n ih =>
    unfold cycleTurns at mem
    split at mem
    · cases mem
    · rcases List.mem_cons.1 mem with rfl | mem
      · rfl
      · split at mem
        · cases mem
        · exact ih mem

theorem host_of_mem_callTurns {s : Session σ} {c : Call σ} {turn : Turn σ}
    (mem : turn ∈ s.callTurns c) : c.host? = some turn.host := by
  cases c with
  | load | reset | stop | connect => cases mem
  | cycle h =>
    rw [List.mem_singleton.1 mem]
    rfl
  | runSteps h n | run h n =>
    rw [host_of_mem_cycleTurns mem]
    rfl

/-! ### Induction along the turns -/

theorem cycleTurns_induction {P : List (Turn σ) → Session σ → Prop} (h : Host σ)
    (cycle : ∀ past s, P past s → P (past ++ [⟨h, s⟩]) (s.cycle h).2)
    (withdraw : ∀ past s, P past s → P past s.withdrawStop) (n : Nat) {past : List (Turn σ)}
    {s : Session σ} (start : P past s) : P (past ++ cycleTurns h n s) (cycles h n s).2 := by
  induction n generalizing past s with
  | zero =>
    rw [cycleTurns, List.append_nil]
    exact start
  | succ n ih =>
    have next := cycle past s start
    unfold cycleTurns cycles
    split
    · rw [List.append_nil]
      exact withdraw past s start
    · rcases cycled : s.cycle h with ⟨f | flow, t⟩
      · rw [cycled] at next
        exact next
      · rw [cycled] at next
        rw [List.append_cons]
        exact ih next

/-- What a cycle carries on holds before each turn of a run. -/
theorem cycleTurns_at_every_turn {P : List (Turn σ) → Session σ → Prop} (h : Host σ)
    (cycle : ∀ past s, P past s → P (past ++ [⟨h, s⟩]) (s.cycle h).2) (n : Nat)
    {past : List (Turn σ)} {s : Session σ} (start : P past s) {before later : List (Turn σ)}
    {turn : Turn σ} (split : cycleTurns h n s = before ++ turn :: later) :
    P (past ++ before) turn.session := by
  induction n generalizing past s before with
  | zero => simp [cycleTurns] at split
  | succ n ih =>
    unfold cycleTurns at split
    split at split
    · simp at split
    · cases before with
      | nil =>
        obtain ⟨rfl, -⟩ := List.cons.inj split
        rw [List.append_nil]
        exact start
      | cons first before =>
        have next := cycle past s start
        obtain ⟨rfl, rest⟩ := List.cons.inj split
        rw [List.append_cons]
        rcases cycled : s.cycle h with ⟨f | flow, t⟩
        · simp [cycled] at rest
        · rw [cycled] at next
          simp only [cycled] at rest
          exact ih next rest

theorem run_eq_runSteps {h : Host σ} {fuel : Nat} {s : Session σ}
    {r : Except Fault Unit × Session σ} (done : s.run h fuel = some r) : s.runSteps h fuel = r := by
  obtain ⟨r', ended, rfl⟩ := Option.map_eq_some_iff.1 done
  obtain ⟨m, lt, ends⟩ := cyclesUntilStop_eq_some_iff.1 ended
  rw [runSteps, ends.cycles_eq lt]

variable {P : List (Turn σ) → Session σ → Prop}
    (cycle : ∀ h past s, P past s → P (past ++ [⟨h, s⟩]) (s.cycle h).2)
    (quiet : ∀ past s t running, t.vm = { s.vm with running := running } → P past s → P past t)

include cycle quiet

theorem runSteps_turns_induction (h : Host σ) (n : Nat) {past : List (Turn σ)} {s : Session σ}
    (start : P past s) :
    P (past ++ cycleTurns h n (s.setRunning true)) (s.runSteps h n).2 := by
  have ready : P past (s.setRunning true) := quiet past s _ true rfl start
  have done := cycleTurns_induction h (cycle h)
    (fun past t held => quiet past t _ t.vm.running rfl held) n ready
  exact quiet _ _ _ false rfl done

theorem perform_turns_induction {past : List (Turn σ)} {s t : Session σ} {c : Call σ}
    (keep : c.restarts = false) (start : P past s) (performed : s.perform c = some t) :
    P (past ++ s.callTurns c) t := by
  cases c with
  | load program =>
    have large : ¬program.length ≤ Platform.programCapacity := by simpa [Call.restarts] using keep
    cases performed
    rw [callTurns, List.append_nil]
    refine quiet past s _ s.vm.running ?_ start
    simp only [load, Machine.load, if_neg large]
  | reset => cases keep
  | stop | connect devices =>
    cases performed
    rw [callTurns, List.append_nil]
    exact quiet past s _ s.vm.running rfl start
  | cycle h =>
    cases performed
    exact cycle h past s start
  | runSteps h n =>
    cases performed
    exact runSteps_turns_induction cycle quiet h n start
  | run h fuel =>
    obtain ⟨r, done, rfl⟩ := Option.map_eq_some_iff.1 performed
    rw [← run_eq_runSteps done]
    exact runSteps_turns_induction cycle quiet h fuel start

theorem callTurns_at_every_turn {past : List (Turn σ)} {s : Session σ} {c : Call σ}
    (start : P past s) {before later : List (Turn σ)} {turn : Turn σ}
    (split : s.callTurns c = before ++ turn :: later) : P (past ++ before) turn.session := by
  have ready : P past (s.setRunning true) := quiet past s _ true rfl start
  cases c with
  | load | reset | stop | connect => simp [callTurns] at split
  | cycle h =>
    have only : [] ++ [⟨h, s⟩] = before ++ turn :: later := split
    rcases split_concat only with ⟨rfl, rfl, -⟩ | ⟨_, -, split⟩
    · rw [List.append_nil]
      exact start
    · simp at split
  | runSteps h n | run h n => exact cycleTurns_at_every_turn h (cycle h) n ready split

theorem perform_turns_induction_of_restart {past : List (Turn σ)} {s t : Session σ} {c : Call σ}
    (restart : c.restarts = true → ∀ past s t, s.perform c = some t → P past s → P past t)
    (start : P past s) (performed : s.perform c = some t) : P (past ++ s.callTurns c) t := by
  cases restarts : c.restarts with
  | true =>
    rw [callTurns_of_restarts restarts, List.append_nil]
    exact restart restarts past s t performed start
  | false => exact perform_turns_induction cycle quiet restarts start performed

/-- What a turn and a restart carry on, and what does not look at anything but the virtual machine,
holds at the end of all calls. -/
theorem performAll_turns_induction_of_restart {calls : List (Call σ)} {past : List (Turn σ)}
    {s t : Session σ}
    (restart : ∀ c ∈ calls, c.restarts = true → ∀ past s t, s.perform c = some t →
      P past s → P past t)
    (start : P past s) (performed : s.performAll calls = some t) : P (past ++ s.turns calls) t := by
  induction calls generalizing past s with
  | nil =>
    cases performed
    rw [turns, List.append_nil]
    exact start
  | cons c rest ih =>
    obtain ⟨u, first, others⟩ := Option.bind_eq_some_iff.1 performed
    have next := perform_turns_induction_of_restart cycle quiet
      (restart c (List.mem_cons_self ..)) start first
    have last := ih (fun d mem => restart d (List.mem_cons_of_mem _ mem)) next others
    rw [turns, first, ← List.append_assoc]
    exact last

/-- It holds before each of the turns as well, whether the last of the calls ends or not. -/
theorem turns_at_every_turn {calls : List (Call σ)} {past : List (Turn σ)} {s : Session σ}
    (restart : ∀ c ∈ calls, c.restarts = true → ∀ past s t, s.perform c = some t →
      P past s → P past t)
    (start : P past s) {before later : List (Turn σ)} {turn : Turn σ}
    (split : s.turns calls = before ++ turn :: later) : P (past ++ before) turn.session := by
  induction calls generalizing past s before with
  | nil => simp [turns] at split
  | cons c rest ih =>
    have later_on (between : List (Turn σ))
        (there : ((s.perform c).map fun t => t.turns rest).getD [] = between ++ turn :: later) :
        P (past ++ s.callTurns c ++ between) turn.session := by
      cases first : s.perform c with
      | none => simp [first] at there
      | some t =>
        rw [first] at there
        have next := perform_turns_induction_of_restart cycle quiet
          (restart c (List.mem_cons_self ..)) start first
        exact ih (fun d mem => restart d (List.mem_cons_of_mem _ mem)) next there
    rw [turns] at split
    rcases List.append_eq_append_iff.1 split with ⟨between, rfl, there⟩ | ⟨between, here, there⟩
    · rw [← List.append_assoc]
      exact later_on between there
    · cases between with
      | nil =>
        have last := later_on [] there.symm
        rwa [here, List.append_nil, List.append_nil] at last
      | cons other between =>
        obtain ⟨rfl, -⟩ := List.cons.inj there
        exact callTurns_at_every_turn cycle quiet start here

/-- Calls that do not restart the machine need no law of restarts. -/
theorem performAll_turns_induction {calls : List (Call σ)} {past : List (Turn σ)}
    {s t : Session σ} (keep : ∀ c ∈ calls, c.restarts = false) (start : P past s)
    (performed : s.performAll calls = some t) : P (past ++ s.turns calls) t := by
  refine performAll_turns_induction_of_restart cycle quiet ?_ start performed
  intro c mem restarts
  rw [keep c mem] at restarts
  cases restarts

theorem turns_at_every_turn_of_keep {calls : List (Call σ)} {past : List (Turn σ)}
    {s : Session σ} (keep : ∀ c ∈ calls, c.restarts = false) (start : P past s)
    {before later : List (Turn σ)} {turn : Turn σ}
    (split : s.turns calls = before ++ turn :: later) : P (past ++ before) turn.session := by
  refine turns_at_every_turn cycle quiet ?_ start split
  intro c mem restarts
  rw [keep c mem] at restarts
  cases restarts

/-- What such calls carry on holds before each of their turns and at the end. -/
theorem performAll_at_every_turn {calls : List (Call σ)} {s t : Session σ}
    (keep : ∀ c ∈ calls, c.restarts = false) (start : P [] s)
    (performed : s.performAll calls = some t) :
    P (s.turns calls) t ∧
      ∀ past turn later, s.turns calls = past ++ turn :: later → P past turn.session := by
  constructor
  · exact performAll_turns_induction cycle quiet keep start performed
  · intro past turn later split
    exact turns_at_every_turn_of_keep cycle quiet keep start split

end Session

/-! ### Histories with restarts -/

/-- What happens to a virtual machine. -/
inductive Happening (σ : Type) where
  | turn (turn : Turn σ)
  /-- It is switched on anew. -/
  | restart

namespace Session

def callHappenings (s : Session σ) (c : Call σ) : List (Happening σ) :=
  if c.restarts then [.restart] else (s.callTurns c).map .turn

def happenings (s : Session σ) : List (Call σ) → List (Happening σ)
  | [] => []
  | c :: rest => s.callHappenings c ++ ((s.perform c).map fun t => t.happenings rest).getD []

/-- A machine that has been switched on anew fetches its first instruction. -/
theorem mode_of_restarts {s t : Session σ} {c : Call σ} (restarts : c.restarts = true)
    (performed : s.perform c = some t) : t.vm.mode = .fetching := by
  cases c with
  | load program =>
    have fits : program.length ≤ Platform.programCapacity := by
      simpa [Call.restarts] using restarts
    cases performed
    simp only [load, Machine.load, if_pos fits]
    rfl
  | reset =>
    cases performed
    rfl
  | stop | connect | cycle | runSteps | run => cases restarts

/-- The induction along turns, for calls among which the machine may be switched on anew. -/
theorem performAll_happenings_induction {P : List (Happening σ) → Session σ → Prop}
    (cycle : ∀ h past s, P past s → P (past ++ [.turn ⟨h, s⟩]) (s.cycle h).2)
    (quiet : ∀ past s t running, t.vm = { s.vm with running := running } → P past s → P past t)
    (restart : ∀ past s t c, Call.restarts c = true → s.perform c = some t → P past s →
      P (past ++ [.restart]) t)
    {calls : List (Call σ)} {past : List (Happening σ)} {s t : Session σ} (start : P past s)
    (performed : s.performAll calls = some t) : P (past ++ s.happenings calls) t := by
  induction calls generalizing past s with
  | nil =>
    cases performed
    rw [happenings, List.append_nil]
    exact start
  | cons c rest ih =>
    obtain ⟨u, first, others⟩ := Option.bind_eq_some_iff.1 performed
    have next : P (past ++ s.callHappenings c) u := by
      unfold callHappenings
      cases restarts : c.restarts with
      | true => exact restart past s u c restarts first start
      | false =>
        have started : P (past ++ [].map .turn) s := by simpa using start
        refine perform_turns_induction (P := fun turns t => P (past ++ turns.map .turn) t)
          ?_ ?_ restarts started first
        · intro h turns v held
          have after := cycle h _ v held
          rw [List.append_assoc] at after
          rw [List.map_append]
          exact after
        · intro turns v w running same held
          exact quiet _ v w running same held
    have last := ih next others
    rw [happenings, first, ← List.append_assoc]
    exact last

end Session

end ChipEight
