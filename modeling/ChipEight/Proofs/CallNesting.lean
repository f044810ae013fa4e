import ChipEight.Host.Console
import ChipEight.Proofs.Checked.Safety
import ChipEight.Proofs.ControlFlow
import ChipEight.Proofs.Turns
/-!
# Calls and returns

In a `Balanced` history every call is matched by a return and every return by a call, as brackets
are; `Unmatched` picks out the calls of any history that no return matches.  Since the machine was
switched on, reset or loaded, the call stack has held the addresses behind just these calls:
`calls_well_nested`.
-/

namespace ChipEight

variable {σ : Type}

namespace Executed

def IsCall (e : Executed) : Prop := ∃ target, e.instr = .call target

def IsReturn (e : Executed) : Prop := e.instr = .ret

def following (e : Executed) : Address := e.pc + 2

end Executed

/-- Calls and returns match each other. -/
inductive Balanced : List Executed → Prop where
  | nil : Balanced []
  | other {e : Executed} {rest : List Executed} (noCall : ¬e.IsCall) (noReturn : ¬e.IsReturn)
      (after : Balanced rest) : Balanced (e :: rest)
  | matched {c r : Executed} {inside rest : List Executed} (call : c.IsCall)
      (between : Balanced inside) (ret : r.IsReturn) (after : Balanced rest) :
      Balanced (c :: inside ++ r :: rest)

/-- The calls of a history that no return matches, the oldest first. -/
inductive Unmatched : List Executed → List Executed → Prop where
  | none {history : List Executed} (balanced : Balanced history) : Unmatched history []
  | call {before inside opens : List Executed} {c : Executed} (older : Unmatched before opens)
      (call : c.IsCall) (balanced : Balanced inside) :
      Unmatched (before ++ c :: inside) (opens ++ [c])

/-! ### Matching -/

theorem Balanced.append {es fs : List Executed} (first : Balanced es) (second : Balanced fs) :
    Balanced (es ++ fs) := by
  induction first with
  | nil => exact second
  | other noCall noReturn _ ih => exact .other noCall noReturn ih
  | matched call between ret _ _ ih =>
    rw [List.append_assoc]
    exact .matched call between ret ih

theorem Unmatched.append {es fs opens : List Executed} (first : Unmatched es opens)
    (second : Balanced fs) : Unmatched (es ++ fs) opens := by
  cases first with
  | none balanced => exact .none (balanced.append second)
  | call older call balanced =>
    rw [List.append_assoc]
    exact .call older call (balanced.append second)

/-- The newest unmatched call, and what has been executed since. -/
theorem Unmatched.newest {es opens : List Executed} {c : Executed}
    (unmatched : Unmatched es (opens ++ [c])) :
    ∃ before inside, es = before ++ c :: inside ∧ c.IsCall ∧ Balanced inside ∧
      Unmatched before opens := by
  generalize found : opens ++ [c] = calls at unmatched
  cases unmatched with
  | none => simp at found
  | @call before inside older d unmatched call balanced =>
    obtain ⟨rfl, same⟩ := List.append_inj' found rfl
    cases same
    exact ⟨before, inside, rfl, call, balanced, unmatched⟩

theorem Unmatched.append_return {es opens : List Executed} {c r : Executed}
    (unmatched : Unmatched es (opens ++ [c])) (ret : r.IsReturn) : Unmatched (es ++ [r]) opens := by
  obtain ⟨before, inside, rfl, call, balanced, older⟩ := unmatched.newest
  rw [List.append_assoc]
  exact older.append (.matched call balanced ret .nil)

/-- The unmatched calls after one more instruction, the newest first. -/
def Executed.track (opens : List Executed) (e : Executed) : List Executed :=
  match e.instr with
  | .call _ => e :: opens
  | .ret => opens.tail
  | _ => opens

theorem Executed.track_of_isCall {e : Executed} (call : e.IsCall) (opens : List Executed) :
    track opens e = e :: opens := by
  obtain ⟨target, instr⟩ := call
  simp only [track, instr]

theorem Executed.track_of_isReturn {e c : Executed} (ret : e.IsReturn) (opens : List Executed) :
    track (c :: opens) e = opens := by
  obtain ⟨pc, instr⟩ := e
  cases ret
  rfl

theorem Executed.track_of_other {e : Executed} (noCall : ¬e.IsCall) (noReturn : ¬e.IsReturn)
    (opens : List Executed) : track opens e = opens := by
  obtain ⟨pc, instr⟩ := e
  cases instr with
  | call target => exact absurd ⟨target, rfl⟩ noCall
  | ret => exact absurd rfl noReturn
  | _ => rfl

theorem Balanced.foldl_track {es : List Executed} (balanced : Balanced es)
    (opens : List Executed) : es.foldl Executed.track opens = opens := by
  induction balanced generalizing opens with
  | nil => rfl
  | @other e rest noCall noReturn _ ih =>
    rw [List.foldl_cons, Executed.track_of_other noCall noReturn, ih]
  | @matched c r inside rest call _ ret _ within ih =>
    rw [List.cons_append, List.foldl_cons, List.foldl_append, List.foldl_cons,
      Executed.track_of_isCall call, within, Executed.track_of_isReturn ret, ih]

theorem Unmatched.foldl_track {es opens : List Executed} (unmatched : Unmatched es opens) :
    es.foldl Executed.track [] = opens.reverse := by
  induction unmatched with
  | none balanced => exact balanced.foldl_track []
  | call _ call balanced ih =>
    rw [List.foldl_append, List.foldl_cons, ih, Executed.track_of_isCall call,
      balanced.foldl_track, List.reverse_append]
    rfl

theorem Unmatched.unique {es opens others : List Executed} (unmatched : Unmatched es opens)
    (also : Unmatched es others) : others = opens := by
  rw [← List.reverse_inj, ← unmatched.foldl_track, ← also.foldl_track]

/-! ### The call stack -/

/-- The stack holds the addresses behind the unmatched calls. -/
def CallStack.Follows (stack : CallStack) (history : List Executed) : Prop :=
  ∃ opens, Unmatched history opens ∧ stack.toList = opens.map Executed.following

theorem Turn.follows_after (past : List (Turn σ)) (turn : Turn σ)
    (follows : turn.session.vm.machine.stack.Follows (executedBy past)) :
    turn.after.vm.machine.stack.Follows (executedBy (past ++ [turn])) := by
  obtain ⟨opens, unmatched, stack⟩ := follows
  rw [executedBy, List.filterMap_append]
  cases did : turn.executed? with
  | none =>
    refine ⟨opens, ?_, ?_⟩
    · rw [List.filterMap_cons_none did, List.filterMap_nil, List.append_nil]
      exact unmatched
    · rw [turn.stack_of_executed?_eq_none did, stack]
  | some e =>
    obtain ⟨-, -, pc, -⟩ := Turn.executed?_eq_some_iff.1 did
    obtain ⟨key, m, flow, _, _, effect, after⟩ := Turn.effect_of_executed? did
    rw [List.filterMap_cons_some did, List.filterMap_nil]
    have same : turn.after.vm.machine.stack = m.stack := by rw [after]
    rw [same]
    -- The stack takes in a call, gives back a return, and is left alone by all else.
    rcases Instr.exec_stack effect with ⟨target, call, pushed⟩ | ⟨ret, popped⟩ | ⟨no, noRet, rest⟩
    · refine ⟨opens ++ [e], .call unmatched ⟨target, call⟩ .nil, ?_⟩
      have behind : turn.session.vm.machine.advance.pc = e.following := by
        rw [Executed.following, ← pc]
        rfl
      rw [CallStack.toList_push? pushed, behind, List.map_append]
      exact congrArg (· ++ [e.following]) stack
    · have popped' : opens.map Executed.following = m.stack.toList ++ [m.pc] := by
        rw [← stack]
        exact CallStack.toList_pop? popped
      obtain ⟨older, last, rfl, stack', top⟩ := List.map_eq_append_iff.1 popped'
      obtain ⟨c, rfl, -⟩ := List.map_eq_singleton_iff.1 top
      exact ⟨older, unmatched.append_return ret, stack'.symm⟩
    · refine ⟨opens, unmatched.append (.other ?_ noRet .nil), ?_⟩
      · rintro ⟨target, call⟩
        exact no target call
      · rw [rest]
        exact stack

namespace Session

/-- The machine has just been switched on, reset, or loaded with a program. -/
def Fresh (s : Session σ) : Prop :=
  (∃ config stream devices, s = start config stream devices) ∨
    ∃ (u : Session σ) (c : Call σ), c.restarts = true ∧ u.perform c = some s

theorem Fresh.stack {s : Session σ} (fresh : s.Fresh) : s.vm.machine.stack = .empty := by
  rcases fresh with ⟨config, stream, devices, rfl⟩ | ⟨u, c, restarts, performed⟩
  · rfl
  · cases c with
    | load program =>
      have fits : program.length ≤ Platform.programCapacity := by
        simpa [Call.restarts] using restarts
      cases performed
      simp only [load, Machine.load, if_pos fits]
      rfl
    | reset =>
      cases performed
      rfl
    | stop | connect | cycle | runSteps | run => cases restarts

/-- The stack follows the turns, and did so at each of them. -/
def FollowsTurns (turns : List (Turn σ)) (s : Session σ) : Prop :=
  s.vm.machine.stack.Follows (executedBy turns) ∧
  ∀ past turn later, turns = past ++ turn :: later →
    turn.session.vm.machine.stack.Follows (executedBy past)

theorem Fresh.performAll_followsTurns {s t : Session σ} {calls : List (Call σ)} (fresh : s.Fresh)
    (keep : ∀ c ∈ calls, c.restarts = false) (performed : s.performAll calls = some t) :
    t.FollowsTurns (s.turns calls) := by
  refine performAll_at_every_turn (P := fun turns s =>
    s.vm.machine.stack.Follows (executedBy turns)) ?cycle ?quiet keep ?start performed
  case cycle =>
    intro h turns s follows
    exact Turn.follows_after turns ⟨h, s⟩ follows
  case quiet =>
    intro turns s t running same follows
    rw [same]
    exact follows
  case start => exact ⟨[], .none .nil, by rw [fresh.stack]; rfl⟩

theorem cycle_eq_instruction_iff (h : Host σ) (s : Session σ) (cause : Cause) (pc : Address)
    (op : Opcode) :
    (s.cycle h).1 = .error (.instruction cause pc op) ↔
      s.vm.mode = .fetching ∧ s.vm.machine.fetch? = some op ∧ s.vm.machine.pc = pc ∧
        s.vm.machine.advance.Refuses op cause := by
  rw [cycle_eq_error_iff, Machine.fetch?_eq_some_iff]
  constructor
  · rintro ⟨mode, ⟨-, other⟩ | ⟨within, op', cause', standing, refused, same⟩⟩
    · cases other
    · cases same
      exact ⟨mode, ⟨within, standing⟩, rfl, refused⟩
  · rintro ⟨mode, ⟨within, standing⟩, rfl, refused⟩
    exact ⟨mode, .inr ⟨within, op, cause, standing, refused, rfl⟩⟩

end Session

/-- A return leads behind the call that it matches, and leaves the entries below alone. -/
theorem Turn.return_matches {turn : Turn σ} {history opens : List Executed} {e : Executed}
    (unmatched : Unmatched history opens)
    (stack : turn.session.vm.machine.stack.toList = opens.map Executed.following)
    (did : turn.executed? = some e) (ret : e.IsReturn) :
    ∃ before call inside older, history = before ++ call :: inside ∧ call.IsCall ∧
      Balanced inside ∧ opens = older ++ [call] ∧
      turn.after.vm.machine.pc = call.following ∧
      turn.after.vm.machine.stack.toList = older.map Executed.following := by
  obtain ⟨key, m, flow, _, _, effect, after⟩ := Turn.effect_of_executed? did
  have instr : e.instr = .ret := ret
  rw [instr] at effect
  rcases Instr.exec_stack effect with ⟨target, call, -⟩ | ⟨-, popped⟩ | ⟨-, no, -⟩
  · cases call
  · have entries : opens.map Executed.following = m.stack.toList ++ [m.pc] := by
      rw [← stack]
      exact CallStack.toList_pop? popped
    obtain ⟨older, last, rfl, below, top⟩ := List.map_eq_append_iff.1 entries
    obtain ⟨c, rfl, target⟩ := List.map_eq_singleton_iff.1 top
    obtain ⟨before, inside, rfl, call, balanced, -⟩ := unmatched.newest
    refine ⟨before, c, inside, older, rfl, call, balanced, rfl, ?_, ?_⟩
    · rw [after, target]
    · rw [after, below]
  · exact absurd rfl no

theorem CallStack.depth_eq_length {stack : CallStack} {opens : List Executed}
    (entries : stack.toList = opens.map Executed.following) : stack.depth = opens.length := by
  rw [← List.length_map Executed.following, ← entries, toList, List.length_reverse, depth]

/-- **Calls and returns are well nested.**  Let a machine that is fresh go through calls that do
not restart it.  Whatever turns these take, the stack holds in the end the addresses behind the
unmatched calls, the oldest first, and so does the `stack` of a checked virtual machine, which
keeps a pointer into sixteen slots.  It is the same at every turn on the way: a return leads
behind the call that it matches and leaves the others on the stack; a call fails just when
sixteen are unmatched and a return when none is; and where nothing is executed, because the turn
faults or waits for a key, the stack stays. -/
theorem calls_well_nested {s t : Session σ} {calls : List (Call σ)} (fresh : s.Fresh)
    (keep : ∀ c ∈ calls, c.restarts = false) (performed : s.performAll calls = some t) :
    (∃ opens, Unmatched (executedBy (s.turns calls)) opens ∧
      (∀ others, Unmatched (executedBy (s.turns calls)) others → others = opens) ∧
      t.vm.machine.stack.toList = opens.map Executed.following ∧
      (t.Reachable → ∃ r : Checked.Rig σ, r.Reachable ∧ r.view = t) ∧
      ∀ r : Checked.Rig σ, r.Reachable → r.view = t →
        Checked.Bench.stack.run r.bench = .done (opens.map Executed.following) r.bench) ∧
    ∀ past turn later, s.turns calls = past ++ turn :: later →
      ∃ opens, Unmatched (executedBy past) opens ∧
        (∀ others, Unmatched (executedBy past) others → others = opens) ∧
        turn.session.vm.machine.stack.toList = opens.map Executed.following ∧
        (∀ e, turn.executed? = some e → e.IsReturn →
          ∃ before call inside older, executedBy past = before ++ call :: inside ∧
            call.IsCall ∧ Balanced inside ∧ opens = older ++ [call] ∧
            turn.after.vm.machine.pc = call.following ∧
            turn.after.vm.machine.stack.toList = older.map Executed.following) ∧
        (∀ pc op, (turn.session.cycle turn.host).1 = .error (.instruction .stackOverflow pc op) ↔
          turn.session.vm.mode = .fetching ∧ turn.session.vm.machine.fetch? = some op ∧
            turn.session.vm.machine.pc = pc ∧ Opcode.family op = 0x2 ∧ opens.length = 16) ∧
        (∀ pc op, (turn.session.cycle turn.host).1 = .error (.instruction .stackUnderflow pc op) ↔
          turn.session.vm.mode = .fetching ∧ turn.session.vm.machine.fetch? = some op ∧
            turn.session.vm.machine.pc = pc ∧ op = 0x00EE ∧ opens = []) ∧
        (∀ f, (turn.session.cycle turn.host).1 = .error f → turn.executed? = none) ∧
        (turn.executed? = none →
          turn.after.vm.machine.stack = turn.session.vm.machine.stack) := by
  obtain ⟨⟨opens, unmatched, stack⟩, turns⟩ := fresh.performAll_followsTurns keep performed
  constructor
  · refine ⟨opens, unmatched, fun others => unmatched.unique, stack,
      Checked.Rig.exists_rig_of_reachable, ?_⟩
    rintro r reached rfl
    rw [Checked.Bench.run_stack (Checked.Rig.sound_of_reachable reached).store, ← stack]
    rfl
  · intro past turn later split
    obtain ⟨opens, unmatched, stack⟩ := turns past turn later split
    have depth := CallStack.depth_eq_length stack
    refine ⟨opens, unmatched, fun others => unmatched.unique, stack, ?_, ?_, ?_, ?_, ?_⟩
    · intro e did ret
      exact Turn.return_matches unmatched stack did ret
    · intro pc op
      rw [Session.cycle_eq_instruction_iff, ← depth]
      rfl
    · intro pc op
      rw [Session.cycle_eq_instruction_iff, ← List.length_eq_zero_iff, ← depth]
      rfl
    · intro f failed
      cases did : turn.executed? with
      | none => rfl
      | some e =>
        obtain ⟨-, -, -, flow, cycled⟩ := Turn.executed?_eq_some_iff.1 did
        rw [failed] at cycled
        cases cycled
    · exact Turn.stack_of_executed?_eq_none

/-- A program that calls itself has left one return address after its first cycle. -/
theorem calls_well_nested_recursion :
    let s := ((Session.start { seed := 0 } (.ofSeed 0) ({} : Console)).load [0x22, 0x00]).2
    let h := Script.host { millis := fun _ => 0.0 }
    let t := (s.cycle h).2
    s.Fresh ∧ s.performAll [.cycle h] = some t ∧
      executedBy (s.turns [.cycle h]) = [⟨0x200, .call 0x200⟩] ∧
      t.vm.machine.stack.toList = [0x202] := by
  intro s h t
  have fresh : s.Fresh := .inr ⟨_, .load [0x22, 0x00], rfl, rfl⟩
  have decoded : Instr.decode 0x2200 = .ok (.call 0x200) := rfl
  have fetched : s.vm.machine.fetch? = some 0x2200 :=
    Machine.fetch?_withProgram (.initial (.ofSeed 0)) 0x22 0x00 []
  have fetching : s.vm.mode = .fetching := rfl
  have cycled : (s.cycle h).1 = .ok .jump :=
    congrArg Prod.fst (Session.cycle_of_exec fetching fetched decoded rfl rfl)
  have did : (Turn.mk h s).executed? = some ⟨0x200, .call 0x200⟩ :=
    Turn.executed?_eq_some_iff.2 ⟨fetching, fetched, rfl, .jump, cycled⟩
  have turns : executedBy (s.turns [.cycle h]) = [⟨0x200, .call 0x200⟩] :=
    List.filterMap_cons_some did
  have keep : ∀ c ∈ [Call.cycle h], c.restarts = false := by simp [Call.restarts]
  have performed : s.performAll [.cycle h] = some t := rfl
  obtain ⟨⟨opens, -, unique, stack, -⟩, -⟩ := calls_well_nested fresh keep performed
  rw [turns] at unique
  have one : Unmatched [⟨0x200, .call 0x200⟩] [⟨0x200, .call 0x200⟩] :=
    .call (.none .nil) ⟨_, rfl⟩ .nil
  rw [← unique _ one] at stack
  exact ⟨fresh, performed, turns, stack⟩

end ChipEight
