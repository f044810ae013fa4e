import ChipEight.Proofs.Keypads
import ChipEight.Proofs.Presentation
/-!
# Time enters through one instruction

Two virtual machines that differ in their timers and in the time gathered go on alike, whatever
their clocks report, until one of them executes `Fx07`: `time_independence`.  The argument is a
lockstep simulation; the relation is `Vm.SameButTime` together with scripts that will answer alike.
-/

namespace ChipEight

variable {σ₁ σ₂ : Type}

/-! ### Instructions and the timers -/

theorem Machine.skipIf_of_timers (m : Machine) (delay sound : UInt8) (condition : Bool) :
    Machine.skipIf { m with delay := delay, sound := sound } condition =
      { m.skipIf condition with delay := delay, sound := sound } := by
  cases condition <;> rfl

theorem Machine.refuses_of_timers {m : Machine} {op : Opcode} {cause : Cause}
    (delay sound : UInt8) (refused : m.Refuses op cause) :
    Machine.Refuses { m with delay := delay, sound := sound } op cause := by
  cases cause <;> exact refused

namespace Instr

/-- The timers of a machine matter to no instruction but `Fx07`. -/
theorem exec_of_timers {key : Option Key} {m m' : Machine} {i : Instr} {flow : Flow}
    (noRead : ∀ x, i ≠ .readDelay x) (delay sound : UInt8)
    (effect : i.exec key m = .ok (flow, m')) :
    ∃ delay' sound', i.exec key { m with delay := delay, sound := sound } =
      .ok (flow, { m' with delay := delay', sound := sound' }) := by
  cases i with
  | readDelay x => exact absurd rfl (noRead x)
  | ret | call =>
    simp only [exec] at effect ⊢
    split at effect
    · cases effect
      exact ⟨delay, sound, rfl⟩
    · cases effect
  | draw | decimal | store | fill =>
    simp only [exec] at effect ⊢
    split at effect
    · rename_i reached
      cases effect
      exact ⟨delay, sound, if_pos reached⟩
    · cases effect
  | skipEq | skipNe | skipEqReg | skipNeReg | skipKey | skipNoKey =>
    cases effect
    refine ⟨delay, sound, ?_⟩
    exact congrArg (fun m => Except.ok (Flow.next, m)) (Machine.skipIf_of_timers ..)
  | _ =>
    cases effect
    exact ⟨_, _, rfl⟩

end Instr

namespace Vm

theorem SameButTime.elapse {vm vm' : Vm} (same : vm.SameButTime vm') (millis millis' : Float) :
    (vm.elapse millis).SameButTime (vm'.elapse millis') := by
  refine .trans (.symm ?_) (same.trans ?_)
  · exact sameButTime_elapse millis vm
  · exact sameButTime_elapse millis' vm'

theorem filter_isTimeless_timeCalls (millis : Float) (vm : Vm) :
    (vm.timeCalls millis).filter DeviceCall.isTimeless = [] := by
  unfold timeCalls
  split <;> rfl

end Vm

/-! ### Lockstep -/

namespace Turn

/-- Two turns that begin alike but for time, and are told the same key, come to the same but for
time. -/
theorem lockstep (turn₁ : Turn σ₁) (turn₂ : Turn σ₂)
    (same : turn₁.session.vm.SameButTime turn₂.session.vm) (key : turn₂.key = turn₁.key)
    (noRead : ∀ e, turn₁.executed? = some e → ∀ x, e.instr ≠ .readDelay x) :
    turn₂.executed? = turn₁.executed? ∧ turn₂.result = turn₁.result ∧
      turn₁.after.vm.SameButTime turn₂.after.vm ∧
      turn₂.calls.filter DeviceCall.isTimeless = turn₁.calls.filter DeviceCall.isTimeless := by
  obtain ⟨delay, sound, elapsed, vm⟩ := same
  have account := turn₁.account
  generalize turn₁.executed? = did, turn₁.result = result, turn₁.after.vm = after,
    turn₁.calls = calls at account noRead
  cases account with
  | outOfRange mode fetched =>
    have account₂ : turn₂.Account none _ _ _ :=
      .outOfRange (by rw [vm]; exact mode) (by rw [vm]; exact fetched)
    obtain ⟨idle, failed, left, quiet⟩ := account₂.eq
    refine ⟨idle, ?_, ?_, ?_⟩
    · rw [failed, vm]
    · rw [left, vm]
      exact ⟨_, _, _, rfl⟩
    · rw [quiet]
  | @refused op cause mode fetched refused =>
    have fetched₂ : turn₂.session.vm.machine.fetch? = some op := by rw [vm]; exact fetched
    have refused₂ : turn₂.session.vm.machine.advance.Refuses op cause := by
      rw [vm]
      exact Machine.refuses_of_timers delay sound refused
    have account₂ : turn₂.Account none _ _ _ :=
      .refused (by rw [vm]; exact mode) fetched₂ refused₂
    obtain ⟨idle, failed, left, quiet⟩ := account₂.eq
    refine ⟨idle, ?_, ?_, ?_⟩
    · rw [failed, vm]
    · rw [left, vm]
      exact ⟨_, _, _, rfl⟩
    · rw [quiet]
  | @executed i flow m mode fetched effect =>
    obtain ⟨delay', sound', effect'⟩ := Instr.exec_of_timers (noRead _ rfl) delay sound effect
    have account₂ : turn₂.Account (some ⟨_, i⟩) (.ok flow) _ _ :=
      .executed (by rw [vm]; exact mode) (by rw [vm]; exact fetched)
        (m := { m with delay := delay', sound := sound' })
        (by rw [vm, key]; exact effect')
    obtain ⟨did, done, left, made⟩ := account₂.eq
    refine ⟨?_, done, ?_, ?_⟩
    · rw [did, vm]
    · rw [left, vm]
      exact Vm.SameButTime.elapse ⟨_, _, _, rfl⟩ ..
    · rw [made, key]
      simp only [List.filter_append, Vm.filter_isTimeless_timeCalls]
      rfl
  | @waited r mode silent =>
    have account₂ : turn₂.Account none _ _ _ :=
      .waited (by rw [vm]; exact mode) (key.trans silent)
    obtain ⟨idle, done, left, made⟩ := account₂.eq
    refine ⟨idle, done, ?_, ?_⟩
    · rw [left, vm]
      exact Vm.SameButTime.elapse ⟨_, _, _, rfl⟩ ..
    · rw [made, List.filter_cons, List.filter_cons]
      simp only [Vm.filter_isTimeless_timeCalls]
  | @keyed r k mode down =>
    have account₂ : turn₂.Account none _ _ _ :=
      .keyed (by rw [vm]; exact mode) (key.trans down)
    obtain ⟨idle, done, left, made⟩ := account₂.eq
    refine ⟨idle, done, ?_, ?_⟩
    · rw [left, vm]
      exact Vm.SameButTime.elapse ⟨_, _, _, rfl⟩ ..
    · rw [made, List.filter_cons, List.filter_cons]
      simp only [Vm.filter_isTimeless_timeCalls]

end Turn

/-- What can be told of the turns without a clock is the same: the instructions that they execute,
their results, and the looks at the keypad and the frames shown, in order. -/
structure SameStory (turns₁ : List (Turn σ₁)) (turns₂ : List (Turn σ₂)) : Prop where
  executed : executedBy turns₂ = executedBy turns₁
  results : turns₂.map Turn.result = turns₁.map Turn.result
  calls : (deviceCallsOf turns₂).filter DeviceCall.isTimeless =
    (deviceCallsOf turns₁).filter DeviceCall.isTimeless

namespace SameStory

variable {turns₁ later₁ : List (Turn σ₁)} {turns₂ later₂ : List (Turn σ₂)}

theorem nil : SameStory ([] : List (Turn σ₁)) ([] : List (Turn σ₂)) := ⟨rfl, rfl, rfl⟩

theorem append (first : SameStory turns₁ turns₂) (second : SameStory later₁ later₂) :
    SameStory (turns₁ ++ later₁) (turns₂ ++ later₂) where
  executed := by rw [executedBy_append, executedBy_append, first.executed, second.executed]
  results := by rw [List.map_append, List.map_append, first.results, second.results]
  calls := by
    simp only [deviceCallsOf_append, List.filter_append, first.calls, second.calls]

/-- The keypad is looked at equally often. -/
theorem polls (same : SameStory turns₁ turns₂) :
    (deviceCallsOf turns₂).countP DeviceCall.isPoll =
      (deviceCallsOf turns₁).countP DeviceCall.isPoll := by
  have timeless (calls : List DeviceCall) :
      calls.countP DeviceCall.isPoll =
        (calls.filter DeviceCall.isTimeless).countP DeviceCall.isPoll := by
    rw [List.countP_filter]
    congr 1
    funext call
    cases call <;> rfl
  rw [timeless, same.calls, ← timeless]

/-- The same frames are shown. -/
theorem frames (same : SameStory turns₁ turns₂) :
    (deviceCallsOf turns₂).filterMap DeviceCall.frame? =
      (deviceCallsOf turns₁).filterMap DeviceCall.frame? := by
  have timeless (calls : List DeviceCall) :
      calls.filterMap DeviceCall.frame? =
        (calls.filter DeviceCall.isTimeless).filterMap DeviceCall.frame? := by
    rw [List.filterMap_filter]
    congr 1
    funext call
    cases call <;> rfl
  rw [timeless, same.calls, ← timeless]

end SameStory

/-- The virtual machines differ in time only, and the keypads will answer alike. -/
structure Alike (script₁ : σ₁ → Nat → Option Key) (script₂ : σ₂ → Nat → Option Key)
    (s₁ : Session σ₁) (s₂ : Session σ₂) : Prop where
  vm : s₁.vm.SameButTime s₂.vm
  answers : ∀ n, script₁ s₁.world.devices n = script₂ s₂.world.devices n

/-- The devices never ask for a stop. -/
structure Host.NeverStops {σ : Type} (h : Host σ) : Prop where
  refresh : ∀ f d, (h.refresh f d).stop = false
  beep : ∀ d, (h.beep d).stop = false
  poll : ∀ d, (h.poll d).2.stop = false
  tick : ∀ d, (h.tick d).2.stop = false

theorem Host.NeverStops.keeps {σ : Type} {h : Host σ} (never : h.NeverStops) (asked : Bool) :
    h.Keeps fun w => w.stopRequested = asked where
  emit r w held := held
  refresh f w held := by simp only [World.accept, never.refresh, held, Bool.or_false]
  beep w held := by simp only [World.accept, never.beep, held, Bool.or_false]
  poll w held := by simp only [World.poll, World.accept, never.poll, held, Bool.or_false]
  tick w held := by simp only [World.tick, World.accept, never.tick, held, Bool.or_false]

section Runs

variable {h₁ : Host σ₁} {h₂ : Host σ₂} {script₁ : σ₁ → Nat → Option Key}
  {script₂ : σ₂ → Nat → Option Key} (scripted₁ : h₁.Scripted script₁)
  (scripted₂ : h₂.Scripted script₂) {s₁ : Session σ₁} {s₂ : Session σ₂}

include scripted₁ scripted₂

theorem Alike.cycle (alike : Alike script₁ script₂ s₁ s₂)
    (noRead : ∀ e ∈ executedBy [⟨h₁, s₁⟩], ∀ x, e.instr ≠ .readDelay x) :
    SameStory [⟨h₁, s₁⟩] [⟨h₂, s₂⟩] ∧ Alike script₁ script₂ (s₁.cycle h₁).2 (s₂.cycle h₂).2 := by
  have key : Turn.key ⟨h₂, s₂⟩ = Turn.key ⟨h₁, s₁⟩ := by
    rw [Host.Scripted.key ⟨h₁, s₁⟩ scripted₁, Host.Scripted.key ⟨h₂, s₂⟩ scripted₂]
    exact (alike.answers 0).symm
  obtain ⟨did, result, vm, calls⟩ :=
    Turn.lockstep ⟨h₁, s₁⟩ ⟨h₂, s₂⟩ alike.vm key (by
      intro e did
      exact noRead e (by simp [executedBy, did]))
  have story : SameStory [(⟨h₁, s₁⟩ : Turn σ₁)] [(⟨h₂, s₂⟩ : Turn σ₂)] := by
    constructor
    · simp only [executedBy, List.filterMap_cons, List.filterMap_nil, did]
    · rw [List.map_singleton, List.map_singleton, result]
    · rw [deviceCallsOf, deviceCallsOf, List.flatMap_singleton, List.flatMap_singleton, calls]
  refine ⟨story, vm, fun n => ?_⟩
  have polls := story.polls
  rw [deviceCallsOf, deviceCallsOf, List.flatMap_singleton, List.flatMap_singleton] at polls
  have after₁ := Host.Scripted.after ⟨h₁, s₁⟩ scripted₁ n
  have after₂ := Host.Scripted.after ⟨h₂, s₂⟩ scripted₂ n
  rw [polls] at after₂
  exact after₁.trans ((alike.answers _).trans after₂.symm)

theorem Alike.laps (alike : Alike script₁ script₂ s₁ s₂) (n : Nat)
    (noRead : ∀ e ∈ executedBy (s₁.laps h₁ n), ∀ x, e.instr ≠ .readDelay x) :
    SameStory (s₁.laps h₁ n) (s₂.laps h₂ n) ∧
      Alike script₁ script₂ (s₁.afterCycles h₁ n) (s₂.afterCycles h₂ n) := by
  induction n with
  | zero => exact ⟨.nil, alike⟩
  | succ n ih =>
    rw [Session.laps_succ, executedBy_append] at noRead
    obtain ⟨before, still⟩ := ih fun e mem => noRead e (List.mem_append_left _ mem)
    obtain ⟨last, after⟩ := still.cycle scripted₁ scripted₂
      fun e mem => noRead e (List.mem_append_right _ mem)
    rw [Session.laps_succ, Session.laps_succ, Session.afterCycles_succ, Session.afterCycles_succ]
    exact ⟨before.append last, after⟩

theorem Alike.cycles (alike : Alike script₁ script₂ s₁ s₂) (never₁ : h₁.NeverStops)
    (never₂ : h₂.NeverStops) (asked : s₂.world.stopRequested = s₁.world.stopRequested) (n : Nat)
    (noRead : ∀ e ∈ executedBy (Session.cycleTurns h₁ n s₁), ∀ x, e.instr ≠ .readDelay x) :
    SameStory (Session.cycleTurns h₁ n s₁) (Session.cycleTurns h₂ n s₂) ∧
      (Session.cycles h₂ n s₂).1 = (Session.cycles h₁ n s₁).1 ∧
      (Session.cycles h₁ n s₁).2.vm.SameButTime (Session.cycles h₂ n s₂).2.vm := by
  induction n generalizing s₁ s₂ with
  | zero => exact ⟨.nil, rfl, alike.vm⟩
  | succ n ih =>
    unfold Session.cycleTurns at noRead ⊢
    unfold Session.cycles
    rw [asked]
    cases stop : s₁.world.stopRequested with
    | true => exact ⟨.nil, rfl, alike.vm⟩
    | false =>
      simp only [stop, Bool.false_eq_true, if_false] at noRead ⊢
      rw [← List.singleton_append, executedBy_append] at noRead
      obtain ⟨first, next⟩ := alike.cycle scripted₁ scripted₂
        fun e mem => noRead e (List.mem_append_left _ mem)
      have same : (s₂.cycle h₂).1 = (s₁.cycle h₁).1 := List.singleton_inj.1 first.results
      have kept₁ := (never₁.keeps _).cycle (s := s₁) rfl
      have kept₂ := (never₂.keeps _).cycle (s := s₂) rfl
      rcases cycled₁ : s₁.cycle h₁ with ⟨f | flow, t₁⟩ <;>
        rcases cycled₂ : s₂.cycle h₂ with ⟨f' | flow', t₂⟩ <;>
        rw [cycled₁, cycled₂] at same next <;> cases same
      · exact ⟨first, rfl, next.vm⟩
      · rw [cycled₁] at kept₁ noRead
        rw [cycled₂] at kept₂
        obtain ⟨rest, result, vm⟩ := ih next (kept₂.trans (asked.trans kept₁.symm))
          fun e mem => noRead e (List.mem_append_right _ mem)
        exact ⟨first.append rest, result, vm⟩

/-- **Time enters through `Fx07` only.**  Let two virtual machines differ in their timers and in
the time gathered, and let their keypads follow scripts that answer alike; their clocks and
buzzers may do as they please.  After any number of cycles in which the one has executed no
`Fx07`, they have executed the same instructions with the same results, faults among them, have
looked at the keypad equally often and shown the same frames, and still differ in the timers and
in the time gathered at most.  If no device asks for a stop, whole runs end alike as well. -/
theorem time_independence (same : s₁.vm.SameButTime s₂.vm)
    (answers : ∀ n, script₁ s₁.world.devices n = script₂ s₂.world.devices n) :
    (∀ n, (∀ e ∈ executedBy (s₁.laps h₁ n), ∀ x, e.instr ≠ .readDelay x) →
      executedBy (s₂.laps h₂ n) = executedBy (s₁.laps h₁ n) ∧
      (s₂.laps h₂ n).map Turn.result = (s₁.laps h₁ n).map Turn.result ∧
      (deviceCallsOf (s₂.laps h₂ n)).countP DeviceCall.isPoll =
        (deviceCallsOf (s₁.laps h₁ n)).countP DeviceCall.isPoll ∧
      (deviceCallsOf (s₂.laps h₂ n)).filterMap DeviceCall.frame? =
        (deviceCallsOf (s₁.laps h₁ n)).filterMap DeviceCall.frame? ∧
      (deviceCallsOf (s₂.laps h₂ n)).filter DeviceCall.isTimeless =
        (deviceCallsOf (s₁.laps h₁ n)).filter DeviceCall.isTimeless ∧
      (s₁.afterCycles h₁ n).vm.SameButTime (s₂.afterCycles h₂ n).vm) ∧
    (h₁.NeverStops → h₂.NeverStops → s₂.world.stopRequested = s₁.world.stopRequested →
      ∀ n,
        (∀ e ∈ executedBy (Session.cycleTurns h₁ n (s₁.setRunning true)),
          ∀ x, e.instr ≠ .readDelay x) →
        SameStory (Session.cycleTurns h₁ n (s₁.setRunning true))
            (Session.cycleTurns h₂ n (s₂.setRunning true)) ∧
          (s₂.runSteps h₂ n).1 = (s₁.runSteps h₁ n).1 ∧
          (s₁.runSteps h₁ n).2.vm.SameButTime (s₂.runSteps h₂ n).2.vm) := by
  constructor
  · intro n noRead
    have alike : Alike script₁ script₂ s₁ s₂ := ⟨same, answers⟩
    obtain ⟨story, after⟩ := alike.laps scripted₁ scripted₂ n noRead
    exact ⟨story.executed, story.results, story.polls, story.frames, story.calls, after.vm⟩
  · intro never₁ never₂ asked n noRead
    have alike : Alike script₁ script₂ (s₁.setRunning true) (s₂.setRunning true) := by
      refine ⟨?_, answers⟩
      obtain ⟨delay, sound, elapsed, vm⟩ := same
      exact ⟨delay, sound, elapsed, by rw [Session.setRunning, vm]; rfl⟩
    obtain ⟨story, result, delay, sound, elapsed, vm⟩ :=
      alike.cycles scripted₁ scripted₂ never₁ never₂ asked n noRead
    refine ⟨story, result, delay, sound, elapsed, ?_⟩
    change ({ (Session.cycles h₂ n (s₂.setRunning true)).2.vm with running := false } : Vm) = _
    rw [vm]
    rfl

end Runs

/-- A console that is told of no stop asks for none. -/
theorem Script.host_neverStops {s : Script} (atTick : s.stopAtTick = none)
    (onSignal : s.stopOn = none) : s.host.NeverStops where
  refresh f c := by
    simp only [host, Console.refresh, onSignal]
    split <;> rfl
  beep c := by
    simp only [host, Console.beep, onSignal]
    split <;> rfl
  poll c := by
    simp only [host, Console.poll]
    split <;> rfl
  tick c := by
    simp only [host, Console.tick, atTick]
    rfl

/-- At `6007` a machine with time gathered and another clock goes on like one without. -/
theorem time_independence_load :
    let s := ((Session.start { seed := 0 } (.ofSeed 0) ({} : Console)).load [0x60, 0x07]).2
    let t : Session Console := { s with
      vm := { s.vm with
        machine := { s.vm.machine with delay := 9, sound := 1 }, elapsed := 16.0 } }
    let h := Script.host { millis := fun _ => 0.0 }
    let h' := Script.host { millis := fun _ => 5.0 }
    (t.cycle h').1 = (s.cycle h).1 ∧
      (s.cycle h).2.vm.SameButTime (t.cycle h').2.vm ∧
      (t.runSteps h' 1).1 = (s.runSteps h 1).1 := by
  intro s t h h'
  have fetched : s.vm.machine.fetch? = some (Instr.encode (.load 0 7)) :=
    Machine.fetch?_withProgram (.initial (.ofSeed 0)) 0x60 0x07 []
  have same : s.vm.SameButTime t.vm := ⟨9, 1, 16.0, rfl⟩
  have noRead (u : Session Console) (machine : u.vm.machine = s.vm.machine) :
      ∀ e ∈ executedBy [⟨h, u⟩], ∀ x, e.instr ≠ .readDelay x := by
    intro e mem x
    obtain ⟨turn, here, did⟩ := List.mem_filterMap.1 mem
    cases List.mem_singleton.1 here
    obtain ⟨-, standing, -⟩ := Turn.executed?_eq_some_iff.1 did
    rw [machine] at standing
    rw [← Instr.encode_injective (Option.some.inj (fetched.symm.trans standing))]
    exact nofun
  obtain ⟨cycles, runs⟩ := time_independence (Script.host_scripted { millis := fun _ => 0.0 })
    (Script.host_scripted { millis := fun _ => 5.0 }) same fun n => rfl
  obtain ⟨-, results, -, -, -, after⟩ := cycles 1 (noRead s rfl)
  have turns : Session.cycleTurns h 1 (s.setRunning true) = [⟨h, s.setRunning true⟩] := by
    have going : (s.setRunning true).world.stopRequested = false := rfl
    simp only [Session.cycleTurns, going, Bool.false_eq_true, if_false]
    split <;> rfl
  obtain ⟨-, result, -⟩ := runs (Script.host_neverStops rfl rfl) (Script.host_neverStops rfl rfl)
    rfl 1 (by rw [turns]; exact noRead _ rfl)
  exact ⟨List.singleton_inj.1 results, after, result⟩

end ChipEight
