import ChipEight.Proofs.ControlFlow
import ChipEight.Proofs.Keypads
/-!
# Waiting for a key

A wait begins with `Fx0A` and ends with a key, or when the machine is switched on anew; in between
each turn looks at the keypad once and lets time pass, and nothing else.  Whether a machine waits
can be told from its history (`Awaits`), and so can the number of looks at the keypad.  The main
statement is `key_waits`.
-/

namespace ChipEight

variable {σ : Type}

namespace Turn

/-- The turn executes the instruction that waits for a key. -/
def Asks (r : Register) (turn : Turn σ) : Prop :=
  ∃ e, turn.executed? = some e ∧ e.instr = .awaitKey r

/-- The turn waits for a key, and the keypad reports none. -/
def IsVain (r : Register) (turn : Turn σ) : Prop :=
  turn.session.vm.mode = .awaitingKey r ∧ turn.key = none

def isWaiting (turn : Turn σ) : Bool := decide (turn.session.vm.mode ≠ .fetching)

end Turn

/-- The happening leaves a wait for a key as it is. -/
def Happening.IsVain (r : Register) : Happening σ → Prop
  | .turn t => t.IsVain r
  | .restart => False

/-- A key is awaited after a history that began in this mode: the wait has begun in it or before
it, and all that has happened since was in vain. -/
def Awaits (r : Register) (mode : Mode) (history : List (Happening σ)) : Prop :=
  (mode = .awaitingKey r ∧ ∀ x ∈ history, x.IsVain r) ∨
  ∃ before turn later, history = before ++ .turn turn :: later ∧ turn.Asks r ∧
    ∀ x ∈ later, x.IsVain r

/-! ### One turn -/

theorem Vm.countP_isPoll_timeCalls (millis : Float) (vm : Vm) :
    (vm.timeCalls millis).countP DeviceCall.isPoll = 0 := by
  rw [countP_timeCalls]
  simp [DeviceCall.isPoll]

namespace Turn

variable {turn : Turn σ} {r : Register}

/-- Nothing is in the way of the instruction. -/
theorem asks_of_fetch? (mode : turn.session.vm.mode = .fetching)
    (fetched : turn.session.vm.machine.fetch? = some (Instr.encode (.awaitKey r))) :
    turn.Asks r := by
  have effect : (Instr.awaitKey r).exec ((Instr.awaitKey r).told turn.key)
      turn.session.vm.machine.advance = .ok (.keyWait r, turn.session.vm.machine.advance) := rfl
  exact ⟨_, (Account.executed mode fetched effect).eq.1, rfl⟩

/-- A turn looks at the keypad if it waits, or if its instruction does. -/
theorem countP_isPoll_calls (turn : Turn σ) :
    turn.calls.countP DeviceCall.isPoll =
      (if turn.isWaiting then 1 else 0) +
        turn.executed?.toList.countP fun e => e.instr.readsKey := by
  have account := turn.account
  unfold isWaiting
  generalize turn.executed? = did, turn.result = result, turn.after.vm = vm,
    turn.calls = calls at account
  cases account with
  | outOfRange mode | refused mode => simp [mode]
  | executed mode =>
    simp [mode, Instr.countP_looks, Machine.countP_shows, Vm.countP_isPoll_timeCalls,
      DeviceCall.isPoll]
  | waited mode | keyed mode =>
    rw [List.countP_cons, Vm.countP_isPoll_timeCalls]
    simp [mode, DeviceCall.isPoll]

/-- A turn that begins a wait does not look at the keypad itself. -/
theorem Asks.eq (asks : turn.Asks r) :
    turn.session.vm.mode = .fetching ∧ turn.result = .ok (.keyWait r) ∧
      turn.after.vm.mode = .awaitingKey r ∧ ∀ key, .poll key ∉ turn.calls := by
  obtain ⟨⟨pc, i⟩, did, rfl⟩ := asks
  have polls := turn.countP_isPoll_calls
  have account := turn.account
  rw [did] at account polls
  generalize turn.result = result, turn.after.vm = vm, turn.calls = calls at account polls
  cases account with
  | executed mode fetched effect =>
    cases effect
    refine ⟨mode, rfl, ?_, ?_⟩
    · rw [Vm.mode_elapse]
      rfl
    · intro key mem
      rw [isWaiting, mode] at polls
      exact List.countP_eq_zero.1 polls _ mem rfl

/-- A turn in vain looks at the keypad once and lets time pass. -/
theorem IsVain.eq (vain : turn.IsVain r) :
    turn.executed? = none ∧ turn.result = .ok (.keyWait r) ∧
      turn.after.vm = turn.session.vm.elapse turn.millis ∧
      turn.calls = .poll none :: turn.session.vm.timeCalls turn.millis :=
  (Account.waited vain.1 vain.2).eq

/-- A turn that finds a key stores it and lets time pass. -/
theorem eq_of_key {k : Key} (waiting : turn.session.vm.mode = .awaitingKey r)
    (down : turn.key = some k) :
    turn.executed? = none ∧ turn.result = .ok .next ∧
      turn.after.vm = Vm.elapse turn.millis
        { turn.session.vm with
          machine := turn.session.vm.machine.setReg r k.toByte, mode := .fetching } ∧
      turn.calls = .poll (some k) :: turn.session.vm.timeCalls turn.millis :=
  (Account.keyed waiting down).eq

theorem IsVain.sameButTime (vain : turn.IsVain r) :
    turn.session.vm.SameButTime turn.after.vm := by
  obtain ⟨-, -, after, -⟩ := vain.eq
  rw [after]
  exact Vm.sameButTime_elapse ..

theorem awaitingKey_after_iff (turn : Turn σ) {r : Register} :
    turn.after.vm.mode = .awaitingKey r ↔ turn.Asks r ∨ turn.IsVain r := by
  constructor
  · intro awaiting
    have account := turn.account
    unfold Asks IsVain
    generalize turn.executed? = did, turn.result = result, turn.after.vm = vm,
      turn.calls = calls at account awaiting
    cases account with
    | outOfRange mode | refused mode =>
      change turn.session.vm.mode = _ at awaiting
      rw [mode] at awaiting
      cases awaiting
    | @executed i flow m mode fetched effect =>
      rw [Vm.mode_elapse] at awaiting
      refine .inl ⟨_, rfl, ?_⟩
      cases Instr.exec_moves effect with
      | awaitKey => cases awaiting; rfl
      | straight quiet => rcases quiet with rfl | rfl <;> cases awaiting
      | jump | jumpOffset | call | ret => cases awaiting
    | waited mode key =>
      rw [Vm.mode_elapse] at awaiting
      exact .inr ⟨awaiting, key⟩
    | keyed =>
      rw [Vm.mode_elapse] at awaiting
      cases awaiting
  · rintro (asks | vain)
    · obtain ⟨-, -, awaiting, -⟩ := asks.eq
      exact awaiting
    · obtain ⟨-, -, after, -⟩ := vain.eq
      rw [after, Vm.mode_elapse]
      exact vain.1

/-- A wait ends with a key only. -/
theorem mode_after_of_waiting (waiting : turn.session.vm.mode = .awaitingKey r) :
    turn.after.vm.mode = .awaitingKey r ∨
      ∃ k, .poll (some k) ∈ turn.calls ∧ turn.after.vm.mode = .fetching := by
  cases found : turn.key with
  | none => exact .inl (turn.awaitingKey_after_iff.2 (.inr ⟨waiting, found⟩))
  | some k =>
    obtain ⟨-, -, after, calls⟩ := eq_of_key waiting found
    refine .inr ⟨k, ?_, ?_⟩
    · rw [calls]
      exact List.mem_cons_self ..
    · rw [after, Vm.mode_elapse]

end Turn

/-! ### Histories -/

theorem awaits_concat_iff {r : Register} {mode : Mode} {past : List (Happening σ)}
    {x : Happening σ} :
    Awaits r mode (past ++ [x]) ↔
      (∃ turn, x = .turn turn ∧ turn.Asks r) ∨ Awaits r mode past ∧ x.IsVain r := by
  constructor
  · rintro (⟨waiting, vain⟩ | ⟨before, turn, later, split, asks, vain⟩)
    · exact .inr ⟨.inl ⟨waiting, fun y mem => vain y (List.mem_append_left _ mem)⟩,
        vain x (by simp)⟩
    · rcases split_concat split with ⟨rfl, rfl, -⟩ | ⟨between, rfl, rfl⟩
      · exact .inl ⟨turn, rfl, asks⟩
      · refine .inr ⟨.inr ⟨before, turn, between, rfl, asks, fun y mem => vain y ?_⟩, vain x ?_⟩
        · exact List.mem_append_left _ mem
        · simp
  · rintro (⟨turn, rfl, asks⟩ | ⟨⟨waiting, vain⟩ | ⟨before, turn, later, rfl, asks, vain⟩, last⟩)
    · exact .inr ⟨past, turn, [], rfl, asks, by simp⟩
    · refine .inl ⟨waiting, fun y mem => ?_⟩
      rcases List.mem_append.1 mem with early | late
      · exact vain y early
      · rwa [List.mem_singleton.1 late]
    · refine .inr ⟨before, turn, later ++ [x], by simp, asks, fun y mem => ?_⟩
      rcases List.mem_append.1 mem with early | late
      · exact vain y early
      · rwa [List.mem_singleton.1 late]

theorem Session.awaitingKey_iff_awaits {s t : Session σ} {calls : List (Call σ)} {r : Register}
    (performed : s.performAll calls = some t) :
    t.vm.mode = .awaitingKey r ↔ Awaits r s.vm.mode (s.happenings calls) := by
  have start : s.vm.mode = .awaitingKey r ↔ Awaits r s.vm.mode ([] : List (Happening σ)) := by
    constructor
    · intro waiting
      exact .inl ⟨waiting, by simp⟩
    · rintro (⟨waiting, -⟩ | ⟨before, turn, later, split, -⟩)
      · exact waiting
      · simp at split
  refine performAll_happenings_induction (P := fun history t =>
    t.vm.mode = .awaitingKey r ↔ Awaits r s.vm.mode history) ?cycle ?quiet ?restart start performed
  case cycle =>
    intro h past u held
    have step : (u.cycle h).2.vm.mode = .awaitingKey r ↔
        Turn.Asks r ⟨h, u⟩ ∨ Turn.IsVain r ⟨h, u⟩ := Turn.awaitingKey_after_iff ⟨h, u⟩
    rw [step, awaits_concat_iff, ← held]
    constructor
    · rintro (asks | vain)
      · exact .inl ⟨_, rfl, asks⟩
      · refine .inr ⟨vain.1, ?_⟩
        exact vain
    · rintro (⟨turn, same, asks⟩ | ⟨-, vain⟩)
      · cases same
        exact .inl asks
      · right
        exact vain
  case quiet =>
    intro past u v running same held
    rw [same]
    exact held
  case restart =>
    intro past u v c restarts performed held
    rw [mode_of_restarts restarts performed, awaits_concat_iff]
    constructor
    · intro awaiting
      cases awaiting
    · rintro (⟨turn, same, -⟩ | ⟨-, vain⟩)
      · cases same
      · exact vain.elim

theorem countP_isPoll_deviceCallsOf (turns : List (Turn σ)) :
    (deviceCallsOf turns).countP DeviceCall.isPoll =
      turns.countP Turn.isWaiting + (executedBy turns).countP fun e => e.instr.readsKey := by
  induction turns with
  | nil => rfl
  | cons turn rest ih =>
    have here := turn.countP_isPoll_calls
    rw [deviceCallsOf, List.flatMap_cons, List.countP_append, here, List.countP_cons,
      executedBy_cons, List.countP_append]
    change _ + (deviceCallsOf rest).countP _ = _
    omega

/-! ### Waiting on a script -/

namespace Session

variable {h : Host σ} {script : σ → Nat → Option Key} {s : Session σ} {r : Register}

theorem isVain_of_sameButTime {u : Session σ} {n : Nat} (scripted : h.Scripted script)
    (waiting : s.vm.mode = .awaitingKey r) (same : s.vm.SameButTime u.vm)
    (answers : ∀ j, script u.world.devices j = script s.world.devices (j + n))
    (silent : script s.world.devices n = none) : Turn.IsVain r ⟨h, u⟩ := by
  obtain ⟨_, _, _, vm⟩ := same
  constructor
  · rw [vm]
    exact waiting
  · rw [scripted.key, answers, Nat.zero_add]
    exact silent

/-- As long as the script has no key, a wait goes on and only time passes. -/
theorem afterCycles_of_silent (scripted : h.Scripted script)
    (waiting : s.vm.mode = .awaitingKey r) {n : Nat}
    (silent : ∀ j < n, script s.world.devices j = none) :
    s.vm.SameButTime (s.afterCycles h n).vm ∧
      ∀ j, script (s.afterCycles h n).world.devices j = script s.world.devices (j + n) := by
  induction n with
  | zero => exact ⟨.refl _, fun j => rfl⟩
  | succ n ih =>
    obtain ⟨same, answers⟩ := ih fun j lt => silent j (Nat.lt_succ_of_lt lt)
    have vain : Turn.IsVain r ⟨h, s.afterCycles h n⟩ :=
      isVain_of_sameButTime scripted waiting same answers (silent n (Nat.lt_succ_self n))
    rw [afterCycles_succ]
    constructor
    · exact same.trans vain.sameButTime
    · intro j
      obtain ⟨-, -, -, calls⟩ := vain.eq
      have next := Host.Scripted.after ⟨h, s.afterCycles h n⟩ scripted j
      rw [calls, List.countP_cons, Vm.countP_isPoll_timeCalls, answers] at next
      rw [show j + (n + 1) = j + (0 + 1) + n by omega]
      exact next

theorem isVain_of_silent (scripted : h.Scripted script) (waiting : s.vm.mode = .awaitingKey r)
    {n : Nat} (silent : ∀ j ≤ n, script s.world.devices j = none) :
    Turn.IsVain r ⟨h, s.afterCycles h n⟩ := by
  obtain ⟨same, answers⟩ :=
    afterCycles_of_silent scripted waiting fun j lt => silent j (Nat.le_of_lt lt)
  exact isVain_of_sameButTime scripted waiting same answers (silent n (Nat.le_refl n))

/-- Until a turn is told a key, whatever calls there are, a wait goes on. -/
theorem waits_of_no_key {t : Session σ} {calls : List (Call σ)}
    (waiting : s.vm.mode = .awaitingKey r) (keep : ∀ c ∈ calls, c.restarts = false)
    (performed : s.performAll calls = some t) :
    (∀ turn ∈ s.turns calls, ∀ k, .poll (some k) ∉ turn.calls) →
      executedBy (s.turns calls) = [] ∧
        Vm.SameButTime { s.vm with running := t.vm.running } t.vm := by
  refine (performAll_at_every_turn (P := fun turns t =>
    (∀ turn ∈ turns, ∀ k, .poll (some k) ∉ turn.calls) →
      executedBy turns = [] ∧ Vm.SameButTime { s.vm with running := t.vm.running } t.vm)
    ?cycle ?quiet keep (fun _ => ⟨rfl, .refl _⟩) performed).1
  case cycle =>
    intro h past u held silent
    obtain ⟨none_before, same⟩ := held fun turn mem => silent turn (List.mem_append_left _ mem)
    have mode : u.vm.mode = .awaitingKey r := by
      obtain ⟨_, _, _, vm⟩ := same
      rw [vm]
      exact waiting
    have vain : Turn.IsVain r ⟨h, u⟩ := by
      refine ⟨mode, ?_⟩
      cases found : Turn.key ⟨h, u⟩ with
      | none => rfl
      | some k =>
        obtain ⟨-, -, -, calls⟩ := Turn.eq_of_key mode found
        refine absurd ?_ (silent ⟨h, u⟩ (by simp) k)
        rw [calls]
        exact List.mem_cons_self ..
    have passed : u.vm.SameButTime (u.cycle h).2.vm := vain.sameButTime
    constructor
    · rw [executedBy_append, none_before, executedBy, List.filterMap_cons_none vain.eq.1]
      rfl
    · have running : (u.cycle h).2.vm.running = u.vm.running := by
        obtain ⟨_, _, _, vm⟩ := passed
        rw [vm]
      rw [running]
      exact same.trans passed
  case quiet =>
    intro past u v running vm held silent
    obtain ⟨idle, delay, sound, elapsed, same⟩ := held silent
    refine ⟨idle, delay, sound, elapsed, ?_⟩
    rw [vm, same]

theorem executedBy_laps_of_silent (scripted : h.Scripted script)
    (waiting : s.vm.mode = .awaitingKey r) (silent : ∀ j, script s.world.devices j = none)
    (n : Nat) : executedBy (s.laps h n) = [] := by
  apply List.filterMap_eq_nil_iff.2
  intro turn mem
  obtain ⟨j, -, rfl⟩ := List.mem_map.1 mem
  exact (isVain_of_silent scripted waiting fun j _ => silent j).eq.1

/-- The turn at which the script has its first key ends the wait. -/
theorem key_of_script {m : Nat} {k : Key} (scripted : h.Scripted script)
    (waiting : s.vm.mode = .awaitingKey r) (silent : ∀ j < m, script s.world.devices j = none)
    (down : script s.world.devices m = some k) :
    (s.afterCycles h m).vm.mode = .awaitingKey r ∧
      Turn.key ⟨h, s.afterCycles h m⟩ = some k ∧ s.vm.SameButTime (s.afterCycles h m).vm := by
  obtain ⟨same, answers⟩ := afterCycles_of_silent scripted waiting silent
  refine ⟨?_, ?_, same⟩
  · obtain ⟨_, _, _, vm⟩ := same
    rw [vm]
    exact waiting
  · rw [scripted.key, answers, Nat.zero_add]
    exact down

end Session

/-- **Waiting for a key.**  A machine waits for a key just if its history says so: `Fx0A` was
executed, and since then each turn has looked at the keypad in vain; this turn itself does not
look, and only a key or a restart ends the wait.  On a script that reports no key `m` times and
then one, each of the next `m` turns looks once, lets time pass and tells of the wait; the turn
behind them stores the key and fetches again, and executes and shows nothing.  In any run the
keypad is looked at once in each turn that begins in a wait and once for each instruction that
reads it.  Where no key comes, no instruction is executed. -/
theorem key_waits :
    (∀ (s t : Session σ) calls r, s.performAll calls = some t →
      (t.vm.mode = .awaitingKey r ↔ Awaits r s.vm.mode (s.happenings calls))) ∧
    (∀ (turn : Turn σ) r, turn.Asks r →
      turn.session.vm.mode = .fetching ∧ turn.result = .ok (.keyWait r) ∧
        turn.after.vm.mode = .awaitingKey r ∧ ∀ key, .poll key ∉ turn.calls) ∧
    (∀ (turn : Turn σ) r, turn.session.vm.mode = .awaitingKey r →
      turn.after.vm.mode = .awaitingKey r ∨
        ∃ k, .poll (some k) ∈ turn.calls ∧ turn.after.vm.mode = .fetching) ∧
    (∀ (h : Host σ) script (s : Session σ) r m k, h.Scripted script →
      s.vm.mode = .awaitingKey r → (∀ j < m, script s.world.devices j = none) →
      script s.world.devices m = some k →
        (∀ j < m, ∀ turn : Turn σ, turn = ⟨h, s.afterCycles h j⟩ →
          turn.executed? = none ∧ turn.result = .ok (.keyWait r) ∧
            turn.calls = .poll none :: turn.session.vm.timeCalls turn.millis ∧
            s.vm.SameButTime turn.after.vm) ∧
        ∀ turn : Turn σ, turn = ⟨h, s.afterCycles h m⟩ →
          turn.executed? = none ∧ turn.result = .ok .next ∧
            turn.calls = .poll (some k) :: turn.session.vm.timeCalls turn.millis ∧
            Vm.SameButTime
              { s.vm with machine := s.vm.machine.setReg r k.toByte, mode := .fetching }
              turn.after.vm) ∧
    (∀ turns : List (Turn σ), (deviceCallsOf turns).countP DeviceCall.isPoll =
      turns.countP Turn.isWaiting + (executedBy turns).countP fun e => e.instr.readsKey) ∧
    (∀ (h : Host σ) n (s : Session σ),
      ((s.watched []).runSteps h.watched n).2.world.devices.calls =
        deviceCallsOf (Session.cycleTurns h n (s.setRunning true))) ∧
    (∀ (h : Host σ) script (s : Session σ) r, h.Scripted script → s.vm.mode = .awaitingKey r →
      (∀ j, script s.world.devices j = none) →
        ∀ n, executedBy (s.laps h n) = [] ∧ s.vm.SameButTime (s.afterCycles h n).vm) ∧
    ∀ (s t : Session σ) calls r, s.vm.mode = .awaitingKey r →
      (∀ c ∈ calls, c.restarts = false) → s.performAll calls = some t →
      (∀ turn ∈ s.turns calls, ∀ k, .poll (some k) ∉ turn.calls) →
        executedBy (s.turns calls) = [] ∧
          Vm.SameButTime { s.vm with running := t.vm.running } t.vm := by
  refine ⟨?_, ?_, ?_, ?_, countP_isPoll_deviceCallsOf, ?_, ?_, ?_⟩
  · intro s t calls r performed
    exact Session.awaitingKey_iff_awaits performed
  · intro turn r asks
    exact asks.eq
  · intro turn r waiting
    exact Turn.mode_after_of_waiting waiting
  · intro h script s r m k scripted waiting silent down
    constructor
    · rintro j lt turn rfl
      have vain := Session.isVain_of_silent scripted waiting
        fun i le => silent i (Nat.lt_of_le_of_lt le lt)
      obtain ⟨same, -⟩ := Session.afterCycles_of_silent (n := j) scripted waiting
        fun i before => silent i (Nat.lt_trans before lt)
      obtain ⟨idle, result, -, calls⟩ := vain.eq
      exact ⟨idle, result, calls, same.trans vain.sameButTime⟩
    · rintro turn rfl
      obtain ⟨still, found, _, _, _, vm⟩ := Session.key_of_script scripted waiting silent down
      obtain ⟨idle, result, after, calls⟩ := Turn.eq_of_key still found
      refine ⟨idle, result, calls, ?_⟩
      rw [after, vm]
      exact Vm.SameButTime.trans ⟨_, _, _, rfl⟩ (Vm.sameButTime_elapse ..)
  · intro h n s
    exact Session.watched_runSteps h n s []
  · intro h script s r scripted waiting silent n
    obtain ⟨same, -⟩ := Session.afterCycles_of_silent (n := n) scripted waiting fun j _ => silent j
    exact ⟨Session.executedBy_laps_of_silent scripted waiting silent n, same⟩
  · intro s t calls r waiting keep performed
    exact Session.waits_of_no_key waiting keep performed

/-- A machine that waits at `F30A` is kept waiting once and then told of key 5; with a keypad that
never reports a key it executes nothing more. -/
theorem key_waits_five :
    let s := ((Session.start { seed := 0 } (.ofSeed 0)
      ({ scriptedKeys := [none, some ⟨5⟩] } : Console)).load [0xF3, 0x0A]).2
    let h := Script.host { millis := fun _ => 0.0 }
    let t := (s.cycle h).2
    Awaits 3 .fetching (s.happenings [.cycle h]) ∧ (t.cycle h).1 = .ok (.keyWait 3) ∧
      ((t.cycle h).2.cycle h).2.vm.machine.reg 3 = 5 ∧
      ((t.cycle h).2.cycle h).2.vm.mode = .fetching ∧
      executedBy ((t.connect {}).laps h 9) = [] := by
  intro s h t
  have fetched : s.vm.machine.fetch? = some (Instr.encode (.awaitKey 3)) :=
    Machine.fetch?_withProgram (.initial (.ofSeed 0)) 0xF3 0x0A []
  have fetching : s.vm.mode = .fetching := rfl
  have first : Turn.Asks 3 (⟨h, s⟩ : Turn Console) := Turn.asks_of_fetch? fetching fetched
  obtain ⟨histories, asks, -, scripts, -, -, silent, -⟩ := @key_waits Console
  obtain ⟨-, -, waiting, quiet⟩ := asks _ 3 first
  have scripted := Script.host_scripted { millis := fun _ => 0.0 }
  have unread (n : Nat) : t.world.devices.answers n = s.world.devices.answers n := by
    have rest := Host.Scripted.after ⟨h, s⟩ scripted n
    rwa [List.countP_eq_zero.2] at rest
    rintro (_ | _ | key | _) mem poll
    · cases poll
    · cases poll
    · exact quiet key mem
    · cases poll
  obtain ⟨vain, stored⟩ := scripts h Console.answers t 3 1 ⟨5⟩ scripted waiting
    (by
      intro j lt
      obtain rfl : j = 0 := Nat.lt_one_iff.1 lt
      exact unread 0)
    (unread 1)
  obtain ⟨-, result, -⟩ := vain 0 Nat.one_pos _ rfl
  obtain ⟨-, -, -, _, _, _, vm⟩ := stored _ rfl
  refine ⟨(histories s t [.cycle h] 3 rfl).1 waiting, result, ?_, ?_, ?_⟩
  · change (Turn.after ⟨h, t.afterCycles h 1⟩).vm.machine.reg 3 = 5
    rw [vm]
    change (t.vm.machine.setReg 3 (Key.toByte ⟨5⟩)).reg 3 = 5
    rw [Machine.reg_setReg, if_pos rfl]
    rfl
  · change (Turn.after ⟨h, t.afterCycles h 1⟩).vm.mode = .fetching
    rw [vm]
  · have never : ∀ j, Console.answers {} j = none := fun j => rfl
    exact (silent h Console.answers (t.connect {}) 3 scripted waiting never 9).1

end ChipEight
