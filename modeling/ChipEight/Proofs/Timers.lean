import ChipEight.Host.Console
import ChipEight.Proofs.Turns
/-!
# Timers and the buzzer

A turn `fires` if it ends without a fault and enough time has gathered.  An instruction may set a
timer; then each timer counts down in the turns that fire, and the buzzer sounds when the sound
timer goes from one to zero.  From these laws of a single turn follow the accounts of whole runs:
`timers_account`.
-/

namespace ChipEight

variable {σ : Type}

/-! ### Instructions that set a timer -/

theorem Machine.fillRegs_timers (m : Machine) (x : Register) :
    (m.fillRegs x).delay = m.delay ∧ (m.fillRegs x).sound = m.sound := by
  simp only [fillRegs, and_self]

namespace Instr

/-- The delay timer behind an instruction. -/
def delayAfter (m : Machine) : Instr → UInt8
  | .setDelay x => m.reg x
  | _ => m.delay

/-- The sound timer behind an instruction. -/
def soundAfter (m : Machine) : Instr → UInt8
  | .setSound x => m.reg x
  | _ => m.sound

theorem exec_timers {key : Option Key} {m m' : Machine} {i : Instr} {flow : Flow}
    (effect : i.exec key m = .ok (flow, m')) :
    m'.delay = i.delayAfter m ∧ m'.sound = i.soundAfter m := by
  cases i with
  | ret | call | draw | decimal | store =>
    simp only [exec] at effect
    split at effect
    · cases effect
      exact ⟨rfl, rfl⟩
    · cases effect
  | fill x =>
    simp only [exec] at effect
    split at effect
    · cases effect
      exact Machine.fillRegs_timers m x
    · cases effect
  | skipEq | skipNe | skipEqReg | skipNeReg | skipKey | skipNoKey =>
    cases effect
    unfold Machine.skipIf
    split <;> exact ⟨rfl, rfl⟩
  | _ =>
    cases effect
    exact ⟨rfl, rfl⟩

theorem delayAfter_of_ne {m : Machine} {i : Instr} (other : ∀ x, i ≠ .setDelay x) :
    i.delayAfter m = m.delay := by
  cases i with
  | setDelay x => exact absurd rfl (other x)
  | _ => rfl

theorem soundAfter_of_ne {m : Machine} {i : Instr} (other : ∀ x, i ≠ .setSound x) :
    i.soundAfter m = m.sound := by
  cases i with
  | setSound x => exact absurd rfl (other x)
  | _ => rfl

end Instr

/-! ### One turn -/

namespace Vm

variable {vm : Vm} {millis : Float}

theorem delay_elapse : (vm.elapse millis).machine.delay.toNat =
    vm.machine.delay.toNat - if vm.isDue millis then 1 else 0 := by
  have small := vm.machine.delay.toNat_lt
  unfold elapse
  split
  · change (UInt8.ofNat (vm.machine.delay.toNat - 1)).toNat = _
    rw [UInt8.toNat_ofNat']
    omega
  · rfl

theorem sound_elapse : (vm.elapse millis).machine.sound.toNat =
    vm.machine.sound.toNat - if vm.isDue millis then 1 else 0 := by
  have small := vm.machine.sound.toNat_lt
  unfold elapse
  split
  · change (UInt8.ofNat (vm.machine.sound.toNat - 1)).toNat = _
    rw [UInt8.toNat_ofNat']
    omega
  · rfl

theorem countP_isBeep_timeCalls : (vm.timeCalls millis).countP DeviceCall.isBeep =
    if vm.isDue millis ∧ vm.machine.sound.toNat = 1 then 1 else 0 := by
  have buzzes : vm.machine.buzzes = decide (vm.machine.sound.toNat = 1) := by
    unfold Machine.buzzes
    rw [Bool.eq_iff_iff, beq_iff_eq, decide_eq_true_eq, ← UInt8.toNat_inj]
    rfl
  rw [countP_timeCalls, buzzes]
  simp [DeviceCall.isBeep]

end Vm

namespace Turn

/-- The turn ends without a fault, and more than the period of the timers has gathered by its
end. -/
def fires (turn : Turn σ) : Bool :=
  match turn.result with
  | .ok _ => turn.session.vm.isDue turn.millis
  | .error _ => false

/-- The delay timer when the turn has executed its instruction, if any. -/
def delaySet (turn : Turn σ) : UInt8 :=
  match turn.executed? with
  | some e => e.instr.delayAfter turn.session.vm.machine
  | none => turn.session.vm.machine.delay

/-- The sound timer when the turn has executed its instruction, if any. -/
def soundSet (turn : Turn σ) : UInt8 :=
  match turn.executed? with
  | some e => e.instr.soundAfter turn.session.vm.machine
  | none => turn.session.vm.machine.sound

/-- The turn sets the sound timer to a value other than zero. -/
def Rearms (turn : Turn σ) : Prop :=
  ∃ e x, turn.executed? = some e ∧ e.instr = .setSound x ∧ turn.session.vm.machine.reg x ≠ 0

variable {turn : Turn σ}

theorem fires_of_ok {flow : Flow} (ended : turn.result = .ok flow) :
    turn.fires = turn.session.vm.isDue turn.millis := by
  rw [fires, ended]

theorem fires_of_error {f : Fault} (failed : turn.result = .error f) : turn.fires = false := by
  rw [fires, failed]

theorem set_of_idle (idle : turn.executed? = none) :
    turn.delaySet = turn.session.vm.machine.delay ∧
      turn.soundSet = turn.session.vm.machine.sound := by
  rw [delaySet, soundSet, idle]
  exact ⟨rfl, rfl⟩

/-- The timers count down, and the buzzer sounds, in the turns that fire. -/
theorem timers_after (turn : Turn σ) :
    turn.after.vm.machine.delay.toNat =
        turn.delaySet.toNat - (if turn.fires then 1 else 0) ∧
      turn.after.vm.machine.sound.toNat =
        turn.soundSet.toNat - (if turn.fires then 1 else 0) ∧
      turn.calls.countP DeviceCall.isBeep =
        if turn.fires ∧ turn.soundSet.toNat = 1 then 1 else 0 := by
  have account := turn.account
  generalize did : turn.executed? = executed, ended : turn.result = result,
    turn.after.vm = vm, turn.calls = calls at account
  cases account with
  | outOfRange | refused =>
    obtain ⟨delay, sound⟩ := set_of_idle did
    rw [delay, sound, fires_of_error ended]
    simp [Machine.advance]
  | @executed i flow m mode fetched effect =>
    obtain ⟨delay, sound⟩ := Instr.exec_timers effect
    have delay' : turn.delaySet = m.delay := by
      rw [delaySet, did]
      exact delay.symm
    have sound' : turn.soundSet = m.sound := by
      rw [soundSet, did]
      exact sound.symm
    rw [delay', sound', fires_of_ok ended]
    refine ⟨Vm.delay_elapse, Vm.sound_elapse, ?_⟩
    rw [List.countP_append, List.countP_append, Instr.countP_looks, Machine.countP_shows,
      Vm.countP_isBeep_timeCalls]
    simp only [DeviceCall.isBeep, Bool.and_false, Bool.false_eq_true, if_false, Nat.zero_add]
    rfl
  | waited | keyed =>
    obtain ⟨delay, sound⟩ := set_of_idle did
    rw [delay, sound, fires_of_ok ended]
    refine ⟨Vm.delay_elapse, Vm.sound_elapse, ?_⟩
    rw [List.countP_cons, Vm.countP_isBeep_timeCalls]
    rfl

theorem beep_mem_calls_iff :
    .beep ∈ turn.calls ↔ turn.fires = true ∧ turn.soundSet.toNat = 1 := by
  obtain ⟨-, -, count⟩ := turn.timers_after
  have some_beep : 0 < turn.calls.countP DeviceCall.isBeep ↔ .beep ∈ turn.calls := by
    rw [List.countP_pos_iff]
    constructor
    · rintro ⟨call, mem, beep⟩
      cases call with
      | beep => exact mem
      | refresh | poll | tick => cases beep
    · intro mem
      exact ⟨_, mem, rfl⟩
  rw [← some_beep, count]
  split <;> simp_all

theorem delaySet_of_ne (turn : Turn σ)
    (other : ∀ e, turn.executed? = some e → ∀ x, e.instr ≠ .setDelay x) :
    turn.delaySet = turn.session.vm.machine.delay := by
  unfold delaySet
  split
  · rename_i e did
    exact Instr.delayAfter_of_ne (other e did)
  · rfl

theorem soundSet_of_ne (turn : Turn σ)
    (other : ∀ e, turn.executed? = some e → ∀ x, e.instr ≠ .setSound x) :
    turn.soundSet = turn.session.vm.machine.sound := by
  unfold soundSet
  split
  · rename_i e did
    exact Instr.soundAfter_of_ne (other e did)
  · rfl

theorem soundSet_of_setSound {e : Executed} {x : Register} (did : turn.executed? = some e)
    (sets : e.instr = .setSound x) : turn.soundSet = turn.session.vm.machine.reg x := by
  rw [soundSet, did]
  change e.instr.soundAfter turn.session.vm.machine = _
  rw [sets]
  rfl

/-- Unless a turn rearms it, an empty sound timer stays empty and the buzzer is silent. -/
theorem silent_of_empty (turn : Turn σ) (empty : turn.session.vm.machine.sound.toNat = 0)
    (calm : ¬turn.Rearms) :
    turn.after.vm.machine.sound.toNat = 0 ∧ .beep ∉ turn.calls := by
  have set : turn.soundSet.toNat = 0 := by
    by_cases sets : ∃ e x, turn.executed? = some e ∧ e.instr = .setSound x
    · obtain ⟨e, x, did, instr⟩ := sets
      rw [soundSet_of_setSound did instr]
      by_contra some_value
      refine calm ⟨e, x, did, instr, ?_⟩
      rintro zero
      exact some_value (by rw [zero]; rfl)
    · rw [turn.soundSet_of_ne fun e did x instr => sets ⟨e, x, did, instr⟩, empty]
  constructor
  · rw [turn.timers_after.2.1, set, Nat.zero_sub]
  · rw [beep_mem_calls_iff, set]
    omega

/-- A turn that does not fault ticks once, behind its looks at the keypad and its frame. -/
theorem calls_of_ok {flow : Flow} (ended : turn.result = .ok flow) :
    ∃ looks sounds, turn.calls = looks ++ .tick turn.millis :: sounds ∧
      (∀ c ∈ looks, c.isTimeless = true) ∧ ∀ c ∈ sounds, c.isBeep = true := by
  have sounds (vm : Vm) : ∃ sounds, vm.timeCalls turn.millis = .tick turn.millis :: sounds ∧
      ∀ c ∈ sounds, c.isBeep = true := by
    refine ⟨_, rfl, ?_⟩
    split <;> simp [DeviceCall.isBeep]
  have account := turn.account
  generalize turn.executed? = did, turn.after.vm = vm, turn.calls = calls at account
  rw [ended] at account
  cases account with
  | @executed i flow m mode fetched effect =>
    obtain ⟨rest, made, beeps⟩ := sounds { turn.session.vm with machine := m }
    refine ⟨i.looks turn.key ++ m.shows, rest, by rw [made], ?_, beeps⟩
    intro c mem
    unfold Instr.looks Machine.shows at mem
    rcases List.mem_append.1 mem with look | shown
    · split at look <;> simp_all [DeviceCall.isTimeless]
    · split at shown <;> simp_all [DeviceCall.isTimeless]
  | waited | keyed =>
    obtain ⟨rest, made, beeps⟩ := sounds turn.session.vm
    refine ⟨[_], rest, by rw [made]; rfl, ?_, beeps⟩
    simp [DeviceCall.isTimeless]

end Turn

/-! ### Runs -/

namespace Session

variable {s t : Session σ} {calls : List (Call σ)}

/-- Where nothing sets the delay timer, it has counted down once in each turn that fired. -/
theorem delay_of_turns (keep : ∀ c ∈ calls, c.restarts = false)
    (performed : s.performAll calls = some t) :
    (∀ e ∈ executedBy (s.turns calls), ∀ x, e.instr ≠ .setDelay x) →
      t.vm.machine.delay.toNat =
        s.vm.machine.delay.toNat - (s.turns calls).countP Turn.fires := by
  refine (performAll_at_every_turn (P := fun turns t =>
    (∀ e ∈ executedBy turns, ∀ x, e.instr ≠ .setDelay x) →
      t.vm.machine.delay.toNat = s.vm.machine.delay.toNat - turns.countP Turn.fires)
    ?cycle ?quiet keep (fun _ => rfl) performed).1
  case cycle =>
    intro h past u held none_set
    have before := held fun e mem => none_set e (mem_executedBy_append_left mem)
    have set := Turn.delaySet_of_ne ⟨h, u⟩
      fun e did => none_set e (mem_executedBy_concat did)
    obtain ⟨after, -, -⟩ := Turn.timers_after ⟨h, u⟩
    rw [set, before] at after
    rw [List.countP_append, List.countP_singleton, ← Nat.sub_sub]
    exact after
  case quiet =>
    intro past u v running vm held none_set
    rw [vm]
    exact held none_set

/-- Where nothing sets the sound timer, it has counted down likewise, and the buzzer has sounded
if it has come to zero. -/
theorem sound_of_turns (keep : ∀ c ∈ calls, c.restarts = false)
    (performed : s.performAll calls = some t) :
    (∀ e ∈ executedBy (s.turns calls), ∀ x, e.instr ≠ .setSound x) →
      t.vm.machine.sound.toNat =
          s.vm.machine.sound.toNat - (s.turns calls).countP Turn.fires ∧
        (deviceCallsOf (s.turns calls)).countP DeviceCall.isBeep =
          if 0 < s.vm.machine.sound.toNat ∧
            s.vm.machine.sound.toNat ≤ (s.turns calls).countP Turn.fires then 1 else 0 := by
  refine (performAll_at_every_turn (P := fun turns t =>
    (∀ e ∈ executedBy turns, ∀ x, e.instr ≠ .setSound x) →
      t.vm.machine.sound.toNat = s.vm.machine.sound.toNat - turns.countP Turn.fires ∧
        (deviceCallsOf turns).countP DeviceCall.isBeep =
          if 0 < s.vm.machine.sound.toNat ∧
            s.vm.machine.sound.toNat ≤ turns.countP Turn.fires then 1 else 0)
    ?cycle ?quiet keep ?start performed).1
  case cycle =>
    intro h past u held none_set
    obtain ⟨before, beeped⟩ := held fun e mem => none_set e (mem_executedBy_append_left mem)
    have set := Turn.soundSet_of_ne ⟨h, u⟩
      fun e did => none_set e (mem_executedBy_concat did)
    obtain ⟨-, after, beeps⟩ := Turn.timers_after ⟨h, u⟩
    rw [set, before] at after beeps
    rw [List.countP_append, List.countP_singleton, deviceCallsOf_append, List.countP_append,
      beeped, deviceCallsOf, List.flatMap_singleton, beeps]
    constructor
    · rw [← Nat.sub_sub]
      exact after
    · -- The timer comes to zero in this turn if it stood at one and the turn fires.
      cases Turn.fires ⟨h, u⟩ with
      | false => simp
      | true =>
        simp only [true_and, if_true]
        split <;> split <;> split <;> omega
  case quiet =>
    intro past u v running vm held none_set
    rw [vm]
    exact held none_set
  case start =>
    intro _
    refine ⟨rfl, ?_⟩
    rw [if_neg (by rintro ⟨some_time, none_left⟩; exact absurd none_left (by simp; omega))]
    rfl

/-- After the buzzer the sound timer is empty, as long as no turn rearms it. -/
def EmptySinceBeep (turns : List (Turn σ)) (s : Session σ) : Prop :=
  ∀ before turn between, turns = before ++ turn :: between → .beep ∈ turn.calls →
    (∀ x ∈ between, ¬x.Rearms) → s.vm.machine.sound.toNat = 0

theorem emptySinceBeep_cycle (h : Host σ) (past : List (Turn σ)) (s : Session σ)
    (held : s.EmptySinceBeep past) : (s.cycle h).2.EmptySinceBeep (past ++ [⟨h, s⟩]) := by
  intro before turn between split beep calm
  rcases split_concat split with ⟨rfl, rfl, -⟩ | ⟨between, rfl, rfl⟩
  · obtain ⟨fires, set⟩ := Turn.beep_mem_calls_iff.1 beep
    obtain ⟨-, after, -⟩ := Turn.timers_after ⟨h, s⟩
    rw [fires, set] at after
    exact after
  · have empty := held before turn between rfl beep fun x mem => calm x (by simp [mem])
    exact (Turn.silent_of_empty ⟨h, s⟩ empty (calm _ (by simp))).1

/-- Between two turns in which the buzzer sounds, the sound timer is rearmed. -/
theorem rearmed_between_beeps (keep : ∀ c ∈ calls, c.restarts = false)
    (performed : s.performAll calls = some t) {before between later : List (Turn σ)}
    {a b : Turn σ} (split : s.turns calls = before ++ a :: between ++ b :: later)
    (first : .beep ∈ a.calls) (second : .beep ∈ b.calls) :
    ∃ turn ∈ between ++ [b], turn.Rearms := by
  obtain ⟨-, every⟩ := performAll_at_every_turn (P := EmptySinceBeep) emptySinceBeep_cycle
    (by
      intro past u v running vm held before turn between split beep calm
      rw [vm]
      exact held before turn between split beep calm)
    keep
    (by
      intro before turn between split
      simp at split)
    performed
  have empty := every _ b later split before a between rfl first
  by_contra none_rearms
  have calm : ∀ x ∈ between ++ [b], ¬x.Rearms := fun x mem rearms => none_rearms ⟨x, mem, rearms⟩
  refine (b.silent_of_empty (empty fun x mem => calm x ?_) (calm b ?_)).2 second
  · exact List.mem_append_left _ mem
  · exact List.mem_append_right _ (List.mem_singleton_self b)

end Session

/-- **Accounts of the timers and the buzzer.**  A turn that faults calls no device; another ticks
once, after its looks at the keypad and its frame, and may sound the buzzer after that.  It does so
at most once, only if it fires, and then just if the sound timer stands at one when the
instruction, which may have set it, is done: so not when `Fx18` has just emptied it.  In a run that
does not restart the machine, a timer that no instruction sets counts down once for each turn that
fires, to zero at the lowest, and the buzzer sounds once if the sound timer gets there and not
otherwise.  In any such run `Fx18` sets the sound timer to more than zero between two sounds. -/
theorem timers_account :
    (∀ turn : Turn σ,
      (∀ f, turn.result = .error f → turn.calls = []) ∧
      (∀ flow, turn.result = .ok flow →
        ∃ looks sounds, turn.calls = looks ++ .tick turn.millis :: sounds ∧
          (∀ c ∈ looks, c.isTimeless = true) ∧ ∀ c ∈ sounds, c.isBeep = true) ∧
      turn.calls.countP DeviceCall.isBeep ≤ 1 ∧
      (.beep ∈ turn.calls ↔ turn.fires = true ∧ turn.soundSet.toNat = 1) ∧
      (∀ e x, turn.executed? = some e → e.instr = .setSound x →
        turn.session.vm.machine.reg x = 0 → .beep ∉ turn.calls) ∧
      turn.after.vm.machine.delay.toNat =
        turn.delaySet.toNat - (if turn.fires then 1 else 0) ∧
      turn.after.vm.machine.sound.toNat =
        turn.soundSet.toNat - (if turn.fires then 1 else 0)) ∧
    ∀ (s t : Session σ) calls, (∀ c ∈ calls, c.restarts = false) →
      s.performAll calls = some t →
      ((∀ e ∈ executedBy (s.turns calls), ∀ x, e.instr ≠ .setDelay x) →
        t.vm.machine.delay.toNat =
          s.vm.machine.delay.toNat - (s.turns calls).countP Turn.fires) ∧
      ((∀ e ∈ executedBy (s.turns calls), ∀ x, e.instr ≠ .setSound x) →
        t.vm.machine.sound.toNat =
            s.vm.machine.sound.toNat - (s.turns calls).countP Turn.fires ∧
          (deviceCallsOf (s.turns calls)).countP DeviceCall.isBeep =
            if 0 < s.vm.machine.sound.toNat ∧
              s.vm.machine.sound.toNat ≤ (s.turns calls).countP Turn.fires then 1 else 0) ∧
      ∀ before a between b later, s.turns calls = before ++ a :: between ++ b :: later →
        .beep ∈ a.calls → .beep ∈ b.calls →
        ∃ turn ∈ between ++ [b], ∃ e x, turn.executed? = some e ∧ e.instr = .setSound x ∧
          turn.session.vm.machine.reg x ≠ 0 := by
  constructor
  · intro turn
    obtain ⟨delay, sound, beeps⟩ := turn.timers_after
    refine ⟨fun f failed => Turn.calls_of_error failed, fun flow ended => Turn.calls_of_ok ended,
      ?_, Turn.beep_mem_calls_iff, ?_, delay, sound⟩
    · rw [beeps]
      split <;> omega
    · intro e x did sets zero beep
      obtain ⟨-, set⟩ := Turn.beep_mem_calls_iff.1 beep
      rw [Turn.soundSet_of_setSound did sets, zero] at set
      cases set
  · intro s t calls keep performed
    refine ⟨Session.delay_of_turns keep performed, Session.sound_of_turns keep performed, ?_⟩
    intro before a between b later split first second
    exact Session.rearmed_between_beeps keep performed split first second

/-- At `1200` with the sound timer at one, the buzzer sounds just if the turn fires.  Whether it
does is left open: `Turn.fires` compares floats, which are not evaluated in a proof. -/
theorem timers_account_jump :
    let s₀ := ((Session.start { seed := 0 } (.ofSeed 0) ({} : Console)).load [0x12, 0x00]).2
    let s : Session Console := { s₀ with
      vm := { s₀.vm with machine := { s₀.vm.machine with sound := 1 } } }
    let turn : Turn Console := ⟨Script.host { millis := fun _ => 20.0 }, s⟩
    turn.after.vm.machine.sound.toNat = 1 - [turn].countP Turn.fires ∧
      (deviceCallsOf [turn]).countP DeviceCall.isBeep =
        if 0 < 1 ∧ 1 ≤ [turn].countP Turn.fires then 1 else 0 := by
  intro s₀ s turn
  have fetched : s.vm.machine.fetch? = some (Instr.encode (.jump 0x200)) :=
    Machine.fetch?_withProgram (.initial (.ofSeed 0)) 0x12 0x00 []
  have keep : ∀ c ∈ [Call.cycle turn.host], c.restarts = false := by
    intro c mem
    rw [List.mem_singleton.1 mem]
    rfl
  have none_set : ∀ e ∈ executedBy (s.turns [Call.cycle turn.host]), ∀ x,
      e.instr ≠ .setSound x := by
    intro e mem x
    obtain ⟨other, here, did⟩ := List.mem_filterMap.1 mem
    cases List.mem_singleton.1 here
    obtain ⟨-, standing, -⟩ := Turn.executed?_eq_some_iff.1 did
    rw [← Instr.encode_injective (Option.some.inj (fetched.symm.trans standing))]
    exact nofun
  obtain ⟨-, runs⟩ := @timers_account Console
  obtain ⟨-, sound, -⟩ := runs s turn.after [.cycle turn.host] keep rfl
  exact sound none_set

end ChipEight
