import ChipEight.Proofs.Checked.Rig
/-!
# The checked virtual machine runs as the virtual machine does

A rig in order goes through every cycle, run and call without a failing check, stays in order,
and goes on standing for the session that the same cycle, run or call leads to.  A cycle that
faults has left its store alone, apart from the program counter.
-/

namespace ChipEight.Checked

open Program

namespace Rig

variable {σ : Type} {α : Type}

/-- A cycle, or a part of it, has come out on the rig as it does in the session.  If it has
faulted, the rig has a program counter and a world of its own and is otherwise as it was. -/
def Follows (r : Rig σ) (o : Outcome (Rig σ) Notice) : Except Fault Flow × Session σ → Prop
  | (.ok flow, s) => ∃ r', o = .done (.ofFlow flow) r' ∧ r'.Sound ∧ r'.view = s
  | (.error f, s) => ∃ pc w running,
    o = .fault f { r with bench := ⟨{ r.bench.store with pc := pc }, w⟩, running := running } ∧
      view { r with bench := ⟨{ r.bench.store with pc := pc }, w⟩, running := running } = s

@[simp] theorem run_onBench (p : Program (Bench σ) α) (r : Rig σ) :
    (onBench p).run r = (p.run r.bench).mapState fun b => { r with bench := b } := rfl

@[simp] theorem run_touch (f : World σ → World σ) (r : Rig σ) :
    (touch f).run r = .done () { r with bench := { r.bench with world := f r.bench.world } } := rfl

@[simp] theorem run_enter (stage : Stage) (r : Rig σ) :
    (enter stage).run r = .done () { r with stage := stage } := rfl

@[simp] theorem run_setRunning (running : Bool) (r : Rig σ) :
    (setRunning running).run r = .done () { r with running := running } := rfl

/-! ### Instructions -/

theorem step_follows (h : Host σ) {r : Rig σ} (sound : r.Sound) (fetching : r.stage = .fetching) :
    Follows r ((step h).run r) (r.view.step h) := by
  have machine : r.view.vm.machine = r.bench.store.view := rfl
  simp only [step, run_bind, run_get, Outcome.andThen_done, run_onBench, Bench.run_fetch,
    Outcome.mapState_done, Session.step, machine]
  cases fetched : r.bench.store.view.fetch? with
  | none => exact ⟨r.bench.store.pc, r.bench.world, r.running, rfl, rfl⟩
  | some op =>
    have follows := Bench.execute_follows h op
      (b := ⟨{ r.bench.store with pc := r.bench.store.pc + 2 }, r.bench.world⟩)
      (sound.store.of_sp_eq rfl)
    have advanced : Store.view { r.bench.store with pc := r.bench.store.pc + 2 } =
        r.bench.store.view.advance := rfl
    simp only [advanced] at follows
    simp only [run_bind, run_onBench, Bench.run_goTo, Outcome.mapState_done, Outcome.andThen_done]
    have world : r.view.world = r.bench.world := rfl
    rw [world]
    rcases executed : r.bench.store.view.advance.execute h op r.bench.world with ⟨_ | ⟨flow, m⟩, w⟩
    · rw [executed] at follows
      rw [follows]
      exact ⟨_, _, _, rfl, rfl⟩
    · rw [executed] at follows
      obtain ⟨st, ran, sound', view⟩ := follows
      rw [ran]
      refine ⟨{ r with bench := ⟨st, w⟩, stage := Stage.after flow }, ?_,
        ⟨sound', Stage.sound_after flow⟩, ?_⟩
      · cases flow with
        | keyWait register => rfl
        | _ =>
          rw [show r = { r with stage := .fetching } from fetching ▸ rfl]
          rfl
      · simp only [Rig.view, view, Stage.mode_after]

theorem run_present (h : Host σ) (r : Rig σ) :
    (present h).run r = .done () { r with bench :=
      ⟨{ r.bench.store with dirty := false }, (r.view.present h).world⟩ } := by
  simp only [present, run_bind, run_get, Outcome.andThen_done, run_onBench, Bench.run_update,
    Outcome.mapState_done]
  unfold Session.present
  have dirty : r.view.vm.machine.dirty = r.bench.store.dirty := rfl
  rw [dirty]
  split <;> rfl

theorem present_follows (h : Host σ) {r : Rig σ} (sound : r.Sound) :
    ∃ r', (present h).run r = .done () r' ∧ r'.Sound ∧ r'.view = r.view.present h := by
  refine ⟨_, run_present h r, ⟨sound.store.of_sp_eq rfl, sound.stage⟩, ?_⟩
  have vm := Session.present_vm h r.view
  cases shown : r.view.present h with
  | mk vm' world =>
    rw [shown] at vm
    rw [show vm' = _ from vm]
    rfl

theorem awaitKey_follows (h : Host σ) {r : Rig σ} (sound : r.Sound) (x : Register) :
    Follows r ((awaitKey h (UInt8.ofNat x.val)).run r)
      (.ok (r.view.awaitKey h x).1, (r.view.awaitKey h x).2) := by
  have world : r.view.world = r.bench.world := rfl
  simp only [awaitKey, run_bind, run_onBench, Bench.run_poll, Outcome.mapState_done,
    Outcome.andThen_done, Session.awaitKey, world]
  rcases r.bench.world.poll h with ⟨_ | key, w⟩
  · exact ⟨{ r with bench := { r.bench with world := w } }, rfl, ⟨sound.store, sound.stage⟩, rfl⟩
  · simp only [toNat_ofNat_register, Bench.named_val, run_bind, run_touch, run_onBench,
      Bench.run_setReg, Outcome.mapState_done, Outcome.andThen_done, run_enter, run_pure]
    exact ⟨_, rfl, ⟨sound.store.of_sp_eq rfl, trivial⟩, rfl⟩

theorem halt_follows {r : Rig σ} {o : Outcome (Rig σ) Notice} {f : Fault} {s : Session σ}
    (follows : Follows r o (.error f, s)) : ∃ r', o = .fault f r' ∧
    Follows r (.fault f (halt f r')) (.error f,
      { vm := { s.vm with running := false }, world := s.world.emit (.stopped f) }) := by
  obtain ⟨pc, w, running, rfl, rfl⟩ := follows
  exact ⟨_, rfl, pc, w.emit (.stopped f), false, rfl, rfl⟩

theorem work_follows (h : Host σ) {r : Rig σ} (sound : r.Sound) :
    Follows r ((work h).run r) (r.view.work h) := by
  simp only [work, run_bind, run_get, Outcome.andThen_done, Session.work]
  cases stage : r.stage with
  | awaitingKey register =>
    have below : register.toNat < 16 := by
      have registers := sound.stage
      rw [stage] at registers
      exact registers
    obtain ⟨x, rfl⟩ := exists_register below
    have mode : r.view.vm.mode = .awaitingKey x := by
      change r.stage.mode = .awaitingKey x
      rw [stage]
      exact Stage.mode_after (.keyWait x)
    simp only [mode]
    exact awaitKey_follows h sound x
  | fetching =>
    have mode : r.view.vm.mode = .fetching := by
      change r.stage.mode = .fetching
      rw [stage]
      rfl
    have steps := step_follows h sound stage
    simp only [mode, run_bind]
    rcases stepped : r.view.step h with ⟨f | flow, s⟩
    · rw [stepped] at steps
      obtain ⟨r', faulted, follows⟩ := halt_follows steps
      rw [run_onFault_of_fault faulted]
      exact follows
    · rw [stepped] at steps
      obtain ⟨r', ran, sound', view⟩ := steps
      obtain ⟨r'', shown, sound'', view'⟩ := present_follows h sound'
      rw [run_onFault_of_done ran]
      simp only [Outcome.andThen_done, shown, run_pure]
      exact ⟨r'', rfl, sound'', by rw [view', view]⟩

/-! ### Timers -/

theorem advanceTimers_follows (h : Host σ) (millis : Float) {r : Rig σ} (sound : r.Sound) :
    ∃ r', (advanceTimers h millis).run r = .done () r' ∧ r'.Sound ∧
      r'.view = r.view.elapse h millis := by
  have elapsed : r.view.vm.elapsed = r.elapsed := rfl
  have buzzes : r.view.vm.machine.buzzes = r.bench.store.view.buzzes := rfl
  simp only [advanceTimers, run_bind, run_get, run_modify, Outcome.andThen_done, Session.elapse,
    elapsed]
  by_cases due : r.elapsed + millis > Platform.timerPeriod
  · have later (delay : UInt8) : Machine.buzzes (Store.view { r.bench.store with delay := delay }) =
        r.bench.store.view.buzzes := rfl
    simp only [due, if_true, run_bind, run_onBench, Bench.tickDelay, Bench.run_update,
      Bench.run_tickSound, Outcome.mapState_done, Outcome.andThen_done, Session.countDown, buzzes,
      later]
    cases r.bench.store.view.buzzes with
    | true =>
      simp only [if_true, run_bind, run_touch, run_modify, Outcome.andThen_done]
      exact ⟨_, rfl, ⟨sound.store.of_sp_eq rfl, sound.stage⟩, rfl⟩
    | false =>
      simp only [Bool.false_eq_true, if_false, run_modify]
      exact ⟨_, rfl, ⟨sound.store.of_sp_eq rfl, sound.stage⟩, rfl⟩
  · simp only [due, if_false, run_pure]
    exact ⟨_, rfl, ⟨sound.store, sound.stage⟩, rfl⟩

theorem run_tick (h : Host σ) (r : Rig σ) :
    (tick h).run r = .done (r.view.world.tick h).1
      { r with bench := { r.bench with world := (r.view.world.tick h).2 } } := rfl

/-- A cycle comes out on a rig in order as it does in the session. -/
theorem cycle_follows (h : Host σ) {r : Rig σ} (sound : r.Sound) :
    Follows r ((cycle h).run r) (r.view.cycle h) := by
  have works := work_follows h sound
  simp only [cycle, run_bind, Session.cycle]
  rcases worked : r.view.work h with ⟨f | flow, s⟩
  · rw [worked] at works
    obtain ⟨pc, w, running, ran, view⟩ := works
    rw [ran]
    exact ⟨pc, w, running, rfl, view⟩
  · rw [worked] at works
    obtain ⟨r', ran, sound', view⟩ := works
    rw [ran]
    simp only [Outcome.andThen_done, run_tick, ← view]
    obtain ⟨r'', passed, sound'', view'⟩ := advanceTimers_follows h (r'.view.world.tick h).1
      (r := { r' with bench := { r'.bench with world := (r'.view.world.tick h).2 } })
      ⟨sound'.store, sound'.stage⟩
    rw [passed]
    exact ⟨r'', rfl, sound'', view'⟩

/-! ### Runs -/

theorem run_takeStop (r : Rig σ) :
    takeStop.run r = .done r.view.world.stopRequested { r with bench :=
      { r.bench with world := { r.bench.world with stopRequested := false } } } := rfl

theorem eq_of_not_stopRequested {r : Rig σ} (going : ¬r.view.world.stopRequested = true) :
    { r with bench := { r.bench with world := { r.bench.world with stopRequested := false } } } =
      r := by
  have off : r.bench.world.stopRequested = false := Bool.not_eq_true _ ▸ going
  rw [← off]

theorem attempt_cycle_follows (h : Host σ) {r : Rig σ} (sound : r.Sound) :
    ∃ r' result, (attempt (cycle h)).run r = .done result r' ∧ r'.Sound ∧
      r'.view = (r.view.cycle h).2 ∧
      match (r.view.cycle h).1 with
      | .ok flow => result = .ok (.ofFlow flow)
      | .error f => result = .error f := by
  have follows := cycle_follows h sound
  rcases cycled : r.view.cycle h with ⟨f | flow, s⟩
  -- A fault leaves the rig in order, since it has not touched the slots in use.
  · rw [cycled] at follows
    obtain ⟨pc, w, running, ran, view⟩ := follows
    exact ⟨_, _, run_attempt_of_fault ran, ⟨sound.store.of_sp_eq rfl, sound.stage⟩, view, rfl⟩
  · rw [cycled] at follows
    obtain ⟨r', ran, sound', view⟩ := follows
    exact ⟨r', _, run_attempt_of_done ran, sound', view, rfl⟩

theorem cycles_follows (h : Host σ) (n : Nat) {r : Rig σ} (sound : r.Sound) :
    ∃ r', (cycles h n).run r = .done (Session.cycles h n r.view).1 r' ∧ r'.Sound ∧
      r'.view = (Session.cycles h n r.view).2 := by
  induction n generalizing r with
  | zero => exact ⟨r, rfl, sound, rfl⟩
  | succ n ih =>
    simp only [cycles, run_bind, run_takeStop, Outcome.andThen_done, Session.cycles]
    by_cases stop : r.view.world.stopRequested
    · rw [if_pos stop, if_pos stop]
      exact ⟨_, rfl, ⟨sound.store, sound.stage⟩, rfl⟩
    · rw [if_neg stop, if_neg stop, eq_of_not_stopRequested stop]
      obtain ⟨r', result, ran, sound', view, same⟩ := attempt_cycle_follows h sound
      simp only [run_bind, ran, Outcome.andThen_done]
      rcases cycled : r.view.cycle h with ⟨f | flow, s⟩
      · rw [cycled] at same view
        obtain rfl : result = .error f := same
        exact ⟨r', rfl, sound', view⟩
      · rw [cycled] at same view
        obtain rfl : result = .ok (.ofFlow flow) := same
        obtain rfl : r'.view = s := view
        exact ih sound'

theorem cyclesUntilStop_follows (h : Host σ) (fuel : Nat) {r : Rig σ} (sound : r.Sound) :
    ∃ r', r'.Sound ∧
      match Session.cyclesUntilStop h fuel r.view with
      | some (result, s) =>
        (cyclesUntilStop h fuel).run r = .done (some result) r' ∧ r'.view = s
      | none => (cyclesUntilStop h fuel).run r = .done none r' := by
  induction fuel generalizing r with
  | zero => exact ⟨r, sound, rfl⟩
  | succ fuel ih =>
    simp only [cyclesUntilStop, run_bind, run_takeStop, Outcome.andThen_done,
      Session.cyclesUntilStop]
    by_cases stop : r.view.world.stopRequested
    · rw [if_pos stop, if_pos stop]
      refine ⟨_, ?_, rfl, rfl⟩
      exact ⟨sound.store, sound.stage⟩
    · rw [if_neg stop, if_neg stop, eq_of_not_stopRequested stop]
      obtain ⟨r', result, ran, sound', view, same⟩ := attempt_cycle_follows h sound
      simp only [run_bind, ran, Outcome.andThen_done]
      rcases cycled : r.view.cycle h with ⟨f | flow, s⟩
      · rw [cycled] at same view
        obtain rfl : result = .error f := same
        exact ⟨r', sound', rfl, view⟩
      · rw [cycled] at same view
        obtain rfl : result = .ok (.ofFlow flow) := same
        obtain rfl : r'.view = s := view
        exact ih sound'

/-! ### Sessions -/

theorem perform_follows (c : Call σ) {r : Rig σ} (sound : r.Sound) :
    ∃ r', r'.Sound ∧
      match r.view.perform c with
      | some s => (perform c).run r = .done true r' ∧ r'.view = s
      | none => (perform c).run r = .done false r' := by
  cases c with
  | load program =>
    have loads := Bench.run_load program r.bench
    simp only [perform, load, run_bind, run_onBench, Session.perform, Session.load]
    have machine : r.view.vm.machine = r.bench.store.view := rfl
    rw [machine]
    cases loaded : r.bench.store.view.load program with
    | error e =>
      rw [loaded] at loads
      rw [loads]
      exact ⟨r, sound, rfl, rfl⟩
    | ok m =>
      rw [loaded] at loads
      obtain ⟨st, ran, sound', view⟩ := loads
      rw [ran]
      refine ⟨{ r with bench := ⟨st, _⟩, stage := .fetching, elapsed := 0.0 }, ⟨sound', trivial⟩,
        rfl, ?_⟩
      simp only [Rig.view, view]
      rfl
  | reset =>
    simp only [perform, reset, run_bind, run_touch, run_onBench, Bench.run_reset,
      Outcome.mapState_done, Outcome.andThen_done, Session.perform]
    refine ⟨_, ?_, rfl, ?_⟩
    · exact ⟨Store.sound_initial _, trivial⟩
    · simp only [Rig.view, Store.view_initial]
      rfl
  | stop | connect devices =>
    refine ⟨_, ?_, rfl, rfl⟩
    exact ⟨sound.store, sound.stage⟩
  | cycle h =>
    obtain ⟨r', result, ran, sound', view, -⟩ := attempt_cycle_follows h sound
    refine ⟨r', sound', ?_, view⟩
    simp only [perform, run_bind, ran, Outcome.andThen_done, run_pure]
  | runSteps h n =>
    obtain ⟨r', ran, sound', view⟩ := cycles_follows h n (r := { r with running := true })
      ⟨sound.store, sound.stage⟩
    refine ⟨{ r' with running := false }, ⟨sound'.store, sound'.stage⟩, ?_, ?_⟩
    · simp only [perform, runSteps, run_bind, run_setRunning, ran, Outcome.andThen_done, run_pure]
    · change r'.view.setRunning false = _
      rw [view]
      rfl
  | run h fuel =>
    obtain ⟨r', sound', ran⟩ := cyclesUntilStop_follows h fuel (r := { r with running := true })
      ⟨sound.store, sound.stage⟩
    have started : view { r with running := true } = r.view.setRunning true := rfl
    rw [started] at ran
    refine ⟨{ r' with running := false }, ⟨sound'.store, sound'.stage⟩, ?_⟩
    simp only [perform, run, run_bind, run_setRunning, Outcome.andThen_done, Session.perform,
      Session.run, Option.map_map]
    cases ended : Session.cyclesUntilStop h fuel (r.view.setRunning true) with
    | none =>
      rw [ended] at ran
      simp only [ran, Outcome.andThen_done, run_pure, Option.map_none, Option.isSome_none]
    | some r =>
      obtain ⟨result, s⟩ := r
      rw [ended] at ran
      obtain ⟨ran, rfl⟩ := ran
      simp only [ran, Outcome.andThen_done, run_pure, Option.map_some, Option.isSome_some]
      exact ⟨trivial, rfl⟩

theorem performAll_follows (calls : List (Call σ)) {r : Rig σ} (sound : r.Sound) :
    ∃ r', r'.Sound ∧
      match r.view.performAll calls with
      | some s => (performAll calls).run r = .done true r' ∧ r'.view = s
      | none => (performAll calls).run r = .done false r' := by
  induction calls generalizing r with
  | nil => exact ⟨r, sound, rfl, rfl⟩
  | cons c rest ih =>
    obtain ⟨r', sound', performed⟩ := perform_follows c sound
    simp only [performAll, run_bind, Session.performAll]
    cases ended : r.view.perform c with
    | none =>
      rw [ended] at performed
      rw [performed]
      exact ⟨r', sound', rfl⟩
    | some s =>
      rw [ended] at performed
      obtain ⟨ran, rfl⟩ := performed
      rw [ran]
      exact ih sound'

end Rig

end ChipEight.Checked
