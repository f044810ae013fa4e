import ChipEight.Proofs.Stopping.Thread
import ChipEight.Proofs.Unnoticed
/-!
# Requests to stop

The request to stop is a mark that everybody sets and that a loop takes away when it looks at it.
A cycle does not read it, so a request may come between any two of its steps (`Stage.run_stop`).
What becomes of it can be told from the events alone: `Thread.Run.mark`.
-/

namespace ChipEight

variable {σ : Type}

/-! ### A request in the middle of a cycle -/

/-- A request that comes before a step of a cycle changes nothing of the step. -/
theorem Stage.run_stop (h : Host σ) (s : Session σ) (stage : Stage) :
    stage.run h s.stop = ((stage.run h s).1, (stage.run h s).2.stop) := by
  have asked : ∀ t : Session σ, t.stop = t.inWorld World.stop := fun t => rfl
  have unnoticed : World.Unnoticed (World.stop (σ := σ)) := World.unnoticed_stop
  simp only [asked]
  cases stage with
  | start =>
    have mode : (s.inWorld World.stop).vm.mode = s.vm.mode := rfl
    simp only [run, mode, unnoticed.awaitKey, unnoticed.step]
    split
    · rfl
    · rcases s.step h with ⟨f | flow, t⟩ <;> rfl
  | frame flow => exact congrArg (Prod.mk _) (unnoticed.present h s)
  | clock flow => rfl
  | timers flow millis => exact congrArg (Prod.mk _) (unnoticed.elapse h millis s)

/-- After a step of a cycle a stop is asked for if it was before or if the devices did. -/
theorem Stage.stopRequested_run (h : Host σ) (s : Session σ) (stage : Stage) :
    (stage.run h s).2.world.stopRequested = (s.world.stopRequested || stage.asks h s) := by
  unfold asks
  cases asked : s.world.stopRequested with
  | false =>
    have same : s.withdrawStop = s := Session.withdrawStop_of_going asked
    rw [same, Bool.false_or]
  | true =>
    have again : s = s.withdrawStop.stop := by
      unfold Session.withdrawStop Session.stop World.stop
      rw [← asked]
    rw [again, run_stop]
    rfl

/-! ### The request and the events -/

namespace Event

def mark (asked : Bool) : Event → Bool
  | .asked => true
  | .looked _ => false
  | .begun | .returned _ => asked

def isBegun : Event → Bool
  | .begun => true
  | _ => false

def isReturn : Event → Bool
  | .returned _ => true
  | _ => false

end Event

theorem Stage.foldl_mark_events (h : Host σ) (s : Session σ) (stage : Stage) (asked : Bool) :
    (stage.events h s).foldl Event.mark asked = (asked || stage.asks h s) := by
  unfold events
  cases stage.isStart <;> cases stage.asks h s <;> simp [Event.mark]

namespace Thread

abbrev stopRequested (t : Thread σ) : Bool := t.session.world.stopRequested

/-- The events of a step tell what becomes of the request. -/
theorem Step.mark {t u : Thread σ} {a : Action σ} {es : List Event} (step : Step t a es u) :
    u.stopRequested = es.foldl Event.mark t.stopRequested := by
  cases step with
  | load program =>
    simp only [stopRequested, Session.load, List.foldl_nil]
    split <;> rfl
  | @proceed s t h stage _ _ ran =>
    rw [Stage.foldl_mark_events, ← Stage.stopRequested_run, ran]
  | @finished s t h stage _ _ ran =>
    rw [Stage.foldl_mark_events, ← Stage.stopRequested_run, ran]
  | @failed s t h stage _ _ ran =>
    rw [Stage.foldl_mark_events, ← Stage.stopRequested_run, ran]
  | @cycled s t h stage _ ran =>
    rw [List.foldl_append, Stage.foldl_mark_events, ← Stage.stopRequested_run, ran]
    rfl
  | _ => rfl

theorem Run.mark {t v : Thread σ} {as : List (Action σ)} {es : List Event} (run : Run t as es v) :
    v.stopRequested = es.foldl Event.mark t.stopRequested := by
  induction run with
  | nil => rfl
  | cons step _ ih => rw [ih, step.mark, List.foldl_append]

/-- A request is withdrawn by a loop that finds it. -/
theorem Step.withdrawn {t u : Thread σ} {a : Action σ} {es : List Event} (step : Step t a es u)
    (before : t.stopRequested = true) (after : u.stopRequested = false) :
    a = .step ∧ es = [.looked true] ∧ (∃ h budget, t.task = .look h budget) ∧
      u.task = .leave (.ok ()) := by
  rw [step.mark, before] at after
  cases step with
  | found => exact ⟨rfl, rfl, ⟨_, _, rfl⟩, rfl⟩
  | clear _ going =>
    rw [stopRequested, going] at before
    cases before
  | proceed | finished | failed =>
    rw [Stage.foldl_mark_events] at after
    cases after
  | cycled =>
    rw [List.foldl_append, Stage.foldl_mark_events] at after
    cases after
  | _ => cases after

/-- Without a look that finds it, a request stays. -/
theorem Run.stays {t v : Thread σ} {as : List (Action σ)} {es : List Event} (run : Run t as es v)
    (before : t.stopRequested = true) (unseen : .looked true ∉ es) : v.stopRequested = true := by
  induction run with
  | nil => exact before
  | cons step _ ih =>
    rw [List.mem_append, not_or] at unseen
    refine ih (eq_true_of_ne_false fun gone => ?_) unseen.2
    obtain ⟨-, rfl, -⟩ := step.withdrawn before gone
    exact unseen.1 (List.mem_singleton_self _)

/-! ### What a look finds -/

theorem Step.looked {t u : Thread σ} {a : Action σ} {es : List Event} {found : Bool}
    (step : Step t a es u) (mem : .looked found ∈ es) :
    es = [.looked found] ∧ found = t.stopRequested := by
  cases step with
  | found _ asked =>
    cases List.mem_singleton.1 mem
    exact ⟨rfl, asked.symm⟩
  | clear _ going =>
    cases List.mem_singleton.1 mem
    exact ⟨rfl, going.symm⟩
  | proceed | finished | failed | cycled => simp [Stage.events] at mem
  | _ => simp at mem

/-- A look finds the request as the events before have left it. -/
theorem Run.looked {t v : Thread σ} {as : List (Action σ)} {es before after : List Event}
    {found : Bool} (run : Run t as es v) (split : es = before ++ .looked found :: after) :
    found = before.foldl Event.mark t.stopRequested := by
  induction run generalizing before with
  | nil => simp at split
  | @cons t u v a as es fs step rest ih =>
    -- The look comes after the first step, or it is the first step.
    rcases List.append_eq_append_iff.1 split with ⟨later, rfl, behind⟩ | ⟨part, rfl, behind⟩
    · rw [List.foldl_append, ← step.mark]
      exact ih behind
    · cases part with
      | nil =>
        rw [List.append_nil] at step
        rw [← step.mark]
        exact ih (show fs = [] ++ _ from behind.symm)
      | cons e part =>
        cases behind
        obtain ⟨alone, same⟩ := step.looked (List.mem_append_right _ (List.mem_cons_self ..))
        have first : before = [] := by
          have length := congrArg List.length alone
          simp only [List.length_append, List.length_cons, List.length_nil] at length
          exact List.length_eq_zero_iff.1 (by omega)
        rw [first]
        exact same

end Thread

end ChipEight
