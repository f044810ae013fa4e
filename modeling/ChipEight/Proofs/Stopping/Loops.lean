import ChipEight.Host.Console
import ChipEight.Proofs.Stopping.Requests
/-!
# Loops that are asked to stop

Once a stop is asked for, a loop is `Closing`: it goes through the cycle that it has begun, or
that it may no longer refuse, and returns.  A loop that is about to find the request, or has, is
`Resting` and goes through none.  So no request is lost and none is made up, whichever way the
thread and the holders of handles take turns: `stop_requests`.
-/

namespace ChipEight

variable {σ : Type}

namespace Thread

/-- A loop takes the request, if it is still there, and returns; no cycle is executed before. -/
def ReturnsAtOnce (es : List Event) : Prop :=
  (∀ e ∈ es, e = .asked ∨ e = .looked true) ∨
    ∃ own rest, es = own ++ .returned (.ok ()) :: rest ∧ ∀ e ∈ own, e = .asked ∨ e = .looked true

/-- A loop that has taken the request or is about to find it. -/
def Resting (t : Thread σ) : Prop :=
  t.task = .leave (.ok ()) ∨ t.stopRequested = true ∧ ∃ h budget, t.task = .look h budget

theorem Resting.step {t u : Thread σ} {a : Action σ} {es : List Event} (resting : t.Resting)
    (step : Step t a es u) :
    es = [.returned (.ok ())] ∨ (u.Resting ∧ ∀ e ∈ es, e = .asked ∨ e = .looked true) := by
  rcases resting with leaving | ⟨asked, h, budget, looking⟩
  · cases step with
    | stop => exact .inr ⟨.inl leaving, by simp⟩
    | leave =>
      cases leaving
      exact .inl rfl
    | _ => cases leaving
  · cases step with
    | stop => exact .inr ⟨.inr ⟨rfl, h, budget, looking⟩, by simp⟩
    | spent => exact .inr ⟨.inl rfl, by simp⟩
    | found => exact .inr ⟨.inl rfl, by simp⟩
    | clear _ going =>
      rw [stopRequested, going] at asked
      cases asked
    | _ => cases looking

theorem Resting.run {t v : Thread σ} {as : List (Action σ)} {es : List Event}
    (resting : t.Resting) (run : Run t as es v) : ReturnsAtOnce es := by
  induction run with
  | nil => exact .inl (by simp)
  | cons step _ ih =>
    rcases resting.step step with rfl | ⟨resting, first⟩
    · exact .inr ⟨[], _, rfl, by simp⟩
    · rcases ih resting with others | ⟨own, rest, rfl, others⟩
      · exact .inl (List.forall_mem_append.2 ⟨first, others⟩)
      · refine .inr ⟨_ ++ own, rest, ?_, List.forall_mem_append.2 ⟨first, others⟩⟩
        rw [List.append_assoc]

end Thread

def Task.InLoop : Task σ → Prop
  | .idle | .cycle _ _ none => False
  | .look .. | .cycle _ _ (some _) | .leave _ => True

/-- Cycles that a loop begins before it looks again: one, if it has just looked. -/
def Task.toBegin : Task σ → Nat
  | .cycle _ .start _ => 1
  | _ => 0

/-- Steps of a cycle that are still to be taken. -/
def Stage.stepsLeft : Stage → Nat
  | .start => 4
  | .frame _ => 3
  | .clock _ => 2
  | .timers .. => 1

/-- Steps at most before a loop returns that is asked to stop. -/
def Task.stepsLeft : Task σ → Nat
  | .idle => 0
  | .leave _ => 1
  | .look .. => 2
  | .cycle _ stage _ => stage.stepsLeft + 2

def Action.isStep : Action σ → Bool
  | .step => true
  | .stop _ | .call _ => false

/-- The events before the first return. -/
def untilReturn (es : List Event) : List Event := es.takeWhile fun e => !e.isReturn

namespace Stage

theorem stepsLeft_of_run {h : Host σ} {s t : Session σ} {stage next : Stage}
    (ran : stage.run h s = (.next next, t)) :
    next.isStart = false ∧ next.stepsLeft < stage.stepsLeft := by
  cases stage with
  | start =>
    simp only [run] at ran
    split at ran
    · cases ran
      exact ⟨rfl, by simp [stepsLeft]⟩
    · split at ran
      · cases ran
        exact ⟨rfl, by simp [stepsLeft]⟩
      · cases ran
  | frame flow | clock flow =>
    cases ran
    exact ⟨rfl, by simp [stepsLeft]⟩
  | timers flow millis => cases ran

theorem stepsLeft_pos (stage : Stage) : 0 < stage.stepsLeft := by
  cases stage <;> simp [stepsLeft]

theorem isReturn_of_mem_events {h : Host σ} {s : Session σ} {stage : Stage} {e : Event}
    (mem : e ∈ stage.events h s) : e.isReturn = false := by
  simp only [events, List.mem_append] at mem
  rcases mem with mem | mem
  · split at mem
    · cases List.mem_singleton.1 mem
      rfl
    · cases mem
  · split at mem
    · cases List.mem_singleton.1 mem
      rfl
    · cases mem

theorem countP_events (h : Host σ) (s : Session σ) (stage : Stage) (loop : Option Budget) :
    (stage.events h s).countP Event.isBegun = (Task.cycle h stage loop).toBegin := by
  unfold events
  cases stage <;> cases asks h s _ <;> rfl

theorem toBegin_of_isStart_eq_false {h : Host σ} {stage : Stage} {loop : Option Budget}
    (later : stage.isStart = false) : (Task.cycle h stage loop).toBegin = 0 := by
  cases stage with
  | start => cases later
  | _ => rfl

end Stage

namespace Thread

/-- A loop that is asked to stop or has taken the request. -/
def Closing (t : Thread σ) : Prop :=
  t.task.InLoop ∧ (t.stopRequested = true ∨ t.task = .leave (.ok ()))

theorem Closing.step {t u : Thread σ} {a : Action σ} {es : List Event} (closing : t.Closing)
    (step : Step t a es u) :
    (∃ r, t.task = .leave r ∧ es = [.returned r]) ∨
    (u.Closing ∧ (∀ e ∈ es, e.isReturn = false) ∧
      es.countP Event.isBegun + u.task.toBegin ≤ t.task.toBegin ∧
      (if a.isStep then 1 else 0) + u.task.stepsLeft ≤ t.task.stepsLeft) := by
  obtain ⟨inLoop, asked⟩ := closing
  have mark := step.mark
  cases step with
  | stop holder =>
    exact .inr ⟨⟨inLoop, .inl rfl⟩, by simp [Event.isReturn], by simp [Event.isBegun],
      by simp [Action.isStep]⟩
  | load | reset | stopCall | connect | cycle | runSteps | run | cycled => cases inLoop
  | spent | found =>
    exact .inr ⟨⟨trivial, .inr rfl⟩, by simp [Event.isReturn], Nat.le_refl _, Nat.le_refl _⟩
  | clear _ going =>
    rcases asked with asked | leaving
    · rw [stopRequested, going] at asked
      cases asked
    · cases leaving
  | leave => exact .inl ⟨_, rfl, rfl⟩
  | @proceed s t h stage next loop ran =>
    -- A cycle that is to begin has begun after its first step, and is counted by that event.
    obtain ⟨later, less⟩ := Stage.stepsLeft_of_run ran
    rw [Stage.foldl_mark_events, asked.resolve_right (by simp)] at mark
    refine .inr ⟨⟨?_, .inl mark⟩, fun _ => Stage.isReturn_of_mem_events, ?_, ?_⟩
    · cases loop with
      | none => cases inLoop
      | some left => trivial
    · rw [Stage.countP_events h s stage loop, Stage.toBegin_of_isStart_eq_false later]
      exact Nat.le_refl _
    · simp only [Action.isStep, Task.stepsLeft, if_true]
      omega
  | @finished s t h stage flow left ran | @failed s t h stage flow left ran =>
    have some_left := Stage.stepsLeft_pos stage
    rw [Stage.foldl_mark_events, asked.resolve_right (by simp)] at mark
    refine .inr ⟨⟨trivial, .inl mark⟩, fun _ => Stage.isReturn_of_mem_events, ?_, ?_⟩
    · rw [Stage.countP_events h s stage (some left)]
      exact Nat.le_refl _
    · simp only [Action.isStep, Task.stepsLeft, if_true]
      omega

theorem Closing.stepsLeft_pos {t : Thread σ} (closing : t.Closing) : 0 < t.task.stepsLeft := by
  obtain ⟨s, task⟩ := t
  cases task with
  | idle => cases closing.1
  | look | cycle | leave => simp [Task.stepsLeft]

/-- From when it is asked to stop, a loop begins no cycle but the one that it may no longer
refuse, and it has returned after few steps of its own. -/
theorem Closing.run {t v : Thread σ} {as : List (Action σ)} {es : List Event}
    (closing : t.Closing) (run : Run t as es v) :
    (untilReturn es).countP Event.isBegun ≤ t.task.toBegin ∧
      (t.task.stepsLeft ≤ as.countP Action.isStep → ∃ r, .returned r ∈ es) := by
  induction run with
  | nil =>
    have := closing.stepsLeft_pos
    refine ⟨Nat.zero_le _, fun enough => ?_⟩
    rw [List.countP_nil] at enough
    omega
  | @cons t u v a as es fs step _ ih =>
    rcases closing.step step with ⟨r, -, rfl⟩ | ⟨closing, unreturned, begun, left⟩
    · exact ⟨Nat.zero_le _, fun _ => ⟨r, List.mem_append_left _ (List.mem_singleton_self _)⟩⟩
    · obtain ⟨few, returns⟩ := ih closing
      have until_return : untilReturn (es ++ fs) = es ++ untilReturn fs := by
        refine List.takeWhile_append_of_pos fun e mem => ?_
        rw [unreturned e mem]
        rfl
      constructor
      · rw [until_return, List.countP_append]
        omega
      · rw [List.countP_cons]
        intro enough
        obtain ⟨r, mem⟩ := returns (by omega)
        exact ⟨r, List.mem_append_right _ mem⟩

end Thread

/-! ### Loops that end early -/

def Budget.plus (n : Nat) : Budget → Budget
  | .cycles left => .cycles (left + n)
  | .unbounded => .unbounded

theorem Budget.plus_of_spend {budget left : Budget} (spent : budget.spend = some left) (n : Nat) :
    left.plus (n + 1) = budget.plus n := by
  cases budget with
  | unbounded =>
    cases spent
    rfl
  | cycles k =>
    cases k with
    | zero => cases spent
    | succ k =>
      cases spent
      exact congrArg Budget.cycles (by omega)

theorem Budget.plus_of_spend_eq_none {budget : Budget} (spent : budget.spend = none) (n : Nat) :
    budget.plus n = .cycles n := by
  cases budget with
  | unbounded => cases spent
  | cycles k =>
    cases k with
    | zero => exact congrArg Budget.cycles (Nat.zero_add n)
    | succ k => cases spent

namespace Thread

/-- How a loop with a budget of `whole` stands that has come to the events: the cycles that have
begun and those left make up the whole, unless the loop has found a request. -/
def Spends (whole : Budget) (es : List Event) (t : Thread σ) : Prop :=
  match t.task with
  | .look _ budget => budget.plus (es.countP Event.isBegun) = whole
  | .cycle h stage (some left) =>
    left.plus (es.countP Event.isBegun + (Task.cycle h stage (some left)).toBegin) = whole
  | .leave (.ok _) => whole = .cycles (es.countP Event.isBegun) ∨ .looked true ∈ es
  | .leave (.error _) => True
  | .idle | .cycle _ _ none => False

theorem Spends.step {whole : Budget} {t u : Thread σ} {a : Action σ} {es fs : List Event}
    (spends : t.Spends whole es) (step : Step t a fs u) :
    (∃ r, .returned r ∈ fs) ∨ u.Spends whole (es ++ fs) := by
  cases step with
  | @stop s task holder =>
    right
    have begun : (es ++ [Event.asked]).countP Event.isBegun = es.countP Event.isBegun := by
      simp [Event.isBegun]
    unfold Spends at spends ⊢
    simp only [begun, List.mem_append]
    cases task with
    | leave r =>
      cases r with
      | ok => exact spends.imp_right .inl
      | error f => trivial
    | cycle h stage loop => cases loop <;> exact spends
    | idle | look => exact spends
  | load | reset | stopCall | connect | cycle | runSteps | run | cycled => cases spends
  | spent none_left =>
    right
    refine .inl ?_
    rw [List.append_nil, ← Budget.plus_of_spend_eq_none none_left]
    exact Eq.symm spends
  | found => exact .inr (.inr (List.mem_append_right _ (List.mem_singleton_self _)))
  | clear more =>
    right
    have begun : (es ++ [Event.looked false]).countP Event.isBegun = es.countP Event.isBegun := by
      simp [Event.isBegun]
    refine Eq.trans ?_ spends
    rw [begun]
    exact Budget.plus_of_spend more _
  | @proceed s t h stage next loop ran =>
    right
    cases loop with
    | none => cases spends
    | some left =>
      refine Eq.trans ?_ spends
      rw [List.countP_append, Stage.countP_events h s stage (some left),
        Stage.toBegin_of_isStart_eq_false (Stage.stepsLeft_of_run ran).1]
      rfl
  | @finished s t h stage flow left ran =>
    right
    refine Eq.trans ?_ spends
    rw [List.countP_append, Stage.countP_events h s stage (some left)]
  | failed => exact .inr trivial
  | leave => exact .inl ⟨_, List.mem_singleton_self _⟩

theorem Spends.run {whole : Budget} {t v : Thread σ} {as : List (Action σ)} {es fs : List Event}
    (spends : t.Spends whole es) (run : Run t as fs v) (unreturned : ∀ r, .returned r ∉ fs) :
    v.Spends whole (es ++ fs) := by
  induction run generalizing es with
  | nil =>
    rw [List.append_nil]
    exact spends
  | cons step _ ih =>
    rcases spends.step step with ⟨r, mem⟩ | spends
    · exact absurd (List.mem_append_left _ mem) (unreturned r)
    · rw [← List.append_assoc]
      exact ih spends fun r mem => unreturned r (List.mem_append_right _ mem)

end Thread

end ChipEight
