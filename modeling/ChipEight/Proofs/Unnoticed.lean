import ChipEight.Proofs.Execution
/-!
# What cycles do not notice

A change of the world is unnoticed if it leaves the devices alone and records and replies may as
well come before it.  A cycle after such a change is the cycle before it with the change made
afterwards: `World.Unnoticed.cycle`.
-/

namespace ChipEight

variable {σ : Type}

/-- The change leaves the devices alone, and it can be put off. -/
structure World.Unnoticed (change : World σ → World σ) : Prop where
  devices : ∀ w, (change w).devices = w.devices
  emit : ∀ w r, (change w).emit r = change (w.emit r)
  accept : ∀ w r, (change w).accept r = change (w.accept r)

/-- The session in a changed world. -/
def Session.inWorld (s : Session σ) (change : World σ → World σ) : Session σ :=
  { s with world := change s.world }

namespace World.Unnoticed

variable {change : World σ → World σ} (unnoticed : Unnoticed change) (h : Host σ)

include unnoticed

theorem poll (w : World σ) : (change w).poll h = ((w.poll h).1, change (w.poll h).2) := by
  unfold World.poll
  rw [unnoticed.devices]
  exact congrArg (Prod.mk _) (unnoticed.accept ..)

theorem tick (w : World σ) : (change w).tick h = ((w.tick h).1, change (w.tick h).2) := by
  unfold World.tick
  rw [unnoticed.devices]
  exact congrArg (Prod.mk _) (unnoticed.accept ..)

theorem askFor (i : Instr) (w : World σ) :
    (change w).askFor h i = ((w.askFor h i).1, change (w.askFor h i).2) := by
  unfold World.askFor
  split
  · exact unnoticed.poll h w
  · rfl

theorem execute (op : Opcode) (m : Machine) (w : World σ) :
    m.execute h op (change w) = ((m.execute h op w).1, change (m.execute h op w).2) := by
  cases decoded : Instr.decode op with
  | error cause => simp [Machine.execute, decoded]
  | ok i =>
    simp only [Machine.execute_of_decode decoded, unnoticed.emit, unnoticed.askFor]
    cases i.exec ((w.emit (.executing m.currentAddress i)).askFor h i).1 m <;> rfl

theorem step (s : Session σ) :
    (s.inWorld change).step h = ((s.step h).1, (s.step h).2.inWorld change) := by
  have machine : (s.inWorld change).vm = s.vm := rfl
  have world : (s.inWorld change).world = change s.world := rfl
  unfold Session.step
  rw [machine, world]
  cases s.vm.machine.fetch? with
  | none => rfl
  | some op =>
    simp only [unnoticed.execute]
    rcases s.vm.machine.advance.execute h op s.world with ⟨f | ⟨flow, m⟩, w⟩ <;> rfl

theorem awaitKey (r : Register) (s : Session σ) :
    (s.inWorld change).awaitKey h r = ((s.awaitKey h r).1, (s.awaitKey h r).2.inWorld change) := by
  have world : (s.inWorld change).world = change s.world := rfl
  unfold Session.awaitKey
  rw [world, unnoticed.poll]
  rcases s.world.poll h with ⟨_ | key, w⟩
  · rfl
  · simp only [unnoticed.emit]
    rfl

theorem present (s : Session σ) :
    (s.inWorld change).present h = (s.present h).inWorld change := by
  have machine : (s.inWorld change).vm = s.vm := rfl
  have world : (s.inWorld change).world = change s.world := rfl
  unfold Session.present
  rw [machine, world, unnoticed.devices, unnoticed.accept]
  split <;> rfl

theorem work (s : Session σ) :
    (s.inWorld change).work h = ((s.work h).1, (s.work h).2.inWorld change) := by
  have mode : (s.inWorld change).vm.mode = s.vm.mode := rfl
  unfold Session.work
  rw [mode]
  cases s.vm.mode with
  | awaitingKey r => simp only [unnoticed.awaitKey]
  | fetching =>
    simp only [unnoticed.step]
    rcases s.step h with ⟨f | flow, t⟩
    · have world : (t.inWorld change).world = change t.world := rfl
      simp only [world, unnoticed.emit]
      rfl
    · simp only [unnoticed.present]

theorem elapse (millis : Float) (s : Session σ) :
    (s.inWorld change).elapse h millis = (s.elapse h millis).inWorld change := by
  have machine : (s.inWorld change).vm = s.vm := rfl
  have world : (s.inWorld change).world = change s.world := rfl
  unfold Session.elapse Session.countDown
  rw [machine, world]
  by_cases due : s.vm.elapsed + millis > Platform.timerPeriod
  · simp only [due, if_true, unnoticed.emit, unnoticed.devices, unnoticed.accept]
    split <;> rfl
  · simp only [due, if_false]
    rfl

/-- A cycle after the change is the cycle before it, with the change made afterwards. -/
theorem cycle (s : Session σ) :
    (s.inWorld change).cycle h = ((s.cycle h).1, (s.cycle h).2.inWorld change) := by
  unfold Session.cycle
  rw [unnoticed.work]
  rcases s.work h with ⟨f | flow, t⟩
  · rfl
  · have world : (t.inWorld change).world = change t.world := rfl
    simp only [world, unnoticed.tick]
    exact congrArg (Prod.mk _) (unnoticed.elapse h _ { t with world := (t.world.tick h).2 })

end World.Unnoticed

/-- A request to stop is not noticed by cycles. -/
theorem World.unnoticed_stop : World.Unnoticed (World.stop (σ := σ)) where
  devices _ := rfl
  emit _ _ := rfl
  accept _ _ := rfl

/-- The world with older records in front of its log. -/
def World.behind (log : Array Record) (w : World σ) : World σ := { w with log := log ++ w.log }

/-- Neither are the records that are there already. -/
theorem World.unnoticed_behind (log : Array Record) :
    World.Unnoticed (World.behind (σ := σ) log) where
  devices _ := rfl
  emit w r := by
    simp only [World.behind, World.emit, Array.append_push]
  accept w r := by
    simp only [World.behind, World.accept, World.mk.injEq, true_and]
    apply Array.toList_inj.1
    simp

end ChipEight
