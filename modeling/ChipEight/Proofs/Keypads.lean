import ChipEight.Host.Console
import ChipEight.Proofs.Turns
/-!
# Scripted keypads

A keypad is scripted if the state of the devices tells all that it will report, one answer each
time it is looked at.  A turn takes as many answers off the script as it looks at the keypad, and
nothing else does (`Host.Scripted.after`).
-/

namespace ChipEight

variable {σ : Type}

/-! ### What the use of devices keeps -/

/-- What is true of the world stays true when something is recorded and when a device is used. -/
structure Host.Keeps (h : Host σ) (P : World σ → Prop) : Prop where
  emit : ∀ r w, P w → P (w.emit r)
  refresh : ∀ f w, P w → P (w.accept (h.refresh f w.devices))
  beep : ∀ w, P w → P (w.accept (h.beep w.devices))
  poll : ∀ w, P w → P (w.poll h).2
  tick : ∀ w, P w → P (w.tick h).2

namespace Host.Keeps

variable {h : Host σ} {P : World σ → Prop}

theorem askFor (keeps : h.Keeps P) {w : World σ} (held : P w) (i : Instr) : P (w.askFor h i).2 := by
  unfold World.askFor
  split
  · exact keeps.poll w held
  · exact held

theorem execute (keeps : h.Keeps P) {w : World σ} (held : P w) (op : Opcode) (m : Machine) :
    P (m.execute h op w).2 := by
  have run := m.execution h op w
  generalize m.execute h op w = result at run
  cases run with
  | undecoded => exact held
  | blocked => exact keeps.emit _ _ held
  | done => exact keeps.askFor (keeps.emit _ _ held) _

theorem present (keeps : h.Keeps P) {s : Session σ} (held : P s.world) :
    P (s.present h).world := by
  unfold Session.present
  split
  · exact keeps.refresh _ _ held
  · exact held

theorem passTime (keeps : h.Keeps P) {s : Session σ} (held : P s.world) :
    P (s.passTime h).world := by
  have ticked := keeps.tick s.world held
  unfold Session.passTime Session.elapse Session.countDown
  dsimp only
  split
  · split
    · exact keeps.beep _ (keeps.emit _ _ ticked)
    · exact ticked
  · exact ticked

theorem cycle (keeps : h.Keeps P) {s : Session σ} (held : P s.world) : P (s.cycle h).2.world := by
  have run := s.course h
  generalize s.cycle h = result at run
  cases run with
  | outOfRange => exact keeps.emit _ _ held
  | @fault op f w mode fetched executed =>
    have ran := keeps.execute held op s.vm.machine.advance
    rw [executed] at ran
    exact keeps.emit _ _ ran
  | @instr op flow m w mode fetched executed =>
    have ran := keeps.execute held op s.vm.machine.advance
    rw [executed] at ran
    exact keeps.passTime (keeps.present ran)
  | @noKey r w mode polled =>
    have looked := keeps.poll s.world held
    rw [polled] at looked
    exact keeps.passTime looked
  | @key r k w mode polled =>
    have looked := keeps.poll s.world held
    rw [polled] at looked
    exact keeps.passTime (keeps.emit _ _ looked)

end Host.Keeps

/-! ### Scripts -/

/-- The keypad answers from a script: `script d n` is its answer when it has been looked at `n`
more times. -/
structure Host.Scripted (h : Host σ) (script : σ → Nat → Option Key) : Prop where
  answer : ∀ d, (h.poll d).1 = script d 0
  poll : ∀ d n, script (h.poll d).2.devices n = script d (n + 1)
  refresh : ∀ f d, script (h.refresh f d).devices = script d
  beep : ∀ d, script (h.beep d).devices = script d
  tick : ∀ d, script (h.tick d).2.devices = script d

namespace Host.Scripted

variable {h : Host σ} {script : σ → Nat → Option Key}

/-- The answers that a watched keypad has still to give are those behind the calls made so far. -/
theorem watched_keeps (scripted : h.Scripted script) (answers : Nat → Option Key) :
    h.watched.Keeps fun w => ∀ n, script w.devices.devices n =
      answers (n + w.devices.calls.countP DeviceCall.isPoll) where
  emit r w held := held
  refresh f w held := by
    intro n
    simpa [World.accept, watched, Reply.watched, scripted.refresh, DeviceCall.isPoll] using held n
  beep w held := by
    intro n
    simpa [World.accept, watched, Reply.watched, scripted.beep, DeviceCall.isPoll] using held n
  poll w held := by
    intro n
    have next := held (n + 1)
    simpa [World.poll, World.accept, watched, Reply.watched, scripted.poll, DeviceCall.isPoll,
      Nat.add_assoc, Nat.add_comm 1] using next
  tick w held := by
    intro n
    simpa [World.tick, World.accept, watched, Reply.watched, scripted.tick, DeviceCall.isPoll]
      using held n

/-- A turn takes one answer off the script each time it looks at the keypad. -/
theorem after (turn : Turn σ) (scripted : turn.host.Scripted script) (n : Nat) :
    script turn.after.world.devices n =
      script turn.session.world.devices (n + turn.calls.countP DeviceCall.isPoll) := by
  have kept := (scripted.watched_keeps (script turn.session.world.devices)).cycle
    (s := turn.session.watched []) (fun n => rfl) n
  rw [Session.watched_cycle] at kept
  rw [turn.calls_eq]
  exact kept

theorem key (turn : Turn σ) (scripted : turn.host.Scripted script) :
    turn.key = script turn.session.world.devices 0 := scripted.answer _

end Host.Scripted

/-- What the keypad of a console will report: the list, and then always the same. -/
def Console.answers (c : Console) (n : Nat) : Option Key := c.scriptedKeys[n]?.getD c.heldKey

/-- A console has a scripted keypad, whatever its clock and its screen do. -/
theorem Script.host_scripted (s : Script) : s.host.Scripted Console.answers where
  answer c := by
    simp only [host, Console.poll, Console.answers]
    split <;> rename_i entries <;> rw [entries] <;> rfl
  poll c n := by
    simp only [host, Console.poll, Console.answers]
    split <;> rename_i entries <;> rw [entries] <;> rfl
  refresh f c := by
    simp only [host, Console.refresh]
    split <;> rfl
  beep c := by
    simp only [host, Console.beep]
    split <;> rfl
  tick c := rfl

end ChipEight
