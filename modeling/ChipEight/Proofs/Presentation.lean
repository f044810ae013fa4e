import ChipEight.Host.Console
import ChipEight.Instr.Encoding
import ChipEight.Proofs.FaultAtomicity
import ChipEight.Proofs.Sessions
import ChipEight.Proofs.Sprites
/-!
# The frame and the screen

A machine marks its frame when it changes and shows it at the end of the cycle.  A host
`ShowsOn` a screen if the screen keeps what it was shown last.  As long as the same screen is in
use, it has the frame of every machine whose frame bears no mark (`frames_shown`).
-/

namespace ChipEight

variable {σ : Type}

/-! ### The mark on the frame -/

namespace Machine

theorem fillRegs_frame (m : Machine) (x : Register) : (m.fillRegs x).frame = m.frame := by
  simp only [fillRegs]

theorem fillRegs_dirty (m : Machine) (x : Register) : (m.fillRegs x).dirty = m.dirty := by
  simp only [fillRegs]

theorem skipIf_frame (m : Machine) (condition : Bool) :
    (m.skipIf condition).frame = m.frame := by
  cases condition <;> rfl

theorem skipIf_dirty (m : Machine) (condition : Bool) :
    (m.skipIf condition).dirty = m.dirty := by
  cases condition <;> rfl

/-- The points of a sprite lie on different pixels, so that flipping them changes the frame. -/
theorem flipPoints_frame_ne_iff (m : Machine) (x y : UInt8) (rows : Fin 16) :
    (m.flipPoints (m.spritePoints x y rows.val)).frame ≠ m.frame ↔
      m.spritePoints x y rows.val ≠ [] := by
  have few := rows.isLt
  have apart : ((m.spritePoints x y rows.val).map Point.index).Nodup :=
    Sprite.nodup_index (by rw [Memory.length_read]; omega) x.toNat y.toNat
  exact not_congr (Frame.flipAll_eq_self_iff apart)

end Machine

namespace Instr

open Machine

theorem dirty_of_exec {key : Option Key} {m m' : Machine} {i : Instr} {flow : Flow}
    (effect : i.exec key m = .ok (flow, m')) :
    m'.dirty = true ↔ m.dirty = true ∨ i = .clear ∨ m'.frame ≠ m.frame := by
  have quiet (no : i ≠ .clear) (dirty : m'.dirty = m.dirty) (frame : m'.frame = m.frame) :
      m'.dirty = true ↔ m.dirty = true ∨ i = .clear ∨ m'.frame ≠ m.frame := by
    simp [no, dirty, frame]
  cases i with
  | clear =>
    cases effect
    simp [clearFrame]
  | draw x y rows =>
    simp only [exec] at effect
    split at effect
    · cases effect
      rw [flipPoints_frame_ne_iff]
      simp [flipPoints]
    · cases effect
  | ret =>
    simp only [exec] at effect
    split at effect
    · cases effect
      exact quiet (by simp) rfl rfl
    · cases effect
  | call a =>
    simp only [exec] at effect
    split at effect
    · cases effect
      exact quiet (by simp) rfl rfl
    · cases effect
  | decimal x | store x =>
    simp only [exec] at effect
    split at effect
    · cases effect
      exact quiet (by simp) rfl rfl
    · cases effect
  | fill x =>
    simp only [exec] at effect
    split at effect
    · cases effect
      exact quiet (by simp) (fillRegs_dirty m x) (fillRegs_frame m x)
    · cases effect
  | skipEq x b | skipNe x b | skipEqReg x y | skipNeReg x y | skipKey x | skipNoKey x =>
    cases effect
    exact quiet (by simp) (skipIf_dirty ..) (skipIf_frame ..)
  | _ =>
    cases effect
    exact quiet (by simp) rfl rfl

end Instr

/-! ### What a screen was shown -/

/-- The screen, as `shown` reads it off the devices, keeps the frame that it was shown last. -/
structure Host.ShowsOn (h : Host σ) (shown : σ → Option Frame) : Prop where
  refresh : ∀ f d, shown (h.refresh f d).devices = some f
  beep : ∀ d, shown (h.beep d).devices = shown d
  poll : ∀ d, shown (h.poll d).2.devices = shown d
  tick : ∀ d, shown (h.tick d).2.devices = shown d

/-- The same screen is in use during the call, and still there if other devices come. -/
def Call.UsesScreen (shown : σ → Option Frame) (s : Session σ) : Call σ → Prop
  | .connect devices => shown devices = shown s.world.devices
  | .cycle h | .runSteps h _ | .run h _ => h.ShowsOn shown
  | .load _ | .reset | .stop => True

theorem Call.UsesScreen.showsOn {shown : σ → Option Frame} {s : Session σ} {c : Call σ}
    {h : Host σ} (uses : c.UsesScreen shown s) (host : c.host? = some h) : h.ShowsOn shown := by
  cases c with
  | load | reset | stop | connect => cases host
  | cycle | runSteps | run =>
    cases host
    exact uses

def DeviceCall.frame? : DeviceCall → Option Frame
  | .refresh frame => some frame
  | .beep | .poll _ | .tick _ => none

/-- The frame that was shown last, according to the list of calls. -/
def Watched.lastFrame? (d : Watched σ) : Option Frame :=
  (d.calls.filterMap DeviceCall.frame?).getLast?

/-- Any screen is kept by watching it. -/
theorem Host.watched_showsOn (h : Host σ) : h.watched.ShowsOn Watched.lastFrame? where
  refresh f d := by
    simp [Watched.lastFrame?, watched, Reply.watched, DeviceCall.frame?]
  beep d := by
    simp [Watched.lastFrame?, watched, Reply.watched, DeviceCall.frame?]
  poll d := by
    simp [Watched.lastFrame?, watched, Reply.watched, DeviceCall.frame?]
  tick d := by
    simp [Watched.lastFrame?, watched, Reply.watched, DeviceCall.frame?]

/-- The frame that a screen was shown last, if it was shown any. -/
def Screen.lastFrame? (s : Screen) : Option Frame :=
  if s.frames = 0 then none else some s.frame

/-- Whatever is read off a screen without a window, as long as it is not off, is kept by it if it
is the frame that is shown and does not change with a beep. -/
theorem Script.host_showsOn_of {script : Script} {view : Screen → Option Frame}
    (on : script.screenOff = false) (showFrame : ∀ s f, view (Screen.showFrame s f) = some f)
    (beep : ∀ s, view (Screen.beep s) = view s) : script.host.ShowsOn fun c => view c.screen where
  refresh f c := by
    simp only [host, Console.refresh, on]
    exact showFrame c.screen f
  beep c := by
    simp only [host, Console.beep, on]
    exact beep c.screen
  poll c := by
    simp only [host, Console.poll]
    split <;> rfl
  tick c := rfl

/-- A screen without a window keeps its frame, as long as it is not off. -/
theorem Script.host_showsOn {script : Script} (on : script.screenOff = false) :
    script.host.ShowsOn fun c => c.screen.lastFrame? := by
  apply host_showsOn_of on
  · intro s f
    simp [Screen.lastFrame?, Screen.showFrame]
  · intro s
    rfl

namespace Host.ShowsOn

variable {h : Host σ} {shown : σ → Option Frame}

theorem askFor (shows : h.ShowsOn shown) (w : World σ) (i : Instr) :
    shown (w.askFor h i).2.devices = shown w.devices := by
  unfold World.askFor
  split
  · exact shows.poll w.devices
  · rfl

theorem elapse (shows : h.ShowsOn shown) (millis : Float) (s : Session σ) :
    shown (s.elapse h millis).world.devices = shown s.world.devices := by
  by_cases due : s.vm.elapsed + millis > Platform.timerPeriod
  · rw [show s.elapse h millis = s.countDown h from if_pos due]
    unfold Session.countDown
    split
    · exact shows.beep _
    · rfl
  · rw [show s.elapse h millis = _ from if_neg due]

theorem passTime (shows : h.ShowsOn shown) (s : Session σ) :
    shown (s.passTime h).world.devices = shown s.world.devices := by
  unfold Session.passTime
  rw [shows.elapse]
  exact shows.tick s.world.devices

end Host.ShowsOn

namespace Session

/-- Unless its frame is marked, the screen has it. -/
def UpToDate (shown : σ → Option Frame) (s : Session σ) : Prop :=
  s.vm.machine.dirty = false → shown s.world.devices = some s.vm.machine.frame

variable {h : Host σ} {shown : σ → Option Frame}

theorem UpToDate.present (shows : h.ShowsOn shown) {s : Session σ} (upToDate : s.UpToDate shown) :
    (s.present h).UpToDate shown := by
  intro _
  unfold Session.present
  split
  · exact shows.refresh ..
  · rename_i clean
    exact upToDate (Bool.not_eq_true _ ▸ clean)

theorem UpToDate.passTime (shows : h.ShowsOn shown) {s : Session σ}
    (upToDate : s.UpToDate shown) : (s.passTime h).UpToDate shown := by
  obtain ⟨_, _, _, vm⟩ := passTime_vm h s
  unfold UpToDate
  rw [vm, shows.passTime]
  exact upToDate

theorem UpToDate.cycle (shows : h.ShowsOn shown) {s : Session σ} (upToDate : s.UpToDate shown) :
    (s.cycle h).2.UpToDate shown := by
  have run := s.course h
  generalize s.cycle h = result at run
  cases run with
  | outOfRange => exact upToDate
  | @fault op f w mode fetched executed =>
    have ran := s.vm.machine.advance.execution h op s.world
    rw [executed] at ran
    cases ran <;> exact upToDate
  | @noKey r w waiting polled =>
    refine UpToDate.passTime shows fun clean => ?_
    have kept := shows.poll s.world.devices
    rw [← upToDate clean, ← kept, show w = (s.world.poll h).2 by rw [polled]]
    rfl
  | @key r k w waiting polled =>
    refine UpToDate.passTime shows fun clean => ?_
    have kept := shows.poll s.world.devices
    change shown w.devices = some s.vm.machine.frame
    rw [← upToDate clean, ← kept, show w = (s.world.poll h).2 by rw [polled]]
    rfl
  | @instr op flow m w mode fetched executed =>
    refine .passTime shows (.present shows fun clean => ?_)
    have ran := s.vm.machine.advance.execution h op s.world
    rw [executed] at ran
    cases ran with
    | done decoded _ effect =>
      -- What bears no mark afterwards bore none before, and is the frame that it was.
      have marked := Instr.dirty_of_exec effect
      change m.dirty = false at clean
      rw [clean] at marked
      simp only [Bool.false_eq_true, false_iff, not_or, ne_eq, not_not] at marked
      obtain ⟨before, -, same⟩ := marked
      change shown (World.askFor ..).2.devices = some m.frame
      rw [shows.askFor, same]
      exact upToDate (Bool.not_eq_true _ ▸ before)

theorem UpToDate.perform {s t : Session σ} {c : Call σ} (uses : c.UsesScreen shown s)
    (upToDate : s.UpToDate shown) (performed : s.perform c = some t) : t.UpToDate shown := by
  refine perform_induction_of_host (P := UpToDate shown) ?load ?reset (fun _ held => held)
    ?connect (fun h host _ held => held.cycle (uses.showsOn host)) (fun _ held => held)
    (fun _ _ held => held) upToDate performed
  case load =>
    intro s program held
    unfold Session.load Machine.load
    split
    · exact held
    · rename_i loaded
      split at loaded
      · cases loaded
        intro clean
        cases clean
      · cases loaded
  case reset =>
    intro s _ clean
    cases clean
  case connect =>
    rintro devices rfl clean
    exact (show shown devices = _ from uses).trans (upToDate clean)

def KeepsScreen (shown : σ → Option Frame) : Session σ → List (Call σ) → Prop
  | _, [] => True
  | s, c :: rest =>
    c.UsesScreen shown s ∧ ∀ t, s.perform c = some t → t.KeepsScreen shown rest

theorem UpToDate.performAll {s t : Session σ} {calls : List (Call σ)}
    (keeps : s.KeepsScreen shown calls) (upToDate : s.UpToDate shown)
    (performed : s.performAll calls = some t) : t.UpToDate shown := by
  induction calls generalizing s with
  | nil =>
    cases performed
    exact upToDate
  | cons c rest ih =>
    obtain ⟨uses, others⟩ := keeps
    obtain ⟨u, first, last⟩ := Option.bind_eq_some_iff.1 performed
    exact ih (others u first) (upToDate.perform uses first) last

/-! ### What a cycle shows -/

/-- The frames that a watched cycle shows, in order. -/
def framesShown (h : Host σ) (s : Session σ) : List Frame :=
  ((s.watched []).cycle h.watched).2.world.devices.calls.filterMap DeviceCall.frame?

theorem framesShown_eq (h : Host σ) (s : Session σ) :
    s.framesShown h = (s.deviceCalls h).filterMap DeviceCall.frame? := by
  rw [framesShown, watched_cycle]
  rfl

theorem passTimeCalls_frames (h : Host σ) (s : Session σ) :
    (s.passTimeCalls h).filterMap DeviceCall.frame? = [] := by
  unfold passTimeCalls elapseCalls
  split <;> rfl

theorem framesShown_of_error {s : Session σ} {f : Fault} (failed : (s.cycle h).1 = .error f) :
    s.framesShown h = [] := by
  rw [framesShown_eq, deviceCalls_of_cycle_eq_error (Prod.ext failed rfl)]
  rfl

theorem framesShown_of_waiting {s : Session σ} {r : Register}
    (waiting : s.vm.mode = .awaitingKey r) : s.framesShown h = [] := by
  rw [framesShown_eq]
  simp only [deviceCalls, work, waiting, workCalls, List.filterMap_append, passTimeCalls_frames]
  rfl

theorem framesShown_of_executed {s : Session σ} {op : Opcode} {flow : Flow} {m : Machine}
    {w : World σ} (mode : s.vm.mode = .fetching) (fetched : s.vm.machine.fetch? = some op)
    (executed : s.vm.machine.advance.execute h op s.world = (.ok (flow, m), w)) :
    s.framesShown h = if m.dirty then [m.frame] else [] := by
  have polls : (Machine.deviceCalls h op s.world).filterMap DeviceCall.frame? = [] := by
    unfold Machine.deviceCalls Instr.deviceCalls
    repeat' split
    all_goals rfl
  rw [framesShown_eq]
  simp only [deviceCalls, work, mode, workCalls, step, fetched, executed, stepCalls, presentCalls,
    List.filterMap_append, passTimeCalls_frames, polls, List.nil_append, List.append_nil]
  split <;> rfl

theorem frame_of_waiting {s : Session σ} {r : Register} (waiting : s.vm.mode = .awaitingKey r) :
    (s.cycle h).2.vm.machine.dirty = s.vm.machine.dirty ∧
      (s.cycle h).2.vm.machine.frame = s.vm.machine.frame := by
  have run := s.course h
  generalize s.cycle h = result at run
  cases run with
  | outOfRange mode | fault mode | instr mode =>
    rw [waiting] at mode
    cases mode
  | @noKey r w =>
    obtain ⟨_, _, _, vm⟩ := passTime_vm h { s with world := w }
    rw [vm]
    exact ⟨rfl, rfl⟩
  | @key r k w =>
    obtain ⟨_, _, _, vm⟩ := passTime_vm h
      (s.afterInstr .next (s.vm.machine.setReg r k.toByte) (w.emit (.keyArrived k r)))
    rw [vm]
    exact ⟨rfl, rfl⟩

theorem shows_of_executed {s : Session σ} {flow : Flow} (mode : s.vm.mode = .fetching)
    (cycled : (s.cycle h).1 = .ok flow) :
    ∃ i key m, s.vm.machine.fetch? = some (Instr.encode i) ∧
      i.exec key s.vm.machine.advance = .ok (flow, m) ∧
      s.framesShown h = (if m.dirty then [m.frame] else []) ∧
      (m.dirty = true ↔ s.vm.machine.dirty = true ∨ i = .clear ∨ m.frame ≠ s.vm.machine.frame) ∧
      (s.cycle h).2.vm.machine.dirty = false ∧ (s.cycle h).2.vm.machine.frame = m.frame := by
  have run := s.course h
  generalize s.cycle h = result at run cycled
  cases run with
  | outOfRange | fault => cases cycled
  | noKey waiting | key waiting =>
    rw [waiting] at mode
    cases mode
  | @instr op flow m w mode fetched executed =>
    cases cycled
    have shows := framesShown_of_executed mode fetched executed
    have ran := s.vm.machine.advance.execution h op s.world
    rw [executed] at ran
    cases ran with
    | @done i _ _ decoded _ effect =>
      obtain ⟨_, _, _, vm⟩ := passTime_vm h ((s.afterInstr flow m _).present h)
      have mark := Instr.dirty_of_exec effect
      refine ⟨i, _, m, ?_, effect, shows, mark, ?_, ?_⟩
      · rw [fetched, Instr.encode_of_decode decoded]
      · rw [vm, present_vm]
      · rw [vm, present_vm]
        rfl

end Session

/-- **The screen never misses a frame.**  As long as the same screen is in use, it has the frame
of every machine whose frame bears no mark; and every host has such a screen when it is watched.
A cycle that waits for a key or faults shows nothing and leaves the frame and its mark alone.
Another cycle shows the frame that its instruction left, once, if it bears a mark, and takes the
mark away; the mark was there before, or the instruction cleared the frame or changed it. -/
theorem frames_shown (shown : σ → Option Frame) :
    (∀ config stream devices calls s,
      (Session.start config stream devices).KeepsScreen shown calls →
      (Session.start config stream devices).performAll calls = some s →
      s.vm.machine.dirty = false → shown s.world.devices = some s.vm.machine.frame) ∧
    (∀ h : Host σ, h.watched.ShowsOn Watched.lastFrame?) ∧
    ∀ (h : Host σ) (s : Session σ),
      ((s.vm.mode ≠ .fetching ∨ ∃ f, (s.cycle h).1 = .error f) →
        s.framesShown h = [] ∧ (s.cycle h).2.vm.machine.dirty = s.vm.machine.dirty ∧
          (s.cycle h).2.vm.machine.frame = s.vm.machine.frame) ∧
      (∀ flow, s.vm.mode = .fetching → (s.cycle h).1 = .ok flow →
        ∃ i key m, s.vm.machine.fetch? = some (Instr.encode i) ∧
          i.exec key s.vm.machine.advance = .ok (flow, m) ∧
          s.framesShown h = (if m.dirty then [m.frame] else []) ∧
          (m.dirty = true ↔
            s.vm.machine.dirty = true ∨ i = .clear ∨ m.frame ≠ s.vm.machine.frame) ∧
          (s.cycle h).2.vm.machine.dirty = false ∧ (s.cycle h).2.vm.machine.frame = m.frame) ∧
      (s.vm.machine.dirty = false → s.framesShown h ≠ [] →
        s.vm.machine.fetch? = some 0x00E0 ∨
          (s.cycle h).2.vm.machine.frame ≠ s.vm.machine.frame) := by
  refine ⟨?_, Host.watched_showsOn, ?_⟩
  · intro config stream devices calls s keeps performed
    have fresh : (Session.start config stream devices).UpToDate shown := by
      intro clean
      cases clean
    exact fresh.performAll keeps performed
  intro h s
  have idle (quiet : s.vm.mode ≠ .fetching ∨ ∃ f, (s.cycle h).1 = .error f) :
      s.framesShown h = [] ∧ (s.cycle h).2.vm.machine.dirty = s.vm.machine.dirty ∧
        (s.cycle h).2.vm.machine.frame = s.vm.machine.frame := by
    rcases quiet with waiting | ⟨f, failed⟩
    · cases mode : s.vm.mode with
      | fetching => exact absurd mode waiting
      | awaitingKey r => exact ⟨Session.framesShown_of_waiting mode, Session.frame_of_waiting mode⟩
    · obtain ⟨-, vm, -⟩ := Session.eq_of_cycle_eq_error (Prod.ext failed rfl)
      rw [vm]
      exact ⟨Session.framesShown_of_error failed, rfl, rfl⟩
  refine ⟨idle, fun flow => Session.shows_of_executed, ?_⟩
  intro clean some_frame
  by_cases quiet : s.vm.mode ≠ .fetching ∨ ∃ f, (s.cycle h).1 = .error f
  · exact absurd (idle quiet).1 some_frame
  · obtain ⟨mode, good⟩ := not_or.1 quiet
    cases cycled : (s.cycle h).1 with
    | error f => exact absurd ⟨f, cycled⟩ good
    | ok flow =>
      obtain ⟨i, key, m, fetched, -, frames, mark, -, frame⟩ :=
        Session.shows_of_executed (not_not.1 mode) cycled
      have marked : m.dirty = true := by
        by_contra unmarked
        rw [frames, if_neg unmarked] at some_frame
        exact some_frame rfl
      rcases mark.1 marked with before | rfl | changed
      · rw [clean] at before
        cases before
      · exact .inl fetched
      · exact .inr (frame ▸ changed)

/-- A machine that executes `00E0` first has shown a blank frame. -/
theorem frames_shown_cleared :
    let s := ((Session.start { seed := 0 } (.ofSeed 0) ({} : Console)).load [0x00, 0xE0]).2
    let h := Script.host { millis := fun _ => 0.0 }
    let t := (s.cycle h).2
    s.framesShown h = [.blank] ∧ t.vm.machine.dirty = false ∧
      t.world.devices.screen.lastFrame? = some .blank := by
  intro s h t
  have decoded : Instr.decode 0x00E0 = .ok .clear := rfl
  have fetched : s.vm.machine.fetch? = some 0x00E0 :=
    Machine.fetch?_withProgram (.initial (.ofSeed 0)) 0x00 0xE0 []
  have fetching : s.vm.mode = .fetching := rfl
  have cycled : (s.cycle h).1 = .ok .draw :=
    congrArg Prod.fst (Session.cycle_of_exec fetching fetched decoded rfl rfl)
  have shows : h.ShowsOn fun c => c.screen.lastFrame? := Script.host_showsOn rfl
  obtain ⟨upToDate, -, cycles⟩ := frames_shown fun c : Console => c.screen.lastFrame?
  obtain ⟨i, key, m, fetched', effect, frames, -, clean, frame⟩ :=
    (cycles h s).2.1 .draw fetching cycled
  rw [fetched] at fetched'
  have clears : i = .clear := Instr.encode_injective (Option.some.inj fetched').symm
  rw [clears] at effect
  cases effect
  have shown := upToDate { seed := 0 } (.ofSeed 0) {} [.load [0x00, 0xE0], .cycle h] t
    ⟨trivial, fun u loaded => ⟨shows, fun _ _ => trivial⟩⟩ rfl clean
  exact ⟨frames, clean, shown.trans (congrArg some frame)⟩

end ChipEight
