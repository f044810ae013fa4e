import ChipEight.Proofs.Timers
import ChipEight.Proofs.TraceReading
import Mathlib.Data.List.Basic
/-!
# The log as a trace of execution

A turn leaves records in the log, and its devices may leave some of their own.  `Turn.moments` lists
the records of the turn among its calls on devices, in the order in which they come, and these
moments, one after the other, make the world that the turn leaves (`Turn.world_after`).  The records
that a turn leaves are so few that they can be listed for each course that it takes, and the
instructions among them, read off their lines, are those that were executed or failed for lack of
stack or memory: `log_lossless`.
-/

namespace ChipEight

variable {σ : Type}

/-! ### Moments -/

/-- Something that happens to the world in a turn. -/
inductive Moment where
  | wrote (r : Record)
  | used (call : DeviceCall)

namespace Moment

def record? : Moment → Option Record
  | .wrote r => some r
  | .used _ => none

def call? : Moment → Option DeviceCall
  | .wrote _ => none
  | .used call => some call

end Moment

/-- What the devices reply to a call. -/
def Host.reply (h : Host σ) (d : σ) : DeviceCall → Reply σ
  | .refresh frame => h.refresh frame d
  | .beep => h.beep d
  | .poll _ => (h.poll d).2
  | .tick _ => (h.tick d).2

namespace World

def undergo (h : Host σ) (w : World σ) : Moment → World σ
  | .wrote r => w.emit r
  | .used call => w.accept (h.reply w.devices call)

/-- What the log receives in a moment: a record of the turn, or the records that the devices add to
their reply. -/
def receives (h : Host σ) (w : World σ) : Moment → List Record
  | .wrote r => [r]
  | .used call => (h.reply w.devices call).log

/-- What the log receives in some moments, one after the other. -/
def story (h : Host σ) : World σ → List Moment → List Record
  | _, [] => []
  | w, moment :: rest => w.receives h moment ++ (w.undergo h moment).story h rest

theorem log_undergo (h : Host σ) (w : World σ) (moment : Moment) :
    (w.undergo h moment).log.toList = w.log.toList ++ w.receives h moment := by
  cases moment with
  | wrote r => exact Array.toList_push
  | used call => exact Array.toList_appendList

theorem story_append (h : Host σ) (w : World σ) (past later : List Moment) :
    w.story h (past ++ later) = w.story h past ++ (past.foldl (undergo h) w).story h later := by
  induction past generalizing w with
  | nil => rfl
  | cons moment rest ih =>
    rw [List.cons_append, story, ih, ← List.append_assoc]
    rfl

theorem log_foldl_undergo (h : Host σ) (w : World σ) (moments : List Moment) :
    (moments.foldl (undergo h) w).log.toList = w.log.toList ++ w.story h moments := by
  induction moments generalizing w with
  | nil => exact (List.append_nil _).symm
  | cons moment rest ih =>
    rw [List.foldl_cons, ih, log_undergo, List.append_assoc]
    rfl

end World

/-- A call on a device, with the record that goes with it: the end of the sound is recorded before
the buzzer sounds, and a key that is waited for when it has come. -/
def Mode.moments (mode : Mode) : DeviceCall → List Moment
  | .beep => [.wrote .soundOver, .used .beep]
  | .poll (some key) =>
    match mode with
    | .awaitingKey r => [.used (.poll (some key)), .wrote (.keyArrived key r)]
    | .fetching => [.used (.poll (some key))]
  | call => [.used call]

namespace Turn

/-- The instruction that a turn fetches, whether it is executed or fails. -/
def attempted? (turn : Turn σ) : Option Executed :=
  match turn.session.vm.mode, turn.session.vm.machine.fetch? with
  | .fetching, some op =>
    (Instr.decode op).toOption.map fun i => ⟨turn.session.vm.machine.pc, i⟩
  | _, _ => none

/-- The moments of a turn: the record of its instruction, its calls on devices with theirs, and the
record of the fault that ends it. -/
def moments (turn : Turn σ) : List Moment :=
  turn.attempted?.toList.map (fun e => .wrote (.executing e.pc e.instr)) ++
    turn.calls.flatMap turn.session.vm.mode.moments ++
    match turn.result with
    | .ok _ => []
    | .error f => [.wrote (.stopped f)]

end Turn

theorem World.world_askFor (h : Host σ) (i : Instr) (w : World σ) (key : Option Key) :
    (w.askFor h i).2 = ((i.looks key).flatMap Mode.fetching.moments).foldl (undergo h) w := by
  unfold askFor Instr.looks
  split
  · cases key with
    | none => rfl
    | some key => rfl
  · rfl

namespace Session

variable {h : Host σ}

theorem world_present (s : Session σ) (mode : Mode) :
    (s.present h).world =
      (s.vm.machine.shows.flatMap mode.moments).foldl (World.undergo h) s.world := by
  unfold present Machine.shows
  split
  · rfl
  · rfl

theorem world_passTime (s : Session σ) (mode : Mode) :
    (s.passTime h).world = ((s.vm.timeCalls (s.world.tick h).1).flatMap mode.moments).foldl
      (World.undergo h) s.world := by
  have ticked : s.world.undergo h (.used (.tick (s.world.tick h).1)) = (s.world.tick h).2 := rfl
  unfold passTime elapse Vm.timeCalls Vm.isDue
  simp only [List.flatMap_cons, Mode.moments, List.singleton_append, List.foldl_cons, ticked]
  by_cases due : s.vm.elapsed + (s.world.tick h).1 > Platform.timerPeriod
  · rw [if_pos due, decide_eq_true due, Bool.true_and, countDown]
    cases s.vm.machine.buzzes with
    | true => rfl
    | false => rfl
  · rw [if_neg due, decide_eq_false due, Bool.false_and]
    rfl

end Session

namespace Turn

variable {turn : Turn σ}

/-- When its work is done, the moments at the end of a turn are those of its time. -/
theorem world_after_of_work {flow : Flow} (worked : (turn.session.work turn.host).1 = .ok flow)
    (mode : Mode) :
    turn.after.world =
      (((turn.session.work turn.host).2.vm.timeCalls turn.millis).flatMap mode.moments).foldl
        (World.undergo turn.host) (turn.session.work turn.host).2.world := by
  have work : turn.session.work turn.host = (.ok flow, (turn.session.work turn.host).2) :=
    Prod.ext worked rfl
  have cycled : turn.session.cycle turn.host =
      (.ok flow, (turn.session.work turn.host).2.passTime turn.host) := by
    rw [Session.cycle, work]
    rfl
  rw [after, cycled]
  exact Session.world_passTime _ mode

theorem attempted?_of_decode {op : Opcode} {i : Instr} (mode : turn.session.vm.mode = .fetching)
    (fetched : turn.session.vm.machine.fetch? = some op) (decoded : Instr.decode op = .ok i) :
    turn.attempted? = some ⟨turn.session.vm.machine.pc, i⟩ := by
  simp only [attempted?, mode, fetched, decoded, Except.toOption, Option.map_some]

theorem attempted?_of_decode_eq_error {op : Opcode} {cause : Cause}
    (fetched : turn.session.vm.machine.fetch? = some op)
    (decoded : Instr.decode op = .error cause) : turn.attempted? = none := by
  unfold attempted?
  rw [fetched]
  split
  · rename_i same
    cases same
    rw [decoded]
    rfl
  · rfl

theorem attempted?_of_fetch?_eq_none (fetched : turn.session.vm.machine.fetch? = none) :
    turn.attempted? = none := by
  unfold attempted?
  rw [fetched]
  cases turn.session.vm.mode <;> rfl

theorem attempted?_of_waiting {r : Register} (mode : turn.session.vm.mode = .awaitingKey r) :
    turn.attempted? = none := by
  simp only [attempted?, mode]

/-- The moments of a turn, one after the other, make the world that it leaves. -/
theorem world_after (turn : Turn σ) :
    turn.after.world = turn.moments.foldl (World.undergo turn.host) turn.session.world := by
  have account := turn.account
  unfold moments
  generalize turn.executed? = did, turn.result = result, turn.after.vm = vm,
    turn.calls = calls at account ⊢
  cases account with
  | outOfRange mode fetched =>
    rw [attempted?_of_fetch?_eq_none fetched]
    simp only [after, Session.cycle, Session.work, mode, Session.step, fetched]
    rfl
  | @refused op cause mode fetched refused =>
    have failed := (Machine.execute_eq_error_iff turn.host op _ turn.session.world).2
      ⟨cause, refused, rfl⟩
    have ran := turn.session.vm.machine.advance.execution turn.host op turn.session.world
    rcases outcome : turn.session.vm.machine.advance.execute turn.host op turn.session.world
      with ⟨result, w⟩
    rw [outcome] at failed ran
    cases failed
    have left : turn.after.world = w.emit (.stopped (.instruction cause
        turn.session.vm.machine.advance.currentAddress op)) := by
      simp only [after, Session.cycle, Session.work, mode, Session.step, fetched, outcome]
    rw [left, Machine.currentAddress_advance]
    cases ran with
    | undecoded decoded =>
      rw [attempted?_of_decode_eq_error fetched decoded]
      rfl
    | blocked decoded =>
      rw [attempted?_of_decode mode fetched decoded, Machine.currentAddress_advance]
      rfl
  | @executed i flow m mode fetched effect =>
    obtain ⟨worked, vm, -⟩ := Session.work_of_exec (h := turn.host) mode fetched effect
    have stepped := Session.step_of_exec fetched effect
    have world : (turn.session.work turn.host).2.world =
        (m.shows.flatMap Mode.fetching.moments).foldl (World.undergo turn.host)
          ((turn.session.world.emit (.executing turn.session.vm.machine.pc i)).askFor
            turn.host i).2 := by
      simp only [Session.work, mode, stepped]
      exact Session.world_present _ .fetching
    rw [world_after_of_work worked .fetching, world, World.world_askFor _ _ _ turn.key, vm,
      attempted?_of_decode mode fetched (Instr.decode_encode i), mode, List.append_nil,
      List.flatMap_append, List.flatMap_append, List.foldl_append, List.foldl_append,
      List.foldl_append]
    rfl
  | waited mode key =>
    obtain ⟨worked, vm, -⟩ := Session.work_of_noKey (h := turn.host) mode key
    have polled : turn.session.world.poll turn.host =
        (none, (turn.session.world.poll turn.host).2) := Prod.ext key rfl
    have world : (turn.session.work turn.host).2.world = (turn.session.world.poll turn.host).2 := by
      simp only [Session.work, mode, Session.awaitKey]
      rw [polled]
    rw [world_after_of_work worked turn.session.vm.mode, world, vm, attempted?_of_waiting mode,
      List.append_nil]
    rfl
  | @keyed r k mode key =>
    obtain ⟨worked, vm, -⟩ := Session.work_of_key (h := turn.host) mode key
    have polled : turn.session.world.poll turn.host =
        (some k, (turn.session.world.poll turn.host).2) := Prod.ext key rfl
    have world : (turn.session.work turn.host).2.world =
        (turn.session.world.poll turn.host).2.emit (.keyArrived k r) := by
      simp only [Session.work, mode, Session.awaitKey]
      rw [polled]
    rw [world_after_of_work worked turn.session.vm.mode, world, vm, attempted?_of_waiting mode,
      List.append_nil, mode]
    rfl

/-! ### The records of a turn -/

/-- What the log receives in a turn. -/
def written (turn : Turn σ) : List Record := turn.session.world.story turn.host turn.moments

theorem log_after (turn : Turn σ) :
    turn.after.world.log.toList = turn.session.world.log.toList ++ turn.written := by
  rw [world_after, World.log_foldl_undergo]
  rfl

/-- The records that are the turn's own. -/
def records (turn : Turn σ) : List Record := turn.moments.filterMap Moment.record?

/-- The buzzer sounds. -/
def buzzes (turn : Turn σ) : Bool := turn.calls.any DeviceCall.isBeep

def soundRecord (turn : Turn σ) : List Record := if turn.buzzes then [.soundOver] else []

end Turn

/-- The record that goes with a call. -/
def Mode.record? (mode : Mode) : DeviceCall → Option Record
  | .beep => some .soundOver
  | .poll (some key) =>
    match mode with
    | .awaitingKey r => some (.keyArrived key r)
    | .fetching => none
  | _ => none

theorem Mode.filterMap_moments (mode : Mode) (calls : List DeviceCall) :
    (calls.flatMap mode.moments).filterMap Moment.record? = calls.filterMap mode.record? ∧
      (calls.flatMap mode.moments).filterMap Moment.call? = calls := by
  induction calls with
  | nil => exact ⟨rfl, rfl⟩
  | cons call rest ih =>
    have one : (mode.moments call).filterMap Moment.record? = (mode.record? call).toList ∧
        (mode.moments call).filterMap Moment.call? = [call] := by
      cases call with
      | beep | refresh | tick => exact ⟨rfl, rfl⟩
      | poll key =>
        cases key with
        | none => exact ⟨rfl, rfl⟩
        | some key =>
          cases mode with
          | fetching | awaitingKey => exact ⟨rfl, rfl⟩
    obtain ⟨records, calls⟩ := ih
    rw [List.flatMap_cons, List.filterMap_append, List.filterMap_append, one.1, one.2, records,
      calls, List.filterMap_cons]
    cases mode.record? call with
    | none => exact ⟨rfl, rfl⟩
    | some r => exact ⟨rfl, rfl⟩

/-- The fault is raised before there is an instruction to be recorded. -/
def Fault.precedesRecord : Fault → Bool
  | .pcOutOfRange _ | .instruction .unsupportedOpcode _ _ | .instruction .reservedRegister _ _ =>
    true
  | .instruction .stackOverflow _ _ | .instruction .stackUnderflow _ _
  | .instruction (.addressOutOfRange _) _ _ => false

theorem Fault.precedesRecord_of_decode {op : Opcode} {cause : Cause}
    (decoded : Instr.decode op = .error cause) (pc : Address) :
    (Fault.instruction cause pc op).precedesRecord = true := by
  rcases Instr.decode_eq_error_iff.1 decoded with ⟨rfl, -⟩ | ⟨rfl, -⟩
  · rfl
  · rfl

theorem Fault.precedesRecord_of_obstacle? {m : Machine} {i : Instr} {cause : Cause}
    (blocked : i.obstacle? m = some cause) (pc : Address) (op : Opcode) :
    (Fault.instruction cause pc op).precedesRecord = false := by
  cases cause with
  | unsupportedOpcode | reservedRegister =>
    cases i <;> simp [Instr.obstacle?, Machine.shortfall?_eq_some_iff] at blocked
  | stackOverflow | stackUnderflow | addressOutOfRange => rfl

namespace Turn

variable {turn : Turn σ}

/-- An opcode that is refused has been recorded as an instruction, unless it is none. -/
theorem attempted?_of_refuses {op : Opcode} {cause : Cause}
    (mode : turn.session.vm.mode = .fetching) (fetched : turn.session.vm.machine.fetch? = some op)
    (refused : turn.session.vm.machine.advance.Refuses op cause) :
    ((Fault.instruction cause turn.session.vm.machine.pc op).precedesRecord = true ∧
        turn.attempted? = none) ∨
      ((Fault.instruction cause turn.session.vm.machine.pc op).precedesRecord = false ∧
        ∃ i, op = Instr.encode i ∧ turn.attempted? = some ⟨turn.session.vm.machine.pc, i⟩) := by
  cases decoded : Instr.decode op with
  | error c =>
    rw [(Machine.refuses_iff_of_decode_eq_error decoded).1 refused]
    exact .inl ⟨Fault.precedesRecord_of_decode decoded _,
      attempted?_of_decode_eq_error fetched decoded⟩
  | ok i =>
    have standing := Instr.encode_of_decode decoded
    rw [← standing] at refused
    exact .inr ⟨Fault.precedesRecord_of_obstacle? (Machine.refuses_encode_iff.1 refused) _ _, i,
      standing.symm, attempted?_of_decode mode fetched decoded⟩

theorem records_eq (turn : Turn σ) : turn.records =
    turn.attempted?.toList.map (fun e => .executing e.pc e.instr) ++
      turn.calls.filterMap turn.session.vm.mode.record? ++
      match turn.result with
      | .ok _ => []
      | .error f => [.stopped f] := by
  unfold records moments
  rw [List.filterMap_append, List.filterMap_append, List.filterMap_map,
    (Mode.filterMap_moments _ _).1]
  cases turn.attempted? <;> cases turn.result <;> rfl

theorem filterMap_timeCalls (mode : Mode) (millis : Float) (vm : Vm) :
    (vm.timeCalls millis).filterMap mode.record? =
      if (vm.timeCalls millis).any DeviceCall.isBeep then [.soundOver] else [] := by
  unfold Vm.timeCalls
  cases vm.isDue millis && vm.machine.buzzes with
  | true => rfl
  | false => rfl

theorem records_of_waiting {r : Register} (mode : turn.session.vm.mode = .awaitingKey r) :
    turn.records = turn.key.toList.map (.keyArrived · r) ++ turn.soundRecord := by
  have account := turn.account
  rw [records_eq, attempted?_of_waiting mode, mode, soundRecord, buzzes]
  generalize turn.executed? = did, turn.result = result, turn.after.vm = vm,
    turn.calls = calls at account ⊢
  cases account with
  | outOfRange mode' | refused mode' | executed mode' => cases mode.symm.trans mode'
  | waited mode' key =>
    rw [key, List.filterMap_cons_none rfl, filterMap_timeCalls]
    simp [DeviceCall.isBeep]
  | @keyed r' k mode' key =>
    have arrived : (Mode.awaitingKey r).record? (.poll (some k)) = some (.keyArrived k r) := rfl
    rw [key, List.filterMap_cons_some arrived, filterMap_timeCalls]
    simp [DeviceCall.isBeep]

theorem records_of_ok {flow : Flow} (mode : turn.session.vm.mode = .fetching)
    (ended : turn.result = .ok flow) :
    ∃ i, turn.session.vm.machine.fetch? = some (Instr.encode i) ∧
      turn.records = .executing turn.session.vm.machine.pc i :: turn.soundRecord := by
  have account := turn.account
  rw [records_eq, mode, soundRecord, buzzes]
  generalize turn.executed? = did, turn.result = result, turn.after.vm = vm,
    turn.calls = calls at account ended ⊢
  cases account with
  | outOfRange | refused => cases ended
  | waited mode' | keyed mode' => cases mode.symm.trans mode'
  | @executed i flow m mode fetched effect =>
    refine ⟨i, fetched, ?_⟩
    -- looks at the keypad and frames go without records
    have looks : (i.looks turn.key).filterMap Mode.fetching.record? = [] ∧
        (i.looks turn.key).any DeviceCall.isBeep = false := by
      unfold Instr.looks
      split
      · cases turn.key <;> exact ⟨rfl, rfl⟩
      · exact ⟨rfl, rfl⟩
    have shows : m.shows.filterMap Mode.fetching.record? = [] ∧
        m.shows.any DeviceCall.isBeep = false := by
      unfold Machine.shows
      split <;> exact ⟨rfl, rfl⟩
    rw [attempted?_of_decode mode fetched (Instr.decode_encode i), List.filterMap_append,
      List.filterMap_append, looks.1, shows.1, filterMap_timeCalls, List.any_append,
      List.any_append, looks.2, shows.2, List.append_nil]
    rfl

theorem records_of_error {f : Fault} (failed : turn.result = .error f) :
    (f.precedesRecord = true → turn.records = [.stopped f]) ∧
    (f.precedesRecord = false → ∃ i, turn.session.vm.machine.fetch? = some (Instr.encode i) ∧
      turn.records = [.executing turn.session.vm.machine.pc i, .stopped f]) := by
  have account := turn.account
  rw [records_eq, calls_of_error failed]
  generalize turn.executed? = did, turn.result = result, turn.after.vm = vm,
    turn.calls = calls at account failed ⊢
  cases account with
  | outOfRange mode fetched =>
    cases failed
    rw [attempted?_of_fetch?_eq_none fetched]
    exact ⟨fun _ => rfl, nofun⟩
  | refused mode fetched refused =>
    cases failed
    rcases attempted?_of_refuses mode fetched refused with
      ⟨early, nothing⟩ | ⟨late, i, rfl, attempted⟩
    · rw [nothing, early]
      exact ⟨fun _ => rfl, nofun⟩
    · rw [attempted, late]
      exact ⟨nofun, fun _ => ⟨i, fetched, rfl⟩⟩
  | executed | waited | keyed => cases failed

/-- The buzzer comes last in a turn, and the record of it right before. -/
theorem moments_of_beep (sounds : .beep ∈ turn.calls) :
    ∃ before, turn.moments = before ++ [.wrote .soundOver, .used .beep] := by
  cases ended : turn.result with
  | error f =>
    rw [calls_of_error ended] at sounds
    cases sounds
  | ok flow =>
    obtain ⟨looks, sounding, made, timeless, beeps⟩ := calls_of_ok ended
    have last : ∃ before, turn.calls = before ++ [.beep] := by
      rcases sounding.eq_nil_or_concat with rfl | ⟨first, call, rfl⟩
      · rw [made, List.mem_append, List.mem_singleton] at sounds
        rcases sounds with look | tick
        · cases timeless _ look
        · cases tick
      · have sound := beeps call (by simp)
        cases call with
        | beep => exact ⟨looks ++ .tick turn.millis :: first, by simp [made]⟩
        | refresh | poll | tick => cases sound
    obtain ⟨before, made⟩ := last
    unfold moments
    rw [ended, made, List.flatMap_append, List.flatMap_singleton, List.append_nil,
      ← List.append_assoc]
    exact ⟨_, rfl⟩

theorem written_of_beep (sounds : .beep ∈ turn.calls) :
    ∃ past d, turn.written = past ++ .soundOver :: (turn.host.beep d).log := by
  obtain ⟨before, moments⟩ := moments_of_beep sounds
  rw [written, moments, World.story_append]
  refine ⟨_, ((before.foldl (World.undergo turn.host) turn.session.world).emit
    .soundOver).devices, congrArg (_ ++ ·) ?_⟩
  exact congrArg (Record.soundOver :: ·) (List.append_nil _)

/-- The calls on devices among the moments of a turn. -/
theorem filterMap_call? (turn : Turn σ) : turn.moments.filterMap Moment.call? = turn.calls := by
  have own : (turn.attempted?.toList.map fun e =>
      Moment.wrote (.executing e.pc e.instr)).filterMap Moment.call? = [] := by
    cases turn.attempted? <;> rfl
  unfold moments
  rw [List.filterMap_append, List.filterMap_append, own, (Mode.filterMap_moments _ _).2]
  cases turn.result <;> exact List.append_nil _

/-! ### What is read off the records -/

/-- The address and the opcode of the instruction that a turn executes, or that fails for want of
stack or memory. -/
def took? (turn : Turn σ) : Option (Address × Opcode) :=
  match turn.result with
  | .ok _ => turn.executed?.map fun e => (e.pc, e.instr.encode)
  | .error (.pcOutOfRange _) => none
  | .error (.instruction cause pc op) =>
    if (Fault.instruction cause pc op).precedesRecord then none else some (pc, op)

theorem took?_eq (turn : Turn σ) :
    turn.took? = turn.attempted?.map fun e => (e.pc, e.instr.encode) := by
  have account := turn.account
  unfold took?
  generalize turn.executed? = did, turn.result = result, turn.after.vm = vm,
    turn.calls = calls at account ⊢
  cases account with
  | outOfRange mode fetched => rw [attempted?_of_fetch?_eq_none fetched, Option.map_none]
  | refused mode fetched refused =>
    rcases attempted?_of_refuses mode fetched refused with
      ⟨early, nothing⟩ | ⟨late, i, rfl, attempted⟩
    · rw [nothing]
      exact if_pos early
    · rw [attempted]
      exact if_neg (Bool.eq_false_iff.1 late)
  | executed mode fetched =>
    rw [attempted?_of_decode mode fetched (Instr.decode_encode _), Option.map_some]
  | waited mode | keyed mode => rw [attempted?_of_waiting mode, Option.map_none]

theorem instruction?_of_record? {mode : Mode} {call : DeviceCall} {r : Record}
    (recorded : mode.record? call = some r) : r.instruction? = none := by
  cases call with
  | beep => cases recorded; rfl
  | refresh | tick => cases recorded
  | poll key =>
    cases key with
    | none => cases recorded
    | some key =>
      cases mode with
      | fetching => cases recorded
      | awaitingKey => cases recorded; rfl

/-- The instructions among the records of a turn. -/
theorem filterMap_records (turn : Turn σ) :
    turn.records.filterMap Record.instruction? = turn.took?.toList := by
  have quiet : (turn.calls.filterMap turn.session.vm.mode.record?).filterMap
      Record.instruction? = [] := by
    rw [List.filterMap_eq_nil_iff]
    intro r mem
    obtain ⟨call, -, recorded⟩ := List.mem_filterMap.1 mem
    exact instruction?_of_record? recorded
  rw [records_eq, took?_eq, List.filterMap_append, List.filterMap_append, quiet]
  cases turn.attempted? <;> cases turn.result <;> rfl

end Turn

/-- The devices record no instructions. -/
def Host.Discreet (h : Host σ) : Prop :=
  ∀ (d : σ) (call : DeviceCall), ∀ r ∈ (h.reply d call).log, r.instruction? = none

theorem Script.discreet (script : Script) : script.host.Discreet := by
  intro c call r mem
  cases call with
  | refresh frame =>
    have silent : (Console.refresh script frame c).log = [] := by
      unfold Console.refresh
      split <;> rfl
    rw [show (script.host.reply c (.refresh frame)).log = [] from silent] at mem
    cases mem
  | beep =>
    have reply : script.host.reply c .beep = Console.beep script c := rfl
    rw [reply, Console.beep] at mem
    split at mem
    · cases mem
    · rw [List.mem_singleton.1 mem]
      rfl
  | poll key =>
    have silent : (Console.poll c).2.log = [] := by
      unfold Console.poll
      split <;> rfl
    rw [show (script.host.reply c (.poll key)).log = [] from silent] at mem
    cases mem
  | tick millis => cases mem

theorem World.filterMap_story {h : Host σ} (discreet : h.Discreet) (w : World σ)
    (moments : List Moment) :
    (w.story h moments).filterMap Record.instruction? =
      (moments.filterMap Moment.record?).filterMap Record.instruction? := by
  induction moments generalizing w with
  | nil => rfl
  | cons moment rest ih =>
    rw [story, List.filterMap_append, ih]
    cases moment with
    | wrote r =>
      have told : (Moment.wrote r :: rest).filterMap Moment.record? =
          [r] ++ rest.filterMap Moment.record? := rfl
      rw [told, List.filterMap_append, receives]
    | used call =>
      have silent : (w.receives h (.used call)).filterMap Record.instruction? = [] :=
        List.filterMap_eq_nil_iff.2 (discreet w.devices call)
      rw [silent, List.filterMap_cons_none rfl, List.nil_append]

theorem Turn.filterMap_written {turn : Turn σ} (discreet : turn.host.Discreet) :
    turn.written.filterMap Record.instruction? = turn.took?.toList := by
  rw [written, World.filterMap_story discreet, ← filterMap_records, records]

/-! ### The log of calls -/

/-- What a call records of itself. -/
def Call.announcement? : Call σ → Option Record
  | .load program =>
    if program.length ≤ Platform.programCapacity then some (.loaded program.length) else none
  | .reset => some .reset
  | .stop | .connect _ | .cycle _ | .runSteps .. | .run .. => none

theorem Call.announcement?_of_not_restarts {c : Call σ} (keep : c.restarts = false) :
    c.announcement? = none := by
  cases c with
  | load program =>
    have large : ¬program.length ≤ Platform.programCapacity := by simpa [restarts] using keep
    rw [announcement?, if_neg large]
  | reset => cases keep
  | stop | connect | cycle | runSteps | run => rfl

theorem Call.instruction?_of_announcement? {c : Call σ} {r : Record}
    (told : c.announcement? = some r) : r.instruction? = none := by
  cases c with
  | load program =>
    rw [announcement?] at told
    split at told
    · cases told
      rfl
    · cases told
  | reset =>
    cases told
    rfl
  | stop | connect | cycle | runSteps | run => cases told

namespace Session

theorem log_cycles (h : Host σ) (n : Nat) (s : Session σ) :
    (cycles h n s).2.world.log.toList =
      s.world.log.toList ++ (cycleTurns h n s).flatMap Turn.written := by
  have start : s.world.log.toList =
      s.world.log.toList ++ ([] : List (Turn σ)).flatMap Turn.written := (List.append_nil _).symm
  have told := cycleTurns_induction (P := fun past t =>
    t.world.log.toList = s.world.log.toList ++ past.flatMap Turn.written) h ?cycle
    (fun _ _ told => told) n start
  case cycle =>
    intro past t told
    rw [List.flatMap_append, List.flatMap_singleton, ← List.append_assoc, ← told]
    exact Turn.log_after ⟨h, t⟩
  exact told

/-- A call adds to the log what it records of itself and what its turns leave. -/
theorem log_perform {s t : Session σ} {c : Call σ} (performed : s.perform c = some t) :
    t.world.log.toList =
      s.world.log.toList ++ c.announcement?.toList ++ (s.callTurns c).flatMap Turn.written := by
  have quiet : s.world.log.toList = s.world.log.toList ++ [] ++ [] := by
    rw [List.append_nil, List.append_nil]
  cases c with
  | load program =>
    cases performed
    by_cases fits : program.length ≤ Platform.programCapacity
    · simp only [Session.load, Machine.load, Call.announcement?, if_pos fits]
      exact Array.toList_push.trans (List.append_nil _).symm
    · simp only [Session.load, Machine.load, Call.announcement?, if_neg fits]
      exact quiet
  | reset =>
    cases performed
    exact Array.toList_push.trans (List.append_nil _).symm
  | stop | connect =>
    cases performed
    exact quiet
  | cycle h =>
    cases performed
    have one : (s.callTurns (.cycle h)).flatMap Turn.written = (Turn.mk h s).written :=
      List.flatMap_singleton ..
    rw [one, Call.announcement?, Option.toList_none, List.append_nil]
    exact Turn.log_after ⟨h, s⟩
  | runSteps h n =>
    cases performed
    rw [Call.announcement?, Option.toList_none, List.append_nil]
    exact log_cycles h n (s.setRunning true)
  | run h fuel =>
    obtain ⟨r, done, rfl⟩ := Option.map_eq_some_iff.1 performed
    rw [← run_eq_runSteps done, Call.announcement?, Option.toList_none, List.append_nil]
    exact log_cycles h fuel (s.setRunning true)

/-- What is read off the log after some calls has been added by their turns, if that is so for each
of the calls. -/
theorem performAll_reads {α : Type} (read : List Record → List α) {tell : Turn σ → List α}
    {calls : List (Call σ)} {s t : Session σ}
    (adds : ∀ c ∈ calls, ∀ s t : Session σ, s.perform c = some t →
      read t.world.log.toList = read s.world.log.toList ++ (s.callTurns c).flatMap tell)
    (performed : s.performAll calls = some t) :
    read t.world.log.toList = read s.world.log.toList ++ (s.turns calls).flatMap tell := by
  induction calls generalizing s with
  | nil =>
    cases performed
    exact (List.append_nil _).symm
  | cons c rest ih =>
    obtain ⟨u, first, others⟩ := Option.bind_eq_some_iff.1 performed
    rw [ih (fun d mem => adds d (List.mem_cons_of_mem _ mem)) others,
      adds c (List.mem_cons_self ..) s u first, turns, first, List.flatMap_append,
      List.append_assoc]
    rfl

/-- From the lines of the log the instructions of all turns can be read, in order, if the devices
record none. -/
theorem decoded_perform {s t : Session σ} {c : Call σ}
    (discreet : ∀ h, c.host? = some h → h.Discreet) (performed : s.perform c = some t) :
    t.world.log.toList.filterMap Record.instruction? =
      s.world.log.toList.filterMap Record.instruction? ++
        (s.callTurns c).flatMap fun turn => turn.took?.toList := by
  have own : c.announcement?.toList.filterMap Record.instruction? = [] := by
    rw [List.filterMap_eq_nil_iff]
    intro r mem
    exact Call.instruction?_of_announcement? (Option.mem_toList.1 mem)
  rw [log_perform performed, List.filterMap_append, List.filterMap_append, own, List.append_nil,
    List.filterMap_flatMap]
  refine congrArg _ (List.flatMap_congr ?_)
  intro turn mem
  exact Turn.filterMap_written (discreet turn.host (host_of_mem_callTurns mem))

end Session

/-- **Nothing is missing from the log.**  It is a trace of execution: a turn leaves the record of
its instruction, or those of a key and of the end of the sound, and that of its fault, each where
it belongs among the calls on devices; the instructions that were executed, or that failed for want
of stack or memory, can be read off the lines of the log. -/
theorem log_lossless :
    (∀ turn : Turn σ,
      turn.after.world = turn.moments.foldl (World.undergo turn.host) turn.session.world ∧
      turn.after.world.log.toList = turn.session.world.log.toList ++ turn.written ∧
      turn.moments.filterMap Moment.call? = turn.calls ∧
      (∀ r, turn.session.vm.mode = .awaitingKey r →
        turn.records = turn.key.toList.map (.keyArrived · r) ++ turn.soundRecord) ∧
      (turn.session.vm.mode = .fetching → ∀ flow, turn.result = .ok flow →
        ∃ i, turn.session.vm.machine.fetch? = some (Instr.encode i) ∧
          turn.records = .executing turn.session.vm.machine.pc i :: turn.soundRecord) ∧
      (∀ f, turn.result = .error f →
        (f.precedesRecord = true → turn.records = [.stopped f]) ∧
        (f.precedesRecord = false → ∃ i, turn.session.vm.machine.fetch? = some (Instr.encode i) ∧
          turn.records = [.executing turn.session.vm.machine.pc i, .stopped f])) ∧
      (.beep ∈ turn.calls →
        (∃ before, turn.moments = before ++ [.wrote .soundOver, .used .beep]) ∧
        ∃ past d, turn.written = past ++ .soundOver :: (turn.host.beep d).log)) ∧
    (∀ f, (Record.stopped f).level = .error ∧ (Record.stopped f).text = (Error.fault f).message) ∧
    (∀ pc i, (Record.executing pc i).level = .debug) ∧
    (∀ key r, (Record.keyArrived key r).level = .debug) ∧
    (Record.soundOver.level = .debug ∧ Record.soundOver.text = "beep") ∧
    (∀ (p q : Address) (a b : Opcode) (i j : Instr),
      Instr.decode a = .ok i → Instr.decode b = .ok j →
        (Record.executing p i).text = (Record.executing q j).text → p = q ∧ a = b) ∧
    (∀ (s t : Session σ) (calls : List (Call σ)), s.performAll calls = some t →
      ((s.turns calls).flatMap Turn.records).filterMap (fun r => Record.readLine? r.line) =
        (s.turns calls).filterMap Turn.took? ∧
      ((∀ c ∈ calls, c.restarts = false) →
        t.world.log.toList = s.world.log.toList ++ (s.turns calls).flatMap Turn.written) ∧
      ((∀ c ∈ calls, ∀ h, c.host? = some h → h.Discreet) →
        t.world.log.toList.filterMap (fun r => Record.readLine? r.line) =
          s.world.log.toList.filterMap (fun r => Record.readLine? r.line) ++
            (s.turns calls).filterMap Turn.took?)) ∧
    ∀ script : Script, script.host.Discreet := by
  have read : (fun r : Record => Record.readLine? r.line) = Record.instruction? :=
    funext Record.readLine?_line
  refine ⟨?_, fun _ => ⟨rfl, rfl⟩, fun _ _ => rfl, fun _ _ => rfl, ⟨rfl, rfl⟩, ?_, ?_,
    Script.discreet⟩
  · intro turn
    refine ⟨turn.world_after, turn.log_after, ?_, fun r mode => Turn.records_of_waiting mode,
      fun mode flow ended => Turn.records_of_ok mode ended,
      fun f failed => Turn.records_of_error failed, ?_⟩
    · exact turn.filterMap_call?
    · intro sounds
      exact ⟨Turn.moments_of_beep sounds, Turn.written_of_beep sounds⟩
  · intro p q a b i j first second same
    rw [← Instr.encode_of_decode first, ← Instr.encode_of_decode second]
    exact Record.executing_of_text same
  · intro s t calls performed
    rw [read, List.filterMap_eq_flatMap_toList Turn.took?]
    refine ⟨?_, ?_, ?_⟩
    · rw [List.filterMap_flatMap]
      exact congrArg (List.flatMap · (s.turns calls)) (funext Turn.filterMap_records)
    · intro keep
      refine Session.performAll_reads id ?_ performed
      intro c mem s t performed
      have told := Session.log_perform performed
      rw [Call.announcement?_of_not_restarts (keep c mem), Option.toList_none,
        List.append_nil] at told
      exact told
    · intro discreet
      refine Session.performAll_reads (List.filterMap Record.instruction?) ?_ performed
      intro c mem s t performed
      exact Session.decoded_perform (discreet c mem) performed

/-- A program that returns where nothing was called is read off the log, though it fails. -/
theorem log_lossless_underflow :
    let s := Session.new { seed := 0 } ({} : Console)
    let s₀ := (s.load [0x00, 0xEE]).2
    let h := Script.host { millis := fun _ => 0.0 }
    let t := (s₀.cycle h).2
    s.performAll [.load [0x00, 0xEE], .cycle h] = some t ∧
      (Turn.mk h s₀).records = [.executing 0x200 .ret,
        .stopped (.instruction .stackUnderflow 0x200 0x00EE)] ∧
      t.world.log.toList.filterMap (fun r => Record.readLine? r.line) = [(0x200, 0x00EE)] := by
  intro s s₀ h t
  have fetched : s₀.vm.machine.fetch? = some (Instr.encode .ret) :=
    Machine.fetch?_withProgram (.initial (.ofSeed 0)) 0x00 0xEE []
  have refused : s₀.vm.machine.advance.Refuses (Instr.encode .ret) .stackUnderflow := ⟨rfl, rfl⟩
  have failed : (Turn.mk h s₀).result = .error (.instruction .stackUnderflow 0x200 0x00EE) :=
    (Session.cycle_of_refuses rfl fetched refused).1
  have took : (Turn.mk h s₀).took? = some (0x200, 0x00EE) := by
    rw [Turn.took?, failed]
    rfl
  have turns : s.turns [.load [0x00, 0xEE], .cycle h] = [⟨h, s₀⟩] := rfl
  have discreet : ∀ c ∈ [Call.load [0x00, 0xEE], .cycle h],
      ∀ h', c.host? = some h' → h'.Discreet := by
    intro c mem h' host
    rcases List.mem_cons.1 mem with rfl | mem
    · cases host
    · cases List.mem_singleton.1 mem
      cases host
      exact Script.discreet _
  obtain ⟨of_turn, -, -, -, -, -, of_calls, -⟩ := log_lossless (σ := Console)
  obtain ⟨-, -, -, -, -, of_error, -⟩ := of_turn ⟨h, s₀⟩
  obtain ⟨i, standing, records⟩ := (of_error _ failed).2 rfl
  have same : i = .ret := Instr.encode_injective (Option.some.inj (standing.symm.trans fetched))
  obtain ⟨-, -, decoded⟩ := of_calls s t [.load [0x00, 0xEE], .cycle h] rfl
  refine ⟨rfl, ?_, ?_⟩
  · rw [records, same]
    rfl
  · rw [decoded discreet, turns, List.filterMap_cons_some took]
    rfl

end ChipEight
