import ChipEight.Host.Console
import ChipEight.Proofs.Footprints
/-!
# The stream of random numbers

The random numbers of a session are the words of the stream of its seed, one after the other.  Each
random instruction that is executed takes one word, under whatever mask; nothing else takes any, and
nothing puts one back, so that the number of the next word is the number of random instructions
executed so far, over all programs that the session has loaded: `random_words`.
-/

namespace ChipEight

variable {σ : Type}

namespace Random

/-- The stream when so many more words have been taken. -/
def skip (r : Random) (taken : Nat) : Random := { r with position := r.position + taken }

theorem skip_zero (r : Random) : r.skip 0 = r := rfl

theorem skip_skip (r : Random) (first second : Nat) :
    (r.skip first).skip second = r.skip (first + second) := by
  unfold skip
  rw [Nat.add_assoc]

theorem byte_skip_ofSeed (seed : Seed) (taken : Nat) :
    ((ofSeed seed).skip taken).byte = (word seed taken).toUInt8 := by
  unfold byte skip word ofSeed
  rw [Nat.zero_add]

/-- The first blocks of a key, one after the other, are the first words of its stream. -/
theorem flatMap_keystream (key : StreamKey) (count : Nat) :
    (List.range count).flatMap (fun number => (Block.keystream key number).toList) =
      (List.range (16 * count)).map (wordAt key) := by
  induction count with
  | zero => rfl
  | succ count ih =>
    have block : (Block.keystream key count).toList =
        (List.range 16).map fun k => wordAt key (16 * count + k) := by
      apply List.ext_getElem
      · rw [Vector.length_toList, List.length_map, List.length_range]
      · intro k lt _
        rw [Vector.length_toList] at lt
        have number : (16 * count + k) / 16 = count := by omega
        have place : (16 * count + k) % 16 = k := by omega
        rw [List.getElem_map, List.getElem_range, wordAt, Vector.getElem_toList]
        simp only [number, place]
        rfl
    rw [List.range_succ, List.flatMap_append, ih, List.flatMap_singleton, block, Nat.mul_succ,
      List.range_add, List.map_append, List.map_map]
    rfl

end Random

/-- The instruction takes a word of the stream. -/
def Instr.isRandom : Instr → Bool
  | .random .. => true
  | _ => false

theorem Instr.random_notMem_footprint {i : Instr} (other : i.isRandom = false) :
    .random ∉ i.footprint := by
  cases i with
  | random => cases other
  | _ => simp [footprint]

/-- The words of the stream that turns take. -/
def wordsTaken (turns : List (Turn σ)) : Nat := (executedBy turns).countP (·.instr.isRandom)

theorem wordsTaken_append (past later : List (Turn σ)) :
    wordsTaken (past ++ later) = wordsTaken past + wordsTaken later := by
  rw [wordsTaken, executedBy_append, List.countP_append]
  rfl

namespace Turn

variable {turn : Turn σ}

theorem wordsTaken_of_executed? {e : Executed} (did : turn.executed? = some e) :
    wordsTaken [turn] = if e.instr.isRandom then 1 else 0 := by
  rw [wordsTaken, executedBy, List.filterMap_cons_some did, List.filterMap_nil,
    List.countP_singleton]

theorem wordsTaken_of_executed?_eq_none (idle : turn.executed? = none) : wordsTaken [turn] = 0 := by
  rw [wordsTaken, executedBy, List.filterMap_cons_none idle]
  rfl

/-- A random instruction takes the next byte under its mask. -/
theorem random_of_executed? {pc : Address} {x : Register} {mask : UInt8}
    (did : turn.executed? = some ⟨pc, .random x mask⟩) :
    turn.after.vm.machine.reg x = mask &&& turn.session.vm.machine.random.byte ∧
      turn.after.vm.machine.random = turn.session.vm.machine.random.next := by
  obtain ⟨key, m, flow, _, _, effect, after⟩ := effect_of_executed? did
  cases effect
  have stored := turn.session.vm.machine.advance.reg_setReg x x
    (mask &&& turn.session.vm.machine.advance.random.byte)
  rw [if_pos rfl] at stored
  rw [after]
  exact ⟨stored, rfl⟩

theorem random_of_no_word
    (others : ∀ e, turn.executed? = some e → e.instr.isRandom = false) :
    turn.after.vm.machine.random = turn.session.vm.machine.random := by
  have shared : turn.session.vm.machine.Shares turn.after.vm.machine .random := by
    refine shares_of_executed? rfl ?_
    intro e did
    exact Instr.random_notMem_footprint (others e did)
  exact shared

/-- A turn moves the stream on by the words that it takes. -/
theorem random_after (turn : Turn σ) :
    turn.after.vm.machine.random = turn.session.vm.machine.random.skip (wordsTaken [turn]) := by
  cases did : turn.executed? with
  | none =>
    rw [wordsTaken_of_executed?_eq_none did, Random.skip_zero, random_of_no_word]
    intro e did'
    rw [did] at did'
    cases did'
  | some e =>
    rw [wordsTaken_of_executed? did]
    obtain ⟨pc, i⟩ := e
    cases i with
    | random x mask => exact (random_of_executed? did).2
    | _ =>
      apply random_of_no_word
      intro e did'
      rw [did] at did'
      cases did'
      rfl

end Turn

namespace Session

/-- Neither a program nor a reset touches the stream. -/
theorem random_load (s : Session σ) (program : List UInt8) :
    (s.load program).2.vm.machine.random = s.vm.machine.random := by
  unfold load Machine.load
  by_cases fits : program.length ≤ Platform.programCapacity
  · rw [if_pos fits]
    rfl
  · rw [if_neg fits]

theorem random_of_restarts {s t : Session σ} {c : Call σ} (restarts : c.restarts = true)
    (performed : s.perform c = some t) : t.vm.machine.random = s.vm.machine.random := by
  cases c with
  | load program =>
    cases performed
    exact random_load s program
  | reset =>
    cases performed
    rfl
  | stop | connect | cycle | runSteps | run => cases restarts

/-- The stream of the session is `r`, of which the turns have taken words. -/
def DrawsFrom (r : Random) (past : List (Turn σ)) (s : Session σ) : Prop :=
  s.vm.machine.random = r.skip (wordsTaken past)

variable {r : Random}

theorem drawsFrom_cycle (h : Host σ) (past : List (Turn σ)) (s : Session σ)
    (draws : s.DrawsFrom r past) : (s.cycle h).2.DrawsFrom r (past ++ [⟨h, s⟩]) := by
  have moved := Turn.random_after ⟨h, s⟩
  unfold DrawsFrom at draws ⊢
  rw [wordsTaken_append, ← Random.skip_skip, ← draws]
  exact moved

theorem drawsFrom_quiet (past : List (Turn σ)) (s t : Session σ) (running : Bool)
    (same : t.vm = { s.vm with running := running }) (draws : s.DrawsFrom r past) :
    t.DrawsFrom r past := by
  unfold DrawsFrom
  rw [same]
  exact draws

theorem drawsFrom_restart {calls : List (Call σ)} : ∀ c ∈ calls, c.restarts = true →
    ∀ (past : List (Turn σ)) (s t : Session σ), s.perform c = some t →
      s.DrawsFrom r past → t.DrawsFrom r past := by
  intro c _ restarts past s t performed draws
  unfold DrawsFrom
  rw [random_of_restarts restarts performed]
  exact draws

theorem drawsFrom_self (s : Session σ) : s.DrawsFrom s.vm.machine.random [] := rfl

end Session

/-- **Random numbers over a whole session.**  Let a session begin with any seed, and go through any
calls, whether programs are loaded among them or refused, or the machine is reset.  At each of its
turns, if `k` random instructions have been executed before, one that is executed now puts its mask
and the low byte of word `k` of the seed's stream in its register, and takes that one word, also
when its mask is zero.  A turn that executes no random instruction, because it executes another,
faults or waits for a key, takes none, and a call takes as many as random instructions are executed
in it, so that a program loaded or refused and a reset take none.  Word `k` is word `k mod 16` of
block `k div 16` under the key of the seed: the blocks, in order, are the stream. -/
theorem random_words :
    (∀ (config : Config) (devices : σ) (calls : List (Call σ)),
      let s := Session.new config devices
      (∀ t, s.performAll calls = some t → t.vm.machine.random =
        (Random.ofSeed config.seed).skip (wordsTaken (s.turns calls))) ∧
      ∀ past turn later, s.turns calls = past ++ turn :: later →
        turn.session.vm.machine.random = (Random.ofSeed config.seed).skip (wordsTaken past) ∧
        ∀ pc x mask, turn.executed? = some ⟨pc, .random x mask⟩ →
          turn.after.vm.machine.reg x =
              mask &&& (Random.word config.seed (wordsTaken past)).toUInt8 ∧
            turn.after.vm.machine.random =
              (Random.ofSeed config.seed).skip (wordsTaken past + 1)) ∧
    (∀ turn : Turn σ, (∀ e, turn.executed? = some e → e.instr.isRandom = false) →
      turn.after.vm.machine.random = turn.session.vm.machine.random) ∧
    (∀ (s t : Session σ) (c : Call σ), s.perform c = some t →
      t.vm.machine.random = s.vm.machine.random.skip (wordsTaken (s.callTurns c))) ∧
    (∀ s : Session σ, s.reset.vm.machine.random = s.vm.machine.random ∧
      ∀ program, (s.load program).2.vm.machine.random = s.vm.machine.random) ∧
    ∀ (seed : Seed) (k count : Nat),
      Random.word seed k = (Block.keystream (StreamKey.ofSeed seed) (k / 16))[k % 16] ∧
      (List.range count).flatMap
          (fun number => (Block.keystream (StreamKey.ofSeed seed) number).toList) =
        (List.range (16 * count)).map (Random.word seed) := by
  refine ⟨?_, fun turn others => Turn.random_of_no_word others, ?_, ?_, ?_⟩
  · intro config devices calls s
    have start : s.DrawsFrom (Random.ofSeed config.seed) [] := Session.drawsFrom_self s
    constructor
    · intro t performed
      exact Session.performAll_turns_induction_of_restart Session.drawsFrom_cycle
        Session.drawsFrom_quiet Session.drawsFrom_restart start performed
    · intro past turn later split
      have stream : turn.session.DrawsFrom (Random.ofSeed config.seed) past :=
        Session.turns_at_every_turn Session.drawsFrom_cycle Session.drawsFrom_quiet
          Session.drawsFrom_restart start split
      refine ⟨stream, ?_⟩
      intro pc x mask did
      obtain ⟨stored, moved⟩ := Turn.random_of_executed? did
      rw [stream] at stored moved
      rw [Random.byte_skip_ofSeed] at stored
      exact ⟨stored, moved⟩
  · intro s t c performed
    exact Session.perform_turns_induction_of_restart Session.drawsFrom_cycle
      Session.drawsFrom_quiet (Session.drawsFrom_restart c (List.mem_singleton_self c))
      (Session.drawsFrom_self s) performed
  · intro s
    exact ⟨rfl, Session.random_load s⟩
  · intro seed k count
    exact ⟨rfl, Random.flatMap_keystream (StreamKey.ofSeed seed) count⟩

/-- With seed 0, a program that begins with `C0FF` puts the low byte of the first word in `V0`. -/
theorem random_words_first :
    let s := Session.new { seed := 0 } ({} : Console)
    let s₀ := (s.load [0xC0, 0xFF]).2
    let h := Script.host { millis := fun _ => 0.0 }
    let t := (s₀.cycle h).2
    s.performAll [.load [0xC0, 0xFF], .cycle h] = some t ∧
      s.turns [.load [0xC0, 0xFF], .cycle h] = [⟨h, s₀⟩] ∧
      (Turn.mk h s₀).executed? = some ⟨0x200, .random 0 0xFF⟩ ∧
      t.vm.machine.reg 0 = 0x7F ∧ t.vm.machine.random = (Random.ofSeed 0).skip 1 := by
  intro s s₀ h t
  have fetched : s₀.vm.machine.fetch? = some (Instr.encode (.random 0 0xFF)) :=
    Machine.fetch?_withProgram (.initial (.ofSeed 0)) 0xC0 0xFF []
  have cycled : (s₀.cycle h).1 = .ok .next :=
    congrArg Prod.fst (Session.cycle_of_exec rfl fetched (Instr.decode_encode _) rfl rfl)
  have did : (Turn.mk h s₀).executed? = some ⟨0x200, .random 0 0xFF⟩ :=
    Turn.executed?_eq_some_iff.2 ⟨rfl, fetched, rfl, .next, cycled⟩
  have turns : s.turns [.load [0xC0, 0xFF], .cycle h] = [] ++ ⟨h, s₀⟩ :: [] := rfl
  obtain ⟨-, drawn⟩ :=
    random_words.1 { seed := 0 } ({} : Console) [.load [0xC0, 0xFF], .cycle h]
  obtain ⟨stored, moved⟩ := (drawn [] ⟨h, s₀⟩ [] turns).2 0x200 0 0xFF did
  have first : 0xFF &&& (Random.word 0 0).toUInt8 = 0x7F := by decide +kernel
  exact ⟨rfl, turns, did, stored.trans first, moved⟩

end ChipEight
