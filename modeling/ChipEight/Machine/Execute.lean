import ChipEight.Host
import ChipEight.Instr.Decode
import ChipEight.Instr.Exec
/-!
# Execution of an opcode in a world

An opcode is decoded, recorded, and executed; the keypad is looked at only by the instructions
that read it.  The record is written before the instruction takes effect, so it is there even if
the instruction then fails.
-/

namespace ChipEight

namespace Machine

variable {σ : Type}

/-- Executes an opcode on a machine whose program counter has moved past it (`execute`). -/
def execute (h : Host σ) (op : Opcode) (m : Machine) (w : World σ) :
    Except Fault (Flow × Machine) × World σ :=
  let pc := m.currentAddress
  match Instr.decode op with
  | .error cause => (.error (.instruction cause pc op), w)
  | .ok i =>
    let w := w.emit (.executing pc i)
    let (key, w) := if i.readsKey then w.poll h else (none, w)
    match i.exec key m with
    | .error cause => (.error (.instruction cause pc op), w)
    | .ok result => (.ok result, w)

/-- What came of a list of opcodes. -/
structure Batch (σ : Type) where
  /-- Opcodes executed without a fault. -/
  completed : Nat
  /-- The flow of the last of them, if there were any, or the fault that ended the list. -/
  outcome : Except Fault (Option Flow)
  machine : Machine
  world : World σ

/-- Executes opcodes one after the other, without fetching them, up to the first fault; `completed`
have been executed before, the last of them with `flow`. -/
def executeList (h : Host σ) (completed : Nat) (flow : Option Flow) :
    List Opcode → Machine → World σ → Batch σ
  | [], m, w => ⟨completed, .ok flow, m, w⟩
  | op :: rest, m, w =>
    match m.execute h op w with
    | (.error f, w) => ⟨completed, .error f, m, w⟩
    | (.ok (flow, m), w) => executeList h (completed + 1) (some flow) rest m w

/-- Executes a list of opcodes over and over, up to the first fault; each round is executed only
when the one before it has ended well, so that their number may be large. -/
def executeRounds (h : Host σ) (rounds : Nat) (ops : List Opcode) (m : Machine) (w : World σ) :
    Batch σ :=
  if ops.isEmpty then ⟨0, .ok none, m, w⟩ else go rounds 0 none m w
where
  /-- Goes on with some more rounds after `completed` opcodes, the last of which gave `flow`. -/
  go : Nat → Nat → Option Flow → Machine → World σ → Batch σ
    | 0, completed, flow, m, w => ⟨completed, .ok flow, m, w⟩
    | rounds + 1, completed, flow, m, w =>
      match executeList h completed flow ops m w with
      | ⟨completed, .ok flow, m, w⟩ => go rounds completed flow m w
      | b => b

end Machine

end ChipEight
