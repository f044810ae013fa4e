import ChipEight.Opcode
import ChipEight.Platform
/-!
# Memory

Memory is 4096 bytes.  Reads beyond the last cell give zero and writes there do nothing; the
instructions check their range first, so neither happens to a program.
-/

namespace ChipEight

/-- The bytes of the machine. -/
structure Memory where
  cells : Vector UInt8 4096
  deriving DecidableEq

namespace Memory

/-- The byte at an address. -/
def get (m : Memory) (a : Nat) : UInt8 :=
  if h : a < Platform.memorySize then m.cells[a] else 0

def set (m : Memory) (a : Nat) (b : UInt8) : Memory := ⟨m.cells.setIfInBounds a b⟩

/-- The `length` bytes from `start` on. -/
def read (m : Memory) (start length : Nat) : List UInt8 :=
  (List.range length).map fun k => m.get (start + k)

/-- Memory with the bytes placed from `start` on. -/
def write (m : Memory) (start : Nat) : List UInt8 → Memory
  | [] => m
  | b :: bs => (m.set start b).write (start + 1) bs

/-- The opcode whose two bytes begin at the address, if both are in memory (`opcode_at`). -/
def opcode? (m : Memory) (a : Address) : Option Opcode :=
  if a.toNat + 1 < Platform.memorySize then
    some (Opcode.ofBytes (m.get a.toNat) (m.get (a.toNat + 1)))
  else none

def blank : Memory := ⟨Vector.replicate Platform.memorySize 0⟩

/-- The font at its place and zeros elsewhere. -/
def initial : Memory := blank.write Platform.fontStart Platform.font

/-! ### What reads see of writes -/

theorem get_set (m : Memory) (a c : Nat) (b : UInt8) :
    (m.set a b).get c = if a = c ∧ c < 4096 then b else m.get c := by
  unfold get set
  by_cases hc : c < 4096
  · by_cases ha : a = c
    · subst ha
      simp [hc]
    · simp [hc, ha]
  · simp [hc]

theorem get_write (m : Memory) (start : Nat) (bs : List UInt8) (c : Nat) :
    (m.write start bs).get c =
      if start ≤ c ∧ c < 4096 then bs[c - start]?.getD (m.get c) else m.get c := by
  induction bs generalizing m start with
  | nil => simp [write]
  | cons b bs ih =>
    rw [write, ih, get_set]
    by_cases hc : c < 4096
    · by_cases here : start = c
      · subst here
        have past : ¬start + 1 ≤ start := by omega
        simp [hc, past]
      · by_cases later : start + 1 ≤ c
        · have shift : c - start = c - (start + 1) + 1 := by omega
          have after : start ≤ c := by omega
          rw [shift, List.getElem?_cons_succ]
          simp [hc, here, later, after]
        · have before : ¬start ≤ c := by omega
          simp [here, later, before]
    · simp [hc]

theorem length_read (m : Memory) (start length : Nat) :
    (m.read start length).length = length := by
  simp [read]

end Memory

end ChipEight
