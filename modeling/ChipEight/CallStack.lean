import ChipEight.Platform
/-!
# The call stack

The return addresses of the calls in progress, at most sixteen.
-/

namespace ChipEight

/-- Return addresses, the newest first. -/
@[ext] structure CallStack where
  returns : List Address
  length_le : returns.length ≤ 16 := by decide

namespace CallStack

instance : DecidableEq CallStack := fun s t =>
  decidable_of_iff (s.returns = t.returns) CallStack.ext_iff.symm

def empty : CallStack := ⟨[], by decide⟩

def depth (s : CallStack) : Nat := s.returns.length

/-- The return addresses, the oldest first (`stack`). -/
def toList (s : CallStack) : List Address := s.returns.reverse

/-- One call more, unless all slots are taken (`push_stack`). -/
def push? (s : CallStack) (a : Address) : Option CallStack :=
  if h : s.depth < Platform.stackDepth then some ⟨a :: s.returns, h⟩ else none

/-- The newest return address and the calls below it (`pop_stack`). -/
def pop? (s : CallStack) : Option (Address × CallStack) :=
  match s with
  | ⟨[], _⟩ => none
  | ⟨a :: rest, h⟩ => some (a, ⟨rest, Nat.le_of_succ_le h⟩)

theorem push?_eq_none_iff (s : CallStack) (a : Address) : s.push? a = none ↔ s.depth = 16 := by
  have bound : s.depth ≤ 16 := s.length_le
  by_cases room : s.depth < 16
  · rw [push?, dif_pos room]
    simp only [reduceCtorEq, false_iff]
    omega
  · rw [push?, dif_neg room]
    simp only [true_iff]
    omega

theorem pop?_eq_none_iff (s : CallStack) : s.pop? = none ↔ s.depth = 0 := by
  obtain ⟨returns, h⟩ := s
  cases returns <;> simp [pop?, depth]

theorem toList_push? {s t : CallStack} {a : Address} (h : s.push? a = some t) :
    t.toList = s.toList ++ [a] := by
  unfold push? at h
  split at h
  · cases h
    simp [toList]
  · cases h

theorem toList_pop? {s t : CallStack} {a : Address} (h : s.pop? = some (a, t)) :
    s.toList = t.toList ++ [a] := by
  obtain ⟨returns, hr⟩ := s
  cases returns with
  | nil => cases h
  | cons b rest =>
    cases h
    simp [toList]

end CallStack

end ChipEight
