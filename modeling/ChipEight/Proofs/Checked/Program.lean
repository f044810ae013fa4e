import ChipEight.Fault
/-!
# Checked programs

A `Program` works on a state step by step.  It ends with a value, it raises a fault, or it falls
into a trap: an index that an array does not have, a range that leaves its array, a copy between
ranges of different lengths, a number that leaves its type.  A fault leaves the state as the steps
before it have made it; nothing is taken back.
-/

namespace ChipEight.Checked

/-- What a checked operation finds wrong. -/
inductive Trap where
  /-- An array of `size` elements has none at `index`. -/
  | index (size index : Nat)
  /-- The range from `first` to before `past` is reversed or leaves an array of `size` elements. -/
  | range (size first past : Nat)
  /-- A range takes `room` elements and gets `given`. -/
  | length (room given : Nat)
  /-- A number leaves its type. -/
  | overflow
  deriving DecidableEq, Repr

inductive Outcome (S α : Type) where
  | done (a : α) (s : S)
  | fault (f : Fault) (s : S)
  | trap (t : Trap)

namespace Outcome

variable {S T α β : Type}

/-- Goes on after a value; faults and traps stay. -/
def andThen (o : Outcome S α) (f : α → S → Outcome S β) : Outcome S β :=
  match o with
  | .done a s => f a s
  | .fault e s => .fault e s
  | .trap t => .trap t

@[simp] theorem andThen_done (a : α) (s : S) (f : α → S → Outcome S β) :
    (done a s).andThen f = f a s := rfl

@[simp] theorem andThen_fault (e : Fault) (s : S) (f : α → S → Outcome S β) :
    (fault e s).andThen f = fault e s := rfl

@[simp] theorem andThen_trap (t : Trap) (f : α → S → Outcome S β) :
    (trap t : Outcome S α).andThen f = trap t := rfl

def mapState (o : Outcome S α) (f : S → T) : Outcome T α :=
  match o with
  | .done a s => .done a (f s)
  | .fault e s => .fault e (f s)
  | .trap t => .trap t

@[simp] theorem mapState_done (a : α) (s : S) (f : S → T) :
    (done a s).mapState f = done a (f s) := rfl

@[simp] theorem mapState_fault (e : Fault) (s : S) (f : S → T) :
    (fault e s : Outcome S α).mapState f = fault e (f s) := rfl

end Outcome

def Program (S α : Type) := S → Outcome S α

namespace Program

variable {S T α β : Type}

def run (p : Program S α) (s : S) : Outcome S α := p s

instance : Monad (Program S) where
  pure a := fun s => .done a s
  bind p f := fun s => (p.run s).andThen fun a t => (f a).run t

def get : Program S S := fun s => .done s s

def modify (f : S → S) : Program S Unit := fun s => .done () (f s)

def raise (f : Fault) : Program S α := fun s => .fault f s

def trap (t : Trap) : Program S α := fun _ => .trap t

/-- A program on a part of the state. -/
def within (part : T → S) (put : S → T → T) (p : Program S α) : Program T α :=
  fun t => (p.run (part t)).mapState fun s => put s t

/-- Changes the state if a fault is raised. -/
def onFault (p : Program S α) (f : Fault → S → S) : Program S α := fun s =>
  match p.run s with
  | .fault e t => .fault e (f e t)
  | o => o

/-- The value of a program or the fault that it raises. -/
def attempt (p : Program S α) : Program S (Except Fault α) := fun s =>
  match p.run s with
  | .done a t => .done (.ok a) t
  | .fault e t => .done (.error e) t
  | .trap t => .trap t

@[simp] theorem run_pure (a : α) (s : S) : (pure a : Program S α).run s = .done a s := rfl

@[simp] theorem run_bind (p : Program S α) (f : α → Program S β) (s : S) :
    (p >>= f).run s = (p.run s).andThen fun a t => (f a).run t := rfl

@[simp] theorem run_get (s : S) : (get : Program S S).run s = .done s s := rfl

@[simp] theorem run_modify (f : S → S) (s : S) : (modify f).run s = .done () (f s) := rfl

@[simp] theorem run_raise (f : Fault) (s : S) :
    (raise f : Program S α).run s = .fault f s := rfl

@[simp] theorem run_within (part : T → S) (put : S → T → T) (p : Program S α) (t : T) :
    (within part put p).run t = (p.run (part t)).mapState fun s => put s t := rfl

theorem run_attempt_of_done {p : Program S α} {s t : S} {a : α} (ran : p.run s = .done a t) :
    p.attempt.run s = .done (.ok a) t := by
  change (match p.run s with | .done a t => _ | .fault e t => _ | .trap t => _) = _
  rw [ran]

theorem run_attempt_of_fault {p : Program S α} {s t : S} {f : Fault} (ran : p.run s = .fault f t) :
    p.attempt.run s = .done (.error f) t := by
  change (match p.run s with | .done a t => _ | .fault e t => _ | .trap t => _) = _
  rw [ran]

theorem run_onFault_of_done {p : Program S α} {g : Fault → S → S} {s t : S} {a : α}
    (ran : p.run s = .done a t) : (p.onFault g).run s = .done a t := by
  change (match p.run s with | .fault e t => _ | o => o) = _
  rw [ran]

theorem run_onFault_of_fault {p : Program S α} {g : Fault → S → S} {s t : S} {f : Fault}
    (ran : p.run s = .fault f t) : (p.onFault g).run s = .fault f (g f t) := by
  change (match p.run s with | .fault e t => _ | o => o) = _
  rw [ran]

/-! ### Arithmetic

Sizes and indices are numbers of 64 bits, addresses of 16. -/

def add (a b : Nat) : Program S Nat :=
  if a + b < 0x10000000000000000 then pure (a + b) else trap .overflow

def sub (a b : Nat) : Program S Nat :=
  if b ≤ a then pure (a - b) else trap .overflow

def mul (a b : Nat) : Program S Nat :=
  if a * b < 0x10000000000000000 then pure (a * b) else trap .overflow

def addAddress (a b : Address) : Program S Address :=
  if a.toNat + b.toNat < 0x10000 then pure (a + b) else trap .overflow

def mulAddress (a b : Address) : Program S Address :=
  if a.toNat * b.toNat < 0x10000 then pure (a * b) else trap .overflow

def decrement (b : UInt8) : Program S UInt8 :=
  if b ≠ 0 then pure (b - 1) else trap .overflow

/-- A byte shifted to the right, by less than its width. -/
def shiftRight (b : UInt8) (k : Nat) : Program S UInt8 :=
  if k < 8 then pure (b >>> UInt8.ofNat k) else trap .overflow

theorem run_add {a b : Nat} (h : a + b < 0x10000000000000000) (s : S) :
    (add a b).run s = .done (a + b) s := by
  rw [add, if_pos h]; rfl

theorem run_sub {a b : Nat} (h : b ≤ a) (s : S) : (sub a b).run s = .done (a - b) s := by
  rw [sub, if_pos h]; rfl

theorem run_mul {a b : Nat} (h : a * b < 0x10000000000000000) (s : S) :
    (mul a b).run s = .done (a * b) s := by
  rw [mul, if_pos h]; rfl

theorem run_addAddress {a b : Address} (h : a.toNat + b.toNat < 0x10000) (s : S) :
    (addAddress a b).run s = .done (a + b) s := by
  rw [addAddress, if_pos h]; rfl

theorem run_mulAddress {a b : Address} (h : a.toNat * b.toNat < 0x10000) (s : S) :
    (mulAddress a b).run s = .done (a * b) s := by
  rw [mulAddress, if_pos h]; rfl

theorem run_decrement {b : UInt8} (h : b ≠ 0) (s : S) :
    (decrement b).run s = .done (b - 1) s := by
  rw [decrement, if_pos h]; rfl

theorem run_shiftRight (b : UInt8) {k : Nat} (h : k < 8) (s : S) :
    (shiftRight b k).run s = .done (b >>> UInt8.ofNat k) s := by
  rw [shiftRight, if_pos h]; rfl

/-! ### Arrays -/

def element {n : Nat} (v : Vector α n) (i : Nat) : Program S α :=
  if h : i < n then pure v[i] else trap (.index n i)

def replace {n : Nat} (v : Vector α n) (i : Nat) (a : α) : Program S (Vector α n) :=
  if h : i < n then pure (v.set i a) else trap (.index n i)

def slice {n : Nat} (v : Vector α n) (first past : Nat) : Program S (List α) :=
  if first ≤ past ∧ past ≤ n then pure ((v.toList.take past).drop first)
  else trap (.range n first past)

/-- The array with elements placed from an index on. -/
def overwrite {n : Nat} (v : Vector α n) (first : Nat) : List α → Vector α n
  | [] => v
  | a :: rest => overwrite (v.setIfInBounds first a) (first + 1) rest

/-- The array with a range replaced by as many elements. -/
def copy {n : Nat} (v : Vector α n) (first past : Nat) (source : List α) :
    Program S (Vector α n) :=
  if first ≤ past ∧ past ≤ n then
    if source.length = past - first then pure (overwrite v first source)
    else trap (.length (past - first) source.length)
  else trap (.range n first past)

variable {n : Nat}

theorem run_element (v : Vector α n) {i : Nat} (h : i < n) (s : S) :
    (element v i).run s = .done v[i] s := by
  rw [element, dif_pos h]; rfl

theorem run_replace (v : Vector α n) {i : Nat} (h : i < n) (a : α) (s : S) :
    (replace v i a).run s = .done (v.set i a) s := by
  rw [replace, dif_pos h]; rfl

theorem run_slice (v : Vector α n) {first past : Nat} (h : first ≤ past) (h' : past ≤ n)
    (s : S) : (slice v first past).run s = .done ((v.toList.take past).drop first) s := by
  rw [slice, if_pos ⟨h, h'⟩]; rfl

theorem run_copy (v : Vector α n) {first past : Nat} {source : List α} (h : first ≤ past)
    (h' : past ≤ n) (full : source.length = past - first) (s : S) :
    (copy v first past source).run s = .done (overwrite v first source) s := by
  rw [copy, if_pos ⟨h, h'⟩, if_pos full]; rfl

theorem getElem_overwrite (v : Vector α n) (first : Nat) (source : List α) {i : Nat}
    (h : i < n) :
    (overwrite v first source)[i] = if first ≤ i then source[i - first]?.getD v[i] else v[i] := by
  induction source generalizing v first with
  | nil => simp [overwrite]
  | cons a rest ih =>
    rw [overwrite, ih]
    by_cases here : first = i
    · subst here
      have past : ¬first + 1 ≤ first := by omega
      simp [past]
    · by_cases later : first + 1 ≤ i
      · have shift : i - first = i - (first + 1) + 1 := by omega
        have after : first ≤ i := by omega
        rw [shift, List.getElem?_cons_succ]
        simp [here, later, after]
      · have before : ¬first ≤ i := by omega
        simp [here, later, before]

end Program

end ChipEight.Checked
