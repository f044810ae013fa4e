/-!
# Hexadecimal text

Numbers are written over `List Char`, most significant digit first, with at least a given
number of digits.  `fixed` writes exactly that many and drops what does not fit; `atLeast`
takes more digits where the number needs them.  `readBytes` reads pairs of digits, in either
case, as bytes.
-/

namespace ChipEight.Hex

/-- The spelling of the digits above nine. -/
inductive Spelling where
  | lower
  | upper
  deriving DecidableEq, Repr

/-- The character of a digit below sixteen. -/
def digit (sp : Spelling) (d : Nat) : Char :=
  if d < 10 then Char.ofNat (48 + d)
  else match sp with
    | .lower => Char.ofNat (87 + d)
    | .upper => Char.ofNat (55 + d)

/-- The last `width` digits of `n`. -/
def fixed (sp : Spelling) : (width n : Nat) → List Char
  | 0, _ => []
  | width + 1, n => fixed sp width (n / 16) ++ [digit sp (n % 16)]

/-- Digits that `n` needs; zero needs one. -/
def digitCount (n : Nat) : Nat := n.log2 / 4 + 1

/-- All digits of `n`, padded with zeros to `width`. -/
def atLeast (sp : Spelling) (width n : Nat) : List Char :=
  fixed sp (max width (digitCount n)) n

/-- The two digits of a byte. -/
def byte (sp : Spelling) (b : UInt8) : List Char := fixed sp 2 b.toNat

/-- The digits of a byte string, two a byte, with nothing between them. -/
def bytes (sp : Spelling) (bs : List UInt8) : List Char := bs.flatMap (byte sp)

def digit? (c : Char) : Option Nat :=
  if '0' ≤ c ∧ c ≤ '9' then some (c.toNat - 48)
  else if 'a' ≤ c ∧ c ≤ 'f' then some (c.toNat - 87)
  else if 'A' ≤ c ∧ c ≤ 'F' then some (c.toNat - 55)
  else none

/-- Reads digits as one number, or fails at a character that is none; no digits are zero. -/
def readNat? (cs : List Char) : Option Nat :=
  cs.foldlM (fun n c => (digit? c).map (n * 16 + ·)) 0

/-- Reads a byte string written two digits a byte. -/
def readBytes? : List Char → Option (List UInt8)
  | [] => some []
  | hi :: lo :: rest => do
    let h ← digit? hi
    let l ← digit? lo
    let bs ← readBytes? rest
    return UInt8.ofNat (h * 16 + l) :: bs
  | [_] => none

@[simp] theorem length_fixed (sp : Spelling) (width n : Nat) :
    (fixed sp width n).length = width := by
  induction width generalizing n with
  | zero => rfl
  | succ width ih => simp [fixed, ih]

/-- A digit reads back in either spelling. -/
theorem digit?_digit (sp : Spelling) {d : Nat} (h : d < 16) : digit? (digit sp d) = some d := by
  have all : ∀ e ∈ List.range 16, digit? (digit sp e) = some e := by cases sp <;> decide
  exact all d (List.mem_range.2 h)

/-- A byte is its high digit times sixteen plus its low one. -/
theorem ofNat_digits (b : UInt8) :
    UInt8.ofNat (b.toNat / 16 % 16 * 16 + b.toNat % 16) = b := by
  have := b.toNat_lt
  rw [show b.toNat / 16 % 16 * 16 + b.toNat % 16 = b.toNat by omega, UInt8.ofNat_toNat]

/-- Bytes written in either spelling read back. -/
theorem readBytes?_bytes (sp : Spelling) (bs : List UInt8) :
    readBytes? (bytes sp bs) = some bs := by
  induction bs with
  | nil => rfl
  | cons b bs ih =>
    have low := digit?_digit sp (Nat.mod_lt b.toNat (by decide : 0 < 16))
    have high := digit?_digit sp (Nat.mod_lt (b.toNat / 16) (by decide : 0 < 16))
    have head : bytes sp (b :: bs) =
        digit sp (b.toNat / 16 % 16) :: digit sp (b.toNat % 16) :: bytes sp bs := rfl
    simp only [head, readBytes?, high, low, ih, Option.bind_eq_bind, Option.bind_some,
      ofNat_digits, Option.pure_def]

end ChipEight.Hex
