import ChipEight.Platform
import ChipEight.Text.Hex
/-!
# Keys

The keypad has sixteen keys, numbered like hexadecimal digits.
-/

namespace ChipEight

/-- A key of the keypad. -/
structure Key where
  code : Fin 16
  deriving DecidableEq, Repr

namespace Key

def toByte (k : Key) : UInt8 := UInt8.ofNat k.code.val

/-- The key with the given number, if there is one. -/
def ofNat? (id : Nat) : Option Key :=
  if h : id < Platform.keyCount then some ⟨⟨id, h⟩⟩ else none

/-- The short name in messages: `k` and the lower-case digit. -/
def label (k : Key) : String := String.ofList ('k' :: Hex.fixed .lower 1 k.code.val)

/-- The full name: `Key` and the upper-case digit. -/
def name (k : Key) : String :=
  String.ofList ("Key".toList ++ Hex.fixed .upper 1 k.code.val)

/-- What is said of a number that names no key. -/
def invalidMessage : String :=
  "keycode must be in range 0 <= keycode < " ++ Nat.repr Platform.keyCount

theorem toNat_toByte (k : Key) : k.toByte.toNat = k.code.val := by
  have := k.code.isLt
  simp only [toByte, UInt8.toNat_ofNat']
  omega

theorem ofNat?_code (k : Key) : ofNat? k.code.val = some k := by
  simp [ofNat?, k.code.isLt]

end Key

end ChipEight
