import ChipEight.Opcode
import ChipEight.Platform
import ChipEight.Text.Hex
/-!
# Faults and errors

A `Fault` is raised by a running program and says where: either the program counter has left
memory, or an instruction could not be executed, for a `Cause`.  An `Error` is a fault or a
failure of the host.  The wording of both is in this module: `message` is a sentence for people,
`report` lists the kind and its numbers.
-/

namespace ChipEight

/-- Why an opcode could not be executed. -/
inductive Cause where
  /-- The opcode is outside the instruction table. -/
  | unsupportedOpcode
  /-- A register transfer names `VF`. -/
  | reservedRegister
  /-- A call while all slots of the call stack are taken. -/
  | stackOverflow
  /-- A return with no call to return from. -/
  | stackUnderflow
  /-- The instruction reaches for memory up to `address`, beyond the last cell. -/
  | addressOutOfRange (address : Nat)
  deriving DecidableEq, Repr

/-- What stopped a program. -/
inductive Fault where
  /-- The instruction `opcode` at `pc` could not be executed. -/
  | instruction (cause : Cause) (pc : Address) (opcode : Opcode)
  /-- No instruction fits at `pc`. -/
  | pcOutOfRange (pc : Address)
  deriving DecidableEq, Repr

/-- Why the host could not read a file. -/
inductive FileError where
  /-- The operating system's number, kind and wording. -/
  | system (code : Nat) (kind message : String)
  /-- Any other failure, in its own words. -/
  | other (message : String)
  deriving DecidableEq, Repr

/-- All that can go wrong when a program is loaded or run. -/
inductive Error where
  | fault (f : Fault)
  /-- A program of `size` bytes does not fit in `capacity`. -/
  | programTooLarge (size capacity : Nat)
  | file (e : FileError)
  /-- Text could not be written out. -/
  | formatting
  deriving DecidableEq, Repr

/-! ### Wording -/

private def hex4 (n : Nat) : String := String.ofList (Hex.atLeast .upper 4 n)

/-- An opcode and the address it stands at. -/
private def location (pc : Address) (opcode : Opcode) : String :=
  hex4 opcode.toNat ++ " at " ++ hex4 pc.toNat

def Cause.kind : Cause → String
  | .unsupportedOpcode => "UnsupportedOpcode"
  | .reservedRegister => "ReservedRegister"
  | .stackOverflow => "StackOverflow"
  | .stackUnderflow => "StackUnderflow"
  | .addressOutOfRange _ => "AddressOutOfRange"

namespace Fault

def kind : Fault → String
  | .instruction cause _ _ => cause.kind
  | .pcOutOfRange _ => "PcOutOfRange"

def message : Fault → String
  | .instruction .unsupportedOpcode pc op => "unsupported opcode " ++ location pc op
  | .instruction .reservedRegister pc op => "register VF is reserved: " ++ location pc op
  | .instruction .stackOverflow pc op => "call stack overflow: " ++ location pc op
  | .instruction .stackUnderflow pc op => "call stack underflow: " ++ location pc op
  | .instruction (.addressOutOfRange address) pc op =>
    "address " ++ hex4 address ++ " out of range: " ++ location pc op
  | .pcOutOfRange pc => "program counter " ++ hex4 pc.toNat ++ " out of range"

/-- The numbers that belong to the fault, by name. -/
def fields : Fault → List (String × Nat)
  | .instruction (.addressOutOfRange address) pc op =>
    [("pc", pc.toNat), ("opcode", op.toNat), ("address", address)]
  | .instruction _ pc op => [("pc", pc.toNat), ("opcode", op.toNat)]
  | .pcOutOfRange pc => [("pc", pc.toNat)]

end Fault

namespace FileError

def message : FileError → String
  | .system code _ text => text ++ " (os error " ++ Nat.repr code ++ ")"
  | .other text => text

/-- A text between double quotes. -/
private def quoted (s : String) : String :=
  String.ofList ('"' :: s.toList.flatMap escape ++ ['"'])
where
  /-- Quotes, backslashes and the common control characters are written with a backslash. -/
  escape : Char → List Char
    | '"' => ['\\', '"']
    | '\\' => ['\\', '\\']
    | '\n' => ['\\', 'n']
    | '\r' => ['\\', 'r']
    | '\t' => ['\\', 't']
    | c => [c]

def report : FileError → String
  | .system code kind text =>
    "Os \x7b code: " ++ Nat.repr code ++ ", kind: " ++ kind ++ ", message: " ++ quoted text
      ++ " \x7d"
  | .other text => "Custom \x7b kind: Other, error: " ++ quoted text ++ " \x7d"

end FileError

namespace Error

def kind : Error → String
  | .fault f => f.kind
  | .programTooLarge _ _ => "ProgramTooLarge"
  | .file _ => "Io"
  | .formatting => "Fmt"

/-- Whether a running program raised the error, as opposed to the host. -/
def isFault : Error → Bool
  | .fault _ => true
  | _ => false

def message : Error → String
  | .fault f => f.message
  | .programTooLarge size capacity =>
    "program too large for VM memory: " ++ Nat.repr size ++ " bytes, capacity is "
      ++ Nat.repr capacity
  | .file e => e.message
  | .formatting => "an error occurred when formatting an argument"

/-- The message of the host's failure behind the error, if there is one. -/
def source? : Error → Option String
  | .file e => some e.message
  | .formatting => some "an error occurred when formatting an argument"
  | _ => none

/-- The numbers that belong to the error, by name. -/
def fields : Error → List (String × Nat)
  | .fault f => f.fields
  | .programTooLarge size capacity => [("size", size), ("capacity", capacity)]
  | _ => []

/-- A kind followed by its named numbers, in decimal. -/
private def record (kind : String) (fields : List (String × Nat)) : String :=
  kind ++ " \x7b " ++ ", ".intercalate (fields.map fun f => f.1 ++ ": " ++ Nat.repr f.2) ++ " \x7d"

/-- The kind of the error with its details in full, as the command line reports it. -/
def report : Error → String
  | .file e => "Io(" ++ e.report ++ ")"
  | .formatting => "Fmt(Error)"
  | e => record e.kind e.fields

end Error

end ChipEight
