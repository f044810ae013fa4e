import ChipEight.CommandLine.Number
/-!
# Arguments

The command is `run`, a file, and any number of options in any order.  The word after `run` is
the file whatever it looks like.  Of an option that is given twice the last one counts, but every
one of them must be well formed.
-/

namespace ChipEight.CommandLine

/-- One option with its value. -/
inductive Setting where
  | frequency (hertz : UInt64)
  | steps (count : UInt64)
  | seed (value : UInt64)
  | debug
  deriving DecidableEq, Repr

/-- The option that takes a number, by its word. -/
def numericSetting? : String → Option (UInt64 → Setting)
  | "--frequency" => some .frequency
  | "--steps" => some .steps
  | "--seed" => some .seed
  | _ => none

def settings? : List String → Option (List Setting)
  | [] => some []
  | "--debug" :: rest => do
    let more ← settings? rest
    return .debug :: more
  | word :: value :: rest => do
    let setting ← numericSetting? word
    let n ← number? value.toList
    let more ← settings? rest
    return setting n :: more
  | [_] => none

/-- What a run was asked for. -/
structure Arguments where
  file : String
  frequency : Option UInt64 := none
  steps : Option UInt64 := none
  seed : Option UInt64 := none
  debug : Bool := false
  deriving DecidableEq, Repr

namespace Arguments

/-- The arguments with one option more; it replaces an earlier one of its kind. -/
def apply (a : Arguments) : Setting → Arguments
  | .frequency hertz => { a with frequency := some hertz }
  | .steps count => { a with steps := some count }
  | .seed value => { a with seed := some value }
  | .debug => { a with debug := true }

/-- What the words of a command ask for, if they are a command (`parse_args`). -/
def parse? : List String → Option Arguments
  | "run" :: file :: options => (settings? options).map (·.foldl apply { file := file })
  | _ => none

end Arguments

end ChipEight.CommandLine
