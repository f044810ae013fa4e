/-!
# Numbers on the command line

A number word is an optional plus sign and one or more decimal digits, with a value below 2^64.
Zeros may lead, in any number; nothing else is a number.
-/

namespace ChipEight.CommandLine

/-- The value of decimal digits, the most significant first. -/
def digitsValue (digits : List Char) : Nat :=
  digits.foldl (fun n c => n * 10 + (c.toNat - 48)) 0

/-- The word without its plus sign, if it has one. -/
def dropPlus : List Char → List Char
  | '+' :: rest => rest
  | cs => cs

/-- Decimal digits, at least one, whose value fits in 64 bits. -/
def isNumeral (digits : List Char) : Bool :=
  !digits.isEmpty && digits.all Char.isDigit && decide (digitsValue digits < 18446744073709551616)

/-- The value of a number word (`consume_number`). -/
def number? (word : List Char) : Option UInt64 :=
  let digits := dropPlus word
  if isNumeral digits then some (UInt64.ofNat (digitsValue digits)) else none

end ChipEight.CommandLine
