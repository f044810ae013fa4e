import ChipEight.Instr
import ChipEight.Text.Hex
/-!
# Mnemonics

The line of assembly of an instruction: a name, padded to four characters, and the operands in
order, each after a blank.  Registers are `V` and a digit; addresses have three digits, bytes two
and nibbles one, all in upper case.
-/

namespace ChipEight.Instr

/-- The name of the operation, with the fixed operand of the jump and load to an address. -/
def name : Instr → String
  | .clear => "CLS"
  | .ret => "RET"
  | .jump _ => "JP"
  | .call _ => "CALL"
  | .skipEq .. | .skipEqReg .. => "SE"
  | .skipNe .. | .skipNeReg .. => "SNE"
  | .load .. => "LD"
  | .add .. => "ADD"
  | .transfer .copy _ _ => "LD"
  | .transfer .or _ _ => "OR"
  | .transfer .and _ _ => "AND"
  | .transfer .xor _ _ => "XOR"
  | .arith .add _ _ => "ADD"
  | .arith .sub _ _ => "SUB"
  | .arith .subn _ _ => "SUBN"
  | .arith .shr _ _ => "SHR"
  | .arith .shl _ _ => "SHL"
  | .loadIndex _ => "LD I"
  | .jumpOffset _ => "JP V0"
  | .random .. => "RND"
  | .draw .. => "DRW"
  | .skipKey _ => "SKP"
  | .skipNoKey _ => "SKNP"
  | .addIndex _ => "ADD"
  | .readDelay _ | .awaitKey _ | .setDelay _ | .setSound _ | .glyph _ | .decimal _ | .store _
  | .fill _ => "LD"

def registerText (x : Nat) : List Char := 'V' :: Hex.fixed .upper 1 x

def addressText (a : Fin 4096) : List Char := Hex.fixed .upper 3 a.val

def byteText (b : UInt8) : List Char := Hex.byte .upper b

/-- The operands after the name, in order. -/
def operands : Instr → List (List Char)
  | .clear | .ret => []
  | .jump a | .call a | .loadIndex a | .jumpOffset a => [addressText a]
  | .skipEq x b | .skipNe x b | .load x b | .add x b | .random x b =>
    [registerText x.val, byteText b]
  | .skipEqReg x y | .skipNeReg x y | .arith _ x y => [registerText x.val, registerText y.val]
  | .transfer _ x y => [registerText x.val, registerText y.val]
  | .draw x y rows => [registerText x.val, registerText y.val, Hex.fixed .upper 1 rows.val]
  | .skipKey x | .skipNoKey x => [registerText x.val]
  | .readDelay x => [registerText x.val, ['D', 'T']]
  | .awaitKey x => [registerText x.val, ['K']]
  | .setDelay x => [['D', 'T'], registerText x.val]
  | .setSound x => [['S', 'T'], registerText x.val]
  | .addIndex x => [['I'], registerText x.val]
  | .glyph x => [['F'], registerText x.val]
  | .decimal x => [['B'], registerText x.val]
  | .store x => [['[', 'I', ']'], registerText x.val]
  | .fill x => [registerText x.val, ['[', 'I', ']']]

/-- Blanks after a text, up to `width` characters. -/
def padded (width : Nat) (cs : List Char) : List Char :=
  cs ++ List.replicate (width - cs.length) ' '

/-- The instruction as it stands in the log (`op_trace` and its kind).  Without operands the padding
of the name remains; a name longer than the padding stays whole. -/
def mnemonic (i : Instr) : List Char :=
  padded 4 i.name.toList ++ i.operands.flatMap (' ' :: ·)

end ChipEight.Instr
