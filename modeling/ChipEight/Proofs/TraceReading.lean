import ChipEight.Instr.Encoding
import ChipEight.Log
import Mathlib.Algebra.Group.Nat.Defs
/-!
# Reading a trace

A line of the trace determines the address and the opcode of its instruction: `Record.readLine?`
reads them off the line, and nothing off the line of any other record (`Record.readLine?_line`).
A line of assembly is a list of words.  A word that starts with `V` is a register, and
hexadecimal digits are a nibble, a byte or an address by their number; the name and the kinds of the
operands together give the form of the opcode, from one of a few tables.
-/

namespace ChipEight

namespace Hex

theorem readNat?_append_singleton (cs : List Char) (c : Char) :
    readNat? (cs ++ [c]) = (readNat? cs).bind fun n => (digit? c).map (n * 16 + ·) := by
  unfold readNat?
  rw [List.foldlM_append]
  cases cs.foldlM (fun n c => (digit? c).map (n * 16 + ·)) 0 with
  | none => rfl
  | some n => simp

/-- The digits of a number read back, as far as there is room for them. -/
theorem readNat?_fixed (sp : Spelling) (width n : Nat) :
    readNat? (fixed sp width n) = some (n % 16 ^ width) := by
  induction width generalizing n with
  | zero => rw [Nat.pow_zero, Nat.mod_one]; rfl
  | succ width ih =>
    have last := digit?_digit sp (Nat.mod_lt n (by decide : 0 < 16))
    rw [fixed, readNat?_append_singleton, ih, last, Nat.pow_succ', Nat.mod_mul]
    simp only [Option.bind_some, Option.map_some, Option.some.injEq]
    omega

theorem exists_digit_of_mem_fixed {sp : Spelling} {width n : Nat} {c : Char}
    (mem : c ∈ fixed sp width n) : ∃ d < 16, digit sp d = c := by
  induction width generalizing n with
  | zero => cases mem
  | succ width ih =>
    rcases List.mem_append.1 mem with front | last
    · exact ih front
    · exact ⟨n % 16, Nat.mod_lt n (by decide), (List.mem_singleton.1 last).symm⟩

theorem notMem_fixed {c : Char} (other : ∀ d < 16, digit .upper d ≠ c) (width n : Nat) :
    c ∉ fixed .upper width n := by
  intro mem
  obtain ⟨d, small, same⟩ := exists_digit_of_mem_fixed mem
  exact other d small same

/-- Reads exactly so many digits. -/
def readFixed? (width : Nat) (cs : List Char) : Option Nat :=
  if cs.length = width then readNat? cs else none

theorem readFixed?_fixed (sp : Spelling) {width n : Nat} (small : n < 16 ^ width) :
    readFixed? width (fixed sp width n) = some n := by
  rw [readFixed?, if_pos (length_fixed sp width n), readNat?_fixed, Nat.mod_eq_of_lt small]

end Hex

/-! ### Words -/

/-- A text without the mark is one piece. -/
theorem splitOnP_of_notMem {mark : Char} {cs : List Char} (absent : mark ∉ cs) :
    cs.splitOnP (· == mark) = [cs] := by
  apply List.splitOnP_eq_singleton
  intro c mem
  rw [beq_eq_false_iff_ne]
  rintro rfl
  exact absent mem

/-- The words of a text, which stand between blanks. -/
def words (cs : List Char) : List (List Char) := (cs.splitOnP (· == ' ')).filter (!·.isEmpty)

theorem words_append (before after : List Char) :
    words (before ++ ' ' :: after) = words before ++ words after := by
  rw [words, List.splitOnP_append_cons before after (by decide), List.filter_append]
  rfl

theorem words_of_no_blank {w : List Char} (some_letter : w ≠ []) (no_blank : ' ' ∉ w) :
    words w = [w] := by
  rw [words, splitOnP_of_notMem no_blank]
  simp [some_letter]

theorem words_replicate (count : Nat) : words (List.replicate count ' ') = [] := by
  induction count with
  | zero => rfl
  | succ count ih => exact (words_append [] _).trans ih

namespace Instr

theorem words_padded (width : Nat) (cs : List Char) : words (padded width cs) = words cs := by
  unfold padded
  cases width - cs.length with
  | zero => rw [List.replicate_zero, List.append_nil]
  | succ count => rw [List.replicate_succ, words_append, words_replicate, List.append_nil]

/-- Operands are words. -/
theorem words_flatMap {operands : List (List Char)}
    (proper : ∀ w ∈ operands, w ≠ [] ∧ ' ' ∉ w) (before : List Char) :
    words (before ++ operands.flatMap (' ' :: ·)) = words before ++ operands := by
  induction operands generalizing before with
  | nil => rw [List.flatMap_nil, List.append_nil, List.append_nil]
  | cons w rest ih =>
    obtain ⟨some_letter, no_blank⟩ := proper w (List.mem_cons_self ..)
    have others : ∀ w ∈ rest, w ≠ [] ∧ ' ' ∉ w :=
      fun w mem => proper w (List.mem_cons_of_mem _ mem)
    rw [List.flatMap_cons, ← List.append_assoc, ih others, words_append,
      words_of_no_blank some_letter no_blank, List.append_assoc]
    rfl

theorem blank_notMem_fixed (width n : Nat) : ' ' ∉ Hex.fixed .upper width n :=
  Hex.notMem_fixed (by decide) width n

theorem fixed_proper {width : Nat} (some_digit : 0 < width) (n : Nat) :
    Hex.fixed .upper width n ≠ [] ∧ ' ' ∉ Hex.fixed .upper width n := by
  refine ⟨?_, blank_notMem_fixed width n⟩
  intro empty
  have length := Hex.length_fixed .upper width n
  rw [empty, List.length_nil] at length
  omega

theorem registerText_proper (x : Nat) : registerText x ≠ [] ∧ ' ' ∉ registerText x := by
  refine ⟨nofun, ?_⟩
  rw [registerText, List.mem_cons, not_or]
  exact ⟨by decide, blank_notMem_fixed 1 x⟩

theorem operands_proper (i : Instr) : ∀ w ∈ i.operands, w ≠ [] ∧ ' ' ∉ w := by
  have address (a : Fin 4096) := fixed_proper (by decide : 0 < 3) a.val
  have byte (b : UInt8) := fixed_proper (by decide : 0 < 2) b.toNat
  have nibble (n : Nat) := fixed_proper (by decide : 0 < 1) n
  have register := registerText_proper
  cases i <;>
    simp_all [operands, addressText, byteText, Hex.byte]

/-- The words of the name. -/
def nameWords : Instr → List String
  | .loadIndex _ => ["LD", "I"]
  | .jumpOffset _ => ["JP", "V0"]
  | i => [i.name]

theorem words_name (i : Instr) : words i.name.toList = i.nameWords.map String.toList := by
  cases i with
  | transfer op x y => cases op <;> (simp only [nameWords, name]; decide)
  | arith op x y => cases op <;> (simp only [nameWords, name]; decide)
  | _ =>
    simp only [nameWords, name]
    decide

theorem words_mnemonic (i : Instr) :
    words i.mnemonic = i.nameWords.map String.toList ++ i.operands := by
  rw [mnemonic, words_flatMap i.operands_proper, words_padded, words_name]

end Instr

/-! ### Opcodes -/

namespace Opcode

open Instr

def readRegister? : List Char → Option Register
  | 'V' :: digit => (Hex.readFixed? 1 digit).map (Fin.ofNat 16)
  | _ => none

def readNibble? (cs : List Char) : Option (Fin 16) := (Hex.readFixed? 1 cs).map (Fin.ofNat 16)

def readByte? (cs : List Char) : Option UInt8 := (Hex.readFixed? 2 cs).map UInt8.ofNat

def readAddress? (cs : List Char) : Option (Fin 4096) :=
  (Hex.readFixed? 3 cs).map (Fin.ofNat 4096)

theorem readNibble?_fixed (n : Fin 16) : readNibble? (Hex.fixed .upper 1 n.val) = some n := by
  rw [readNibble?, Hex.readFixed?_fixed .upper n.isLt, Option.map_some, Fin.ofNat_val_eq_self]

theorem readRegister?_registerText (x : Register) :
    readRegister? (registerText x.val) = some x := readNibble?_fixed x

theorem readByte?_byteText (b : UInt8) : readByte? (byteText b) = some b := by
  rw [readByte?, byteText, Hex.byte, Hex.readFixed?_fixed .upper b.toNat_lt, Option.map_some,
    UInt8.ofNat_toNat]

theorem readAddress?_addressText (a : Fin 4096) : readAddress? (addressText a) = some a := by
  rw [readAddress?, addressText, Hex.readFixed?_fixed .upper a.isLt, Option.map_some,
    Fin.ofNat_val_eq_self]

/-- A register is no byte: its first letter is no digit. -/
theorem readByte?_registerText (x : Nat) : readByte? (registerText x) = none := by
  have letter : Hex.readNat? (registerText x) = none := rfl
  unfold readByte? Hex.readFixed?
  split
  · rw [letter]
    rfl
  · rfl

/-- An address is neither a byte nor a register: it is too long. -/
theorem readByte?_addressText (a : Fin 4096) : readByte? (addressText a) = none := by
  have length : (addressText a).length ≠ 2 := by
    rw [addressText, Hex.length_fixed]
    decide
  rw [readByte?, Hex.readFixed?, if_neg length]
  rfl

theorem readRegister?_addressText (a : Fin 4096) : readRegister? (addressText a) = none := by
  have length : (addressText a).length = 3 := Hex.length_fixed .upper 3 a.val
  generalize addressText a = cs at length
  unfold readRegister?
  split
  · rename_i digits
    have long : digits.length ≠ 1 := by
      rw [List.length_cons] at length
      omega
    rw [Hex.readFixed?, if_neg long]
    rfl
  · rfl

/-- The names that stand where registers do are no registers, and no bytes either. -/
theorem named : ∀ w ∈ [['D', 'T'], ['S', 'T'], ['K'], ['I'], ['F'], ['B'], ['[', 'I', ']']],
    readRegister? w = none ∧ readByte? w = none := by
  decide

/-! ### Tables -/

/-- The family of a form with a register and a byte. -/
def byteFamily? : String → Option Nat
  | "SE" => some 0x3
  | "SNE" => some 0x4
  | "LD" => some 0x6
  | "ADD" => some 0x7
  | "RND" => some 0xC
  | _ => none

/-- The family and the last nibble of a form with two registers. -/
def pairForm? : String → Option (Nat × Fin 16)
  | "SE" => some (0x5, 0x0)
  | "LD" => some (0x8, 0x0)
  | "OR" => some (0x8, 0x1)
  | "AND" => some (0x8, 0x2)
  | "XOR" => some (0x8, 0x3)
  | "ADD" => some (0x8, 0x4)
  | "SUB" => some (0x8, 0x5)
  | "SHR" => some (0x8, 0x6)
  | "SUBN" => some (0x8, 0x7)
  | "SHL" => some (0x8, 0xE)
  | "SNE" => some (0x9, 0x0)
  | _ => none

/-- The byte of a form that loads a register from something with a name. -/
def sourceCode? : String → Option UInt8
  | "DT" => some 0x07
  | "K" => some 0x0A
  | "[I]" => some 0x65
  | _ => none

/-- The byte of a form that loads something with a name from a register, or adds the register. -/
def targetCode? : String → String → Option UInt8
  | "LD", "DT" => some 0x15
  | "LD", "ST" => some 0x18
  | "ADD", "I" => some 0x1E
  | "LD", "F" => some 0x29
  | "LD", "B" => some 0x33
  | "LD", "[I]" => some 0x55
  | _, _ => none

/-- The opcode of a name without operands. -/
def ofName? : String → Option Opcode
  | "CLS" => some 0x00E0
  | "RET" => some 0x00EE
  | _ => none

def ofUnary? (name : String) (a : List Char) : Option Opcode :=
  match name with
  | "JP" => (readAddress? a).map (formNnn 0x1)
  | "CALL" => (readAddress? a).map (formNnn 0x2)
  | "SKP" => (readRegister? a).map (formXnn 0xE · 0x9E)
  | "SKNP" => (readRegister? a).map (formXnn 0xE · 0xA1)
  | _ => none

/-- What stands behind a register: a byte, another register, an address for the jump, or the name of
something. -/
def ofRegister? (name : String) (x : Register) (b : List Char) : Option Opcode :=
  match readByte? b, readRegister? b with
  | some nn, _ => (byteFamily? name).map (formXnn · x nn)
  | none, some y => (pairForm? name).map fun form => formXyn form.1 x y form.2
  | none, none =>
    if name = "JP" then (readAddress? b).map (formNnn 0xB)
    else (sourceCode? (String.ofList b)).map (formXnn 0xF x)

def ofBinary? (name : String) (a b : List Char) : Option Opcode :=
  match readRegister? a, readRegister? b with
  | some x, _ => ofRegister? name x b
  | none, some y => (targetCode? name (String.ofList a)).map (formXnn 0xF y)
  | none, none => (readAddress? b).map (formNnn 0xA)

def ofTernary? (a b c : List Char) : Option Opcode := do
  let x ← readRegister? a
  let y ← readRegister? b
  let n ← readNibble? c
  return formXyn 0xD x y n

def ofWords? : List (List Char) → Option Opcode
  | [name] => ofName? (String.ofList name)
  | [name, a] => ofUnary? (String.ofList name) a
  | [name, a, b] => ofBinary? (String.ofList name) a b
  | [_, a, b, c] => ofTernary? a b c
  | _ => none

/-- The opcode of a line of assembly. -/
def read? (cs : List Char) : Option Opcode := ofWords? (words cs)

/-- The line of an instruction determines its opcode. -/
theorem read?_mnemonic (i : Instr) : read? i.mnemonic = some (encode i) := by
  rw [read?, words_mnemonic]
  have named := named
  simp only [List.forall_mem_cons] at named
  cases i with
  | clear | ret => rfl
  | jump a | call a =>
    simp [nameWords, name, operands, ofWords?, ofUnary?, readAddress?_addressText, encode]
  | skipKey x | skipNoKey x =>
    simp [nameWords, name, operands, ofWords?, ofUnary?, readRegister?_registerText, encode]
  | skipEq x b | skipNe x b | load x b | add x b | random x b =>
    simp [nameWords, name, operands, ofWords?, ofBinary?, ofRegister?,
      readRegister?_registerText, readByte?_byteText, byteFamily?, encode]
  | skipEqReg x y | skipNeReg x y =>
    simp [nameWords, name, operands, ofWords?, ofBinary?, ofRegister?,
      readRegister?_registerText, readByte?_registerText, pairForm?, encode]
  | transfer op x y =>
    have first := readRegister?_registerText x.castSucc
    have second := readRegister?_registerText y.castSucc
    rw [Fin.val_castSucc] at first second
    cases op <;>
      simp [nameWords, name, operands, ofWords?, ofBinary?, ofRegister?, first, second,
        readByte?_registerText, pairForm?, encode, transferCode]
  | arith op x y =>
    cases op <;>
      simp [nameWords, name, operands, ofWords?, ofBinary?, ofRegister?,
        readRegister?_registerText, readByte?_registerText, pairForm?, encode, arithCode]
  | loadIndex a =>
    simp [nameWords, operands, ofWords?, ofBinary?, named, readRegister?_addressText,
      readAddress?_addressText, encode]
  | jumpOffset a =>
    have zero : readRegister? ['V', '0'] = some 0 := readRegister?_registerText 0
    simp [nameWords, operands, ofWords?, ofBinary?, ofRegister?, zero, readByte?_addressText,
      readRegister?_addressText, readAddress?_addressText, encode]
  | draw x y rows =>
    simp [nameWords, name, operands, ofWords?, ofTernary?, readRegister?_registerText,
      readNibble?_fixed, encode]
  | readDelay x | awaitKey x | fill x =>
    simp [nameWords, name, operands, ofWords?, ofBinary?, ofRegister?, named,
      readRegister?_registerText, sourceCode?, encode]
  | setDelay x | setSound x | addIndex x | glyph x | decimal x | store x =>
    simp [nameWords, name, operands, ofWords?, ofBinary?, named, readRegister?_registerText,
      targetCode?, encode]

end Opcode

namespace Record

/-! ### Lines -/

/-- The address and the opcode of a line of the trace. -/
def readTrace? (cs : List Char) : Option (Address × Opcode) :=
  if (cs.drop 4).take 2 = [':', ' '] then
    (Hex.readFixed? 4 (cs.take 4)).bind fun pc =>
      (Opcode.read? (cs.drop 6)).map fun op => (UInt16.ofNat pc, op)
  else none

theorem readTrace?_trace (pc : Address) (i : Instr) :
    readTrace? (trace pc i) = some (pc, i.encode) := by
  have length : (Hex.fixed .upper 4 pc.toNat).length = 4 := Hex.length_fixed ..
  have digits : (trace pc i).take 4 = Hex.fixed .upper 4 pc.toNat := by
    rw [trace, List.append_assoc]
    exact List.take_left' length
  have rest : (trace pc i).drop 4 = ':' :: ' ' :: i.mnemonic := by
    rw [trace, List.append_assoc]
    exact List.drop_left' length
  have line : (trace pc i).drop 6 = i.mnemonic := by
    rw [show 6 = 4 + 2 from rfl, ← List.drop_drop, rest]
    rfl
  have colon : (':' :: ' ' :: i.mnemonic).take 2 = [':', ' '] := rfl
  rw [readTrace?, digits, rest, line, if_pos colon, Hex.readFixed?_fixed .upper pc.toNat_lt,
    Opcode.read?_mnemonic, Option.bind_some, Option.map_some, UInt16.ofNat_toNat]

/-- The address and the opcode of a line of the log, if it records an instruction. -/
def readLine? (line : String) : Option (Address × Opcode) :=
  if line.toList.take 6 = "DEBUG ".toList then readTrace? (line.toList.drop 6) else none

/-- The instruction that is recorded, and where it stood. -/
def instruction? : Record → Option (Address × Opcode)
  | .executing pc i => some (pc, i.encode)
  | .keyArrived .. | .soundOver | .stopped _ | .loaded _ | .reset | .beeped => none

theorem readLine?_debug {r : Record} (debug : r.level = .debug) :
    readLine? r.line = readTrace? r.text.toList := by
  have chars : r.line.toList = "DEBUG ".toList ++ r.text.toList := by
    rw [line, debug, String.toList_append, String.toList_append]
    rfl
  rw [readLine?, chars]
  rfl

theorem readLine?_of_ne_debug {r : Record} (other : r.level ≠ .debug) :
    readLine? r.line = none := by
  have chars : r.line.toList = r.level.name.toList ++ ' ' :: r.text.toList := by
    rw [line, String.toList_append, String.toList_append, List.append_assoc]
    rfl
  rw [readLine?, chars, if_neg]
  intro same
  have first := congrArg List.head? same
  cases level : r.level with
  | debug => exact other level
  | info | error => simp [level, Level.name] at first

/-- A line says of itself whether it records an instruction, and which. -/
theorem readLine?_line (r : Record) : readLine? r.line = r.instruction? := by
  cases r with
  | executing pc i =>
    have debug : (executing pc i).level = .debug := rfl
    have chars : (executing pc i).text.toList = trace pc i := String.toList_ofList
    rw [readLine?_debug debug, chars, readTrace?_trace]
    rfl
  | keyArrived key x =>
    obtain ⟨rest, chars⟩ : ∃ rest,
        (keyArrived key x).text.toList = ['k', 'e', 'y', ' '] ++ 'k' :: rest := by
      refine ⟨Hex.fixed .lower 1 key.code.val ++ " into ".toList ++
        Instr.registerText x.val, ?_⟩
      change ("key " ++ key.label ++ " into " ++ String.ofList _).toList = _
      simp [Key.label]
    have debug : (keyArrived key x).level = .debug := rfl
    rw [readLine?_debug debug, readTrace?, chars, if_neg]
    · rfl
    · intro colon
      cases colon
  | soundOver =>
    have debug : soundOver.level = .debug := rfl
    rw [readLine?_debug debug]
    rfl
  | stopped f => exact readLine?_of_ne_debug nofun
  | loaded | reset | beeped => exact readLine?_of_ne_debug nofun

/-- The text of a recorded instruction determines where it stood and its opcode. -/
theorem executing_of_text {p q : Address} {i j : Instr}
    (same : (executing p i).text = (executing q j).text) : p = q ∧ i.encode = j.encode := by
  have lines : (executing p i).line = (executing q j).line := by
    rw [line, line, same]
    rfl
  have read := congrArg readLine? lines
  rw [readLine?_line, readLine?_line] at read
  obtain ⟨address, opcode⟩ := Prod.mk.inj (Option.some.inj read)
  exact ⟨address, opcode⟩

end Record

end ChipEight
