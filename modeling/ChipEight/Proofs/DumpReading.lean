import ChipEight.Dump
import ChipEight.Proofs.TraceReading
/-!
# Reading the dumps

The dump of memory is cut into lines at its newlines, and a line at its colon: the address stands
before the colon and the digits of the bytes behind it.  The dump of the registers is cut into
words at its blanks, and a word at its equals sign.  Nothing else has to be known of the widths of
the numbers, so that the depth of the call stack may take one digit or two.
-/

namespace ChipEight

namespace Hex

theorem lt_pow_digitCount (n : Nat) : n < 16 ^ digitCount n := by
  have bits : n.log2 + 1 ≤ 4 * digitCount n := by
    unfold digitCount
    omega
  calc
    n < 2 ^ (n.log2 + 1) := Nat.lt_log2_self
    _ ≤ 2 ^ (4 * digitCount n) := Nat.pow_le_pow_right (by decide) bits
    _ = 16 ^ digitCount n := Nat.pow_mul 2 4 _

/-- A number that is padded to a width reads back, whether or not it has room in the width. -/
theorem readNat?_atLeast (sp : Spelling) (width n : Nat) :
    readNat? (atLeast sp width n) = some n := by
  have small : n < 16 ^ max width (digitCount n) :=
    Nat.lt_of_lt_of_le (lt_pow_digitCount n)
      (Nat.pow_le_pow_right (by decide) (Nat.le_max_right ..))
  rw [atLeast, readNat?_fixed, Nat.mod_eq_of_lt small]

theorem exists_digit_of_mem_bytes {sp : Spelling} {bs : List UInt8} {c : Char}
    (mem : c ∈ bytes sp bs) : ∃ d < 16, digit sp d = c := by
  obtain ⟨b, _, mem⟩ := List.mem_flatMap.1 mem
  exact exists_digit_of_mem_fixed mem

end Hex

/-! ### Cutting texts -/

/-- What stands before the first mark, and what behind it. -/
def cut (mark : Char) (cs : List Char) : List Char × List Char :=
  (cs.takeWhile (· != mark), (cs.dropWhile (· != mark)).tail)

theorem cut_append {mark : Char} {before : List Char} (absent : mark ∉ before)
    (after : List Char) : cut mark (before ++ mark :: after) = (before, after) := by
  have plain : ∀ c ∈ before, (c != mark) = true := by
    intro c mem
    rw [bne_iff_ne]
    rintro rfl
    exact absent mem
  rw [cut, List.takeWhile_append_of_pos plain, List.dropWhile_append_of_pos plain]
  simp

/-- The lines of a text that ends with a newline. -/
def lines (text : List Char) : List (List Char) := (text.splitOnP (· == '\n')).dropLast

theorem lines_flatMap {ls : List (List Char)} (unbroken : ∀ l ∈ ls, '\n' ∉ l) :
    lines (ls.flatMap (· ++ ['\n'])) = ls := by
  -- The last newline leaves an empty piece behind.
  have pieces : (ls.flatMap (· ++ ['\n'])).splitOnP (· == '\n') = ls ++ [[]] := by
    induction ls with
    | nil => rfl
    | cons l rest ih =>
      have others := ih fun l mem => unbroken l (List.mem_cons_of_mem _ mem)
      rw [List.flatMap_cons, List.append_assoc, List.singleton_append,
        List.splitOnP_append_cons l _ (by decide),
        splitOnP_of_notMem (unbroken l (List.mem_cons_self ..)), others]
      rfl
  rw [lines, pieces, List.dropLast_concat]

namespace Memory

theorem take_drop_read (m : Memory) (start length k n : Nat) :
    ((m.read start length).drop k).take n = m.read (start + k) (min n (length - k)) := by
  apply List.ext_getElem
  · rw [List.length_take, List.length_drop, length_read, length_read]
  · intro j left right
    simp only [read, List.getElem_take, List.getElem_drop, List.getElem_map, List.getElem_range,
      Nat.add_assoc]

end Memory

namespace Dump

/-! ### Memory -/

/-- The line of bytes from an address on. -/
def line (start : Nat) (bs : List UInt8) : List Char :=
  Hex.fixed .upper 4 start ++ [':', ' '] ++ Hex.bytes .upper bs

theorem memoryLines_single (start : Nat) (a : UInt8) :
    memoryLines start [a] = [line start [a]] := by
  rw [memoryLines, line, Hex.bytes, List.flatMap_cons, List.flatMap_nil, List.append_nil]

theorem memoryLines_pair (start : Nat) (a b : UInt8) (rest : List UInt8) :
    memoryLines start (a :: b :: rest) = line start [a, b] :: memoryLines (start + 2) rest := by
  rw [memoryLines, line, Hex.bytes, List.flatMap_cons, List.flatMap_cons, List.flatMap_nil,
    List.append_nil, List.append_assoc]

/-- The lines by their numbers. -/
theorem memoryLines_eq (start : Nat) (bs : List UInt8) :
    memoryLines start bs = (List.range ((bs.length + 1) / 2)).map fun k =>
      line (start + 2 * k) ((bs.drop (2 * k)).take 2) := by
  induction start, bs using memoryLines.induct with
  | case1 start => rfl
  | case2 start a =>
    rw [memoryLines_single, List.length_singleton]
    rfl
  | case3 start a b rest ih =>
    have count : ((a :: b :: rest).length + 1) / 2 = (rest.length + 1) / 2 + 1 := by
      simp only [List.length_cons]
      omega
    rw [memoryLines_pair, count, List.range_succ_eq_map, List.map_cons, List.map_map, ih]
    congr 1
    apply List.map_congr_left
    intro k _
    have address : start + 2 + 2 * k = start + 2 * (k + 1) := by omega
    rw [Function.comp, address, Nat.mul_succ]
    rfl

/-- What stands before the colon of a line. -/
def label (l : List Char) : List Char := (cut ':' l).1

/-- The digits that stand behind the colon of a line. -/
def digits (l : List Char) : List Char := (cut ':' l).2.filter fun c => (Hex.digit? c).isSome

theorem cut_line (start : Nat) (bs : List UInt8) :
    cut ':' (line start bs) = (Hex.fixed .upper 4 start, ' ' :: Hex.bytes .upper bs) := by
  rw [line, List.append_assoc]
  exact cut_append (Hex.notMem_fixed (by decide) 4 start) _

theorem label_line (start : Nat) (bs : List UInt8) :
    label (line start bs) = Hex.fixed .upper 4 start := by
  rw [label, cut_line]

theorem digits_line (start : Nat) (bs : List UInt8) :
    digits (line start bs) = Hex.bytes .upper bs := by
  have all : ∀ c ∈ Hex.bytes .upper bs, (Hex.digit? c).isSome = true := by
    intro c mem
    obtain ⟨d, small, rfl⟩ := Hex.exists_digit_of_mem_bytes mem
    rw [Hex.digit?_digit .upper small]
    rfl
  rw [digits, cut_line, List.filter_cons_of_neg (by decide), List.filter_eq_self]
  exact all

theorem newline_notMem_line (start : Nat) (bs : List UInt8) : '\n' ∉ line start bs := by
  have other : ∀ d < 16, Hex.digit .upper d ≠ '\n' := by decide
  rw [line, List.mem_append, List.mem_append, not_or, not_or]
  refine ⟨⟨Hex.notMem_fixed other 4 start, by decide⟩, ?_⟩
  intro mem
  obtain ⟨d, small, same⟩ := Hex.exists_digit_of_mem_bytes mem
  exact other d small same

theorem flatMap_digits_memoryLines (start : Nat) (bs : List UInt8) :
    (memoryLines start bs).flatMap digits = Hex.bytes .upper bs := by
  induction start, bs using memoryLines.induct with
  | case1 start => rfl
  | case2 start a =>
    rw [memoryLines_single, List.flatMap_cons, List.flatMap_nil, List.append_nil, digits_line]
  | case3 start a b rest ih =>
    rw [memoryLines_pair, List.flatMap_cons, ih, digits_line]
    exact List.flatMap_append.symm

theorem newline_notMem_of_mem {start : Nat} {bs : List UInt8} {l : List Char}
    (mem : l ∈ memoryLines start bs) : '\n' ∉ l := by
  rw [memoryLines_eq, List.mem_map] at mem
  obtain ⟨k, _, rfl⟩ := mem
  exact newline_notMem_line _ _

theorem lines_memory (m : Memory) (count : Nat) :
    lines (memory m count).toList = memoryLines 512 (m.read 512 (min count 3584)) := by
  rw [memory, String.toList_ofList]
  exact lines_flatMap fun l mem => newline_notMem_of_mem mem

theorem line_of_getElem? {m : Memory} {length k : Nat} {l : List Char}
    (kth : (memoryLines 512 (m.read 512 length))[k]? = some l) :
    k < (length + 1) / 2 ∧
      l = line (512 + 2 * k) (m.read (512 + 2 * k) (if length = 2 * k + 1 then 1 else 2)) := by
  rw [memoryLines_eq, Memory.length_read, List.getElem?_map, Option.map_eq_some_iff] at kth
  obtain ⟨j, listed, rfl⟩ := kth
  obtain ⟨within, rfl⟩ := List.getElem?_eq_some_iff.1 listed
  rw [List.length_range] at within
  have held : min 2 (length - 2 * k) = if length = 2 * k + 1 then 1 else 2 := by
    split <;> omega
  refine ⟨within, ?_⟩
  rw [List.getElem_range, Memory.take_drop_read, held]

/-- A line reads back as its address and the bytes there. -/
theorem reads_of_getElem? {m : Memory} {length k : Nat} {l : List Char} (fits : length ≤ 3584)
    (kth : (memoryLines 512 (m.read 512 length))[k]? = some l) :
    Hex.readFixed? 4 (label l) = some (512 + 2 * k) ∧
      Hex.readBytes? (digits l) =
        some (m.read (512 + 2 * k) (if length = 2 * k + 1 then 1 else 2)) := by
  obtain ⟨within, rfl⟩ := line_of_getElem? kth
  have small : 512 + 2 * k < 16 ^ 4 := by omega
  rw [label_line, digits_line]
  exact ⟨Hex.readFixed?_fixed .upper small, Hex.readBytes?_bytes .upper _⟩

/-! ### Registers -/

/-- The name and the number of a word with an equals sign. -/
def readField? (word : List Char) : Option (List Char × Nat) :=
  (Hex.readNat? (cut '=' word).2).map fun n => ((cut '=' word).1, n)

theorem readField?_field {name : List Char} (plain : '=' ∉ name) (width n : Nat) :
    readField? (field name width n) = some (name, n) := by
  rw [readField?, field, cut_append plain, Hex.readNat?_atLeast]
  rfl

/-- A number with its name and its least width. -/
structure Item where
  name : List Char
  width : Nat
  value : Nat

def Item.text (item : Item) : List Char := field item.name item.width item.value

/-- What the line of the registers consists of. -/
def items (m : Machine) : List Item :=
  [⟨['P', 'C'], 4, m.pc.toNat⟩, ⟨['I'], 4, m.index.toNat⟩, ⟨['S', 'P'], 1, m.stack.depth⟩,
    ⟨['D', 'T'], 2, m.delay.toNat⟩, ⟨['S', 'T'], 2, m.sound.toNat⟩] ++
  (List.finRange 16).map fun x => ⟨Instr.registerText x.val, 2, (m.reg x).toNat⟩

/-- The names, which are the same for all machines. -/
def names : List (List Char) :=
  [['P', 'C'], ['I'], ['S', 'P'], ['D', 'T'], ['S', 'T']] ++
  (List.finRange 16).map fun x => Instr.registerText x.val

theorem map_name_items (m : Machine) : (items m).map Item.name = names := by
  rw [items, List.map_append, List.map_map]
  rfl

theorem name_plain {m : Machine} {item : Item} (mem : item ∈ items m) :
    ' ' ∉ item.name ∧ '=' ∉ item.name := by
  have plain : ∀ name ∈ names, ' ' ∉ name ∧ '=' ∉ name := by decide
  apply plain
  rw [← map_name_items m]
  exact List.mem_map_of_mem mem

theorem field_proper {name : List Char} (plain : ' ' ∉ name) (width n : Nat) :
    field name width n ≠ [] ∧ ' ' ∉ field name width n := by
  refine ⟨List.append_ne_nil_of_right_ne_nil _ (List.cons_ne_nil _ _), ?_⟩
  rw [field, List.mem_append, List.mem_cons, not_or, not_or]
  exact ⟨plain, by decide, Hex.notMem_fixed (by decide) _ n⟩

theorem toList_registers (m : Machine) : (registers m).toList =
    field ['P', 'C'] 4 m.pc.toNat ++ ((items m).tail.map Item.text).flatMap (' ' :: ·) := by
  rw [registers, String.toList_ofList, items, List.cons_append, List.tail_cons]
  simp [Item.text, List.flatMap_map]

/-- The words of the line are its items. -/
theorem words_registers (m : Machine) :
    words (registers m).toList = (items m).map Item.text := by
  have proper : ∀ w ∈ (items m).tail.map Item.text, w ≠ [] ∧ ' ' ∉ w := by
    intro w mem
    obtain ⟨item, listed, rfl⟩ := List.mem_map.1 mem
    exact field_proper (name_plain (List.mem_of_mem_tail listed)).1 _ _
  obtain ⟨some_letter, no_blank⟩ := field_proper (by decide : ' ' ∉ ['P', 'C']) 4 m.pc.toNat
  rw [toList_registers, Instr.words_flatMap proper, words_of_no_blank some_letter no_blank]
  rfl

/-- The line reads back as the names and the numbers of its items. -/
theorem readField?_registers (m : Machine) :
    (words (registers m).toList).map readField? =
      (items m).map fun item => some (item.name, item.value) := by
  rw [words_registers, List.map_map]
  apply List.map_congr_left
  intro item mem
  exact readField?_field (name_plain mem).2 item.width item.value

theorem value_items_of_registers {m n : Machine} (same : registers m = registers n) :
    (items m).map Item.value = (items n).map Item.value := by
  have values (m : Machine) : ((words (registers m).toList).map readField?).filterMap
      (·.map Prod.snd) = (items m).map Item.value := by
    rw [readField?_registers, List.filterMap_map]
    exact congrFun List.filterMap_eq_map (items m)
  rw [← values m, ← values n, same]

/-- The line of the registers determines them all. -/
theorem registers_determine {m n : Machine} (same : registers m = registers n) :
    m.pc = n.pc ∧ m.index = n.index ∧ m.stack.depth = n.stack.depth ∧ m.delay = n.delay ∧
      m.sound = n.sound ∧ ∀ x, m.reg x = n.reg x := by
  have values := value_items_of_registers same
  simp only [items, List.map_cons, List.map_map, List.cons_append, List.nil_append,
    List.cons.injEq] at values
  obtain ⟨pc, index, depth, delay, sound, registers⟩ := values
  refine ⟨UInt16.toNat_inj.1 pc, UInt16.toNat_inj.1 index, depth, UInt8.toNat_inj.1 delay,
    UInt8.toNat_inj.1 sound, ?_⟩
  intro x
  exact UInt8.toNat_inj.1 (List.map_inj_left.1 registers x (List.mem_finRange x))

/-- **Both dumps read back.**  The dump of memory is lines, as many as there are pairs of bytes
with an odd one at the end; each bears its address, and the digits of all of them are the bytes.
The dump of the registers is their names and numbers in order, and so determines the registers. -/
theorem dumps_read_back :
    (∀ (m : Memory) (count : Nat), ∃ ls : List (List Char),
      (memory m count).toList = ls.flatMap (· ++ ['\n']) ∧ lines (memory m count).toList = ls ∧
      ls.length = (min count 3584 + 1) / 2 ∧
      Hex.readBytes? (ls.flatMap digits) = some (m.read 512 (min count 3584)) ∧
      ∀ k l, ls[k]? = some l →
        Hex.readFixed? 4 (label l) = some (512 + 2 * k) ∧
        Hex.readBytes? (digits l) =
          some (m.read (512 + 2 * k) (if min count 3584 = 2 * k + 1 then 1 else 2))) ∧
    (∀ m : Machine, (words (registers m).toList).map readField? =
      (items m).map fun item => some (item.name, item.value)) ∧
    ∀ m n : Machine, registers m = registers n →
      m.pc = n.pc ∧ m.index = n.index ∧ m.stack.depth = n.stack.depth ∧ m.delay = n.delay ∧
        m.sound = n.sound ∧ ∀ x, m.reg x = n.reg x := by
  refine ⟨?_, readField?_registers, fun m n => registers_determine⟩
  intro m count
  refine ⟨memoryLines 512 (m.read 512 (min count 3584)), String.toList_ofList,
    lines_memory m count, ?_, ?_, ?_⟩
  · rw [memoryLines_eq, List.length_map, List.length_range, Memory.length_read]
  · rw [flatMap_digits_memoryLines, Hex.readBytes?_bytes]
  · intro k l kth
    exact reads_of_getElem? (Nat.min_le_right ..) kth

/-- The third byte of a program has the second line to itself, and a machine has the same registers
before and after it is loaded. -/
theorem dumps_read_back_odd_tail :
    let m := Machine.initial (.ofSeed 0)
    let loaded := m.withProgram [0x60, 0x05, 0xA0]
    memory loaded.memory 3 = "0200: 6005\n0202: A0\n" ∧
      Hex.readFixed? 4 (label "0202: A0".toList) = some 514 ∧
      Hex.readBytes? (digits "0202: A0".toList) = some (loaded.memory.read 514 1) ∧
      registers loaded = registers m ∧ loaded.stack.depth = m.stack.depth := by
  intro m loaded
  have bytes : loaded.memory.read 512 3 = [0x60, 0x05, 0xA0] := by
    simp [loaded, Machine.withProgram, Memory.read, Memory.get_write, List.range_succ]
  have text : memory loaded.memory 3 = "0200: 6005\n0202: A0\n" := by
    rw [memory, show min 3 Platform.programCapacity = 3 from rfl, bytes]
    decide
  obtain ⟨ls, _, pieces, _, _, kth⟩ := dumps_read_back.1 loaded.memory 3
  have second : ls[1]? = some "0202: A0".toList := by
    rw [← pieces, text]
    decide
  obtain ⟨address, held⟩ := kth 1 _ second
  have unseen (m : Machine) (memory : Memory) :
      registers { m with memory := memory } = registers m := rfl
  have same : registers loaded = registers m := unseen m _
  exact ⟨text, address, held, same, (dumps_read_back.2.2 loaded m same).2.2.1⟩

end Dump

end ChipEight
