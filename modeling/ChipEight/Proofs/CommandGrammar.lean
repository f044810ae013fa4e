import ChipEight.CommandLine.Arguments
import Mathlib.Data.List.Induction
import Mathlib.Data.Nat.Digits.Defs
/-!
# The grammar of the command line

`Options settings words` says that the words spell the settings, one option after the other, and
`Arguments.Requested` what a list of settings asks for.  The parser accepts the command lines of
this grammar and no others (`Arguments.command_grammar`).  Both directions rest on the step over
one option: its words are taken off whatever stands behind them (`settings?_append`), so that what
is wrong behind well-formed options is wrong in the whole line.
-/

namespace ChipEight.CommandLine

/-! ### Numbers -/

/-- The value of decimal digits by their places, the last one being that of the ones. -/
def placeValue (digits : List Char) : Nat :=
  Nat.ofDigits 10 (digits.reverse.map fun c => c.toNat - '0'.toNat)

/-- The word is one or more decimal digits for `n`, behind a plus sign or not.  There are words for
the numbers below 2^64 only. -/
def IsNumber (word : String) (n : UInt64) : Prop :=
  ∃ digits, (word.toList = digits ∨ word.toList = '+' :: digits) ∧ digits ≠ [] ∧
    (∀ c ∈ digits, '0' ≤ c ∧ c ≤ '9') ∧ placeValue digits = n.toNat

theorem digitsValue_append_singleton (digits : List Char) (c : Char) :
    digitsValue (digits ++ [c]) = digitsValue digits * 10 + (c.toNat - 48) := by
  rw [digitsValue, List.foldl_append]
  rfl

theorem digitsValue_eq_placeValue (digits : List Char) :
    digitsValue digits = placeValue digits := by
  induction digits using List.reverseRecOn with
  | nil => rfl
  | append_singleton digits c ih =>
    rw [digitsValue_append_singleton, ih, placeValue, placeValue, List.reverse_append,
      List.reverse_singleton, List.singleton_append, List.map_cons, Nat.ofDigits_cons,
      Nat.add_comm, Nat.mul_comm]
    rfl

theorem isDigit_iff (c : Char) : c.isDigit = true ↔ '0' ≤ c ∧ c ≤ '9' := by
  rw [Char.isDigit, Bool.and_eq_true, decide_eq_true_eq, decide_eq_true_eq]
  rfl

theorem isNumeral_iff (digits : List Char) :
    isNumeral digits = true ↔
      digits ≠ [] ∧ (∀ c ∈ digits, '0' ≤ c ∧ c ≤ '9') ∧ placeValue digits < 2 ^ 64 := by
  simp only [isNumeral, Bool.and_eq_true, Bool.not_eq_true', List.isEmpty_eq_false_iff,
    List.all_eq_true, isDigit_iff, decide_eq_true_eq, digitsValue_eq_placeValue, and_assoc]
  rfl

/-- Only one plus sign is dropped, and none from digits. -/
theorem dropPlus_eq_of_digits {word digits : List Char}
    (decimal : ∀ c ∈ digits, '0' ≤ c ∧ c ≤ '9') (form : word = digits ∨ word = '+' :: digits) :
    dropPlus word = digits := by
  rcases form with rfl | rfl
  · unfold dropPlus
    split
    · rename_i rest
      have plus := (decimal '+' (List.mem_cons_self ..)).1
      exact absurd plus (by decide)
    · rfl
  · rfl

theorem eq_or_eq_plus_dropPlus (word : List Char) :
    word = dropPlus word ∨ word = '+' :: dropPlus word := by
  unfold dropPlus
  split
  · right
    rfl
  · left
    rfl

theorem number?_eq_some_iff (word : String) (n : UInt64) :
    number? word.toList = some n ↔ IsNumber word n := by
  rw [number?]
  constructor
  · intro read
    by_cases numeral : isNumeral (dropPlus word.toList) = true
    · obtain ⟨some_digit, decimal, small⟩ := (isNumeral_iff _).1 numeral
      rw [if_pos numeral, Option.some.injEq] at read
      refine ⟨dropPlus word.toList, eq_or_eq_plus_dropPlus _, some_digit, decimal, ?_⟩
      rw [← read, digitsValue_eq_placeValue, UInt64.toNat_ofNat', Nat.mod_eq_of_lt small]
    · rw [if_neg numeral] at read
      cases read
  · rintro ⟨digits, form, some_digit, decimal, value⟩
    have small : placeValue digits < 2 ^ 64 := by
      rw [value]
      exact n.toNat_lt
    rw [dropPlus_eq_of_digits decimal form,
      if_pos ((isNumeral_iff digits).2 ⟨some_digit, decimal, small⟩), digitsValue_eq_placeValue,
      value, UInt64.ofNat_toNat]

/-! ### Options -/

/-- The words of one option. -/
inductive Setting.Spelled : Setting → List String → Prop
  | debug : Spelled .debug ["--debug"]
  | frequency {word : String} {n : UInt64} (number : IsNumber word n) :
      Spelled (.frequency n) ["--frequency", word]
  | steps {word : String} {n : UInt64} (number : IsNumber word n) :
      Spelled (.steps n) ["--steps", word]
  | seed {word : String} {n : UInt64} (number : IsNumber word n) :
      Spelled (.seed n) ["--seed", word]

/-- The words of options, one after the other. -/
inductive Options : List Setting → List String → Prop
  | nil : Options [] []
  | cons {setting : Setting} {settings : List Setting} {first rest : List String}
      (head : setting.Spelled first) (tail : Options settings rest) :
      Options (setting :: settings) (first ++ rest)

theorem spelled_of_numericSetting? {name word : String} {form : UInt64 → Setting} {n : UInt64}
    (named : numericSetting? name = some form) (number : IsNumber word n) :
    (form n).Spelled [name, word] := by
  unfold numericSetting? at named
  split at named
  · cases named
    exact .frequency number
  · cases named
    exact .steps number
  · cases named
    exact .seed number
  · cases named

section Numeric

variable {name : String} {form : UInt64 → Setting} (named : numericSetting? name = some form)
include named

theorem ne_debug_of_numericSetting? : name ≠ "--debug" := by
  rintro rfl
  cases named

theorem settings?_numeric (word : String) (rest : List String) :
    settings? (name :: word :: rest) =
      (number? word.toList).bind fun n => (settings? rest).map (form n :: ·) := by
  rw [settings?.eq_3 name word rest (ne_debug_of_numericSetting? named), named]
  cases number? word.toList with
  | none => rfl
  | some n =>
    cases settings? rest with
    | none => rfl
    | some settings => rfl

/-- An option whose number is missing or is none spoils all that stands behind it. -/
theorem settings?_numeric_eq_none {rest : List String}
    (spoilt : ∀ word ∈ rest.head?, ∀ n, ¬IsNumber word n) : settings? (name :: rest) = none := by
  cases rest with
  | nil => exact settings?.eq_4 name (ne_debug_of_numericSetting? named)
  | cons word rest =>
    rw [settings?_numeric named]
    cases read : number? word.toList with
    | none => rfl
    | some n => exact absurd ((number?_eq_some_iff word n).1 read) (spoilt word rfl n)

end Numeric

/-- The step over one option. -/
theorem settings?_spelled {setting : Setting} {first : List String}
    (head : setting.Spelled first) (rest : List String) :
    settings? (first ++ rest) = (settings? rest).map (setting :: ·) := by
  have numeric {name word : String} {form : UInt64 → Setting} {n : UInt64}
      (named : numericSetting? name = some form) (number : IsNumber word n) :
      settings? (name :: word :: rest) = (settings? rest).map (form n :: ·) := by
    rw [settings?_numeric named, (number?_eq_some_iff word n).2 number, Option.bind_some]
  cases head with
  | debug =>
    rw [List.singleton_append, settings?]
    cases settings? rest with
    | none => rfl
    | some settings => rfl
  | frequency number => exact numeric rfl number
  | steps number => exact numeric rfl number
  | seed number => exact numeric rfl number

/-- The run over well-formed options, which leaves what stands behind them to be read. -/
theorem settings?_append {settings : List Setting} {options : List String}
    (spelled : Options settings options) (rest : List String) :
    settings? (options ++ rest) = (settings? rest).map (settings ++ ·) := by
  induction spelled with
  | nil =>
    rw [List.nil_append]
    exact (Option.map_id' ..).symm
  | cons head tail ih =>
    rw [List.append_assoc, settings?_spelled head, ih, Option.map_map]
    rfl

theorem options_of_settings? {settings : List Setting} {words : List String}
    (read : settings? words = some settings) : Options settings words := by
  -- The induction is that of the parser, which takes one word or two at a time.
  induction words using settings?.induct generalizing settings with
  | case1 =>
    cases read
    exact .nil
  | case2 rest ih =>
    rw [show "--debug" :: rest = ["--debug"] ++ rest from rfl, settings?_spelled .debug,
      Option.map_eq_some_iff] at read
    obtain ⟨more, others, rfl⟩ := read
    exact .cons .debug (ih others)
  | case3 name word rest plain ih =>
    cases named : numericSetting? name with
    | none =>
      rw [settings?.eq_3 name word rest plain, named] at read
      cases read
    | some form =>
      rw [settings?_numeric named, Option.bind_eq_some_iff] at read
      obtain ⟨n, number, read⟩ := read
      obtain ⟨more, others, rfl⟩ := Option.map_eq_some_iff.1 read
      have head := spelled_of_numericSetting? named ((number?_eq_some_iff word n).1 number)
      exact .cons head (ih others)
  | case4 name plain =>
    rw [settings?.eq_4 name plain] at read
    cases read

/-- The words that are read as settings are those that spell them. -/
theorem settings?_eq_some_iff (settings : List Setting) (words : List String) :
    settings? words = some settings ↔ Options settings words := by
  refine ⟨options_of_settings?, ?_⟩
  intro spelled
  have read := settings?_append spelled []
  rw [List.append_nil] at read
  rw [read, settings?, Option.map_some, List.append_nil]

/-! ### What the options ask for -/

namespace Setting

def frequency? : Setting → Option UInt64
  | .frequency hertz => some hertz
  | .steps _ | .seed _ | .debug => none

def steps? : Setting → Option UInt64
  | .steps count => some count
  | .frequency _ | .seed _ | .debug => none

def seed? : Setting → Option UInt64
  | .seed value => some value
  | .frequency _ | .steps _ | .debug => none

end Setting

namespace Arguments

/-- The file and the settings make these arguments: of the numbers for one option the last one
counts. -/
structure Requested (a : Arguments) (file : String) (settings : List Setting) : Prop where
  file : a.file = file
  frequency : a.frequency = (settings.filterMap Setting.frequency?).getLast?
  steps : a.steps = (settings.filterMap Setting.steps?).getLast?
  seed : a.seed = (settings.filterMap Setting.seed?).getLast?
  debug : a.debug = true ↔ .debug ∈ settings

theorem foldl_file (settings : List Setting) (a : Arguments) :
    (settings.foldl apply a).file = a.file := by
  induction settings generalizing a with
  | nil => rfl
  | cons setting settings ih =>
    rw [List.foldl_cons, ih]
    cases setting with
    | frequency | steps | seed | debug => rfl

/-- A field that a kind of settings replaces holds the last of them, if there is one. -/
theorem foldl_replaced (field : Arguments → Option UInt64) (value? : Setting → Option UInt64)
    (replaced : ∀ a setting, field (apply a setting) = (value? setting).or (field a))
    (settings : List Setting) (a : Arguments) :
    field (settings.foldl apply a) = ((settings.filterMap value?).getLast?).or (field a) := by
  induction settings generalizing a with
  | nil => rfl
  | cons setting settings ih =>
    rw [List.foldl_cons, ih, replaced]
    cases value : value? setting with
    | none => rw [List.filterMap_cons_none value, Option.none_or]
    | some n =>
      rw [List.filterMap_cons_some value, List.getLast?_cons]
      cases (settings.filterMap value?).getLast? with
      | none => rfl
      | some last => rfl

theorem foldl_debug (settings : List Setting) (a : Arguments) :
    (settings.foldl apply a).debug = true ↔ .debug ∈ settings ∨ a.debug = true := by
  induction settings generalizing a with
  | nil => simp
  | cons setting settings ih =>
    rw [List.foldl_cons, ih, List.mem_cons]
    cases setting with
    | frequency | steps | seed | debug => simp [apply]

theorem foldl_requested (file : String) (settings : List Setting) :
    (settings.foldl apply { file := file }).Requested file settings := by
  constructor
  · exact foldl_file settings _
  · rw [foldl_replaced frequency Setting.frequency?, Option.or_none]
    intro a setting
    cases setting with
    | frequency | steps | seed | debug => rfl
  · rw [foldl_replaced steps Setting.steps?, Option.or_none]
    intro a setting
    cases setting with
    | frequency | steps | seed | debug => rfl
  · rw [foldl_replaced seed Setting.seed?, Option.or_none]
    intro a setting
    cases setting with
    | frequency | steps | seed | debug => rfl
  · rw [foldl_debug]
    simp

theorem Requested.unique {a b : Arguments} {file : String} {settings : List Setting}
    (left : a.Requested file settings) (right : b.Requested file settings) : a = b := by
  cases a with
  | mk =>
    cases b with
    | mk =>
      rw [mk.injEq]
      refine ⟨left.file.trans right.file.symm, left.frequency.trans right.frequency.symm,
        left.steps.trans right.steps.symm, left.seed.trans right.seed.symm, ?_⟩
      exact Bool.eq_iff_iff.2 (left.debug.trans right.debug.symm)

theorem parse?_eq_some_iff (words : List String) (a : Arguments) :
    parse? words = some a ↔ ∃ file settings options,
      words = "run" :: file :: options ∧ Options settings options ∧ a.Requested file settings := by
  constructor
  · intro read
    unfold parse? at read
    split at read
    · rename_i file options
      obtain ⟨settings, spelled, rfl⟩ := Option.map_eq_some_iff.1 read
      exact ⟨file, settings, options, rfl, (settings?_eq_some_iff ..).1 spelled,
        foldl_requested file settings⟩
    · cases read
  · rintro ⟨file, settings, options, rfl, spelled, requested⟩
    rw [parse?, (settings?_eq_some_iff ..).2 spelled, Option.map_some,
      requested.unique (foldl_requested file settings)]

theorem parse?_eq_none_of_spoilt {settings : List Setting} {options : List String}
    (spelled : Options settings options) {name : String} {form : UInt64 → Setting}
    (named : numericSetting? name = some form) {rest : List String}
    (spoilt : ∀ word ∈ rest.head?, ∀ n, ¬IsNumber word n) (file : String) :
    parse? ("run" :: file :: (options ++ name :: rest)) = none := by
  rw [parse?, settings?_append spelled, settings?_numeric_eq_none named spoilt]
  rfl

/-- **The command accepts its grammar and nothing else.**  The command lines that are accepted are
`run`, a file, whatever it looks like, and options in any order and number, and what they ask for
is what is returned.  A number that is missing or no number spoils the line, whatever stands behind
it. -/
theorem command_grammar :
    (∀ words a, parse? words = some a ↔ ∃ file settings options,
      words = "run" :: file :: options ∧ Options settings options ∧
        a.Requested file settings) ∧
    ∀ file settings options name rest, Options settings options →
      name ∈ ["--frequency", "--steps", "--seed"] →
      (∀ word ∈ rest.head?, ∀ n, ¬IsNumber word n) →
      parse? ("run" :: file :: (options ++ name :: rest)) = none := by
  refine ⟨parse?_eq_some_iff, ?_⟩
  intro file settings options name rest spelled named spoilt
  simp only [List.mem_cons, List.not_mem_nil, or_false] at named
  rcases named with rfl | rfl | rfl
  · exact parse?_eq_none_of_spoilt spelled rfl spoilt file
  · exact parse?_eq_none_of_spoilt spelled rfl spoilt file
  · exact parse?_eq_none_of_spoilt spelled rfl spoilt file

/-- The file may look like an option and zeros may lead; the last number of steps counts, and the
word behind `--steps` is no option. -/
theorem command_grammar_file_like_option :
    parse? ["run", "--debug", "--steps", "+007", "--debug", "--steps", "20"] =
        some { file := "--debug", steps := some 20, debug := true } ∧
      parse? ["run", "a", "--steps", "--debug", "--steps", "20"] = none := by
  have steps {word : String} {n : UInt64} (read : number? word.toList = some n) :=
    Setting.Spelled.steps ((number?_eq_some_iff word n).1 read)
  have seven : number? "+007".toList = some 7 := by decide
  have twenty : number? "20".toList = some 20 := by decide
  have spelled : Options [.steps 7, .debug, .steps 20]
      ["--steps", "+007", "--debug", "--steps", "20"] :=
    .cons (steps seven) (.cons .debug (.cons (steps twenty) .nil))
  have no_number : number? "--debug".toList = none := by decide
  constructor
  · refine (command_grammar.1 _ _).2 ⟨"--debug", _, _, rfl, spelled, ?_⟩
    constructor
    · rfl
    · rfl
    · rfl
    · rfl
    · simp
  · refine command_grammar.2 "a" [] [] "--steps" _ .nil (by decide) ?_
    intro word first n number
    cases first
    rw [← number?_eq_some_iff, no_number] at number
    cases number

end Arguments

end ChipEight.CommandLine
