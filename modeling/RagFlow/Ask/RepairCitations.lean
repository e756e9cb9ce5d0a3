import Mathlib.Data.Finset.Basic
import Mathlib.Data.Finset.Dedup
import Mathlib.Data.Finset.Option
import Mathlib.Tactic.IntervalCases
import RagFlow.Lib.PyString
import RagFlow.Lib.Regex

/-!
# Repairing citations

`repair_bad_citation_formats` writes the citations of an answer in the form `[ID:12]`.  Four
patterns are replaced one after the other, each in what the ones before it have left; matches are
searched in a copy of the answer with Arabic-Indic digits turned into ASCII digits.
-/

namespace RagFlow.Ask.Repair

open Lib

abbrev Text := List Char

def normalizeDigit (char : Char) : Char :=
  if 0x660 ≤ char.toNat ∧ char.toNat ≤ 0x669 then Char.ofNat (char.toNat - 0x660 + 0x30)
  else if 0x6F0 ≤ char.toNat ∧ char.toNat ≤ 0x6F9 then Char.ofNat (char.toNat - 0x6F0 + 0x30)
  else char

def normalizeArabicDigits (text : Text) : Text := text.map normalizeDigit

def spaces : Regex := .star (.char PyString.isSpace)

/-- `\s*ID\s*[: ]*\s*(\d+)\s*` -/
def identifier : List Regex :=
  [spaces, .literal "ID", spaces, .star (.oneOf ": "), spaces, .plus (.char PyString.isDecimal),
    spaces]

def bracketed (opening closing : Char) : Regex :=
  .inOrder ([.char (· = opening)] ++ identifier ++ [.char (· = closing)])

/-- `ref\s*(\d+)`, ignoring case. -/
def reference : Regex :=
  .inOrder [.oneOf "rR", .oneOf "eE", .oneOf "fF", spaces, .plus (.char PyString.isDecimal)]

inductive Form where
  | paren
  | square
  | corner
  | ref
  deriving DecidableEq

def Form.pattern : Form → Regex
  | paren => bracketed '(' ')'
  | square => bracketed '[' ']'
  | corner => bracketed '【' '】'
  | ref => reference

def badCitationPatterns : List Form := [.paren, .square, .corner, .ref]

theorem mem_badCitationPatterns (form : Form) : form ∈ badCitationPatterns := by
  cases form <;> decide

def decimalValue (char : Char) : Nat :=
  match PyString.decimalZeros.find? fun first => first ≤ char.toNat && char.toNat < first + 10 with
  | some first => char.toNat - first
  | none => 0

def value (digits : Text) : Nat :=
  digits.foldl (fun number digit => 10 * number + decimalValue digit) 0

/-- `int` of decimal digits raises an error for more than so many. -/
def maxStrDigits : Nat := 4300

def int (digits : Text) : Option Nat :=
  if digits.length ≤ maxStrDigits then some (value digits) else none

def group (found : Text) : Text := found.filter PyString.isDecimal

/-- The number of a match for which `safe_add` adds it. -/
def cited (maxIndex : Nat) (found : Text) : Option Nat :=
  (int (group (normalizeArabicDigits found))).filter (· < maxIndex)

def canonical (digits : Text) : Text := "[ID:".toList ++ digits ++ [']']

def rewritten (maxIndex : Nat) (found : Text) : Text :=
  if (cited maxIndex found).isSome then canonical (group found) else found

def matchIn (form : Form) (answer : Text) : Option (Text × Nat) :=
  (form.pattern.matchAt (normalizeArabicDigits answer)).map fun (_, length) =>
    (answer.take length, length)

def findAndReplace (maxIndex : Nat) (state : Text × Finset Nat) (form : Form) :
    Text × Finset Nat :=
  let tokens := Scan.scan (matchIn form) 0 state.1
  (Scan.replace (rewritten maxIndex) tokens,
    state.2 ∪ ((Scan.found tokens).filterMap (cited maxIndex)).toFinset)

def repairBadCitationFormats (answer : Text) (maxIndex : Nat) (idx : Finset Nat) :
    Text × Finset Nat :=
  badCitationPatterns.foldl (findAndReplace maxIndex) (answer, idx)

example : repairBadCitationFormats "see (ID: 1), ref 2 and [ ID ٣ ] (ID:9)".toList 4 ∅ =
    ("see [ID:1], [ID:2] and [ID:٣] (ID:9)".toList, {1, 2, 3}) := by decide +kernel

theorem normalizeDigit_cases (char : Char) : normalizeDigit char = char ∨
    ∃ place < 10, (char = Char.ofNat (0x660 + place) ∨ char = Char.ofNat (0x6F0 + place)) ∧
      normalizeDigit char = Char.ofNat (0x30 + place) := by
  unfold normalizeDigit
  split_ifs with indic extended
  · refine .inr ⟨char.toNat - 0x660, by omega, .inl ?_, by rw [Nat.add_comm]⟩
    rw [Nat.add_sub_cancel' indic.1, Char.ofNat_toNat]
  · refine .inr ⟨char.toNat - 0x6F0, by omega, .inr ?_, by rw [Nat.add_comm]⟩
    rw [Nat.add_sub_cancel' extended.1, Char.ofNat_toNat]
  · exact .inl rfl

theorem normalizeDigit_same {Alpha : Type} (observe : Char → Alpha)
    (digits : ∀ place < 10,
      observe (Char.ofNat (0x660 + place)) = observe (Char.ofNat (0x30 + place)) ∧
      observe (Char.ofNat (0x6F0 + place)) = observe (Char.ofNat (0x30 + place))) (char : Char) :
    observe (normalizeDigit char) = observe char := by
  rcases normalizeDigit_cases char with same | ⟨place, below, rfl | rfl, same⟩
  · rw [same]
  · rw [same, (digits place below).1]
  · rw [same, (digits place below).2]

theorem isDecimal_normalizeDigit (char : Char) :
    PyString.isDecimal (normalizeDigit char) = PyString.isDecimal char :=
  normalizeDigit_same _ (by decide) char

theorem isSpace_normalizeDigit (char : Char) :
    PyString.isSpace (normalizeDigit char) = PyString.isSpace char :=
  normalizeDigit_same _ (by decide) char

theorem decimalValue_normalizeDigit (char : Char) :
    decimalValue (normalizeDigit char) = decimalValue char :=
  normalizeDigit_same _ (by decide) char

theorem normalizeDigit_eq_iff {symbol : Char} (notDigit : PyString.isDecimal symbol = false)
    (char : Char) : normalizeDigit char = symbol ↔ char = symbol := by
  rcases normalizeDigit_cases char with same | ⟨place, below, isDigit, same⟩
  · rw [same]
  · have digit : PyString.isDecimal (Char.ofNat (0x30 + place)) = true :=
      (by decide : ∀ place < 10, PyString.isDecimal (Char.ofNat (0x30 + place)) = true) place below
    have normalized : PyString.isDecimal (normalizeDigit char) = true := by rw [same, digit]
    have before := normalized
    rw [isDecimal_normalizeDigit] at before
    constructor
    · rintro rfl
      exact absurd normalized (by simp [notDigit])
    · rintro rfl
      exact absurd before (by simp [notDigit])

theorem ignores_symbol {symbol : Char} (notDigit : PyString.isDecimal symbol = false) :
    (Regex.char (· = symbol)).Ignores normalizeDigit := by
  intro char
  simp only [normalizeDigit_eq_iff notDigit]

theorem ignores_bracketed {opening closing : Char}
    (openingSymbol : PyString.isDecimal opening = false)
    (closingSymbol : PyString.isDecimal closing = false) :
    (bracketed opening closing).Ignores normalizeDigit := by
  have letters : (Regex.literal "ID").Ignores normalizeDigit :=
    Regex.ignores_literal fun symbol isLetter => by
      rcases List.mem_cons.mp isLetter with rfl | isLetter
      · exact ignores_symbol (by decide)
      · rw [List.mem_singleton.mp isLetter]
        exact ignores_symbol (by decide)
  exact ⟨ignores_symbol openingSymbol, isSpace_normalizeDigit, letters, isSpace_normalizeDigit,
    normalizeDigit_same _ (by decide), isSpace_normalizeDigit,
    ⟨isDecimal_normalizeDigit, isDecimal_normalizeDigit⟩, isSpace_normalizeDigit,
    ignores_symbol closingSymbol⟩

theorem ignores_pattern (form : Form) : form.pattern.Ignores normalizeDigit := by
  cases form with
  | paren => exact ignores_bracketed (by decide) (by decide)
  | square => exact ignores_bracketed (by decide) (by decide)
  | corner => exact ignores_bracketed (by decide) (by decide)
  | ref =>
    exact ⟨normalizeDigit_same _ (by decide), normalizeDigit_same _ (by decide),
      normalizeDigit_same _ (by decide), isSpace_normalizeDigit,
      isDecimal_normalizeDigit, isDecimal_normalizeDigit⟩

theorem matchIn_eq (form : Form) : matchIn form = form.pattern.matchAt := by
  funext answer
  rw [matchIn, normalizeArabicDigits, Regex.matchAt_map (ignores_pattern form), Regex.matchAt,
    Option.map_map, Option.map_map]
  rfl

def Cites (form : Form) (part : Text) : Prop := form.pattern.isFullmatch part = true

instance (form : Form) (part : Text) : Decidable (Cites form part) :=
  inferInstanceAs (Decidable (_ = true))

def Inner (inner : Text) : Prop := ∃ blanks gap colons margin digits trailing : Text,
  inner = blanks ++ ("ID".toList ++ (gap ++ (colons ++ (margin ++ (digits ++ trailing))))) ∧
  (∀ char ∈ blanks ++ (gap ++ (margin ++ trailing)), PyString.isSpace char = true) ∧
  (∀ char ∈ colons, char ∈ ": ".toList) ∧ digits ≠ [] ∧
  ∀ char ∈ digits, PyString.isDecimal char = true

theorem mem_remainders_bracketed {opening closing : Char} {text rest : Text} :
    rest ∈ (bracketed opening closing).remainders text ↔
      ∃ inner, Inner inner ∧ text = opening :: (inner ++ closing :: rest) := by
  simp only [bracketed, identifier, spaces, Regex.inOrder, List.cons_append, List.nil_append,
    Regex.mem_remainders_seq, Regex.mem_remainders_char, Regex.mem_remainders_star_char,
    Regex.mem_remainders_plus_char, Regex.mem_remainders_literal, Regex.oneOf]
  constructor
  · rintro ⟨_, ⟨_, isOpening, rfl⟩, _, ⟨blanks, areBlanks, rfl⟩, _, rfl, _, ⟨gap, isGap, rfl⟩,
      _, ⟨colons, areColons, rfl⟩, _, ⟨margin, isMargin, rfl⟩, _,
      ⟨digits, nonempty, areDigits, rfl⟩, _, ⟨trailing, isTrailing, rfl⟩, _, isClosing, rfl⟩
    rw [of_decide_eq_true isOpening, of_decide_eq_true isClosing]
    refine ⟨_, ⟨blanks, gap, colons, margin, digits, trailing, rfl, ?_, ?_, nonempty, areDigits⟩,
      by simp⟩
    · simp only [List.forall_mem_append]
      exact ⟨areBlanks, isGap, isMargin, isTrailing⟩
    · exact fun char isColon => List.contains_iff_mem.mp (areColons char isColon)
  · rintro ⟨_, ⟨blanks, gap, colons, margin, digits, trailing, rfl, areSpaces, areColons, nonempty,
      areDigits⟩, rfl⟩
    simp only [List.forall_mem_append] at areSpaces
    obtain ⟨areBlanks, isGap, isMargin, isTrailing⟩ := areSpaces
    refine ⟨_, ⟨_, decide_eq_true rfl, rfl⟩, _, ⟨blanks, areBlanks, ?_⟩, _, rfl, _,
      ⟨gap, isGap, rfl⟩, _, ⟨colons, ?_, rfl⟩, _, ⟨margin, isMargin, rfl⟩, _,
      ⟨digits, nonempty, areDigits, rfl⟩, _, ⟨trailing, isTrailing, rfl⟩, closing,
      decide_eq_true rfl, rfl⟩
    · simp
    · exact fun char isColon => List.contains_iff_mem.mpr (areColons char isColon)

theorem mem_remainders_reference {text rest : Text} :
    rest ∈ reference.remainders text ↔ ∃ first second third : Char, ∃ gap digits : Text,
      (first ∈ "rR".toList ∧ second ∈ "eE".toList ∧ third ∈ "fF".toList) ∧
      (∀ char ∈ gap, PyString.isSpace char = true) ∧ digits ≠ [] ∧
      (∀ char ∈ digits, PyString.isDecimal char = true) ∧
      text = first :: second :: third :: (gap ++ (digits ++ rest)) := by
  simp only [reference, spaces, Regex.inOrder, Regex.mem_remainders_seq, Regex.mem_remainders_char,
    Regex.mem_remainders_star_char, Regex.mem_remainders_plus_char, Regex.oneOf,
    List.contains_iff_mem]
  constructor
  · rintro ⟨_, ⟨first, isFirst, rfl⟩, _, ⟨second, isSecond, rfl⟩, _, ⟨third, isThird, rfl⟩, _,
      ⟨gap, isGap, rfl⟩, digits, nonempty, areDigits, rfl⟩
    exact ⟨first, second, third, gap, digits, ⟨isFirst, isSecond, isThird⟩, isGap, nonempty,
      areDigits, rfl⟩
  · rintro ⟨first, second, third, gap, digits, ⟨isFirst, isSecond, isThird⟩, isGap, nonempty,
      areDigits, rfl⟩
    exact ⟨_, ⟨first, isFirst, rfl⟩, _, ⟨second, isSecond, rfl⟩, _, ⟨third, isThird, rfl⟩, _,
      ⟨gap, isGap, rfl⟩, digits, nonempty, areDigits, rfl⟩

def isHead (char : Char) : Bool := "([【rR".toList.contains char

def Form.starts : Form → Char → Bool
  | paren, char => char = '('
  | square, char => char = '['
  | corner, char => char = '【'
  | ref, char => "rR".toList.contains char

theorem forall_symbols {symbols : String} {holds : Char → Bool}
    (all : symbols.toList.all holds = true) {char : Char} (isMem : char ∈ symbols.toList) :
    holds char = true := List.all_eq_true.mp all char isMem

theorem mem_symbols {symbols others : String}
    (all : (symbols.toList.all fun char => others.toList.contains char) = true) {char : Char}
    (isMem : char ∈ symbols.toList) : char ∈ others.toList :=
  List.contains_iff_mem.mp (forall_symbols all isMem)

theorem isHead_of_starts {form : Form} {char : Char} (starts : form.starts char = true) :
    isHead char = true := by
  cases form with
  | paren => rw [of_decide_eq_true starts]; decide
  | square => rw [of_decide_eq_true starts]; decide
  | corner => rw [of_decide_eq_true starts]; decide
  | ref =>
    have isMem : char ∈ "rR".toList := List.contains_iff_mem.mp starts
    exact forall_symbols (by decide) isMem

theorem form_eq_of_starts {form other : Form} {char : Char} (starts : form.starts char = true)
    (startsOther : other.starts char = true) : form = other := by
  have isMem := List.contains_iff_mem.mp (isHead_of_starts starts)
  have one := @forall_symbols "([【rR" (fun char => badCitationPatterns.all fun form =>
    badCitationPatterns.all fun other =>
      !(form.starts char && other.starts char) || decide (form = other)) (by decide) _ isMem
  have same := List.all_eq_true.mp (List.all_eq_true.mp one form (mem_badCitationPatterns form))
    other (mem_badCitationPatterns other)
  simpa [starts, startsOther] using same

theorem isHead_of_plain {char : Char} (plain : PyString.isSpace char = true ∨
    PyString.isDecimal char = true ∨ char ∈ "ID: eEfF".toList) : isHead char = false := by
  rw [← Bool.not_eq_true]
  intro head
  have others := @forall_symbols "([【rR" (fun char => !PyString.isSpace char &&
    (!PyString.isDecimal char && !"ID: eEfF".toList.contains char)) (by decide) _
      (List.contains_iff_mem.mp head)
  rw [Bool.and_eq_true, Bool.and_eq_true, Bool.not_eq_true', Bool.not_eq_true',
    Bool.not_eq_true'] at others
  rcases plain with blank | digit | letter
  · exact absurd blank (by simp [others.1])
  · exact absurd digit (by simp [others.2.1])
  · exact absurd (List.contains_iff_mem.mpr letter) (by rw [others.2.2]; decide)

theorem Inner.plain {inner : Text} (isInner : Inner inner) : ∀ char ∈ inner,
    PyString.isSpace char = true ∨ PyString.isDecimal char = true ∨ char ∈ "ID: ".toList := by
  obtain ⟨blanks, gap, colons, margin, digits, trailing, rfl, areSpaces, areColons, -, areDigits⟩ :=
    isInner
  intro char isMem
  simp only [List.mem_append] at isMem areSpaces
  rcases isMem with isMem | isMem | isMem | isMem | isMem | isMem | isMem
  · exact .inl (areSpaces char (.inl isMem))
  · exact .inr (.inr (mem_symbols (by decide) isMem))
  · exact .inl (areSpaces char (.inr (.inl isMem)))
  · exact .inr (.inr (mem_symbols (by decide) (areColons char isMem)))
  · exact .inl (areSpaces char (.inr (.inr (.inl isMem))))
  · exact .inr (.inl (areDigits char isMem))
  · exact .inl (areSpaces char (.inr (.inr (.inr isMem))))

theorem eq_of_append_cons {before after other rest : Text} {symbol : Char}
    (missing : symbol ∉ before) (missingOther : symbol ∉ other)
    (same : before ++ symbol :: after = other ++ symbol :: rest) :
    before = other ∧ after = rest := by
  rcases List.append_eq_append_iff.mp same with ⟨more, rfl, split⟩ | ⟨more, rfl, split⟩
  · cases more with
    | nil => exact ⟨(List.append_nil _).symm, List.tail_eq_of_cons_eq split⟩
    | cons char more =>
      rw [List.cons_append, List.cons.injEq] at split
      exact absurd (by simp [split.1]) missingOther
  · cases more with
    | nil => exact ⟨List.append_nil _, (List.tail_eq_of_cons_eq split).symm⟩
    | cons char more =>
      rw [List.cons_append, List.cons.injEq] at split
      exact absurd (by simp [split.1]) missing

def Ends (part rest : Text) : Prop :=
  ∀ last ∈ part.getLast?, PyString.isDecimal last = true →
    ∀ next ∈ rest.head?, PyString.isDecimal next = false

theorem cites_bracketed {opening closing : Char} {part : Text} :
    (bracketed opening closing).isFullmatch part = true ↔
      ∃ inner, Inner inner ∧ part = opening :: (inner ++ [closing]) := by
  rw [Regex.isFullmatch, List.contains_iff_mem, mem_remainders_bracketed]

theorem matchAt_bracketed {opening closing : Char} (special : PyString.isSpace closing = false ∧
    PyString.isDecimal closing = false ∧ closing ∉ "ID: ".toList) {inner rest : Text}
    (isInner : Inner inner) :
    (bracketed opening closing).matchAt (opening :: (inner ++ [closing]) ++ rest) =
      some (opening :: (inner ++ [closing]), (opening :: (inner ++ [closing])).length) := by
  have missing : ∀ inner, Inner inner → closing ∉ inner := by
    intro inner isInner isMem
    rcases isInner.plain closing isMem with blank | digit | letter
    · exact absurd blank (by simp [special.1])
    · exact absurd digit (by simp [special.2.1])
    · exact special.2.2 letter
  apply Regex.matchAt_of_unique
  · exact mem_remainders_bracketed.mpr ⟨inner, isInner, by simp⟩
  · intro other isMem
    obtain ⟨inner', isInner', same⟩ := mem_remainders_bracketed.mp isMem
    rw [List.cons_append, List.cons.injEq, List.append_assoc, List.singleton_append] at same
    exact (eq_of_append_cons (missing inner isInner) (missing inner' isInner') same.2).2.symm

theorem matchAt_reference {first second third : Char} {gap digits rest : Text}
    (letters : first ∈ "rR".toList ∧ second ∈ "eE".toList ∧ third ∈ "fF".toList)
    (isGap : ∀ char ∈ gap, PyString.isSpace char = true) (nonempty : digits ≠ [])
    (areDigits : ∀ char ∈ digits, PyString.isDecimal char = true)
    (stops : ∀ next ∈ rest.head?, PyString.isDecimal next = false) :
    reference.matchAt (first :: second :: third :: (gap ++ digits) ++ rest) =
      some (first :: second :: third :: (gap ++ digits),
        (first :: second :: third :: (gap ++ digits)).length) := by
  obtain ⟨digit, digits, rfl⟩ := List.exists_cons_of_ne_nil nonempty
  rw [List.forall_mem_cons] at areDigits
  have notBlank : ∀ next ∈ (digit :: (digits ++ rest)).head?, PyString.isSpace next = false := by
    rintro _ ⟨⟩
    exact PyString.isSpace_of_isDecimal areDigits.1
  obtain ⟨later, taken⟩ := Regex.remainders_star_char_eq_cons isGap notBlank
  obtain ⟨others, ends⟩ := Regex.remainders_star_char_eq_cons areDigits.2 stops
  have number : (Regex.plus (.char PyString.isDecimal)).remainders (digit :: (digits ++ rest)) =
      rest :: others := by
    rw [Regex.plus, Regex.remainders, Regex.remainders, if_pos areDigits.1, List.flatMap_singleton,
      ends]
  have letter (symbols : String) {char : Char} (isMem : char ∈ symbols.toList) (rest : Text) :
      (Regex.oneOf symbols).remainders (char :: rest) = [rest] := by
    rw [Regex.oneOf, Regex.remainders, if_pos (List.contains_iff_mem.mpr isMem)]
  apply Regex.matchAt_of_cons
  simp only [reference, Regex.inOrder, List.cons_append, List.append_assoc]
  rw [Regex.remainders, letter _ letters.1, List.flatMap_singleton, Regex.remainders,
    letter _ letters.2.1, List.flatMap_singleton, Regex.remainders, letter _ letters.2.2,
    List.flatMap_singleton, Regex.remainders, spaces, taken, List.flatMap_cons, number,
    List.cons_append]

theorem cites_reference {part : Text} :
    reference.isFullmatch part = true ↔ ∃ first second third : Char, ∃ gap digits : Text,
      (first ∈ "rR".toList ∧ second ∈ "eE".toList ∧ third ∈ "fF".toList) ∧
      (∀ char ∈ gap, PyString.isSpace char = true) ∧ digits ≠ [] ∧
      (∀ char ∈ digits, PyString.isDecimal char = true) ∧
      part = first :: second :: third :: (gap ++ digits) := by
  simp only [Regex.isFullmatch, List.contains_iff_mem, mem_remainders_reference, List.append_nil]

theorem form_cases (form : Form) : form = .ref ∨ ∃ opening closing : Char,
    form.pattern = bracketed opening closing ∧ form.starts opening = true ∧
      isHead closing = false ∧ PyString.isSpace closing = false ∧
      PyString.isDecimal closing = false ∧ closing ∉ "ID: ".toList := by
  cases form with
  | ref => exact .inl rfl
  | paren => exact .inr ⟨'(', ')', rfl, by decide, by decide, by decide, by decide, by decide⟩
  | square => exact .inr ⟨'[', ']', rfl, by decide, by decide, by decide, by decide, by decide⟩
  | corner => exact .inr ⟨'【', '】', rfl, by decide, by decide, by decide, by decide, by decide⟩

theorem mem_remainders_pattern {form : Form} {text rest : Text} :
    rest ∈ form.pattern.remainders text ↔ ∃ part, Cites form part ∧ text = part ++ rest := by
  unfold Cites
  rcases form_cases form with rfl | ⟨opening, closing, isPattern, -⟩
  · change rest ∈ reference.remainders text ↔ ∃ part, reference.isFullmatch part = true ∧ _
    rw [mem_remainders_reference]
    constructor
    · rintro ⟨first, second, third, gap, digits, letters, isGap, nonempty, areDigits, rfl⟩
      refine ⟨_, cites_reference.mpr ⟨first, second, third, gap, digits, letters, isGap, nonempty,
        areDigits, rfl⟩, by simp⟩
    · rintro ⟨part, cites, rfl⟩
      obtain ⟨first, second, third, gap, digits, letters, isGap, nonempty, areDigits, rfl⟩ :=
        cites_reference.mp cites
      exact ⟨first, second, third, gap, digits, letters, isGap, nonempty, areDigits, by simp⟩
  · rw [isPattern, mem_remainders_bracketed]
    constructor
    · rintro ⟨inner, isInner, rfl⟩
      exact ⟨_, cites_bracketed.mpr ⟨inner, isInner, rfl⟩, by simp⟩
    · rintro ⟨part, cites, rfl⟩
      obtain ⟨inner, isInner, rfl⟩ := cites_bracketed.mp cites
      exact ⟨inner, isInner, by simp⟩

theorem Cites.shape {form : Form} {part : Text} (cites : Cites form part) :
    ∃ head tail, part = head :: tail ∧ form.starts head = true ∧
      ∀ char ∈ tail, isHead char = false := by
  rcases form_cases form with rfl | ⟨opening, closing, isPattern, starts, closes, -⟩
  · obtain ⟨first, second, third, gap, digits, letters, isGap, -, areDigits, rfl⟩ :=
      cites_reference.mp cites
    refine ⟨first, _, rfl, List.contains_iff_mem.mpr letters.1, ?_⟩
    simp only [List.forall_mem_cons, List.forall_mem_append]
    exact ⟨isHead_of_plain (.inr (.inr (mem_symbols (by decide) letters.2.1))),
      isHead_of_plain (.inr (.inr (mem_symbols (by decide) letters.2.2))),
      fun char isMem => isHead_of_plain (.inl (isGap char isMem)),
      fun char isMem => isHead_of_plain (.inr (.inl (areDigits char isMem)))⟩
  · rw [Cites, isPattern] at cites
    obtain ⟨inner, isInner, rfl⟩ := cites_bracketed.mp cites
    refine ⟨opening, _, rfl, starts, List.forall_mem_append.mpr ⟨fun char isMem => ?_, ?_⟩⟩
    · exact isHead_of_plain
        ((isInner.plain char isMem).imp_right (.imp_right (mem_symbols (by decide))))
    · rintro char isMem
      rwa [List.mem_singleton.mp isMem]

theorem Cites.matchAt {form : Form} {part rest : Text} (cites : Cites form part)
    (ends : Ends part rest) : form.pattern.matchAt (part ++ rest) = some (part, part.length) := by
  rcases form_cases form with rfl | ⟨opening, closing, isPattern, -, -, special⟩
  · obtain ⟨first, second, third, gap, digits, letters, isGap, nonempty, areDigits, rfl⟩ :=
      cites_reference.mp cites
    have last : (first :: second :: third :: (gap ++ digits)).getLast? =
        some (digits.getLast nonempty) := by
      simp [List.getLast?_cons, List.getLast?_append, List.getLast?_eq_some_getLast nonempty]
    exact matchAt_reference letters isGap nonempty areDigits
      (ends _ last (areDigits _ (List.getLast_mem nonempty)))
  · rw [Cites, isPattern] at cites
    obtain ⟨inner, isInner, rfl⟩ := cites_bracketed.mp cites
    rw [isPattern]
    exact matchAt_bracketed special isInner

theorem cites_of_matchAt {form : Form} {text part : Text} {length : Nat}
    (matched : form.pattern.matchAt text = some (part, length)) :
    Cites form part ∧ length = part.length ∧ ∃ rest, text = part ++ rest ∧ Ends part rest := by
  obtain ⟨rest, isHead, same⟩ := Option.map_eq_some_iff.mp matched
  obtain ⟨found, cites, rfl⟩ := mem_remainders_pattern.mp (List.mem_of_head? isHead)
  obtain ⟨rfl, rfl⟩ : found = part ∧ found.length = length := by simpa using same
  refine ⟨cites, rfl, rest, rfl, ?_⟩
  rcases form_cases form with rfl | ⟨opening, closing, isPattern, -, -, -, notDigit, -⟩
  · obtain ⟨first, second, third, gap, digits, letters, isGap, nonempty, areDigits, rfl⟩ :=
      cites_reference.mp cites
    -- The digits are all there are, since the match with all of them is tried first.
    have stops : ∀ next ∈ (rest.dropWhile PyString.isDecimal).head?,
        PyString.isDecimal next = false := by
      intro next isNext
      have rejected := List.head?_dropWhile_not PyString.isDecimal rest
      rw [Option.mem_def.mp isNext] at rejected
      simpa using rejected
    have more : ∀ char ∈ digits ++ rest.takeWhile PyString.isDecimal,
        PyString.isDecimal char = true := List.forall_mem_append.mpr
      ⟨areDigits, fun char isMem => List.mem_takeWhile_imp isMem⟩
    have longest := matchAt_reference letters isGap (by simp [nonempty]) more stops
    have whole :
        first :: second :: third :: (gap ++ (digits ++ rest.takeWhile PyString.isDecimal)) ++
          rest.dropWhile PyString.isDecimal =
        first :: second :: third :: (gap ++ digits) ++ rest := by
      simp [List.takeWhile_append_dropWhile]
    rw [whole] at longest
    have lengths := congrArg Prod.snd (Option.some.inj (longest.symm.trans matched))
    have none : rest.takeWhile PyString.isDecimal = [] := by
      rw [← List.length_eq_zero_iff]
      simp only [List.length_cons, List.length_append] at lengths
      omega
    intro _ _ _ next isNext
    obtain ⟨tail, rfl⟩ := List.head?_eq_some_iff.mp isNext
    rw [← Bool.not_eq_true]
    intro decimal
    rw [List.takeWhile_cons_of_pos decimal] at none
    cases none
  · rw [Cites, isPattern] at cites
    obtain ⟨inner, -, rfl⟩ := cites_bracketed.mp cites
    intro last isLast decimal
    rw [← List.cons_append, List.getLast?_concat] at isLast
    exact absurd decimal (by simp [← Option.some.inj isLast, notDigit])

theorem matchAt_eq_none_of_starts {form : Form} {char : Char} {rest : Text}
    (other : form.starts char = false) : form.pattern.matchAt (char :: rest) = none := by
  rw [Option.eq_none_iff_forall_ne_some]
  rintro ⟨part, length⟩ matched
  obtain ⟨cites, -, after, split, -⟩ := cites_of_matchAt matched
  obtain ⟨head, tail, rfl, starts, -⟩ := cites.shape
  rw [List.cons_append, List.cons.injEq] at split
  simp [split.1, starts] at other

theorem scan_plain {form : Form} {plain : Text} (noHead : ∀ char ∈ plain, isHead char = false)
    (rest : Text) : Scan.scan form.pattern.matchAt 0 (plain ++ rest) =
      plain.map .inl ++ Scan.scan form.pattern.matchAt 0 rest := by
  induction plain with
  | nil => rfl
  | cons char plain ih =>
    rw [List.forall_mem_cons] at noHead
    have other : form.starts char = false := by
      rw [← Bool.not_eq_true]
      exact fun starts => absurd (isHead_of_starts starts) (by simp [noHead.1])
    rw [List.cons_append, Scan.scan_of_none (matchAt_eq_none_of_starts other),
      ih noHead.2, List.map_cons, List.cons_append]

theorem scan_other {form other : Form} (differs : other ≠ form) {part : Text}
    (cites : Cites form part) (rest : Text) :
    Scan.scan other.pattern.matchAt 0 (part ++ rest) =
      part.map .inl ++ Scan.scan other.pattern.matchAt 0 rest := by
  obtain ⟨head, tail, rfl, starts, noHead⟩ := cites.shape
  have notOther : other.starts head = false := by
    rw [← Bool.not_eq_true]
    exact fun startsOther => differs (form_eq_of_starts startsOther starts)
  rw [List.cons_append, Scan.scan_of_none (matchAt_eq_none_of_starts notOther), scan_plain noHead,
    List.map_cons, List.cons_append]

theorem Cites.ne_nil {form : Form} {part : Text} (cites : Cites form part) : part ≠ [] := by
  obtain ⟨head, tail, rfl, -, -⟩ := cites.shape
  exact List.cons_ne_nil head tail

theorem scan_same {form : Form} {part rest : Text} (cites : Cites form part)
    (ends : Ends part rest) : Scan.scan form.pattern.matchAt 0 (part ++ rest) =
      .inr part :: Scan.scan form.pattern.matchAt 0 rest :=
  Scan.scan_of_some (cites.matchAt ends) rfl cites.ne_nil

section Passes

variable {maxIndex : Nat}

def replaced (maxIndex : Nat) (form : Form) (text : Text) : Text :=
  Scan.replace (rewritten maxIndex) (Scan.scan form.pattern.matchAt 0 text)

def citedIn (maxIndex : Nat) (form : Form) (text : Text) : Finset Nat :=
  ((Scan.found (Scan.scan form.pattern.matchAt 0 text)).filterMap (cited maxIndex)).toFinset

theorem findAndReplace_eq (state : Text × Finset Nat) (form : Form) :
    findAndReplace maxIndex state form =
      (replaced maxIndex form state.1, state.2 ∪ citedIn maxIndex form state.1) := by
  rw [findAndReplace, matchIn_eq]
  rfl

theorem replaced_unmatched {form : Form} {char : Char} {rest : Text}
    (missed : form.pattern.matchAt (char :: rest) = none) :
    replaced maxIndex form (char :: rest) = char :: replaced maxIndex form rest ∧
      citedIn maxIndex form (char :: rest) = citedIn maxIndex form rest := by
  simp [replaced, citedIn, Scan.scan_of_none missed]

theorem replaced_plain {form : Form} {plain : Text} (noHead : ∀ char ∈ plain, isHead char = false)
    (rest : Text) : replaced maxIndex form (plain ++ rest) =
      plain ++ replaced maxIndex form rest := by
  rw [replaced, scan_plain noHead, Scan.replace_append, Scan.replace_map_inl, replaced]

theorem replaced_other {form other : Form} (differs : other ≠ form) {part : Text}
    (cites : Cites form part) (rest : Text) :
    replaced maxIndex other (part ++ rest) = part ++ replaced maxIndex other rest ∧
      citedIn maxIndex other (part ++ rest) = citedIn maxIndex other rest := by
  simp [replaced, citedIn, scan_other differs cites, Scan.replace_append, Scan.found_append]

theorem replaced_same {form : Form} {part rest : Text} (cites : Cites form part)
    (ends : Ends part rest) :
    replaced maxIndex form (part ++ rest) =
        rewritten maxIndex part ++ replaced maxIndex form rest ∧
      citedIn maxIndex form (part ++ rest) =
        (cited maxIndex part).toFinset ∪ citedIn maxIndex form rest := by
  rw [replaced, citedIn, scan_same cites ends]
  refine ⟨rfl, ?_⟩
  rw [Scan.found_inr]
  cases number : cited maxIndex part with
  | none => simp [number, citedIn]
  | some number' => simp [number, citedIn]

def lead (text : Text) : Text := text.takeWhile fun char => !isHead char

theorem lead_append {plain rest : Text} (noHead : ∀ char ∈ plain, isHead char = false)
    (begins : ∀ char ∈ rest.head?, isHead char = true) : lead (plain ++ rest) = plain := by
  rw [lead, List.takeWhile_append_of_pos fun char isMem => by simp [noHead char isMem]]
  cases rest with
  | nil => simp
  | cons char rest => simp [begins char rfl]

theorem exists_lead (text : Text) : ∃ rest, text = lead text ++ rest ∧
    (∀ char ∈ lead text, isHead char = false) ∧ ∀ char ∈ rest.head?, isHead char = true := by
  refine ⟨text.dropWhile fun char => !isHead char, List.takeWhile_append_dropWhile.symm, ?_, ?_⟩
  · intro char isMem
    simpa using List.mem_takeWhile_imp isMem
  · intro char isHead'
    have rejected := List.head?_dropWhile_not (fun char => !isHead char) text
    rw [Option.mem_def.mp isHead'] at rejected
    simpa using rejected

theorem head?_rewritten {form : Form} {part : Text} (cites : Cites form part) (rest : Text) :
    ∀ char ∈ (rewritten maxIndex part ++ rest).head?, isHead char = true := by
  unfold rewritten
  split_ifs
  · rintro _ ⟨⟩
    decide
  · obtain ⟨head, tail, rfl, starts, -⟩ := cites.shape
    rintro _ ⟨⟩
    exact isHead_of_starts starts

theorem lead_replaced (form : Form) (text : Text) :
    lead (replaced maxIndex form text) = lead text := by
  obtain ⟨rest, split, noHead, begins⟩ := exists_lead text
  have whole : replaced maxIndex form text = lead text ++ replaced maxIndex form rest := by
    conv_lhs => rw [split]
    exact replaced_plain noHead rest
  rw [whole]
  apply lead_append noHead
  cases rest with
  | nil => simp [replaced]
  | cons char rest =>
    cases matched : form.pattern.matchAt (char :: rest) with
    | none =>
      rw [(replaced_unmatched matched).1]
      exact begins
    | some result =>
      obtain ⟨cites, -, after, same, ends⟩ := cites_of_matchAt matched
      rw [same, (replaced_same cites ends).1]
      exact head?_rewritten cites _

theorem unmatched_of_lead {form : Form} {char : Char} {text other : Text}
    (missed : form.pattern.matchAt (char :: text) = none) (same : lead other = lead text) :
    form.pattern.matchAt (char :: other) = none := by
  rw [Option.eq_none_iff_forall_ne_some]
  rintro ⟨part, length⟩ matched
  obtain ⟨cites, -, after, split, -⟩ := cites_of_matchAt matched
  obtain ⟨head, tail, rfl, -, noHead⟩ := cites.shape
  rw [List.cons_append, List.cons.injEq] at split
  obtain ⟨rfl, rfl⟩ := split
  obtain ⟨rest, isRest, -⟩ := exists_lead text
  have begins : lead (tail ++ after) = tail ++ lead after :=
    List.takeWhile_append_of_pos fun char isMem => by simp [noHead char isMem]
  have again : char :: text = char :: tail ++ (lead after ++ rest) := by
    conv_lhs => rw [isRest, ← same, begins]
    simp
  have found : lead after ++ rest ∈ form.pattern.remainders (char :: text) :=
    mem_remainders_pattern.mpr ⟨char :: tail, cites, again⟩
  rw [Regex.matchAt_eq_none.mp missed] at found
  cases found

theorem Ends.of_lead {part text other : Text} (ends : Ends part text)
    (same : lead other = lead text) : Ends part other := by
  intro last isLast decimal next isNext
  rw [← Bool.not_eq_true]
  intro isDigit
  obtain ⟨tail, rfl⟩ := List.head?_eq_some_iff.mp isNext
  have notHead : isHead next = false := isHead_of_plain (.inr (.inl isDigit))
  obtain ⟨rest, isRest, -⟩ := exists_lead text
  have isFirst : next ∈ text.head? := by
    rw [isRest, ← same, lead, List.takeWhile_cons_of_pos (by simp [notHead])]
    rfl
  exact absurd (ends last isLast decimal next isFirst) (by simp [isDigit])

theorem group_normalizeArabicDigits (found : Text) :
    group (normalizeArabicDigits found) = normalizeArabicDigits (group found) := by
  rw [group, normalizeArabicDigits, List.filter_map, group, normalizeArabicDigits]
  congr 1
  exact List.filter_congr fun char _ => isDecimal_normalizeDigit char

theorem value_normalizeArabicDigits (digits : Text) :
    value (normalizeArabicDigits digits) = value digits := by
  simp only [value, normalizeArabicDigits, List.foldl_map, decimalValue_normalizeDigit]

theorem cited_eq (found : Text) : cited maxIndex found =
    if (group found).length ≤ maxStrDigits ∧ value (group found) < maxIndex then
      some (value (group found))
    else none := by
  rw [cited, group_normalizeArabicDigits, int, value_normalizeArabicDigits]
  have sameLength : (normalizeArabicDigits (group found)).length = (group found).length :=
    List.length_map _
  rw [sameLength]
  by_cases short : (group found).length ≤ maxStrDigits
  · by_cases below : value (group found) < maxIndex
    · simp [short, below]
    · simp [short, below, Nat.le_of_not_lt below]
  · simp [short]

theorem cited_congr {found other : Text} (same : group found = group other) :
    cited maxIndex found = cited maxIndex other := by
  rw [cited_eq, cited_eq, same]

theorem group_of_decimal {digits : Text}
    (areDigits : ∀ char ∈ digits, PyString.isDecimal char = true) :
    group digits = digits := List.filter_eq_self.mpr areDigits

theorem group_append (first second : Text) :
    group (first ++ second) = group first ++ group second :=
  List.filter_append ..

theorem areDigits_group (found : Text) : ∀ char ∈ group found, PyString.isDecimal char = true :=
  fun _ isMem => (List.mem_filter.mp isMem).2

theorem group_canonical (found : Text) : group (canonical (group found)) = group found := by
  rw [canonical, group_append, group_append, group_of_decimal (areDigits_group found)]
  have front : group "[ID:".toList = [] := by decide
  have back : group [']'] = [] := by decide
  rw [front, back, List.nil_append, List.append_nil]

theorem Cites.group_ne_nil {form : Form} {part : Text} (cites : Cites form part) :
    group part ≠ [] := by
  have found : ∃ digit ∈ part, PyString.isDecimal digit = true := by
    rcases form_cases form with rfl | ⟨opening, closing, isPattern, -⟩
    · obtain ⟨first, second, third, gap, digits, -, -, nonempty, areDigits, rfl⟩ :=
        cites_reference.mp cites
      exact ⟨digits.head nonempty, by simp, areDigits _ (List.head_mem nonempty)⟩
    · rw [Cites, isPattern] at cites
      obtain ⟨_, ⟨_, _, _, _, digits, _, rfl, -, -, nonempty, areDigits⟩, rfl⟩ :=
        cites_bracketed.mp cites
      exact ⟨digits.head nonempty, by simp, areDigits _ (List.head_mem nonempty)⟩
  obtain ⟨digit, isMem, decimal⟩ := found
  exact List.ne_nil_of_mem (List.mem_filter.mpr ⟨isMem, decimal⟩)

theorem inner_digits {digits : Text} (nonempty : digits ≠ [])
    (areDigits : ∀ char ∈ digits, PyString.isDecimal char = true) :
    Inner ("ID:".toList ++ digits) := by
  have colon : ∀ char ∈ [':'], char ∈ ": ".toList := by
    intro char isMem
    rw [List.mem_singleton.mp isMem]
    decide
  exact ⟨[], [], [':'], [], digits, [], by simp, by simp, colon, nonempty, areDigits⟩

theorem cites_canonical {digits : Text} (nonempty : digits ≠ [])
    (areDigits : ∀ char ∈ digits, PyString.isDecimal char = true) :
    Cites .square (canonical digits) := by
  refine cites_bracketed.mpr ⟨"ID:".toList ++ digits, inner_digits nonempty areDigits, ?_⟩
  simp [canonical]

theorem rewritten_cites {form : Form} {part : Text} (cites : Cites form part) :
    (∃ form, Cites form (rewritten maxIndex part)) ∧
      group (rewritten maxIndex part) = group part ∧
      rewritten maxIndex (rewritten maxIndex part) = rewritten maxIndex part ∧
      ∀ rest, Ends part rest → Ends (rewritten maxIndex part) rest := by
  by_cases known : (cited maxIndex part).isSome
  · have written : rewritten maxIndex part = canonical (group part) := if_pos known
    have knownAgain : (cited maxIndex (canonical (group part))).isSome := by
      rwa [cited_congr (group_canonical part)]
    rw [written]
    refine ⟨⟨.square, cites_canonical cites.group_ne_nil (areDigits_group part)⟩,
      group_canonical part, ?_, ?_⟩
    · rw [rewritten, if_pos knownAgain, group_canonical]
    · intro rest _ last isLast decimal
      rw [canonical, List.getLast?_concat] at isLast
      have closes : last = ']' := (Option.some.inj isLast).symm
      exact absurd decimal (by rw [closes]; decide)
  · have written : rewritten maxIndex part = part := if_neg known
    rw [written]
    exact ⟨⟨form, cites⟩, rfl, written, fun _ ends => ends⟩

def passes (maxIndex : Nat) (forms : List Form) (text : Text) : Text :=
  forms.foldl (fun text form => replaced maxIndex form text) text

def indices (maxIndex : Nat) : List Form → Text → Finset Nat
  | [], _ => ∅
  | form :: forms, text =>
    citedIn maxIndex form text ∪ indices maxIndex forms (replaced maxIndex form text)

theorem foldl_findAndReplace (forms : List Form) (text : Text) (idx : Finset Nat) :
    forms.foldl (findAndReplace maxIndex) (text, idx) =
      (passes maxIndex forms text, idx ∪ indices maxIndex forms text) := by
  induction forms generalizing text idx with
  | nil => simp [passes, indices]
  | cons form forms ih =>
    rw [List.foldl_cons, findAndReplace_eq, ih, indices, Finset.union_assoc]
    rfl

theorem lead_passes (forms : List Form) (text : Text) :
    lead (passes maxIndex forms text) = lead text := by
  induction forms generalizing text with
  | nil => rfl
  | cons form forms ih =>
    exact (ih _).trans (lead_replaced form text)

theorem passes_unmatched {char : Char} (forms : List Form) {rest : Text}
    (missed : ∀ form : Form, form.pattern.matchAt (char :: rest) = none) :
    passes maxIndex forms (char :: rest) = char :: passes maxIndex forms rest ∧
      indices maxIndex forms (char :: rest) = indices maxIndex forms rest := by
  induction forms generalizing rest with
  | nil => exact ⟨rfl, rfl⟩
  | cons form forms ih =>
    obtain ⟨text, numbers⟩ := @replaced_unmatched maxIndex _ _ _ (missed form)
    have later := ih fun other =>
      unmatched_of_lead (missed other) (@lead_replaced maxIndex form rest)
    rw [passes, List.foldl_cons, text, indices, text, numbers, later.2]
    exact ⟨later.1, rfl⟩

theorem passes_settled {form : Form} (forms : List Form) {part rest : Text}
    (cites : Cites form part) (settled : rewritten maxIndex part = part) (ends : Ends part rest) :
    passes maxIndex forms (part ++ rest) = part ++ passes maxIndex forms rest ∧
      (cited maxIndex part).toFinset ∪ indices maxIndex forms (part ++ rest) =
        (cited maxIndex part).toFinset ∪ indices maxIndex forms rest := by
  induction forms generalizing rest with
  | nil => exact ⟨rfl, rfl⟩
  | cons other forms ih =>
    obtain ⟨text, numbers⟩ :=
      ih (ends.of_lead (@lead_replaced maxIndex other rest))
    by_cases same : other = form
    · subst same
      obtain ⟨written, added⟩ := @replaced_same maxIndex _ _ _ cites ends
      rw [passes, List.foldl_cons, indices, indices, written, settled, added]
      refine ⟨text, ?_⟩
      rw [Finset.union_assoc, Finset.union_left_idem, Finset.union_left_comm, numbers,
        Finset.union_left_comm]
    · obtain ⟨kept, added⟩ := @replaced_other maxIndex _ _ same _ cites rest
      rw [passes, List.foldl_cons, indices, indices, kept, added]
      refine ⟨text, ?_⟩
      rw [Finset.union_left_comm, numbers, Finset.union_left_comm]

theorem passes_citation {form : Form} {forms : List Form} (isListed : form ∈ forms)
    {part rest : Text} (cites : Cites form part) (ends : Ends part rest) :
    passes maxIndex forms (part ++ rest) =
        rewritten maxIndex part ++ passes maxIndex forms rest ∧
      indices maxIndex forms (part ++ rest) =
        (cited maxIndex part).toFinset ∪ indices maxIndex forms rest := by
  induction forms generalizing rest with
  | nil => cases isListed
  | cons other forms ih =>
    have later := ends.of_lead (@lead_replaced maxIndex other rest)
    by_cases same : other = form
    · subst same
      obtain ⟨⟨_, citesWritten⟩, sameGroup, settled, endsWritten⟩ :=
        @rewritten_cites maxIndex _ _ cites
      obtain ⟨written, added⟩ := @replaced_same maxIndex _ _ _ cites ends
      obtain ⟨text, numbers⟩ := passes_settled forms citesWritten settled (endsWritten _ later)
      rw [cited_congr sameGroup] at numbers
      rw [passes, List.foldl_cons, indices, indices, written, added]
      refine ⟨text, ?_⟩
      rw [Finset.union_right_comm, numbers, Finset.union_right_comm, Finset.union_assoc]
    · obtain ⟨kept, added⟩ := @replaced_other maxIndex _ _ same _ cites rest
      have isLater : form ∈ forms := List.mem_of_ne_of_mem (Ne.symm same) isListed
      obtain ⟨text, numbers⟩ := ih isLater later
      rw [passes, List.foldl_cons, indices, indices, kept, added]
      exact ⟨text, by rw [numbers, Finset.union_left_comm]⟩

end Passes

def citationAt (text : Text) : Option (Text × Nat) :=
  badCitationPatterns.findSome? fun form => form.pattern.matchAt text

def tokens (answer : Text) : List (Char ⊕ Text) := Scan.scan citationAt 0 answer

theorem citationAt_eq_none {text : Text} :
    citationAt text = none ↔ ∀ form : Form, form.pattern.matchAt text = none := by
  rw [citationAt, List.findSome?_eq_none_iff]
  exact ⟨fun missed form => missed form (mem_badCitationPatterns form),
    fun missed form _ => missed form⟩

theorem cites_of_citationAt {text part : Text} {length : Nat}
    (found : citationAt text = some (part, length)) :
    (∃ form, Cites form part) ∧ length = part.length ∧
      ∃ rest, text = part ++ rest ∧ Ends part rest := by
  obtain ⟨form, -, matched⟩ := List.exists_of_findSome?_eq_some found
  obtain ⟨cites, isLength, rest⟩ := cites_of_matchAt matched
  exact ⟨⟨form, cites⟩, isLength, rest⟩

theorem Cites.citationAt {form : Form} {part rest : Text} (cites : Cites form part)
    (ends : Ends part rest) : citationAt (part ++ rest) = some (part, part.length) := by
  cases found : Repair.citationAt (part ++ rest) with
  | none =>
    have missed := citationAt_eq_none.mp found form
    rw [cites.matchAt ends] at missed
    cases missed
  | some result =>
    obtain ⟨other, length⟩ := result
    obtain ⟨⟨form', cites'⟩, rfl, after, split, ends'⟩ := cites_of_citationAt found
    obtain ⟨head, tail, rfl, starts, -⟩ := cites.shape
    obtain ⟨head', tail', rfl, starts', -⟩ := cites'.shape
    obtain rfl : head = head' := List.head_eq_of_cons_eq split
    obtain rfl := form_eq_of_starts starts starts'
    have matched := cites'.matchAt ends'
    rw [← split, cites.matchAt ends] at matched
    exact matched.symm

theorem reads_citationAt : Scan.Reads citationAt id := by
  constructor
  · intro text part length found
    obtain ⟨-, isLength, rest, split, -⟩ := cites_of_citationAt found
    exact ⟨isLength, rest, split⟩
  · intro text part length found
    obtain ⟨⟨form, cites⟩, -⟩ := cites_of_citationAt found
    exact cites.ne_nil

theorem answer_induction {motive : Text → Prop} (nil : motive [])
    (plain : ∀ char rest, citationAt (char :: rest) = none → motive rest → motive (char :: rest))
    (citation : ∀ form part rest, Cites form part → Ends part rest → motive rest →
      motive (part ++ rest)) (answer : Text) : motive answer := by
  induction answer using reads_citationAt.induction with
  | nil => exact nil
  | missed char rest missed ih => exact plain char rest missed ih
  | matched part rest found ih =>
    obtain ⟨⟨form, cites⟩, -, after, split, ends⟩ := cites_of_citationAt found
    obtain rfl : rest = after := List.append_cancel_left split
    exact citation form part rest cites ends ih

theorem tokens_plain {char : Char} {rest : Text} (missed : citationAt (char :: rest) = none) :
    tokens (char :: rest) = .inl char :: tokens rest := Scan.scan_of_none missed

theorem tokens_citation {form : Form} {part rest : Text} (cites : Cites form part)
    (ends : Ends part rest) : tokens (part ++ rest) = .inr part :: tokens rest :=
  Scan.scan_of_some (cites.citationAt ends) rfl cites.ne_nil

section Repairing

variable {maxIndex : Nat}

def citedNumbers (maxIndex : Nat) (answer : Text) : Finset Nat :=
  ((Scan.found (tokens answer)).filterMap (cited maxIndex)).toFinset

theorem passes_tokens (answer : Text) :
    passes maxIndex badCitationPatterns answer =
        Scan.replace (rewritten maxIndex) (tokens answer) ∧
      indices maxIndex badCitationPatterns answer = citedNumbers maxIndex answer := by
  induction answer using answer_induction with
  | nil => exact ⟨rfl, rfl⟩
  | plain char rest missed ih =>
    obtain ⟨text, numbers⟩ := @passes_unmatched maxIndex _ badCitationPatterns _
      (citationAt_eq_none.mp missed)
    rw [text, numbers, citedNumbers, tokens_plain missed, ih.1,
      ih.2]
    exact ⟨rfl, rfl⟩
  | citation form part rest cites ends ih =>
    obtain ⟨text, numbers⟩ := @passes_citation maxIndex _ _ (mem_badCitationPatterns form)
      _ _ cites ends
    rw [text, numbers, citedNumbers, tokens_citation cites ends, ih.1,
      ih.2, Scan.found_inr]
    refine ⟨rfl, ?_⟩
    cases number : cited maxIndex part <;> simp [number, citedNumbers]

theorem repairBadCitationFormats_eq (answer : Text) (idx : Finset Nat) :
    repairBadCitationFormats answer maxIndex idx =
      (Scan.replace (rewritten maxIndex) (tokens answer), idx ∪ citedNumbers maxIndex answer) := by
  rw [repairBadCitationFormats, foldl_findAndReplace, (passes_tokens answer).1,
    (passes_tokens answer).2]

theorem lead_repaired (answer : Text) :
    lead (Scan.replace (rewritten maxIndex) (tokens answer)) = lead answer := by
  rw [← (passes_tokens answer).1, lead_passes]

theorem tokens_repaired (answer : Text) :
    tokens (Scan.replace (rewritten maxIndex) (tokens answer)) =
      (tokens answer).map (Sum.map id (rewritten maxIndex)) := by
  induction answer using answer_induction with
  | nil => rfl
  | plain char rest missed ih =>
    have still : citationAt (char :: Scan.replace (rewritten maxIndex) (tokens rest)) = none :=
      citationAt_eq_none.mpr fun form =>
        unmatched_of_lead (citationAt_eq_none.mp missed form) (lead_repaired rest)
    rw [tokens_plain missed, Scan.replace_inl, tokens_plain still, ih,
      List.map_cons]
    rfl
  | citation form part rest cites ends ih =>
    obtain ⟨⟨_, citesWritten⟩, -, -, endsWritten⟩ := @rewritten_cites maxIndex _ _ cites
    have still := endsWritten _ (ends.of_lead (@lead_repaired maxIndex rest))
    rw [tokens_citation cites ends, Scan.replace_inr, tokens_citation citesWritten still,
      ih, List.map_cons]
    rfl

theorem mem_found_cites {answer part : Text} (isFound : part ∈ Scan.found (tokens answer)) :
    ∃ form, Cites form part := by
  obtain ⟨rest, length, -, found⟩ := Scan.exists_matchAt_of_mem_found isFound
  exact (cites_of_citationAt found).1

theorem repair_repaired (answer : Text) (idx : Finset Nat) :
    let repaired := repairBadCitationFormats answer maxIndex idx
    repairBadCitationFormats repaired.1 maxIndex repaired.2 = repaired := by
  have again : ∀ tokens : List (Char ⊕ Text),
      (∀ part ∈ Scan.found tokens, ∃ form, Cites form part) →
      Scan.replace (rewritten maxIndex) (tokens.map (Sum.map id (rewritten maxIndex))) =
        Scan.replace (rewritten maxIndex) tokens ∧
      (Scan.found (tokens.map (Sum.map id (rewritten maxIndex)))).filterMap (cited maxIndex) =
        (Scan.found tokens).filterMap (cited maxIndex) := by
    intro tokens cite
    induction tokens with
    | nil => exact ⟨rfl, rfl⟩
    | cons token tokens ih =>
      cases token with
      | inl char =>
        obtain ⟨text, numbers⟩ := ih cite
        exact ⟨congrArg (char :: ·) text, numbers⟩
      | inr part =>
        rw [Scan.found_inr, List.forall_mem_cons] at cite
        obtain ⟨text, numbers⟩ := ih cite.2
        obtain ⟨form, cites⟩ := cite.1
        obtain ⟨-, sameGroup, settled, -⟩ := @rewritten_cites maxIndex _ _ cites
        rw [List.map_cons, Sum.map_inr, Scan.replace_inr, Scan.replace_inr, Scan.found_inr,
          Scan.found_inr, List.filterMap_cons, List.filterMap_cons, settled, text, numbers,
          cited_congr sameGroup]
        exact ⟨rfl, rfl⟩
  obtain ⟨text, numbers⟩ := again (tokens answer) fun part => mem_found_cites
  intro repaired
  simp only [repaired, repairBadCitationFormats_eq, citedNumbers, tokens_repaired, text, numbers,
    Finset.union_assoc, Finset.union_self]

theorem lead_append_of_head {text rest : Text} (begins : ∀ char ∈ rest.head?, isHead char = true) :
    lead (text ++ rest) = lead text := by
  obtain ⟨after, split, noHead, beginsAfter⟩ := exists_lead text
  cases after with
  | nil =>
    rw [List.append_nil] at split
    conv_lhs => rw [split]
    exact lead_append noHead begins
  | cons char after =>
    conv_lhs => rw [split, List.append_assoc]
    exact lead_append noHead (by rintro _ ⟨⟩; exact beginsAfter char rfl)

theorem Cites.ends {form : Form} (brackets : form ≠ .ref) {part : Text} (cites : Cites form part)
    (rest : Text) : Ends part rest := by
  obtain ⟨opening, closing, isPattern, -, -, -, notDigit, -⟩ :=
    (form_cases form).resolve_left brackets
  rw [Cites, isPattern] at cites
  obtain ⟨inner, -, rfl⟩ := cites_bracketed.mp cites
  intro last isLast decimal
  rw [← List.cons_append, List.getLast?_concat] at isLast
  exact absurd decimal (by simp [← Option.some.inj isLast, notDigit])

theorem tokens_brackets {form : Form} (brackets : form ≠ .ref) {part : Text}
    (cites : Cites form part) (before after : Text) :
    tokens (before ++ (part ++ after)) = tokens before ++ .inr part :: tokens after := by
  have begins : ∀ char ∈ (part ++ after).head?, isHead char = true := by
    obtain ⟨head, tail, rfl, starts, -⟩ := cites.shape
    rintro _ ⟨⟩
    exact isHead_of_starts starts
  induction before using answer_induction with
  | nil => exact tokens_citation cites (cites.ends brackets after)
  | plain char rest missed ih =>
    have still : citationAt (char :: (rest ++ (part ++ after))) = none :=
      citationAt_eq_none.mpr fun form =>
        unmatched_of_lead (citationAt_eq_none.mp missed form) (lead_append_of_head begins)
    rw [List.cons_append, tokens_plain still, tokens_plain missed, ih,
      List.cons_append]
  | citation other found rest citesFound ends ih =>
    rw [List.append_assoc, tokens_citation citesFound (ends.of_lead (lead_append_of_head begins)),
      tokens_citation citesFound ends, ih, List.cons_append]

theorem repaired_brackets {form : Form} (brackets : form ≠ .ref) {part : Text}
    (cites : Cites form part) (before after : Text) (idx : Finset Nat) :
    (repairBadCitationFormats (before ++ (part ++ after)) maxIndex idx).1 =
      (repairBadCitationFormats before maxIndex idx).1 ++
        (rewritten maxIndex part ++ (repairBadCitationFormats after maxIndex idx).1) := by
  simp only [repairBadCitationFormats_eq, tokens_brackets brackets cites, Scan.replace_append,
    Scan.replace_inr]

end Repairing

/-- The answer is repaired when each citation becomes what is wanted for it. -/
structure Repaired (wanted : Text → Text) (answer : Text) (maxIndex : Nat) (idx : Finset Nat)
    (repaired : Text × Finset Nat) : Prop where
  inRange : (∀ i ∈ idx, i < maxIndex) → ∀ i ∈ repaired.2, i < maxIndex
  idempotent : repairBadCitationFormats repaired.1 maxIndex repaired.2 = repaired
  /-- Only citations change. -/
  text : repaired.1 = Scan.replace wanted (tokens answer)
  /-- The citations of the result are those of the answer, each once and in the same order. -/
  citations : tokens repaired.1 = (tokens answer).map (Sum.map id wanted)
  /-- A citation in brackets is rewritten in its place, wherever it stands. -/
  brackets : ∀ form, form ≠ .ref → ∀ before part after, Cites form part →
    answer = before ++ (part ++ after) →
      repaired.1 = (repairBadCitationFormats before maxIndex idx).1 ++
        (wanted part ++ (repairBadCitationFormats after maxIndex idx).1)

/-- A citation whose number is in range becomes `[ID:12]`. -/
def wantedInRange (maxIndex : Nat) (part : Text) : Text :=
  if value (group part) < maxIndex then canonical (group part) else part

def wantedReadable (maxIndex : Nat) (part : Text) : Text :=
  if (group part).length ≤ maxStrDigits then wantedInRange maxIndex part else part

theorem rewritten_eq (maxIndex : Nat) : rewritten maxIndex = wantedReadable maxIndex := by
  funext part
  rw [rewritten, cited_eq, wantedReadable, wantedInRange]
  by_cases readable : (group part).length ≤ maxStrDigits
  · by_cases below : value (group part) < maxIndex <;> simp [readable, below]
  · simp [readable]

/-- Every answer is repaired, up to citations with too many digits. -/
theorem repairBadCitationFormats_repaired (answer : Text) (maxIndex : Nat) (idx : Finset Nat) :
    Repaired (wantedReadable maxIndex) answer maxIndex idx
      (repairBadCitationFormats answer maxIndex idx) := by
  refine ⟨fun known i isMem => ?_, repair_repaired answer idx, ?_, ?_, ?_⟩
  · rw [repairBadCitationFormats_eq, Finset.mem_union] at isMem
    rcases isMem with before | new
    · exact known i before
    · rw [citedNumbers, List.mem_toFinset, List.mem_filterMap] at new
      obtain ⟨part, -, number⟩ := new
      rw [cited_eq] at number
      split_ifs at number with readable
      exact Option.some.inj number ▸ readable.2
  · rw [repairBadCitationFormats_eq, rewritten_eq]
  · rw [repairBadCitationFormats_eq, ← rewritten_eq, tokens_repaired]
  · rintro form brackets before part after cites rfl
    rw [← rewritten_eq]
    exact repaired_brackets brackets cites before after idx

theorem value_zeros (count : Nat) (digits : Text) :
    value (List.replicate count '0' ++ digits) = value digits := by
  have zero : decimalValue '0' = 0 := by decide
  induction count with
  | zero => rfl
  | succ count ih =>
    rw [value, List.foldl_append] at ih ⊢
    rw [List.replicate_succ, List.foldl_cons, zero]
    exact ih

theorem not_repaired_of_long {digits : Text} {maxIndex : Nat}
    (areDigits : ∀ char ∈ digits, PyString.isDecimal char = true)
    (long : maxStrDigits < digits.length) (below : value digits < maxIndex) (idx : Finset Nat) :
    let answer := "(ID:".toList ++ digits ++ [')']
    ¬ Repaired (wantedInRange maxIndex) answer maxIndex idx
      (repairBadCitationFormats answer maxIndex idx) := by
  intro answer repaired
  have nonempty : digits ≠ [] := List.ne_nil_of_length_pos (by omega)
  have cites : Cites .paren answer := cites_bracketed.mpr
    ⟨"ID:".toList ++ digits, inner_digits nonempty areDigits, by simp [answer]⟩
  have sameGroup : group answer = digits := by
    have front : group "(ID:".toList = [] := by decide
    have back : group [')'] = [] := by decide
    rw [group_append, group_append, front, back, group_of_decimal areDigits, List.nil_append,
      List.append_nil]
  have wanted : wantedInRange maxIndex answer = canonical digits := by
    rw [wantedInRange, sameGroup, if_pos below]
  have written : rewritten maxIndex answer = answer := by
    rw [rewritten_eq, wantedReadable, sameGroup, if_neg (Nat.not_le.mpr long)]
  have whole := repaired.brackets .paren (by decide) [] answer [] cites (by simp)
  have same := @repaired_brackets maxIndex .paren (by decide) _ cites [] [] idx
  rw [List.nil_append, List.append_nil] at same
  rw [whole, wanted, written, List.append_cancel_left_eq, List.append_cancel_right_eq] at same
  exact absurd (congrArg List.head? same) (by simp [canonical, answer])

/-- The number 1 behind 4300 zeros. -/
theorem not_repaired_leadingZeros :
    let answer := "(ID:".toList ++ (List.replicate 4300 '0' ++ ['1']) ++ [')']
    ¬ Repaired (wantedInRange 2) answer 2 ∅ (repairBadCitationFormats answer 2 ∅) := by
  refine not_repaired_of_long ?_ ?_ ?_ ∅
  · rw [List.forall_mem_append]
    refine ⟨fun char isMem => ?_, fun char isMem => ?_⟩
    · rw [List.eq_of_mem_replicate isMem]
      decide
    · rw [List.mem_singleton.mp isMem]
      decide
  · rw [List.length_append, List.length_replicate]
    decide
  · rw [value_zeros]
    decide

end RagFlow.Ask.Repair
