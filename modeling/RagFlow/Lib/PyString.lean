import Mathlib.Data.List.Basic
import RagFlow.Lib.Scan

/-!
# Python strings

The methods of Python's `str` that the modelled code calls, on the characters of a string.
-/

namespace RagFlow.Lib.PyString

/-- The characters `str.strip` removes: bidirectional type `WS`, `B` or `S`, or category `Zs`. -/
def isSpace (char : Char) : Bool :=
  let code := char.toNat
  (9 ≤ code && code ≤ 13) || (28 ≤ code && code ≤ 32) || code = 133 || code = 160 ||
    code = 5760 || (8192 ≤ code && code ≤ 8202) || code = 8232 || code = 8233 ||
    code = 8239 || code = 8287 || code = 12288

def stripChars (chars : List Char) : List Char :=
  ((chars.dropWhile isSpace).reverse.dropWhile isSpace).reverse

/-- `str.strip` without an argument. -/
def strip (text : String) : String := String.ofList (stripChars text.toList)

/-- The zeros of the decimal digits, category `Nd`; the nine characters after each are its other
digits. -/
def decimalZeros : List Nat :=
  [0x30, 0x660, 0x6F0, 0x7C0, 0x966, 0x9E6, 0xA66, 0xAE6, 0xB66, 0xBE6, 0xC66, 0xCE6, 0xD66, 0xDE6,
    0xE50, 0xED0, 0xF20, 0x1040, 0x1090, 0x17E0, 0x1810, 0x1946, 0x19D0, 0x1A80, 0x1A90, 0x1B50,
    0x1BB0, 0x1C40, 0x1C50, 0xA620, 0xA8D0, 0xA900, 0xA9D0, 0xA9F0, 0xAA50, 0xABF0, 0xFF10, 0x104A0,
    0x10D30, 0x11066, 0x110F0, 0x11136, 0x111D0, 0x112F0, 0x11450, 0x114D0, 0x11650, 0x116C0,
    0x11730, 0x118E0, 0x11950, 0x11C50, 0x11D50, 0x11DA0, 0x16A60, 0x16AC0, 0x16B50, 0x1D7CE,
    0x1D7D8, 0x1D7E2, 0x1D7EC, 0x1D7F6, 0x1E140, 0x1E2F0, 0x1E950, 0x1FBF0]

/-- `\d` of a regular expression on `str`. -/
def isDecimal (char : Char) : Bool :=
  decimalZeros.any fun first => first ≤ char.toNat && char.toNat < first + 10

/-- `str.split` without an argument: the words between runs of spaces. -/
def split (text : String) : List String :=
  ((text.toList.splitOnP isSpace).filter fun word => word ≠ []).map String.ofList

theorem flatten_splitOnP (breaks : Char → Bool) (text : List Char) :
    (text.splitOnP breaks).flatten = text.filter (!breaks ·) := by
  induction text with
  | nil => rfl
  | cons char text ih =>
    rw [List.splitOnP_cons_eq_if_modifyHead, List.filter_cons, ← ih]
    cases isBreak : breaks char with
    | true => rfl
    | false =>
      obtain ⟨word, rest, isSplit⟩ :=
        List.exists_cons_of_ne_nil (List.splitOnP_ne_nil breaks text)
      simp [isSplit]

theorem isSpace_of_isDecimal {char : Char} (decimal : isDecimal char = true) :
    isSpace char = false := by
  have digits : ∀ first ∈ decimalZeros, ∀ place < 10,
      isSpace (Char.ofNat (first + place)) = false := by decide +kernel
  obtain ⟨first, isFirst, inRange⟩ := List.any_eq_true.mp decimal
  simp only [Bool.and_eq_true, decide_eq_true_eq] at inRange
  have isDigit := digits first isFirst (char.toNat - first) (by omega)
  rwa [Nat.add_sub_cancel' inRange.1, Char.ofNat_toNat] at isDigit

theorem strip_of_forall {text : String} (noSpace : ∀ char ∈ text.toList, isSpace char = false) :
    strip text = text := by
  have kept : ∀ chars : List Char, (∀ char ∈ chars, isSpace char = false) →
      chars.dropWhile isSpace = chars := by
    intro chars noSpace
    cases chars with
    | nil => rfl
    | cons char chars => exact List.dropWhile_cons_of_neg (by simp [noSpace char])
  have keptReverse := kept text.toList.reverse fun char membership =>
    noSpace char (List.mem_reverse.mp membership)
  simp [strip, stripChars, kept text.toList noSpace, keptReverse]

theorem dropWhile_of_prefix {chars kept : List Char} (isPrefix : kept <+: chars.dropWhile isSpace) :
    kept.dropWhile isSpace = kept := by
  cases kept with
  | nil => rfl
  | cons char kept =>
    obtain ⟨rest, same⟩ := isPrefix
    have nonempty : chars.dropWhile isSpace ≠ [] := by simp [← same]
    have first := List.head_dropWhile_not isSpace nonempty
    simp only [← same, List.cons_append, List.head_cons] at first
    exact List.dropWhile_cons_of_neg (by simp [first])

@[simp] theorem stripChars_stripChars (chars : List Char) :
    stripChars (stripChars chars) = stripChars chars := by
  have left : (stripChars chars).dropWhile isSpace = stripChars chars := by
    apply dropWhile_of_prefix
    rw [stripChars, ← List.reverse_suffix, List.reverse_reverse]
    exact List.dropWhile_suffix _
  have right : (stripChars chars).reverse.dropWhile isSpace = (stripChars chars).reverse := by
    rw [stripChars, List.reverse_reverse]
    exact dropWhile_of_prefix (List.prefix_refl _)
  rw [stripChars, left, right, List.reverse_reverse]

@[simp] theorem strip_strip (text : String) : strip (strip text) = strip text := by
  simp [strip]

@[simp] theorem split_empty : split "" = [] := by simp [split]

/-- A text that `str.split` leaves whole. -/
def IsWord (text : String) : Prop :=
  text ≠ "" ∧ ∀ char ∈ text.toList, isSpace char = false

theorem split_word {word : String} (isWord : IsWord word) : split word = [word] := by
  have nonempty : word.toList ≠ [] := fun empty => isWord.1 (String.toList_eq_nil_iff.mp empty)
  rw [split, List.splitOnP_eq_singleton isWord.2]
  simp [nonempty]

theorem split_word_append {word rest : String} (isWord : IsWord word) :
    split (word ++ " " ++ rest) = word :: split rest := by
  have nonempty : word.toList ≠ [] := fun empty => isWord.1 (String.toList_eq_nil_iff.mp empty)
  have blank : isSpace ' ' = true := by decide
  have chars : (word ++ " " ++ rest).toList = word.toList ++ ' ' :: rest.toList := by
    rw [String.toList_append, String.toList_append, List.append_assoc]
    rfl
  rw [split, chars, List.splitOnP_append_cons_of_forall_mem isWord.2 ' ' blank, split,
    List.filter_cons_of_pos (by simpa using nonempty), List.map_cons, String.ofList_toList]

theorem split_intercalate {words : List String} (allWords : ∀ word ∈ words, IsWord word) :
    split (" ".intercalate words) = words := by
  induction words with
  | nil => exact split_empty
  | cons word words ih =>
    rw [List.forall_mem_cons] at allWords
    cases words with
    | nil => exact split_word allWords.1
    | cons next words =>
      rw [String.intercalate_cons_cons, split_word_append allWords.1,
        ih allWords.2]

/-- The occurrence of `old` at the start of a text. -/
def matchPrefix (old text : List Char) : Option (List Char × Nat) :=
  if old.isPrefixOf text then some (old, old.length) else none

/-- `str.replace`: all occurrences that do not overlap an earlier one; an empty `old` occurs before
and after every character. -/
def replace (old new text : List Char) : List Char :=
  if old = [] then new ++ text.flatMap fun char => char :: new
  else Scan.replace (fun _ => new) (Scan.scan (matchPrefix old) 0 text)

theorem reads_matchPrefix {old : List Char} (nonempty : old ≠ []) :
    Scan.Reads (matchPrefix old) fun _ => old where
  begins symbols item length matched := by
    unfold matchPrefix at matched
    split at matched
    · rename_i isPrefix
      obtain ⟨_, rfl⟩ := Prod.mk.inj (Option.some.inj matched)
      obtain ⟨rest, split⟩ := List.isPrefixOf_iff_prefix.mp isPrefix
      exact ⟨rfl, rest, split.symm⟩
    · contradiction
  nonempty _ _ _ _ := nonempty

theorem replace_singleton (char : Char) (new text : List Char) :
    replace [char] new text = text.flatMap fun other => if other = char then new else [other] := by
  simp only [replace, List.cons_ne_nil, if_false]
  induction text with
  | nil => rfl
  | cons other text ih =>
    by_cases same : other = char
    · subst same
      have matched : matchPrefix [other] ([other] ++ text) = some ([other], 1) := by
        simp [matchPrefix]
      have scanned : Scan.scan (matchPrefix [other]) 0 (other :: text) =
          .inr [other] :: Scan.scan (matchPrefix [other]) 0 text :=
        Scan.scan_of_some matched rfl (by simp)
      simp [scanned, ih]
    · have missed : matchPrefix [char] (other :: text) = none := by
        simp [matchPrefix, Ne.symm same]
      simp [Scan.scan_of_none missed, ih, same]

end RagFlow.Lib.PyString
