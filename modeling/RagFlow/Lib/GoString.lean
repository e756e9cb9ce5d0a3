import Mathlib.Data.List.DropRight
import RagFlow.Lib.PyString

/-!
# Go strings

The functions of Go's `strings` package that the modelled code calls.  A text is a list of symbols
that show a character each, so that equal characters at different places can be told apart.
-/

namespace RagFlow.Lib.GoString

universe u v

variable {Symbol : Type u} (char : Symbol → Char)

def hasPrefix (text : List Symbol) (pattern : List Char) : Bool :=
  pattern.isPrefixOf (text.map char)

/-- `strings.Index`: where the first occurrence begins. -/
def index (pattern : List Char) : List Symbol → Option Nat
  | [] => if pattern = [] then some 0 else none
  | symbol :: text =>
    if hasPrefix char (symbol :: text) pattern then some 0
    else (index pattern text).map (· + 1)

def trimPrefix (text start : List Symbol) : List Symbol :=
  if hasPrefix char text (start.map char) then text.drop start.length else text

def isSpace (char : Char) : Bool :=
  let code := char.toNat
  (9 ≤ code && code ≤ 13) || code = 32 || code = 133 || code = 160 || code = 5760 ||
    (8192 ≤ code && code ≤ 8202) || code = 8232 || code = 8233 || code = 8239 ||
    code = 8287 || code = 12288

def trimSpace (text : List Char) : List Char :=
  (text.dropWhile isSpace).rdropWhile isSpace

/-- `strings.ReplaceAll` with a pattern that is not empty. -/
def replaceAll (old new text : List Char) : List Char := PyString.replace old new text

/-- `strings.Split` with a separator that is not empty. -/
def split (separator text : List Char) : List (List Char) :=
  Scan.between (Scan.scan (PyString.matchPrefix separator) 0 text)

def Cut (pattern before after : List Char) : Prop :=
  ∃ length ∈ List.range pattern.length, 0 < length ∧
    pattern.take length <:+ before ∧ pattern.drop length <+: after

instance (pattern before after : List Char) : Decidable (Cut pattern before after) :=
  inferInstanceAs (Decidable (∃ length ∈ List.range pattern.length, 0 < length ∧
    pattern.take length <:+ before ∧ pattern.drop length <+: after))

variable {char}

theorem hasPrefix_iff {text : List Symbol} {pattern : List Char} :
    hasPrefix char text pattern = true ↔ pattern <+: text.map char :=
  List.isPrefixOf_iff_prefix

theorem hasPrefix_append {text rest : List Symbol} {pattern : List Char}
    (here : hasPrefix char text pattern = true) : hasPrefix char (text ++ rest) pattern = true := by
  rw [hasPrefix_iff, List.map_append] at *
  exact here.trans (List.prefix_append _ _)

theorem index_some {pattern : List Char} {text : List Symbol} {start : Nat}
    (found : index char pattern text = some start) :
    ∃ before occurrence after, text = before ++ occurrence ++ after ∧ before.length = start ∧
      occurrence.map char = pattern := by
  induction text generalizing start with
  | nil =>
    obtain ⟨rfl, rfl⟩ : pattern = [] ∧ 0 = start := by simpa [index] using found
    exact ⟨[], [], [], rfl, rfl, rfl⟩
  | cons symbol text ih =>
    unfold index at found
    split at found
    · next here =>
        obtain rfl : 0 = start := Option.some.inj found
        obtain ⟨rest, split⟩ := hasPrefix_iff.mp here
        obtain ⟨occurrence, after, parts, isPattern, -⟩ := List.map_eq_append_iff.mp split.symm
        exact ⟨[], occurrence, after, parts, rfl, isPattern⟩
    · obtain ⟨later, foundLater, rfl⟩ := Option.map_eq_some_iff.mp found
      obtain ⟨before, occurrence, after, rfl, isStart, isPattern⟩ :=
        ih foundLater
      exact ⟨symbol :: before, occurrence, after, rfl, by simp [isStart], isPattern⟩

theorem index_none_iff {pattern : List Char} {text : List Symbol} :
    index char pattern text = none ↔ ¬ pattern <:+: text.map char := by
  induction text with
  | nil => simp [index]
  | cons symbol text ih =>
    rw [index, List.map_cons, List.infix_cons_iff, not_or, ← ih,
      ← List.map_cons, ← hasPrefix_iff]
    split_ifs with here
    · simp [here]
    · simp [here]

theorem index_append_of_some {pattern : List Char} {text rest : List Symbol} {start : Nat}
    (found : index char pattern text = some start) :
    index char pattern (text ++ rest) = some start := by
  induction text generalizing start with
  | nil =>
    obtain ⟨rfl, rfl⟩ : pattern = [] ∧ 0 = start := by simpa [index] using found
    cases rest <;> simp [index, hasPrefix]
  | cons symbol text ih =>
    unfold index at found
    rw [List.cons_append, index]
    split at found
    · next here =>
        rw [if_pos]
        · exact found
        · exact hasPrefix_append here
    · next notHere =>
        obtain ⟨later, foundLater, rfl⟩ := Option.map_eq_some_iff.mp found
        rw [if_neg, ih foundLater]
        · rfl
        · intro here
          obtain ⟨before, occurrence, after, rfl, -, isPattern⟩ := index_some foundLater
          apply notHere
          rw [hasPrefix_iff] at here ⊢
          refine List.prefix_of_prefix_length_le here ?_ ?_
          · exact ((List.prefix_append (symbol :: (before ++ occurrence ++ after)) rest).map char)
          · rw [← isPattern]
            simp
            omega

theorem Cut.mono {pattern before after longerBefore longerAfter : List Char}
    (cut : Cut pattern before after) (isSuffix : before <:+ longerBefore)
    (isPrefix : after <+: longerAfter) : Cut pattern longerBefore longerAfter := by
  obtain ⟨length, inRange, positive, ends, begins⟩ := cut
  exact ⟨length, inRange, positive, ends.trans isSuffix, begins.trans isPrefix⟩

theorem not_cut_nil (pattern before : List Char) : ¬ Cut pattern before [] := by
  rintro ⟨length, inRange, -, -, begins⟩
  have ended := List.drop_eq_nil_iff.mp (List.prefix_nil.mp begins)
  exact absurd (List.mem_range.mp inRange) (Nat.not_lt.mpr ended)

theorem index_append_of_none {pattern : List Char} {text rest : List Symbol}
    (missing : index char pattern text = none)
    (uncut : ¬ Cut pattern (text.map char) (rest.map char)) :
    index char pattern (text ++ rest) = (index char pattern rest).map (· + text.length) := by
  induction text with
  | nil => simp
  | cons symbol text ih =>
    have notHere : ¬ hasPrefix char (symbol :: text) pattern = true := by
      intro here
      rw [index_none_iff] at missing
      exact missing (hasPrefix_iff.mp here).isInfix
    have missingLater : index char pattern text = none := by
      simpa [index, notHere] using missing
    have uncutLater : ¬ Cut pattern (text.map char) (rest.map char) :=
      fun cut => uncut (cut.mono (List.suffix_cons _ _) List.prefix_rfl)
    have stillNotHere : ¬ hasPrefix char (symbol :: text ++ rest) pattern = true := by
      intro here
      rw [hasPrefix_iff, List.map_append] at here
      rcases List.prefix_or_prefix_of_prefix here (List.prefix_append _ _) with inside | longer
      · exact notHere (hasPrefix_iff.mpr inside)
      · obtain ⟨tail, rfl⟩ := longer
        cases tail with
        | nil =>
          rw [List.append_nil] at notHere
          exact notHere (hasPrefix_iff.mpr List.prefix_rfl)
        | cons next tail =>
          apply uncut
          refine ⟨((symbol :: text).map char).length, by simp, by simp, ?_, ?_⟩
          · simp
          · rw [List.drop_left]
            exact (List.prefix_append_right_inj _).mp here
    rw [List.cons_append, index, if_neg, ih missingLater uncutLater, Option.map_map]
    · rfl
    · simpa using stillNotHere

theorem index_map {Other : Type v} {charOther : Other → Char} {project : Symbol → Other}
    (same : ∀ symbol, charOther (project symbol) = char symbol) (pattern : List Char)
    (text : List Symbol) :
    index charOther pattern (text.map project) = index char pattern text := by
  have sameText : ∀ text : List Symbol, (text.map project).map charOther = text.map char := by
    intro text
    rw [List.map_map]
    exact List.map_congr_left fun symbol _ => same symbol
  induction text with
  | nil => rfl
  | cons symbol text ih =>
    have sameHere := sameText (symbol :: text)
    rw [List.map_cons] at sameHere ⊢
    rw [index, index, ih, hasPrefix, hasPrefix, sameHere]

theorem trimSpace_eq_nil_iff {text : List Char} :
    trimSpace text = [] ↔ ∀ char ∈ text, isSpace char = true := by
  rw [trimSpace, List.rdropWhile_eq_nil_iff]
  constructor
  · intro blank
    rw [← List.dropWhile_eq_nil_iff]
    cases kept : text.dropWhile isSpace with
    | nil => rfl
    | cons char rest =>
      have notSpace := @List.head_dropWhile_not _ isSpace text (by simp [kept])
      simp only [kept, List.head_cons] at notSpace
      have space := blank char (by simp [kept])
      rw [space] at notSpace
      contradiction
  · intro blank
    rw [List.dropWhile_eq_nil_iff.mpr blank]
    simp

theorem trimSpace_length_le (text : List Char) : (trimSpace text).length ≤ text.length := by
  unfold trimSpace
  exact ((List.rdropWhile_prefix _ _).sublist.trans (List.dropWhile_sublist _)).length_le

theorem dropWhile_trimSpace (text : List Char) :
    (trimSpace text).dropWhile isSpace = trimSpace text := by
  cases trimmed : trimSpace text with
  | nil => rfl
  | cons char rest =>
    apply List.dropWhile_cons_of_neg
    have isPrefix : char :: rest <+: text.dropWhile isSpace := by
      rw [← trimmed]
      exact List.rdropWhile_prefix _ _
    obtain ⟨tail, split⟩ := isPrefix
    have notSpace := @List.head_dropWhile_not _ isSpace text (by simp [← split])
    simp only [← split, List.cons_append, List.head_cons] at notSpace
    simp [notSpace]

theorem trimSpace_trimSpace (text : List Char) : trimSpace (trimSpace text) = trimSpace text := by
  rw [trimSpace, dropWhile_trimSpace]
  exact List.rdropWhile_idempotent _ _

theorem rdropWhile_append {text rest : List Char} :
    (text ++ rest).rdropWhile isSpace =
      if rest.rdropWhile isSpace = [] then text.rdropWhile isSpace
      else text ++ rest.rdropWhile isSpace := by
  simp only [List.rdropWhile, List.reverse_append, List.dropWhile_append, List.isEmpty_iff,
    List.reverse_eq_nil_iff]
  split_ifs
  · rfl
  · rw [List.reverse_append, List.reverse_reverse]

theorem trimSpace_append_blank {text rest : List Char} (blank : ∀ char ∈ rest, isSpace char = true) :
    trimSpace (text ++ rest) = trimSpace text := by
  have noRest : rest.rdropWhile isSpace = [] := List.rdropWhile_eq_nil_iff.mpr blank
  unfold trimSpace
  rw [List.dropWhile_append]
  split_ifs with allBlank
  · rw [List.isEmpty_iff.mp allBlank, List.dropWhile_eq_nil_iff.mpr blank]
  · rw [rdropWhile_append, if_pos noRest]

theorem eq_trimSpace_append_iff {text rest : List Char} :
    text = trimSpace (text ++ rest) ↔
      trimSpace text = text ∧ ∀ char ∈ rest, isSpace char = true := by
  constructor
  · intro same
    have trimmed : trimSpace text = text := by rw [same, trimSpace_trimSpace]
    refine ⟨trimmed, ?_⟩
    by_cases empty : text = []
    · subst empty
      exact trimSpace_eq_nil_iff.mp same.symm
    · have front : (text ++ rest).dropWhile isSpace = text ++ rest := by
        have notDropped : text.dropWhile isSpace = text := by
          rw [← trimmed, dropWhile_trimSpace]
        rw [List.dropWhile_append, notDropped, if_neg]
        simpa using empty
      rw [trimSpace, front, rdropWhile_append] at same
      split_ifs at same with noRest
      · exact List.rdropWhile_eq_nil_iff.mp noRest
      · exact absurd (List.self_eq_append_right.mp same) noRest
  · rintro ⟨trimmed, blank⟩
    rw [trimSpace_append_blank blank, trimmed]

theorem intercalate_split {separator : List Char} (nonempty : separator ≠ []) (text : List Char) :
    separator.intercalate (split separator text) = text := by
  rw [split, Scan.intercalate_between]
  exact (PyString.reads_matchPrefix nonempty).replace_scan text

theorem one_lt_length_split {separator text : List Char} (occurs : separator <:+: text)
    (nonempty : separator ≠ []) : 1 < (split separator text).length := by
  rw [split, Scan.length_between, Nat.lt_add_left_iff_pos, List.length_pos_iff]
  intro noMatch
  induction text with
  | nil => exact nonempty (List.infix_nil.mp occurs)
  | cons symbol rest ih =>
    cases here : PyString.matchPrefix separator (symbol :: rest) with
    | some result => simp [Scan.scan, here] at noMatch
    | none =>
      rw [Scan.scan_of_none here, Scan.found_inl] at noMatch
      rcases List.infix_cons_iff.mp occurs with isPrefix | later
      · simp [PyString.matchPrefix, isPrefix] at here
      · exact ih later noMatch

theorem split_of_not_infix {separator text : List Char} (absent : ¬ separator <:+: text) :
    split separator text = [text] := by
  unfold split
  induction text with
  | nil => rfl
  | cons symbol rest ih =>
    obtain ⟨notHere, notLater⟩ := not_or.mp (mt List.infix_cons_iff.mpr absent)
    have missed : PyString.matchPrefix separator (symbol :: rest) = none := by
      simp [PyString.matchPrefix, notHere]
    rw [Scan.scan_of_none missed, Scan.between, ih notLater]
    rfl

theorem replaceAll_nil_length {old : List Char} (nonempty : old ≠ []) (text : List Char) :
    (replaceAll old [] text).length ≤ text.length ∧
      (old <:+: text → (replaceAll old [] text).length < text.length) := by
  have positive := List.length_pos_iff.mpr nonempty
  simp only [replaceAll, PyString.replace, if_neg nonempty]
  induction text using (PyString.reads_matchPrefix nonempty).induction with
  | nil =>
    refine ⟨by simp, fun occurs => ?_⟩
    exact absurd (List.infix_nil.mp occurs) nonempty
  | missed symbol rest missed ih =>
    obtain ⟨shorter, strictly⟩ := ih
    rw [Scan.scan_of_none missed, Scan.replace_inl]
    refine ⟨Nat.succ_le_succ shorter, fun occurs => Nat.succ_lt_succ ?_⟩
    apply strictly
    rcases List.infix_cons_iff.mp occurs with here | later
    · simp [PyString.matchPrefix, here] at missed
    · exact later
  | matched item rest matched ih =>
    rw [Scan.scan_of_some matched rfl nonempty, Scan.replace_inr, List.nil_append,
      List.length_append]
    have shorter := ih.1
    exact ⟨by omega, fun _ => by omega⟩

theorem replaceAll_of_not_infix {old : List Char} (nonempty : old ≠ []) {text : List Char}
    (absent : ¬ old <:+: text) : replaceAll old [] text = text := by
  simp only [replaceAll, PyString.replace, if_neg nonempty]
  induction text with
  | nil => rfl
  | cons symbol rest ih =>
    obtain ⟨notHere, notLater⟩ := not_or.mp (mt List.infix_cons_iff.mpr absent)
    have missed : PyString.matchPrefix old (symbol :: rest) = none := by
      simp [PyString.matchPrefix, notHere]
    rw [Scan.scan_of_none missed, Scan.replace_inl, ih notLater]

end RagFlow.Lib.GoString
