import Mathlib.Data.List.Dedup
import Mathlib.Data.List.Sort
import RagFlow.Lib.Regex

/-!
# Custom delimiters

`rag/nlp/__init__.py`: the texts in backticks of a delimiter setting, at which `naive_merge` and
its relatives split sections.
-/

namespace RagFlow.Chunking

open Lib

abbrev Text := List Char

/-- `re.findall` of a text in backticks, without the backticks. -/
def customDelimiters (delimiter : Text) : List Text :=
  let quoted : Regex :=
    .inOrder [.literal "`", .plus (.noneOf "`"), .literal "`"]
  (Scan.found (Scan.scan quoted.matchAt 0 delimiter)).map fun found => (found.drop 1).dropLast

def exactly (text : Text) : Regex := .literal (String.ofList text)

def customPattern (delimiters : List Text) : Regex :=
  .anyOf ((delimiters.dedup.insertionSort fun first second =>
    second.length ≤ first.length).map exactly)

def splitSection (delimiters : List Text) (sec : Text) : List Text :=
  ((customPattern delimiters).split sec).filter fun sub_sec =>
    !(customPattern delimiters).isFullmatch sub_sec

variable {delimiters : List Text} {delimiter text rest : Text}

theorem mem_remainders_customPattern : rest ∈ (customPattern delimiters).remainders text ↔
    ∃ delimiter ∈ delimiters, text = delimiter ++ rest := by
  simp [customPattern, Regex.mem_remainders_anyOf, exactly, Regex.mem_remainders_literal]

theorem ne_nil_of_mem_customDelimiters (isMem : delimiter ∈ customDelimiters text) :
    delimiter ≠ [] := by
  obtain ⟨found, isFound, rfl⟩ := List.mem_map.mp isMem
  obtain ⟨tail, length, -, matched⟩ := Scan.exists_matchAt_of_mem_found isFound
  obtain ⟨rest, isHead, same⟩ := Option.map_eq_some_iff.mp matched
  obtain ⟨quoted, isQuoted, isRest⟩ := List.mem_flatMap.mp (List.mem_of_head? isHead)
  obtain ⟨behind, isBehind, isEnd⟩ := List.mem_flatMap.mp isRest
  obtain ⟨next, isNext, isStar⟩ := List.mem_flatMap.mp isBehind
  have opened := congrArg List.length (Regex.mem_remainders_literal.mp isQuoted)
  have first := (Regex.consumes_char _).length_lt isNext
  have others := (Regex.suffix_of_mem_remainders _ _ _ isStar).length_le
  have closed := congrArg List.length (Regex.mem_remainders_literal.mp isEnd)
  rw [Prod.mk.injEq] at same
  rw [← same.1, ← List.length_pos_iff]
  simp only [List.length_append, String.length_toList, List.length_dropLast, List.length_drop,
    List.length_take] at *
  have tick : "`".length = 1 := rfl
  omega

theorem customPattern_consumes (nonempty : ∀ delimiter ∈ delimiters, delimiter ≠ []) :
    (customPattern delimiters).Consumes := by
  intro text isMem
  obtain ⟨delimiter, isDelimiter, same⟩ := mem_remainders_customPattern.mp isMem
  exact nonempty delimiter isDelimiter (List.self_eq_append_left.mp same)

theorem splitSection_ne_nil (nonempty : ∀ delimiter ∈ delimiters, delimiter ≠ []) (sec : Text) :
    splitSection delimiters sec ≠ [] := by
  have whole := Regex.flatten_split (customPattern_consumes nonempty) sec
  have isSplit : (customPattern delimiters).split sec =
      Regex.pieces (Scan.scan (customPattern delimiters).matchAt 0 sec) := rfl
  obtain ⟨first, others, parts⟩ := List.exists_cons_of_ne_nil
    (Regex.pieces_ne_nil (Scan.scan (customPattern delimiters).matchAt 0 sec))
  rw [isSplit, parts, List.flatten_cons] at whole
  have kept : (customPattern delimiters).isFullmatch first = false := by
    apply Bool.eq_false_iff.mpr
    intro matched
    obtain ⟨delimiter, isDelimiter, isFirst⟩ :=
      mem_remainders_customPattern.mp (List.contains_iff_mem.mp matched)
    rw [List.append_nil] at isFirst
    subst isFirst
    have isRemainder : others.flatten ∈ (customPattern delimiters).remainders sec :=
      mem_remainders_customPattern.mpr ⟨first, isDelimiter, whole.symm⟩
    obtain ⟨symbol, tail, rfl⟩ := List.exists_cons_of_ne_nil (nonempty first isDelimiter)
    rw [← whole, List.cons_append] at isRemainder parts
    cases here : (customPattern delimiters).matchAt (symbol :: (tail ++ others.flatten)) with
    | none =>
      rw [Regex.matchAt, Option.map_eq_none_iff, List.head?_eq_none_iff] at here
      rw [here] at isRemainder
      cases isRemainder
    | some result =>
      simp only [Scan.scan, here, Regex.pieces, List.cons.injEq] at parts
      cases parts.1
  rw [splitSection, isSplit, parts, List.filter_cons_of_pos (by rw [kept]; rfl)]
  exact List.cons_ne_nil _ _

end RagFlow.Chunking
