import Mathlib.Data.List.Flatten
import Mathlib.Data.List.Induction
import Mathlib.Data.List.Nodup
import RagFlow.Lib.GoString
import RagFlow.Lib.Regex

/-!
# The documents for a rerank model

The tokens of a chunk and the text that the rerank model reads, in `reranker.go` and in
`rag/nlp/search.py`.
-/

namespace RagFlow.Rerank

open Lib

abbrev Text := List Char

inductive Keywords
  | one (keyword : Text)
  | many (keywords : List Text)

/-- The fields that the tokens are taken from; the first is the one named by `cfield`. -/
structure Fields where
  content : Option Text
  title_tks : Option Text
  important_kwd : Option Keywords

def gap (before after : Char → Bool) : Regex :=
  .seq (.char before) (.seq (.plus (.char (· = ' '))) (.char after))

def ends (found : Text) : Text := found.head?.toList ++ found.getLast?.toList

def squeeze (before after : Char → Bool) (text : Text) : Text :=
  Scan.replace ends (Scan.scan (gap before after).matchAt 0 text)

def isGap (char : Char) : Bool := char ∈ ['\t', '\n', '\x0c', '\r', ' ']

/-- `[\sa-z0-9]` of `regexp`, and the characters given -/
def plain (others : List Char) (char : Char) : Bool :=
  isGap char || ('a' ≤ char && char ≤ 'z') || ('0' ≤ char && char ≤ '9') || char ∈ others

/-- `[a-z0-9]` of `re` with `IGNORECASE`, and the characters given -/
def plainIgnoringCase (others : List Char) (char : Char) : Bool :=
  ('a' ≤ char && char ≤ 'z') || ('A' ≤ char && char ≤ 'Z') || char ∈ ['İ', 'ı', 'ſ', 'K'] ||
    ('0' ≤ char && char ≤ '9') || char ∈ others

def RemoveRedundantSpaces (s : Text) : Text :=
  let s := squeeze (!plain ['.', ',', ')', '>'] ·) (!isGap ·) s
  squeeze (!isGap ·) (!plain ['.', ',', '('] ·) s

def remove_redundant_spaces (txt : Text) : Text :=
  let txt := squeeze (!plainIgnoringCase ['.', ',', ')', '>'] ·) (· ≠ ' ') txt
  squeeze (· ≠ ' ') (!plainIgnoringCase ['.', ',', '(', '<'] ·) txt

example : RemoveRedundantSpaces "a < b".toList = "a<b".toList ∧
    remove_redundant_spaces "a < b".toList = "a <b".toList := by decide

def words (isSpace : Char → Bool) (text : Text) : List Text :=
  (text.splitOnP isSpace).filter (· ≠ [])

/-- Membership in a list is decided by comparing the entries. -/
scoped instance decidableMem {Value : Type} [DecidableEq Value] (value : Value)
    (values : List Value) : Decidable (value ∈ values) :=
  List.instDecidableMemOfLawfulBEq value values

def distinct (tokens : List Text) : List Text :=
  tokens.foldl (fun result t => if t ∈ result then result else result ++ [t]) []

def extractContentTokens (fields : Fields) : List Text :=
  match fields.content with
  | none => []
  | some v => distinct (words GoString.isSpace v)

def extractTitleTokens (fields : Fields) : List Text :=
  match fields.title_tks with
  | none => []
  | some v => words GoString.isSpace v

def extractImportantKeywords (fields : Fields) : List Text :=
  match fields.important_kwd with
  | none => []
  | some (.one val) => [val]
  | some (.many val) => val

def goTokens (fields : Fields) : List Text :=
  extractContentTokens fields ++ extractTitleTokens fields ++ extractImportantKeywords fields

/-- The tokens of `rerank_by_model`; without the content field there is a `KeyError`. -/
def pyTokens (fields : Fields) : Option (List Text) :=
  fields.content.map fun content =>
    let content_ltks := words PyString.isSpace content
    let title_tks := words PyString.isSpace (fields.title_tks.getD [])
    let important_kwd := match fields.important_kwd with
      | none => []
      | some (.one keyword) => [keyword]
      | some (.many keywords) => keywords
    content_ltks ++ title_tks ++ important_kwd

def joined (tks : List Text) : Text := [' '].intercalate tks

/-- No token of the content is repeated, no text has a separator U+001C to U+001F, by which only
Python cuts it, and the spaces between the tokens are redundant for both. -/
structure SameDocument (fields : Fields) (tks : List Text) : Prop where
  nodup : (words PyString.isSpace (fields.content.getD [])).Nodup
  content : ∀ char ∈ fields.content.getD [], PyString.isSpace char = GoString.isSpace char
  title : ∀ char ∈ fields.title_tks.getD [], PyString.isSpace char = GoString.isSpace char
  spaces : RemoveRedundantSpaces (joined tks) = remove_redundant_spaces (joined tks)


def solid (text : Text) : Text := text.filter (· ≠ ' ')

theorem solid_append (first second : Text) :
    solid (first ++ second) = solid first ++ solid second :=
  List.filter_append ..

theorem mem_solid {text : Text} {char : Char} : char ∈ solid text ↔ char ∈ text ∧ char ≠ ' ' := by
  rw [solid, List.mem_filter, decide_eq_true_eq]

theorem exists_gap {before after : Char → Bool} {text found : Text} {length : ℕ}
    (isFound : (gap before after).matchAt text = some (found, length)) :
    ∃ first run last rest, (∀ char ∈ run, char = ' ') ∧ found = first :: run ++ [last] ∧
      text = found ++ rest ∧ length = found.length := by
  rw [Regex.matchAt, Option.map_eq_some_iff] at isFound
  obtain ⟨rest, isHead, isResult⟩ := isFound
  obtain ⟨next, isNext, isRest⟩ := Regex.mem_remainders_seq.mp (List.mem_of_mem_head? isHead)
  obtain ⟨first, -, rfl⟩ := Regex.mem_remainders_char.mp isNext
  obtain ⟨behind, isBehind, isLast⟩ := Regex.mem_remainders_seq.mp isRest
  obtain ⟨run, -, spaces, rfl⟩ := Regex.mem_remainders_plus_char.mp isBehind
  obtain ⟨last, -, rfl⟩ := Regex.mem_remainders_char.mp isLast
  obtain ⟨rfl, rfl⟩ := Prod.mk.inj isResult
  have whole : first :: (run ++ last :: rest) = (first :: run ++ [last]) ++ rest := by simp
  rw [whole, List.length_append, Nat.add_sub_cancel, List.take_left']
  · exact ⟨first, run, last, rest, by simpa using spaces, rfl, rfl, rfl⟩
  · rfl

theorem reads_gap (before after : Char → Bool) : Scan.Reads (gap before after).matchAt id where
  begins text found length isFound := by
    obtain ⟨first, run, last, rest, -, -, whole, isLength⟩ := exists_gap isFound
    exact ⟨isLength, rest, whole⟩
  nonempty text found length isFound := by
    obtain ⟨first, run, last, rest, -, rfl, -, -⟩ := exists_gap isFound
    simp

theorem solid_ends {first last : Char} {run : Text} (spaces : ∀ char ∈ run, char = ' ') :
    solid (ends (first :: run ++ [last])) = solid (first :: run ++ [last]) := by
  have noSolid : solid run = [] := by simpa [solid, List.filter_eq_nil_iff] using spaces
  have bothEnds : ends (first :: run ++ [last]) = [first] ++ [last] := by
    rw [ends, List.getLast?_concat]
    rfl
  have whole : first :: run ++ [last] = [first] ++ run ++ [last] := rfl
  rw [bothEnds, whole, solid_append, solid_append, solid_append, noSolid, List.append_nil]

theorem solid_squeeze (before after : Char → Bool) (text : Text) :
    solid (squeeze before after text) = solid text := by
  rw [squeeze]
  induction text using (reads_gap before after).induction with
  | nil => rfl
  | missed symbol rest here ih =>
    rw [Scan.scan_of_none here, Scan.replace_inl, ← List.singleton_append, solid_append, ih,
      ← solid_append, List.singleton_append]
  | matched item rest here ih =>
    obtain ⟨first, run, last, after, spaces, rfl, -, -⟩ := exists_gap here
    rw [Scan.scan_of_some here rfl ((reads_gap _ _).nonempty _ _ _ here), Scan.replace_inr,
      solid_append, ih, solid_ends spaces, ← solid_append]
    rfl

theorem solid_RemoveRedundantSpaces (s : Text) : solid (RemoveRedundantSpaces s) = solid s := by
  rw [RemoveRedundantSpaces, solid_squeeze, solid_squeeze]

theorem solid_remove_redundant_spaces (txt : Text) :
    solid (remove_redundant_spaces txt) = solid txt := by
  rw [remove_redundant_spaces, solid_squeeze, solid_squeeze]

theorem solid_joined (tks : List Text) : solid (joined tks) = solid tks.flatten := by
  induction tks with
  | nil => rfl
  | cons token tks ih =>
    cases tks with
    | nil => simp [joined]
    | cons next tks =>
      have noSolid : solid [' '] = [] := by decide
      have step : joined (token :: next :: tks) = token ++ ([' '] ++ joined (next :: tks)) := by
        simp [joined, List.intercalate_cons_cons]
      rw [step, solid_append, solid_append, noSolid, ih, List.nil_append, ← solid_append]
      rfl

theorem flatten_words (isSpace : Char → Bool) (text : Text) :
    (words isSpace text).flatten = text.filter (!isSpace ·) := by
  rw [words, ← PyString.flatten_splitOnP]
  exact List.flatten_filter_ne_nil

theorem words_congr {isSpace isSpace' : Char → Bool} {text : Text}
    (same : ∀ char ∈ text, isSpace char = isSpace' char) :
    words isSpace text = words isSpace' text := by
  have sameSplit : text.splitOnP isSpace = text.splitOnP isSpace' := by
    induction text with
    | nil => rfl
    | cons char text ih =>
      rw [List.forall_mem_cons] at same
      rw [List.splitOnP_cons_eq_if_modifyHead, List.splitOnP_cons_eq_if_modifyHead, same.1,
        ih same.2]
  rw [words, words, sameSplit]

theorem distinct_concat (tokens : List Text) (t : Text) : distinct (tokens ++ [t]) =
    if t ∈ distinct tokens then distinct tokens else distinct tokens ++ [t] := by
  rw [distinct, List.foldl_concat]
  rfl

theorem mem_distinct {tokens : List Text} {token : Text} :
    token ∈ distinct tokens ↔ token ∈ tokens := by
  induction tokens using List.reverseRecOn with
  | nil => rfl
  | append_singleton tokens t ih =>
    rw [distinct_concat, List.mem_append, List.mem_singleton, ← ih]
    split
    · rename_i isOld
      exact ⟨.inl, fun isToken => isToken.elim id fun same => by rwa [same]⟩
    · rw [List.mem_append, List.mem_singleton]

theorem distinct_of_nodup {tokens : List Text} (nodup : tokens.Nodup) :
    distinct tokens = tokens := by
  induction tokens using List.reverseRecOn with
  | nil => rfl
  | append_singleton tokens t ih =>
    have isNew : t ∉ tokens := fun isOld =>
      (List.nodup_append.mp nodup).2.2 t isOld t (List.mem_singleton_self t) rfl
    rw [distinct_concat, ih (List.nodup_append.mp nodup).1, if_neg isNew]

theorem distinct_cases {tokens : List Text} (nonempty : [] ∉ tokens) :
    tokens.Nodup ∨ (distinct tokens).flatten.length < tokens.flatten.length := by
  induction tokens using List.reverseRecOn with
  | nil => exact .inl List.nodup_nil
  | append_singleton tokens t ih =>
    rw [List.mem_append, not_or, List.mem_singleton] at nonempty
    have isLong : 0 < t.length := List.length_pos_iff.mpr (Ne.symm nonempty.2)
    rw [distinct_concat, List.flatten_append, List.length_append, List.flatten_singleton]
    rcases ih nonempty.1 with nodup | shorter
    · rw [distinct_of_nodup nodup]
      split
      · exact .inr (by omega)
      · rename_i isNew
        rw [← List.concat_eq_append]
        exact .inl (nodup.concat isNew)
    · refine .inr ?_
      split
      · omega
      · rw [List.flatten_append, List.length_append, List.flatten_singleton]
        omega

/-- A separator by which only Python cuts a text. -/
def foreign (char : Char) : Bool := PyString.isSpace char && !GoString.isSpace char

theorem isSpace_eq {char : Char} (notForeign : foreign char = false) :
    PyString.isSpace char = GoString.isSpace char := by
  rw [foreign] at notForeign
  cases isPy : PyString.isSpace char with
  | true =>
    rw [isPy, Bool.true_and, Bool.not_eq_false'] at notForeign
    exact notForeign.symm
  | false =>
    rw [eq_comm, Bool.eq_false_iff]
    rw [Bool.eq_false_iff] at isPy
    refine fun isGo => isPy ?_
    simp only [PyString.isSpace, GoString.isSpace, Bool.or_eq_true, Bool.and_eq_true,
      decide_eq_true_eq] at isGo ⊢
    omega

theorem isSpace_eq_of_flatten {text : Text}
    (native : ∀ char ∈ (words GoString.isSpace text).flatten, foreign char = false) :
    ∀ char ∈ text, PyString.isSpace char = GoString.isSpace char := by
  intro char isMem
  refine isSpace_eq (Bool.eq_false_iff.mpr fun isForeign => ?_)
  have notSpace : GoString.isSpace char = false := by
    rw [foreign, Bool.and_eq_true, Bool.not_eq_true'] at isForeign
    exact isForeign.2
  have inWords : char ∈ (words GoString.isSpace text).flatten := by
    rw [flatten_words]
    exact List.mem_filter.mpr ⟨isMem, by rw [notSpace]; rfl⟩
  rw [native char inWords] at isForeign
  cases isForeign

theorem nil_notMem_words (isSpace : Char → Bool) (text : Text) : [] ∉ words isSpace text := by
  intro isMem
  exact absurd rfl (of_decide_eq_true (List.mem_filter.mp isMem).2)

theorem solid_words {isSpace : Char → Bool} (isBreak : isSpace ' ' = true) (text : Text) :
    solid (words isSpace text).flatten = (words isSpace text).flatten := by
  rw [solid, List.filter_eq_self]
  intro char isMem
  rw [flatten_words] at isMem
  have notSpace := (List.mem_filter.mp isMem).2
  rw [decide_eq_true_eq]
  rintro rfl
  rw [isBreak] at notSpace
  cases notSpace

theorem words_of_solid {content title : Text}
    (same : solid ((distinct (words GoString.isSpace content)).flatten ++
        (words GoString.isSpace title).flatten) =
      solid ((words PyString.isSpace content).flatten ++
        (words PyString.isSpace title).flatten)) :
    (words PyString.isSpace content).Nodup ∧
      (∀ char ∈ content, PyString.isSpace char = GoString.isSpace char) ∧
      ∀ char ∈ title, PyString.isSpace char = GoString.isSpace char := by
  have native : ∀ char ∈ (distinct (words GoString.isSpace content)).flatten ++
      (words GoString.isSpace title).flatten, foreign char = false := by
    intro char isMem
    by_cases isSpace : char = ' '
    · rw [isSpace]
      decide
    have isSolid := mem_solid.mpr ⟨isMem, isSpace⟩
    rw [same, solid, flatten_words, flatten_words, List.mem_filter,
      ← List.filter_append, List.mem_filter] at isSolid
    rw [foreign, Bool.and_eq_false_imp]
    intro isPySpace
    simp [isPySpace] at isSolid
  rw [List.forall_mem_append] at native
  have sameContent : ∀ char ∈ content, PyString.isSpace char = GoString.isSpace char := by
    apply isSpace_eq_of_flatten
    intro char isMem
    obtain ⟨word, isWord, isChar⟩ := List.mem_flatten.mp isMem
    exact native.1 char (List.mem_flatten.mpr ⟨word, mem_distinct.mpr isWord, isChar⟩)
  have sameTitle := isSpace_eq_of_flatten native.2
  refine ⟨?_, sameContent, sameTitle⟩
  rw [words_congr sameContent, words_congr sameTitle, solid_append, solid_append,
    List.append_left_inj, solid_words (by decide)] at same
  rw [words_congr sameContent]
  apply (distinct_cases (nil_notMem_words _ _)).resolve_right
  intro shorter
  have fewer := List.length_filter_le (· ≠ ' ') (distinct (words GoString.isSpace content)).flatten
  rw [← solid, same] at fewer
  omega

theorem extractTitleTokens_eq (fields : Fields) :
    extractTitleTokens fields = words GoString.isSpace (fields.title_tks.getD []) := by
  rw [extractTitleTokens]
  cases fields.title_tks <;> rfl

theorem tokens_eq {fields : Fields} {tks : List Text} (isTokens : pyTokens fields = some tks) :
    ∃ content, fields.content = some content ∧
      goTokens fields = distinct (words GoString.isSpace content) ++
        words GoString.isSpace (fields.title_tks.getD []) ++ extractImportantKeywords fields ∧
      tks = words PyString.isSpace content ++ words PyString.isSpace (fields.title_tks.getD []) ++
        extractImportantKeywords fields := by
  obtain ⟨content, isContent, rfl⟩ := Option.map_eq_some_iff.mp isTokens
  refine ⟨content, isContent, ?_, rfl⟩
  rw [goTokens, extractTitleTokens_eq, extractContentTokens, isContent]

theorem goTokens_eq {fields : Fields} {tks : List Text} (isTokens : pyTokens fields = some tks)
    (same : SameDocument fields tks) : goTokens fields = tks := by
  obtain ⟨content, isContent, goTks, isTks⟩ := tokens_eq isTokens
  obtain ⟨nodup, sameContent, sameTitle, -⟩ := same
  rw [isContent, Option.getD_some] at nodup sameContent
  rw [words_congr sameContent] at nodup
  rw [goTks, isTks, distinct_of_nodup nodup, words_congr sameContent, words_congr sameTitle]

theorem sameDocument_iff {fields : Fields} {tks : List Text}
    (isTokens : pyTokens fields = some tks) :
    RemoveRedundantSpaces (joined (goTokens fields)) = remove_redundant_spaces (joined tks) ↔
      SameDocument fields tks := by
  constructor
  · intro same
    have solids := congrArg solid same
    obtain ⟨content, isContent, goTks, isTks⟩ := tokens_eq isTokens
    rw [solid_RemoveRedundantSpaces, solid_remove_redundant_spaces, solid_joined, solid_joined,
      goTks, isTks, List.flatten_append, List.flatten_append, List.flatten_append,
      List.flatten_append, solid_append, solid_append _ (extractImportantKeywords fields).flatten,
      List.append_left_inj] at solids
    obtain ⟨nodup, sameContent, sameTitle⟩ := words_of_solid solids
    have sameTokens : goTokens fields = tks := by
      rw [words_congr sameContent] at nodup
      rw [goTks, isTks, distinct_of_nodup nodup, words_congr sameContent, words_congr sameTitle]
    rw [sameTokens] at same
    constructor
    · rwa [isContent]
    · rwa [isContent]
    · exact sameTitle
    · exact same
  · intro same
    rw [goTokens_eq isTokens same]
    exact same.spaces

end RagFlow.Rerank
