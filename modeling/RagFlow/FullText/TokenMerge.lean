import Mathlib
import RagFlow.Lib.PyString
import RagFlow.Lib.Scan

/-!
# Short tokens merged into terms

`token_merge` of both servers.  Long runs of short tokens are where they part: the Python loop takes
two tokens and looks again at what is left, the Go loop cuts the whole run into pairs.
-/

namespace RagFlow.FullText

open RagFlow.Lib

abbrev Text := List Char

def isLetter (char : Char) : Bool :=
  ('a' ≤ char && char ≤ 'z') || ('A' ≤ char && char ≤ 'Z')

def isDigit (char : Char) : Bool := '0' ≤ char && char ≤ '9'

/-- `re.match(r"[...]+$", text)`; the end may stand before a last line break. -/
def matchesAll (inClass : Char → Bool) (text : Text) : Bool :=
  let line := if text.getLast? = some '\n' then text.dropLast else text
  line ≠ [] && line.all inClass

def split (text : Text) : List Text :=
  (text.splitOnP PyString.isSpace).filter (· ≠ [])

def joinWords (words : List Text) : Text := List.intercalate [' '] words

theorem joinWords_cons_cons (word next : Text) (words : List Text) :
    joinWords (word :: next :: words) = word ++ ' ' :: joinWords (next :: words) := by
  simp [joinWords, List.intercalate_cons_cons]

@[simp] theorem joinWords_singleton (word : Text) : joinWords [word] = word := by
  simp [joinWords]

/-- `[0-9a-z]{1,2}$`, or any single character. -/
def oneTerm (token : Text) : Bool :=
  let line := if token.getLast? = some '\n' then token.dropLast else token
  token.length = 1 ||
    (line.length ≤ 2 && matchesAll (fun char => isDigit char || ('a' ≤ char && char ≤ 'z')) token)

/-- Membership in a list is decided by comparing the entries. -/
local instance decidableMem {Value : Type} [DecidableEq Value] (value : Value)
    (values : List Value) : Decidable (value ∈ values) :=
  List.instDecidableMemOfLawfulBEq value values

def joins (short : Text → Bool) (stops : List Text) (token : Text) : Bool :=
  token ≠ [] && !decide (token ∈ stops) && short token

def shortRun (short : Text → Bool) (stops tokens : List Text) : List Text :=
  tokens.takeWhile (joins short stops)

def mergeAt (stops tokens : List Text) : Option (List Text × Nat) :=
  let run := shortRun oneTerm stops tokens
  if run.length ≤ 1 then none
  else if run.length < 5 then some (run, run.length)
  else some (run.take 2, 2)

def mergesFirst (short : Text → Bool) : List Text → Bool
  | first :: second :: _ =>
    short first && decide (1 < second.length) &&
      !(second.head?.any fun char => isDigit char || isLetter char)
  | _ => false

def mergeTokens (stops tokens : List Text) : List Text :=
  Scan.replace (fun words => [joinWords words]) (Scan.scan (mergeAt stops) 0 tokens)

def tokenMerge (stops tokens : List Text) : List Text :=
  (if mergesFirst oneTerm tokens then
    joinWords (tokens.take 2) :: mergeTokens stops (tokens.drop 2)
  else mergeTokens stops tokens).filter (· ≠ [])

/-- `^[0-9a-z]{1,2}$`, or any single character; `$` is the end of the text in Go. -/
def goOneTerm (token : Text) : Bool :=
  token.length = 1 ||
    (token.length = 2 && token.all fun char => isDigit char || ('a' ≤ char && char ≤ 'z'))

def goMergeAt (stops tokens : List Text) : Option (List Text × Nat) :=
  let run := shortRun goOneTerm stops tokens
  if run.length ≤ 1 then none else some (run, run.length)

def pairs : List Text → List (List Text)
  | first :: second :: rest => [first, second] :: pairs rest
  | [token] => [[token]]
  | [] => []

def goMergeTokens (stops tokens : List Text) : List Text :=
  Scan.replace (fun run => (if run.length < 5 then [run] else pairs run).map joinWords)
    (Scan.scan (goMergeAt stops) 0 tokens)

def goTokenMerge (stops tokens : List Text) : List Text :=
  (if mergesFirst goOneTerm tokens then
    joinWords (tokens.take 2) :: goMergeTokens stops (tokens.drop 2)
  else goMergeTokens stops tokens).filter (· ≠ [])

/-- Terms of tokens in order; only empty tokens are dropped, and a stop word is a term alone. -/
inductive Merged (stops : List Text) : List Text → List Text → Prop
  | nil : Merged stops [] []
  | empty {tokens terms : List Text} (merged : Merged stops tokens terms) :
    Merged stops ([] :: tokens) terms
  | term {group tokens terms : List Text} (nonempty : group ≠ []) (filled : [] ∉ group)
      (alone : ∀ word ∈ group, word ∈ stops → group = [word])
      (merged : Merged stops tokens terms) :
    Merged stops (group ++ tokens) (joinWords group :: terms)

/-- The pair at the start may hold a stop word. -/
def Separates (stops tokens terms : List Text) : Prop :=
  if mergesFirst oneTerm tokens then
    ∃ later, terms = joinWords (tokens.take 2) :: later ∧ Merged stops (tokens.drop 2) later
  else Merged stops tokens terms

structure MergesAlike (stops tokens : List Text) : Prop where
  conserves : joinWords (tokenMerge stops tokens) = joinWords (tokens.filter (· ≠ []))
  separates : Separates stops tokens (tokenMerge stops tokens)
  agrees : goTokenMerge stops tokens = tokenMerge stops tokens

/-- No five short tokens stand in a row, and those that do stand in a row end in no line break. -/
def RunsFit (stops tokens : List Text) : Prop :=
  ∀ run, run <:+: tokens → (∀ token ∈ run, joins oneTerm stops token = true) → 2 ≤ run.length →
    run.length < 5 ∧ ∀ token ∈ run, goOneTerm token = true

structure Aligned (stops tokens : List Text) : Prop where
  leads : mergesFirst oneTerm tokens = true → mergesFirst goOneTerm tokens = true
  runs : RunsFit stops (if mergesFirst oneTerm tokens then tokens.drop 2 else tokens)

variable {stops tokens rest terms : List Text} {token : Text}

theorem oneTerm_of_goOneTerm (short : goOneTerm token = true) : oneTerm token = true := by
  rw [goOneTerm, Bool.or_eq_true, decide_eq_true_eq] at short
  rw [oneTerm, Bool.or_eq_true, decide_eq_true_eq]
  apply short.imp_right
  intro two
  obtain ⟨length, all⟩ := (Bool.and_eq_true_iff.mp two)
  have notBreak : token.getLast? ≠ some '\n' := by
    intro isLast
    have := List.all_eq_true.mp all '\n' (List.mem_of_getLast? isLast)
    simp [isDigit] at this
  rw [decide_eq_true_eq] at length
  have filled : token ≠ [] := by
    rintro rfl
    simp at length
  simp [matchesAll, notBreak, length, filled, all]

theorem joins_of_goJoins (joined : joins goOneTerm stops token = true) :
    joins oneTerm stops token = true := by
  rw [joins, Bool.and_eq_true] at joined ⊢
  exact joined.imp_right oneTerm_of_goOneTerm

theorem filled_of_joins {short : Text → Bool} (joined : joins short stops token = true) :
    token ≠ [] ∧ token ∉ stops ∧ short token = true := by
  simpa [joins, and_assoc] using joined

theorem shortRun_eq_take (short : Text → Bool) (stops tokens : List Text) :
    shortRun short stops tokens = tokens.take (shortRun short stops tokens).length :=
  List.prefix_iff_eq_take.mp (List.takeWhile_prefix _)

theorem joins_of_mem_shortRun {short : Text → Bool} (inRun : token ∈ shortRun short stops tokens) :
    joins short stops token = true :=
  List.all_eq_true.mp (List.all_takeWhile (p := joins short stops)) token inRun

theorem length_shortRun_le (short : Text → Bool) (stops tokens : List Text) :
    (shortRun short stops tokens).length ≤ tokens.length :=
  (List.takeWhile_prefix _).length_le

theorem shortRun_append {short : Text → Bool} {run : List Text}
    (joined : ∀ token ∈ run, joins short stops token = true) (rest : List Text) :
    shortRun short stops (run ++ rest) = run ++ shortRun short stops rest :=
  List.takeWhile_append_of_pos joined

theorem joins_of_mem_take {short : Text → Bool} {count : Nat}
    (within : count ≤ (shortRun short stops tokens).length) (inTake : token ∈ tokens.take count) :
    joins short stops token = true := by
  apply joins_of_mem_shortRun
  rw [shortRun_eq_take]
  exact List.take_subset_take_left tokens within inTake

theorem shortRun_drop (short : Text → Bool) (stops tokens : List Text) {count : Nat}
    (within : count ≤ (shortRun short stops tokens).length) :
    shortRun short stops (tokens.drop count) = (shortRun short stops tokens).drop count := by
  have joined : ∀ token ∈ tokens.take count, joins short stops token = true :=
    fun _ => joins_of_mem_take within
  have whole := shortRun_append joined (tokens.drop count)
  have length : (tokens.take count).length = count :=
    List.length_take_of_le (within.trans (length_shortRun_le ..))
  rw [List.take_append_drop] at whole
  rw [whole, List.drop_left' length]

theorem shortRun_append_drop (short : Text → Bool) (stops tokens : List Text) :
    shortRun short stops tokens ++ tokens.drop (shortRun short stops tokens).length = tokens := by
  nth_rewrite 1 [shortRun_eq_take]
  exact List.take_append_drop _ tokens

theorem length_goRun_le (stops tokens : List Text) :
    (shortRun goOneTerm stops tokens).length ≤ (shortRun oneTerm stops tokens).length := by
  have joined : ∀ token ∈ shortRun goOneTerm stops tokens, joins oneTerm stops token = true :=
    fun token inRun => joins_of_goJoins (joins_of_mem_shortRun inRun)
  have whole := shortRun_append joined (tokens.drop (shortRun goOneTerm stops tokens).length)
  rw [shortRun_append_drop] at whole
  rw [whole, List.length_append]
  exact Nat.le_add_right _ _

/-- How many tokens the Python loop takes at the start of a run. -/
def width (run : Nat) : Nat := if run ≤ 1 then 1 else if run < 5 then run else 2

theorem one_le_width (run : Nat) : 1 ≤ width run := by
  unfold width
  split_ifs <;> omega

theorem width_le {run length : Nat} (within : run ≤ length) (filled : 1 ≤ length) :
    width run ≤ length := by
  unfold width
  split_ifs <;> omega

theorem width_cases (run : Nat) : width run = 1 ∨ width run ≤ run := by
  unfold width
  split_ifs <;> omega

theorem mergeTokens_step (filled : tokens ≠ []) :
    mergeTokens stops tokens =
      joinWords (tokens.take (width (shortRun oneTerm stops tokens).length)) ::
        mergeTokens stops (tokens.drop (width (shortRun oneTerm stops tokens).length)) := by
  by_cases single : (shortRun oneTerm stops tokens).length ≤ 1
  · obtain ⟨token, rest, rfl⟩ := List.exists_cons_of_ne_nil filled
    have missed : mergeAt stops (token :: rest) = none := by simp [mergeAt, single]
    rw [mergeTokens, Scan.scan_of_none missed, Scan.replace_inl]
    simp [width, single, mergeTokens]
  · have within : width (shortRun oneTerm stops tokens).length ≤ tokens.length :=
      width_le (length_shortRun_le ..) (List.length_pos_iff.mpr filled)
    have matched : mergeAt stops
        (tokens.take (width (shortRun oneTerm stops tokens).length) ++
          tokens.drop (width (shortRun oneTerm stops tokens).length)) =
        some (tokens.take (width (shortRun oneTerm stops tokens).length),
          width (shortRun oneTerm stops tokens).length) := by
      rw [List.take_append_drop, mergeAt]
      simp only [single, width, if_false]
      split_ifs with short
      · rw [← shortRun_eq_take]
      · rw [shortRun_eq_take, List.take_take]
        congr 3
        omega
    have nonempty : tokens.take (width (shortRun oneTerm stops tokens).length) ≠ [] := by
      simp [filled, Nat.one_le_iff_ne_zero.mp (one_le_width _)]
    have scanned := Scan.scan_of_some matched (List.length_take_of_le within) nonempty
    rw [List.take_append_drop] at scanned
    rw [mergeTokens, scanned, Scan.replace_inr, List.singleton_append, mergeTokens]

theorem goMergeTokens_run (long : 2 ≤ (shortRun goOneTerm stops tokens).length) :
    goMergeTokens stops tokens =
      (if (shortRun goOneTerm stops tokens).length < 5 then [shortRun goOneTerm stops tokens]
        else pairs (shortRun goOneTerm stops tokens)).map joinWords ++
      goMergeTokens stops (tokens.drop (shortRun goOneTerm stops tokens).length) := by
  have split := shortRun_append_drop goOneTerm stops tokens
  have matched : goMergeAt stops (shortRun goOneTerm stops tokens ++
      tokens.drop (shortRun goOneTerm stops tokens).length) =
      some (shortRun goOneTerm stops tokens, (shortRun goOneTerm stops tokens).length) := by
    rw [split, goMergeAt, if_neg (by omega)]
  have scanned := Scan.scan_of_some matched rfl (List.ne_nil_of_length_pos (by omega))
  rw [split] at scanned
  rw [goMergeTokens, scanned, Scan.replace_inr, goMergeTokens]

theorem goMergeTokens_step (filled : tokens ≠ [])
    (short : (shortRun goOneTerm stops tokens).length < 5) :
    goMergeTokens stops tokens =
      joinWords (tokens.take (width (shortRun goOneTerm stops tokens).length)) ::
        goMergeTokens stops (tokens.drop (width (shortRun goOneTerm stops tokens).length)) := by
  by_cases single : (shortRun goOneTerm stops tokens).length ≤ 1
  · obtain ⟨token, rest, rfl⟩ := List.exists_cons_of_ne_nil filled
    have missed : goMergeAt stops (token :: rest) = none := by simp [goMergeAt, single]
    rw [goMergeTokens, Scan.scan_of_none missed, Scan.replace_inl]
    simp [width, single, goMergeTokens]
  · rw [goMergeTokens_run (by omega), if_pos short, width, if_neg single, if_pos short,
      ← shortRun_eq_take]
    rfl

theorem joinWords_append {first second : List Text} (firstFilled : first ≠ [])
    (secondFilled : second ≠ []) :
    joinWords (first ++ second) = joinWords first ++ ' ' :: joinWords second := by
  obtain ⟨word, words, rfl⟩ := List.exists_cons_of_ne_nil firstFilled
  obtain ⟨next, others, rfl⟩ := List.exists_cons_of_ne_nil secondFilled
  clear firstFilled secondFilled
  induction words generalizing word with
  | nil => rw [List.singleton_append, joinWords_cons_cons, joinWords_singleton]
  | cons later words ih =>
    rw [List.cons_append, List.cons_append, joinWords_cons_cons, ← List.cons_append, ih,
      joinWords_cons_cons, List.append_assoc, List.cons_append]

theorem length_joinWords_take_lt {first second : Nat} (positive : 1 ≤ first)
    (less : first < second) (within : second ≤ tokens.length) :
    (joinWords (tokens.take first)).length < (joinWords (tokens.take second)).length := by
  have split : tokens.take second =
      tokens.take first ++ (tokens.drop first).take (second - first) := by
    rw [← List.take_add, Nat.add_sub_of_le (Nat.le_of_lt less)]
  rw [split, joinWords_append (by
      apply List.ne_nil_of_length_pos
      rw [List.length_take]
      omega) (by
      apply List.ne_nil_of_length_pos
      rw [List.length_take, List.length_drop]
      omega), List.length_append, List.length_cons]
  omega

theorem eq_of_joinWords_take_eq {first second : Nat} (firstPositive : 1 ≤ first)
    (secondPositive : 1 ≤ second) (firstWithin : first ≤ tokens.length)
    (secondWithin : second ≤ tokens.length)
    (same : joinWords (tokens.take first) = joinWords (tokens.take second)) : first = second := by
  have lengths := congrArg List.length same
  rcases Nat.lt_trichotomy first second with less | equal | more
  · have := length_joinWords_take_lt firstPositive less secondWithin
    omega
  · exact equal
  · have := length_joinWords_take_lt secondPositive more firstWithin
    omega

theorem joinWords_take_ne_nil {count : Nat} (filled : token ≠ []) (positive : 1 ≤ count) :
    joinWords ((token :: rest).take count) ≠ [] := by
  obtain ⟨others, rfl⟩ := Nat.exists_eq_add_of_le' positive
  rw [List.take_succ_cons]
  cases rest.take others with
  | nil => rwa [joinWords_singleton]
  | cons next words =>
    rw [joinWords_cons_cons]
    simp [filled]

theorem joinWords_group {group words : List Text} (nonempty : group ≠ [])
    (same : joinWords terms = joinWords words ∧ (terms = [] ↔ words = [])) :
    joinWords (joinWords group :: terms) = joinWords (group ++ words) := by
  by_cases last : terms = []
  · rw [same.2.mp last, List.append_nil, last, joinWords_singleton]
  · rw [joinWords_append nonempty (mt same.2.mpr last), ← same.1, ← List.singleton_append,
      joinWords_append (List.cons_ne_nil _ _) last, joinWords_singleton]

theorem Merged.conserves (merged : Merged stops tokens terms) :
    joinWords terms = joinWords (tokens.filter (· ≠ [])) ∧
      (terms = [] ↔ tokens.filter (· ≠ []) = []) := by
  induction merged with
  | nil => exact ⟨rfl, Iff.rfl⟩
  | empty _ ih => simpa using ih
  | @term group tokens terms nonempty filled _ _ ih =>
    have whole : group.filter (· ≠ []) = group := by
      rw [List.filter_eq_self]
      exact fun word inGroup => decide_eq_true fun isEmpty => filled (isEmpty ▸ inGroup)
    rw [List.filter_append, whole]
    exact ⟨joinWords_group nonempty ih, by simp [nonempty]⟩

theorem merged_mergeTokens (stops tokens : List Text) :
    Merged stops tokens ((mergeTokens stops tokens).filter (· ≠ [])) := by
  induction size : tokens.length using Nat.strongRecOn generalizing tokens with
  | ind size ih =>
    cases tokens with
    | nil => exact .nil
    | cons token rest =>
      have positive := one_le_width (shortRun oneTerm stops (token :: rest)).length
      have later := ih _ (by simp only [← size, List.length_drop, List.length_cons]; omega)
        ((token :: rest).drop (width (shortRun oneTerm stops (token :: rest)).length)) rfl
      rw [mergeTokens_step (List.cons_ne_nil token rest)]
      by_cases isEmpty : token = []
      · subst isEmpty
        have noRun : shortRun oneTerm stops ([] :: rest) = [] := by simp [shortRun, joins]
        rw [noRun] at later ⊢
        exact .empty later
      · rw [List.filter_cons_of_pos (by simpa using joinWords_take_ne_nil isEmpty positive)]
        nth_rewrite 1 [← List.take_append_drop
          (width (shortRun oneTerm stops (token :: rest)).length) (token :: rest)]
        rcases width_cases (shortRun oneTerm stops (token :: rest)).length with one | within
        · rw [one] at later ⊢
          refine .term (by simp) (by simpa using Ne.symm isEmpty) ?_ later
          intro word inGroup _
          rw [List.take_succ_cons, List.take_zero, List.mem_singleton] at inGroup
          rw [inGroup, List.take_succ_cons, List.take_zero]
        · have inRun : ∀ word ∈ (token :: rest).take
              (width (shortRun oneTerm stops (token :: rest)).length),
              word ≠ [] ∧ word ∉ stops ∧ oneTerm word = true := by
            intro word inGroup
            apply filled_of_joins
            exact joins_of_mem_take within inGroup
          refine .term ?_ (fun inGroup => (inRun _ inGroup).1 rfl)
            (fun word inGroup isStop => absurd isStop (inRun word inGroup).2.1) later
          simpa using Nat.one_le_iff_ne_zero.mp positive

/-- What the Go loop still writes for so many tokens of a long run and for what comes behind. -/
def pairsThen (count : Nat) (stops tokens : List Text) : List Text :=
  (pairs (tokens.take count)).map joinWords ++ goMergeTokens stops (tokens.drop count)

theorem ne_of_steps {first second : Nat} {goLater later : List Text} (filled : token ≠ [])
    (firstPositive : 1 ≤ first) (secondPositive : 1 ≤ second)
    (firstWithin : first ≤ (token :: rest).length)
    (secondWithin : second ≤ (token :: rest).length) (different : first ≠ second) :
    (joinWords ((token :: rest).take first) :: goLater).filter (· ≠ []) ≠
      (joinWords ((token :: rest).take second) :: later).filter (· ≠ []) := by
  intro same
  rw [List.filter_cons_of_pos (by simpa using joinWords_take_ne_nil filled firstPositive),
    List.filter_cons_of_pos (by simpa using joinWords_take_ne_nil filled secondPositive)] at same
  exact different (eq_of_joinWords_take_eq firstPositive secondPositive firstWithin secondWithin
    (List.cons.inj same).1)

theorem exists_cons_of_run {short : Text → Bool}
    (inRun : 1 ≤ (shortRun short stops tokens).length) :
    ∃ token rest, tokens = token :: rest ∧ joins short stops token = true := by
  obtain ⟨token, run, isRun⟩ := List.exists_cons_of_length_pos inRun
  have split := shortRun_append_drop short stops tokens
  rw [isRun, List.cons_append] at split
  exact ⟨token, _, split.symm, joins_of_mem_shortRun (isRun ▸ List.mem_cons_self)⟩

theorem pairsThen_add_two (count : Nat) (two : 2 ≤ tokens.length) :
    pairsThen (count + 2) stops tokens =
      joinWords (tokens.take 2) :: pairsThen count stops (tokens.drop 2) := by
  match tokens, two with
  | first :: second :: rest, _ => rfl

theorem filter_cons_eq_iff {term : Text} (filled : term ≠ []) {first second : List Text} :
    (term :: first).filter (· ≠ []) = (term :: second).filter (· ≠ []) ↔
      first.filter (· ≠ []) = second.filter (· ≠ []) := by
  simp [filled]

/-- The Python loop ends a long run with three or four tokens, the Go loop with one or two. -/
theorem pairsThen_ne (count : Nat) (stops : List Text) :
    ∀ tokens : List Text, 3 ≤ (shortRun oneTerm stops tokens).length →
      count ≤ (shortRun oneTerm stops tokens).length →
      shortRun goOneTerm stops (tokens.drop count) = [] →
      (pairsThen count stops tokens).filter (· ≠ []) ≠
        (mergeTokens stops tokens).filter (· ≠ []) := by
  induction count using Nat.strongRecOn with
  | ind count ih =>
    intro tokens long within ends
    have lengthLe := length_shortRun_le oneTerm stops tokens
    obtain ⟨token, rest, rfl, joined⟩ := exists_cons_of_run
      (by omega : 1 ≤ (shortRun oneTerm stops tokens).length)
    have filled := (filled_of_joins joined).1
    have wide : 2 ≤ width (shortRun oneTerm stops (token :: rest)).length := by
      unfold width
      split_ifs <;> omega
    have widthLe := width_le lengthLe (by simp)
    rw [mergeTokens_step (List.cons_ne_nil token rest)]
    match count, ih, within, ends with
    | 0, ih, within, ends =>
      rw [List.drop_zero] at ends
      rw [pairsThen, List.take_zero, pairs, List.map_nil, List.nil_append, List.drop_zero,
        goMergeTokens_step (List.cons_ne_nil token rest) (by simp [ends]), ends]
      exact ne_of_steps filled (Nat.le_refl 1) (by omega) (by simp [width]) widthLe (Nat.ne_of_lt wide)
    | 1, ih, within, ends =>
      exact ne_of_steps filled (Nat.le_refl 1) (by omega) (by simp) widthLe (by omega)
    | count + 2, ih, within, ends =>
      have two : 2 ≤ (token :: rest).length := by omega
      rw [pairsThen_add_two count two]
      by_cases last : (shortRun oneTerm stops (token :: rest)).length < 5
      · have whole : width (shortRun oneTerm stops (token :: rest)).length =
            (shortRun oneTerm stops (token :: rest)).length := by
          rw [width, if_neg (by omega), if_pos last]
        exact ne_of_steps filled (by decide) (by omega) (by omega) widthLe (by omega)
      · have pair : width (shortRun oneTerm stops (token :: rest)).length = 2 := by
          rw [width, if_neg (by omega), if_neg last]
        have behind := shortRun_drop oneTerm stops (token :: rest) (by omega :
          2 ≤ (shortRun oneTerm stops (token :: rest)).length)
        rw [pair, Ne, filter_cons_eq_iff (joinWords_take_ne_nil filled (by decide))]
        apply ih count (by omega)
        · rw [behind, List.length_drop]
          omega
        · rw [behind, List.length_drop]
          omega
        · rw [List.drop_drop, Nat.add_comm]
          exact ends

theorem runsFit_iff (stops tokens : List Text) :
    RunsFit stops tokens ↔
      (2 ≤ (shortRun oneTerm stops tokens).length →
        (shortRun oneTerm stops tokens).length < 5 ∧
          ∀ token ∈ shortRun oneTerm stops tokens, goOneTerm token = true) ∧
      RunsFit stops (tokens.drop (max 1 (shortRun oneTerm stops tokens).length)) := by
  constructor
  · intro fit
    refine ⟨fit _ (List.takeWhile_prefix _).isInfix fun token => joins_of_mem_shortRun,
      fun run isInfix => fit run (isInfix.trans (List.drop_suffix _ _).isInfix)⟩
  · rintro ⟨first, later⟩ run ⟨before, behind, rfl⟩ joined two
    by_cases inside : before.length <
        max 1 (shortRun oneTerm stops (before ++ run ++ behind)).length
    · have beforeJoined : ∀ token ∈ before, joins oneTerm stops token = true := by
        intro token inBefore
        have positive := List.length_pos_of_mem inBefore
        have within : before.length ≤ (shortRun oneTerm stops (before ++ run ++ behind)).length := by
          omega
        apply joins_of_mem_take within
        rwa [List.append_assoc, List.take_left']
        rfl
      have whole : shortRun oneTerm stops (before ++ run ++ behind) =
          before ++ run ++ shortRun oneTerm stops behind := by
        apply shortRun_append
        intro token inBoth
        exact (List.mem_append.mp inBoth).elim (beforeJoined token) (joined token)
      rw [whole] at first
      simp only [List.length_append] at first
      obtain ⟨short, all⟩ := first (by omega)
      exact ⟨by omega, fun token inRun => all token (by simp [inRun])⟩
    · have outside := Nat.not_lt.mp inside
      generalize max 1 (shortRun oneTerm stops (before ++ run ++ behind)).length = count
        at later outside
      refine later run ⟨before.drop count, behind, ?_⟩ joined two
      rw [List.append_assoc before, List.drop_append_of_le_length outside, List.append_assoc]

theorem length_goRun_eq_iff (stops tokens : List Text) :
    (shortRun goOneTerm stops tokens).length = (shortRun oneTerm stops tokens).length ↔
      ∀ token ∈ shortRun oneTerm stops tokens, goOneTerm token = true := by
  constructor
  · intro same token inRun
    rw [shortRun_eq_take, ← same, ← shortRun_eq_take] at inRun
    exact (filled_of_joins (joins_of_mem_shortRun inRun)).2.2
  · intro all
    have joined : ∀ token ∈ shortRun oneTerm stops tokens, joins goOneTerm stops token = true := by
      intro token inRun
      obtain ⟨filled, noStop, -⟩ := filled_of_joins (joins_of_mem_shortRun inRun)
      simp [joins, filled, noStop, all token inRun]
    have whole := shortRun_append joined (tokens.drop (shortRun oneTerm stops tokens).length)
    rw [shortRun_append_drop] at whole
    apply Nat.le_antisymm (length_goRun_le stops tokens)
    rw [whole, List.length_append]
    exact Nat.le_add_right _ _

/-- In a long run the Go loop takes three or four tokens at once, or pairs to the end of its run. -/
theorem goMergeTokens_eq_pairsThen (filled : tokens ≠ [])
    (pairwise : (shortRun goOneTerm stops tokens).length ≠ 3 ∧
      (shortRun goOneTerm stops tokens).length ≠ 4) :
    goMergeTokens stops tokens =
      pairsThen (shortRun goOneTerm stops tokens).length stops tokens := by
  by_cases few : (shortRun goOneTerm stops tokens).length < 2
  · rw [goMergeTokens_step filled (by omega)]
    obtain ⟨token, rest, rfl⟩ := List.exists_cons_of_ne_nil filled
    obtain none | one : (shortRun goOneTerm stops (token :: rest)).length = 0 ∨
        (shortRun goOneTerm stops (token :: rest)).length = 1 := by omega
    · rw [none, pairsThen, List.drop_zero, List.take_zero, pairs, List.map_nil, List.nil_append,
        goMergeTokens_step filled (by omega), none]
    · rw [one]
      rfl
  · rw [goMergeTokens_run (by omega), pairsThen, ← shortRun_eq_take]
    split_ifs with short
    · obtain ⟨first, second, isRun⟩ := List.length_eq_two.mp
        (by omega : (shortRun goOneTerm stops tokens).length = 2)
      rw [isRun]
      rfl
    · rfl

theorem mergesAgree_iff (stops tokens : List Text) :
    (goMergeTokens stops tokens).filter (· ≠ []) = (mergeTokens stops tokens).filter (· ≠ []) ↔
      RunsFit stops tokens := by
  induction size : tokens.length using Nat.strongRecOn generalizing tokens with
  | ind size ih =>
    cases tokens with
    | nil => simp [goMergeTokens, mergeTokens, RunsFit]
    | cons token rest =>
      have goLe := length_goRun_le stops (token :: rest)
      have lengthLe := length_shortRun_le oneTerm stops (token :: rest)
      have goLengthLe := length_shortRun_le goOneTerm stops (token :: rest)
      rw [runsFit_iff, mergeTokens_step (List.cons_ne_nil token rest)]
      by_cases single : (shortRun oneTerm stops (token :: rest)).length ≤ 1
      · have goOne : width (shortRun goOneTerm stops (token :: rest)).length = 1 :=
          if_pos (goLe.trans single)
        rw [goMergeTokens_step (List.cons_ne_nil token rest) (by omega), goOne, width,
          if_pos single, max_eq_left single]
        have tails := ih rest.length (by simp [← size]) rest rfl
        by_cases isEmpty : token = []
        · subst isEmpty
          simpa [Nat.not_le.mpr (Nat.lt_succ_of_le single)] using tails
        · rw [filter_cons_eq_iff (joinWords_take_ne_nil isEmpty (Nat.le_refl 1))]
          simpa [Nat.not_le.mpr (Nat.lt_succ_of_le single)] using tails
      · obtain ⟨_, _, same, joined⟩ := exists_cons_of_run
          (by omega : 1 ≤ (shortRun oneTerm stops (token :: rest)).length)
        obtain ⟨rfl, rfl⟩ := List.cons.inj same
        have filled := (filled_of_joins joined).1
        have positive := one_le_width (shortRun goOneTerm stops (token :: rest)).length
        have goWidthLe := width_le goLengthLe (by simp)
        by_cases short : (shortRun oneTerm stops (token :: rest)).length < 5
        · have whole : width (shortRun oneTerm stops (token :: rest)).length =
              (shortRun oneTerm stops (token :: rest)).length := by
            rw [width, if_neg single, if_pos short]
          rw [goMergeTokens_step (List.cons_ne_nil token rest) (by omega), whole,
            max_eq_right (by omega)]
          by_cases all : ∀ word ∈ shortRun oneTerm stops (token :: rest), goOneTerm word = true
          · rw [(length_goRun_eq_iff stops (token :: rest)).mpr all, whole,
              filter_cons_eq_iff (joinWords_take_ne_nil filled (by omega)),
              ih _ (by simp only [← size, List.length_drop]; omega) _ rfl]
            exact (and_iff_right fun _ => ⟨short, all⟩).symm
          · have fewer := mt (length_goRun_eq_iff stops (token :: rest)).mp all
            refine iff_of_false (ne_of_steps filled positive (by omega) goWidthLe lengthLe ?_)
              fun fit => all (fit.1 (by omega)).2
            rcases width_cases (shortRun goOneTerm stops (token :: rest)).length <;> omega
        · have pair : width (shortRun oneTerm stops (token :: rest)).length = 2 := by
            rw [width, if_neg single, if_neg short]
          have unfit (later : Prop) : ¬((2 ≤ (shortRun oneTerm stops (token :: rest)).length →
              (shortRun oneTerm stops (token :: rest)).length < 5 ∧
                ∀ word ∈ shortRun oneTerm stops (token :: rest), goOneTerm word = true) ∧
              later) := fun fit => short (fit.1 (by omega)).1
          refine iff_of_false ?_ (unfit _)
          by_cases pairwise : (shortRun goOneTerm stops (token :: rest)).length ≠ 3 ∧
              (shortRun goOneTerm stops (token :: rest)).length ≠ 4
          · rw [goMergeTokens_eq_pairsThen (List.cons_ne_nil token rest) pairwise,
              ← mergeTokens_step (List.cons_ne_nil token rest)]
            apply pairsThen_ne _ _ _ (by omega) goLe
            rw [shortRun_drop _ _ _ (Nat.le_refl _), List.drop_length]
          · rw [goMergeTokens_step (List.cons_ne_nil token rest) (by omega), pair]
            apply ne_of_steps filled positive (by decide) goWidthLe (by omega)
            rw [width]
            split_ifs <;> omega

theorem filled_of_mergesFirst {short : Text → Bool} (first : mergesFirst short tokens = true) :
    ∃ token next rest, tokens = token :: next :: rest ∧ short token = true ∧ next ≠ [] := by
  match tokens, first with
  | token :: next :: rest, first =>
    simp only [mergesFirst, Bool.and_eq_true, decide_eq_true_eq] at first
    exact ⟨token, next, rest, rfl, first.1.1, List.ne_nil_of_length_pos (by omega)⟩

theorem goMergesFirst_iff (tokens : List Text) :
    mergesFirst goOneTerm tokens = true ↔
      mergesFirst oneTerm tokens = true ∧ ∀ token ∈ tokens.head?, goOneTerm token = true := by
  match tokens with
  | [] | [_] => simp [mergesFirst]
  | token :: next :: rest =>
    simp only [mergesFirst, Bool.and_eq_true, List.head?_cons, Option.mem_some_iff, forall_eq']
    have short : goOneTerm token = true → oneTerm token = true := oneTerm_of_goOneTerm
    tauto

theorem oneTerm_ne_nil (short : oneTerm token = true) : token ≠ [] := by
  rintro rfl
  simp [oneTerm, matchesAll] at short

theorem separates_tokenMerge (stops tokens : List Text) :
    Separates stops tokens (tokenMerge stops tokens) := by
  unfold Separates tokenMerge
  split_ifs with first
  · obtain ⟨token, next, rest, rfl, short, filled⟩ := filled_of_mergesFirst first
    have pairFilled : joinWords ((token :: next :: rest).take 2) ≠ [] :=
      joinWords_take_ne_nil (oneTerm_ne_nil short) (by decide)
    exact ⟨_, List.filter_cons_of_pos (decide_eq_true pairFilled), merged_mergeTokens stops rest⟩
  · exact merged_mergeTokens stops tokens

theorem Separates.conserves (separates : Separates stops tokens terms) :
    joinWords terms = joinWords (tokens.filter (· ≠ [])) := by
  unfold Separates at separates
  split_ifs at separates with first
  · obtain ⟨later, rfl, merged⟩ := separates
    obtain ⟨token, next, rest, rfl, short, filled⟩ := filled_of_mergesFirst first
    have tokenFilled := oneTerm_ne_nil short
    rw [List.take_succ_cons, List.take_succ_cons, List.take_zero,
      joinWords_group (List.cons_ne_nil token [next]) merged.conserves]
    simp [tokenFilled, filled]
  · exact separates.conserves.1

/-- Both servers make the same terms exactly where the first token is short for both if the second
goes with it, and every run of short tokens behind has less than five, all short for both. -/
theorem mergesAlike_iff (stops tokens : List Text) :
    MergesAlike stops tokens ↔ Aligned stops tokens := by
  have separates := separates_tokenMerge stops tokens
  have agrees : goTokenMerge stops tokens = tokenMerge stops tokens ↔ Aligned stops tokens := by
    by_cases first : mergesFirst oneTerm tokens = true
    · obtain ⟨token, next, rest, rfl, short, filled⟩ := filled_of_mergesFirst first
      have tokenFilled := oneTerm_ne_nil short
      by_cases goFirst : mergesFirst goOneTerm (token :: next :: rest) = true
      · rw [goTokenMerge, if_pos goFirst, tokenMerge, if_pos first,
          filter_cons_eq_iff (joinWords_take_ne_nil tokenFilled (by decide)), mergesAgree_iff]
        exact ⟨fun runs => ⟨fun _ => goFirst, by rwa [if_pos first]⟩,
          fun aligned => by simpa [first] using aligned.runs⟩
      · refine iff_of_false ?_ fun aligned => goFirst (aligned.leads first)
        have notShort : ¬goOneTerm token = true := fun goShort =>
          goFirst ((goMergesFirst_iff _).mpr ⟨first, by simpa using goShort⟩)
        have noRun : shortRun goOneTerm stops (token :: next :: rest) = [] := by
          simp [shortRun, joins, notShort]
        rw [goTokenMerge, if_neg goFirst, tokenMerge, if_pos first,
          goMergeTokens_step (List.cons_ne_nil token _) (by simp [noRun]), noRun]
        exact ne_of_steps tokenFilled (Nat.le_refl 1) (by decide) (by simp [width]) (by simp)
          (by decide)
    · have goFirst : ¬mergesFirst goOneTerm tokens = true := fun lead =>
        first ((goMergesFirst_iff tokens).mp lead).1
      rw [goTokenMerge, if_neg goFirst, tokenMerge, if_neg first, mergesAgree_iff]
      exact ⟨fun runs => ⟨fun lead => absurd lead first, by rwa [if_neg first]⟩,
        fun aligned => by simpa [first] using aligned.runs⟩
  exact ⟨fun alike => agrees.mp alike.agrees,
    fun aligned => ⟨separates.conserves, separates, agrees.mpr aligned⟩⟩

/-- Five short tokens: `["a b", "c d e"]` of the Python server, `["a b", "c d", "e"]` of the Go
server. -/
theorem not_mergesAlike_five :
    ¬ MergesAlike [] [['a'], ['b'], ['c'], ['d'], ['e']] := by
  intro alike
  exact absurd alike.agrees (by decide)

end RagFlow.FullText
