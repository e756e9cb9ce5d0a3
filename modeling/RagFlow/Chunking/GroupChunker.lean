import Mathlib.Algebra.Order.Ring.Nat
import Mathlib.Data.List.Induction
import RagFlow.Chunking.TitleChunker

/-!
# Groups of records below the same titles

`rag/flow/chunker/title_chunker/group_chunker.py`: the records of one section go into one group
until it is large; a small group also takes records of the next section.
-/

namespace RagFlow.Chunking

def MIN_GROUP_TOKENS : Nat := 32

def MAX_GROUP_TOKENS : Nat := 1024

def beginsSection (target_level : Option Nat) (level : Nat) : Bool :=
  target_level.any (level ≤ ·)

def sectionIdsFrom (target_level : Option Nat) (sid : Nat) : List Nat → List Nat
  | [] => []
  | level :: levels =>
    let sid := if beginsSection target_level level then sid + 1 else sid
    sid :: sectionIdsFrom target_level sid levels

def build_section_ids (target_level : Option Nat) : List Nat → List Nat
  | [] => []
  | _ :: levels => 0 :: sectionIdsFrom target_level 0 levels

def resolve_group_target_level (levels : List Nat) (hierarchy : Option Int)
    (most_level : Option Nat) : Option Nat :=
  match hierarchy with
  | some hierarchy => if 0 < hierarchy then resolve_target_level levels hierarchy else most_level
  | none => most_level

variable (num_tokens_from_string : String → Nat)

structure MergeState where
  record_groups : List (List Record)
  tk_cnt : Nat
  last_sid : Option Nat

def MergeState.start : MergeState where
  record_groups := []
  tk_cnt := 0
  last_sid := none

/-- `record_groups[-1][0]["doc_type_kwd"] == "text"`, where there is a group. -/
def endsInText (record_groups : List (List Record)) : Bool :=
  record_groups.getLast?.any fun group => group.head?.any Record.isText

def shouldMerge (state : MergeState) (sec_id : Nat) : Bool :=
  endsInText state.record_groups &&
    (state.tk_cnt < MIN_GROUP_TOKENS ||
      (state.tk_cnt < MAX_GROUP_TOKENS && state.last_sid = some sec_id))

def appendToLast (record_groups : List (List Record)) (record : Record) : List (List Record) :=
  record_groups.dropLast ++ record_groups.getLast?.toList.map (· ++ [record])

def mergeRecord (state : MergeState) (line : Record × Nat) : MergeState :=
  let (record, sec_id) := line
  if !record.isText then ⟨state.record_groups ++ [[record]], 0, none⟩
  else if record.isBlank then state
  else
    let token_count := num_tokens_from_string record.text
    if shouldMerge state sec_id then
      ⟨appendToLast state.record_groups record, state.tk_cnt + token_count, some sec_id⟩
    else ⟨state.record_groups ++ [[record]], token_count, some sec_id⟩

/-- The record groups of `build_chunks`, from the records with their sections. -/
def groupRecords (lines : List (Record × Nat)) : List (List Record) :=
  (lines.foldl (mergeRecord num_tokens_from_string) .start).record_groups

/-- The record groups of `build_chunks`.  Each record comes with its level. -/
def groupChunks (hierarchy : Option Int) (most_level : Option Nat)
    (line_records : List (Record × Nat)) : List (List Record) :=
  let levels := line_records.map Prod.snd
  let sec_ids := build_section_ids (resolve_group_target_level levels hierarchy most_level) levels
  groupRecords num_tokens_from_string ((line_records.map Prod.fst).zip sec_ids)

def isKept (record : Record) : Bool := !record.isText || !record.isBlank

def tokens (group : List (Record × Nat)) : Nat :=
  (group.map fun line => num_tokens_from_string line.1.text).sum

structure Grouped (group : List (Record × Nat)) : Prop where
  nonempty : group ≠ []
  alone : ∀ line ∈ group, line.1.isText = false → group = [line]
  mixesWhileSmall : ∀ before left right after, group = before ++ left :: right :: after →
    left.2 ≠ right.2 → tokens num_tokens_from_string (before ++ [left]) < MIN_GROUP_TOKENS
  boundedBeforeLast : ∀ before last, group = before ++ [last] →
    tokens num_tokens_from_string before < MAX_GROUP_TOKENS

def Partitions (lines : List (Record × Nat)) (record_groups : List (List Record)) : Prop :=
  ∃ groups : List (List (Record × Nat)), record_groups = groups.map (List.map Prod.fst) ∧
    groups.flatten = lines.filter (fun line => isKept line.1) ∧
    ∀ group ∈ groups, Grouped num_tokens_from_string group

/-- After some lines: the groups partition them, and the state tells the size and the section of a
last group of texts. -/
structure Merging (lines : List (Record × Nat)) (state : MergeState)
    (groups : List (List (Record × Nat))) : Prop where
  records : state.record_groups = groups.map (List.map Prod.fst)
  flatten : groups.flatten = lines.filter fun line => isKept line.1
  grouped : ∀ group ∈ groups, Grouped num_tokens_from_string group
  size : ∀ group ∈ groups.getLast?, (∀ line ∈ group, line.1.isText = true) →
    state.tk_cnt = tokens num_tokens_from_string group ∧
      state.last_sid = group.getLast?.map Prod.snd

variable {num_tokens_from_string}

theorem Grouped.singleton (line : Record × Nat) : Grouped num_tokens_from_string [line] where
  nonempty := List.cons_ne_nil _ _
  alone other isMem _ := by rw [List.mem_singleton.mp isMem]
  mixesWhileSmall before left right after split := by
    have lengths := congrArg List.length split
    simp only [List.length_append, List.length_cons, List.length_nil] at lengths
    omega
  boundedBeforeLast before last split := by
    have parts : [] ++ [line] = before ++ [last] := split
    obtain ⟨rfl, -⟩ := List.append_inj' parts rfl
    simp [tokens, MAX_GROUP_TOKENS]

theorem Grouped.append {group : List (Record × Nat)} {line last : Record × Nat}
    (grouped : Grouped num_tokens_from_string group) (isLast : group.getLast? = some last)
    (isText : ∀ other ∈ group, other.1.isText = true) (lineIsText : line.1.isText = true)
    (fits : tokens num_tokens_from_string group < MIN_GROUP_TOKENS ∨
      tokens num_tokens_from_string group < MAX_GROUP_TOKENS ∧ last.2 = line.2) :
    Grouped num_tokens_from_string (group ++ [line]) where
  nonempty := by simp
  alone other isMem notText := by
    rcases List.mem_append.mp isMem with old | new
    · exact absurd (isText other old) (by simp [notText])
    · rw [List.mem_singleton.mp new, lineIsText] at notText
      cases notText
  mixesWhileSmall before left right after split differ := by
    rcases List.eq_nil_or_concat after with rfl | ⟨after, final, rfl⟩
    · have parts : group ++ [line] = (before ++ [left]) ++ [right] := by simpa using split
      obtain ⟨rfl, sameLine⟩ := List.append_inj' parts rfl
      obtain rfl : line = right := List.head_eq_of_cons_eq sameLine
      obtain rfl : left = last := by simpa using isLast
      rcases fits with small | ⟨-, same⟩
      · exact small
      · exact absurd same differ
    · have parts : group ++ [line] = (before ++ left :: right :: after) ++ [final] := by
        simpa using split
      obtain ⟨rfl, -⟩ := List.append_inj' parts rfl
      exact grouped.mixesWhileSmall before left right after rfl differ
  boundedBeforeLast before final split := by
    obtain ⟨rfl, -⟩ := List.append_inj' split rfl
    rcases fits with small | ⟨bounded, -⟩
    · exact Nat.lt_trans small (by decide)
    · exact bounded

variable {lines : List (Record × Nat)} {state : MergeState} {groups : List (List (Record × Nat))}
  {line : Record × Nat}

theorem Merging.exists_of_endsInText (merging : Merging num_tokens_from_string lines state groups)
    (ends : endsInText state.record_groups = true) :
    ∃ before group last, groups = before ++ [group] ∧ group.getLast? = some last ∧
      (∀ line ∈ group, line.1.isText = true) ∧
      state.tk_cnt = tokens num_tokens_from_string group ∧ state.last_sid = some last.2 := by
  rcases List.eq_nil_or_concat groups with rfl | ⟨before, group, rfl⟩
  · simp [endsInText, merging.records] at ends
  · have grouped := merging.grouped group (by simp)
    have headIsText : group.head?.any (fun line => line.1.isText) = true := by
      simpa [endsInText, merging.records, Option.any_map, Function.comp_def] using ends
    have allText : ∀ line ∈ group, line.1.isText = true := by
      intro line inGroup
      by_contra notText
      rw [grouped.alone line inGroup (Bool.eq_false_of_not_eq_true notText)] at headIsText
      exact notText headIsText
    have isLast := List.getLast?_eq_some_getLast grouped.nonempty
    obtain ⟨sameCount, sameSection⟩ := merging.size group (by simp) allText
    exact ⟨before, group, _, by simp, isLast, allText, sameCount, by simp [sameSection, isLast]⟩

theorem Merging.start : Merging num_tokens_from_string [] .start [] where
  records := rfl
  flatten := rfl
  grouped _ isMem := absurd isMem List.not_mem_nil
  size _ isMem := by simp at isMem

theorem Merging.begin (merging : Merging num_tokens_from_string lines state groups)
    (kept : isKept line.1 = true) {tk_cnt : Nat} {last_sid : Option Nat}
    (size : line.1.isText = true →
      tk_cnt = num_tokens_from_string line.1.text ∧ last_sid = some line.2) :
    Merging num_tokens_from_string (lines ++ [line])
      ⟨state.record_groups ++ [[line.1]], tk_cnt, last_sid⟩ (groups ++ [[line]]) where
  records := by simp [merging.records]
  flatten := by simp [merging.flatten, kept]
  grouped group isMem := by
    rcases List.mem_append.mp isMem with old | new
    · exact merging.grouped group old
    · rw [List.mem_singleton.mp new]
      exact .singleton line
  size group isLast allText := by
    obtain rfl : [line] = group := by simpa using isLast
    obtain ⟨rfl, rfl⟩ := size (allText line List.mem_cons_self)
    simp [tokens]

theorem Merging.mergeRecord (merging : Merging num_tokens_from_string lines state groups) :
    ∃ groups, Merging num_tokens_from_string (lines ++ [line])
      (mergeRecord num_tokens_from_string state line) groups := by
  obtain ⟨record, sec_id⟩ := line
  unfold Chunking.mergeRecord
  dsimp only
  by_cases isText : record.isText = true
  · rw [if_neg (by simp [isText])]
    by_cases isBlank : record.isBlank = true
    · rw [if_pos isBlank]
      refine ⟨groups, merging.records, ?_, merging.grouped, merging.size⟩
      simp [merging.flatten, isKept, isText, isBlank]
    · have kept : isKept record = true := by simp [isKept, isBlank]
      rw [if_neg isBlank]
      by_cases merges : shouldMerge state sec_id = true
      · rw [if_pos merges]
        obtain ⟨ends, fits⟩ : endsInText state.record_groups = true ∧
            (state.tk_cnt < MIN_GROUP_TOKENS ∨
              state.tk_cnt < MAX_GROUP_TOKENS ∧ state.last_sid = some sec_id) := by
          simpa [shouldMerge] using merges
        obtain ⟨before, group, last, rfl, isLast, allText, sameCount, sameSection⟩ :=
          merging.exists_of_endsInText ends
        rw [sameCount, sameSection, Option.some.injEq] at fits
        refine ⟨before ++ [group ++ [(record, sec_id)]], ?_, ?_, ?_, ?_⟩
        · simp [appendToLast, merging.records]
        · have flatten := merging.flatten
          simp only [List.flatten_append, List.flatten_singleton] at flatten
          simp [← flatten, kept]
        · intro other isMem
          rcases List.mem_append.mp isMem with old | new
          · exact merging.grouped other (List.mem_append_left _ old)
          · rw [List.mem_singleton.mp new]
            exact (merging.grouped group (by simp)).append isLast allText isText fits
        · intro other isLast allText
          obtain rfl : group ++ [(record, sec_id)] = other := by simpa using isLast
          simp [tokens, sameCount]
      · rw [if_neg merges]
        exact ⟨_, merging.begin kept fun _ => ⟨rfl, rfl⟩⟩
  · have kept : isKept record = true := by simp [isKept, isText]
    rw [if_pos (by simp [isText])]
    exact ⟨_, merging.begin kept fun impossible => absurd impossible isText⟩

theorem partitions_groupRecords (lines : List (Record × Nat)) :
    Partitions num_tokens_from_string lines (groupRecords num_tokens_from_string lines) := by
  have merging : ∃ groups, Merging num_tokens_from_string lines
      (lines.foldl (mergeRecord num_tokens_from_string) .start) groups := by
    induction lines using List.reverseRecOn with
    | nil => exact ⟨[], .start⟩
    | append_singleton lines line ih =>
      obtain ⟨groups, merging⟩ := ih
      rw [List.foldl_append]
      exact merging.mergeRecord
  obtain ⟨groups, merging⟩ := merging
  exact ⟨groups, merging.records, merging.flatten, merging.grouped⟩

theorem length_sectionIdsFrom (target_level : Option Nat) (sid : Nat) (levels : List Nat) :
    (sectionIdsFrom target_level sid levels).length = levels.length := by
  induction levels generalizing sid with
  | nil => rfl
  | cons level levels ih =>
    simp only [sectionIdsFrom, List.length_cons, ih]

theorem length_build_section_ids (target_level : Option Nat) (levels : List Nat) :
    (build_section_ids target_level levels).length = levels.length := by
  cases levels with
  | nil => rfl
  | cons level levels => simp [build_section_ids, length_sectionIdsFrom]

end RagFlow.Chunking
