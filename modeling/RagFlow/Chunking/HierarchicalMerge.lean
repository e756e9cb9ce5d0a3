import Mathlib.Data.List.GetD
import RagFlow.Chunking.Bullets
import RagFlow.Lib.Fallible
import RagFlow.Lib.Ranks

/-!
# Sections merged with their headings

`rag/nlp/__init__.py`: `hierarchical_merge`.  The sections are listed by level from body text up to
the highest bullet; each one that is in no group yet is grouped with the headings found above it.
-/

namespace RagFlow.Chunking

open Lib

def levelIndex (patterns : List Regex) (section_ : Section) : Nat :=
  match bulletIndex patterns section_.text with
  | some index => index
  | none =>
    if hasTitleLayout section_.layout && !not_title section_.text then patterns.length
    else patterns.length + 1

/-- `levels[::-1]`: the places of the sections on each level, body text first. -/
def reversedLevels (patterns : List Regex) (sections : List Section) : List (List Nat) :=
  ((List.range (patterns.length + 2)).map fun level =>
    (List.range sections.length).filter fun place =>
      (sections[place]?.map (levelIndex patterns)) = some level).reverse

/-- The loop over `s` and `e`, at most as often as there are items; no result is a failed
assertion. -/
def searchBetween (arr : List Nat) (target : Nat) : Nat → Nat → Nat → Option Nat
  | 0, s, _ => some s
  | fuel + 1, s, e =>
    if 1 < e - s then
      let i := (e + s) / 2
      if arr.getD i 0 < target then searchBetween arr target fuel i e
      else if target < arr.getD i 0 then searchBetween arr target fuel s i
      else none
    else some s

/-- The index of the last item before the target, `none` for minus one. -/
def binary_search (arr : List Nat) (target : Nat) : Option (Option Nat) :=
  match arr.head?, arr.getLast? with
  | some first, some last =>
    if last < target then some (some (arr.length - 1))
    else if target < first then some none
    else (searchBetween arr target arr.length 0 arr.length).map some
  | _, _ => some none

def addHeading (heading : Nat) : List Nat → List Nat
  | [] => [heading]
  | last :: group => if last < heading then heading :: group else heading :: last :: group

/-- The group of `j` on level `i`. -/
def groupFrom (levels : List (List Nat)) (i j : Nat) : Option (List Nat) :=
  (levels.drop (i + 1)).foldlM (fun group arr =>
    (binary_search arr j).map fun found =>
      (found.bind (arr[·]?)).elim group (addHeading · group)) [j]

structure GroupRun where
  readed : List Nat
  cks : List (List Nat)

def mergeAt (levels : List (List Nat)) (run : GroupRun) (i j : Nat) : Option GroupRun :=
  if j ∈ run.readed then some run
  else if i + 1 = levels.length - 1 then some ⟨j :: run.readed, run.cks ++ [[j]]⟩
  else
    (groupFrom levels i j).map fun group =>
      ⟨group ++ j :: run.readed, run.cks ++ [group]⟩

/-- The end of `items[:stop]`. -/
def sliceStop (length : Nat) (stop : Int) : Nat :=
  if stop < 0 then (length + stop).toNat else stop.toNat

def visited (levels : List (List Nat)) (depth : Int) : List (Nat × Nat) :=
  (levels.take (sliceStop levels.length depth)).zipIdx.flatMap fun (arr, i) =>
    arr.map fun j => (i, j)

def groupLevels (levels : List (List Nat)) (depth : Int) : Option (List (List Nat)) :=
  ((visited levels depth).foldlM (fun run (i, j) => mergeAt levels run i j)
    ⟨[], []⟩).map GroupRun.cks

/-- `res` without its last chunk, that chunk, and its size in `num`. -/
structure Packing where
  finished : List (List Nat)
  last : List Nat
  num : Nat

def pack (num_tokens : Nat → Nat) (packing : Packing) (ck : List Nat) : Packing :=
  match ck with
  | [j] =>
    if num_tokens j + packing.num < 218 then
      { packing with last := packing.last ++ [j], num := packing.num + num_tokens j }
    else ⟨packing.finished ++ [packing.last], [j], num_tokens j⟩
  | _ => ⟨packing.finished ++ [packing.last], ck, 218⟩

def packAll (num_tokens : Nat → Nat) (cks : List (List Nat)) : List (List Nat) :=
  if cks = [] then []
  else
    let packing := cks.foldl (pack num_tokens) ⟨[], [], 0⟩
    packing.finished ++ [packing.last]

def keptSections (sections : List Section) : List Section := sections.filter isSubstantial

/-- The groups of places in the sections that are kept; there is no category below zero. -/
def hierarchicalGroups (bull : Option (Fin BULLET_PATTERN.length)) (sections : List Section)
    (depth : Int) : Option (List (List Nat)) :=
  if sections = [] then some []
  else
    match bull with
    | none => some []
    | some bull => groupLevels (reversedLevels BULLET_PATTERN[bull] (keptSections sections)) depth

def textAt (sections : List Section) (place : Nat) : String :=
  ((keptSections sections)[place]?.map Section.text).getD ""

def mergedPlaces (num_tokens : String → Nat) (bull : Option (Fin BULLET_PATTERN.length))
    (sections : List Section) (depth : Int) : Option (List (List Nat)) :=
  (hierarchicalGroups bull sections depth).map
    (packAll fun place => num_tokens (textAt sections place))

def hierarchical_merge (num_tokens : String → Nat) (bull : Option (Fin BULLET_PATTERN.length))
    (sections : List Section) (depth : Int) : Option (List (List String)) :=
  (mergedPlaces num_tokens bull sections depth).map (List.map (List.map (textAt sections)))

def sectionRanks (patterns : List Regex) (sections : List Section) : List Nat :=
  sections.map fun section_ => patterns.length + 1 - levelIndex patterns section_

def ranksOf (bull : Option (Fin BULLET_PATTERN.length)) (sections : List Section) : List Nat :=
  bull.elim [] fun bull => sectionRanks BULLET_PATTERN[bull] (keptSections sections)

/-- The groups list sections below their headings, and the sections that are kept are in chunks. -/
structure MergesBelowHeadings (num_tokens : String → Nat)
    (bull : Option (Fin BULLET_PATTERN.length)) (sections : List Section) (depth : Int) : Prop where
  headed : ∃ cks, hierarchicalGroups bull sections depth = some cks ∧
    ∀ ck ∈ cks, 1 < ck.length → ck.Pairwise (Ranks.Above (ranksOf bull sections))
  covered : ∃ chunks, mergedPlaces num_tokens bull sections depth = some chunks ∧
    ∀ place < (keptSections sections).length, ∃ chunk ∈ chunks, place ∈ chunk

/-- Ranks of which `size` are in use and those before `stop` are visited.  A heading left behind by
a higher one is so by the next rank that has a heading, and a section that is not visited is a
heading of one that is. -/
structure Nested (size stop : Nat) (ranks : List Nat) : Prop where
  leftBehind : ∀ place rank, ranks[place]? = some rank → rank < stop → rank + 2 < size →
    (∀ next ∈ ranks[place + 1]?, rank ≤ next) →
      Ranks.NextBehind (Ranks.climb ranks size rank place)
  reached : ∀ place rank, ranks[place]? = some rank → stop ≤ rank →
    ∃ below belowRank, Ranks.Above ranks place below ∧ ranks[below]? = some belowRank ∧
      belowRank < stop ∧ belowRank + 2 < size

variable {arr : List Nat} {target : Nat}

theorem searchBetween_spec (fuel s e : Nat) (absent : target ∉ arr) (within : e ≤ arr.length)
    (apart : s < e) (enough : e - s ≤ fuel + 1) (before : arr.getD s 0 < target)
    (behind : e < arr.length → target < arr.getD e 0) :
    ∃ found, searchBetween arr target fuel s e = some found ∧ found < arr.length ∧
      arr.getD found 0 < target ∧ (found + 1 < arr.length → target < arr.getD (found + 1) 0) := by
  induction fuel generalizing s e with
  | zero =>
    obtain rfl : e = s + 1 := by omega
    exact ⟨s, rfl, by omega, before, behind⟩
  | succ fuel ih =>
    rw [searchBetween]
    by_cases wide : 1 < e - s
    · have middle : s < (e + s) / 2 ∧ (e + s) / 2 < e := by omega
      rw [if_pos wide]
      dsimp only
      by_cases less : arr.getD ((e + s) / 2) 0 < target
      · rw [if_pos less]
        exact ih _ _ within middle.2 (by omega) less behind
      · have inside : (e + s) / 2 < arr.length := by omega
        have different : arr.getD ((e + s) / 2) 0 ≠ target := by
          rw [List.getD_eq_getElem arr 0 inside]
          exact fun same => absent (same ▸ List.getElem_mem inside)
        rw [if_neg less, if_pos (by omega)]
        exact ih _ _ (by omega) middle.1 (by omega) before fun _ => by omega
    · rw [if_neg wide]
      obtain rfl : e = s + 1 := by omega
      exact ⟨s, rfl, by omega, before, behind⟩

theorem lastBefore_of_bounds (increasing : arr.Pairwise (· < ·)) {found : Nat}
    (inside : found < arr.length) (before : arr.getD found 0 < target)
    (behind : found + 1 < arr.length → target < arr.getD (found + 1) 0) :
    Ranks.lastBefore arr target = arr[found]? := by
  rw [List.getElem?_eq_getElem inside]
  rw [List.getD_eq_getElem arr 0 inside] at before
  refine Ranks.lastBefore_eq_some increasing (List.getElem_mem inside) before ?_
  intro other isMem otherBefore
  obtain ⟨index, isIndex, rfl⟩ := List.getElem_of_mem isMem
  have ordered := List.pairwise_iff_getElem.mp increasing
  by_contra larger
  have after : found < index := by
    by_contra upTo
    rcases Nat.eq_or_lt_of_le (Nat.not_lt.mp upTo) with rfl | earlier
    · exact larger (Nat.le_refl _)
    · exact larger (Nat.le_of_lt (ordered _ _ isIndex inside earlier))
  have nextInside : found + 1 < arr.length := by omega
  have nextBehind := behind nextInside
  rw [List.getD_eq_getElem arr 0 nextInside] at nextBehind
  by_cases same : index = found + 1
  · subst same
    omega
  · have := ordered (found + 1) index nextInside isIndex (by omega)
    omega

theorem binary_search_spec (increasing : arr.Pairwise (· < ·)) (absent : target ∉ arr) :
    (binary_search arr target).map (fun found => found.bind (arr[·]?)) =
      some (Ranks.lastBefore arr target) := by
  by_cases isEmpty : arr = []
  · rw [isEmpty]
    rfl
  have positive : 0 < arr.length := List.length_pos_iff.mpr isEmpty
  have ordered := List.pairwise_iff_getElem.mp increasing
  rw [binary_search, List.head?_eq_getElem?, List.getLast?_eq_getElem?,
    List.getElem?_eq_getElem positive, List.getElem?_eq_getElem (Nat.sub_one_lt_of_lt positive)]
  dsimp only
  by_cases lastBefore : arr[arr.length - 1] < target
  · rw [if_pos lastBefore, lastBefore_of_bounds increasing (Nat.sub_one_lt_of_lt positive)
      (by rwa [List.getD_eq_getElem]) (by omega)]
    rfl
  by_cases firstBehind : target < arr[0]
  · rw [if_neg lastBefore, if_pos firstBehind]
    have noneBefore : arr.filter (· < target) = [] := by
      refine List.filter_eq_nil_iff.mpr fun other isMem => ?_
      obtain ⟨index, isIndex, rfl⟩ := List.getElem_of_mem isMem
      have atLeast : arr[0] ≤ arr[index] := by
        rcases Nat.eq_zero_or_pos index with rfl | later
        · exact Nat.le_refl _
        · exact Nat.le_of_lt (ordered _ _ positive isIndex later)
      simp only [decide_eq_true_eq]
      omega
    rw [Ranks.lastBefore, noneBefore]
    rfl
  · rw [if_neg lastBefore, if_neg firstBehind]
    have different : arr[0] ≠ target := fun same => absent (same ▸ List.getElem_mem positive)
    obtain ⟨found, isFound, inside, before, behind⟩ := searchBetween_spec arr.length 0 arr.length
      absent (Nat.le_refl _) positive (by omega)
      (by rw [List.getD_eq_getElem arr 0 positive]; omega) (by omega)
    rw [isFound, lastBefore_of_bounds increasing inside before behind]
    rfl

variable {patterns : List Regex} {sections : List Section} {ranks : List Nat} {size stop : Nat}
  {rank place : Nat}

theorem levelIndex_lt (patterns : List Regex) (section_ : Section) :
    levelIndex patterns section_ < patterns.length + 2 := by
  unfold levelIndex
  split
  · next index found =>
      have inside := (List.findIdx?_eq_some_iff_getElem.mp found).1
      omega
  · split_ifs <;> omega

theorem sectionRanks_lt (patterns : List Regex) (sections : List Section) :
    ∀ rank ∈ sectionRanks patterns sections, rank < patterns.length + 2 := by
  intro rank isMem
  obtain ⟨section_, -, rfl⟩ := List.mem_map.mp isMem
  omega

/-- The levels as `reversedLevels` lists them. -/
def rankLevels (size : Nat) (ranks : List Nat) : List (List Nat) :=
  (List.range size).map (Ranks.placesAt ranks)

theorem reversedLevels_eq (patterns : List Regex) (sections : List Section) :
    reversedLevels patterns sections =
      rankLevels (patterns.length + 2) (sectionRanks patterns sections) := by
  have sameLength : (reversedLevels patterns sections).length =
      (rankLevels (patterns.length + 2) (sectionRanks patterns sections)).length := by
    simp [reversedLevels, rankLevels]
  refine List.ext_getElem sameLength fun rank inLeft inRight => ?_
  have within : rank < patterns.length + 2 := by simpa [rankLevels] using inRight
  simp only [reversedLevels, rankLevels, List.getElem_reverse, List.getElem_map, List.getElem_range,
    Ranks.placesAt, sectionRanks, List.length_map, List.length_range]
  refine List.filter_congr fun place isPlace => ?_
  have inside : place < sections.length := List.mem_range.mp isPlace
  have bounded := levelIndex_lt patterns sections[place]
  rw [List.getElem?_map, List.getElem?_eq_getElem inside]
  simp only [Option.map_some, Option.some.injEq, decide_eq_decide]
  omega

theorem addHeading_eq (heading last : Nat) (group : List Nat) :
    addHeading heading (last :: group) =
      if last < heading then heading :: group else heading :: last :: group := rfl

theorem foldl_addHeading (climb : List Nat) (last : Nat) (group : List Nat) :
    climb.foldl (fun group heading => addHeading heading group) (last :: group) =
      (Ranks.reduce (last :: climb)).reverse ++ group := by
  induction climb generalizing last group with
  | nil => rfl
  | cons heading climb ih =>
    rw [List.foldl_cons, addHeading_eq, Ranks.reduce]
    split_ifs with behind
    · exact ih heading group
    · rw [ih heading (last :: group), List.reverse_cons, List.append_assoc]
      rfl

theorem foldl_addHeading_climb {climb : List Nat} (before : ∀ heading ∈ climb, heading < place) :
    climb.foldl (fun group heading => addHeading heading group) [place] =
      (Ranks.reduce climb).reverse ++ [place] := by
  cases climb with
  | nil => rfl
  | cons heading climb =>
    have notBehind : ¬ place < heading := Nat.not_lt.mpr (Nat.le_of_lt (before heading (by simp)))
    rw [List.foldl_cons, addHeading_eq, if_neg notBehind, foldl_addHeading]

theorem groupFrom_eq (isRank : ranks[place]? = some rank) :
    groupFrom (rankLevels size ranks) rank place = some (Ranks.group ranks size rank place) := by
  have dropped : (rankLevels size ranks).drop (rank + 1) =
      (List.range' (rank + 1) (size - (rank + 1))).map (Ranks.placesAt ranks) := by
    rw [rankLevels, ← List.map_drop, List.range_eq_range', List.drop_range']
    simp
  have steps : ∀ higher ∈ List.range' (rank + 1) (size - (rank + 1)), ∀ group : List Nat,
      (binary_search (Ranks.placesAt ranks higher) place).map (fun found =>
        (found.bind ((Ranks.placesAt ranks higher)[·]?)).elim group (addHeading · group)) =
          some ((Ranks.nearest ranks higher place).elim group (addHeading · group)) := by
    intro higher isMem group
    have different : rank ≠ higher := by
      rw [List.mem_range'_1] at isMem
      omega
    have absent : place ∉ Ranks.placesAt ranks higher := fun isPlace =>
      different (Option.some.inj (isRank.symm.trans (Ranks.mem_placesAt.mp isPlace)))
    have found := binary_search_spec (Ranks.placesAt_increasing ranks higher) absent
    obtain ⟨index, isIndex, isLast⟩ := Option.map_eq_some_iff.mp found
    rw [isIndex, Option.map_some, isLast]
    rfl
  rw [groupFrom, dropped, List.foldlM_map, Fallible.foldlM_eq_some steps, Ranks.group,
    ← foldl_addHeading_climb fun heading isMem => Ranks.lt_of_mem_climb isMem, Ranks.climb,
    List.foldl_filterMap]
  congr 2
  funext group higher
  cases Ranks.nearest ranks higher place <;> rfl

theorem mem_visited {depth : Int} : (rank, place) ∈ visited (rankLevels size ranks) depth ↔
    rank < size ∧ rank < sliceStop size depth ∧ ranks[place]? = some rank := by
  simp only [visited, rankLevels, List.length_map, List.length_range, List.mem_flatMap,
    List.mem_map, Prod.mk.injEq, Prod.exists, List.mem_zipIdx_iff_getElem?, List.getElem?_take,
    List.getElem?_map]
  constructor
  · rintro ⟨places, level, isLevel, other, isPlace, rfl, rfl⟩
    split_ifs at isLevel with within
    obtain ⟨same, isRange, rfl⟩ := Option.map_eq_some_iff.mp isLevel
    obtain ⟨inSize, rfl⟩ := List.getElem?_eq_some_iff.mp isRange
    rw [List.getElem_range] at isPlace
    exact ⟨by simpa using inSize, within, Ranks.mem_placesAt.mp isPlace⟩
  · rintro ⟨inSize, within, isRank⟩
    refine ⟨Ranks.placesAt ranks rank, rank, ?_, place, Ranks.mem_placesAt.mpr isRank, rfl, rfl⟩
    rw [if_pos within, List.getElem?_range inSize, Option.map_some]

theorem visited_ascends (levels : List (List Nat)) (depth : Int) :
    (visited levels depth).Pairwise fun first second => first.1 ≤ second.1 := by
  rw [visited, List.pairwise_flatMap]
  refine ⟨fun level _ => ?_, ?_⟩
  · exact List.pairwise_map.mpr (List.pairwise_of_forall fun _ _ => Nat.le_refl _)
  · have positions : ((levels.take (sliceStop levels.length depth)).zipIdx.map Prod.snd).Pairwise
        (· < ·) := by
      rw [List.zipIdx_map_snd]
      exact List.pairwise_lt_range' 1
    refine (List.pairwise_map.mp positions).imp fun less first isFirst second isSecond => ?_
    obtain ⟨_, -, rfl⟩ := List.mem_map.mp isFirst
    obtain ⟨_, -, rfl⟩ := List.mem_map.mp isSecond
    exact Nat.le_of_lt less

def groupAt (size : Nat) (ranks : List Nat) (rank place : Nat) : List Nat :=
  if rank + 2 = size then [place] else Ranks.group ranks size rank place

theorem mem_groupAt_self (size : Nat) (ranks : List Nat) (rank place : Nat) :
    place ∈ groupAt size ranks rank place := by
  unfold groupAt
  split_ifs
  · exact List.mem_singleton_self place
  · exact List.mem_append_right _ (List.mem_singleton_self place)

theorem mergeAt_cases (wide : 1 < size) (run : GroupRun) (isRank : ranks[place]? = some rank) :
    ∃ next, mergeAt (rankLevels size ranks) run rank place = some next ∧
      ((place ∈ run.readed ∧ next = run) ∨
        (place ∉ run.readed ∧
          next.cks = run.cks ++ [groupAt size ranks rank place] ∧
          ∀ other, other ∈ next.readed ↔
            other ∈ run.readed ∨ other ∈ groupAt size ranks rank place)) := by
  have length : (rankLevels size ranks).length = size := by simp [rankLevels]
  unfold mergeAt
  by_cases isReaded : place ∈ run.readed
  · exact ⟨run, by rw [if_pos isReaded], .inl ⟨isReaded, rfl⟩⟩
  rw [if_neg isReaded, length]
  have sameCase : rank + 1 = size - 1 ↔ rank + 2 = size := by omega
  simp only [sameCase]
  by_cases alone : rank + 2 = size
  · refine ⟨_, if_pos alone, .inr ⟨isReaded, ?_, fun other => ?_⟩⟩
    · rw [groupAt, if_pos alone]
    · rw [groupAt, if_pos alone, List.mem_cons, List.mem_singleton, or_comm]
  · rw [if_neg alone, groupFrom_eq isRank]
    refine ⟨_, rfl, .inr ⟨isReaded, ?_, fun other => ?_⟩⟩
    · rw [groupAt, if_neg alone]
    · have isSelf := mem_groupAt_self size ranks rank place
      rw [groupAt, if_neg alone] at isSelf ⊢
      simp only [List.mem_append, List.mem_cons] at isSelf ⊢
      constructor
      · rintro (inGroup | rfl | inReaded)
        · exact .inr inGroup
        · exact .inr isSelf
        · exact .inl inReaded
      · rintro (inReaded | inGroup)
        · exact .inr (.inr inReaded)
        · exact .inl inGroup

/-- The groups are those of visited places, and each visited place is in one. -/
structure Grouping (size : Nat) (ranks : List Nat) (done : List (Nat × Nat)) (run : GroupRun) :
    Prop where
  readed : ∀ place, place ∈ run.readed ↔ ∃ ck ∈ run.cks, place ∈ ck
  started : ∀ ck ∈ run.cks, ∃ visit ∈ done, ck = groupAt size ranks visit.1 visit.2
  grouped : ∀ visit ∈ done, ∃ ck ∈ run.cks, visit.2 ∈ ck

theorem Grouping.step {done : List (Nat × Nat)} {run next : GroupRun}
    (grouping : Grouping size ranks done run)
    (cases : (place ∈ run.readed ∧ next = run) ∨
      (place ∉ run.readed ∧ next.cks = run.cks ++ [groupAt size ranks rank place] ∧
        ∀ other, other ∈ next.readed ↔
          other ∈ run.readed ∨ other ∈ groupAt size ranks rank place)) :
    Grouping size ranks (done ++ [(rank, place)]) next := by
  rcases cases with ⟨isReaded, rfl⟩ | ⟨-, isNext, readed⟩
  · refine ⟨grouping.readed, fun ck isMem => ?_, fun visit isMem => ?_⟩
    · obtain ⟨visit, isVisit, isGroup⟩ := grouping.started ck isMem
      exact ⟨visit, List.mem_append_left _ isVisit, isGroup⟩
    · rcases List.mem_append.mp isMem with old | new
      · exact grouping.grouped visit old
      · rw [List.mem_singleton.mp new]
        exact (grouping.readed place).mp isReaded
  · refine ⟨fun other => ?_, fun ck isMem => ?_, fun visit isMem => ?_⟩
    · rw [readed, grouping.readed, isNext]
      simp only [List.mem_append, List.mem_singleton, or_and_right, exists_or, exists_eq_left]
    · rw [isNext] at isMem
      rcases List.mem_append.mp isMem with old | new
      · obtain ⟨visit, isVisit, isGroup⟩ := grouping.started ck old
        exact ⟨visit, List.mem_append_left _ isVisit, isGroup⟩
      · exact ⟨(rank, place), by simp, List.mem_singleton.mp new⟩
    · rw [isNext]
      rcases List.mem_append.mp isMem with old | new
      · obtain ⟨ck, isCk, inCk⟩ := grouping.grouped visit old
        exact ⟨ck, List.mem_append_left _ isCk, inCk⟩
      · rw [List.mem_singleton.mp new]
        exact ⟨_, List.mem_append_right _ List.mem_cons_self, mem_groupAt_self _ _ _ _⟩

section Run

variable {other : Nat}

theorem above_of_mem_groupAt (headed : (groupAt size ranks rank place).Pairwise (Ranks.Above ranks))
    (isMem : other ∈ groupAt size ranks rank place) :
    other = place ∨ (Ranks.Above ranks other place ∧ rank + 2 ≠ size) := by
  unfold groupAt at headed isMem
  split_ifs at headed isMem with alone
  · exact .inl (List.mem_singleton.mp isMem)
  · rcases List.mem_append.mp isMem with isHeading | isPlace
    · exact .inr ⟨(List.pairwise_append.mp headed).2.2 other isHeading place List.mem_cons_self,
        alone⟩
    · exact .inl (List.mem_singleton.mp isPlace)

theorem mem_groupAt_of_above (bounded : ∀ other ∈ ranks, other < size)
    (isRank : ranks[place]? = some rank) (accompanied : rank + 2 ≠ size)
    (above : Ranks.Above ranks other place) : other ∈ groupAt size ranks rank place := by
  rw [groupAt, if_neg accompanied]
  exact Ranks.mem_group_of_above isRank bounded above

theorem above_succ {next : Nat} (isRank : ranks[place]? = some rank)
    (isNext : ranks[place + 1]? = some next) (less : next < rank) :
    Ranks.Above ranks place (place + 1) := by
  refine ⟨Nat.lt_succ_self place, rank, isRank, fun other otherRank behind upTo isOther => ?_⟩
  obtain rfl : other = place + 1 := by omega
  rw [isNext, Option.some.injEq] at isOther
  omega

variable {depth : Int} {run : GroupRun}

theorem groupAt_headed {done rest : List (Nat × Nat)} (bounded : ∀ other ∈ ranks, other < size)
    (leftBehind : ∀ place rank, ranks[place]? = some rank → rank < sliceStop size depth →
      rank + 2 < size → (∀ next ∈ ranks[place + 1]?, rank ≤ next) →
        Ranks.NextBehind (Ranks.climb ranks size rank place))
    (split : visited (rankLevels size ranks) depth = done ++ (rank, place) :: rest)
    (grouping : Grouping size ranks done run)
    (headed : ∀ ck ∈ run.cks, ck.Pairwise (Ranks.Above ranks))
    (notReaded : place ∉ run.readed) :
    (groupAt size ranks rank place).Pairwise (Ranks.Above ranks) := by
  obtain ⟨inSize, inStop, isRank⟩ : rank < size ∧ rank < sliceStop size depth ∧
      ranks[place]? = some rank := mem_visited.mp (split ▸ by simp)
  by_cases alone : rank + 2 = size
  · rw [groupAt, if_pos alone]
    exact List.pairwise_singleton _ _
  rw [groupAt, if_neg alone, Ranks.group_above_iff isRank bounded]
  by_cases highest : rank + 1 = size
  · have noneAbove : Ranks.climb ranks size rank place = [] := by simp [Ranks.climb, highest]
    rw [noneAbove]
    trivial
  refine leftBehind place rank isRank inStop (by omega) fun next isNext => ?_
  by_contra deeper
  have nextVisited : (next, place + 1) ∈ done := by
    have isVisited : (next, place + 1) ∈ visited (rankLevels size ranks) depth :=
      mem_visited.mpr ⟨by omega, by omega, isNext⟩
    have ascends := visited_ascends (rankLevels size ranks) depth
    rw [split] at isVisited ascends
    rcases List.mem_append.mp isVisited with isDone | later
    · exact isDone
    · rcases List.mem_cons.mp later with same | later
      · rw [Prod.mk.injEq] at same
        omega
      · have := (List.pairwise_cons.mp (List.pairwise_append.mp ascends).2.1).1 _ later
        simp only at this
        omega
  obtain ⟨ck, isCk, inCk⟩ := grouping.grouped _ nextVisited
  obtain ⟨⟨belowRank, below⟩, isBelow, rfl⟩ := grouping.started ck isCk
  have isBelowRank : ranks[below]? = some belowRank :=
    (mem_visited.mp (split ▸ List.mem_append_left _ isBelow)).2.2
  have aboveNext := above_succ isRank isNext (Nat.not_le.mp deeper)
  obtain ⟨abovePlace, accompanied⟩ : Ranks.Above ranks place below ∧ belowRank + 2 ≠ size := by
    rcases above_of_mem_groupAt (headed _ isCk) inCk with same | ⟨above, accompanied⟩
    · simp only at same
      rw [← same, isNext, Option.some.injEq] at isBelowRank
      exact ⟨same ▸ aboveNext, by omega⟩
    · exact ⟨aboveNext.trans above, accompanied⟩
  exact notReaded ((grouping.readed place).mpr
    ⟨_, isCk, mem_groupAt_of_above bounded isBelowRank accompanied abovePlace⟩)

theorem groupLevels_spec (wide : 1 < size) (bounded : ∀ other ∈ ranks, other < size) :
    ∃ run, groupLevels (rankLevels size ranks) depth = some run.cks ∧
      Grouping size ranks (visited (rankLevels size ranks) depth) run ∧
      (Nested size (sliceStop size depth) ranks →
        ∀ ck ∈ run.cks, ck.Pairwise (Ranks.Above ranks)) := by
  let visits := visited (rankLevels size ranks) depth
  let invariant (done : List (Nat × Nat)) (run : GroupRun) : Prop :=
    Grouping size ranks done run ∧
      (Nested size (sliceStop size depth) ranks →
        ∀ ck ∈ run.cks, ck.Pairwise (Ranks.Above ranks))
  have start : invariant [] ⟨[], []⟩ := ⟨⟨by simp, by simp, by simp⟩, by simp⟩
  have steps : ∀ before (visit : Nat × Nat) after run, visits = before ++ visit :: after →
      invariant before run →
        ∃ next, mergeAt (rankLevels size ranks) run visit.1 visit.2 = some next ∧
          invariant (before ++ [visit]) next := by
    rintro before ⟨rank, place⟩ after run split ⟨grouping, headed⟩
    have isVisited : (rank, place) ∈ visits := split ▸ by simp
    have isRank : ranks[place]? = some rank := (mem_visited.mp isVisited).2.2
    obtain ⟨next, taken, cases⟩ := mergeAt_cases wide run isRank
    refine ⟨next, taken, grouping.step cases, fun nested => ?_⟩
    rcases cases with ⟨-, rfl⟩ | ⟨notReaded, isNext, -⟩
    · exact headed nested
    · rw [isNext]
      intro ck isMem
      rcases List.mem_append.mp isMem with old | new
      · exact headed nested ck old
      · rw [List.mem_singleton.mp new]
        exact groupAt_headed bounded nested.leftBehind split grouping (headed nested) notReaded
  obtain ⟨final, ran, holds⟩ := Fallible.foldlM_invariant steps start
  exact ⟨final, by rw [groupLevels, ran, Option.map_some], holds⟩

theorem leftBehind_of_headed (bounded : ∀ other ∈ ranks, other < size)
    (grouping : Grouping size ranks (visited (rankLevels size ranks) depth) run)
    (headed : ∀ ck ∈ run.cks, ck.Pairwise (Ranks.Above ranks))
    (isRank : ranks[place]? = some rank) (inStop : rank < sliceStop size depth)
    (below : rank + 2 < size) (notDeeper : ∀ next ∈ ranks[place + 1]?, rank ≤ next) :
    Ranks.NextBehind (Ranks.climb ranks size rank place) := by
  have isVisited : (rank, place) ∈ visited (rankLevels size ranks) depth :=
    mem_visited.mpr ⟨by omega, inStop, isRank⟩
  obtain ⟨ck, isCk, inCk⟩ := grouping.grouped _ isVisited
  obtain ⟨⟨startRank, start⟩, isStart, rfl⟩ := grouping.started ck isCk
  have isStartRank : ranks[start]? = some startRank := (mem_visited.mp isStart).2.2
  rcases above_of_mem_groupAt (headed _ isCk) inCk with rfl | ⟨above, -⟩
  · rw [isRank, Option.some.injEq] at isStartRank
    subst isStartRank
    have headed := headed _ isCk
    rw [groupAt, if_neg (by omega)] at headed
    exact (Ranks.group_above_iff isRank bounded).mp headed
  · obtain ⟨before, other, isOther, covers⟩ := above
    have inside := (List.getElem?_eq_some_iff.mp isStartRank).1
    have isNext : ranks[place + 1]? = some ranks[place + 1] := List.getElem?_eq_getElem (by omega)
    have less := covers (place + 1) _ (Nat.lt_succ_self place) before isNext
    have atLeast := notDeeper _ isNext
    rw [isRank, Option.some.injEq] at isOther
    omega

theorem covered_iff_reached (bounded : ∀ other ∈ ranks, other < size)
    (grouping : Grouping size ranks (visited (rankLevels size ranks) depth) run)
    (headed : ∀ ck ∈ run.cks, ck.Pairwise (Ranks.Above ranks)) :
    (∀ place < ranks.length, ∃ ck ∈ run.cks, place ∈ ck) ↔
      ∀ place rank, ranks[place]? = some rank → sliceStop size depth ≤ rank →
        ∃ below belowRank, Ranks.Above ranks place below ∧ ranks[below]? = some belowRank ∧
          belowRank < sliceStop size depth ∧ belowRank + 2 < size := by
  constructor
  · intro covered place rank isRank notVisited
    obtain ⟨ck, isCk, inCk⟩ := covered place (List.getElem?_eq_some_iff.mp isRank).1
    obtain ⟨⟨startRank, start⟩, isStart, rfl⟩ := grouping.started ck isCk
    obtain ⟨inSize, inStop, isStartRank⟩ := mem_visited.mp isStart
    rcases above_of_mem_groupAt (headed _ isCk) inCk with rfl | ⟨above, accompanied⟩
    · rw [isRank, Option.some.injEq] at isStartRank
      omega
    · obtain ⟨before, other, isOther, covers⟩ := above
      have less := covers start startRank before (Nat.le_refl _) isStartRank
      have inSizeOther := bounded other (List.mem_of_getElem? isOther)
      exact ⟨start, startRank, ⟨before, other, isOther, covers⟩, isStartRank, inStop, by omega⟩
  · intro reached place inside
    have isRank : ranks[place]? = some ranks[place] := List.getElem?_eq_getElem inside
    by_cases isVisited : ranks[place] < sliceStop size depth
    · exact grouping.grouped (ranks[place], place)
        (mem_visited.mpr ⟨bounded _ (List.getElem_mem inside), isVisited, isRank⟩)
    · obtain ⟨below, belowRank, above, isBelow, inStop, accompanied⟩ :=
        reached place _ isRank (Nat.not_lt.mp isVisited)
      obtain ⟨ck, isCk, inCk⟩ := grouping.grouped (belowRank, below)
        (mem_visited.mpr ⟨by omega, inStop, isBelow⟩)
      obtain ⟨⟨startRank, start⟩, isStart, rfl⟩ := grouping.started ck isCk
      have isStartRank : ranks[start]? = some startRank := (mem_visited.mp isStart).2.2
      refine ⟨_, isCk, ?_⟩
      rcases above_of_mem_groupAt (headed _ isCk) inCk with same | ⟨aboveStart, notAlone⟩
      · simp only at same
        subst same
        rw [isBelow, Option.some.injEq] at isStartRank
        exact mem_groupAt_of_above bounded (isStartRank ▸ isBelow) (by omega) above
      · exact mem_groupAt_of_above bounded isStartRank notAlone (above.trans aboveStart)

end Run

theorem flatten_foldl_pack (num_tokens : Nat → Nat) (cks : List (List Nat)) (packing : Packing) :
    ((cks.foldl (pack num_tokens) packing).finished ++
        [(cks.foldl (pack num_tokens) packing).last]).flatten =
      (packing.finished ++ [packing.last]).flatten ++ cks.flatten := by
  induction cks generalizing packing with
  | nil => simp
  | cons ck cks ih =>
    rw [List.foldl_cons, ih]
    have packed : ((pack num_tokens packing ck).finished ++
        [(pack num_tokens packing ck).last]).flatten =
          (packing.finished ++ [packing.last]).flatten ++ ck := by
      unfold pack
      split
      · split_ifs <;> simp
      · simp
    rw [packed, List.flatten_cons, List.append_assoc]

theorem flatten_packAll (num_tokens : Nat → Nat) (cks : List (List Nat)) :
    (packAll num_tokens cks).flatten = cks.flatten := by
  unfold packAll
  split_ifs with isEmpty
  · rw [isEmpty]
  · simpa using flatten_foldl_pack num_tokens cks ⟨[], [], 0⟩

theorem mem_packAll (num_tokens : Nat → Nat) (cks : List (List Nat)) (place : Nat) :
    (∃ chunk ∈ packAll num_tokens cks, place ∈ chunk) ↔ ∃ ck ∈ cks, place ∈ ck := by
  rw [← List.mem_flatten, flatten_packAll, List.mem_flatten]

theorem headed_iff {cks : List (List Nat)} :
    (∀ ck ∈ cks, 1 < ck.length → ck.Pairwise (Ranks.Above ranks)) ↔
      ∀ ck ∈ cks, ck.Pairwise (Ranks.Above ranks) := by
  constructor
  · intro several ck isCk
    by_cases long : 1 < ck.length
    · exact several ck isCk long
    · cases ck with
      | nil => exact List.Pairwise.nil
      | cons place rest =>
        cases rest with
        | nil => exact List.pairwise_singleton _ _
        | cons => simp at long
  · exact fun headed ck isCk _ => headed ck isCk

theorem groupLevels_iff (wide : 1 < size) (bounded : ∀ other ∈ ranks, other < size)
    {depth : Int} {cks : List (List Nat)}
    (isGroups : groupLevels (rankLevels size ranks) depth = some cks) :
    ((∀ ck ∈ cks, ck.Pairwise (Ranks.Above ranks)) ∧
        ∀ place < ranks.length, ∃ ck ∈ cks, place ∈ ck) ↔
      Nested size (sliceStop size depth) ranks := by
  obtain ⟨run, ran, grouping, headed⟩ := groupLevels_spec wide bounded
  obtain rfl := Option.some.inj (isGroups.symm.trans ran)
  constructor
  · rintro ⟨headed, covered⟩
    exact ⟨fun place rank isRank => leftBehind_of_headed bounded grouping headed isRank,
      (covered_iff_reached bounded grouping headed).mp covered⟩
  · intro nested
    exact ⟨headed nested, (covered_iff_reached bounded grouping (headed nested)).mpr nested.reached⟩

/-- The sections are nested as the function expects; without a category there is none to merge. -/
def ReadyToMerge (bull : Option (Fin BULLET_PATTERN.length)) (sections : List Section)
    (depth : Int) : Prop :=
  match bull with
  | none => keptSections sections = []
  | some bull =>
    Nested (BULLET_PATTERN[bull].length + 2) (sliceStop (BULLET_PATTERN[bull].length + 2) depth)
      (sectionRanks BULLET_PATTERN[bull] (keptSections sections))

theorem nested_nil (size stop : Nat) : Nested size stop [] :=
  ⟨fun place rank isRank => by simp at isRank, fun place rank isRank => by simp at isRank⟩

theorem mergesBelowHeadings_of_groups {num_tokens : String → Nat}
    {bull : Option (Fin BULLET_PATTERN.length)} {depth : Int} {cks : List (List Nat)}
    (isGroups : hierarchicalGroups bull sections depth = some cks) :
    MergesBelowHeadings num_tokens bull sections depth ↔
      (∀ ck ∈ cks, ck.Pairwise (Ranks.Above (ranksOf bull sections))) ∧
        ∀ place < (keptSections sections).length, ∃ ck ∈ cks, place ∈ ck := by
  have isPlaces : mergedPlaces num_tokens bull sections depth =
      some (packAll (fun place => num_tokens (textAt sections place)) cks) := by
    rw [mergedPlaces, isGroups, Option.map_some]
  constructor
  · rintro ⟨⟨groups, isHeaded, headed⟩, ⟨chunks, isCovered, covered⟩⟩
    obtain rfl := Option.some.inj (isGroups.symm.trans isHeaded)
    obtain rfl := Option.some.inj (isPlaces.symm.trans isCovered)
    exact ⟨headed_iff.mp headed, fun place inside => (mem_packAll _ _ _).mp (covered place inside)⟩
  · rintro ⟨headed, covered⟩
    exact ⟨⟨cks, isGroups, headed_iff.mpr headed⟩, ⟨_, isPlaces,
      fun place inside => (mem_packAll _ _ _).mpr (covered place inside)⟩⟩

/-- The groups are in order below their headings and cover the sections exactly for sections that
are ready to merge. -/
theorem mergesBelowHeadings_iff (num_tokens : String → Nat)
    (bull : Option (Fin BULLET_PATTERN.length)) (sections : List Section) (depth : Int) :
    MergesBelowHeadings num_tokens bull sections depth ↔ ReadyToMerge bull sections depth := by
  cases bull with
  | none =>
    have noGroups : hierarchicalGroups none sections depth = some [] := by
      simp [hierarchicalGroups]
    rw [mergesBelowHeadings_of_groups noGroups, ReadyToMerge]
    constructor
    · rintro ⟨-, covered⟩
      by_contra kept
      obtain ⟨ck, isCk, -⟩ := covered 0 (List.length_pos_iff.mpr kept)
      cases isCk
    · intro noneKept
      simp [noneKept]
  | some bull =>
    by_cases noSections : sections = []
    · subst noSections
      have noGroups : hierarchicalGroups (some bull) [] depth = some [] := by
        simp [hierarchicalGroups]
      rw [mergesBelowHeadings_of_groups noGroups]
      exact iff_of_true ⟨by simp, by simp [keptSections]⟩ (nested_nil _ _)
    · have bounded := sectionRanks_lt BULLET_PATTERN[bull] (keptSections sections)
      have isGroups : hierarchicalGroups (some bull) sections depth =
          groupLevels (rankLevels (BULLET_PATTERN[bull].length + 2)
            (sectionRanks BULLET_PATTERN[bull] (keptSections sections))) depth := by
        rw [hierarchicalGroups, if_neg noSections, ← reversedLevels_eq]
      obtain ⟨run, ran, -⟩ := groupLevels_spec (by omega) bounded
      rw [mergesBelowHeadings_of_groups (isGroups.trans ran), ReadyToMerge,
        ← groupLevels_iff (by omega) bounded ran, sectionRanks, List.length_map]
      rfl

def handbook : List Section :=
  [⟨"Chapter I General", ""⟩, ⟨"Section 1 Scope", ""⟩, ⟨"Article 1 Purpose", ""⟩,
    ⟨"This handbook applies to all staff.", ""⟩, ⟨"Chapter II Leave", ""⟩,
    ⟨"Leave is granted on request.", ""⟩]

/-- The article of the first chapter is between the second chapter and its text. -/
theorem not_mergesBelowHeadings_handbook :
    ¬ MergesBelowHeadings String.length (some ⟨3, by decide⟩) handbook 5 := by
  intro merges
  have isGroups : hierarchicalGroups (some ⟨3, by decide⟩) handbook 5 =
      some [[0, 1, 2, 3], [4, 2, 5]] := by decide +kernel
  obtain ⟨cks, isCks, headed⟩ := merges.headed
  obtain rfl := Option.some.inj (isGroups.symm.trans isCks)
  have inOrder := headed [4, 2, 5] (by simp) (by decide)
  have before := (List.pairwise_cons.mp inOrder).1 2 (by simp)
  exact absurd before.before (by decide)

end RagFlow.Chunking
