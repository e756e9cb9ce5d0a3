import Mathlib.Data.List.Dedup
import Mathlib.Data.List.Sort
import RagFlow.Chunking.Bullets
import RagFlow.Lib.HeadingTree

/-!
# Sections merged along a tree of headings

`rag/nlp/__init__.py`: `tree_merge` and its class `Node`.  The lines of a document get levels from
their bullets, a tree of headings is built down to a target level, and the paths to its leaves
become chunks.
-/

namespace RagFlow.Chunking

open Lib

def get_level (patterns : List Regex) (section_ : Section) : Nat × String :=
  let text := PyString.strip (section_.text.map fun char => if char = '\u3000' then ' ' else char)
  match bulletIndex patterns text with
  | some index => (index + 1, text)
  | none =>
    if hasTitleLayout section_.layout && !not_title text then (patterns.length + 1, text)
    else (patterns.length + 2, text)

def leveledLines (patterns : List Regex) (sections : List Section) : List (Nat × String) :=
  ((sections.filter isSubstantial).map (get_level patterns)).filter fun line =>
    !line.2.toList.all (· = '\n')

structure Placed where
  position : Nat
  text : String
  deriving DecidableEq

def placedLines (patterns : List Regex) (sections : List Section) : List (Nat × Placed) :=
  (leveledLines patterns sections).zipIdx.map fun line => (line.1.1, ⟨line.2, line.1.2⟩)

def sortedLevels (lines : List (Nat × Placed)) : List Nat :=
  (lines.map Prod.fst).dedup.insertionSort (· ≤ ·)

/-- `items[index]`, where negative indices count from the end. -/
def itemAt {Item : Type} (items : List Item) (index : Int) : Option Item :=
  if 0 ≤ index then items[index.toNat]?
  else if 0 ≤ index + items.length then items[(index + items.length).toNat]?
  else none

def targetLevel (bullets_size : Nat) (sorted_levels : List Nat) (depth : Int) : Option Nat :=
  let target_level :=
    if depth ≤ sorted_levels.length then itemAt sorted_levels (depth - 1)
    else itemAt sorted_levels (-1)
  if target_level = some (bullets_size + 2) then
    if 1 < sorted_levels.length then itemAt sorted_levels (-2) else itemAt sorted_levels 0
  else target_level

section Tree

variable {Item : Type} (depth : Nat)

/-- What `_dfs` emits at a node, and the titles that it passes on. -/
def visitNode (titles : List Item) (node : HeadingNode Item) : List (List Item) × List Item :=
  let texts := node.titles ++ node.body
  let within := 1 ≤ node.level ∧ node.level ≤ depth
  let path_titles := if within then titles ++ texts else titles
  let first := if node.level = 0 ∧ texts ≠ [] then [titles ++ texts] else []
  (first ++
    (if depth < node.level ∧ texts ≠ [] then [path_titles ++ texts]
    else if node.children.isNil ∧ within then [path_titles]
    else []), path_titles)

def dfsNodes (titles : List Item) : Forest Item → List (List Item)
  | .nil => []
  | .cons level own body children siblings =>
    let (emitted, path_titles) := visitNode depth titles ⟨level, own, body, children⟩
    emitted ++ dfsNodes path_titles children ++ dfsNodes titles siblings

def get_tree (root : HeadingNode Item) : List (List Item) :=
  let (emitted, path_titles) := visitNode depth [] root
  emitted ++ dfsNodes depth path_titles root.children

end Tree

inductive Branch {Item : Type} : List Item → Forest Item → List Item → Prop
  | leaf {above : List Item} : Branch above .nil above
  | down {above own body path : List Item} {level : Nat} {children siblings : Forest Item}
      (below : Branch (above ++ own ++ body) children path) :
      Branch above (.cons level own body children siblings) path
  | next {above own body path : List Item} {level : Nat} {children siblings : Forest Item}
      (nonempty : siblings ≠ .nil) (beside : Branch above siblings path) :
      Branch above (.cons level own body children siblings) path

def mergedPaths (patterns : List Regex) (sections : List Section) (depth : Int) :
    Option (List (List Placed)) :=
  let lines := placedLines patterns sections
  (targetLevel patterns.length (sortedLevels lines) depth).map fun target_level =>
    get_tree target_level (HeadingTree.build target_level lines)

def joinLines (path : List Placed) : String := "\n".intercalate (path.map Placed.text)

inductive Merged
  | sections (unchanged : List Section)
  | chunks (texts : List String)
  deriving DecidableEq

/-- Sections without a layout are pairs with an empty one; no result is an `IndexError`. -/
def tree_merge (bull : Option Nat) (sections : List Section) (depth : Int) : Option Merged :=
  if sections = [] then some (.sections sections)
  else
    match bull with
    | none => some (.sections sections)
    | some bull =>
      (mergedPaths (BULLET_PATTERN.getD bull []) sections depth).map fun paths =>
        .chunks ((paths.map joinLines).filter (· ≠ ""))

/-- The chunks list the lines in order along the branches of the tree, each line is in a chunk, and
the lines that are no headings are in one. -/
structure MergesLines (target_level bodyLevel : Nat) (lines : List (Nat × Placed))
    (paths : List (List Placed)) : Prop where
  along : ∀ path ∈ paths, ∃ branch,
    Branch (HeadingTree.build target_level lines).body
      (HeadingTree.build target_level lines).children branch ∧ path.Sublist branch
  inOrder : ∀ path ∈ paths, path.Pairwise (·.position < ·.position)
  covered : ∀ line ∈ lines, ∃ path ∈ paths, line.2 ∈ path
  once : ∀ line ∈ lines, target_level < line.1 ∨ line.1 = bodyLevel →
    paths.countP (line.2 ∈ ·) = 1

def categoryOf (sections : List Section) : Option Nat :=
  bullets_category (sections.map Section.text)

/-- The sections are returned as they are, or as chunks along a tree. -/
inductive Merges (sections : List Section) (depth : Int) : Prop
  | unchanged (result : tree_merge (categoryOf sections) sections depth = some (.sections sections))
  | chunked {patterns : List Regex} {target_level : Nat} {paths : List (List Placed)}
      (category : (categoryOf sections).map (BULLET_PATTERN.getD · []) = some patterns)
      (target : targetLevel patterns.length (sortedLevels (placedLines patterns sections)) depth =
        some target_level)
      (isPaths : mergedPaths patterns sections depth = some paths)
      (result : tree_merge (categoryOf sections) sections depth =
        some (.chunks (paths.map joinLines)))
      (merges : MergesLines target_level (patterns.length + 2) (placedLines patterns sections)
        paths)

/-- Lines are left, the depth names a level, and headings with lines right below them have no two
subheadings side by side. -/
structure Mergeable (patterns : List Regex) (sections : List Section) (depth : Int) : Prop where
  nonempty : placedLines patterns sections ≠ []
  inRange : 1 - depth ≤ (sortedLevels (placedLines patterns sections)).length
  narrow : ∀ target_level item below,
    targetLevel patterns.length (sortedLevels (placedLines patterns sections)) depth =
      some target_level →
    HeadingTree.RightBelow target_level (placedLines patterns sections) item below →
      (HeadingTree.headingLevels target_level below).Pairwise (· < ·)

variable {patterns : List Regex} {sections : List Section} {depth : Int} {target_level : Nat}
  {lines : List (Nat × Placed)}

theorem mem_sortedLevels {level : Nat} :
    level ∈ sortedLevels lines ↔ level ∈ lines.map Prod.fst := by
  simp only [sortedLevels, List.mem_insertionSort, List.mem_dedup]

theorem sortedLevels_increasing (lines : List (Nat × Placed)) :
    (sortedLevels lines).Pairwise (· < ·) := by
  have ordered : (sortedLevels lines).Pairwise (· ≤ ·) := List.pairwise_insertionSort _ _
  have distinct : (sortedLevels lines).Nodup :=
    (List.perm_insertionSort _ _).nodup_iff.mpr (List.nodup_dedup _)
  exact (ordered.and distinct).imp fun both => Nat.lt_of_le_of_ne both.1 both.2

theorem itemAt_eq_some {Item : Type} {items : List Item} {index : Int} {item : Item}
    (isItem : itemAt items index = some item) :
    ∃ position : Nat, items[position]? = some item ∧
      (position = index ∨ (position : Int) = index + items.length) := by
  unfold itemAt at isItem
  split_ifs at isItem with fromStart fromEnd
  · exact ⟨_, isItem, .inl (by omega)⟩
  · exact ⟨_, isItem, .inr (by omega)⟩

theorem isSome_itemAt {Item : Type} {items : List Item} {index : Int} :
    (itemAt items index).isSome ↔ -index ≤ items.length ∧ index < items.length := by
  unfold itemAt
  split_ifs with fromStart fromEnd
  · rw [isSome_getElem?]
    omega
  · rw [isSome_getElem?]
    omega
  · simp only [Option.isSome_none, Bool.false_eq_true, false_iff]
    omega

theorem isSome_targetLevel (bullets_size : Nat) (levels : List Nat) :
    (targetLevel bullets_size levels depth).isSome ↔ levels ≠ [] ∧ 1 - depth ≤ levels.length := by
  have nonempty : levels ≠ [] ↔ 0 < levels.length := List.length_pos_iff.symm
  let first := if depth ≤ levels.length then itemAt levels (depth - 1) else itemAt levels (-1)
  have isSome_first : first.isSome ↔ 0 < levels.length ∧ 1 - depth ≤ levels.length := by
    unfold first
    split_ifs
    · rw [isSome_itemAt]
      omega
    · rw [isSome_itemAt]
      omega
  change (if first = some (bullets_size + 2) then
    if 1 < levels.length then itemAt levels (-2) else itemAt levels 0 else first).isSome ↔ _
  rw [nonempty, ← isSome_first]
  split_ifs with isBody several
  · have found := isSome_first.mp (Option.isSome_of_eq_some isBody)
    rw [isSome_first, isSome_itemAt]
    omega
  · have found := isSome_first.mp (Option.isSome_of_eq_some isBody)
    rw [isSome_first, isSome_itemAt]
    omega
  · rfl

theorem get_level_bounds (patterns : List Regex) (section_ : Section) :
    1 ≤ (get_level patterns section_).1 ∧
      (get_level patterns section_).1 ≤ patterns.length + 2 := by
  unfold get_level
  dsimp only
  split
  · next index found =>
      have inside := (List.findIdx?_eq_some_iff_getElem.mp found).1
      exact ⟨by simp, by simp only; omega⟩
  · split_ifs <;> exact ⟨by simp only; omega, by simp⟩

theorem placedLines_bounds {line : Nat × Placed} (isMem : line ∈ placedLines patterns sections) :
    1 ≤ line.1 ∧ line.1 ≤ patterns.length + 2 := by
  obtain ⟨⟨leveled, position⟩, isPlaced, rfl⟩ := List.mem_map.mp isMem
  have isLeveled := List.fst_mem_of_mem_zipIdx isPlaced
  obtain ⟨section_, -, rfl⟩ := List.mem_map.mp (List.mem_of_mem_filter isLeveled)
  exact get_level_bounds patterns section_

theorem mem_of_itemAt {Item : Type} {items : List Item} {index : Int} {item : Item}
    (isItem : itemAt items index = some item) : item ∈ items := by
  obtain ⟨position, found, -⟩ := itemAt_eq_some isItem
  exact List.mem_of_getElem? found

theorem second_last_lt {levels : List Nat} {level : Nat} (increasing : levels.Pairwise (· < ·))
    (isItem : itemAt levels (-2) = some level) : ∃ last ∈ levels, level < last := by
  obtain ⟨position, found, place⟩ := itemAt_eq_some isItem
  have inside : position + 1 < levels.length := by omega
  obtain ⟨inLevels, rfl⟩ := List.getElem?_eq_some_iff.mp found
  exact ⟨levels[position + 1], List.getElem_mem inside,
    List.pairwise_iff_getElem.mp increasing _ _ inLevels inside (Nat.lt_succ_self position)⟩

theorem targetLevel_spec {bullets_size : Nat}
    (bounded : ∀ line ∈ lines, line.1 ≤ bullets_size + 2)
    (isTarget : targetLevel bullets_size (sortedLevels lines) depth = some target_level) :
    target_level ∈ sortedLevels lines ∧
      (target_level = bullets_size + 2 → ∀ line ∈ lines, line.1 = bullets_size + 2) := by
  have inBounds : ∀ level ∈ sortedLevels lines, level ≤ bullets_size + 2 := by
    intro level isMem
    obtain ⟨line, isLine, rfl⟩ := List.mem_map.mp (mem_sortedLevels.mp isMem)
    exact bounded line isLine
  simp only [targetLevel] at isTarget
  by_cases isBody : (if depth ≤ (sortedLevels lines).length then
      itemAt (sortedLevels lines) (depth - 1) else itemAt (sortedLevels lines) (-1)) =
        some (bullets_size + 2)
  · rw [if_pos isBody] at isTarget
    split_ifs at isTarget with several
    · refine ⟨mem_of_itemAt isTarget, ?_⟩
      rintro rfl
      obtain ⟨last, isMem, larger⟩ := second_last_lt (sortedLevels_increasing lines) isTarget
      exact absurd (inBounds last isMem) (Nat.not_le.mpr larger)
    · have isMem := mem_of_itemAt isTarget
      refine ⟨isMem, fun same line isLine => ?_⟩
      obtain ⟨only, isOnly⟩ : ∃ only, sortedLevels lines = [only] := by
        rw [← List.length_eq_one_iff]
        have positive := List.length_pos_of_mem isMem
        omega
      have isLevel : line.1 ∈ sortedLevels lines :=
        mem_sortedLevels.mpr (List.mem_map_of_mem isLine)
      rw [isOnly, List.mem_singleton] at isMem isLevel
      rw [isLevel, ← isMem, same]
  · rw [if_neg isBody] at isTarget
    refine ⟨?_, ?_⟩
    · split_ifs at isTarget <;> exact mem_of_itemAt isTarget
    · rintro rfl
      exact absurd isTarget isBody

section Paths

variable {Item : Type} {above titles path : List Item} {forest : Forest Item} {depth : Nat}

theorem Branch.isPrefix (branch : Branch above forest path) : above <+: path := by
  induction branch with
  | leaf => exact List.prefix_refl _
  | down _ ih =>
    rw [List.append_assoc] at ih
    exact (List.prefix_append _ _).trans ih
  | next _ _ ih => exact ih

theorem exists_branch (above : List Item) (forest : Forest Item) :
    ∃ path, Branch above forest path := by
  induction forest generalizing above with
  | nil => exact ⟨above, .leaf⟩
  | cons level own body children siblings inChildren =>
    obtain ⟨path, branch⟩ := inChildren (above ++ own ++ body)
    exact ⟨path, .down branch⟩

theorem exists_branch_of_mem_leafPaths (isPath : path ∈ forest.leafPaths titles)
    (sublist : titles.Sublist above) :
    ∃ branch, Branch above forest branch ∧ path.Sublist branch := by
  induction forest generalizing titles above with
  | nil => cases isPath
  | cons level own body children siblings inChildren inSiblings =>
    have longer : (titles ++ own ++ body).Sublist (above ++ own ++ body) :=
      (sublist.append (List.Sublist.refl own)).append (List.Sublist.refl body)
    simp only [Forest.leafPaths, List.mem_append] at isPath
    rcases isPath with (isLeaf | isChild) | isSibling
    · split_ifs at isLeaf with noChildren
      · rw [Forest.eq_nil_of_isNil noChildren, List.mem_singleton.mp isLeaf]
        exact ⟨above ++ own ++ body, .down .leaf, longer⟩
      · cases isLeaf
    · obtain ⟨branch, isBranch, onBranch⟩ := inChildren isChild longer
      exact ⟨branch, .down isBranch, onBranch⟩
    · obtain ⟨branch, isBranch, onBranch⟩ := inSiblings isSibling sublist
      have nonempty : siblings ≠ .nil := by
        rintro rfl
        cases isSibling
      exact ⟨branch, .next nonempty isBranch, onBranch⟩

theorem dfsNodes_eq (headed : forest.Headed fun level => 1 ≤ level ∧ level ≤ depth)
    (titles : List Item) : dfsNodes depth titles forest = forest.leafPaths titles := by
  induction forest generalizing titles with
  | nil => rfl
  | cons level own body children siblings inChildren inSiblings =>
    obtain ⟨within, -, children, siblings⟩ := headed
    have notRoot : ¬ (level = 0 ∧ own ++ body ≠ []) := fun isRoot => by omega
    have notBody : ¬ (depth < level ∧ own ++ body ≠ []) := fun isBody => by omega
    simp only [dfsNodes, visitNode, Forest.leafPaths, within, and_self, and_true, if_true,
      if_neg notRoot, if_neg notBody, inChildren children, inSiblings siblings, List.nil_append,
      List.append_assoc]

def rootPaths (depth : Nat) (lines : List (Nat × Item)) : List (List Item) :=
  (if HeadingTree.content depth lines = [] then [] else [HeadingTree.content depth lines]) ++
    (HeadingTree.outline depth (HeadingTree.fromHeading depth lines)).leafPaths []

theorem get_tree_build {lines : List (Nat × Item)} (positive : ∀ line ∈ lines, 1 ≤ line.1) :
    get_tree depth (HeadingTree.build depth lines) =
      rootPaths depth lines := by
  have headed := HeadingTree.headed_fromHeading depth positive
  rw [HeadingTree.build_eq_finish]
  simp [get_tree, visitNode, HeadingTree.finish, HeadingTree.root, Forest.append, rootPaths,
    dfsNodes_eq headed]

theorem leafPaths_outline_flat {lines : List (Nat × Item)} (flat : ∀ line ∈ lines, line.1 = depth) :
    (HeadingTree.outline depth lines).leafPaths titles =
      lines.map fun line => titles ++ [line.2] := by
  induction lines with
  | nil => simp [HeadingTree.outline, Forest.leafPaths]
  | cons line rest ih =>
    obtain ⟨level, item⟩ := line
    obtain ⟨rfl, flat⟩ := List.forall_mem_cons.mp flat
    have begins : HeadingTree.Begins level rest := fun line isHead =>
      Nat.le_of_eq (flat line (List.mem_of_head? isHead))
    rw [HeadingTree.outline_cons, HeadingTree.scope_of_begins begins,
      HeadingTree.afterScope_of_begins begins, Forest.leafPaths, ih flat]
    simp [HeadingTree.content, HeadingTree.fromHeading, HeadingTree.outline, Forest.leafPaths,
      Forest.isNil]

variable {lines : List (Nat × Item)} {item : Item}

theorem items_parts (depth : Nat) (lines : List (Nat × Item)) :
    HeadingTree.content depth lines ++
      (HeadingTree.outline depth (HeadingTree.fromHeading depth lines)).items =
        lines.map Prod.snd := by
  rw [HeadingTree.items_outline (HeadingTree.begins_fromHeading depth lines),
    HeadingTree.content_append_fromHeading]

theorem mem_content_or_rightBelow {line : Nat × Item} (isMem : line ∈ lines)
    (deep : depth < line.1) : line.2 ∈ HeadingTree.content depth lines ∨
      ∃ below, HeadingTree.RightBelow depth lines line.2 below := by
  have parts : lines = lines.takeWhile (fun line => depth < line.1) ++
      HeadingTree.fromHeading depth lines := List.takeWhile_append_dropWhile.symm
  rw [parts, List.mem_append] at isMem
  rcases isMem with isContent | isMem
  · exact .inl (List.mem_map_of_mem isContent)
  · obtain ⟨below, rightBelow⟩ := HeadingTree.exists_rightBelow
      (HeadingTree.begins_fromHeading depth lines) isMem deep
    exact .inr ⟨below, HeadingTree.rightBelow_fromHeading.mp rightBelow⟩

theorem exists_rootPath (isMem : item ∈ lines.map Prod.snd) :
    ∃ path ∈ rootPaths depth lines, item ∈ path := by
  rw [← items_parts depth lines, List.mem_append] at isMem
  rcases isMem with isContent | isItem
  · refine ⟨_, List.mem_append_left _ ?_, isContent⟩
    rw [if_neg (List.ne_nil_of_mem isContent)]
    exact List.mem_singleton_self _
  · obtain ⟨path, isPath, onPath⟩ := Forest.exists_leafPath_of_mem isItem []
    exact ⟨path, List.mem_append_right _ isPath, onPath⟩

theorem sublist_of_mem_rootPaths (isPath : path ∈ rootPaths depth lines) :
    path.Sublist (lines.map Prod.snd) := by
  rw [← items_parts depth lines]
  rcases List.mem_append.mp isPath with isContent | isPath
  · split_ifs at isContent
    · cases isContent
    · rw [List.mem_singleton.mp isContent]
      exact List.sublist_append_left _ _
  · obtain ⟨rest, rfl, sublist⟩ := Forest.descends_of_mem_leafPaths isPath
    exact sublist.trans (List.sublist_append_right _ _)

theorem ne_nil_of_mem_leafPaths {kind : Nat → Prop} (headed : forest.Headed kind)
    (isPath : path ∈ forest.leafPaths titles) : path ≠ [] := by
  induction forest generalizing titles with
  | nil => cases isPath
  | cons level own body children siblings inChildren inSiblings =>
    obtain ⟨-, titled, children, siblings⟩ := headed
    simp only [Forest.leafPaths, List.mem_append] at isPath
    rcases isPath with (isLeaf | isChild) | isSibling
    · split_ifs at isLeaf
      · rw [List.mem_singleton.mp isLeaf]
        have hasTitle : own ≠ [] := List.ne_nil_of_length_pos (by omega)
        simp [hasTitle]
      · cases isLeaf
    · exact inChildren children isChild
    · exact inSiblings siblings isSibling

theorem ne_nil_of_mem_rootPaths (isPath : path ∈ rootPaths depth lines) : path ≠ [] := by
  rcases List.mem_append.mp isPath with isContent | isPath
  · split_ifs at isContent with nonempty
    · cases isContent
    · rwa [List.mem_singleton.mp isContent]
  · have headed : (HeadingTree.outline depth (HeadingTree.fromHeading depth lines)).Headed
        fun _ => True :=
      HeadingTree.headed_outline (HeadingTree.begins_fromHeading depth lines) fun _ _ _ => trivial
    exact ne_nil_of_mem_leafPaths headed isPath

variable [DecidableEq Item]

theorem countP_rootPaths_content (distinct : (lines.map Prod.snd).Nodup)
    (isContent : item ∈ HeadingTree.content depth lines) :
    (rootPaths depth lines).countP (item ∈ ·) = 1 := by
  rw [← items_parts depth lines] at distinct
  have notOnTree : ((HeadingTree.outline depth (HeadingTree.fromHeading depth lines)).leafPaths
      []).countP (item ∈ ·) = 0 :=
    Forest.countP_eq_zero_of_descends (fun _ isPath => Forest.descends_of_mem_leafPaths isPath)
      List.not_mem_nil (List.disjoint_of_nodup_append distinct isContent)
  rw [rootPaths, List.countP_append, notOnTree, if_neg (List.ne_nil_of_mem isContent),
    Forest.countP_singleton_eq_one isContent]

theorem countP_rootPaths_rightBelow {below : List (Nat × Item)}
    (distinct : (lines.map Prod.snd).Nodup)
    (rightBelow : HeadingTree.RightBelow depth lines item below) :
    (rootPaths depth lines).countP (item ∈ ·) =
      max 1 (HeadingTree.outline depth below).leaves := by
  rw [← items_parts depth lines] at distinct
  have holds : (HeadingTree.outline depth (HeadingTree.fromHeading depth lines)).Holds item
      (HeadingTree.outline depth below) :=
    (HeadingTree.holds_outline_iff (HeadingTree.begins_fromHeading depth lines)).mpr
      ⟨below, HeadingTree.rightBelow_fromHeading.mpr rightBelow, rfl⟩
  have notContent : item ∉ HeadingTree.content depth lines := fun isContent =>
    List.disjoint_of_nodup_append distinct isContent (Forest.mem_items_of_holds holds)
  rw [rootPaths, List.countP_append,
    Forest.countP_leafPaths (List.nodup_append.mp distinct).2.1 holds]
  split_ifs
  · rw [List.countP_nil, Nat.zero_add]
  · rw [Forest.countP_singleton_eq_zero notContent, Nat.zero_add]

end Paths

theorem map_position_placedLines (patterns : List Regex) (sections : List Section) :
    (placedLines patterns sections).map (fun line => line.2.position) =
      List.range (leveledLines patterns sections).length := by
  rw [placedLines, List.map_map, List.range_eq_range', ← List.zipIdx_map_snd]
  rfl

theorem placedLines_inOrder (patterns : List Regex) (sections : List Section) :
    ((placedLines patterns sections).map Prod.snd).Pairwise (·.position < ·.position) := by
  have positions : (((placedLines patterns sections).map Prod.snd).map Placed.position).Pairwise
      (· < ·) := by
    rw [List.map_map]
    exact (map_position_placedLines patterns sections) ▸ List.pairwise_lt_range
  exact List.pairwise_map.mp positions

theorem placedLines_nodup (patterns : List Regex) (sections : List Section) :
    ((placedLines patterns sections).map Prod.snd).Nodup :=
  (placedLines_inOrder patterns sections).imp fun before same =>
    absurd (congrArg Placed.position same) (Nat.ne_of_lt before)

theorem ne_empty_of_mem_placedLines {line : Nat × Placed}
    (isMem : line ∈ placedLines patterns sections) : line.2.text ≠ "" := by
  obtain ⟨⟨leveled, position⟩, isPlaced, rfl⟩ := List.mem_map.mp isMem
  have kept := (List.mem_filter.mp (List.fst_mem_of_mem_zipIdx isPlaced)).2
  intro isEmpty
  simp only at isEmpty
  rw [isEmpty] at kept
  cases kept

theorem along_rootPaths {path : List Placed} (isPath : path ∈ rootPaths target_level lines) :
    ∃ branch, Branch (HeadingTree.build target_level lines).body
      (HeadingTree.build target_level lines).children branch ∧ path.Sublist branch := by
  rw [HeadingTree.build_eq_finish]
  simp only [HeadingTree.finish, HeadingTree.root, Forest.append, List.nil_append]
  rcases List.mem_append.mp isPath with isContent | isPath
  · split_ifs at isContent
    · cases isContent
    · rw [List.mem_singleton.mp isContent]
      obtain ⟨branch, isBranch⟩ := exists_branch (HeadingTree.content target_level lines)
        (HeadingTree.outline target_level (HeadingTree.fromHeading target_level lines))
      exact ⟨branch, isBranch, isBranch.isPrefix.sublist⟩
  · exact exists_branch_of_mem_leafPaths isPath (List.nil_sublist _)

theorem countP_rootPaths_flat (distinct : (lines.map Prod.snd).Nodup)
    (flat : ∀ line ∈ lines, line.1 = target_level) {line : Nat × Placed} (isMem : line ∈ lines) :
    (rootPaths target_level lines).countP (line.2 ∈ ·) = 1 := by
  have begins : HeadingTree.Begins target_level lines := fun line isHead =>
    Nat.le_of_eq (flat line (List.mem_of_head? isHead))
  rw [rootPaths, HeadingTree.content_of_begins begins, HeadingTree.fromHeading_of_begins begins,
    leafPaths_outline_flat flat, if_pos rfl, List.nil_append, List.countP_map]
  have once := List.count_eq_one_of_mem distinct (List.mem_map_of_mem isMem)
  rw [List.count, List.countP_map] at once
  rw [← once]
  apply List.countP_congr
  intro other _
  simp only [Function.comp_apply, List.nil_append, List.mem_singleton, decide_eq_true_eq,
    beq_iff_eq]
  exact eq_comm

theorem mergesLines_iff (depth : Int)
    (isTarget : targetLevel patterns.length (sortedLevels (placedLines patterns sections)) depth =
      some target_level) :
    MergesLines target_level (patterns.length + 2) (placedLines patterns sections)
        (rootPaths target_level (placedLines patterns sections)) ↔
      ∀ item below, HeadingTree.RightBelow target_level (placedLines patterns sections) item below →
        (HeadingTree.headingLevels target_level below).Pairwise (· < ·) := by
  have distinct := placedLines_nodup patterns sections
  have bounded : ∀ line ∈ placedLines patterns sections, line.1 ≤ patterns.length + 2 :=
    fun line isMem => (placedLines_bounds isMem).2
  obtain ⟨isLevel, onlyBody⟩ := targetLevel_spec bounded isTarget
  have countP_eq_one {item : Placed} {below : List (Nat × Placed)}
      (rightBelow : HeadingTree.RightBelow target_level (placedLines patterns sections) item
        below) :
      (rootPaths target_level (placedLines patterns sections)).countP (item ∈ ·) = 1 ↔
        (HeadingTree.headingLevels target_level below).Pairwise (· < ·) := by
    have begins : HeadingTree.Begins target_level below := by
      obtain ⟨_, _, _, _, _, _, _, rfl⟩ := rightBelow
      exact HeadingTree.begins_fromHeading _ _
    rw [countP_rootPaths_rightBelow distinct rightBelow, ← HeadingTree.leaves_outline_le_one begins]
    omega
  constructor
  · intro merges item below rightBelow
    obtain ⟨line, isMem, deep, rfl⟩ : ∃ line ∈ placedLines patterns sections,
        target_level < line.1 ∧ line.2 = item :=
      HeadingTree.RightBelow.exists_line rightBelow
    exact (countP_eq_one rightBelow).mp (merges.once line isMem (.inl deep))
  · intro narrow
    refine ⟨fun path isPath => along_rootPaths isPath, fun path isPath => ?_, fun line isMem => ?_,
      fun line isMem isBody => ?_⟩
    · exact (placedLines_inOrder patterns sections).sublist (sublist_of_mem_rootPaths isPath)
    · exact exists_rootPath (List.mem_map_of_mem isMem)
    · by_cases deep : target_level < line.1
      · rcases mem_content_or_rightBelow isMem deep with isContent | ⟨below, rightBelow⟩
        · exact countP_rootPaths_content distinct isContent
        · exact (countP_eq_one rightBelow).mpr (narrow _ _ rightBelow)
      · have isBody : line.1 = patterns.length + 2 := isBody.resolve_left deep
        have atMost : target_level ≤ patterns.length + 2 := by
          obtain ⟨other, isOther, rfl⟩ := List.mem_map.mp (mem_sortedLevels.mp isLevel)
          exact bounded other isOther
        have same : target_level = patterns.length + 2 := by omega
        refine countP_rootPaths_flat distinct (fun other isOther => ?_) isMem
        rw [same]
        exact onlyBody same other isOther

theorem mergedPaths_eq (isTarget : targetLevel patterns.length
    (sortedLevels (placedLines patterns sections)) depth = some target_level) :
    mergedPaths patterns sections depth =
      some (rootPaths target_level (placedLines patterns sections)) := by
  rw [mergedPaths, isTarget, Option.map_some,
    get_tree_build fun line isMem => (placedLines_bounds isMem).1]

theorem joinLines_ne_empty {path : List Placed}
    (isPath : path ∈ rootPaths target_level (placedLines patterns sections)) :
    joinLines path ≠ "" := by
  have nonempty := ne_nil_of_mem_rootPaths isPath
  have onPath : ∀ placed ∈ path, placed.text ≠ "" := by
    intro placed isMem
    obtain ⟨line, isLine, rfl⟩ := List.mem_map.mp ((sublist_of_mem_rootPaths isPath).subset isMem)
    exact ne_empty_of_mem_placedLines isLine
  cases path with
  | nil => exact absurd rfl nonempty
  | cons first others =>
    have hasText := onPath first List.mem_cons_self
    cases others with
    | nil => simpa [joinLines] using hasText
    | cons second others =>
      simp only [joinLines, List.map_cons, String.intercalate_cons_cons, ne_eq,
        String.append_eq_empty_iff]
      exact fun isEmpty => hasText isEmpty.1.1

theorem tree_merge_of_target {bull : Nat} (nonempty : sections ≠ [])
    (isTarget : targetLevel (BULLET_PATTERN.getD bull []).length
      (sortedLevels (placedLines (BULLET_PATTERN.getD bull []) sections)) depth =
        some target_level) :
    tree_merge (some bull) sections depth = some (.chunks
      ((rootPaths target_level (placedLines (BULLET_PATTERN.getD bull []) sections)).map
        joinLines)) := by
  rw [tree_merge, if_neg nonempty]
  simp only [mergedPaths_eq isTarget, Option.map_some]
  rw [List.filter_eq_self.mpr]
  intro text isMem
  obtain ⟨path, isPath, rfl⟩ := List.mem_map.mp isMem
  exact decide_eq_true (joinLines_ne_empty isPath)

/-- Without sections or a category nothing is merged; otherwise the chunks are right exactly for
sections that are mergeable. -/
theorem merges_iff_mergeable (sections : List Section) (depth : Int) :
    Merges sections depth ↔ sections = [] ∨ ∀ bull ∈ categoryOf sections,
      Mergeable (BULLET_PATTERN.getD bull []) sections depth := by
  by_cases noSections : sections = []
  · exact iff_of_true (.unchanged (by simp [tree_merge, noSections])) (.inl noSections)
  cases category : categoryOf sections with
  | none => exact iff_of_true (.unchanged (by simp [tree_merge, category])) (.inr (by simp))
  | some bull =>
    constructor
    · intro merges
      refine .inr fun other same => ?_
      obtain rfl : bull = other := Option.some.inj same
      cases merges with
      | unchanged result =>
        rw [category, tree_merge, if_neg noSections] at result
        obtain ⟨paths, -, isChunks⟩ := Option.map_eq_some_iff.mp result
        cases isChunks
      | chunked isCategory isTarget isPaths result merges =>
        rw [category, Option.map_some, Option.some.injEq] at isCategory
        subst isCategory
        rw [mergedPaths_eq isTarget, Option.some.injEq] at isPaths
        subst isPaths
        have found := (isSome_targetLevel _ _).mp (Option.isSome_of_eq_some isTarget)
        refine ⟨fun isEmpty => found.1 (by rw [isEmpty]; rfl), found.2, ?_⟩
        intro other item below isOther
        obtain rfl := Option.some.inj (isTarget.symm.trans isOther)
        exact (mergesLines_iff depth isTarget).mp merges item below
    · rintro (isEmpty | mergeable)
      · exact absurd isEmpty noSections
      · have mergeable := mergeable bull rfl
        have levels : sortedLevels (placedLines (BULLET_PATTERN.getD bull []) sections) ≠ [] := by
          obtain ⟨line, isMem⟩ := List.exists_mem_of_ne_nil _ mergeable.nonempty
          exact List.ne_nil_of_mem (mem_sortedLevels.mpr (List.mem_map_of_mem isMem))
        obtain ⟨target_level, isTarget⟩ := Option.isSome_iff_exists.mp
          ((isSome_targetLevel (BULLET_PATTERN.getD bull []).length _).mpr
            ⟨levels, mergeable.inRange⟩)
        refine .chunked (by rw [category, Option.map_some]) isTarget (mergedPaths_eq isTarget)
          (by rw [category, tree_merge_of_target noSections isTarget]) ?_
        exact (mergesLines_iff depth isTarget).mpr fun item below =>
          mergeable.narrow target_level item below isTarget

def regulations : List Section :=
  [⟨"第一章 总则", ""⟩, ⟨"本章的说明", ""⟩, ⟨"第一节 目的", ""⟩, ⟨"第二节 范围", ""⟩]

/-- No line is left of a full stop, and a text before two sections is in the chunks of both. -/
theorem not_merges_regulations : ¬ Merges [⟨".", ""⟩] 2 ∧ ¬ Merges regulations 2 := by
  constructor
  · intro merges
    have raised : tree_merge (categoryOf [⟨".", ""⟩]) [⟨".", ""⟩] 2 = none := by decide +kernel
    cases merges with
    | unchanged result => cases raised.symm.trans result
    | chunked _ _ _ result _ => cases raised.symm.trans result
  · intro merges
    have category : categoryOf regulations = some 0 := by decide +kernel
    cases merges with
    | unchanged result =>
      have notSections : tree_merge (categoryOf regulations) regulations 2 ≠
          some (.sections regulations) := by decide +kernel
      exact notSections result
    | @chunked patterns target_level paths isCategory isTarget isPaths result merges =>
      rw [category, Option.map_some, Option.some.injEq] at isCategory
      subst isCategory
      have twice : (mergedPaths (BULLET_PATTERN.getD 0 []) regulations 2).map
          (fun paths => paths.countP (⟨1, "本章的说明"⟩ ∈ ·)) = some 2 := by decide +kernel
      have isLine : (7, ⟨1, "本章的说明"⟩) ∈ placedLines (BULLET_PATTERN.getD 0 []) regulations := by
        decide +kernel
      have once := merges.once _ isLine (.inr (by decide))
      rw [isPaths, Option.map_some, once] at twice
      cases twice

end RagFlow.Chunking
