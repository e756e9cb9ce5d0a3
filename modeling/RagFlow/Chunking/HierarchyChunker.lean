import Mathlib.Data.PNat.Defs
import Mathlib.Data.List.Range
import RagFlow.Chunking.TitleChunker
import RagFlow.Lib.HeadingTree

/-!
# Chunks along the paths of a tree of titles

`rag/flow/chunker/title_chunker/hierarchy_chunker.py`: the records between two pictures or tables
are built into a tree by their levels, and the paths of the tree become chunks.  The levels that
are resolved begin at one.
-/

namespace RagFlow.Chunking

open Lib

/-- What `_dfs` emits at a node, and the titles that it passes on. -/
def visit (depth : Nat) (include_heading_content : Bool) (titles : List Nat)
    (node : HeadingNode Nat) : List (List Nat) × List Nat :=
  let isRoot := node.level = 0 ∧ node.body ≠ []
  let within := 1 ≤ node.level ∧ node.level ≤ depth
  let first := if isRoot then [titles ++ node.body] else []
  if include_heading_content then
    let path_titles := if within then titles ++ node.titles else titles
    (first ++
      (if node.body ≠ [] ∧ within then [path_titles ++ node.body]
      else if node.children.isNil ∧ within then [path_titles]
      else []), path_titles)
  else
    let path_titles := if within then titles ++ node.titles ++ node.body else titles
    (first ++ (if node.children.isNil ∧ within then [path_titles] else []), path_titles)

def dfs (depth : Nat) (include_heading_content : Bool) (titles : List Nat) :
    Forest Nat → List (List Nat)
  | .nil => []
  | .cons level own body children siblings =>
    let (emitted, path_titles) :=
      visit depth include_heading_content titles ⟨level, own, body, children⟩
    emitted ++ dfs depth include_heading_content path_titles children ++
      dfs depth include_heading_content titles siblings

def get_paths (depth : Nat) (include_heading_content : Bool) (node : HeadingNode Nat) :
    List (List Nat) :=
  let (emitted, path_titles) := visit depth include_heading_content [] node
  emitted ++ dfs depth include_heading_content path_titles node.children

abbrev Line := Record × ℕ+

def levels (run : List Line) : List Nat := run.map fun line => line.2

def indexedLines (run : List Line) : List (Nat × Nat) := (levels run).zip (List.range run.length)

def recordsAt (run : List Line) (positions : List Nat) : List Record :=
  positions.filterMap fun position => run[position]?.map Prod.fst

/-- The positions that `flush_text_records` puts into one group each. -/
def flushPaths (hierarchy : Int) (include_heading_content : Bool) (run : List Line) :
    List (List Nat) :=
  if run = [] then []
  else
    match resolve_target_level (levels run) hierarchy with
    | none => [List.range run.length]
    | some target_level =>
      (get_paths target_level include_heading_content
        (HeadingTree.build target_level (indexedLines run))).filter (· ≠ [])

/-- The record groups of `build_chunks`, with the text records that were not flushed yet. -/
def hierarchyGroups (hierarchy : Int) (include_heading_content : Bool) (text_records : List Line) :
    List Line → List (List Record)
  | [] => (flushPaths hierarchy include_heading_content text_records).map (recordsAt text_records)
  | line :: lines =>
    if line.1.isText then
      hierarchyGroups hierarchy include_heading_content (text_records ++ [line]) lines
    else
      (flushPaths hierarchy include_heading_content text_records).map (recordsAt text_records) ++
        [line.1] :: hierarchyGroups hierarchy include_heading_content [] lines

/-- The groups of a run of texts, by positions: each lists some of the texts in order, all texts
are in a group, and those deeper than the target level are in one group, where nothing exempts
them. -/
structure RunGrouped (hierarchy : Int) (exempt : List Line → Nat → Prop) (run : List Line)
    (groups : List (List Nat)) : Prop where
  increasing : ∀ group ∈ groups, group.Pairwise (· < ·)
  covered : ∀ position, position < run.length ↔ ∃ group ∈ groups, position ∈ group
  once : ∀ position level, (levels run)[position]? = some level →
    (∀ target ∈ resolve_target_level (levels run) hierarchy, target < level) →
    ¬ exempt run position → groups.countP (position ∈ ·) = 1

inductive Chunked (hierarchy : Int) (exempt : List Line → Nat → Prop) :
    List Line → List (List Record) → Prop
  | run {run : List Line} {groups : List (List Nat)}
      (isText : ∀ line ∈ run, line.1.isText = true)
      (grouped : RunGrouped hierarchy exempt run groups) :
      Chunked hierarchy exempt run (groups.map (recordsAt run))
  | media {run lines : List Line} {groups : List (List Nat)} {line : Line}
      {record_groups : List (List Record)}
      (isText : ∀ line ∈ run, line.1.isText = true)
      (grouped : RunGrouped hierarchy exempt run groups) (isMedia : line.1.isText = false)
      (rest : Chunked hierarchy exempt lines record_groups) :
      Chunked hierarchy exempt (run ++ line :: lines)
        (groups.map (recordsAt run) ++ [line.1] :: record_groups)

def BelowParentTitle (hierarchy : Int) (run : List Line) (position : Nat) : Prop :=
  ∃ target ∈ resolve_target_level (levels run) hierarchy, ∃ below ≠ [],
    HeadingTree.RightBelow target (indexedLines run) position below

variable {hierarchy : Int} {include_heading_content : Bool} {run : List Line} {depth : Nat}

theorem length_levels (run : List Line) : (levels run).length = run.length := List.length_map _

theorem map_snd_indexedLines (run : List Line) :
    (indexedLines run).map Prod.snd = List.range run.length :=
  List.map_snd_zip (by simp [levels])

theorem positive_of_mem_indexedLines {line : Nat × Nat} (isMem : line ∈ indexedLines run) :
    1 ≤ line.1 := by
  have isLevel := (List.of_mem_zip isMem).1
  obtain ⟨titled, -, isLevel⟩ := List.mem_map.mp isLevel
  rw [← isLevel]
  exact titled.2.pos

theorem mem_indexedLines {position level : Nat} (isLevel : (levels run)[position]? = some level) :
    (level, position) ∈ indexedLines run := by
  obtain ⟨inside, rfl⟩ := List.getElem?_eq_some_iff.mp isLevel
  rw [length_levels] at inside
  refine List.mem_iff_getElem.mpr ⟨position, by simpa [indexedLines, levels] using inside, ?_⟩
  simp [indexedLines]

theorem dfs_true_eq {forest : Forest Nat}
    (headed : forest.Headed fun level => 1 ≤ level ∧ level ≤ depth) (titles : List Nat) :
    dfs depth true titles forest = forest.sectionPaths titles := by
  induction forest generalizing titles with
  | nil => rfl
  | cons level own body children siblings inChildren inSiblings =>
    obtain ⟨within, -, children, siblings⟩ := headed
    have notRoot : ¬ (level = 0 ∧ body ≠ []) := fun isRoot => by omega
    simp only [dfs, visit, Forest.sectionPaths, if_true, within, and_self, and_true,
      if_neg notRoot, inChildren children, inSiblings siblings, List.nil_append]

theorem dfs_false_eq {forest : Forest Nat}
    (headed : forest.Headed fun level => 1 ≤ level ∧ level ≤ depth) (titles : List Nat) :
    dfs depth false titles forest = forest.leafPaths titles := by
  induction forest generalizing titles with
  | nil => rfl
  | cons level own body children siblings inChildren inSiblings =>
    obtain ⟨within, -, children, siblings⟩ := headed
    have notRoot : ¬ (level = 0 ∧ body ≠ []) := fun isRoot => by omega
    simp only [dfs, visit, Forest.leafPaths, Bool.false_eq_true, if_false, within, and_self,
      and_true, if_true, if_neg notRoot, inChildren children, inSiblings siblings,
      List.nil_append]

def treePaths (include_heading_content : Bool) (forest : Forest Nat) : List (List Nat) :=
  if include_heading_content then forest.sectionPaths [] else forest.leafPaths []

theorem get_paths_build {lines : List (Nat × Nat)} (positive : ∀ line ∈ lines, 1 ≤ line.1) :
    get_paths depth include_heading_content (HeadingTree.build depth lines) =
      (if HeadingTree.content depth lines ≠ [] then [HeadingTree.content depth lines] else []) ++
        treePaths include_heading_content
          (HeadingTree.outline depth (HeadingTree.fromHeading depth lines)) := by
  have headed := HeadingTree.headed_fromHeading depth positive
  rw [HeadingTree.build_eq_finish]
  cases include_heading_content with
  | true =>
    simp [get_paths, visit, HeadingTree.finish, HeadingTree.root, Forest.append, treePaths,
      dfs_true_eq headed]
  | false =>
    simp [get_paths, visit, HeadingTree.finish, HeadingTree.root, Forest.append, treePaths,
      dfs_false_eq headed]

theorem descends_of_mem_treePaths {forest : Forest Nat} {path : List Nat}
    (isPath : path ∈ treePaths include_heading_content forest) : forest.Descends [] path := by
  cases include_heading_content with
  | true => exact Forest.descends_of_mem_sectionPaths isPath
  | false => exact Forest.descends_of_mem_leafPaths isPath

theorem exists_treePath_of_mem {forest : Forest Nat} {position : Nat}
    (isMem : position ∈ forest.items) :
    ∃ path ∈ treePaths include_heading_content forest, position ∈ path := by
  cases include_heading_content with
  | true => exact Forest.exists_sectionPath_of_mem isMem []
  | false => exact Forest.exists_leafPath_of_mem isMem []

theorem countP_treePaths {forest below : Forest Nat} {position : Nat}
    (distinct : forest.items.Nodup) (holds : forest.Holds position below)
    (alone : include_heading_content = false → below = .nil) :
    (treePaths include_heading_content forest).countP (position ∈ ·) = 1 := by
  have distinctTitles : ([] ++ forest.items).Nodup := distinct
  cases include_heading_content with
  | true => exact Forest.countP_sectionPaths distinctTitles holds
  | false =>
    obtain rfl := alone rfl
    exact Forest.countP_leafPaths distinctTitles holds

def Unseparated (hierarchy : Int) (include_heading_content : Bool) (run : List Line)
    (position : Nat) : Prop :=
  include_heading_content = false ∧ BelowParentTitle hierarchy run position

theorem countP_filter_nonempty (paths : List (List Nat)) (position : Nat) :
    (paths.filter (· ≠ [])).countP (position ∈ ·) = paths.countP (position ∈ ·) := by
  rw [List.countP_filter]
  apply List.countP_congr
  intro path _
  have nonempty : position ∈ path → path ≠ [] := List.ne_nil_of_mem
  simpa using nonempty

theorem runGrouped_of_target {target : Nat}
    (resolved : resolve_target_level (levels run) hierarchy = some target) :
    RunGrouped hierarchy (Unseparated hierarchy include_heading_content) run
      ((get_paths target include_heading_content
        (HeadingTree.build target (indexedLines run))).filter (· ≠ [])) := by
  let lines := indexedLines run
  let tree := HeadingTree.outline target (HeadingTree.fromHeading target lines)
  have begins := HeadingTree.begins_fromHeading target lines
  have positive : ∀ line ∈ lines, 1 ≤ line.1 := fun line isMem => positive_of_mem_indexedLines isMem
  have items : HeadingTree.content target lines ++ tree.items = List.range run.length := by
    rw [HeadingTree.items_outline begins, HeadingTree.content_append_fromHeading,
      map_snd_indexedLines]
  have ascending : (HeadingTree.content target lines ++ tree.items).Pairwise (· < ·) := by
    rw [items]
    exact List.pairwise_lt_range
  have distinct : (HeadingTree.content target lines ++ tree.items).Nodup := by
    rw [items]
    exact List.nodup_range
  have mem_root (path : List Nat) :
      path ∈ (if HeadingTree.content target lines ≠ [] then [HeadingTree.content target lines]
        else []) ↔ path = HeadingTree.content target lines ∧ path ≠ [] := by
    split_ifs with nonempty
    · simp only [List.mem_singleton]
      exact ⟨fun same => ⟨same, same ▸ nonempty⟩, fun same => same.1⟩
    · simp only [List.not_mem_nil, false_iff]
      rintro ⟨rfl, notEmpty⟩
      exact nonempty notEmpty
  rw [get_paths_build positive]
  refine ⟨?_, ?_, ?_⟩
  · intro path isMem
    rw [List.mem_filter, List.mem_append, mem_root] at isMem
    rcases isMem.1 with ⟨rfl, -⟩ | isPath
    · exact (List.pairwise_append.mp ascending).1
    · obtain ⟨rest, rfl, sublist⟩ := descends_of_mem_treePaths isPath
      exact (List.pairwise_append.mp ascending).2.1.sublist sublist
  · intro position
    rw [← List.mem_range, ← items, List.mem_append]
    constructor
    · rintro (isContent | isItem)
      · refine ⟨HeadingTree.content target lines, ?_, isContent⟩
        have nonempty := List.ne_nil_of_mem isContent
        exact List.mem_filter.mpr
          ⟨List.mem_append_left _ ((mem_root _).mpr ⟨rfl, nonempty⟩), by simpa using nonempty⟩
      · obtain ⟨path, isPath, onPath⟩ := exists_treePath_of_mem isItem
        exact ⟨path, List.mem_filter.mpr ⟨List.mem_append_right _ isPath,
          by simpa using List.ne_nil_of_mem onPath⟩, onPath⟩
    · rintro ⟨path, isMem, onPath⟩
      rw [List.mem_filter, List.mem_append, mem_root] at isMem
      rcases isMem.1 with ⟨rfl, -⟩ | isPath
      · exact .inl onPath
      · exact .inr ((descends_of_mem_treePaths isPath).mem_of_mem onPath |>.resolve_left
          List.not_mem_nil)
  · intro position level isLevel deeper notExempt
    have deep : target < level := deeper target resolved
    have isLine : (level, position) ∈ lines := mem_indexedLines isLevel
    have apart := List.disjoint_of_nodup_append distinct
    rw [countP_filter_nonempty, List.countP_append]
    have split : lines = lines.takeWhile (fun line => target < line.1) ++
        HeadingTree.fromHeading target lines := List.takeWhile_append_dropWhile.symm
    rw [split, List.mem_append] at isLine
    rcases isLine with isContent | isLine
    · have isContent : position ∈ HeadingTree.content target lines :=
        List.mem_map_of_mem isContent
      have notOnTree : (treePaths include_heading_content tree).countP (position ∈ ·) = 0 :=
        Forest.countP_eq_zero_of_descends (fun _ isPath => descends_of_mem_treePaths isPath)
          List.not_mem_nil (apart isContent)
      rw [notOnTree, if_pos (List.ne_nil_of_mem isContent),
        Forest.countP_singleton_eq_one isContent]
    · obtain ⟨inner, rightBelow⟩ := HeadingTree.exists_rightBelow begins isLine deep
      have holds : tree.Holds position (HeadingTree.outline target inner) :=
        (HeadingTree.holds_outline_iff begins).mpr ⟨inner, rightBelow, rfl⟩
      have alone : include_heading_content = false →
          HeadingTree.outline target inner = .nil := by
        intro together
        by_cases none : inner = []
        · rw [none, HeadingTree.outline]
        · exact absurd ⟨together, target, resolved, inner, none,
            HeadingTree.rightBelow_fromHeading.mp rightBelow⟩ notExempt
      have notContent : position ∉ HeadingTree.content target lines :=
        fun isContent => apart isContent (Forest.mem_items_of_holds holds)
      rw [countP_treePaths (List.nodup_append.mp distinct).2.1 holds alone]
      split_ifs
      · rw [Forest.countP_singleton_eq_zero notContent]
      · rfl

theorem runGrouped_flushPaths (hierarchy : Int) (include_heading_content : Bool)
    (run : List Line) :
    RunGrouped hierarchy (Unseparated hierarchy include_heading_content) run
      (flushPaths hierarchy include_heading_content run) := by
  unfold flushPaths
  split_ifs with isEmpty
  · subst isEmpty
    exact ⟨by simp, by simp, fun position level isLevel => by simp [levels] at isLevel⟩
  · cases resolved : resolve_target_level (levels run) hierarchy with
    | none =>
      refine ⟨by simpa using List.pairwise_lt_range, by simp, ?_⟩
      intro position level isLevel _ _
      have inside : position < run.length := by
        rw [← length_levels run]
        exact (List.getElem?_eq_some_iff.mp isLevel).1
      exact Forest.countP_singleton_eq_one (List.mem_range.mpr inside)
    | some target => exact runGrouped_of_target resolved

theorem chunked_hierarchyGroups (hierarchy : Int) (include_heading_content : Bool)
    (text_records lines : List Line) (isText : ∀ line ∈ text_records, line.1.isText = true) :
    Chunked hierarchy (Unseparated hierarchy include_heading_content) (text_records ++ lines)
      (hierarchyGroups hierarchy include_heading_content text_records lines) := by
  have grouped := runGrouped_flushPaths hierarchy include_heading_content
  induction lines generalizing text_records with
  | nil =>
    rw [List.append_nil]
    exact .run isText (grouped text_records)
  | cons line lines ih =>
    by_cases lineIsText : line.1.isText = true
    · rw [hierarchyGroups, if_pos lineIsText, List.append_cons]
      apply ih
      intro other isMem
      rcases List.mem_append.mp isMem with old | new
      · exact isText other old
      · rw [List.mem_singleton.mp new]
        exact lineIsText
    · rw [hierarchyGroups, if_neg lineIsText]
      exact .media isText (grouped text_records) (Bool.eq_false_of_not_eq_true lineIsText)
        (ih [] (by simp))

theorem Chunked.exists_grouped {exempt : List Line → Nat → Prop}
    {record_groups : List (List Record)} (chunked : Chunked hierarchy exempt run record_groups)
    (isText : ∀ line ∈ run, line.1.isText = true) :
    ∃ groups, RunGrouped hierarchy exempt run groups ∧
      record_groups = groups.map (recordsAt run) := by
  cases chunked with
  | run isText grouped => exact ⟨_, grouped, rfl⟩
  | media _ _ isMedia _ =>
    have isText := isText _ (List.mem_append_right _ List.mem_cons_self)
    rw [isMedia] at isText
    cases isText

def manual : List Line :=
  [(⟨"1 Safety", "text"⟩, 1), (⟨"Read this first.", "text"⟩, ⟨BODY_LEVEL, by decide⟩),
    (⟨"1.1 Power", "text"⟩, 2), (⟨"1.2 Water", "text"⟩, 2)]

end RagFlow.Chunking
