import Mathlib.Data.Finset.Max
import Mathlib.Data.List.Nodup
import Mathlib.Data.List.Perm.Basic
import Mathlib.Data.List.Sublists

/-!
# Trees given by parent links that raise the level by one

A finite list of elements, each with at most one parent one level above it, and a single
element without a parent.  Descending from that root by as many steps as its level says
meets every element of level zero exactly once.
-/

namespace RagFlow.Lib.LevelForest

universe u

variable {Alpha : Type u} [DecidableEq Alpha]

/-- The elements directly below `parent`, in the order of the list. -/
def children (ids : List Alpha) (up : Alpha → Option Alpha) (parent : Alpha) : List Alpha :=
  ids.filter fun child => up child = some parent

/-- The elements `depth` steps below a given one. -/
def frontier (ids : List Alpha) (up : Alpha → Option Alpha) : Nat → Alpha → List Alpha
  | 0, start => [start]
  | depth + 1, start => (children ids up start).flatMap (frontier ids up depth)

/-- The element `depth` steps above a given one. -/
def ancestor (up : Alpha → Option Alpha) : Nat → Alpha → Option Alpha
  | 0, start => some start
  | depth + 1, start => (ancestor up depth start).bind up

/-- The single tree whose parents are one level above their children. -/
structure Levelled (ids : List Alpha) (up : Alpha → Option Alpha) (level : Alpha → Nat)
    (root : Alpha) : Prop where
  nodup : ids.Nodup
  root_mem : root ∈ ids
  up_mem : ∀ ⦃child parent⦄, child ∈ ids → up child = some parent →
    parent ∈ ids ∧ level parent = level child + 1
  only_root : ∀ ⦃child⦄, child ∈ ids → up child = none → child = root

variable {ids : List Alpha} {up : Alpha → Option Alpha} {level : Alpha → Nat} {root : Alpha}

theorem mem_children {parent child : Alpha} :
    child ∈ children ids up parent ↔ child ∈ ids ∧ up child = some parent := by
  simp [children]

theorem children_nodup (tree : Levelled ids up level root) (parent : Alpha) :
    (children ids up parent).Nodup :=
  tree.nodup.filter _

omit [DecidableEq Alpha] in
theorem ancestor_spec (tree : Levelled ids up level root) {depth : Nat} {start above : Alpha}
    (membership : start ∈ ids) (reached : ancestor up depth start = some above) :
    above ∈ ids ∧ level above = level start + depth := by
  induction depth generalizing above with
  | zero =>
    obtain rfl := Option.some.inj reached
    exact ⟨membership, rfl⟩
  | succ depth ih =>
    obtain ⟨middle, reachedMiddle, step⟩ := Option.bind_eq_some_iff.mp reached
    obtain ⟨middleMem, middleLevel⟩ := ih reachedMiddle
    obtain ⟨aboveMem, aboveLevel⟩ := tree.up_mem middleMem step
    exact ⟨aboveMem, by omega⟩

theorem mem_frontier (tree : Levelled ids up level root) {depth : Nat} {start below : Alpha}
    (membership : start ∈ ids) :
    below ∈ frontier ids up depth start ↔
      below ∈ ids ∧ ancestor up depth below = some start := by
  induction depth generalizing start with
  | zero =>
    simp only [frontier, ancestor, List.mem_singleton, Option.some.injEq]
    exact ⟨fun same => ⟨same ▸ membership, same⟩, fun found => found.2⟩
  | succ depth ih =>
    simp only [frontier, List.mem_flatMap, mem_children, ancestor, Option.bind_eq_some_iff]
    constructor
    · rintro ⟨middle, ⟨middleMem, step⟩, found⟩
      obtain ⟨belowMem, reached⟩ := (ih middleMem).mp found
      exact ⟨belowMem, middle, reached, step⟩
    · rintro ⟨belowMem, middle, reached, step⟩
      have middleMem := (ancestor_spec tree belowMem reached).1
      exact ⟨middle, ⟨middleMem, step⟩,
        (ih middleMem).mpr ⟨belowMem, reached⟩⟩

theorem frontier_nodup (tree : Levelled ids up level root) {depth : Nat} {start : Alpha}
    (membership : start ∈ ids) : (frontier ids up depth start).Nodup := by
  induction depth generalizing start with
  | zero => exact List.nodup_singleton start
  | succ depth ih =>
    refine List.nodup_flatMap.mpr
      ⟨fun middle found => ih (mem_children.mp found).1, ?_⟩
    -- An element has one ancestor at each distance, so it lies below one child only.
    apply (children_nodup tree start).imp_of_mem
    intro first second firstMem secondMem differ below belowFirst belowSecond
    have reachedFirst := ((mem_frontier tree (mem_children.mp firstMem).1).mp belowFirst).2
    have reachedSecond := ((mem_frontier tree (mem_children.mp secondMem).1).mp belowSecond).2
    exact differ (Option.some.inj (reachedFirst.symm.trans reachedSecond))

theorem level_le_root (tree : Levelled ids up level root) {start : Alpha}
    (membership : start ∈ ids) : level start ≤ level root := by
  obtain ⟨top, topMem, highest⟩ :=
    Finset.exists_max_image ids.toFinset level ⟨start, List.mem_toFinset.mpr membership⟩
  rw [List.mem_toFinset] at topMem
  have isRoot : top = root := by
    rcases upEq : up top with _ | parent
    · exact tree.only_root topMem upEq
    · obtain ⟨parentMem, parentLevel⟩ := tree.up_mem topMem upEq
      have bound := highest parent (List.mem_toFinset.mpr parentMem)
      omega
  exact isRoot ▸ highest start (List.mem_toFinset.mpr membership)

theorem ancestor_root (tree : Levelled ids up level root) {start : Alpha}
    (membership : start ∈ ids) (bottom : level start = 0) :
    ancestor up (level root) start = some root := by
  have climb : ∀ depth ≤ level root, ∃ above, ancestor up depth start = some above := by
    intro depth
    induction depth with
    | zero => exact fun _ => ⟨start, rfl⟩
    | succ depth ih =>
      intro bound
      obtain ⟨above, reached⟩ := ih (Nat.le_of_succ_le bound)
      obtain ⟨aboveMem, aboveLevel⟩ := ancestor_spec tree membership reached
      have notRoot : above ≠ root := by
        rintro rfl
        omega
      obtain ⟨parent, step⟩ := Option.ne_none_iff_exists'.mp fun top =>
        notRoot (tree.only_root aboveMem top)
      exact ⟨parent, by rw [ancestor, reached, Option.bind_some, step]⟩
  obtain ⟨above, reached⟩ := climb (level root) le_rfl
  obtain ⟨aboveMem, aboveLevel⟩ := ancestor_spec tree membership reached
  rcases upEq : up above with _ | parent
  · rwa [tree.only_root aboveMem upEq] at reached
  · obtain ⟨parentMem, parentLevel⟩ := tree.up_mem aboveMem upEq
    have bound := level_le_root tree parentMem
    omega

theorem frontier_root_perm (tree : Levelled ids up level root) :
    (frontier ids up (level root) root).Perm (ids.filter fun start => level start = 0) := by
  refine (List.perm_ext_iff_of_nodup (frontier_nodup tree tree.root_mem)
    (tree.nodup.filter _)).mpr fun start => ?_
  rw [mem_frontier tree tree.root_mem, List.mem_filter, decide_eq_true_eq]
  constructor
  · rintro ⟨membership, reached⟩
    have levelEq := (ancestor_spec tree membership reached).2
    exact ⟨membership, by omega⟩
  · rintro ⟨membership, bottom⟩
    exact ⟨membership, ancestor_root tree membership bottom⟩

end RagFlow.Lib.LevelForest
