import Mathlib.Data.List.Nodup
import Mathlib.Data.List.Infix

/-!
# Trees as tables of nodes with parents

Every node has an id, the id of its parent and a name; a branch may be the parent of other nodes.
`Below` follows the parents from a node up to another and collects the names.
-/

namespace RagFlow.Lib.ParentTree

universe u v w

structure Shape (Node : Type u) (Id : Type v) (Name : Type w) where
  id : Node → Id
  parent : Node → Id
  name : Node → Name
  isBranch : Node → Bool

variable {Node : Type u} {Id : Type v} {Name : Type w}

/-- The node with an id is reached from `top` through branches along a path of names. -/
inductive Below (shape : Shape Node Id Name) (nodes : List Node) (top : Id) :
    List Name → Id → Prop
  | refl : Below shape nodes top [] top
  | child {path : List Name} {branch node : Node} (upper : Below shape nodes top path
      (shape.id branch)) (isBranch : shape.isBranch branch = true) (stored : branch ∈ nodes)
      (member : node ∈ nodes) (isChild : shape.parent node = shape.id branch)
      (proper : shape.id node ≠ shape.id branch) :
      Below shape nodes top (path ++ [shape.name node]) (shape.id node)

variable {shape : Shape Node Id Name} {nodes more : List Node} {top middle id first second : Id}
  {path other : List Name} {node : Node}

theorem Below.mono (below : Below shape nodes top path id) (subset : nodes ⊆ more) :
    Below shape more top path id := by
  induction below with
  | refl => exact .refl
  | child _ isBranch stored member isChild proper ih =>
    exact .child ih isBranch (subset stored) (subset member) isChild proper

theorem Below.trans (upper : Below shape nodes top path middle)
    (lower : Below shape nodes middle other id) : Below shape nodes top (path ++ other) id := by
  induction lower with
  | refl => simpa using upper
  | child _ isBranch stored member isChild proper ih =>
    rw [← List.append_assoc]
    exact .child ih isBranch stored member isChild proper

theorem Below.cases_last (below : Below shape nodes top path id) :
    (path = [] ∧ id = top) ∨ ∃ upper branch node, path = upper ++ [shape.name node] ∧
      id = shape.id node ∧ Below shape nodes top upper (shape.id branch) ∧
      shape.isBranch branch = true ∧ branch ∈ nodes ∧ node ∈ nodes ∧
      shape.parent node = shape.id branch ∧ shape.id node ≠ shape.id branch := by
  cases below with
  | refl => exact .inl ⟨rfl, rfl⟩
  | child upper isBranch stored member isChild proper =>
    exact .inr ⟨_, _, _, rfl, rfl, upper, isBranch, stored, member, isChild, proper⟩

theorem Below.step {branch : Node} (isBranch : shape.isBranch branch = true)
    (stored : branch ∈ nodes) (member : node ∈ nodes) (isChild : shape.parent node = shape.id branch)
    (proper : shape.id node ≠ shape.id branch) :
    Below shape nodes (shape.id branch) [shape.name node] (shape.id node) := by
  change Below shape nodes (shape.id branch) ([] ++ [shape.name node]) (shape.id node)
  exact .child .refl isBranch stored member isChild proper

theorem Below.cases_first (below : Below shape nodes top path id) :
    (path = [] ∧ id = top) ∨ ∃ branch node rest, path = shape.name node :: rest ∧
      shape.id branch = top ∧ shape.isBranch branch = true ∧ branch ∈ nodes ∧ node ∈ nodes ∧
      shape.parent node = top ∧ shape.id node ≠ top ∧
      Below shape nodes (shape.id node) rest id := by
  induction below with
  | refl => exact .inl ⟨rfl, rfl⟩
  | child upper isBranch stored member isChild proper ih =>
    right
    rcases ih with ⟨rfl, isTop⟩ | ⟨branch, node, rest, rfl, isTop, topBranch,
      topStored, nodeMember, nodeChild, nodeProper, lower⟩
    · exact ⟨_, _, [], rfl, isTop, isBranch, stored, member, isChild.trans isTop,
        fun same => proper (same.trans isTop.symm), .refl⟩
    · exact ⟨branch, node, _, rfl, isTop, topBranch, topStored, nodeMember, nodeChild,
        nodeProper, .child lower isBranch stored member isChild proper⟩

/-- The rest of a table without a node and the nodes below it. -/
structure Removed (shape : Shape Node Id Name) (nodes : List Node) (top : Id)
    (rest : List Node) : Prop where
  sublist : rest.Sublist nodes
  mem_iff : ∀ node, node ∈ rest ↔
    node ∈ nodes ∧ ¬ ∃ path, Below shape nodes top path (shape.id node)

theorem eq_of_id (unique : (nodes.map shape.id).Nodup) {node other : Node} (member : node ∈ nodes)
    (otherMember : other ∈ nodes) (sameId : shape.id node = shape.id other) : node = other :=
  List.inj_on_of_nodup_map unique member otherMember sameId

theorem Removed.below {rest : List Node} (unique : (nodes.map shape.id).Nodup)
    (removed : Removed shape nodes top rest) (below : Below shape nodes middle path id) :
    ∀ node ∈ rest, shape.id node = id → Below shape rest middle path id := by
  induction below with
  | refl => exact fun _ _ _ => .refl
  | @child upperPath branch member upper isBranch stored memberStored isChild proper
      ih =>
      intro node stays same
      obtain ⟨nodeStored, apart⟩ := (removed.mem_iff node).mp stays
      obtain rfl := eq_of_id unique nodeStored memberStored same
      have branchStays := (removed.mem_iff branch).mpr ⟨stored, fun ⟨_, above⟩ =>
        apart ⟨_, .child above isBranch stored memberStored isChild proper⟩⟩
      exact .child (ih branch branchStays rfl) isBranch branchStays stays isChild
        proper

theorem Below.total (unique : (nodes.map shape.id).Nodup)
    (below : Below shape nodes first path id) (otherBelow : Below shape nodes second other id) :
    (∃ between, Below shape nodes first between second ∧ path = between ++ other) ∨
      ∃ between, Below shape nodes second between first ∧ other = between ++ path := by
  induction below generalizing other with
  | refl => exact .inr ⟨other, otherBelow, by simp⟩
  | child upper isBranch stored member isChild proper ih =>
    rcases otherBelow.cases_last with ⟨rfl, rfl⟩ | ⟨_, branch, node, rfl, sameId, otherUpper, _,
      _, otherMember, otherIsChild, _⟩
    · left
      exact ⟨_, .child upper isBranch stored member isChild proper, by simp⟩
    · obtain rfl := eq_of_id unique member otherMember sameId
      rw [← otherIsChild, isChild] at otherUpper
      rcases ih otherUpper with ⟨between, above, split⟩ | ⟨between, above, split⟩
      · exact .inl ⟨between, above, by rw [split, List.append_assoc]⟩
      · exact .inr ⟨between, above, by rw [split, List.append_assoc]⟩

/-- All nodes are reached from one root, which is its own parent. -/
structure Rooted (shape : Shape Node Id Name) (nodes : List Node) (root : Node) : Prop where
  unique : (nodes.map shape.id).Nodup
  stored : root ∈ nodes
  isBranch : shape.isBranch root = true
  isRoot : shape.parent root = shape.id root
  reached : ∀ node ∈ nodes, ∃ path, Below shape nodes (shape.id root) path (shape.id node)

namespace Rooted

variable {root : Node} (rooted : Rooted shape nodes root)
include rooted

theorem eq_nil_of_root (cycle : Below shape nodes top path (shape.id root)) :
    path = [] ∧ top = shape.id root := by
  rcases cycle.cases_last with ⟨empty, same⟩ | ⟨_, branch, node, _, sameId, _, _, _, member,
    isChild, proper⟩
  · exact ⟨empty, same.symm⟩
  · obtain rfl := eq_of_id rooted.unique rooted.stored member sameId
    exact absurd (rooted.isRoot.symm.trans isChild) proper

theorem path_unique_of_root (below : Below shape nodes (shape.id root) path id)
    (otherBelow : Below shape nodes (shape.id root) other id) : path = other := by
  rcases below.total rooted.unique otherBelow with ⟨between, cycle, split⟩ | ⟨between, cycle, split⟩
  · rw [split, (rooted.eq_nil_of_root cycle).1, List.nil_append]
  · rw [split, (rooted.eq_nil_of_root cycle).1, List.nil_append]

theorem eq_nil_of_cycle {node : Node} (member : node ∈ nodes)
    (cycle : Below shape nodes (shape.id node) path (shape.id node)) : path = [] := by
  obtain ⟨above, reached⟩ := rooted.reached node member
  have again := rooted.path_unique_of_root reached (reached.trans cycle)
  simpa using again

theorem path_unique {node : Node} (member : node ∈ nodes)
    (below : Below shape nodes (shape.id node) path id)
    (otherBelow : Below shape nodes (shape.id node) other id) : path = other := by
  rcases below.total rooted.unique otherBelow with ⟨between, cycle, split⟩ | ⟨between, cycle, split⟩
  · rw [split, rooted.eq_nil_of_cycle member cycle, List.nil_append]
  · rw [split, rooted.eq_nil_of_cycle member cycle, List.nil_append]

theorem branch_of_child {node : Node} (member : node ∈ nodes)
    (notRoot : shape.id node ≠ shape.parent node) :
    ∃ branch ∈ nodes, shape.isBranch branch = true ∧ shape.id branch = shape.parent node := by
  obtain ⟨path, reached⟩ := rooted.reached node member
  rcases reached.cases_last with ⟨_, isTop⟩ | ⟨_, branch, child, _, sameId, _, isBranch, stored,
    childMember, isChild, _⟩
  · obtain rfl := eq_of_id rooted.unique member rooted.stored isTop
    exact absurd rooted.isRoot.symm notRoot
  · obtain rfl := eq_of_id rooted.unique member childMember sameId
    exact ⟨branch, stored, isBranch, isChild.symm⟩

theorem exists_bound : ∃ bound, ∀ node ∈ nodes, ∀ path,
    Below shape nodes (shape.id root) path (shape.id node) → path.length < bound := by
  have general : ∀ some : List Node, some ⊆ nodes → ∃ bound, ∀ node ∈ some, ∀ path,
      Below shape nodes (shape.id root) path (shape.id node) → path.length < bound := by
    intro some
    induction some with
    | nil => exact fun _ => ⟨0, fun node member => nomatch member⟩
    | cons first rest ih =>
      intro subset
      obtain ⟨bound, bounded⟩ := ih fun node member =>
        subset (List.mem_cons_of_mem _ member)
      obtain ⟨longest, reached⟩ := rooted.reached first (subset List.mem_cons_self)
      refine ⟨max bound (longest.length + 1), fun node member path below => ?_⟩
      rcases List.mem_cons.mp member with rfl | later
      · rw [rooted.path_unique_of_root below reached]
        exact Nat.lt_of_lt_of_le (Nat.lt_succ_self _) (Nat.le_max_right _ _)
      · exact Nat.lt_of_lt_of_le (bounded node later path below) (Nat.le_max_left _ _)
  exact general nodes (List.Subset.refl nodes)

theorem of_closed {rest : List Node} (sublist : rest.Sublist nodes) (stays : root ∈ rest)
    (closed : ∀ node ∈ rest, ∀ branch ∈ nodes, shape.id branch = shape.parent node →
      branch ∈ rest) : Rooted shape rest root where
  unique := rooted.unique.sublist (sublist.map _)
  stored := stays
  isBranch := rooted.isBranch
  isRoot := rooted.isRoot
  reached := by
    have general : ∀ path id, Below shape nodes (shape.id root) path id → ∀ node ∈ rest,
        shape.id node = id → Below shape rest (shape.id root) path id := by
      intro path id below
      induction below with
      | refl => exact fun _ _ _ => .refl
      | child upper isBranch stored member isChild proper ih =>
        intro node nodeStays same
        obtain rfl := eq_of_id rooted.unique (sublist.subset nodeStays) member same
        have branchStays := closed node nodeStays _ stored isChild.symm
        exact .child (ih _ branchStays rfl) isBranch branchStays nodeStays
          isChild proper
    intro node stays
    obtain ⟨path, below⟩ := rooted.reached node (sublist.subset stays)
    exact ⟨path, general path _ below node stays rfl⟩

theorem below_of_part {rest : List Node} (part : Rooted shape rest root)
    (sublist : rest.Sublist nodes) (below : Below shape nodes top path id) :
    ∀ node ∈ rest, shape.id node = id → Below shape rest top path id := by
  induction below with
  | refl => exact fun _ _ _ => .refl
  | child upper isBranch stored member isChild proper ih =>
    intro node stays same
    obtain rfl := eq_of_id rooted.unique (sublist.subset stays) member same
    obtain ⟨branch, branchStays, _, isParent⟩ :=
      part.branch_of_child stays (fun loop => proper (loop.trans isChild))
    obtain rfl := eq_of_id rooted.unique (sublist.subset branchStays) stored
      (isParent.trans isChild)
    exact .child (ih branch branchStays rfl) isBranch branchStays stays isChild
      proper

theorem of_removed {rest : List Node} (removed : Removed shape nodes top rest)
    (notRoot : top ≠ shape.id root) : Rooted shape rest root := by
  apply rooted.of_closed removed.sublist
  · apply (removed.mem_iff root).mpr
    exact ⟨rooted.stored, fun ⟨_, below⟩ => notRoot (rooted.eq_nil_of_root below).2⟩
  · intro node stays branch stored isParent
    obtain ⟨member, apart⟩ := (removed.mem_iff node).mp stays
    apply (removed.mem_iff branch).mpr
    refine ⟨stored, fun ⟨path, below⟩ => apart ?_⟩
    by_cases loop : shape.id node = shape.parent node
    · obtain rfl := eq_of_id rooted.unique stored member (isParent.trans loop.symm)
      exact ⟨path, below⟩
    · obtain ⟨upper, upperStored, isBranch, isUpper⟩ := rooted.branch_of_child member loop
      obtain rfl := eq_of_id rooted.unique stored upperStored (isParent.trans isUpper.symm)
      exact ⟨_, .child below isBranch stored member isParent.symm
        fun same => loop (same.trans isParent)⟩

theorem exists_bound_below : ∃ bound, ∀ node ∈ nodes, ∀ path id,
    Below shape nodes (shape.id node) path id → path.length < bound := by
  obtain ⟨bound, bounded⟩ := rooted.exists_bound
  refine ⟨bound, fun node member path id below => ?_⟩
  obtain ⟨above, reached⟩ := rooted.reached node member
  have total := reached.trans below
  have stored : ∃ last ∈ nodes, shape.id last = id := by
    rcases below.cases_last with ⟨_, same⟩ | ⟨_, _, last, _, same, _, _, _, lastMember, _⟩
    · exact ⟨node, member, same.symm⟩
    · exact ⟨last, lastMember, same.symm⟩
  obtain ⟨last, lastMember, rfl⟩ := stored
  have longer := bounded last lastMember _ total
  rw [List.length_append] at longer
  omega

end Rooted

end RagFlow.Lib.ParentTree
