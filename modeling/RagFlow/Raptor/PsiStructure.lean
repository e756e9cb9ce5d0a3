import Mathlib
import RagFlow.Lib.LevelForest
import RagFlow.Lib.Paging
import RagFlow.Raptor.PsiUnion

/-!
# Psi merge trees

The in-memory tree of `_PsiTreeNode`s, what it means to be well formed, and the
rebalancing that bounds the fanout.
-/

namespace RagFlow.Raptor

open RagFlow.Lib.Paging

/-- A node of the Psi merge tree: its index and its children.  The text and the embedding
of a node are only read by the similarity and the summarizer. -/
inductive PsiTreeNode where
  | mk (index : Nat) (children : List PsiTreeNode)
  deriving Inhabited

namespace PsiTreeNode

def index : PsiTreeNode → Nat
  | mk index _ => index

def children : PsiTreeNode → List PsiTreeNode
  | mk _ children => children

mutual

def leaves : PsiTreeNode → List PsiTreeNode
  | mk index [] => [mk index []]
  | mk _ (child :: children) => leavesOf (child :: children)

def leavesOf : List PsiTreeNode → List PsiTreeNode
  | [] => []
  | node :: nodes => leaves node ++ leavesOf nodes

end

theorem leavesOf_eq (nodes : List PsiTreeNode) : leavesOf nodes = nodes.flatMap leaves := by
  induction nodes with
  | nil => rfl
  | cons node nodes ih =>
    rw [leavesOf, ih, List.flatMap_cons]

theorem leaves_of_ne_nil {index : Nat} {children : List PsiTreeNode} (nonempty : children ≠ []) :
    leaves (mk index children) = children.flatMap leaves := by
  cases children with
  | nil => exact absurd rfl nonempty
  | cons child children => rw [leaves, leavesOf_eq]

theorem leaves_of_children_nil {node : PsiTreeNode} (childless : node.children = []) :
    leaves node = [node] := by
  obtain ⟨index, children⟩ := node
  obtain rfl : children = [] := childless
  rw [leaves]

theorem flatMap_leaves_of_childless {nodes : List PsiTreeNode}
    (childless : ∀ node ∈ nodes, node.children = []) : nodes.flatMap leaves = nodes :=
  calc nodes.flatMap leaves = nodes.flatMap fun node => [node] :=
        List.flatMap_congr fun node membership => leaves_of_children_nil (childless node membership)
    _ = nodes := List.flatMap_singleton' nodes

/-- The nodes `depth` steps below a node. -/
def frontier : Nat → PsiTreeNode → List PsiTreeNode
  | 0, node => [node]
  | depth + 1, node => node.children.flatMap (frontier depth)

/-- A node of rank `k` above the given inputs: an input has rank zero, and every other
node has at least two children, all of the rank below its own. -/
inductive Ranked (inputs : List PsiTreeNode) : Nat → PsiTreeNode → Prop where
  | input {node} : node ∈ inputs → Ranked inputs 0 node
  | parent {rank index children} : 2 ≤ children.length →
      (∀ child ∈ children, Ranked inputs rank child) → Ranked inputs (rank + 1) (mk index children)

theorem Ranked.leaves_eq {inputs : List PsiTreeNode} {rank : Nat} {node : PsiTreeNode}
    (ranked : Ranked inputs rank node) : leaves node = (frontier rank node).flatMap leaves := by
  induction ranked with
  | input _ => simp [frontier]
  | @parent rank index children several _ ih =>
    have nonempty : children ≠ [] := by
      rintro rfl
      simp at several
    rw [leaves_of_ne_nil nonempty, frontier, PsiTreeNode.children, List.flatMap_assoc]
    exact List.flatMap_congr ih

/-- No node has more than `bound` children. -/
inductive FanoutAtMost (bound : Nat) : PsiTreeNode → Prop where
  | node {index children} : children.length ≤ bound →
      (∀ child ∈ children, FanoutAtMost bound child) → FanoutAtMost bound (mk index children)

/-- Cut a list into consecutive batches of `size`, the last one possibly shorter. -/
def batches {Alpha : Type} (values : List Alpha) (size : Nat) : List (List Alpha) :=
  (List.range ((values.length + size - 1) / size)).map fun batch => slice values (batch * size) size

theorem batches_flatten {Alpha : Type} (values : List Alpha) {size : Nat} (positive : 0 < size) :
    (batches values size).flatten = values := by
  rw [batches, ← List.flatMap_def, flatMap_slice, List.take_of_length_le]
  have enough := Nat.lt_div_mul_add (a := values.length + size - 1) positive
  omega

theorem batches_length {Alpha : Type} (values : List Alpha) (size : Nat) :
    (batches values size).length = (values.length + size - 1) / size := by
  simp [batches]

theorem length_le_of_mem_batches {Alpha : Type} {values batch : List Alpha} {size : Nat}
    (membership : batch ∈ batches values size) : batch.length ≤ size := by
  obtain ⟨_, _, rfl⟩ := List.mem_map.mp membership
  exact slice_length_le _ _ _

theorem ne_nil_of_mem_batches {Alpha : Type} {values batch : List Alpha} {size : Nat}
    (positive : 0 < size) (membership : batch ∈ batches values size) : batch ≠ [] := by
  obtain ⟨number, below, rfl⟩ := List.mem_map.mp membership
  rw [List.mem_range, Nat.lt_div_iff_mul_lt positive] at below
  rw [← List.length_pos_iff, slice, List.length_take, List.length_drop]
  omega

/-- One pass over the batches: a batch of one child stays as it is, any other gets a new
parent, numbered from `nextIndex` on. -/
def groupBatches : List (List PsiTreeNode) → Nat → List PsiTreeNode × Nat
  | [], nextIndex => ([], nextIndex)
  | batch :: rest, nextIndex =>
    match batch with
    | [child] =>
      let (grouped, nextIndex) := groupBatches rest nextIndex
      (child :: grouped, nextIndex)
    | _ =>
      let (grouped, nextIndex') := groupBatches rest (nextIndex + 1)
      (mk nextIndex batch :: grouped, nextIndex')

theorem groupBatches_length (groups : List (List PsiTreeNode)) (nextIndex : Nat) :
    (groupBatches groups nextIndex).1.length = groups.length := by
  fun_induction groupBatches <;> simp_all

theorem groupBatches_length_lt {maxChildren : Nat} (two : 2 ≤ maxChildren)
    {children : List PsiTreeNode} (oversized : maxChildren < children.length) (nextIndex : Nat) :
    (groupBatches (batches children maxChildren) nextIndex).1.length < children.length := by
  rw [groupBatches_length, batches_length, Nat.div_lt_iff_lt_mul (by omega)]
  have doubled := Nat.mul_le_mul_left children.length two
  omega

def regroup {maxChildren : Nat} (two : 2 ≤ maxChildren) (children : List PsiTreeNode)
    (nextIndex : Nat) : List PsiTreeNode × Nat :=
  if _oversized : maxChildren < children.length then
    let grouped := groupBatches (batches children maxChildren) nextIndex
    regroup two grouped.1 grouped.2
  else (children, nextIndex)
termination_by children.length
decreasing_by exact groupBatches_length_lt two ‹_› nextIndex

mutual

/-- The inner function of `_rebalance_psi_tree`: first the children, then the node. -/
def rebalance {maxChildren : Nat} (two : 2 ≤ maxChildren) :
    PsiTreeNode → Nat → PsiTreeNode × Nat
  | mk index children, nextIndex =>
    let (children, nextIndex) := rebalanceAll two children nextIndex
    let (children, nextIndex) := regroup two children nextIndex
    (mk index children, nextIndex)

def rebalanceAll {maxChildren : Nat} (two : 2 ≤ maxChildren) :
    List PsiTreeNode → Nat → List PsiTreeNode × Nat
  | [], nextIndex => ([], nextIndex)
  | node :: nodes, nextIndex =>
    let (node, nextIndex) := rebalance two node nextIndex
    let (nodes, nextIndex) := rebalanceAll two nodes nextIndex
    (node :: nodes, nextIndex)

end

/-- `max(2, int(self._max_cluster or 2))`. -/
def maxChildren (maxCluster : Int) : Nat :=
  (max 2 (if maxCluster = 0 then 2 else maxCluster)).toNat

theorem two_le_maxChildren (maxCluster : Int) : 2 ≤ maxChildren maxCluster := by
  unfold maxChildren
  omega

theorem maxChildren_eq (maxCluster : Int) : maxChildren maxCluster = (max 2 maxCluster).toNat := by
  unfold maxChildren
  split_ifs <;> omega

def rebalancePsiTree (maxCluster : Int) (root : PsiTreeNode) (nextIndex : Nat) :
    PsiTreeNode × Nat :=
  rebalance (two_le_maxChildren maxCluster) root nextIndex

theorem groupBatches_leaves {groups : List (List PsiTreeNode)}
    (nonempty : ∀ group ∈ groups, group ≠ []) (nextIndex : Nat) :
    (groupBatches groups nextIndex).1.flatMap leaves = groups.flatten.flatMap leaves := by
  induction groups generalizing nextIndex with
  | nil => rfl
  | cons batch rest ih =>
    have later := ih fun group membership =>
      nonempty group (List.mem_cons_of_mem _ membership)
    unfold groupBatches
    split
    · next child =>
        simp only [List.flatMap_cons, List.flatten_cons, List.flatMap_append, List.flatMap_nil,
          List.append_nil, later]
    · simp only [List.flatMap_cons, List.flatten_cons, List.flatMap_append, later]
      rw [leaves_of_ne_nil (nonempty batch List.mem_cons_self)]

theorem groupBatches_fanout {bound : Nat} {groups : List (List PsiTreeNode)}
    (fits : ∀ group ∈ groups, group.length ≤ bound ∧ ∀ node ∈ group, FanoutAtMost bound node)
    (nextIndex : Nat) :
    ∀ node ∈ (groupBatches groups nextIndex).1, FanoutAtMost bound node := by
  induction groups generalizing nextIndex with
  | nil => simp [groupBatches]
  | cons batch rest ih =>
    have laterFits := ih fun group membership =>
      fits group (List.mem_cons_of_mem _ membership)
    obtain ⟨short, children⟩ := fits batch List.mem_cons_self
    intro node membership
    unfold groupBatches at membership
    split at membership
    · rcases List.mem_cons.mp membership with rfl | later
      · exact children _ (List.mem_singleton_self _)
      · exact laterFits _ node later
    · rcases List.mem_cons.mp membership with rfl | later
      · exact .node short children
      · exact laterFits _ node later

theorem regroup_spec {maxChildren : Nat} (two : 2 ≤ maxChildren) (children : List PsiTreeNode)
    (nextIndex : Nat) (fits : ∀ child ∈ children, FanoutAtMost maxChildren child) :
    (regroup two children nextIndex).1.flatMap leaves = children.flatMap leaves ∧
      (regroup two children nextIndex).1.length ≤ maxChildren ∧
      ((regroup two children nextIndex).1 = [] ↔ children = []) ∧
      ∀ child ∈ (regroup two children nextIndex).1, FanoutAtMost maxChildren child := by
  fun_induction regroup two children nextIndex with
  | case1 children nextIndex oversized grouped ih =>
    have flattened := batches_flatten children (show 0 < maxChildren by omega)
    have fitting : ∀ group ∈ batches children maxChildren,
        group.length ≤ maxChildren ∧ ∀ node ∈ group, FanoutAtMost maxChildren node := by
      refine fun group membership =>
        ⟨length_le_of_mem_batches membership, fun node inGroup => fits node ?_⟩
      rw [← flattened]
      exact List.mem_flatten_of_mem membership inGroup
    obtain ⟨sameLeaves, short, empty, bounded⟩ :=
      ih (groupBatches_fanout fitting nextIndex)
    refine ⟨?_, short, ?_, bounded⟩
    · rw [sameLeaves, groupBatches_leaves, flattened]
      exact fun group membership => ne_nil_of_mem_batches (by omega) membership
    · have length := groupBatches_length (batches children maxChildren) nextIndex
      rw [empty, ← List.length_eq_zero_iff, ← List.length_eq_zero_iff (l := children), length,
        batches_length, Nat.div_eq_zero_iff]
      omega
  | case2 children nextIndex fitsAlready =>
    exact ⟨rfl, not_lt.mp fitsAlready, Iff.rfl, fits⟩

mutual

theorem rebalance_spec {maxChildren : Nat} (two : 2 ≤ maxChildren) :
    ∀ (node : PsiTreeNode) (nextIndex : Nat),
      leaves (rebalance two node nextIndex).1 = leaves node ∧
        FanoutAtMost maxChildren (rebalance two node nextIndex).1
  | mk index children, nextIndex => by
    obtain ⟨sameLeaves, sameLength, bounded⟩ := rebalanceAll_spec two children nextIndex
    obtain ⟨regrouped, short, empty, fits⟩ := regroup_spec two
      (rebalanceAll two children nextIndex).1 (rebalanceAll two children nextIndex).2 bounded
    refine ⟨?_, .node short fits⟩
    rcases eq_or_ne children [] with rfl | nonempty
    · have childless := empty.mpr (by simp [rebalanceAll])
      simp only [rebalance, childless]
    · have regroupedNonempty := mt empty.mp <| by
        rw [← List.length_eq_zero_iff, sameLength, List.length_eq_zero_iff]
        exact nonempty
      simp only [rebalance]
      rw [leaves_of_ne_nil regroupedNonempty, leaves_of_ne_nil nonempty, regrouped, sameLeaves]

theorem rebalanceAll_spec {maxChildren : Nat} (two : 2 ≤ maxChildren) :
    ∀ (nodes : List PsiTreeNode) (nextIndex : Nat),
      (rebalanceAll two nodes nextIndex).1.flatMap leaves = nodes.flatMap leaves ∧
        (rebalanceAll two nodes nextIndex).1.length = nodes.length ∧
        ∀ node ∈ (rebalanceAll two nodes nextIndex).1, FanoutAtMost maxChildren node
  | [], nextIndex => by simp [rebalanceAll]
  | node :: nodes, nextIndex => by
    obtain ⟨sameLeaves, bounded⟩ := rebalance_spec two node nextIndex
    obtain ⟨restLeaves, restLength, restBounded⟩ :=
      rebalanceAll_spec two nodes (rebalance two node nextIndex).2
    refine ⟨?_, ?_, ?_⟩
    · simp only [rebalanceAll, List.flatMap_cons, sameLeaves, restLeaves]
    · simp only [rebalanceAll, List.length_cons, restLength]
    · intro other membership
      rcases List.mem_cons.mp membership with rfl | later
      · exact bounded
      · exact restBounded other later

end

end PsiTreeNode

end RagFlow.Raptor

/-!
# Building the exact Psi structure

`_build_exact_psi_structure` merges the ranked pairs of leaves until one class is left and
turns the parent links of the union-find into a tree of nodes.
-/

namespace RagFlow.Raptor

open RagFlow.Lib
open RagFlow.Lib.Links
open PsiUnionFind (Inv tops)

/-- The loop over the ranked pairs; it stops early once `leaves - 1` merges are counted. -/
def mergePairs (fuel leaves : Nat) :
    List (Nat × Nat) → PsiUnionFind → Nat → Option (PsiUnionFind × Nat)
  | [], uf, merges => some (uf, merges)
  | (left, right) :: pairs, uf, merges => do
    let (uf, merged) ← uf.union fuel left right
    let merges := if merged then merges + 1 else merges
    if merges = leaves - 1 then return (uf, merges)
    mergePairs fuel leaves pairs uf merges

structure Numbering where
  indexOf : Nat → Option Nat
  nextIndex : Nat

/-- `if idx not in local_nodes: local_nodes[idx] = _PsiTreeNode(index=next_index)`. -/
def Numbering.add (numbering : Numbering) (id : Nat) : Numbering :=
  match numbering.indexOf id with
  | some _ => numbering
  | none =>
    { indexOf := Function.update numbering.indexOf id (some numbering.nextIndex)
      nextIndex := numbering.nextIndex + 1 }

/-- The loop over `enumerate(tree)`: a node is numbered when it is first met, as a child
or as the parent of one. -/
def numberNodes (nodes : List PsiTreeNode) (uf : PsiUnionFind) (nextIndex : Nat) : Numbering :=
  (List.range uf.nextId).foldl
    (fun numbering child =>
      match uf.tree child with
      | none => numbering.add child
      | some parent => (numbering.add child).add parent)
    { indexOf := fun id => nodes[id]?.map PsiTreeNode.index, nextIndex := nextIndex }

/-- `local_nodes[id]` before it is given its children. -/
def localNode (nodes : List PsiTreeNode) (numbering : Numbering) (id : Nat) : PsiTreeNode :=
  nodes.getD id (.mk ((numbering.indexOf id).getD 0) [])

/-- `local_nodes[id]` with the children it has by `children_by_parent`; a node that is
nobody's parent keeps its own.  `none` means that the links did not come to an end. -/
def treeOf (uf : PsiUnionFind) (localNode : Nat → PsiTreeNode) : Nat → Nat → Option PsiTreeNode
  | 0, _ => none
  | fuel + 1, id =>
    match LevelForest.children (List.range uf.nextId) uf.tree id with
    | [] => some (localNode id)
    | child :: children =>
      ((child :: children).mapM (treeOf uf localNode fuel)).map
        (PsiTreeNode.mk (localNode id).index)

def rootIds (uf : PsiUnionFind) : List Nat :=
  (List.range uf.nextId).filter fun id => uf.tree id = none

/-- `_build_exact_psi_structure` on the given ranking of the pairs: the root, the next free
index and the number of merges. -/
def buildExactPsiStructure (nodes : List PsiTreeNode) (rankedPairs : List (Nat × Nat))
    (nextIndex : Nat) : Option (PsiTreeNode × Nat × Nat) :=
  match nodes with
  | [node] => some (node, nextIndex, 0)
  | _ => do
    let n := nodes.length
    let (uf, merges) ← mergePairs (n + 1) n rankedPairs (PsiUnionFind.init n) 0
    let numbering := numberNodes nodes uf nextIndex
    let roots ← (rootIds uf).mapM (treeOf uf (localNode nodes numbering) (uf.nextId + 1))
    let root ← roots.argmax PsiTreeNode.index
    return (root, numbering.nextIndex, merges)

/-- The pairs that the ranking of `n` leaves has to offer: each is a pair of leaves, and no
two leaves are left out. -/
structure RanksAllPairs (n : Nat) (pairs : List (Nat × Nat)) : Prop where
  in_range : ∀ pair ∈ pairs, pair.1 < n ∧ pair.2 < n
  complete : ∀ i < n, ∀ j < i, (i, j) ∈ pairs ∨ (j, i) ∈ pairs

section

variable {n : Nat} {link : Nat → Option Nat} {uf : PsiUnionFind}

theorem mergePairs_spec {pairs : List (Nat × Nat)} (merges : Nat) (inv : Inv n link uf)
    (inRange : ∀ pair ∈ pairs, pair.1 < n ∧ pair.2 < n)
    (counted : merges + (tops n link).card = n) :
    ∃ uf' merges' link', mergePairs (n + 1) n pairs uf merges = some (uf', merges') ∧
      Inv n link' uf' ∧ Extends link link' ∧ merges' + (tops n link').card = n ∧
      ((tops n link').card ≤ 1 ∨ ∀ pair ∈ pairs, Joined link' pair.1 pair.2) := by
  induction pairs generalizing uf merges link with
  | nil => exact ⟨uf, merges, link, rfl, inv, fun _ _ step => step, counted, Or.inr (by simp)⟩
  | cons pair pairs ih =>
    obtain ⟨left, right⟩ := pair
    obtain ⟨leftIn, rightIn⟩ := inRange (left, right) List.mem_cons_self
    obtain ⟨uf₁, merged, link₁, unionEq, inv₁, extended, joined, fewer⟩ :=
      PsiUnionFind.union_spec inv leftIn rightIn
    have counted₁ : (if merged then merges + 1 else merges) + (tops n link₁).card = n := by
      split_ifs at fewer ⊢ <;> omega
    rcases eq_or_ne (if merged then merges + 1 else merges) (n - 1) with done | more
    · refine ⟨uf₁, _, link₁, ?_, inv₁, extended, counted₁, Or.inl (by omega)⟩
      simp [mergePairs, unionEq, done]
    · obtain ⟨uf₂, merges₂, link₂, rest, inv₂, extended₂, counted₂, final⟩ :=
        ih _ inv₁ (fun pair later => inRange pair (List.mem_cons_of_mem _ later))
          counted₁
      refine ⟨uf₂, merges₂, link₂, ?_, inv₂, fun _ _ step => extended₂ (extended step),
        counted₂, ?_⟩
      · simpa [mergePairs, unionEq, more] using rest
      · apply final.imp_right
        intro allJoined pair membership
        rcases List.mem_cons.mp membership with rfl | later
        · exact joined.mono extended₂
        · exact allJoined pair later

theorem tops_nonempty (inv : Inv n link uf) (positive : 0 < n) : (tops n link).Nonempty := by
  obtain ⟨top, topMem, highest⟩ := Finset.exists_max_image (Finset.range n) uf.rank
    ⟨0, Finset.mem_range.mpr positive⟩
  refine ⟨top, Finset.mem_filter.mpr ⟨topMem, Option.eq_none_iff_forall_ne_some.mpr ?_⟩⟩
  intro upper step
  obtain ⟨_, upperIn, larger⟩ := inv.growing step
  have bound := highest upper (Finset.mem_range.mpr upperIn)
  omega

theorem tops_eq_singleton (inv : Inv n link uf) (positive : 0 < n) {pairs : List (Nat × Nat)}
    (ranked : RanksAllPairs n pairs)
    (final : (tops n link).card ≤ 1 ∨ ∀ pair ∈ pairs, Joined link pair.1 pair.2) :
    ∃ top, tops n link = {top} := by
  rw [← Finset.card_eq_one]
  have some_top := Finset.card_pos.mpr (tops_nonempty inv positive)
  refine le_antisymm (final.elim id fun joined => ?_) some_top
  apply Finset.card_le_one.mpr
  intro first firstTop second secondTop
  obtain ⟨firstIn, firstTop⟩ := Finset.mem_filter.mp firstTop
  obtain ⟨secondIn, secondTop⟩ := Finset.mem_filter.mp secondTop
  rw [Finset.mem_range] at firstIn secondIn
  have swapped {i j : Nat} (apart : j < i) (iIn : i < n) : Joined link i j := by
    rcases ranked.complete i iIn j apart with listed | listed
    · exact joined _ listed
    · obtain ⟨upper, climbsJ, climbsI⟩ := joined _ listed
      exact ⟨upper, climbsI, climbsJ⟩
  rcases lt_trichotomy first second with smaller | same | larger
  · exact (eq_of_joined_tops secondTop firstTop (swapped smaller secondIn)).symm
  · exact same
  · exact eq_of_joined_tops firstTop secondTop (swapped larger firstIn)

theorem exists_level (inv : Inv n link uf) :
    ∃ level : Nat → Nat, ∀ i < n, ∀ k id, uf.Owns i k id → level id = k := by
  classical
  refine ⟨fun id => if owned : ∃ k, ∃ i < n, uf.Owns i k id then owned.choose else 0, ?_⟩
  intro i inRange k id owns
  have owned : ∃ k, ∃ i < n, uf.Owns i k id := ⟨k, i, inRange, owns⟩
  obtain ⟨j, jInRange, chosen⟩ := owned.choose_spec
  simp only [owned, dif_pos]
  exact (inv.owner_unique jInRange inRange chosen owns).2

theorem parent_of_owned (inv : Inv n link uf) {i k id : Nat} (inRange : i < n)
    (owns : uf.Owns i k id) :
    (∃ parent upper, upper < n ∧ uf.tree id = some parent ∧ uf.Owns upper (k + 1) parent) ∨
      (uf.tree id = none ∧ link i = none ∧ k = uf.rank i) := by
  rcases (inv.owns_le_rank inRange owns).lt_or_eq with below | rfl
  · obtain ⟨parent, parentOwned⟩ := inv.exists_owned inRange (Nat.succ_le_of_lt below)
    exact Or.inl ⟨parent, i, inRange, inv.tree_inner inRange owns parentOwned, parentOwned⟩
  · have treeEq := inv.tree_top inRange owns
    rcases linkEq : link i with _ | upper
    · rw [linkEq, Option.bind_none] at treeEq
      exact Or.inr ⟨treeEq, rfl, rfl⟩
    · obtain ⟨_, upperIn, larger⟩ := inv.growing linkEq
      obtain ⟨parent, parentOwned⟩ := inv.exists_owned upperIn (Nat.succ_le_of_lt larger)
      rw [linkEq, Option.bind_some] at treeEq
      exact Or.inl ⟨parent, upper, upperIn, treeEq.trans parentOwned, parentOwned⟩

variable {level : Nat → Nat} {top : Nat}

theorem levelled (inv : Inv n link uf) (single : tops n link = {top})
    (levelEq : ∀ i < n, ∀ k id, uf.Owns i k id → level id = k) :
    LevelForest.Levelled (List.range uf.nextId) uf.tree level ((uf.nodeIds top).getLastD 0) := by
  have isTop : ∀ i, i < n ∧ link i = none ↔ i = top := by
    intro i
    have membership := Finset.ext_iff.mp single i
    simpa [tops] using membership
  have topIn := ((isTop top).mpr rfl).1
  refine ⟨List.nodup_range, ?_, ?_, ?_⟩
  · exact List.mem_range.mpr (inv.owns_lt topIn (inv.owns_getLast topIn))
  · intro child parent childMem step
    obtain ⟨i, inRange, k, owns⟩ := inv.owned child (List.mem_range.mp childMem)
    rcases parent_of_owned inv inRange owns with
      ⟨parent', upper, upperIn, treeEq, parentOwned⟩ | ⟨treeEq, _, _⟩
    · obtain rfl := Option.some.inj (treeEq.symm.trans step)
      refine ⟨List.mem_range.mpr (inv.owns_lt upperIn parentOwned), ?_⟩
      rw [levelEq upper upperIn _ _ parentOwned, levelEq i inRange _ _ owns]
    · rw [treeEq] at step
      cases step
  · intro child childMem noParent
    obtain ⟨i, inRange, k, owns⟩ := inv.owned child (List.mem_range.mp childMem)
    rcases parent_of_owned inv inRange owns with
      ⟨parent, upper, upperIn, treeEq, parentOwned⟩ | ⟨_, noLink, rfl⟩
    · rw [treeEq] at noParent
      cases noParent
    · obtain rfl := (isTop i).mp ⟨inRange, noLink⟩
      exact Option.some.inj (owns.symm.trans (inv.owns_getLast inRange))

theorem two_le_children_length (inv : Inv n link uf) {i k id : Nat} (inRange : i < n)
    (owns : uf.Owns i (k + 1) id) :
    2 ≤ (LevelForest.children (List.range uf.nextId) uf.tree id).length := by
  have below := inv.owns_le_rank inRange owns
  obtain ⟨inner, innerOwned⟩ := inv.exists_owned (k := k) inRange (by omega)
  obtain ⟨lower, linkEq, rankEq⟩ := inv.sibling i inRange k (by omega)
  have lowerIn := (inv.growing linkEq).1
  have lowerOwned := inv.owns_getLast lowerIn
  have innerChild : inner ∈ LevelForest.children (List.range uf.nextId) uf.tree id :=
    LevelForest.mem_children.mpr ⟨List.mem_range.mpr (inv.owns_lt inRange innerOwned),
      inv.tree_inner inRange innerOwned owns⟩
  have lowerChild : (uf.nodeIds lower).getLastD 0 ∈
      LevelForest.children (List.range uf.nextId) uf.tree id := by
    refine LevelForest.mem_children.mpr
      ⟨List.mem_range.mpr (inv.owns_lt lowerIn lowerOwned), ?_⟩
    rw [inv.tree_top lowerIn lowerOwned, linkEq, Option.bind_some, rankEq]
    exact owns
  have differ : inner ≠ (uf.nodeIds lower).getLastD 0 := by
    intro same
    rw [← same] at lowerOwned
    obtain ⟨rfl, _⟩ := inv.owner_unique inRange lowerIn innerOwned lowerOwned
    have larger := (inv.growing linkEq).2.2
    omega
  have subset : ({inner, (uf.nodeIds lower).getLastD 0} : Finset Nat) ⊆
      (LevelForest.children (List.range uf.nextId) uf.tree id).toFinset := by
    intro child membership
    rw [Finset.mem_insert, Finset.mem_singleton] at membership
    rw [List.mem_toFinset]
    rcases membership with rfl | rfl
    · exact innerChild
    · exact lowerChild
  calc 2 = ({inner, (uf.nodeIds lower).getLastD 0} : Finset Nat).card :=
        (Finset.card_pair differ).symm
    _ ≤ (LevelForest.children (List.range uf.nextId) uf.tree id).toFinset.card :=
        Finset.card_le_card subset
    _ ≤ (LevelForest.children (List.range uf.nextId) uf.tree id).length :=
        List.toFinset_card_le _

end

theorem mapM_eq_some_map {Alpha Beta : Type} {values : List Alpha} {function : Alpha → Option Beta}
    {result : Alpha → Beta} (defined : ∀ value ∈ values, function value = some (result value)) :
    values.mapM function = some (values.map result) := by
  induction values with
  | nil => rfl
  | cons value values ih =>
    have rest := ih fun other membership =>
      defined other (List.mem_cons_of_mem _ membership)
    simp [defined value List.mem_cons_self, rest]

section

variable {uf : PsiUnionFind} {level : Nat → Nat} {root : Nat} (localNode : Nat → PsiTreeNode)
  {nodes : List PsiTreeNode}

theorem treeOf_spec
    (tree : LevelForest.Levelled (List.range uf.nextId) uf.tree level root)
    (leaf : ∀ id < uf.nextId, level id = 0 → localNode id ∈ nodes)
    (several : ∀ id < uf.nextId, level id ≠ 0 →
      2 ≤ (LevelForest.children (List.range uf.nextId) uf.tree id).length)
    (fuel : Nat) {id : Nat} (inRange : id < uf.nextId) (enough : level id < fuel) :
    ∃ node, treeOf uf localNode fuel id = some node ∧ node.Ranked nodes (level id) ∧
      node.frontier (level id) =
        (LevelForest.frontier (List.range uf.nextId) uf.tree (level id) id).map localNode := by
  induction fuel generalizing id with
  | zero => omega
  | succ fuel ih =>
    have childLevel : ∀ child ∈ LevelForest.children (List.range uf.nextId) uf.tree id,
        child < uf.nextId ∧ level id = level child + 1 := by
      intro child membership
      obtain ⟨childMem, step⟩ := LevelForest.mem_children.mp membership
      exact ⟨List.mem_range.mp childMem, (tree.up_mem childMem step).2⟩
    rcases childrenEq : LevelForest.children (List.range uf.nextId) uf.tree id with
      _ | ⟨first, rest⟩
    · have bottom : level id = 0 := by
        by_contra above
        have two := several id inRange above
        simp [childrenEq] at two
      refine ⟨localNode id, by simp [treeOf, childrenEq], ?_, ?_⟩
      · rw [bottom]
        exact .input (leaf id inRange bottom)
      · simp [bottom, PsiTreeNode.frontier, LevelForest.frontier]
    · obtain ⟨below, levelEq⟩ := Nat.exists_eq_add_one_of_ne_zero (n := level id) <| by
        have next := (childLevel first (childrenEq ▸ List.mem_cons_self)).2
        omega
      -- All children are on the level below, so the recursion applies to each of them.
      have built : ∀ child ∈ first :: rest, ∃ node, treeOf uf localNode fuel child = some node ∧
          node.Ranked nodes below ∧ node.frontier below =
            (LevelForest.frontier (List.range uf.nextId) uf.tree below child).map localNode := by
        intro child membership
        obtain ⟨childIn, next⟩ := childLevel child (childrenEq ▸ membership)
        have same : level child = below := by omega
        simpa only [same] using ih childIn (by omega)
      choose! subtree subtreeEq ranked ordered using built
      refine ⟨.mk (localNode id).index ((first :: rest).map subtree), ?_, ?_, ?_⟩
      · rw [treeOf, childrenEq]
        simp only [mapM_eq_some_map subtreeEq, Option.map_some]
      · rw [levelEq]
        refine .parent ?_ fun node membership => ?_
        · rw [List.length_map, ← childrenEq]
          exact several id inRange (by omega)
        · obtain ⟨child, childMem, rfl⟩ := List.mem_map.mp membership
          exact ranked child childMem
      · rw [levelEq, PsiTreeNode.frontier, PsiTreeNode.children, LevelForest.frontier,
          childrenEq, List.map_flatMap, List.flatMap_map]
        exact List.flatMap_congr ordered

end

/-- What is known of the union-find after the merge loop. -/
structure Merged (n : Nat) (uf : PsiUnionFind) (link : Nat → Option Nat) (top : Nat) : Prop where
  inv : Inv n link uf
  single : tops n link = {top}

theorem mergePairs_init {n : Nat} (positive : 0 < n) {pairs : List (Nat × Nat)}
    (ranked : RanksAllPairs n pairs) :
    ∃ uf link top, mergePairs (n + 1) n pairs (PsiUnionFind.init n) 0 = some (uf, n - 1) ∧
      Merged n uf link top := by
  have all : (tops n fun _ => none).card = n := by simp [tops]
  obtain ⟨uf, merges, link, result, inv, _, counted, final⟩ :=
    mergePairs_spec 0 (Inv.init n) ranked.in_range (by omega)
  obtain ⟨top, single⟩ := tops_eq_singleton inv positive ranked final
  rw [single, Finset.card_singleton] at counted
  obtain rfl : merges = n - 1 := by omega
  exact ⟨uf, link, top, result, inv, single⟩

theorem Merged.rootIds_eq {n : Nat} {uf : PsiUnionFind} {link : Nat → Option Nat} {top : Nat}
    (merged : Merged n uf link top) : rootIds uf = [(uf.nodeIds top).getLastD 0] := by
  obtain ⟨inv, single⟩ := merged
  obtain ⟨level, levelEq⟩ := exists_level inv
  have tree := levelled inv single levelEq
  have isTop : top < n ∧ link top = none := by
    have membership := Finset.ext_iff.mp single top
    simpa [tops] using membership
  have rootTop : uf.tree ((uf.nodeIds top).getLastD 0) = none := by
    rw [inv.tree_top isTop.1 (inv.owns_getLast isTop.1), isTop.2, Option.bind_none]
  refine List.perm_singleton.mp <| (List.perm_ext_iff_of_nodup (tree.nodup.filter _)
    (List.nodup_singleton _)).mpr fun id => ?_
  rw [List.mem_filter, decide_eq_true_eq, List.mem_singleton]
  constructor
  · rintro ⟨membership, noParent⟩
    exact tree.only_root membership noParent
  · rintro rfl
    exact ⟨tree.root_mem, rootTop⟩

theorem Merged.treeOf_root {nodes : List PsiTreeNode} {uf : PsiUnionFind}
    {link : Nat → Option Nat} {top : Nat} (merged : Merged nodes.length uf link top)
    (numbering : Numbering) :
    ∃ root rank, treeOf uf (localNode nodes numbering) (uf.nextId + 1)
        ((uf.nodeIds top).getLastD 0) = some root ∧
      root.Ranked nodes rank ∧ (root.frontier rank).Perm nodes := by
  obtain ⟨inv, single⟩ := merged
  obtain ⟨level, levelEq⟩ := exists_level inv
  have tree := levelled inv single levelEq
  have level_of_leaf : ∀ id < nodes.length, level id = 0 := fun id inRange =>
    levelEq id inRange 0 id (inv.owns_leaf id inRange)
  have leaf_iff : ∀ id < uf.nextId, level id = 0 → id < nodes.length := by
    intro id inRange bottom
    obtain ⟨i, iIn, k, owns⟩ := inv.owned id inRange
    obtain rfl : k = 0 := (levelEq i iIn k id owns).symm.trans bottom
    obtain rfl := Option.some.inj ((inv.owns_leaf i iIn).symm.trans owns)
    exact iIn
  have several : ∀ id < uf.nextId, level id ≠ 0 →
      2 ≤ (LevelForest.children (List.range uf.nextId) uf.tree id).length := by
    intro id inRange above
    obtain ⟨i, iIn, k, owns⟩ := inv.owned id inRange
    obtain ⟨below, rfl⟩ := Nat.exists_eq_add_one_of_ne_zero (levelEq i iIn k id owns ▸ above)
    exact two_le_children_length inv iIn owns
  have level_le : level ((uf.nodeIds top).getLastD 0) ≤ uf.nextId := by
    obtain ⟨i, iIn, k, owns⟩ := inv.owned _ (List.mem_range.mp tree.root_mem)
    rw [levelEq i iIn k _ owns]
    have bound := inv.owns_le_rank iIn owns
    have ranks := inv.ranks i iIn
    omega
  have local_eq : ∀ id (inRange : id < nodes.length),
      localNode nodes numbering id = nodes[id] := by
    intro id inRange
    rw [localNode, List.getD_eq_getElem _ _ inRange]
  have local_mem : ∀ id < uf.nextId, level id = 0 → localNode nodes numbering id ∈ nodes := by
    intro id inRange bottom
    rw [local_eq id (leaf_iff id inRange bottom)]
    exact List.getElem_mem _
  obtain ⟨root, rootEq, ranked, ordered⟩ :=
    treeOf_spec (localNode nodes numbering) tree local_mem several (uf.nextId + 1)
      (List.mem_range.mp tree.root_mem) (by omega)
  refine ⟨root, _, rootEq, ranked, ?_⟩
  rw [ordered]
  have bottom : (LevelForest.frontier (List.range uf.nextId) uf.tree
      (level ((uf.nodeIds top).getLastD 0)) ((uf.nodeIds top).getLastD 0)).Perm
      (List.range nodes.length) := by
    refine (LevelForest.frontier_root_perm tree).trans <|
      (List.perm_ext_iff_of_nodup (tree.nodup.filter _) List.nodup_range).mpr fun id => ?_
    rw [List.mem_filter, decide_eq_true_eq, List.mem_range, List.mem_range]
    constructor
    · exact fun ⟨inRange, isBottom⟩ => leaf_iff id inRange isBottom
    · intro inRange
      exact ⟨inv.owns_lt inRange (inv.owns_leaf id inRange), level_of_leaf id inRange⟩
  refine (bottom.map _).trans (List.Perm.of_eq ?_)
  apply List.ext_getElem (by simp)
  intro id below inRange
  rw [List.getElem_map, List.getElem_range, local_eq id inRange]

theorem buildExactPsiStructure_spec {nodes : List PsiTreeNode} (nonempty : nodes ≠ [])
    {pairs : List (Nat × Nat)} (ranking : RanksAllPairs nodes.length pairs) (nextIndex : Nat) :
    ∃ root next rank,
      buildExactPsiStructure nodes pairs nextIndex = some (root, next, nodes.length - 1) ∧
        root.Ranked nodes rank ∧ (root.frontier rank).Perm nodes := by
  match nodes, nonempty, ranking with
  | [node], _, _ =>
    exact ⟨node, nextIndex, 0, rfl, .input (List.mem_singleton_self node), List.Perm.refl _⟩
  | first :: second :: rest, nonempty, ranking =>
    obtain ⟨uf, link, top, mergeEq, merged⟩ :=
      mergePairs_init (List.length_pos_iff.mpr nonempty) ranking
    let numbering := numberNodes (first :: second :: rest) uf nextIndex
    obtain ⟨root, rank, rootEq, ranked, perm⟩ := merged.treeOf_root numbering
    refine ⟨root, numbering.nextIndex, rank, ?_, ranked, perm⟩
    simp only [buildExactPsiStructure, mergeEq, merged.rootIds_eq, Option.bind_eq_bind,
      Option.bind_some, List.mapM_cons, List.mapM_nil, rootEq, numbering, Option.pure_def,
      List.argmax_singleton]

theorem PsiTreeNode.Ranked.leaves_perm {nodes : List PsiTreeNode} {root : PsiTreeNode} {rank : Nat}
    (childless : ∀ node ∈ nodes, node.children = []) (ranked : root.Ranked nodes rank)
    (perm : (root.frontier rank).Perm nodes) : root.leaves.Perm nodes := by
  have leaves := perm.flatMap_right PsiTreeNode.leaves
  rwa [← ranked.leaves_eq, PsiTreeNode.flatMap_leaves_of_childless childless] at leaves

/-- For every complete ranking of the pairs of childless inputs the merge loop takes no
fallback and leaves one root; the tree below it has the inputs as its leaves, each once, and
is ranked, so that every inner node has two children and all leaves the same depth.
Rebalancing keeps the leaves and bounds the children. -/
theorem exactPsiStructure_wellFormed {nodes : List PsiTreeNode} (nonempty : nodes ≠ [])
    (childless : ∀ node ∈ nodes, node.children = []) {pairs : List (Nat × Nat)}
    (ranking : RanksAllPairs nodes.length pairs) (nextIndex : Nat) (maxCluster : Int) :
    (∃ uf root, mergePairs (nodes.length + 1) nodes.length pairs
        (PsiUnionFind.init nodes.length) 0 = some (uf, nodes.length - 1) ∧
      uf.fallbacks = [] ∧ rootIds uf = [root]) ∧
    ∃ root next rank,
      buildExactPsiStructure nodes pairs nextIndex = some (root, next, nodes.length - 1) ∧
        root.Ranked nodes rank ∧ root.leaves.Perm nodes ∧
        (PsiTreeNode.rebalancePsiTree maxCluster root next).1.FanoutAtMost
          (max 2 maxCluster).toNat ∧
        (PsiTreeNode.rebalancePsiTree maxCluster root next).1.leaves = root.leaves := by
  refine ⟨?_, ?_⟩
  · obtain ⟨uf, link, top, mergeEq, merged⟩ :=
      mergePairs_init (List.length_pos_iff.mpr nonempty) ranking
    exact ⟨uf, _, mergeEq, merged.inv.no_fallback, merged.rootIds_eq⟩
  · obtain ⟨root, next, rank, built, ranked, perm⟩ :=
      buildExactPsiStructure_spec nonempty ranking nextIndex
    obtain ⟨sameLeaves, bounded⟩ :=
      PsiTreeNode.rebalance_spec (PsiTreeNode.two_le_maxChildren maxCluster) root next
    refine ⟨root, next, rank, built, ranked, ranked.leaves_perm childless perm, ?_, sameLeaves⟩
    rw [← PsiTreeNode.maxChildren_eq]
    exact bounded

def threeLeaves : List PsiTreeNode := [.mk 0 [], .mk 1 [], .mk 2 []]

theorem exactPsiStructure_wellFormed_of_three :
    ∃ root next rank,
      buildExactPsiStructure threeLeaves [(1, 0), (2, 0), (2, 1)] 3 = some (root, next, 2) ∧
        root.Ranked threeLeaves rank ∧ root.leaves.Perm threeLeaves ∧
        (PsiTreeNode.rebalancePsiTree 2 root next).1.FanoutAtMost 2 ∧
        (PsiTreeNode.rebalancePsiTree 2 root next).1.leaves = root.leaves :=
  (exactPsiStructure_wellFormed (List.cons_ne_nil _ _)
    (by simp [PsiTreeNode.children]) ⟨by decide, by decide⟩ 3 2).2

end RagFlow.Raptor
