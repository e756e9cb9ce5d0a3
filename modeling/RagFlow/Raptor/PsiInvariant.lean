import Mathlib
import RagFlow.Lib.Links

/-!
# The union-find of the Psi tree builder

`_PsiUnionFind` merges ranked leaf pairs.  Besides the classes it keeps, for every leaf,
the tree nodes the leaf stands for (one of each rank up to its own) and a lazily
extended chain of the leaves it was merged under.  The invariant ties the three arrays
to one forest of links between leaves.
-/

namespace RagFlow.Raptor

open RagFlow.Lib.Links

/-- The two places where `union` would have to fall back on an index that is in range. -/
inductive Fallback where
  | chainEnd
  /-- "RAPTOR Psi union fallback: rank index %d is out of bounds for node %d with %d
  parent ids". -/
  | rankIndex (index node parentIds : Nat)
  deriving DecidableEq, Repr

/-- The arrays, indexed by leaf (`tree` by tree node), and the fallbacks taken so far. -/
structure PsiUnionFind where
  rank : Nat → Nat
  parentChains : Nat → List Nat
  nodeIds : Nat → List Nat
  tree : Nat → Option Nat
  nextId : Nat
  fallbacks : List Fallback

namespace PsiUnionFind

def init (n : Nat) : PsiUnionFind where
  rank _ := 0
  parentChains _ := []
  nodeIds i := [i]
  tree _ := none
  nextId := n
  fallbacks := []

def orderedExtend (target values : List Nat) : List Nat :=
  values.foldl (fun target value => if value ∈ target then target else target ++ [value]) target

/-- Where `_find` looks next: the first entry of the chain that is not the leaf itself. -/
def nextInChain (i : Nat) : List Nat → Option Nat
  | [] => none
  | [c] => if c = i then none else some c
  | c :: d :: _ => if c = i then some d else some c

/-- `_find`: the parent chain of a leaf, extended lazily.  The recursion is bounded by
`fuel`; `none` means that it did not come to an end. -/
def find : Nat → (Nat → List Nat) → Nat → Option ((Nat → List Nat) × List Nat)
  | 0, _, _ => none
  | fuel + 1, chains, i =>
    match nextInChain i (chains i) with
    | none => some (chains, [i])
    | some next =>
      (find fuel chains next).map fun (chains, above) =>
        let chain := orderedExtend (chains i) above
        (Function.update chains i chain, chain)

/-- The first chain index whose rank is greater than `rank`. -/
def rankBisectRight (ranks : Nat → Nat) (chain : List Nat) (rank : Nat) : Nat :=
  chain.findIdx fun node => decide (rank < ranks node)

/-- `_build` with an insert point: hang the top node of leaf `i` below a node that the
insert point stands for. -/
def buildAt (uf : PsiUnionFind) (i insertPoint : Nat) : PsiUnionFind :=
  let parentIds := uf.nodeIds insertPoint
  let parentRankIdx := uf.rank i + 1
  let outOfBounds := parentRankIdx ≥ parentIds.length
  let fallbacks :=
    if outOfBounds then
      uf.fallbacks ++ [.rankIndex parentRankIdx insertPoint parentIds.length]
    else uf.fallbacks
  let parentRankIdx := if outOfBounds then parentIds.length - 1 else parentRankIdx
  { uf with
    tree := Function.update uf.tree ((uf.nodeIds i).getLastD 0)
      (some (parentIds.getD parentRankIdx 0))
    fallbacks := fallbacks }

/-- `_build` without an insert point: a new node above the top nodes of `i` and `j`. -/
def buildNew (uf : PsiUnionFind) (i j : Nat) : PsiUnionFind :=
  { uf with
    tree := Function.update
      (Function.update uf.tree ((uf.nodeIds i).getLastD 0) (some uf.nextId))
      ((uf.nodeIds j).getLastD 0) (some uf.nextId)
    nodeIds := Function.update uf.nodeIds i (uf.nodeIds i ++ [uf.nextId])
    nextId := uf.nextId + 1 }

/-- `if not self._parent_chains[root]: self._parent_chains[root].append(root)`. -/
def startChain (uf : PsiUnionFind) (root : Nat) : PsiUnionFind :=
  if uf.parentChains root = [] then
    { uf with parentChains := Function.update uf.parentChains root [root] }
  else uf

/-- The two unequal branches of `union`: the class of `low` is hung below a node on the
chain of `leaf`, whose class has the root `high` of larger rank. -/
def attach (uf : PsiUnionFind) (low high leaf : Nat) : PsiUnionFind :=
  let uf := uf.startChain high
  let chain := uf.parentChains leaf
  let higherRankIdx := rankBisectRight uf.rank chain (uf.rank low)
  let pastEnd := higherRankIdx ≥ chain.length
  let fallbacks := if pastEnd then uf.fallbacks ++ [.chainEnd] else uf.fallbacks
  let higherRankIdx := if pastEnd then chain.length - 1 else higherRankIdx
  let insertPoint := chain.getD higherRankIdx 0
  let uf := { uf with
    parentChains := Function.update uf.parentChains low
      (orderedExtend (uf.parentChains low) (chain.drop higherRankIdx))
    fallbacks := fallbacks }
  uf.buildAt low insertPoint

/-- The equal-rank branch of `union`. -/
def joinEqual (uf : PsiUnionFind) (rootI rootJ i : Nat) : PsiUnionFind :=
  let uf := uf.startChain rootI
  let uf := { uf with
    parentChains := Function.update uf.parentChains rootJ
      (orderedExtend (uf.parentChains rootJ)
        ((uf.parentChains i).drop ((uf.parentChains i).length - 1)))
    rank := Function.update uf.rank rootI (uf.rank rootI + 1) }
  uf.buildNew rootI rootJ

/-- `union`: merge two ranked leaves and return whether a new edge was added. -/
def union (fuel : Nat) (uf : PsiUnionFind) (i j : Nat) : Option (PsiUnionFind × Bool) := do
  let (chains, chainI) ← find fuel uf.parentChains i
  let (chains, chainJ) ← find fuel chains j
  let rootI := chainI.getLastD 0
  let rootJ := chainJ.getLastD 0
  let uf := { uf with parentChains := chains }
  if rootI = rootJ then
    return (uf, false)
  else if uf.rank rootI < uf.rank rootJ then
    return (uf.attach rootI rootJ j, true)
  else if uf.rank rootI > uf.rank rootJ then
    return (uf.attach rootJ rootI i, true)
  else
    return (uf.joinEqual rootI rootJ i, true)

end PsiUnionFind

end RagFlow.Raptor

/-!
# The forest behind the Psi union-find

Each chain is a path of one forest of links between leaves, along which the rank grows.
`find` completes such a path without changing the forest.
-/

namespace RagFlow.Raptor.PsiUnionFind

open RagFlow.Lib.Links

theorem orderedExtend_append (target first second : List Nat) :
    orderedExtend target (first ++ second) = orderedExtend (orderedExtend target first) second :=
  List.foldl_append

theorem orderedExtend_of_subset {target values : List Nat} (known : values ⊆ target) :
    orderedExtend target values = target := by
  induction values with
  | nil => rfl
  | cons value values ih =>
    obtain ⟨head, tail⟩ := List.cons_subset.mp known
    simp only [orderedExtend, List.foldl_cons, head, if_true]
    exact ih tail

theorem orderedExtend_of_disjoint {target values : List Nat} (distinct : values.Nodup)
    (unseen : ∀ value ∈ values, value ∉ target) :
    orderedExtend target values = target ++ values := by
  induction values generalizing target with
  | nil => simp [orderedExtend]
  | cons value values ih =>
    obtain ⟨fresh, distinct⟩ := List.nodup_cons.mp distinct
    simp only [orderedExtend, List.foldl_cons, unseen value List.mem_cons_self, if_false]
    have rest : orderedExtend (target ++ [value]) values = target ++ [value] ++ values := by
      apply ih distinct
      intro other membership
      rw [List.mem_append, List.mem_singleton, not_or]
      exact ⟨unseen other (List.mem_cons_of_mem _ membership),
        fun same => fresh (same ▸ membership)⟩
    rw [orderedExtend, List.append_assoc, List.singleton_append] at rest
    exact rest

theorem orderedExtend_of_prefix {before front values : List Nat} (isPrefix : front <+: values)
    (distinct : (before ++ values).Nodup) :
    orderedExtend (before ++ front) values = before ++ values := by
  obtain ⟨rest, rfl⟩ := isPrefix
  rw [orderedExtend_append, orderedExtend_of_subset (List.subset_append_right before front)]
  rw [← List.append_assoc] at distinct ⊢
  obtain ⟨_, restDistinct, apart⟩ := List.nodup_append'.mp distinct
  exact orderedExtend_of_disjoint restDistinct fun value membership known =>
    apart known membership

/-- How a path from leaf `i` is stored: leaves of rank zero are not in their own chain. -/
def trail (rank : Nat → Nat) (i : Nat) (above : List Nat) : List Nat :=
  if rank i = 0 then above else i :: above

theorem trail_suffix (rank : Nat → Nat) (i : Nat) (above : List Nat) :
    trail rank i above <:+ i :: above := by
  unfold trail
  split_ifs
  · exact List.suffix_cons i above
  · exact List.suffix_refl _

theorem trail_eq_append (rank : Nat → Nat) (i : Nat) (above : List Nat) :
    trail rank i above = trail rank i [] ++ above := by
  unfold trail
  split_ifs <;> simp

/-- The chain of `i` is a path from `i`, empty only when no link leads on. -/
def ChainOk (link : Nat → Option Nat) (rank : Nat → Nat) (i : Nat) (chain : List Nat) : Prop :=
  ∃ above, chain = trail rank i above ∧ Path link i above ∧ (above = [] → link i = none)

def Growing (n : Nat) (link : Nat → Option Nat) (rank : Nat → Nat) : Prop :=
  ∀ ⦃lower upper⦄, link lower = some upper → lower < n ∧ upper < n ∧ rank lower < rank upper

theorem Growing.nodup {n : Nat} {link : Nat → Option Nat} {rank : Nat → Nat}
    (growing : Growing n link rank) {start : Nat} {above : List Nat}
    (path : Path link start above) : (start :: above).Nodup :=
  path.nodup fun _ _ step => (growing step).2.2

theorem ChainOk.of_top {link : Nat → Option Nat} {rank : Nat → Nat} {i : Nat} {chain : List Nat}
    (ok : ChainOk link rank i chain) (top : link i = none) : chain = trail rank i [] := by
  obtain ⟨above, rfl, path, _⟩ := ok
  cases above with
  | nil => rfl
  | cons next above =>
    have step := (path_cons.mp path).1
    rw [top] at step
    cases step

theorem nextInChain_trail {n : Nat} {link : Nat → Option Nat} {rank : Nat → Nat}
    (growing : Growing n link rank) {i : Nat} {above : List Nat} (path : Path link i above) :
    nextInChain i (trail rank i above) = above.head? := by
  have distinct := growing.nodup path
  unfold trail
  split_ifs
  · match above with
    | [] => rfl
    | [c] =>
      have differ : c ≠ i := by
        rintro rfl
        simp at distinct
      simp [nextInChain, differ]
    | c :: d :: rest =>
      have differ : c ≠ i := by
        rintro rfl
        simp at distinct
      simp [nextInChain, differ]
  · match above with
    | [] => simp [nextInChain]
    | d :: rest => simp [nextInChain]

/-- What `find` returns: the completed chain, or the leaf itself when its chain is empty. -/
def found (rank : Nat → Nat) (i : Nat) (full : List Nat) : List Nat :=
  if full = [] then [i] else trail rank i full

theorem found_cons (rank : Nat → Nat) (i next : Nat) (full : List Nat) :
    found rank i (next :: full) = trail rank i (next :: full) := rfl

theorem found_getLast (rank : Nat → Nat) (i : Nat) (full : List Nat) :
    (found rank i full).getLastD 0 = (i :: full).getLast (List.cons_ne_nil _ _) := by
  cases full with
  | nil => rfl
  | cons next full =>
    rw [found_cons, List.getLast_cons (List.cons_ne_nil next full), trail]
    split_ifs
    · rw [List.getLastD_eq_getLast?, List.getLast?_eq_some_getLast (List.cons_ne_nil _ _)]
      rfl
    · rw [List.getLastD_cons, List.getLastD_eq_getLast?,
        List.getLast?_eq_some_getLast (List.cons_ne_nil _ _)]
      rfl

/-- `find` terminates within the distance to the largest rank, returns the full path of its
leaf, and leaves complete chains as they are. -/
theorem find_spec {n bound : Nat} {link : Nat → Option Nat} {rank : Nat → Nat}
    (growing : Growing n link rank) (bounded : ∀ i < n, rank i ≤ bound) (fuel : Nat)
    {chains : Nat → List Nat} (ok : ∀ i < n, ChainOk link rank i (chains i))
    {i : Nat} (inRange : i < n) (enough : bound < rank i + fuel) :
    ∃ chains' full, find fuel chains i = some (chains', found rank i full) ∧
      FullPath link i full ∧ chains' i = trail rank i full ∧
      (∀ j < n, ChainOk link rank j (chains' j)) ∧
      ∀ j < n, ∀ complete, FullPath link j complete → chains j = trail rank j complete →
        chains' j = trail rank j complete := by
  induction fuel generalizing chains i with
  | zero =>
    have := bounded i inRange
    omega
  | succ fuel ih =>
    obtain ⟨above, chainEq, path, closed⟩ := ok i inRange
    have next := nextInChain_trail growing path
    rw [← chainEq] at next
    cases above with
    | nil =>
      refine ⟨chains, [], ?_, FullPath.nil (closed rfl), chainEq, ok, fun _ _ _ _ same => same⟩
      simp [find, next, found]
    | cons upper above =>
      have step := (path_cons.mp path).1
      obtain ⟨_, upperInRange, smaller⟩ := growing step
      obtain ⟨chains', full, foundUpper, fullPath, _, ok', kept⟩ :=
        ih ok upperInRange (by omega)
      -- An upper end of a link has positive rank, so it leads its own chain.
      have returned : found rank upper full = upper :: full := by
        have positive : rank upper ≠ 0 := by omega
        unfold found trail
        split_ifs with empty
        · rw [empty]
        · rfl
      have fullFromI : FullPath link i (upper :: full) := FullPath.cons step fullPath
      -- The recursion may have touched the chain of `i`; it is a front of the path still.
      obtain ⟨above', chainEq', path', _⟩ := ok' i inRange
      have completed : orderedExtend (chains' i) (upper :: full) =
          trail rank i (upper :: full) := by
        rw [chainEq', trail_eq_append rank i above', trail_eq_append rank i (upper :: full)]
        apply orderedExtend_of_prefix (fullFromI.prefix_of_path path')
        rw [← trail_eq_append]
        exact (growing.nodup fullFromI.path).sublist (trail_suffix rank i _).sublist
      refine ⟨Function.update chains' i (trail rank i (upper :: full)), upper :: full,
        ?_, fullFromI, Function.update_self _ _ _, ?_, ?_⟩
      · simp only [find, next, List.head?_cons, foundUpper, Option.map_some, returned,
          completed, found_cons]
      · intro j jInRange
        rcases eq_or_ne j i with rfl | other
        · rw [Function.update_self]
          exact ⟨_, rfl, fullFromI.path, fun empty => by cases empty⟩
        · rw [Function.update_of_ne other]
          exact ok' j jInRange
      · intro j jInRange complete completePath same
        rcases eq_or_ne j i with rfl | other
        · rw [Function.update_self, fullFromI.unique completePath]
        · rw [Function.update_of_ne other]
          exact kept j jInRange complete completePath same

def tops (n : Nat) (link : Nat → Option Nat) : Finset Nat :=
  (Finset.range n).filter fun i => link i = none

/-- Leaf `i` stands for the tree node `id` at rank `k`. -/
def Owns (uf : PsiUnionFind) (i k id : Nat) : Prop := (uf.nodeIds i)[k]? = some id

/-- The state of the union-find on `n` leaves, described by the links between leaves:
every tree node below the next id is owned by one leaf at one rank, it hangs below the
node of the next rank of its owner or, at the top of the owner, of the leaf the owner is
linked under. -/
structure Inv (n : Nat) (link : Nat → Option Nat) (uf : PsiUnionFind) : Prop where
  growing : Growing n link uf.rank
  chains : ∀ i < n, ChainOk link uf.rank i (uf.parentChains i)
  ids_length : ∀ i < n, (uf.nodeIds i).length = uf.rank i + 1
  owns_leaf : ∀ i < n, uf.Owns i 0 i
  owns_lt : ∀ ⦃i k id⦄, i < n → uf.Owns i k id → id < uf.nextId
  owner_unique : ∀ ⦃i j k l id⦄, i < n → j < n → uf.Owns i k id → uf.Owns j l id → i = j ∧ k = l
  owned : ∀ id < uf.nextId, ∃ i < n, ∃ k, uf.Owns i k id
  tree_inner : ∀ ⦃i k id above⦄, i < n → uf.Owns i k id → uf.Owns i (k + 1) above →
    uf.tree id = some above
  tree_top : ∀ ⦃i id⦄, i < n → uf.Owns i (uf.rank i) id →
    uf.tree id = (link i).bind fun upper => (uf.nodeIds upper)[uf.rank i + 1]?
  tree_fresh : ∀ ⦃id⦄, uf.nextId ≤ id → uf.tree id = none
  sibling : ∀ i < n, ∀ k < uf.rank i, ∃ lower, link lower = some i ∧ uf.rank lower = k
  ranks : ∀ i < n, uf.rank i + n ≤ uf.nextId
  count : uf.nextId + (tops n link).card ≤ 2 * n
  no_fallback : uf.fallbacks = []

theorem Inv.init (n : Nat) : Inv n (fun _ => none) (init n) where
  growing := by intro lower upper step; cases step
  chains i _ := ⟨[], rfl, Path.nil _ i, fun _ => rfl⟩
  ids_length _ _ := rfl
  owns_leaf _ _ := rfl
  owns_lt := by
    intro i k id inRange owns
    cases k with
    | zero => simpa [Owns, PsiUnionFind.init] using (Option.some.inj owns) ▸ inRange
    | succ k => simp [Owns, PsiUnionFind.init] at owns
  owner_unique := by
    intro i j k l id _ _ owns owns'
    cases k <;> cases l <;> simp_all [Owns, PsiUnionFind.init]
  owned id below := ⟨id, below, 0, rfl⟩
  tree_inner := by intro i k id above _ _ owns; simp [Owns, PsiUnionFind.init] at owns
  tree_top := by intro i id _ _; rfl
  tree_fresh := by intro id _; rfl
  sibling i _ k below := absurd below (Nat.not_lt_zero k)
  ranks i _ := by simp [PsiUnionFind.init]
  count := by simp [PsiUnionFind.init, tops, Nat.two_mul]
  no_fallback := rfl

section

variable {n : Nat} {link : Nat → Option Nat} {uf : PsiUnionFind}

theorem Owns.lt_length {i k id : Nat} (owns : uf.Owns i k id) : k < (uf.nodeIds i).length :=
  (List.getElem?_eq_some_iff.mp owns).1

theorem Inv.owns_le_rank (inv : Inv n link uf) {i k id : Nat} (inRange : i < n)
    (owns : uf.Owns i k id) : k ≤ uf.rank i := by
  have bound := owns.lt_length
  rw [inv.ids_length i inRange] at bound
  omega

theorem Inv.exists_owned (inv : Inv n link uf) {i k : Nat} (inRange : i < n)
    (below : k ≤ uf.rank i) : ∃ id, uf.Owns i k id := by
  have bound : k < (uf.nodeIds i).length := by
    rw [inv.ids_length i inRange]
    omega
  exact ⟨_, List.getElem?_eq_getElem bound⟩

theorem Inv.owns_getLast (inv : Inv n link uf) {i : Nat} (inRange : i < n) :
    uf.Owns i (uf.rank i) ((uf.nodeIds i).getLastD 0) := by
  have length := inv.ids_length i inRange
  have nonempty : uf.nodeIds i ≠ [] := by
    intro empty
    simp [empty] at length
  rw [Owns, List.getLastD_eq_getLast?, List.getLast?_eq_getElem?, length, Nat.add_sub_cancel]
  obtain ⟨id, owns⟩ := inv.exists_owned inRange le_rfl
  rw [show (uf.nodeIds i)[uf.rank i]? = some id from owns, Option.getD_some]

theorem Inv.rank_le (inv : Inv n link uf) {i : Nat} (inRange : i < n) : uf.rank i ≤ n := by
  have ranks := inv.ranks i inRange
  have count := inv.count
  omega

theorem Inv.with_chains (inv : Inv n link uf) {chains : Nat → List Nat}
    (ok : ∀ i < n, ChainOk link uf.rank i (chains i)) :
    Inv n link { uf with parentChains := chains } :=
  { inv with chains := ok }

end

theorem tops_update {n low : Nat} {link : Nat → Option Nat} (upper : Nat) (inRange : low < n)
    (top : link low = none) :
    (tops n (Function.update link low (some upper))).card + 1 = (tops n link).card := by
  have membership : low ∈ tops n link := by simp [tops, inRange, top]
  have erased : tops n (Function.update link low (some upper)) = (tops n link).erase low := by
    ext i
    rcases eq_or_ne i low with rfl | other
    · simp [tops]
    · simp [tops, other]
  rw [erased, Finset.card_erase_add_one membership]

theorem extends_update {low : Nat} {link : Nat → Option Nat} (upper : Nat)
    (top : link low = none) :
    Extends link (Function.update link low (some upper)) := by
  intro lower target step
  rw [Function.update_of_ne]
  · exact step
  · rintro rfl
    rw [top] at step
    cases step

theorem ChainOk.mono_update {low upper i : Nat} {link : Nat → Option Nat} {rank : Nat → Nat}
    {chain : List Nat} (ok : ChainOk link rank i chain) (top : link low = none) (other : i ≠ low) :
    ChainOk (Function.update link low (some upper)) rank i chain := by
  obtain ⟨above, chainEq, path, closed⟩ := ok
  refine ⟨above, chainEq, path.mono (extends_update _ top), fun empty => ?_⟩
  rw [Function.update_of_ne other]
  exact closed empty

end RagFlow.Raptor.PsiUnionFind
