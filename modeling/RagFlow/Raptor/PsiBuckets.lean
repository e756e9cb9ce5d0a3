import RagFlow.Raptor.PsiStructure

/-!
# Bucketed Psi construction

Large inputs are split into bounded buckets by the labels of a clusterer, each bucket is
built on its own, and the bucket roots are built into one tree in turn.
-/

namespace RagFlow.Raptor

/-- `_psi_exact_max_leaves` and `_psi_bucket_size`. -/
structure PsiLimits where
  exactMaxLeaves : Nat
  bucketSize : Nat
  two_le_bucketSize : 2 ≤ bucketSize
  bucketSize_le : bucketSize ≤ exactMaxLeaves

/-- The bounds put on the configured values, in `__init__`. -/
def PsiLimits.ofConfig (psiExactMaxLeaves psiBucketSize : Int) : PsiLimits :=
  let exactMaxLeaves := (max 2 (if psiExactMaxLeaves = 0 then 4096 else psiExactMaxLeaves)).toNat
  { exactMaxLeaves := exactMaxLeaves
    bucketSize := min (max 2 (if psiBucketSize = 0 then 1024 else psiBucketSize)).toNat
      exactMaxLeaves
    two_le_bucketSize := by omega
    bucketSize_le := min_le_right _ _ }

/-- The labels given to the members of a group when it is split in `fanout` parts.  They
depend on the embeddings; all that `np.argmax` over `fanout` columns promises is their
range. -/
structure Clusterer where
  label : List PsiTreeNode → List Nat → (fanout : Nat) → Nat → Nat
  label_lt : ∀ nodes group fanout idx, 0 < fanout → label nodes group fanout idx < fanout

/-- The pairs below the diagonal, `np.tril_indices(n, -1)`. -/
def lowerTriangle (n : Nat) : List (Nat × Nat) :=
  (List.range n).flatMap fun i => (List.range i).map fun j => (i, j)

/-- `_rank_leaf_pairs`: some order of the pairs below the diagonal. -/
structure PairRanking where
  pairs : List PsiTreeNode → List (Nat × Nat)
  perm : ∀ nodes, (pairs nodes).Perm (lowerTriangle nodes.length)

/-- The number of parts that a group of more than `bucketSize` members is split in. -/
def splitFanout (limits : PsiLimits) (size : Nat) : Nat :=
  min (min (max 2 ((size + limits.bucketSize - 1) / limits.bucketSize)) size) 32

def splitGroup (limits : PsiLimits) (clusterer : Clusterer) (nodes : List PsiTreeNode)
    (group : List Nat) : List (List Nat) :=
  let fanout := splitFanout limits group.length
  let labels := clusterer.label nodes group fanout
  let splitGroups := ((List.range fanout).map fun center =>
    group.filter fun idx => labels idx = center).filter fun part => part ≠ []
  if splitGroups.length ≤ 1 then PsiTreeNode.batches group limits.bucketSize else splitGroups

def splitLoop (limits : PsiLimits) (clusterer : Clusterer) (nodes : List PsiTreeNode) :
    Nat → List (List Nat) → List (List Nat) → Option (List (List Nat))
  | _, [], buckets => some buckets
  | 0, _ :: _, _ => none
  | fuel + 1, group :: groups, buckets =>
    if group.length ≤ limits.bucketSize then
      splitLoop limits clusterer nodes fuel groups (buckets ++ [group])
    else
      splitLoop limits clusterer nodes fuel
        ((splitGroup limits clusterer nodes group).reverse ++ groups) buckets

/-- The order of the sort key `(len(bucket), bucket[0])`. -/
def bucketLe (first second : List Nat) : Bool :=
  decide (first.length < second.length ∨
    first.length = second.length ∧ first.headD 0 ≤ second.headD 0)

/-- `_split_psi_buckets`; `none` means that the loop did not come to an end. -/
def splitPsiBuckets (limits : PsiLimits) (clusterer : Clusterer) (fuel : Nat)
    (nodes : List PsiTreeNode) : Option (List (List PsiTreeNode)) :=
  if nodes.length ≤ limits.bucketSize then some [nodes]
  else
    (splitLoop limits clusterer nodes fuel [List.range nodes.length] []).map fun buckets =>
      ((buckets.filter fun bucket => bucket ≠ []).mergeSort bucketLe).map fun bucket =>
        bucket.map fun idx => nodes.getD idx default

/-- The loop over the buckets in `_build_bucketed_psi_structure`. -/
def buildBucketRoots (build : List PsiTreeNode → Nat → Option (PsiTreeNode × Nat × Nat)) :
    List (List PsiTreeNode) → Nat → Option (List PsiTreeNode × Nat × Nat)
  | [], nextIndex => some ([], nextIndex, 0)
  | bucket :: buckets, nextIndex => do
    let (root, nextIndex, bucketMerges) ← build bucket nextIndex
    let (roots, nextIndex, merges) ← buildBucketRoots build buckets nextIndex
    return (root :: roots, nextIndex, bucketMerges + merges)

/-- `_build_bucketed_psi_structure`, on top of `_build_psi_structure_from_nodes`. -/
def buildBucketedPsiStructure (limits : PsiLimits) (clusterer : Clusterer)
    (build : List PsiTreeNode → Nat → Option (PsiTreeNode × Nat × Nat))
    (nodes : List PsiTreeNode) (nextIndex : Nat) : Option (PsiTreeNode × Nat × Nat) := do
  let buckets ← splitPsiBuckets limits clusterer (2 * nodes.length) nodes
  let (bucketRoots, nextIndex, merges) ← buildBucketRoots build buckets nextIndex
  match bucketRoots with
  | [root] => return (root, nextIndex, merges)
  | _ =>
    let (root, nextIndex, rootMerges) ← build bucketRoots nextIndex
    return (root, nextIndex, merges + rootMerges)

/-- `_build_psi_structure_from_nodes`, with the depth of the mutual recursion bounded. -/
def buildPsiStructureFromNodes (limits : PsiLimits) (clusterer : Clusterer)
    (ranking : PairRanking) : Nat → List PsiTreeNode → Nat → Option (PsiTreeNode × Nat × Nat)
  | 0, _, _ => none
  | fuel + 1, nodes, nextIndex =>
    if nodes.length ≤ limits.exactMaxLeaves then
      buildExactPsiStructure nodes (ranking.pairs nodes) nextIndex
    else
      buildBucketedPsiStructure limits clusterer
        (buildPsiStructureFromNodes limits clusterer ranking fuel) nodes nextIndex

theorem PairRanking.ranksAllPairs (ranking : PairRanking) (nodes : List PsiTreeNode) :
    RanksAllPairs nodes.length (ranking.pairs nodes) where
  in_range := by
    intro pair membership
    have listed := (ranking.perm nodes).mem_iff.mp membership
    obtain ⟨i, iIn, inRow⟩ := List.mem_flatMap.mp listed
    obtain ⟨j, jIn, rfl⟩ := List.mem_map.mp inRow
    rw [List.mem_range] at iIn jIn
    exact ⟨iIn, jIn.trans iIn⟩
  complete := by
    intro i iIn j jIn
    refine Or.inl ((ranking.perm nodes).mem_iff.mpr (List.mem_flatMap.mpr ⟨i, ?_, ?_⟩))
    · exact List.mem_range.mpr iIn
    · exact List.mem_map.mpr ⟨j, List.mem_range.mpr jIn, rfl⟩

theorem flatMap_label_perm {Alpha : Type} (label : Alpha → Nat) (values : List Alpha)
    (count : Nat) :
    ((List.range count).flatMap fun center => values.filter fun value => label value = center).Perm
      (values.filter fun value => label value < count) := by
  induction count with
  | zero => simp
  | succ count ih =>
    rw [List.range_succ, List.flatMap_append, List.flatMap_singleton]
    apply (ih.append_right _).trans
    have split := List.filter_append_perm (fun value => decide (label value < count))
      (values.filter fun value => label value < count + 1)
    rw [List.filter_filter, List.filter_filter] at split
    refine (List.Perm.of_eq ?_).trans split
    congr 1 <;> refine List.filter_congr fun value _ => ?_
    · grind
    · grind

/-- What a split promises, whatever the labels: nonempty parts that make up the group, at
least two of them, and fewer than the group has members. -/
structure SplitOk (group : List Nat) (parts : List (List Nat)) : Prop where
  perm : parts.flatten.Perm group
  nonempty : ∀ part ∈ parts, part ≠ []
  several : 2 ≤ parts.length
  fewer : parts.length < group.length

theorem flatten_filter_ne_nil {Alpha : Type} [DecidableEq Alpha] (parts : List (List Alpha)) :
    (parts.filter fun part => part ≠ []).flatten = parts.flatten := by
  induction parts with
  | nil => rfl
  | cons part parts ih =>
    rcases part with _ | ⟨value, part⟩ <;> simp_all

theorem splitGroup_spec (limits : PsiLimits) (clusterer : Clusterer) (nodes : List PsiTreeNode)
    {group : List Nat} (oversized : limits.bucketSize < group.length) :
    SplitOk group (splitGroup limits clusterer nodes group) := by
  have two := limits.two_le_bucketSize
  have ceiling : (group.length + limits.bucketSize - 1) / limits.bucketSize < group.length := by
    have doubled := Nat.mul_le_mul_left group.length two
    rw [Nat.div_lt_iff_lt_mul (by omega)]
    omega
  have fanoutLt : splitFanout limits group.length < group.length := by
    unfold splitFanout
    omega
  have fanoutPos : 0 < splitFanout limits group.length := by
    unfold splitFanout
    omega
  simp only [splitGroup]
  split_ifs with degenerate
  · refine ⟨List.Perm.of_eq (PsiTreeNode.batches_flatten group (by omega)), ?_, ?_, ?_⟩
    · exact fun part membership => PsiTreeNode.ne_nil_of_mem_batches (by omega) membership
    · rw [PsiTreeNode.batches_length, Nat.le_div_iff_mul_le (by omega)]
      omega
    · rw [PsiTreeNode.batches_length]
      exact ceiling
  · refine ⟨?_, ?_, by omega, ?_⟩
    · rw [flatten_filter_ne_nil, ← List.flatMap_def]
      refine (flatMap_label_perm _ group _).trans (List.Perm.of_eq ?_)
      exact List.filter_eq_self.mpr fun idx _ =>
        decide_eq_true (clusterer.label_lt nodes group _ idx fanoutPos)
    · intro part membership
      simpa using (List.mem_filter.mp membership).2
    · apply lt_of_le_of_lt (List.length_filter_le _ _)
      rwa [List.length_map, List.length_range]

def splitWeight (groups : List (List Nat)) : Nat :=
  (groups.map fun group => 2 * group.length - 1).sum

def bucketBound (groups : List (List Nat)) : Nat :=
  (groups.map fun group => max 1 (group.length - 1)).sum

@[simp] theorem splitWeight_cons (group : List Nat) (groups : List (List Nat)) :
    splitWeight (group :: groups) = 2 * group.length - 1 + splitWeight groups := by
  simp [splitWeight]

@[simp] theorem bucketBound_cons (group : List Nat) (groups : List (List Nat)) :
    bucketBound (group :: groups) = max 1 (group.length - 1) + bucketBound groups := by
  simp [bucketBound]

@[simp] theorem splitWeight_reverse_append (first second : List (List Nat)) :
    splitWeight (first.reverse ++ second) = splitWeight first + splitWeight second := by
  simp [splitWeight]

@[simp] theorem bucketBound_reverse_append (first second : List (List Nat)) :
    bucketBound (first.reverse ++ second) = bucketBound first + bucketBound second := by
  simp [bucketBound]

theorem splitWeight_add_length {groups : List (List Nat)}
    (nonempty : ∀ group ∈ groups, group ≠ []) :
    splitWeight groups + groups.length = 2 * groups.flatten.length := by
  induction groups with
  | nil => rfl
  | cons group groups ih =>
    obtain ⟨groupNonempty, restNonempty⟩ := List.forall_mem_cons.mp nonempty
    have positive := List.length_pos_iff.mpr groupNonempty
    have rest := ih restNonempty
    rw [splitWeight_cons, List.length_cons, List.flatten_cons, List.length_append]
    omega

theorem bucketBound_le_flatten {groups : List (List Nat)}
    (nonempty : ∀ group ∈ groups, group ≠ []) : bucketBound groups ≤ groups.flatten.length := by
  induction groups with
  | nil => rfl
  | cons group groups ih =>
    obtain ⟨groupNonempty, restNonempty⟩ := List.forall_mem_cons.mp nonempty
    have positive := List.length_pos_iff.mpr groupNonempty
    have rest := ih restNonempty
    rw [bucketBound_cons, List.flatten_cons, List.length_append]
    omega

theorem bucketBound_lt_flatten {groups : List (List Nat)}
    (nonempty : ∀ group ∈ groups, group ≠ []) (fewer : groups.length < groups.flatten.length) :
    bucketBound groups < groups.flatten.length := by
  induction groups with
  | nil => simp at fewer
  | cons group groups ih =>
    obtain ⟨groupNonempty, restNonempty⟩ := List.forall_mem_cons.mp nonempty
    have positive := List.length_pos_iff.mpr groupNonempty
    have restLe := bucketBound_le_flatten restNonempty
    rw [List.length_cons, List.flatten_cons, List.length_append] at fewer
    rw [bucketBound_cons, List.flatten_cons, List.length_append]
    rcases Nat.lt_or_ge 1 group.length with several | single
    · omega
    · have rest := ih restNonempty (by omega)
      omega

theorem SplitOk.decreases {group : List Nat} {parts : List (List Nat)} (ok : SplitOk group parts) :
    splitWeight parts < 2 * group.length - 1 ∧ bucketBound parts ≤ group.length - 1 := by
  have length : parts.flatten.length = group.length := ok.perm.length_eq
  have weight := splitWeight_add_length ok.nonempty
  have bound := bucketBound_lt_flatten ok.nonempty (length ▸ ok.fewer)
  have several := ok.several
  omega

/-- The loop ends, and what it has put into buckets or not yet split stays the same
members, in nonempty buckets of bounded size and number. -/
theorem splitLoop_spec (limits : PsiLimits) (clusterer : Clusterer) (nodes : List PsiTreeNode)
    (fuel : Nat) {groups buckets : List (List Nat)} (nonempty : ∀ group ∈ groups, group ≠ [])
    (fits : ∀ bucket ∈ buckets, bucket ≠ [] ∧ bucket.length ≤ limits.bucketSize)
    (enough : splitWeight groups ≤ fuel) :
    ∃ result, splitLoop limits clusterer nodes fuel groups buckets = some result ∧
      result.flatten.Perm (buckets.flatten ++ groups.flatten) ∧
      (∀ bucket ∈ result, bucket ≠ [] ∧ bucket.length ≤ limits.bucketSize) ∧
      result.length ≤ buckets.length + bucketBound groups := by
  induction fuel generalizing groups buckets with
  | zero =>
    cases groups with
    | nil => exact ⟨buckets, by rw [splitLoop], by simp, fits, Nat.le_add_right _ _⟩
    | cons group groups =>
      have positive := List.length_pos_iff.mpr (nonempty group List.mem_cons_self)
      rw [splitWeight_cons] at enough
      omega
  | succ fuel ih =>
    cases groups with
    | nil => exact ⟨buckets, by rw [splitLoop], by simp, fits, Nat.le_add_right _ _⟩
    | cons group groups =>
      obtain ⟨groupNonempty, restNonempty⟩ := List.forall_mem_cons.mp nonempty
      have positive := List.length_pos_iff.mpr groupNonempty
      rw [splitWeight_cons] at enough
      rw [splitLoop, bucketBound_cons, List.flatten_cons]
      split_ifs with small
      · have moved : ∀ bucket ∈ buckets ++ [group],
            bucket ≠ [] ∧ bucket.length ≤ limits.bucketSize := by
          intro bucket membership
          rcases List.mem_append.mp membership with earlier | last
          · exact fits bucket earlier
          · exact List.mem_singleton.mp last ▸ ⟨groupNonempty, small⟩
        obtain ⟨result, resultEq, perm, resultFits, bound⟩ :=
          ih restNonempty moved (by omega)
        refine ⟨result, resultEq, ?_, resultFits, ?_⟩
        · simpa using perm
        · rw [List.length_append, List.length_singleton] at bound
          omega
      · have ok := splitGroup_spec limits clusterer nodes (not_le.mp small)
        obtain ⟨lighter, fewer⟩ := ok.decreases
        have pushed : ∀ part ∈ (splitGroup limits clusterer nodes group).reverse ++ groups,
            part ≠ [] := by
          intro part membership
          rcases List.mem_append.mp membership with split | later
          · exact ok.nonempty part (List.mem_reverse.mp split)
          · exact restNonempty part later
        obtain ⟨result, resultEq, perm, resultFits, bound⟩ :=
          ih pushed fits (by rw [splitWeight_reverse_append]; omega)
        refine ⟨result, resultEq, perm.trans ?_, resultFits, ?_⟩
        · rw [List.flatten_append]
          exact (((List.reverse_perm _).flatten.trans ok.perm).append_right _).append_left _
        · rw [bucketBound_reverse_append] at bound
          omega

theorem splitPsiBuckets_spec (limits : PsiLimits) (clusterer : Clusterer)
    {nodes : List PsiTreeNode} (large : limits.bucketSize < nodes.length) {fuel : Nat}
    (enough : 2 * nodes.length ≤ fuel) :
    ∃ buckets, splitPsiBuckets limits clusterer fuel nodes = some buckets ∧
      buckets.flatten.Perm nodes ∧
      (∀ bucket ∈ buckets, bucket ≠ [] ∧ bucket.length ≤ limits.bucketSize) ∧
      buckets.length < nodes.length := by
  have two := limits.two_le_bucketSize
  have start : ∀ group ∈ [List.range nodes.length], group ≠ [] := by
    rw [List.forall_mem_singleton, ← List.length_pos_iff, List.length_range]
    omega
  obtain ⟨result, resultEq, perm, fits, bound⟩ :=
    splitLoop_spec limits clusterer nodes fuel start (List.forall_mem_nil _)
      (by rw [splitWeight_cons, List.length_range, splitWeight, List.map_nil, List.sum_nil]; omega)
  have kept : (result.filter fun bucket => bucket ≠ []) = result :=
    List.filter_eq_self.mpr fun bucket membership => decide_eq_true (fits bucket membership).1
  have sorted := List.mergeSort_perm result bucketLe
  refine ⟨_, by rw [splitPsiBuckets, if_neg (not_le.mpr large), resultEq, Option.map_some],
    ?_, ?_, ?_⟩
  · rw [kept, ← List.map_flatten]
    refine ((sorted.flatten.trans perm).map _).trans (List.Perm.of_eq ?_)
    apply List.ext_getElem (by simp)
    intro idx _ inRange
    simp [List.getElem?_eq_getElem inRange]
  · intro bucket membership
    obtain ⟨ids, listed, rfl⟩ := List.mem_map.mp membership
    rw [kept] at listed
    rw [List.length_map, ne_eq, List.map_eq_nil_iff]
    exact fits ids (sorted.mem_iff.mp listed)
  · rw [bucketBound_cons, List.length_range] at bound
    rw [List.length_map, kept, sorted.length_eq]
    simp only [List.length_nil, bucketBound, List.map_nil, List.sum_nil] at bound
    omega

def Builds (build : List PsiTreeNode → Nat → Option (PsiTreeNode × Nat × Nat))
    (nodes : List PsiTreeNode) : Prop :=
  ∀ nextIndex, ∃ root next, build nodes nextIndex = some (root, next, nodes.length - 1) ∧
    root.leaves.Perm (nodes.flatMap PsiTreeNode.leaves)

theorem buildBucketRoots_spec
    {build : List PsiTreeNode → Nat → Option (PsiTreeNode × Nat × Nat)}
    {buckets : List (List PsiTreeNode)} (nonempty : ∀ bucket ∈ buckets, bucket ≠ [])
    (builds : ∀ bucket ∈ buckets, Builds build bucket) (nextIndex : Nat) :
    ∃ roots next merges, buildBucketRoots build buckets nextIndex = some (roots, next, merges) ∧
      roots.length = buckets.length ∧ merges + buckets.length = buckets.flatten.length ∧
      (roots.flatMap PsiTreeNode.leaves).Perm (buckets.flatten.flatMap PsiTreeNode.leaves) := by
  induction buckets generalizing nextIndex with
  | nil => exact ⟨[], nextIndex, 0, rfl, rfl, rfl, List.Perm.refl _⟩
  | cons bucket buckets ih =>
    obtain ⟨bucketNonempty, restNonempty⟩ := List.forall_mem_cons.mp nonempty
    obtain ⟨bucketBuilds, restBuilds⟩ := List.forall_mem_cons.mp builds
    obtain ⟨root, next, rootEq, rootLeaves⟩ := bucketBuilds nextIndex
    obtain ⟨roots, last, merges, rootsEq, length, counted, leaves⟩ :=
      ih restNonempty restBuilds next
    have positive := List.length_pos_iff.mpr bucketNonempty
    refine ⟨root :: roots, last, bucket.length - 1 + merges, ?_, ?_, ?_, ?_⟩
    · simp only [buildBucketRoots, rootEq, rootsEq, Option.bind_eq_bind, Option.bind_some,
        Option.pure_def]
    · rw [List.length_cons, List.length_cons, length]
    · rw [List.length_cons, List.flatten_cons, List.length_append]
      omega
    · rw [List.flatMap_cons, List.flatten_cons, List.flatMap_append]
      exact rootLeaves.append leaves

theorem buildBucketed_builds (limits : PsiLimits) (clusterer : Clusterer)
    {build : List PsiTreeNode → Nat → Option (PsiTreeNode × Nat × Nat)}
    {nodes : List PsiTreeNode} (large : limits.bucketSize < nodes.length)
    (smaller : ∀ part : List PsiTreeNode, part ≠ [] → part.length < nodes.length →
      Builds build part) :
    Builds (buildBucketedPsiStructure limits clusterer build) nodes := by
  intro nextIndex
  obtain ⟨buckets, bucketsEq, perm, fits, fewer⟩ :=
    splitPsiBuckets_spec limits clusterer large le_rfl
  obtain ⟨roots, next, merges, rootsEq, length, counted, leaves⟩ :=
    buildBucketRoots_spec (fun bucket membership => (fits bucket membership).1)
      (fun bucket membership => smaller bucket (fits bucket membership).1
        ((fits bucket membership).2.trans_lt large)) nextIndex
  rw [perm.length_eq] at counted
  have conserved := leaves.trans (perm.flatMap_right _)
  simp only [buildBucketedPsiStructure, bucketsEq, rootsEq, Option.bind_eq_bind, Option.bind_some]
  match roots, length, conserved with
  | [], length, _ =>
    rw [← length, List.length_nil] at counted
    rw [← length, List.length_nil] at fewer
    obtain rfl := List.length_eq_zero_iff.mp length.symm
    have empty := perm.length_eq
    simp only [List.flatten_nil, List.length_nil] at empty
    omega
  | [root], length, conserved =>
    refine ⟨root, next, ?_, by simpa using conserved⟩
    rw [← length, List.length_singleton] at counted
    simp only [Option.pure_def, show merges = nodes.length - 1 by omega]
  | first :: second :: rest, length, conserved =>
    obtain ⟨root, last, rootEq, rootLeaves⟩ :=
      smaller (first :: second :: rest) (List.cons_ne_nil _ _) (length ▸ fewer) next
    refine ⟨root, last, ?_, rootLeaves.trans conserved⟩
    rw [← length] at counted
    simp only [List.length_cons] at rootEq counted
    simp only [rootEq, Option.bind_some, Option.pure_def, Option.some.injEq, Prod.mk.injEq,
      true_and]
    omega

theorem buildFromNodes_builds (limits : PsiLimits) (clusterer : Clusterer)
    (ranking : PairRanking) {fuel : Nat} {nodes : List PsiTreeNode} (nonempty : nodes ≠ [])
    (enough : nodes.length ≤ fuel) :
    Builds (buildPsiStructureFromNodes limits clusterer ranking fuel) nodes := by
  induction fuel generalizing nodes with
  | zero => exact absurd (List.length_eq_zero_iff.mp (Nat.le_zero.mp enough)) nonempty
  | succ fuel ih =>
    intro nextIndex
    simp only [buildPsiStructureFromNodes]
    split_ifs with small
    · obtain ⟨root, next, rank, rootEq, ranked, perm⟩ :=
        buildExactPsiStructure_spec nonempty (ranking.ranksAllPairs nodes) nextIndex
      refine ⟨root, next, rootEq, ?_⟩
      rw [ranked.leaves_eq]
      exact perm.flatMap_right _
    · have large := limits.bucketSize_le.trans_lt (not_le.mp small)
      exact buildBucketed_builds limits clusterer large
        (fun part partNonempty shorter => ih partNonempty (by omega)) nextIndex

/-- For more nodes than fit a bucket, and any labels and any ranking of the pairs: the
splitting ends in a partition into nonempty buckets of bounded size, fewer than there are
nodes; the mutual recursion ends, and the single tree it returns has every input as a leaf
exactly once. -/
theorem bucketedPsi_conserves_leaves (limits : PsiLimits) (clusterer : Clusterer)
    (ranking : PairRanking) {nodes : List PsiTreeNode}
    (large : limits.bucketSize < nodes.length)
    (childless : ∀ node ∈ nodes, node.children = []) (nextIndex : Nat) {fuel : Nat}
    (enough : 2 * nodes.length ≤ fuel) :
    (∃ buckets, splitPsiBuckets limits clusterer fuel nodes = some buckets ∧
      buckets.flatten.Perm nodes ∧
      (∀ bucket ∈ buckets, bucket ≠ [] ∧ bucket.length ≤ limits.bucketSize) ∧
      buckets.length < nodes.length) ∧
    ∃ root next,
      buildPsiStructureFromNodes limits clusterer ranking fuel nodes nextIndex =
          some (root, next, nodes.length - 1) ∧
        root.leaves.Perm nodes := by
  refine ⟨splitPsiBuckets_spec limits clusterer large enough, ?_⟩
  have nonempty : nodes ≠ [] := by
    rintro rfl
    exact Nat.not_lt_zero _ large
  obtain ⟨root, next, rootEq, leaves⟩ :=
    buildFromNodes_builds limits clusterer ranking nonempty (by omega : nodes.length ≤ fuel)
      nextIndex
  rw [PsiTreeNode.flatMap_leaves_of_childless childless] at leaves
  exact ⟨root, next, rootEq, leaves⟩

def constantClusterer : Clusterer where
  label _ _ _ _ := 0
  label_lt _ _ _ _ positive := positive

def plainRanking : PairRanking where
  pairs nodes := lowerTriangle nodes.length
  perm _ := List.Perm.refl _

theorem bucketedPsi_conserves_leaves_of_three :
    (∃ buckets, splitPsiBuckets (.ofConfig 2 2) constantClusterer 6 threeLeaves = some buckets ∧
      buckets.flatten.Perm threeLeaves ∧
      (∀ bucket ∈ buckets, bucket ≠ [] ∧ bucket.length ≤ 2) ∧ buckets.length < 3) ∧
    ∃ root next,
      buildPsiStructureFromNodes (.ofConfig 2 2) constantClusterer plainRanking 6 threeLeaves 3 =
          some (root, next, 2) ∧
        root.leaves.Perm threeLeaves :=
  bucketedPsi_conserves_leaves (.ofConfig 2 2) constantClusterer plainRanking (by decide)
    (by simp [threeLeaves, PsiTreeNode.children]) 3 (by decide)

end RagFlow.Raptor
