import Mathlib.Algebra.BigOperators.Group.List.Basic
import Mathlib.Data.Finset.Sort
import Mathlib.Tactic.NormNum
import RagFlow.Lib.Fallible
import RagFlow.Lib.Grouping
import RagFlow.Lib.WhileLoop
import RagFlow.Raptor.SummaryLayers

/-!
# Classic layers

The classic builder clusters the chunks of a layer and summarizes each cluster, layer after layer.
A chunk belongs to the first component whose responsibility for it is over a threshold.
-/

namespace RagFlow.Raptor

open RagFlow.Lib

inductive ClusteringMethod where
  | gmm
  | ahc
  deriving DecidableEq

inductive PyError where
  | assertionError
  | indexError
  | valueError
  deriving DecidableEq

structure Clusterers where
  bic : (layer components : Nat) → ℚ
  /-- `predict_proba` -/
  responsibility : (layer components row component : Nat) → ℚ
  responsibility_nonneg : ∀ layer components row component,
    0 ≤ responsibility layer components row component
  responsibility_sum : ∀ layer components row, 0 < components →
    ((List.range components).map (responsibility layer components row)).sum = 1
  /-- `distances_`, of which there is one less than there are embeddings. -/
  distances : (layer merge : Nat) → ℚ
  fitPredict : (layer nClusters row : Nat) → Nat
  fitPredict_lt : ∀ layer nClusters row, 0 < nClusters → fitPredict layer nClusters row < nClusters
  /-- The squared distance of a row to the centroid of the rows with a label. -/
  sqDist : (layer : Nat) → (labels : List Nat) → (row label : Nat) → ℚ

abbrev Run := List Nat × Option Chunk

/-- A failure is below `max_errors`, so that it only leaves out a summary; the summaries of a layer
come in any order. -/
structure ClassicBuilder where
  maxCluster : Nat
  threshold : ℚ
  clusteringMethod : ClusteringMethod
  clusterers : Clusterers
  summarizeTexts : (layer : Nat) → (ckIdx : List Nat) → (texts : List String) → Option Chunk
  completed : (layer : Nat) → List Run → List Run
  completed_perm : ∀ layer runs, (completed layer runs).Perm runs

def argmin (values : List ℚ) : Option Nat := values.min?.map fun least => values.idxOf least

def argmax (values : List ℚ) : Option Nat := values.max?.map fun most => values.idxOf most

def unique (labels : List Nat) : List Nat := labels.toFinset.sort

def diff (values : List ℚ) : List ℚ :=
  List.zipWith (fun next value => next - value) values.tail values

namespace ClassicBuilder

variable (builder : ClassicBuilder)

/-- Nothing where `np.argmin` gets no values. -/
def getOptimalClusters (layer length : Nat) : Option Nat :=
  let nClusters := List.range' 1 (min builder.maxCluster length - 1)
  (argmin (nClusters.map (builder.clusterers.bic layer))).bind fun best => nClusters[best]?

def getClustersAhc (layer n : Nat) : List Nat :=
  if n ≤ 1 then List.replicate n 0
  else if n = 2 then List.range n
  else
    let distances := (List.range (n - 1)).map (builder.clusterers.distances layer)
    let nClusters :=
      if 1 < distances.length then
        max 1 (min (n - (argmax (diff distances)).getD 0 - 1) builder.maxCluster)
      else max 1 (min n builder.maxCluster)
    if nClusters ≤ 1 then List.replicate n 0
    else (List.range n).map (builder.clusterers.fitPredict layer nClusters)

def nearest (layer : Nat) (labels : List Nat) (row : Nat) : Nat :=
  let unique := unique labels
  let closest := argmin (unique.map (builder.clusterers.sqDist layer labels row))
  (closest.bind fun index => unique[index]?).getD 0

/-- The loop of `_adjust_tree_nodes`, with the iterations that are left. -/
def adjustTreeNodes (layer : Nat) : Nat → List Nat → List Nat
  | 0, labels => labels
  | iterations + 1, labels =>
    if (unique labels).length ≤ 1 then labels
    else
      let newLabels := (List.range labels.length).map (builder.nearest layer labels)
      if newLabels = labels then labels
      else adjustTreeNodes layer iterations (newLabels.map (unique newLabels).idxOf)

def firstComponent (layer components row : Nat) : Option Nat :=
  (List.range components).find? fun component =>
    builder.threshold < builder.clusterers.responsibility layer components row component

def label (layer n : Nat) : Except PyError (Nat × List Nat) :=
  match builder.clusteringMethod with
  | .ahc =>
    let rawLabels := builder.getClustersAhc layer n
    let adjusted :=
      if 1 < (unique rawLabels).length then builder.adjustTreeNodes layer 5 rawLabels
      else rawLabels
    .ok ((unique adjusted).length, adjusted.map (unique adjusted).idxOf)
  | .gmm =>
    match builder.getOptimalClusters layer n with
    | none => .error .valueError
    | some nClusters =>
      if nClusters = 1 then .ok (1, List.replicate n 0)
      else
        match (List.range n).mapM (builder.firstComponent layer nClusters) with
        | none => .error .indexError
        | some lbls => .ok (nClusters, lbls)

end ClassicBuilder

/-- `runs` are the clusters of each layer that got summaries. -/
structure LayerState where
  chunks : List Chunk
  layers : Bounds
  start : Nat
  stop : Nat
  runs : List (List Run)

def clusterIndices (start nClusters : Nat) (lbls : List Nat) : List (List Nat) :=
  (List.range nClusters).map fun c =>
    ((List.range lbls.length).filter fun i => lbls[i]? = some c).map fun i => i + start

namespace ClassicBuilder

variable (builder : ClassicBuilder)

def summarize (state : LayerState) (ckIdx : List Nat) : Run :=
  (ckIdx, builder.summarizeTexts state.layers.length ckIdx
    (ckIdx.filterMap fun i => state.chunks[i]?.map Chunk.text))

/-- Summarize the clusters; no summaries break the loop. -/
def summarizeAll (state : LayerState) (clusters : List (List Nat)) : Option LayerState :=
  let runs := clusters.map (builder.summarize state)
  let chunks :=
    state.chunks ++ (builder.completed state.layers.length runs).filterMap fun run => run.2
  if chunks.length - state.stop = 0 then none
  else
    some
      { chunks := chunks
        layers := state.layers ++ [(state.stop, chunks.length)]
        start := state.stop
        stop := chunks.length
        runs := state.runs ++ [runs] }

def processLayer (state : LayerState) : Except PyError (Option LayerState) :=
  if state.stop - state.start = 2 then
    .ok (builder.summarizeAll state [[state.start, state.start + 1]])
  else
    match builder.label state.layers.length (state.stop - state.start) with
    | .error error => .error error
    | .ok (nClusters, lbls) =>
      let clusters := clusterIndices state.start nClusters lbls
      if [] ∈ clusters then .error .assertionError
      else
        match builder.summarizeAll state clusters with
        | none => .ok none
        | some next =>
          if nClusters < next.chunks.length - state.stop then .error .assertionError
          else .ok (some next)

def startLayers (chunks : List Chunk) : LayerState where
  chunks := chunks
  layers := [(0, chunks.length)]
  start := 0
  stop := chunks.length
  runs := []

def size (state : LayerState) : Nat := state.stop - state.start

def isOn (state : LayerState) : Bool := 1 < size state

/-- `__call__` with the classic tree builder; nothing if the fuel of the loop did not suffice. -/
def call (fuel : Nat) (chunks : List Chunk) : Option (Except PyError LayerState) :=
  if chunks.length ≤ 1 then some (.ok { startLayers [] with layers := [] })
  else
    let chunks := chunks.filter Chunk.complete
    if chunks.length ≤ 1 then some (.ok (startLayers chunks))
    else WhileLoop.loop isOn builder.processLayer fuel (startLayers chunks)

end ClassicBuilder

theorem argmin_lt {values : List ℚ} {index : Nat} (isLeast : argmin values = some index) :
    index < values.length := by
  obtain ⟨least, isMin, rfl⟩ := Option.map_eq_some_iff.mp isLeast
  exact List.idxOf_lt_length_of_mem (List.min?_mem isMin)

theorem argmin_isSome {values : List ℚ} : (argmin values).isSome ↔ values ≠ [] := by
  rw [argmin, Option.isSome_map, List.isSome_min?_iff]

theorem mem_unique {labels : List Nat} {lbl : Nat} : lbl ∈ unique labels ↔ lbl ∈ labels := by
  rw [unique, Finset.mem_sort, List.mem_toFinset]

theorem length_unique_le {labels : List Nat} {bound : Nat}
    (within : ∀ lbl ∈ labels, lbl < bound) : (unique labels).length ≤ bound := by
  have subset : unique labels ⊆ List.range bound :=
    fun lbl isLabel => List.mem_range.mpr (within lbl (mem_unique.mp isLabel))
  have fewer := ((Finset.sort_nodup _ _).subperm subset).length_le
  rwa [List.length_range] at fewer

theorem mem_clusterIndices {start nClusters : Nat} {lbls : List Nat} {cluster : List Nat} :
    cluster ∈ clusterIndices start nClusters lbls ↔ ∃ c < nClusters,
      ((List.range lbls.length).filter fun i => lbls[i]? = some c).map (fun i => i + start) =
        cluster := by
  simp [clusterIndices]

theorem nil_mem_clusterIndices {start nClusters : Nat} {lbls : List Nat} :
    [] ∈ clusterIndices start nClusters lbls ↔ ∃ c < nClusters, c ∉ lbls := by
  rw [mem_clusterIndices]
  refine exists_congr fun c => and_congr_right fun _ => ?_
  rw [List.map_eq_nil_iff, List.filter_eq_nil_iff, List.mem_iff_getElem?, not_exists]
  constructor
  · intro noRow row isRow
    have inRange := (List.getElem?_eq_some_iff.mp isRow).1
    exact noRow row (List.mem_range.mpr inRange) (decide_eq_true isRow)
  · exact fun noRow row _ isRow => noRow row (of_decide_eq_true isRow)

theorem perm_clusterIndices {start nClusters : Nat} {lbls : List Nat}
    (within : ∀ lbl ∈ lbls, lbl < nClusters) :
    (clusterIndices start nClusters lbls).flatten.Perm (List.range' start lbls.length) := by
  have perm := @Grouping.perm_members _ _ _ (fun i : Nat => lbls[i]?) (List.range lbls.length) _
    (List.nodup_range (n := nClusters))
  have all : ((List.range lbls.length).filter
      fun i => ∃ c ∈ List.range nClusters, lbls[i]? = some c) = List.range lbls.length := by
    refine List.filter_eq_self.mpr fun i inRange => decide_eq_true ?_
    have isRow := List.getElem?_eq_getElem (List.mem_range.mp inRange)
    exact ⟨_, List.mem_range.mpr (within _ (List.getElem_mem _)), isRow⟩
  rw [all] at perm
  have shifted := perm.symm.map fun i => i + start
  rw [List.map_flatMap] at shifted
  rw [clusterIndices, ← List.flatMap_def, List.range'_eq_map_range]
  simp only [Nat.add_comm start]
  exact shifted

theorem length_clusterIndices (start nClusters : Nat) (lbls : List Nat) :
    (clusterIndices start nClusters lbls).length = nClusters := by
  simp [clusterIndices]

namespace ClassicBuilder

variable {builder : ClassicBuilder}

theorem mem_optimalClusters {layer length nClusters : Nat}
    (optimal : builder.getOptimalClusters layer length = some nClusters) :
    1 ≤ nClusters ∧ nClusters < min builder.maxCluster length := by
  obtain ⟨best, _, isBest⟩ := Option.bind_eq_some_iff.mp optimal
  have isCandidate := List.mem_of_getElem? isBest
  rw [List.mem_range'_1] at isCandidate
  omega

theorem getOptimalClusters_isSome {layer length : Nat} (several : 2 ≤ length) :
    (builder.getOptimalClusters layer length).isSome ↔ 2 ≤ builder.maxCluster := by
  constructor
  · intro isSome
    obtain ⟨nClusters, optimal⟩ := Option.isSome_iff_exists.mp isSome
    have bounds := mem_optimalClusters optimal
    omega
  · intro enough
    have nonempty : (List.range' 1 (min builder.maxCluster length - 1)).map
        (builder.clusterers.bic layer) ≠ [] := by
      rw [ne_eq, List.map_eq_nil_iff, List.range'_eq_nil_iff]
      omega
    obtain ⟨best, isBest⟩ := Option.isSome_iff_exists.mp (argmin_isSome.mpr nonempty)
    have inRange := argmin_lt isBest
    rw [List.length_map] at inRange
    rw [getOptimalClusters]
    simp only [isBest, Option.bind_some, List.getElem?_eq_getElem inRange, Option.isSome_some]

theorem getClustersAhc_lt {layer n : Nat} (several : 3 ≤ n) :
    (builder.getClustersAhc layer n).length = n ∧
      ∀ lbl ∈ builder.getClustersAhc layer n, lbl < n - 1 := by
  unfold getClustersAhc
  rw [if_neg (by omega), if_neg (by omega)]
  have long : 1 < n - 1 := by omega
  simp only [List.length_map, List.length_range, if_pos long]
  split_ifs with one
  · refine ⟨List.length_replicate, fun lbl isLabel => ?_⟩
    rw [List.eq_of_mem_replicate isLabel]
    omega
  · refine ⟨by simp, fun lbl isLabel => ?_⟩
    obtain ⟨row, _, rfl⟩ := List.mem_map.mp isLabel
    refine (builder.clusterers.fitPredict_lt _ _ _ (by omega)).trans_le ?_
    omega

theorem nearest_mem {layer : Nat} {labels : List Nat} (nonempty : labels ≠ []) (row : Nat) :
    builder.nearest layer labels row ∈ labels := by
  have uniqueNonempty : unique labels ≠ [] := by
    obtain ⟨lbl, isLabel⟩ := List.exists_mem_of_ne_nil labels nonempty
    exact List.ne_nil_of_mem (mem_unique.mpr isLabel)
  obtain ⟨index, isClosest⟩ := Option.isSome_iff_exists.mp (argmin_isSome.mpr
    (by simpa using uniqueNonempty :
      (unique labels).map (builder.clusterers.sqDist layer labels row) ≠ []))
  have inRange := argmin_lt isClosest
  rw [List.length_map] at inRange
  rw [nearest, isClosest, Option.bind_some, List.getElem?_eq_getElem inRange, Option.getD_some]
  exact mem_unique.mp (List.getElem_mem inRange)

theorem adjustTreeNodes_lt {layer bound : Nat} (iterations : Nat) {labels : List Nat}
    (within : ∀ lbl ∈ labels, lbl < bound) :
    (builder.adjustTreeNodes layer iterations labels).length = labels.length ∧
      ∀ lbl ∈ builder.adjustTreeNodes layer iterations labels, lbl < bound := by
  induction iterations generalizing labels with
  | zero => exact ⟨rfl, within⟩
  | succ iterations ih =>
    unfold adjustTreeNodes
    split_ifs with one
    · exact ⟨rfl, within⟩
    · simp only
      split_ifs
      · exact ⟨rfl, within⟩
      · have nonempty : labels ≠ [] := by
          rintro rfl
          simp [unique] at one
        have newWithin : ∀ lbl ∈ (List.range labels.length).map (builder.nearest layer labels),
            lbl < bound := by
          intro lbl isLabel
          obtain ⟨row, _, rfl⟩ := List.mem_map.mp isLabel
          exact within _ (nearest_mem nonempty row)
        have adjusted := @ih
          (((List.range labels.length).map (builder.nearest layer labels)).map
            (unique ((List.range labels.length).map (builder.nearest layer labels))).idxOf) ?_
        · simpa using adjusted
        · intro lbl isLabel
          obtain ⟨old, isOld, rfl⟩ := List.mem_map.mp isLabel
          exact (List.idxOf_lt_length_of_mem (mem_unique.mpr isOld)).trans_le
            (length_unique_le newWithin)

def Over (builder : ClassicBuilder) (layer nClusters row component : Nat) : Prop :=
  builder.threshold < builder.clusterers.responsibility layer nClusters row component

theorem firstComponent_eq_some_iff {layer nClusters row component : Nat} :
    builder.firstComponent layer nClusters row = some component ↔
      component < nClusters ∧ builder.Over layer nClusters row component ∧
        ∀ earlier < component, ¬ builder.Over layer nClusters row earlier := by
  rw [firstComponent, List.find?_range_eq_some]
  simp only [decide_eq_true_eq, List.mem_range, Bool.not_eq_eq_eq_not, Bool.not_true,
    decide_eq_false_iff_not, Over]
  tauto

theorem firstComponent_isSome_iff {layer nClusters row : Nat} :
    (builder.firstComponent layer nClusters row).isSome ↔
      ∃ component < nClusters, builder.Over layer nClusters row component := by
  rw [firstComponent, List.find?_isSome]
  simp [Over]

/-- Every row has a component over the threshold, and every component is the first for a row. -/
structure Labelled (builder : ClassicBuilder) (layer n nClusters : Nat) : Prop where
  ofRow : ∀ row < n, ∃ component < nClusters, builder.Over layer nClusters row component
  ofComponent : ∀ component < nClusters, ∃ row < n, builder.Over layer nClusters row component ∧
    ∀ earlier < component, ¬ builder.Over layer nClusters row earlier

def Covers (builder : ClassicBuilder) (layer n : Nat) : Prop :=
  ∃ nClusters lbls, builder.label layer n = .ok (nClusters, lbls) ∧ ∀ c < nClusters, c ∈ lbls

theorem labelled_iff {layer n nClusters : Nat} :
    (∃ lbls, (List.range n).mapM (builder.firstComponent layer nClusters) = some lbls ∧
      ∀ c < nClusters, c ∈ lbls) ↔ Labelled builder layer n nClusters := by
  constructor
  · rintro ⟨lbls, isLabels, covers⟩
    have sameMap := Fallible.mapM_eq_some_iff.mp isLabels
    refine ⟨fun row inRange => ?_, fun component isComponent => ?_⟩
    · refine firstComponent_isSome_iff.mp ?_
      exact Fallible.mapM_isSome_iff.mp (Option.isSome_iff_exists.mpr ⟨lbls, isLabels⟩) row
        (List.mem_range.mpr inRange)
    · have isImage : some component ∈
          (List.range n).map (builder.firstComponent layer nClusters) :=
        sameMap ▸ List.mem_map_of_mem (covers component isComponent)
      obtain ⟨row, inRange, isFirst⟩ := List.mem_map.mp isImage
      exact ⟨row, List.mem_range.mp inRange, (firstComponent_eq_some_iff.mp isFirst).2⟩
  · intro labelled
    obtain ⟨lbls, isLabels⟩ := Option.isSome_iff_exists.mp
      (Fallible.mapM_isSome_iff.mpr fun row inRange =>
        firstComponent_isSome_iff.mpr (labelled.ofRow row (List.mem_range.mp inRange)))
    refine ⟨lbls, isLabels, fun c isComponent => ?_⟩
    obtain ⟨row, inRange, isFirst⟩ := labelled.ofComponent c isComponent
    have sameMap := Fallible.mapM_eq_some_iff.mp isLabels
    have isImage : some c ∈ lbls.map some :=
      sameMap ▸ List.mem_map.mpr ⟨row, List.mem_range.mpr inRange,
        firstComponent_eq_some_iff.mpr ⟨isComponent, isFirst⟩⟩
    simpa using isImage

def LayerOk (builder : ClassicBuilder) (layer n : Nat) : Prop :=
  builder.clusteringMethod = .gmm → 2 ≤ builder.maxCluster ∧
    ∀ nClusters, builder.getOptimalClusters layer n = some nClusters → nClusters ≠ 1 →
      Labelled builder layer n nClusters

theorem ahc_covers {labels : List Nat} {c : Nat} (isCluster : c < (unique labels).length) :
    c ∈ labels.map (unique labels).idxOf := by
  refine List.mem_map.mpr ⟨(unique labels)[c], mem_unique.mp (List.getElem_mem _), ?_⟩
  exact (Finset.sort_nodup _ _).idxOf_getElem c isCluster

theorem covers_iff {layer n : Nat} (several : 2 ≤ n) :
    builder.Covers layer n ↔ builder.LayerOk layer n := by
  unfold Covers LayerOk label
  cases builder.clusteringMethod with
  | ahc => exact iff_of_true ⟨_, _, rfl, fun c isCluster => ahc_covers isCluster⟩ nofun
  | gmm =>
    have enough := @getOptimalClusters_isSome builder layer n several
    cases optimal : builder.getOptimalClusters layer n with
    | none =>
      rw [optimal] at enough
      refine iff_of_false (fun ⟨_, _, isOk, _⟩ => nomatch isOk) fun ok => ?_
      exact absurd (enough.mpr (ok rfl).1) (by simp)
    | some nClusters =>
      rw [optimal] at enough
      by_cases one : nClusters = 1
      · subst one
        refine iff_of_true ⟨1, List.replicate n 0, rfl, fun c isCluster => ?_⟩ fun _ =>
          ⟨enough.mp rfl, fun _ isOther apart => absurd (Option.some.inj isOther).symm apart⟩
        rw [Nat.lt_one_iff.mp isCluster]
        exact List.mem_replicate.mpr ⟨by omega, rfl⟩
      · have labelled := @labelled_iff builder layer n nClusters
        simp only [if_neg one]
        constructor
        · rintro ⟨count, lbls, isOk, covers⟩ _
          refine ⟨enough.mp rfl, fun other isOther _ => ?_⟩
          obtain rfl := Option.some.inj isOther
          cases isLabels : (List.range n).mapM (builder.firstComponent layer nClusters) with
          | none =>
            rw [isLabels] at isOk
            cases isOk
          | some found =>
            rw [isLabels] at isOk
            cases isOk
            exact labelled.mp ⟨lbls, isLabels, covers⟩
        · intro ok
          obtain ⟨lbls, isLabels, covers⟩ := labelled.mpr ((ok trivial).2 nClusters rfl one)
          exact ⟨nClusters, lbls, by rw [isLabels], covers⟩

/-- The labels of the rows, of which there are fewer. -/
structure Labels (n nClusters : Nat) (lbls : List Nat) : Prop where
  length_eq : lbls.length = n
  within : ∀ lbl ∈ lbls, lbl < nClusters
  fewer : nClusters < n

theorem labels_of_label {layer n nClusters : Nat} {lbls : List Nat} (several : 3 ≤ n)
    (isLabel : builder.label layer n = .ok (nClusters, lbls)) : Labels n nClusters lbls := by
  unfold label at isLabel
  cases isMethod : builder.clusteringMethod with
  | ahc =>
    rw [isMethod] at isLabel
    have raw := @getClustersAhc_lt builder layer n several
    have adjusted := @adjustTreeNodes_lt builder layer _ 5 _ raw.2
    simp only [Except.ok.injEq, Prod.mk.injEq] at isLabel
    obtain ⟨rfl, rfl⟩ := isLabel
    generalize isAdjusted : (if 1 < (unique (builder.getClustersAhc layer n)).length then
      builder.adjustTreeNodes layer 5 (builder.getClustersAhc layer n)
      else builder.getClustersAhc layer n) = labels
    have bounds : labels.length = n ∧ ∀ lbl ∈ labels, lbl < n - 1 := by
      rw [← isAdjusted]
      split_ifs
      · exact ⟨adjusted.1.trans raw.1, adjusted.2⟩
      · exact raw
    refine ⟨by simpa using bounds.1, fun lbl isLbl => ?_, ?_⟩
    · obtain ⟨old, isOld, rfl⟩ := List.mem_map.mp isLbl
      exact List.idxOf_lt_length_of_mem (mem_unique.mpr isOld)
    · have fewer := length_unique_le bounds.2
      omega
  | gmm =>
    rw [isMethod] at isLabel
    cases optimal : builder.getOptimalClusters layer n with
    | none =>
      rw [optimal] at isLabel
      cases isLabel
    | some count =>
      rw [optimal] at isLabel
      have bounds := mem_optimalClusters optimal
      simp only at isLabel
      split_ifs at isLabel with one
      · cases isLabel
        refine ⟨List.length_replicate, fun lbl isLbl => ?_, by omega⟩
        rw [List.eq_of_mem_replicate isLbl]
        exact Nat.one_pos
      · cases isLabels : (List.range n).mapM (builder.firstComponent layer count) with
        | none =>
          rw [isLabels] at isLabel
          cases isLabel
        | some found =>
          rw [isLabels] at isLabel
          cases isLabel
          have sameMap := Fallible.mapM_eq_some_iff.mp isLabels
          refine ⟨by simpa using (congrArg List.length sameMap).symm, fun lbl isLbl => ?_,
            by omega⟩
          have isImage : some lbl ∈
              (List.range n).map (builder.firstComponent layer nClusters) :=
            sameMap ▸ List.mem_map_of_mem isLbl
          obtain ⟨row, _, isFirst⟩ := List.mem_map.mp isImage
          exact (firstComponent_eq_some_iff.mp isFirst).1

def OnceEach (layer : Nat × Nat) (runs : List Run) : Prop :=
  (runs.map Prod.fst).flatten.Perm (List.range' layer.1 (layer.2 - layer.1))

/-- The layers are intervals that partition the chunks, each with the summaries of the clusters of
the one before, and they get smaller. -/
structure LayersOk (kept : List Chunk) (state : LayerState) : Prop where
  layered : ∃ groups, Layered kept groups state.chunks state.layers ∧
    List.Forall₂ (fun group runs => group.Perm (runs.filterMap Prod.snd)) groups state.runs
  once : List.Forall₂ OnceEach state.layers.dropLast state.runs
  shrinking : state.layers.IsChain fun layer next => next.2 - next.1 < layer.2 - layer.1

structure LayersInv (kept : List Chunk) (state : LayerState) : Prop extends
    LayersOk kept state where
  stop_eq : state.stop = state.chunks.length
  current : state.layers.getLast? = some (state.start, state.stop)

theorem layersInv_startLayers (kept : List Chunk) : LayersInv kept (startLayers kept) where
  layered := ⟨[], .start kept, .nil⟩
  once := .nil
  shrinking := .singleton _
  stop_eq := rfl
  current := rfl

structure Added (state : LayerState) (clusters : List (List Nat)) (group : List Chunk)
    (next : LayerState) : Prop where
  nonempty : group ≠ []
  fewer : group.length ≤ clusters.length
  next_eq : next =
    { chunks := state.chunks ++ group
      layers := state.layers ++ [(state.stop, (state.chunks ++ group).length)]
      start := state.stop
      stop := (state.chunks ++ group).length
      runs := next.runs }
  runs_eq : ∃ runs, next.runs = state.runs ++ [runs] ∧ runs.map Prod.fst = clusters ∧
    group.Perm (runs.filterMap Prod.snd)

theorem summarizeAll_eq_some {state next : LayerState} {clusters : List (List Nat)}
    (stop_eq : state.stop = state.chunks.length)
    (isNext : builder.summarizeAll state clusters = some next) :
    ∃ group, Added state clusters group next := by
  unfold summarizeAll at isNext
  simp only at isNext
  split_ifs at isNext with produced
  cases isNext
  have perm := (builder.completed_perm state.layers.length
    (clusters.map (builder.summarize state))).filterMap Prod.snd
  refine ⟨_, ?_, ?_, rfl, _, rfl, ?_, perm⟩
  · intro isNil
    rw [isNil] at produced
    simp [stop_eq] at produced
  · refine perm.length_eq.trans_le ((List.length_filterMap_le _ _).trans ?_)
    rw [List.length_map]
  · rw [List.map_map]
    exact List.map_id clusters

theorem added_of_processLayer {state next : LayerState}
    (several : 1 < state.stop - state.start) (stop_eq : state.stop = state.chunks.length)
    (isNext : builder.processLayer state = .ok (some next)) :
    ∃ clusters group, Added state clusters group next ∧
      clusters.flatten.Perm (List.range' state.start (state.stop - state.start)) ∧
        clusters.length < state.stop - state.start := by
  unfold processLayer at isNext
  split_ifs at isNext with two
  · obtain ⟨group, added⟩ := summarizeAll_eq_some stop_eq (Except.ok.inj isNext)
    refine ⟨_, group, added, .of_eq ?_, by simpa using several⟩
    rw [two]
    rfl
  · cases isLabel : builder.label state.layers.length (state.stop - state.start) with
    | error error =>
      rw [isLabel] at isNext
      cases isNext
    | ok found =>
      obtain ⟨nClusters, lbls⟩ := found
      have labels := labels_of_label (by omega) isLabel
      rw [isLabel] at isNext
      simp only at isNext
      split_ifs at isNext
      cases summarized : builder.summarizeAll state
          (clusterIndices state.start nClusters lbls) with
      | none =>
        rw [summarized] at isNext
        cases isNext
      | some other =>
        rw [summarized] at isNext
        simp only at isNext
        split_ifs at isNext
        cases isNext
        obtain ⟨group, added⟩ := summarizeAll_eq_some stop_eq summarized
        have perm := @perm_clusterIndices state.start nClusters lbls labels.within
        rw [labels.length_eq] at perm
        refine ⟨_, group, added, perm, ?_⟩
        rw [length_clusterIndices]
        exact labels.fewer

theorem processLayer_ok_iff {state : LayerState} (several : 1 < state.stop - state.start)
    (stop_eq : state.stop = state.chunks.length) :
    (∃ step, builder.processLayer state = .ok step) ↔
      (state.stop - state.start ≠ 2 →
        builder.LayerOk state.layers.length (state.stop - state.start)) := by
  rw [← covers_iff several]
  unfold processLayer
  split_ifs with two
  · exact iff_of_true ⟨_, rfl⟩ fun apart => absurd two apart
  · rw [forall_prop_of_true two]
    unfold Covers
    cases builder.label state.layers.length (state.stop - state.start) with
    | error error => exact iff_of_false nofun nofun
    | ok found =>
      obtain ⟨nClusters, lbls⟩ := found
      simp only [Except.ok.injEq, Prod.mk.injEq]
      have unused := @nil_mem_clusterIndices state.start nClusters lbls
      split_ifs with isEmpty
      · obtain ⟨c, isCluster, missing⟩ := unused.mp isEmpty
        refine iff_of_false nofun ?_
        rintro ⟨_, _, ⟨rfl, rfl⟩, covers⟩
        exact missing (covers c isCluster)
      · have covers : ∀ c < nClusters, c ∈ lbls := fun c isCluster =>
          by_contra fun missing => isEmpty (unused.mpr ⟨c, isCluster, missing⟩)
        refine iff_of_true ?_ ⟨nClusters, lbls, ⟨rfl, rfl⟩, covers⟩
        cases summarized : builder.summarizeAll state
            (clusterIndices state.start nClusters lbls) with
        | none => exact ⟨none, rfl⟩
        | some next =>
          obtain ⟨group, added⟩ := summarizeAll_eq_some stop_eq summarized
          have fewer := added.fewer
          rw [length_clusterIndices] at fewer
          have produced : ¬ nClusters < next.chunks.length - state.stop := by
            rw [added.next_eq, stop_eq, List.length_append]
            omega
          exact ⟨some next, if_neg produced⟩

theorem layersInv_next {kept : List Chunk} {state next : LayerState}
    (inv : LayersInv kept state)
    (isNext : WhileLoop.Next isOn builder.processLayer state next) :
    LayersInv kept next ∧ next.stop - next.start < state.stop - state.start := by
  have several : 1 < state.stop - state.start := of_decide_eq_true isNext.1
  obtain ⟨clusters, group, added, perm, fewer⟩ :=
    added_of_processLayer several inv.stop_eq isNext.2
  obtain ⟨groups, layered, summarized⟩ := inv.layered
  obtain ⟨runs, isRuns, isClusters, isGroup⟩ := added.runs_eq
  have size : (state.chunks ++ group).length - state.stop = group.length := by
    rw [inv.stop_eq, List.length_append]
    omega
  have shrinks : group.length < state.stop - state.start := added.fewer.trans_lt fewer
  rw [added.next_eq]
  refine ⟨⟨⟨⟨groups ++ [group], ?_, ?_⟩, ?_, ?_⟩, rfl, by simp⟩, size.trans_lt shrinks⟩
  · simpa [inv.stop_eq] using layered.append group
  · rw [isRuns]
    exact List.rel_append summarized (.cons isGroup .nil)
  · -- the layer that was the last one has got its clusters
    have before : state.layers = state.layers.dropLast ++ [(state.start, state.stop)] :=
      (List.dropLast_append_getLast? _ inv.current).symm
    rw [List.dropLast_concat, isRuns, before]
    refine List.rel_append inv.once (.cons ?_ .nil)
    rw [OnceEach, isClusters]
    exact perm
  · refine inv.shrinking.append (.singleton _) fun layer isLast other isOther => ?_
    obtain rfl := Option.some.inj (inv.current.symm.trans isLast)
    obtain rfl := Option.some.inj isOther
    exact size.trans_lt shrinks

abbrev Reached (builder : ClassicBuilder) (chunks : List Chunk) (state : LayerState) : Prop :=
  WhileLoop.Reached isOn builder.processLayer (startLayers (chunks.filter Chunk.complete)) state

/-- The run over two or more chunks ends without an error, and in layers as they should be, exactly
where the labels of every layer that it comes to are all used. -/
theorem exists_call_iff (builder : ClassicBuilder) (first second : Chunk) (rest : List Chunk) :
    (∃ fuel final, builder.call fuel (first :: second :: rest) = some (.ok final) ∧
      LayersOk ((first :: second :: rest).filter Chunk.complete) final) ↔
      ∀ state, Reached builder (first :: second :: rest) state →
        1 < state.stop - state.start → state.stop - state.start ≠ 2 →
          builder.LayerOk state.layers.length (state.stop - state.start) := by
  generalize isChunks : first :: second :: rest = chunks
  have several : ¬ chunks.length ≤ 1 := by
    rw [← isChunks]
    simp
  simp only [call, if_neg several]
  have start := layersInv_startLayers (chunks.filter Chunk.complete)
  have preserved : ∀ state next, LayersInv (chunks.filter Chunk.complete) state →
      WhileLoop.Next isOn builder.processLayer state next →
        LayersInv (chunks.filter Chunk.complete) next :=
    fun _ _ inv isNext => (layersInv_next inv isNext).1
  have reachedInv : ∀ state, Reached builder chunks state →
      LayersInv (chunks.filter Chunk.complete) state :=
    fun _ reached => WhileLoop.invariant_of_reached start preserved reached
  by_cases few : (chunks.filter Chunk.complete).length ≤ 1
  · simp only [if_pos few]
    refine iff_of_true ⟨0, _, rfl, start.toLayersOk⟩ fun state reached isMore => ?_
    have stays : ∀ state next, startLayers (chunks.filter Chunk.complete) = state →
        WhileLoop.Next isOn builder.processLayer state next →
          startLayers (chunks.filter Chunk.complete) = next := by
      rintro state next rfl isNext
      exact absurd (of_decide_eq_true isNext.1) (Nat.not_lt.mpr few)
    obtain rfl := WhileLoop.invariant_of_reached rfl stays reached
    exact absurd isMore (Nat.not_lt.mpr few)
  · simp only [if_neg few]
    have decreases : ∀ state next, LayersInv (chunks.filter Chunk.complete) state →
        WhileLoop.Next isOn builder.processLayer state next →
          size next < size state :=
      fun _ _ inv isNext => (layersInv_next inv isNext).2
    have noError := WhileLoop.exists_loop_ok_iff preserved decreases start
    constructor
    · rintro ⟨fuel, final, ends, _⟩ state reached isMore
      exact (processLayer_ok_iff isMore (reachedInv state reached).stop_eq).mp
        (noError.mp ⟨fuel, final, ends⟩ state reached (decide_eq_true isMore))
    · intro ok
      obtain ⟨fuel, final, ends⟩ := noError.mpr fun state reached isMore =>
        (processLayer_ok_iff (of_decide_eq_true isMore) (reachedInv state reached).stop_eq).mpr
          (ok state reached (of_decide_eq_true isMore))
      exact ⟨fuel, final, ends, (reachedInv final (WhileLoop.reached_of_loop ends).1).toLayersOk⟩

theorem exists_call (builder : ClassicBuilder) (chunks : List Chunk) :
    ∃ result, builder.call (chunks.length + 1) chunks = some result := by
  unfold call
  split_ifs
  · exact ⟨_, rfl⟩
  · simp only
    split_ifs
    · exact ⟨_, rfl⟩
    · have start := layersInv_startLayers (chunks.filter Chunk.complete)
      have enough : size (startLayers (chunks.filter Chunk.complete)) < chunks.length + 1 :=
        Nat.lt_succ_of_le (List.length_filter_le _ chunks)
      exact WhileLoop.exists_loop (fun _ _ inv isNext => (layersInv_next inv isNext).1)
        (fun _ _ inv isNext => (layersInv_next inv isNext).2) start enough

def evenClusterers : Clusterers where
  bic _ components := if components = 2 then 0 else 1
  responsibility _ components _ _ := 1 / components
  responsibility_nonneg _ components _ _ := one_div_nonneg.mpr (Nat.cast_nonneg components)
  responsibility_sum _ components _ positive := by
    rw [List.map_const', List.sum_replicate, List.length_range, nsmul_eq_mul]
    exact mul_one_div_cancel (Nat.cast_ne_zero.mpr positive.ne')
  distances _ _ := 0
  fitPredict _ _ _ := 0
  fitPredict_lt _ _ _ positive := positive
  sqDist _ _ _ _ := 0

def evenBuilder : ClassicBuilder where
  maxCluster := 64
  threshold := 1 / 10
  clusteringMethod := .gmm
  clusterers := evenClusterers
  summarizeTexts _ _ _ := none
  completed _ runs := runs
  completed_perm _ runs := .refl runs

def sampleChunk : Chunk := ⟨"a", [1]⟩

/-- All three chunks belong to the first of two components, so that the second is empty. -/
theorem not_layersOk_evenBuilder : ¬ ∃ fuel final,
    evenBuilder.call fuel [sampleChunk, sampleChunk, sampleChunk] = some (.ok final) ∧
      LayersOk ([sampleChunk, sampleChunk, sampleChunk].filter Chunk.complete) final := by
  rintro ⟨fuel, final, ends, _⟩
  have isComplete : [sampleChunk, sampleChunk, sampleChunk].filter Chunk.complete =
      [sampleChunk, sampleChunk, sampleChunk] := by decide
  have isLoop : evenBuilder.call fuel [sampleChunk, sampleChunk, sampleChunk] =
      WhileLoop.loop isOn evenBuilder.processLayer fuel
        (startLayers [sampleChunk, sampleChunk, sampleChunk]) := by
    simp [call, isComplete]
  rw [isLoop] at ends
  have ok := (processLayer_ok_iff (by decide) rfl).mp
    (WhileLoop.ok_of_loop ends .refl (by decide)) (by decide)
  have optimal : evenBuilder.getOptimalClusters 1 3 = some 2 := by decide +kernel
  obtain ⟨row, _, _, isFirst⟩ := ((ok rfl).2 2 optimal (by decide)).ofComponent 1 (by decide)
  refine isFirst 0 (by decide) ?_
  norm_num [Over, evenBuilder, evenClusterers]

end ClassicBuilder

end RagFlow.Raptor
