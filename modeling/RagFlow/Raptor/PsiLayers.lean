import RagFlow.Raptor.ClassicLayers
import RagFlow.Raptor.PsiBuckets

/-!
# Psi layers

The Psi builder summarizes the non-leaf nodes of its merge tree by height, from below.  A node
without a summary has no text for its parent, and a height without summaries ends the run.
-/

namespace RagFlow.Raptor

open RagFlow.Lib

namespace PsiTreeNode

mutual

/-- `height`, with the nodes that it collects and their heights. -/
def height : PsiTreeNode → Nat × List (Nat × PsiTreeNode)
  | mk _ [] => (0, [])
  | mk index (child :: children) =>
    let (below, collected) := heightAll (child :: children)
    (below + 1, collected ++ [(below + 1, mk index (child :: children))])

def heightAll : List PsiTreeNode → Nat × List (Nat × PsiTreeNode)
  | [] => (0, [])
  | node :: nodes =>
    let (first, collected) := height node
    let (rest, others) := heightAll nodes
    (max first rest, collected ++ others)

end

/-- `sorted(self._psi_layers(root).items())`, without the heights. -/
def psiLayers (root : PsiTreeNode) : List (List PsiTreeNode) :=
  let layers := Grouping.group (fun node => some node.1) root.height.2
  (layers.items.mergeSort fun layer next => layer.1 ≤ next.1).map fun layer =>
    layer.2.map Prod.snd

end PsiTreeNode

structure Outcome where
  chunks : List Chunk
  layers : Bounds
  runs : List (List Run)

/-- `summarizeTexts` summarizes the children of the node with an index; a failure is below
`max_errors`, so that it only leaves out a summary. -/
structure PsiBuilder where
  maxCluster : Int
  limits : PsiLimits
  clusterer : Clusterer
  ranking : PairRanking
  summarizeTexts : (index : Nat) → (texts : List String) → Option Chunk

structure PsiState extends Outcome where
  texts : Nat → String

namespace PsiBuilder

variable (builder : PsiBuilder)

def buildPsiStructure (fuel : Nat) (chunks : List Chunk) : Option PsiTreeNode :=
  match (List.range chunks.length).map fun i => PsiTreeNode.mk i [] with
  | [leaf] => some leaf
  | leaves =>
    (buildPsiStructureFromNodes builder.limits builder.clusterer builder.ranking fuel leaves
      leaves.length).map fun (root, nextIndex, _) =>
        (PsiTreeNode.rebalancePsiTree builder.maxCluster root nextIndex).1

def summarizeNode (texts : Nat → String) (node : PsiTreeNode) : Option Chunk :=
  match (node.children.map fun child => texts child.index).filter fun text => text ≠ "" with
  | [] => none
  | text :: rest => builder.summarizeTexts node.index (text :: rest)

def setText (texts : Nat → String) (node : PsiTreeNode) : Option Chunk → Nat → String
  | none => texts
  | some summary => Function.update texts node.index summary.text

def startLayers (chunks : List Chunk) : PsiState where
  chunks := chunks
  layers := [(0, chunks.length)]
  runs := []
  texts index := (chunks[index]?.map Chunk.text).getD ""

/-- One round of the loop; no summaries break it. -/
def materialize (state : PsiState) (nodes : List PsiTreeNode) : Option PsiState :=
  let summarized := nodes.map fun node => (node, builder.summarizeNode state.texts node)
  let summaries := summarized.filterMap Prod.snd
  if summaries = [] then none
  else
    some
      { chunks := state.chunks ++ summaries
        layers := state.layers ++
          [(state.chunks.length, state.chunks.length + summaries.length)]
        runs := state.runs ++
          [summarized.map fun (node, summary) => (node.children.map PsiTreeNode.index, summary)]
        texts := summarized.foldl (fun texts (node, summary) => setText texts node summary)
          state.texts }

def materializeAll : List (List PsiTreeNode) → PsiState → PsiState
  | [], state => state
  | nodes :: rest, state =>
    match builder.materialize state nodes with
    | none => state
    | some next => materializeAll rest next

/-- `_build_psi_layers`; nothing if the fuel did not suffice for the tree. -/
def buildPsiLayers (fuel : Nat) (chunks : List Chunk) : Option Outcome :=
  (builder.buildPsiStructure fuel chunks).map fun root =>
    (builder.materializeAll root.psiLayers (startLayers chunks)).toOutcome

end PsiBuilder

def Materialized (kept : List Chunk) (outcome : Outcome) : Prop :=
  ∃ groups, Layered kept groups outcome.chunks outcome.layers ∧
    List.Forall₂ (fun group runs => group.Perm (runs.filterMap Prod.snd)) groups outcome.runs

namespace PsiBuilder

variable {builder : PsiBuilder} {kept : List Chunk}

theorem materialized_startLayers (kept : List Chunk) :
    Materialized kept (startLayers kept).toOutcome :=
  ⟨[], .start kept, .nil⟩

theorem materialized_materialize {state next : PsiState} {nodes : List PsiTreeNode}
    (before : Materialized kept state.toOutcome)
    (isNext : builder.materialize state nodes = some next) :
    Materialized kept next.toOutcome := by
  obtain ⟨groups, layered, summarized⟩ := before
  unfold materialize at isNext
  simp only [Option.ite_none_left_eq_some, Option.some.injEq] at isNext
  obtain ⟨_, rfl⟩ := isNext
  refine ⟨_, layered.append _, List.rel_append summarized (.cons ?_ .nil)⟩
  exact .of_eq (by simp only [List.filterMap_map, Function.comp_def])

theorem materialized_materializeAll (layers : List (List PsiTreeNode)) {state : PsiState}
    (before : Materialized kept state.toOutcome) :
    Materialized kept (builder.materializeAll layers state).toOutcome := by
  induction layers generalizing state with
  | nil => exact before
  | cons nodes layers ih =>
    rw [materializeAll]
    cases isNext : builder.materialize state nodes with
    | none => exact before
    | some next => exact ih (materialized_materialize before isNext)

theorem materialized_buildPsiLayers {fuel : Nat} {outcome : Outcome}
    (ends : builder.buildPsiLayers fuel kept = some outcome) : Materialized kept outcome := by
  obtain ⟨root, _, rfl⟩ := Option.map_eq_some_iff.mp ends
  exact materialized_materializeAll _ (materialized_startLayers kept)

theorem exists_buildPsiLayers (builder : PsiBuilder) {chunks : List Chunk} {fuel : Nat}
    (nonempty : chunks ≠ []) (enough : chunks.length ≤ fuel) :
    ∃ outcome, builder.buildPsiLayers fuel chunks = some outcome := by
  suffices built : ∃ root, builder.buildPsiStructure fuel chunks = some root by
    obtain ⟨root, isRoot⟩ := built
    exact ⟨_, Option.map_eq_some_iff.mpr ⟨root, isRoot, rfl⟩⟩
  unfold buildPsiStructure
  split
  · exact ⟨_, rfl⟩
  · have leaves : (List.range chunks.length).map (fun i => PsiTreeNode.mk i []) ≠ [] := by
      simpa using nonempty
    obtain ⟨root, nextIndex, isRoot, _⟩ := buildFromNodes_builds builder.limits builder.clusterer
      builder.ranking leaves (by simpa using enough)
        ((List.range chunks.length).map fun i => PsiTreeNode.mk i []).length
    exact ⟨_, Option.map_eq_some_iff.mpr ⟨_, isRoot, rfl⟩⟩

end PsiBuilder

end RagFlow.Raptor
