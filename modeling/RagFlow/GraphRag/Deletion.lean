import RagFlow.GraphRag.Store

/-!
# What merging accumulates

Merging graphs one after the other adds up, node by node and edge by edge, the descriptions,
weights and sources of all of them.  This holds of the graph that the builds leave in the
store as well as of the graph that `graph_merge` gives without a store.
-/

namespace RagFlow.GraphRag

open RagFlow.Lib

variable {Name Doc Score : Type} [LinearOrder Name] [LinearOrder Doc] [Add Score]

def mergeAll (graphs : List (Graph Name Doc Score)) : Option (Graph Name Doc Score) :=
  graphs.foldl (fun merged graph =>
    match merged with
    | none => some graph
    | some old => some (Graph.graphMerge old graph .none).1) none

def buildStore (pagerank : List Name → List (Sym2 Name × Score) → Name → Score)
    (graphs : List (Graph Name Doc Score)) : DocStore Name Doc Score :=
  graphs.foldl (mergeSubgraph pagerank) []

section Accumulate

omit [LinearOrder Doc]

def NodeAttr.text (attr : NodeAttr Doc Score) : List (Piece Doc) × List Doc :=
  (attr.description, attr.sourceId)

def nodeText (graphs : List (Graph Name Doc Score)) (name : Name) :
    Option (List (Piece Doc) × List Doc) :=
  graphs.foldl (fun text graph =>
    match graph.nodes.get? name with
    | none => text
    | some attr => some (text.elim attr.text fun old =>
      (old.1 ++ attr.description, old.2 ++ attr.sourceId))) none

def edgeAttr (graphs : List (Graph Name Doc Score)) (edge : Sym2 Name) :
    Option (EdgeAttr Doc Score) :=
  graphs.foldl (fun old graph =>
    match graph.edges.get? edge with
    | none => old
    | some attr => some (Dict.absorbed EdgeAttr.absorb attr old)) none

/-- The graph is what merging the graphs in order gives, up to ranks. -/
structure Accumulates (graphs : List (Graph Name Doc Score)) (merged : Graph Name Doc Score) :
    Prop where
  nodes : ∀ name, (merged.nodes.get? name).map NodeAttr.text = nodeText graphs name
  edges : ∀ edge, merged.edges.get? edge = edgeAttr graphs edge
  sourceId : merged.sourceId = graphs.flatMap Graph.sourceId

theorem accumulates_single (graph : Graph Name Doc Score) : Accumulates [graph] graph where
  nodes name := by
    cases lookup : graph.nodes.get? name <;> simp [nodeText, lookup]
  edges edge := by
    cases lookup : graph.edges.get? edge <;> simp [edgeAttr, lookup, Dict.absorbed]
  sourceId := by simp

theorem Accumulates.addGraph {graphs : List (Graph Name Doc Score)}
    {merged : Graph Name Doc Score} (accumulates : Accumulates graphs merged)
    (graph : Graph Name Doc Score) : Accumulates (graphs ++ [graph]) (merged.addGraph graph) where
  nodes name := by
    have old := accumulates.nodes name
    simp only [nodeText, List.foldl_append, List.foldl_cons, List.foldl_nil] at old ⊢
    rw [← old, Graph.addGraph, Dict.get?_merge]
    cases graph.nodes.get? name <;> cases merged.nodes.get? name <;>
      simp [Dict.absorbed, NodeAttr.absorb, NodeAttr.text]
  edges edge := by
    have old := accumulates.edges edge
    simp only [edgeAttr, List.foldl_append, List.foldl_cons, List.foldl_nil] at old ⊢
    rw [← old, Graph.addGraph, Dict.get?_merge]
    cases graph.edges.get? edge <;> rfl
  sourceId := by
    simp [Graph.addGraph, accumulates.sourceId]

omit [Add Score] in
theorem Accumulates.mapNodes [Add Score] {graphs : List (Graph Name Doc Score)}
    {merged : Graph Name Doc Score} (accumulates : Accumulates graphs merged)
    {change : Name → NodeAttr Doc Score → NodeAttr Doc Score}
    (keepsText : ∀ name attr, (change name attr).text = attr.text) :
    Accumulates graphs (merged.mapNodes change) where
  nodes name := by
    rw [← accumulates.nodes name, Graph.mapNodes, Dict.get?_mapValues, Option.map_map]
    exact Option.map_congr fun attr _ => keepsText name attr
  edges := accumulates.edges
  sourceId := accumulates.sourceId

theorem Accumulates.graphMerge {graphs : List (Graph Name Doc Score)}
    {merged : Graph Name Doc Score} (accumulates : Accumulates graphs merged)
    (graph : Graph Name Doc Score) :
    Accumulates (graphs ++ [graph]) (Graph.graphMerge merged graph .none).1 := by
  rw [Graph.graphMerge, Graph.setRank]
  exact (accumulates.addGraph graph).mapNodes fun _ _ => rfl

theorem Accumulates.setPagerank {graphs : List (Graph Name Doc Score)}
    {merged : Graph Name Doc Score} (accumulates : Accumulates graphs merged)
    (pagerank : List Name → List (Sym2 Name × Score) → Name → Score) :
    Accumulates graphs (merged.setPagerank pagerank) := by
  rw [Graph.setPagerank]
  exact accumulates.mapNodes fun _ _ => rfl

end Accumulate

omit [LinearOrder Doc] in
theorem mergeAll_spec {graphs : List (Graph Name Doc Score)} (nonempty : graphs ≠ []) :
    ∃ merged, mergeAll graphs = some merged ∧ Accumulates graphs merged := by
  induction graphs using List.reverseRecOn with
  | nil => exact absurd rfl nonempty
  | append_singleton graphs graph ih =>
    rw [mergeAll, List.foldl_append, ← mergeAll, List.foldl_cons, List.foldl_nil]
    rcases List.eq_nil_or_concat graphs with rfl | ⟨earlier, last, split⟩
    · exact ⟨graph, rfl, accumulates_single graph⟩
    · obtain ⟨merged, isMerged, accumulates⟩ := ih (by simp [split])
      rw [isMerged]
      exact ⟨_, rfl, accumulates.graphMerge graph⟩

theorem buildStore_spec (pagerank : List Name → List (Sym2 Name × Score) → Name → Score)
    {graphs : List (Graph Name Doc Score)} (nonempty : graphs ≠ []) :
    ∃ store merged change, buildStore pagerank graphs = setGraph store merged change ∧
      Accumulates graphs merged := by
  induction graphs using List.reverseRecOn with
  | nil => exact absurd rfl nonempty
  | append_singleton graphs graph ih =>
    rw [buildStore, List.foldl_append, ← buildStore, List.foldl_cons, List.foldl_nil,
      mergeSubgraph]
    refine ⟨_, _, _, rfl, ?_⟩
    rcases List.eq_nil_or_concat graphs with rfl | ⟨earlier, last, split⟩
    · exact (accumulates_single graph).setPagerank pagerank
    · obtain ⟨store, merged, change, isBuilt, accumulates⟩ :=
        ih (by simp [split])
      simp only [mergedGraph, isBuilt, getGraph_setGraph]
      exact (accumulates.graphMerge graph).setPagerank pagerank

section Sources

def describedBy (description : List (Piece Doc)) : Finset Doc :=
  (description.map Piece.doc).toFinset

def mentioning (subgraphs : List (DocSubgraph Name Doc Score)) (name : Name) : List Doc :=
  (subgraphs.filter fun subgraph => name ∈ subgraph.graph.names).map DocSubgraph.doc

def NamesDocs (docs : List Doc) : Option (List (Piece Doc) × List Doc) → Prop
  | none => docs = []
  | some text => docs ≠ [] ∧ describedBy text.1 = docs.toFinset ∧ text.2 = docs

omit [LinearOrder Name] [Add Score] in
theorem describedBy_append (first second : List (Piece Doc)) :
    describedBy (first ++ second) = describedBy first ∪ describedBy second := by
  simp [describedBy]

omit [LinearOrder Name] [Add Score] in
theorem describedBy_of_writtenBy {doc : Doc} {description : List (Piece Doc)}
    (written : Graph.WrittenBy doc description) : describedBy description = {doc} := by
  obtain ⟨some, all⟩ := written
  ext other
  simp only [describedBy, List.mem_toFinset, List.mem_map, Finset.mem_singleton]
  constructor
  · rintro ⟨piece, membership, rfl⟩
    exact all piece membership
  · rintro rfl
    obtain ⟨piece, membership⟩ := List.exists_mem_of_ne_nil description some
    exact ⟨piece, membership, all piece membership⟩

omit [Add Score] in
theorem nodeText_namesDocs (subgraphs : List (DocSubgraph Name Doc Score)) (name : Name) :
    NamesDocs (mentioning subgraphs name)
      (nodeText (subgraphs.map DocSubgraph.graph) name) := by
  induction subgraphs using List.reverseRecOn with
  | nil => rfl
  | append_singleton subgraphs subgraph ih =>
    rw [List.map_append, List.map_singleton, nodeText, List.foldl_append, ← nodeText,
      List.foldl_cons, List.foldl_nil, mentioning, List.filter_append, List.map_append,
      ← mentioning]
    cases lookup : subgraph.graph.nodes.get? name with
    | none =>
      have absent : name ∉ subgraph.graph.names := Dict.get?_eq_none.mp lookup
      simpa [absent] using ih
    | some attr =>
      have present : name ∈ subgraph.graph.names := Dict.mem_keys_of_get? lookup
      obtain ⟨sources, written⟩ : attr.sourceId = [subgraph.doc] ∧
          Graph.WrittenBy subgraph.doc attr.description :=
        subgraph.nodes (name, attr) (Dict.mem_items.mpr lookup)
      have described := describedBy_of_writtenBy written
      cases old : nodeText (subgraphs.map DocSubgraph.graph) name with
      | none =>
        rw [old] at ih
        have nobody : mentioning subgraphs name = [] := ih
        simp [NamesDocs, NodeAttr.text, present, nobody, described, sources]
      | some text =>
        rw [old] at ih
        obtain ⟨-, describedOld, sourcesOld⟩ := ih
        simp [NamesDocs, present, describedBy_append, described, describedOld, sources,
          sourcesOld, List.toFinset_append]

omit [LinearOrder Doc] in
theorem edgeAttr_eq_none {graphs : List (Graph Name Doc Score)} {edge : Sym2 Name} :
    edgeAttr graphs edge = none ↔ ∀ graph ∈ graphs, edge ∉ graph.edges.keys := by
  induction graphs using List.reverseRecOn with
  | nil => simp [edgeAttr]
  | append_singleton graphs graph ih =>
    rw [edgeAttr, List.foldl_append, ← edgeAttr, List.foldl_cons, List.foldl_nil]
    cases lookup : graph.edges.get? edge with
    | none =>
      have absent : edge ∉ graph.edges.keys := Dict.get?_eq_none.mp lookup
      simp [ih, or_imp, forall_and, absent]
    | some attr =>
      have present : edge ∈ graph.edges.keys := Dict.mem_keys_of_get? lookup
      simp only [reduceCtorEq, List.mem_append, List.mem_singleton, false_iff]
      exact fun absent => absent graph (Or.inr rfl) present

omit [LinearOrder Doc] in
theorem edgeAttr_filter {subgraphs : List (DocSubgraph Name Doc Score)} {edge : Sym2 Name}
    (keep : DocSubgraph Name Doc Score → Bool)
    (others : ∀ subgraph ∈ subgraphs, keep subgraph = false →
      edge ∉ subgraph.graph.edges.keys) :
    edgeAttr ((subgraphs.filter keep).map DocSubgraph.graph) edge =
      edgeAttr (subgraphs.map DocSubgraph.graph) edge := by
  rw [edgeAttr, edgeAttr, List.foldl_map, List.foldl_map, List.foldl_filter]
  apply List.foldl_ext _ _ _
  intro old subgraph membership
  by_cases kept : keep subgraph
  · rw [if_pos kept]
  · rw [if_neg kept, Dict.get?_eq_none.mpr (others subgraph membership (by simpa using kept))]

end Sources

end RagFlow.GraphRag

/-!
# Deleting a document

Deleting a document deletes its checkpoint and marks the graph as removed; the next reader
composes a graph from the checkpoints that are left.
-/

namespace RagFlow.GraphRag

open RagFlow.Lib

variable {Name Doc Score : Type} [LinearOrder Name] [LinearOrder Doc] [Add Score]

section Delete

def Chunk.sources : Chunk Name Doc Score → List Doc
  | .graph _ sourceId _ => sourceId
  | .subgraph _ sourceId _ => sourceId
  | .entity _ _ sourceId => sourceId
  | .relation _ _ _ sourceId => sourceId

def Chunk.graphSourceId? : Chunk Name Doc Score → Option (List Doc)
  | .graph _ sourceId _ => some sourceId
  | _ => none

def Chunk.dropSource (doc : Doc) : Chunk Name Doc Score → Chunk Name Doc Score
  | .graph content sourceId _ => .graph content (sourceId.erase doc) true
  | .subgraph content sourceId removed => .subgraph content (sourceId.erase doc) removed
  | .entity entityKwd content sourceId => .entity entityKwd content (sourceId.erase doc)
  | .relation fromEntity toEntity content sourceId =>
    .relation fromEntity toEntity content (sourceId.erase doc)

/-- What deleting a document does to the chunks of the graph: when the graph has the document,
its sources are updated, and chunks without a source are deleted. -/
def deleteDocument (store : DocStore Name Doc Score) (doc : Doc) : DocStore Name Doc Score :=
  if (store.findSome? Chunk.graphSourceId?).any fun sources => doc ∈ sources then
    (store.map (Chunk.dropSource doc)).filter fun chunk => chunk.sources ≠ []
  else
    store

end Delete

section Compose

omit [Add Score]

def composed (graph : Graph Name Doc Score) (docs : List Doc) : Graph Name Doc Score :=
  docs.foldl (fun result doc => compose result (graph.docSubgraph doc)) Graph.empty

theorem composed_concat (graph : Graph Name Doc Score) (docs : List Doc) (doc : Doc) :
    composed graph (docs ++ [doc]) = compose (composed graph docs) (graph.docSubgraph doc) := by
  rw [composed, List.foldl_append]
  rfl

theorem get?_docSubgraph (graph : Graph Name Doc Score) (doc : Doc) (name : Name) :
    (graph.docSubgraph doc).nodes.get? name =
      if graph.comesFrom doc name then
        (graph.nodes.get? name).map fun attr => { attr with sourceId := [doc] }
      else none := by
  rw [Graph.docSubgraph, Graph.mapNodes, Dict.get?_mapValues, Graph.subgraph,
    Dict.get?_filterKeys]
  split <;> rfl

theorem edges_docSubgraph (graph : Graph Name Doc Score) (doc : Doc) (edge : Sym2 Name) :
    (graph.docSubgraph doc).edges.get? edge =
      if Graph.keepsEdge (graph.comesFrom doc) edge then graph.edges.get? edge else none := by
  rw [Graph.docSubgraph, Graph.edges_mapNodes, Graph.subgraph, Dict.get?_filterKeys]

def comingFrom (graph : Graph Name Doc Score) (docs : List Doc) (name : Name) : List Doc :=
  docs.filter fun doc => graph.comesFrom doc name

theorem text_composed (graph : Graph Name Doc Score) (docs : List Doc) (name : Name) :
    ((composed graph docs).nodes.get? name).map NodeAttr.text =
      if comingFrom graph docs name = [] then none
      else (graph.nodes.get? name).map fun attr =>
        (attr.description, comingFrom graph docs name) := by
  induction docs using List.reverseRecOn with
  | nil => rfl
  | append_singleton docs doc ih =>
    rw [composed_concat, compose, Dict.get?_merge, get?_docSubgraph]
    by_cases comes : graph.comesFrom doc name
    · have extended : comingFrom graph (docs ++ [doc]) name =
          comingFrom graph docs name ++ [doc] := by
        simp [comingFrom, comes]
      have present : ∃ attr, graph.nodes.get? name = some attr := by
        obtain ⟨attr, lookup, -⟩ := (Option.any_eq_true _ _).mp comes
        exact ⟨attr, lookup⟩
      obtain ⟨attr, lookup⟩ := present
      rw [if_pos comes, extended, if_neg (by simp), lookup]
      rw [lookup] at ih
      cases old : (composed graph docs).nodes.get? name with
      | none =>
        have nothing : comingFrom graph docs name = [] := by
          by_contra some
          simp [old, some] at ih
        simp [Dict.absorbed, NodeAttr.text, nothing]
      | some oldAttr =>
        have some : comingFrom graph docs name ≠ [] := by
          intro nothing
          simp [old, nothing] at ih
        rw [old, if_neg some, Option.map_some, Option.map_some] at ih
        have sources : oldAttr.sourceId = comingFrom graph docs name :=
          congrArg Prod.snd (Option.some.inj ih)
        simp [Dict.absorbed, composeNode, NodeAttr.text, sources]
    · have unchanged : comingFrom graph (docs ++ [doc]) name = comingFrom graph docs name := by
        simp [comingFrom, comes]
      rw [if_neg comes, unchanged]
      exact ih

theorem edges_composed (graph : Graph Name Doc Score) (docs : List Doc) (edge : Sym2 Name) :
    (composed graph docs).edges.get? edge =
      if docs.any fun doc => Graph.keepsEdge (graph.comesFrom doc) edge then
        graph.edges.get? edge
      else none := by
  induction docs using List.reverseRecOn with
  | nil => rfl
  | append_singleton docs doc ih =>
    rw [composed_concat, compose, Dict.get?_merge, edges_docSubgraph, ih]
    by_cases kept : Graph.keepsEdge (graph.comesFrom doc) edge
    · cases lookup : graph.edges.get? edge <;> simp [kept, Dict.absorbed_overwrite]
    · simp [kept]

theorem sourceId_composed (graph : Graph Name Doc Score) (docs : List Doc) :
    (composed graph docs).sourceId = docs := by
  induction docs using List.reverseRecOn with
  | nil => rfl
  | append_singleton docs doc ih =>
    rw [composed_concat, compose, ih]
    rfl

end Compose

section Deletion

omit [Add Score]

theorem subgraphs_setGraph (store : DocStore Name Doc Score) (graph : Graph Name Doc Score)
    (change : GraphChange Name) :
    (setGraph store graph change).filterMap Chunk.subgraph? =
      graph.sourceId.map fun doc => (graph.docSubgraph doc, [doc]) := by
  have noneSurvives : (store.filter (survives change)).filterMap Chunk.subgraph? = [] := by
    apply List.filterMap_eq_nil_iff.mpr
    intro chunk membership
    have kept := (List.mem_filter.mp membership).2
    cases chunk <;> first | rfl | simp at kept
  have noEntity : (entityChunks graph change.addedUpdatedNodes).filterMap Chunk.subgraph? =
      [] := by
    apply List.filterMap_eq_nil_iff.mpr
    intro chunk membership
    obtain ⟨name, -, found⟩ := List.mem_filterMap.mp membership
    obtain ⟨attr, -, rfl⟩ := Option.map_eq_some_iff.mp found
    rfl
  have noRelation : (relationChunks graph change.addedUpdatedEdges).filterMap
      Chunk.subgraph? = [] := by
    apply List.filterMap_eq_nil_iff.mpr
    intro chunk membership
    obtain ⟨edge, -, found⟩ := List.mem_filterMap.mp membership
    obtain ⟨attr, -, rfl⟩ := Option.map_eq_some_iff.mp found
    rfl
  have fromGraph : (graphChunks graph).filterMap Chunk.subgraph? =
      graph.sourceId.map fun doc => (graph.docSubgraph doc, [doc]) := by
    rw [graphChunks, List.filterMap_cons, List.filterMap_map, ← List.filterMap_eq_map]
    rfl
  rw [setGraph_eq, newChunks, List.filterMap_append, List.filterMap_append,
    List.filterMap_append, noneSurvives, noEntity, noRelation, fromGraph, List.nil_append,
    List.append_nil, List.append_nil]

theorem graphSourceId?_setGraph (store : DocStore Name Doc Score) (graph : Graph Name Doc Score)
    (change : GraphChange Name) :
    (setGraph store graph change).findSome? Chunk.graphSourceId? = some graph.sourceId := by
  have noneLeft : (store.filter (survives change)).findSome? Chunk.graphSourceId? = none := by
    refine List.findSome?_eq_none_iff.mpr fun chunk membership => ?_
    have kept := (List.mem_filter.mp membership).2
    cases chunk <;> first | rfl | simp at kept
  rw [setGraph_eq, List.findSome?_append, noneLeft]
  rfl

theorem subgraphs_deleteDocument (store : DocStore Name Doc Score)
    (graph : Graph Name Doc Score) (change : GraphChange Name) (deleted : Doc) :
    (deleteDocument (setGraph store graph change) deleted).filterMap Chunk.subgraph? =
      (graph.sourceId.filter fun doc => doc ≠ deleted).map fun doc =>
        (graph.docSubgraph doc, [doc]) := by
  have kept : (graph.sourceId.filter fun doc => doc ≠ deleted).map (fun doc =>
      (graph.docSubgraph doc, [doc])) = graph.sourceId.filterMap fun doc =>
        if doc ≠ deleted then some (graph.docSubgraph doc, [doc]) else none := by
    rw [← List.filterMap_eq_map, List.filterMap_filter]
    simp
  rw [deleteDocument, graphSourceId?_setGraph, Option.any_some]
  split_ifs with contains
  · have erased : ((setGraph store graph change).map (Chunk.dropSource deleted)).filterMap
        (fun chunk => if chunk.sources ≠ [] then chunk.subgraph? else none) =
        ((setGraph store graph change).filterMap Chunk.subgraph?).filterMap fun chunk =>
          if chunk.2.erase deleted ≠ [] then some (chunk.1, chunk.2.erase deleted) else none := by
      rw [List.filterMap_map, List.filterMap_filterMap]
      apply List.filterMap_congr
      intro chunk _
      cases chunk <;> simp [Chunk.dropSource, Chunk.sources, Chunk.subgraph?]
    rw [List.filterMap_filter, kept]
    simp only [decide_eq_true_eq]
    rw [erased, subgraphs_setGraph, List.filterMap_map]
    apply List.filterMap_congr
    intro doc _
    by_cases same : doc = deleted
    · simp [same]
    · simp [same]
  · rw [subgraphs_setGraph, kept, ← List.filterMap_eq_map]
    apply List.filterMap_congr
    intro doc membership
    have different : doc ≠ deleted := by
      rintro rfl
      exact contains (decide_eq_true membership)
    simp [different]

theorem rebuildGraph_eq {store : DocStore Name Doc Score} {graph : Graph Name Doc Score}
    {docs exclude : List Doc}
    (chunks : store.filterMap Chunk.subgraph? = docs.map fun doc =>
      (graph.docSubgraph doc, [doc]))
    (included : ∀ doc ∈ docs, doc ∉ exclude) :
    rebuildGraph store exclude =
      if (composed graph (docs.take (1024 * 256))).names = [] then none
      else some { composed graph (docs.take (1024 * 256)) with
        sourceId := (composed graph (docs.take (1024 * 256))).sourceId.insertionSort (· ≤ ·) } := by
  have pages : subgraphPages store = (docs.take (1024 * 256)).map fun doc =>
      (graph.docSubgraph doc, [doc]) := by
    rw [subgraphPages, Paging.flatMap_slice, chunks, List.map_take]
  have result : (subgraphPages store).foldl (fun result chunk =>
      if exclude.any (· ∈ chunk.2) then result else compose result chunk.1) Graph.empty =
      composed graph (docs.take (1024 * 256)) := by
    rw [pages, List.foldl_map, composed]
    refine List.foldl_ext _ _ _ fun result doc membership => if_neg ?_
    have notExcluded := included doc (List.mem_of_mem_take membership)
    simpa using notExcluded
  rw [rebuildGraph, result]

end Deletion

end RagFlow.GraphRag
