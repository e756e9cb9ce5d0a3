import RagFlow.GraphRag.Graph
import RagFlow.Lib.Paging

/-!
# The graph chunks of a knowledge base

The document store holds the chunks of one knowledge base.  `set_graph` replaces the graph
chunk and the subgraph chunks by those of a new graph, and brings the entity and relation
chunks up to date with the change it is given, one store operation after the other.
-/

namespace RagFlow.GraphRag

open RagFlow.Lib

variable {Name Doc Score : Type}

/-- The chunks of the graph, by their `knowledge_graph_kwd`.  Ids are left out: each chunk
is inserted under an id of its own. -/
inductive Chunk (Name Doc Score : Type) where
  | graph (content : Graph Name Doc Score) (sourceId : List Doc) (removed : Bool)
  | subgraph (content : Graph Name Doc Score) (sourceId : List Doc) (removed : Bool)
  | entity (entityKwd : Name) (content : NodeAttr Doc Score) (sourceId : List Doc)
  | relation (fromEntity toEntity : Name) (content : EdgeAttr Doc Score) (sourceId : List Doc)

abbrev DocStore (Name Doc Score : Type) := List (Chunk Name Doc Score)

/-- Content and `removed_kwd` of a graph chunk. -/
def Chunk.graph? : Chunk Name Doc Score → Option (Graph Name Doc Score × Bool)
  | .graph content _ removed => some (content, removed)
  | _ => none

def Chunk.subgraph? : Chunk Name Doc Score → Option (Graph Name Doc Score × List Doc)
  | .subgraph content sourceId _ => some (content, sourceId)
  | _ => none

def Chunk.entity? : Chunk Name Doc Score → Option (Name × NodeAttr Doc Score)
  | .entity entityKwd content _ => some (entityKwd, content)
  | _ => none

def Chunk.relation? : Chunk Name Doc Score → Option ((Name × Name) × EdgeAttr Doc Score)
  | .relation fromEntity toEntity content _ => some ((fromEntity, toEntity), content)
  | _ => none

def entities (store : DocStore Name Doc Score) : List (Name × NodeAttr Doc Score) :=
  store.filterMap Chunk.entity?

def relations (store : DocStore Name Doc Score) : List ((Name × Name) × EdgeAttr Doc Score) :=
  store.filterMap Chunk.relation?

inductive Condition (Name Doc : Type) where
  | subgraphOf (doc : Doc)
  | graphs
  | entities (names : List Name)
  | relation (fromEntity toEntity : Name)

inductive StoreOp (Name Doc Score : Type) where
  | delete (condition : Condition Name Doc)
  | insert (chunks : List (Chunk Name Doc Score))

/-- `nx.compose` lets the attributes of the second graph win, those it has not got stay;
`rebuild_graph` then concatenates the sources of a common node. -/
def composeNode (old attr : NodeAttr Doc Score) : NodeAttr Doc Score :=
  { attr with
    sourceId := old.sourceId ++ attr.sourceId
    rank := attr.rank.or old.rank
    pagerank := attr.pagerank.or old.pagerank }

section Rebuild

variable [LinearOrder Name]

def compose (graph next : Graph Name Doc Score) : Graph Name Doc Score where
  nodes := graph.nodes.merge composeNode next.nodes
  edges := graph.edges.merge (fun _ attr => attr) next.edges
  sourceId := graph.sourceId ++ next.sourceId
  endpoints := by
    intro edge membership name inside
    rw [Dict.mem_keys_merge] at membership ⊢
    exact membership.imp (fun old => graph.endpoints edge old name inside)
      (fun new => next.endpoints edge new name inside)

/-- `for i in range(0, 1024 * bs, bs)`: the subgraph chunks, in pages of 256. -/
def subgraphPages (store : DocStore Name Doc Score) :
    List (Graph Name Doc Score × List Doc) :=
  (List.range 1024).flatMap fun page =>
    Paging.slice (store.filterMap Chunk.subgraph?) (page * 256) 256

variable [LinearOrder Doc]

/-- `exclude` is the list of excluded documents, empty for `None`. -/
def rebuildGraph (store : DocStore Name Doc Score) (exclude : List Doc) :
    Option (Graph Name Doc Score) :=
  let graph := (subgraphPages store).foldl (fun graph chunk =>
    if exclude.any (· ∈ chunk.2) then graph else compose graph chunk.1) Graph.empty
  if graph.names = [] then none
  else some { graph with sourceId := graph.sourceId.insertionSort (· ≤ ·) }

def getGraph (store : DocStore Name Doc Score) (exclude : List Doc) :
    Option (Graph Name Doc Score) :=
  match store.findSome? Chunk.graph? with
  | none => none
  | some (content, removed) => if removed then rebuildGraph store exclude else some content

theorem getGraph_eq {store : DocStore Name Doc Score}
    (kept : ∀ graph removed, store.findSome? Chunk.graph? = some (graph, removed) →
      removed = false) (exclude : List Doc) :
    getGraph store exclude = (store.findSome? Chunk.graph?).map Prod.fst := by
  unfold getGraph
  split
  · rename_i missing
    rw [missing]
    rfl
  · rename_i content removed found
    simp [kept content removed found, found]

end Rebuild

section Operations

variable [DecidableEq Name] [DecidableEq Doc]

def Condition.matches : Condition Name Doc → Chunk Name Doc Score → Bool
  | .subgraphOf doc, .subgraph _ sourceId _ => doc ∈ sourceId
  | .graphs, .graph _ _ _ => true
  | .graphs, .subgraph _ _ _ => true
  | .entities names, .entity entityKwd _ _ => entityKwd ∈ names
  | .relation fromEntity toEntity, .relation source target _ _ =>
    source = fromEntity && target = toEntity
  | _, _ => false

def StoreOp.apply (store : DocStore Name Doc Score) :
    StoreOp Name Doc Score → DocStore Name Doc Score
  | .delete condition => store.filter fun chunk => !condition.matches chunk
  | .insert chunks => store ++ chunks

theorem apply_deletes (conditions : List (Condition Name Doc)) (store : DocStore Name Doc Score) :
    (conditions.map StoreOp.delete).foldl StoreOp.apply store =
      store.filter fun chunk => conditions.all fun condition => !condition.matches chunk := by
  induction conditions generalizing store with
  | nil => simp
  | cons condition conditions ih =>
    rw [List.map_cons, List.foldl_cons, ih, StoreOp.apply, List.filter_filter]
    simp [Bool.and_comm]

omit [DecidableEq Name] [DecidableEq Doc] in
theorem apply_inserts [DecidableEq Name] [DecidableEq Doc]
    (batches : List (List (Chunk Name Doc Score))) (store : DocStore Name Doc Score) :
    (batches.map StoreOp.insert).foldl StoreOp.apply store = store ++ batches.flatten := by
  induction batches generalizing store with
  | nil => simp
  | cons batch batches ih =>
    rw [List.map_cons, List.foldl_cons, ih, StoreOp.apply, List.flatten_cons,
      List.append_assoc]

end Operations

variable [LinearOrder Name] [LinearOrder Doc]

def graphChunks (graph : Graph Name Doc Score) : List (Chunk Name Doc Score) :=
  .graph graph graph.sourceId false ::
    graph.sourceId.map fun source => .subgraph (graph.docSubgraph source) [source] false

omit [LinearOrder Doc] in
def entityChunks (graph : Graph Name Doc Score) (names : List Name) :
    List (Chunk Name Doc Score) :=
  names.filterMap fun name =>
    (graph.nodes.get? name).map fun attr => .entity name attr attr.sourceId

omit [LinearOrder Doc] in
/-- `graph_edge_to_chunk` of the given edges; one that is no longer there is left out. -/
def relationChunks (graph : Graph Name Doc Score) (edges : List (Name × Name)) :
    List (Chunk Name Doc Score) :=
  edges.filterMap fun edge =>
    (graph.edges.get? s(edge.1, edge.2)).map fun attr =>
      .relation edge.1 edge.2 attr attr.sourceId

def newChunks (graph : Graph Name Doc Score) (change : GraphChange Name) :
    List (Chunk Name Doc Score) :=
  graphChunks graph ++ entityChunks graph change.addedUpdatedNodes ++
    relationChunks graph change.addedUpdatedEdges

omit [LinearOrder Doc] in
/-- What `set_graph` deletes: the old graph and subgraphs, the removed nodes in batches of
100, and each removed edge. -/
def deletions (change : GraphChange Name) : List (Condition Name Doc) :=
  .graphs ::
    (Paging.batches 100 (change.removedNodes.insertionSort (· ≤ ·))).map Condition.entities ++
    change.removedEdges.map fun edge => .relation edge.1 edge.2

/-- The requests of `set_graph`, the new chunks in batches of 64. -/
def setGraphOps (graph : Graph Name Doc Score) (change : GraphChange Name) :
    List (StoreOp Name Doc Score) :=
  (deletions change).map .delete ++ (Paging.batches 64 (newChunks graph change)).map .insert

def setGraph (store : DocStore Name Doc Score) (graph : Graph Name Doc Score)
    (change : GraphChange Name) : DocStore Name Doc Score :=
  (setGraphOps graph change).foldl StoreOp.apply store

/-- Is the chunk still there after the deletions of `set_graph`? -/
def survives (change : GraphChange Name) (chunk : Chunk Name Doc Score) : Bool :=
  (deletions change).all fun condition => !condition.matches chunk

section Survives

variable {change : GraphChange Name}

@[simp] theorem survives_graph (content : Graph Name Doc Score) (sourceId : List Doc)
    (removed : Bool) : survives change (.graph content sourceId removed) = false := by
  simp [survives, deletions, Condition.matches]

@[simp] theorem survives_subgraph (content : Graph Name Doc Score) (sourceId : List Doc)
    (removed : Bool) : survives change (.subgraph content sourceId removed) = false := by
  simp [survives, deletions, Condition.matches]

@[simp] theorem survives_entity (entityKwd : Name) (content : NodeAttr Doc Score)
    (sourceId : List Doc) :
    survives change (.entity entityKwd content sourceId) =
      decide (entityKwd ∉ change.removedNodes) := by
  have inBatch : (∃ batch ∈ Paging.batches 100 (change.removedNodes.insertionSort (· ≤ ·)),
      entityKwd ∈ batch) ↔ entityKwd ∈ change.removedNodes := by
    rw [← List.mem_flatten, Paging.flatten_batches (by decide), List.mem_insertionSort]
  rw [survives, Bool.eq_iff_iff, decide_eq_true_iff, ← inBatch]
  simp only [deletions, List.cons_append, List.all_cons, List.all_append, List.all_map,
    Bool.and_eq_true, List.all_eq_true]
  simp [Condition.matches]

@[simp] theorem survives_relation (fromEntity toEntity : Name) (content : EdgeAttr Doc Score)
    (sourceId : List Doc) :
    survives change (.relation fromEntity toEntity content sourceId) =
      decide ((fromEntity, toEntity) ∉ change.removedEdges) := by
  rw [survives, Bool.eq_iff_iff, decide_eq_true_iff]
  simp only [deletions, List.cons_append, List.all_cons, List.all_append, List.all_map,
    Bool.and_eq_true, List.all_eq_true]
  simp only [Function.comp_apply, Condition.matches]
  constructor
  · rintro ⟨-, -, untouched⟩ membership
    simpa using untouched (fromEntity, toEntity) membership
  · intro absent
    refine ⟨by simp, by simp, fun edge membership => ?_⟩
    rw [Bool.not_eq_true', Bool.and_eq_false_iff, decide_eq_false_iff_not,
      decide_eq_false_iff_not, ← not_and_or]
    rintro ⟨rfl, rfl⟩
    exact absent membership

end Survives

theorem setGraph_eq (store : DocStore Name Doc Score) (graph : Graph Name Doc Score)
    (change : GraphChange Name) :
    setGraph store graph change = store.filter (survives change) ++ newChunks graph change := by
  rw [setGraph, setGraphOps, List.foldl_append, apply_deletes, apply_inserts,
    Paging.flatten_batches (by decide)]
  rfl

theorem graph?_setGraph (store : DocStore Name Doc Score) (graph : Graph Name Doc Score)
    (change : GraphChange Name) :
    (setGraph store graph change).findSome? Chunk.graph? = some (graph, false) := by
  have noneLeft : (store.filter (survives change)).findSome? Chunk.graph? = none := by
    refine List.findSome?_eq_none_iff.mpr fun chunk membership => ?_
    have kept := (List.mem_filter.mp membership).2
    cases chunk <;> first | rfl | simp at kept
  rw [setGraph_eq, List.findSome?_append, noneLeft]
  rfl

theorem getGraph_setGraph (store : DocStore Name Doc Score) (graph : Graph Name Doc Score)
    (change : GraphChange Name) (exclude : List Doc) :
    getGraph (setGraph store graph change) exclude = some graph := by
  rw [getGraph, graph?_setGraph]
  rfl

section Index

variable (store : DocStore Name Doc Score) (graph : Graph Name Doc Score)
  (change : GraphChange Name)

def nodeEntries (graph : Graph Name Doc Score) (names : List Name) :
    List (Name × NodeAttr Doc Score) :=
  names.filterMap fun name => (graph.nodes.get? name).map fun attr => (name, attr)

def edgeEntries (graph : Graph Name Doc Score) (edges : List (Name × Name)) :
    List ((Name × Name) × EdgeAttr Doc Score) :=
  edges.filterMap fun edge =>
    (graph.edges.get? s(edge.1, edge.2)).map fun attr => (edge, attr)

theorem entities_newChunks :
    entities (newChunks graph change) = nodeEntries graph change.addedUpdatedNodes := by
  have fromGraph : entities (graphChunks graph) = [] := by
    simp [entities, graphChunks, Chunk.entity?]
  have fromRelations : ∀ edges, entities (relationChunks graph edges) = [] := by
    intro edges
    rw [entities, relationChunks, List.filterMap_filterMap, List.filterMap_eq_nil_iff]
    intro edge _
    cases graph.edges.get? s(edge.1, edge.2) <;> rfl
  have fromEntities : ∀ names, entities (entityChunks graph names) = nodeEntries graph names := by
    intro names
    rw [entities, entityChunks, nodeEntries, List.filterMap_filterMap]
    apply List.filterMap_congr
    intro name _
    cases graph.nodes.get? name <;> rfl
  rw [newChunks, entities, List.filterMap_append, List.filterMap_append, ← entities, ← entities,
    ← entities, fromGraph, fromRelations, fromEntities, List.nil_append, List.append_nil]

theorem relations_newChunks :
    relations (newChunks graph change) = edgeEntries graph change.addedUpdatedEdges := by
  have fromGraph : relations (graphChunks graph) = [] := by
    simp [relations, graphChunks, Chunk.relation?]
  have fromEntities : ∀ names, relations (entityChunks graph names) = [] := by
    intro names
    rw [relations, entityChunks, List.filterMap_filterMap, List.filterMap_eq_nil_iff]
    intro name _
    cases graph.nodes.get? name <;> rfl
  have fromRelations : ∀ edges, relations (relationChunks graph edges) =
      edgeEntries graph edges := by
    intro edges
    rw [relations, relationChunks, edgeEntries, List.filterMap_filterMap]
    apply List.filterMap_congr
    intro edge _
    cases graph.edges.get? s(edge.1, edge.2) <;> rfl
  rw [newChunks, relations, List.filterMap_append, List.filterMap_append, ← relations,
    ← relations, ← relations, fromGraph, fromRelations, fromEntities, List.nil_append,
    List.nil_append]

theorem entities_setGraph :
    entities (setGraph store graph change) =
      ((entities store).filter fun item => item.1 ∉ change.removedNodes) ++
        nodeEntries graph change.addedUpdatedNodes := by
  rw [setGraph_eq, ← entities_newChunks, entities, List.filterMap_append, List.filterMap_filter,
    entities, entities, List.filter_filterMap]
  congr 1
  apply List.filterMap_congr
  intro chunk _
  cases chunk <;> simp [Chunk.entity?, Option.filter]

theorem relations_setGraph :
    relations (setGraph store graph change) =
      ((relations store).filter fun item => item.1 ∉ change.removedEdges) ++
        edgeEntries graph change.addedUpdatedEdges := by
  rw [setGraph_eq, ← relations_newChunks, relations, List.filterMap_append,
    List.filterMap_filter, relations, relations, List.filter_filterMap]
  congr 1
  apply List.filterMap_congr
  intro chunk _
  cases chunk <;> simp [Chunk.relation?, Option.filter]

end Index

section Merge

variable [Add Score] (pagerank : List Name → List (Sym2 Name × Score) → Name → Score)

/-- The graph that `merge_subgraph` saves, and the change it reports.  Every node and edge
of the model has its attributes, so that `tidy_graph` removes nothing. -/
def mergedGraph (store : DocStore Name Doc Score) (subgraph : Graph Name Doc Score) :
    Graph Name Doc Score × GraphChange Name :=
  let merged :=
    match getGraph store subgraph.sourceId with
    | some oldGraph => Graph.graphMerge oldGraph subgraph .none
    | none =>
      (subgraph,
        { GraphChange.none with
          addedUpdatedNodes := subgraph.names
          addedUpdatedEdges := subgraph.edgeView })
  (merged.1.setPagerank pagerank, merged.2)

def mergeSubgraph (store : DocStore Name Doc Score) (subgraph : Graph Name Doc Score) :
    DocStore Name Doc Score :=
  let merged := mergedGraph pagerank store subgraph
  setGraph store merged.1 merged.2

end Merge

end RagFlow.GraphRag
