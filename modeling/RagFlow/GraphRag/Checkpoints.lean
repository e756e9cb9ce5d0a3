import RagFlow.GraphRag.Store
import RagFlow.Lib.Runs

/-!
# Checkpoints of a build

A build generates the subgraph of every document, saves it as a checkpoint, and then merges
the subgraphs one by one into the graph of the knowledge base.  The store is written by
single requests, and the process can fail between any two of them; a later build goes on
from what the store holds.
-/

namespace RagFlow.GraphRag

open RagFlow.Lib

variable {Name Doc Score : Type} [LinearOrder Name] [LinearOrder Doc] [Add Score]

section Lookup

omit [Add Score]

/-- The checkpoint of a document, as `load_subgraph_from_store` finds it. -/
def Chunk.checkpoint? (doc : Doc) : Chunk Name Doc Score → Option (Graph Name Doc Score)
  | .subgraph content sourceId false =>
    if doc ∈ sourceId then some { content with sourceId := [doc] } else none
  | _ => none

def loadSubgraph (store : DocStore Name Doc Score) (doc : Doc) : Option (Graph Name Doc Score) :=
  store.findSome? (Chunk.checkpoint? doc)

def Chunk.graphSources? : Chunk Name Doc Score → Option (List Doc)
  | .graph _ sourceId false => some sourceId
  | _ => none

def graphContains (store : DocStore Name Doc Score) (doc : Doc) : Bool :=
  (store.findSome? Chunk.graphSources?).any fun sources => doc ∈ sources

end Lookup

/-- A build, and the subgraphs generated so far.  `saving` are the subgraphs whose old
checkpoint was deleted and whose new one is not inserted yet, `subgraphs` those in memory,
and `writes` the requests that `set_graph` has still to make. -/
structure Build (Name Doc Score : Type) where
  store : DocStore Name Doc Score
  generated : List (DocSubgraph Name Doc Score)
  saving : List (DocSubgraph Name Doc Score)
  subgraphs : List (Doc × Graph Name Doc Score)
  merging : Bool
  writes : List (StoreOp Name Doc Score)

inductive Move (Name Doc Score : Type) where
  | load (doc : Doc)
  | generate (subgraph : DocSubgraph Name Doc Score)
  | save (doc : Doc)
  | merge (doc : Doc)
  | write (index : ℕ)
  | abort
  | fail

namespace Build

omit [Add Score] in
/-- `build_one` generates a subgraph once, when it finds no checkpoint and the graph does not
contain the document. -/
def mayGenerate (state : Build Name Doc Score) (doc : Doc) : Bool :=
  !state.merging && state.saving.all (fun subgraph => subgraph.doc ≠ doc) &&
    state.subgraphs.all (fun item => item.1 ≠ doc) &&
    (loadSubgraph state.store doc).all (fun subgraph => subgraph.names = []) &&
    !graphContains state.store doc

omit [Add Score] in
def toMerge (state : Build Name Doc Score) (doc : Doc) : Option (Graph Name Doc Score) :=
  if (getGraph state.store []).any (fun graph => graph.names ≠ [] ∧ doc ∈ graph.sourceId) then
    none
  else
    (state.subgraphs.find? fun item => item.1 = doc).map Prod.snd

omit [LinearOrder Name] [LinearOrder Doc] [Add Score] in
def isInsert : StoreOp Name Doc Score → Bool
  | .insert _ => true
  | .delete _ => false

omit [LinearOrder Name] [LinearOrder Doc] [Add Score] in
def mayWrite (state : Build Name Doc Score) (index : ℕ) : Bool :=
  index = 0 || index < 4 && (state.writes.take (index + 1)).all isInsert

variable (pagerank : List Name → List (Sym2 Name × Score) → Name → Score)

/-- One store operation of the build, or a failure.  Generating a subgraph deletes the old
checkpoint, saving it inserts the new one; `if sg:` drops a subgraph without nodes.  An
exception in `set_graph` aborts what it has not written yet; when the process fails,
everything in memory is lost, and a new build starts. -/
def step (state : Build Name Doc Score) : Move Name Doc Score → Build Name Doc Score
  | .load doc =>
    match loadSubgraph state.store doc with
    | some subgraph =>
      if state.merging ∨ subgraph.names = [] then state
      else { state with subgraphs := (doc, subgraph) :: state.subgraphs }
    | none => state
  | .generate subgraph =>
    if state.mayGenerate subgraph.doc then
      { state with
        store := StoreOp.apply state.store (.delete (.subgraphOf subgraph.doc))
        saving := subgraph :: state.saving }
    else state
  | .save doc =>
    match state.saving.find? fun subgraph => subgraph.doc = doc with
    | none => state
    | some subgraph =>
      let saved :=
        { state with
          store := StoreOp.apply state.store (.insert [.subgraph subgraph.graph [doc] false])
          saving := state.saving.filter fun other => other.doc ≠ doc }
      if subgraph.graph.names = [] then saved
      else
        { saved with
          generated := subgraph :: state.generated
          subgraphs := (doc, subgraph.graph) :: state.subgraphs }
  | .merge doc =>
    if state.saving = [] ∧ state.writes = [] then
      match state.toMerge doc with
      | none => { state with merging := true }
      | some subgraph =>
        let merged := mergedGraph pagerank state.store subgraph
        { state with merging := true, writes := setGraphOps merged.1 merged.2 }
    else state
  | .write index =>
    match state.writes[index]? with
    | none => state
    | some op =>
      if state.mayWrite index then
        { state with
          store := StoreOp.apply state.store op
          writes := state.writes.eraseIdx index }
      else state
  | .abort => { state with writes := [] }
  | .fail => { state with saving := [], subgraphs := [], merging := false, writes := [] }

omit [LinearOrder Name] [LinearOrder Doc] [Add Score] in
def start : Build Name Doc Score where
  store := []
  generated := []
  saving := []
  subgraphs := []
  merging := false
  writes := []

end Build

section Preserved

omit [Add Score]

omit [LinearOrder Name] in
def Includes (graph other : Graph Name Doc Score) : Prop :=
  (∀ name ∈ other.names, name ∈ graph.names) ∧
    ∀ edge ∈ other.edges.keys, edge ∈ graph.edges.keys

instance decidableIncludes (graph other : Graph Name Doc Score) :
    Decidable (Includes graph other) :=
  inferInstanceAs (Decidable (_ ∧ _))

def Chunk.Keeps (subgraph : DocSubgraph Name Doc Score) : Chunk Name Doc Score → Prop
  | .graph content _ removed => removed = false ∧ Includes content subgraph.graph
  | .subgraph content sourceId removed =>
    removed = false ∧ subgraph.doc ∈ sourceId ∧ Includes content subgraph.graph
  | _ => False

instance decidableKeeps (subgraph : DocSubgraph Name Doc Score) :
    (chunk : Chunk Name Doc Score) → Decidable (chunk.Keeps subgraph)
  | .graph _ _ _ => inferInstanceAs (Decidable (_ ∧ _))
  | .subgraph _ _ _ => inferInstanceAs (Decidable (_ ∧ _ ∧ _))
  | .entity _ _ _ => isFalse id
  | .relation _ _ _ _ => isFalse id

def Preserved (store : DocStore Name Doc Score) (subgraph : DocSubgraph Name Doc Score) : Prop :=
  ∃ chunk ∈ store, chunk.Keeps subgraph

instance decidablePreserved (store : DocStore Name Doc Score)
    (subgraph : DocSubgraph Name Doc Score) : Decidable (Preserved store subgraph) :=
  inferInstanceAs (Decidable (∃ chunk ∈ store, chunk.Keeps subgraph))

omit [LinearOrder Name] [LinearOrder Doc] in
def isGraph (chunk : Chunk Name Doc Score) : Bool :=
  chunk.graph?.isSome

omit [LinearOrder Name] [LinearOrder Doc] in
def deletesGraphs : StoreOp Name Doc Score → Bool
  | .delete .graphs => true
  | _ => false

omit [LinearOrder Name] [LinearOrder Doc] in
def insertsGraph : StoreOp Name Doc Score → Bool
  | .insert chunks => chunks.any isGraph
  | .delete _ => false

omit [LinearOrder Name] [LinearOrder Doc] in
/-- `set_graph` has deleted the old graph and subgraphs, and not yet inserted the new graph. -/
def Exposed (state : Build Name Doc Score) : Prop :=
  state.writes.any insertsGraph ∧ ¬ state.writes.any deletesGraphs

/-- A merge starts only when every other generated document is merged already, and nothing
fails while the graph is neither in its old nor in its new form in the store. -/
def Safe (state : Build Name Doc Score) : Move Name Doc Score → Prop
  | .merge doc =>
    state.saving = [] → state.writes = [] → (state.toMerge doc).isSome →
      ∀ other ∈ state.generated, other.doc = doc ∨
        (getGraph state.store []).any fun graph => other.doc ∈ graph.sourceId
  | .abort => ¬ Exposed state
  | .fail => ¬ Exposed state
  | _ => True

omit [LinearOrder Name] [LinearOrder Doc] in
instance decidableExposed (state : Build Name Doc Score) : Decidable (Exposed state) :=
  inferInstanceAs (Decidable (_ ∧ _))

instance decidableSafe (state : Build Name Doc Score) :
    (move : Move Name Doc Score) → Decidable (Safe state move)
  | .merge doc => inferInstanceAs (Decidable (state.saving = [] → state.writes = [] →
      (state.toMerge doc).isSome → ∀ other ∈ state.generated, other.doc = doc ∨
        (getGraph state.store []).any fun graph => other.doc ∈ graph.sourceId))
  | .abort => inferInstanceAs (Decidable (¬ Exposed state))
  | .fail => inferInstanceAs (Decidable (¬ Exposed state))
  | .load _ => isTrue trivial
  | .generate _ => isTrue trivial
  | .save _ => isTrue trivial
  | .write _ => isTrue trivial

end Preserved

section Covers

omit [Add Score]

def Covers (graph : Graph Name Doc Score) (subgraph : DocSubgraph Name Doc Score) : Prop :=
  (∀ name ∈ subgraph.graph.names, graph.comesFrom subgraph.doc name) ∧
    ∀ edge ∈ subgraph.graph.edges.keys, edge ∈ graph.edges.keys

theorem comesFrom_iff {graph : Graph Name Doc Score} {doc : Doc} {name : Name} :
    graph.comesFrom doc name = true ↔
      ∃ attr, graph.nodes.get? name = some attr ∧ doc ∈ attr.sourceId := by
  rw [Graph.comesFrom, Option.any_eq_true]
  simp only [decide_eq_true_eq]

theorem Covers.includes {graph : Graph Name Doc Score} {subgraph : DocSubgraph Name Doc Score}
    (covers : Covers graph subgraph) : Includes graph subgraph.graph := by
  refine ⟨fun name membership => ?_, covers.2⟩
  obtain ⟨attr, lookup, -⟩ := comesFrom_iff.mp (covers.1 name membership)
  exact Dict.mem_keys_of_get? lookup

theorem covers_self (subgraph : DocSubgraph Name Doc Score) : Covers subgraph.graph subgraph := by
  refine ⟨fun name membership => ?_, fun edge membership => membership⟩
  obtain ⟨attr, lookup⟩ := Graph.mem_names.mp membership
  refine comesFrom_iff.mpr ⟨attr, lookup, ?_⟩
  rw [(subgraph.nodes (name, attr) (Dict.mem_items.mpr lookup)).1]
  exact List.mem_singleton_self subgraph.doc

theorem Covers.docSubgraph {graph : Graph Name Doc Score} {subgraph : DocSubgraph Name Doc Score}
    (covers : Covers graph subgraph) : Covers (graph.docSubgraph subgraph.doc) subgraph := by
  refine ⟨fun name membership => ?_, fun edge membership => ?_⟩
  · have comes := covers.1 name membership
    obtain ⟨attr, lookup, -⟩ := comesFrom_iff.mp comes
    refine comesFrom_iff.mpr ⟨{ attr with sourceId := [subgraph.doc] }, ?_,
      List.mem_singleton_self subgraph.doc⟩
    simp [Graph.docSubgraph, Graph.subgraph, Graph.mapNodes, comes, lookup]
  · rw [Graph.docSubgraph, Graph.edges_mapNodes, Graph.subgraph, Dict.keys_filterKeys,
      List.mem_filter, Graph.keepsEdge_eq_true]
    exact ⟨covers.2 edge membership, fun name inside =>
      covers.1 name (subgraph.graph.endpoints edge membership name inside)⟩

end Covers

section Merged

variable {pagerank : List Name → List (Sym2 Name × Score) → Name → Score}
variable {subgraph : DocSubgraph Name Doc Score}

omit [Add Score] in
theorem Covers.mapNodes {graph : Graph Name Doc Score}
    {change : Name → NodeAttr Doc Score → NodeAttr Doc Score} (covers : Covers graph subgraph)
    (keepsSources : ∀ name attr, (change name attr).sourceId = attr.sourceId) :
    Covers (graph.mapNodes change) subgraph := by
  refine ⟨fun name membership => ?_, covers.2⟩
  obtain ⟨attr, lookup, source⟩ := comesFrom_iff.mp (covers.1 name membership)
  refine comesFrom_iff.mpr ⟨change name attr, ?_, (keepsSources name attr).symm ▸ source⟩
  rw [Graph.mapNodes, Dict.get?_mapValues, lookup, Option.map_some]

theorem comesFrom_addGraph {g1 g2 : Graph Name Doc Score} {doc : Doc} {name : Name} :
    (g1.addGraph g2).comesFrom doc name = true ↔
      g1.comesFrom doc name = true ∨ g2.comesFrom doc name = true := by
  simp only [comesFrom_iff, Graph.addGraph, Dict.get?_merge]
  cases g1.nodes.get? name <;> cases g2.nodes.get? name <;>
    simp [Dict.absorbed, NodeAttr.absorb]

theorem Covers.addGraph {g1 g2 : Graph Name Doc Score}
    (covers : Covers g1 subgraph ∨ Covers g2 subgraph) : Covers (g1.addGraph g2) subgraph := by
  constructor
  · intro name membership
    exact comesFrom_addGraph.mpr (covers.imp (fun first => first.1 name membership)
      fun second => second.1 name membership)
  · intro edge membership
    exact Graph.mem_edges_addGraph.mpr (covers.imp (fun first => first.2 edge membership)
      fun second => second.2 edge membership)

theorem covers_mergedGraph {store : DocStore Name Doc Score} {merged : Graph Name Doc Score}
    (covers : Covers merged subgraph ∨
      ∃ graph, getGraph store merged.sourceId = some graph ∧ Covers graph subgraph) :
    Covers (mergedGraph pagerank store merged).1 subgraph := by
  simp only [mergedGraph]
  refine Covers.mapNodes ?_ fun _ _ => rfl
  split
  · rename_i graph stored
    refine Covers.mapNodes (Covers.addGraph ?_) fun _ _ => rfl
    rcases covers with inMerged | ⟨other, found, inOther⟩
    · exact Or.inr inMerged
    · obtain rfl := Option.some.inj (found.symm.trans stored)
      exact Or.inl inOther
  · rename_i nothing
    rcases covers with inMerged | ⟨other, found, -⟩
    · exact inMerged
    · simp [nothing] at found

theorem sourceId_mergedGraph (store : DocStore Name Doc Score) (merged : Graph Name Doc Score) :
    (mergedGraph pagerank store merged).1.sourceId =
      (getGraph store merged.sourceId).elim [] Graph.sourceId ++ merged.sourceId := by
  simp only [mergedGraph]
  cases getGraph store merged.sourceId <;> rfl

end Merged

end RagFlow.GraphRag
