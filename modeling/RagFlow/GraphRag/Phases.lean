import RagFlow.GraphRag.Checkpoints
import RagFlow.GraphRag.Resolution

/-!
# The phases of a GraphRAG run

From the point where its subgraphs are built, `run_graphrag_for_kb` merges them under the lock of
the knowledge base, releases it, and takes it again to resolve the entities and to extract the
communities.  The merged graph stays in memory in between.  Several runs on one knowledge base take
turns at every step.
-/

namespace RagFlow.GraphRag

open RagFlow.Lib

variable {Run Name Doc Score : Type}

structure Settings (Name Doc Score : Type) where
  withResolution : Bool
  withCommunity : Bool
  subgraphs : List (DocSubgraph Name Doc Score)

inductive Phase (Name Doc Score : Type) where
  | built
  | mergeWaiting
  /-- Holds the lock; the subgraphs of `ok_docs` that are not merged yet. -/
  | merging (todo : List (DocSubgraph Name Doc Score))
  | postWaiting
  | post
  | finished

structure GraphRun (Name Doc Score : Type) where
  phase : Phase Name Doc Score
  finalGraph : Option (Graph Name Doc Score)
  resolutionPending : Bool
  communityPending : Bool
  seen : List Doc

structure KnowledgeBase (Run Name Doc Score : Type) where
  store : DocStore Name Doc Score
  lock : Option Run
  /-- The markers `resolution_done` and `community_done`. -/
  resolutionDone : Bool
  communityDone : Bool
  runs : Run → GraphRun Name Doc Score
  /-- The documents merged so far. -/
  merged : List Doc
  /-- Whether a resolved graph has been saved since the last merge. -/
  resolved : Bool

inductive Action (Name : Type) where
  | readMarkers
  | acquire
  | merge
  | endMerge
  | load
  /-- An attempt to resolve the entities.  One that does not succeed fails after `set_graph`. -/
  | resolve (groups : List (List Name)) (succeeds : Bool)
  | extractCommunity
  | finish
  | fail

structure Turn (Run Name : Type) where
  run : Run
  action : Action Name

def storedGraph (store : DocStore Name Doc Score) : Option (Graph Name Doc Score) :=
  match store.findSome? Chunk.graph? with
  | some (graph, false) => some graph
  | _ => none

def documents (store : DocStore Name Doc Score) : List Doc :=
  (storedGraph store).elim [] Graph.sourceId

namespace KnowledgeBase

section Updates

variable [DecidableEq Run]

def setRun (base : KnowledgeBase Run Name Doc Score) (run : Run)
    (new : GraphRun Name Doc Score) : KnowledgeBase Run Name Doc Score :=
  { base with runs := Function.update base.runs run new }

/-- `kb_lock.release()`, of the run that holds the lock. -/
def release (base : KnowledgeBase Run Name Doc Score) (run : Run) :
    KnowledgeBase Run Name Doc Score :=
  if base.lock = some run then { base with lock := none } else base

def stop (base : KnowledgeBase Run Name Doc Score) (run : Run) :
    KnowledgeBase Run Name Doc Score :=
  (base.setRun run { base.runs run with phase := .finished }).release run

end Updates

variable [DecidableEq Run] (settings : Run → Settings Name Doc Score)

/-- `resolution_pending` and `community_pending`; a run with nothing to merge and nothing pending
ends. -/
def readMarkers (base : KnowledgeBase Run Name Doc Score) (run : Run) :
    KnowledgeBase Run Name Doc Score :=
  let resolutionPending := (settings run).withResolution && !base.resolutionDone
  let communityPending := (settings run).withCommunity && !base.communityDone
  let ends := (settings run).subgraphs.isEmpty && !resolutionPending && !communityPending
  base.setRun run
    { base.runs run with
      resolutionPending := resolutionPending
      communityPending := communityPending
      phase := if ends then .finished else .mergeWaiting }

/-- `_acquire_lock` of either lock. -/
def acquire (base : KnowledgeBase Run Name Doc Score) (run : Run)
    (next : Phase Name Doc Score) : KnowledgeBase Run Name Doc Score :=
  if base.lock.isNone then
    { base.setRun run { base.runs run with phase := next } with lock := some run }
  else base

def endMerge (base : KnowledgeBase Run Name Doc Score) (run : Run) :
    KnowledgeBase Run Name Doc Score :=
  let asked := settings run
  let merges := !asked.subgraphs.isEmpty
  let resolutionPending := if merges then asked.withResolution else (base.runs run).resolutionPending
  let communityPending := if merges then asked.withCommunity else (base.runs run).communityPending
  let ends := !asked.withResolution && !asked.withCommunity ||
    !resolutionPending && !communityPending
  let next : GraphRun Name Doc Score :=
    { base.runs run with
      resolutionPending := resolutionPending
      communityPending := communityPending
      phase := if ends then .finished else .postWaiting }
  { base.setRun run next with
    lock := none
    resolutionDone := !merges && base.resolutionDone
    communityDone := !merges && base.communityDone }

/-- `extract_community` writes reports, which are no part of the graph. -/
def extractCommunity (base : KnowledgeBase Run Name Doc Score) (run : Run) :
    KnowledgeBase Run Name Doc Score :=
  { base.setRun run { base.runs run with communityPending := false } with communityDone := true }

variable [LinearOrder Name] [LinearOrder Doc] [Add Score]
variable (pagerank : List Name → List (Sym2 Name × Score) → Name → Score)
variable (summary : Summary Name Doc)

/-- `merge_subgraph_attempt`: the graph that is returned, and whether it is saved. -/
def mergeNext (base : KnowledgeBase Run Name Doc Score) (run : Run)
    (subgraph : DocSubgraph Name Doc Score) (todo : List (DocSubgraph Name Doc Score)) :
    KnowledgeBase Run Name Doc Score :=
  match (getGraph base.store []).filter fun graph =>
      graph.names ≠ [] ∧ subgraph.doc ∈ graph.sourceId with
  | some currentGraph =>
    base.setRun run
      { base.runs run with
        phase := .merging todo
        finalGraph := some currentGraph
        seen := base.merged }
  | none =>
    let merged := subgraph.doc :: base.merged
    let next : GraphRun Name Doc Score :=
      { base.runs run with
        phase := .merging todo
        finalGraph := some (mergedGraph pagerank base.store subgraph.graph).1
        seen := merged }
    { base.setRun run next with
      store := mergeSubgraph pagerank base.store subgraph.graph
      merged := merged
      resolved := false }

/-- Without a merged graph the persisted one is loaded; when there is none the run ends. -/
def load (base : KnowledgeBase Run Name Doc Score) (run : Run) :
    KnowledgeBase Run Name Doc Score :=
  match getGraph base.store [] with
  | none => base.stop run
  | some graph =>
    base.setRun run { base.runs run with finalGraph := some graph, seen := base.merged }

/-- `resolve_entities` on a copy of the graph of the run.  The groups are of nodes of the graph. -/
def resolve (base : KnowledgeBase Run Name Doc Score) (run : Run) (graph : Graph Name Doc Score)
    (groups : List (List Name)) (succeeds : Bool) : KnowledgeBase Run Name Doc Score :=
  match mergeGroups summary (graph, .none) groups with
  | none => base
  | some (resolvedGraph, change) =>
    let saved :=
      { base with
        store := setGraph base.store (resolvedGraph.setPagerank pagerank) change
        resolved := true }
    if succeeds then
      let next : GraphRun Name Doc Score :=
        { base.runs run with
          finalGraph := some (resolvedGraph.setPagerank pagerank)
          resolutionPending := false }
      { saved.setRun run next with resolutionDone := true }
    else saved

def step (base : KnowledgeBase Run Name Doc Score) (turn : Turn Run Name) :
    KnowledgeBase Run Name Doc Score :=
  let run := turn.run
  let current := base.runs run
  match turn.action, current.phase with
  | .readMarkers, .built => base.readMarkers settings run
  | .acquire, .mergeWaiting => base.acquire run (.merging (settings run).subgraphs)
  | .acquire, .postWaiting => base.acquire run .post
  | .merge, .merging (subgraph :: todo) => base.mergeNext pagerank run subgraph todo
  | .endMerge, .merging [] => base.endMerge settings run
  | .load, .post => if current.finalGraph.isNone then base.load run else base
  | .resolve groups succeeds, .post =>
    match current.finalGraph with
    | none => base
    | some graph =>
      if current.resolutionPending then base.resolve pagerank summary run graph groups succeeds
      else base
  | .extractCommunity, .post =>
    if current.finalGraph.isSome ∧ !current.resolutionPending ∧ current.communityPending then
      base.extractCommunity run
    else base
  | .finish, .post =>
    if current.finalGraph.isSome ∧ !current.resolutionPending ∧ !current.communityPending then
      base.stop run
    else base
  | .fail, _ => base.stop run
  | _, _ => base

end KnowledgeBase

structure Beginning (Name Doc Score : Type) where
  store : DocStore Name Doc Score
  resolutionDone : Bool
  communityDone : Bool
  resolved : Bool
  markers_right : resolutionDone = true ∨ communityDone = true → resolved = true

namespace Beginning

def base (beginning : Beginning Name Doc Score) : KnowledgeBase Run Name Doc Score where
  store := beginning.store
  lock := none
  resolutionDone := beginning.resolutionDone
  communityDone := beginning.communityDone
  runs _ :=
    { phase := .built
      finalGraph := none
      resolutionPending := false
      communityPending := false
      seen := [] }
  merged := documents beginning.store
  resolved := beginning.resolved

end Beginning

end RagFlow.GraphRag
