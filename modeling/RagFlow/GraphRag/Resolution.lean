import RagFlow.GraphRag.Graph

/-!
# Entity resolution

Nodes found to name the same entity are merged into the first of them: it takes over their
descriptions, their sources and their edges.  `_merge_graph_nodes` records in the change
object which nodes and edges went and which were written.
-/

namespace RagFlow.GraphRag

open RagFlow.Lib

variable {Name Doc Score : Type} [LinearOrder Name] [LinearOrder Doc] [Add Score]

/-- `_handle_entity_relation_summary`: a description that grew too long is summarized by the
chat model. -/
abbrev Summary (Name Doc : Type) := Name ⊕ Name × Name → List (Piece Doc) → List (Piece Doc)

/-- `sorted(set(values))` -/
def sortedSet {Value : Type} [LinearOrder Value] (values : List Value) : List Value :=
  values.dedup.insertionSort (· ≤ ·)

def mergeNodeAttrs (node0Attrs node1Attrs : NodeAttr Doc Score) : NodeAttr Doc Score :=
  { node0Attrs with
    description := node0Attrs.description ++ node1Attrs.description
    sourceId := sortedSet (node0Attrs.sourceId ++ node1Attrs.sourceId) }

def mergeEdgeAttrs (summary : List (Piece Doc) → List (Piece Doc))
    (edge0Attrs edge1Attrs : EdgeAttr Doc Score) : EdgeAttr Doc Score where
  weight := edge0Attrs.weight + edge1Attrs.weight
  description := summary (edge0Attrs.description ++ edge1Attrs.description)
  keywords := sortedSet (edge0Attrs.keywords ++ edge1Attrs.keywords)
  sourceId := sortedSet (edge0Attrs.sourceId ++ edge1Attrs.sourceId)

/-- `graph.neighbors(node)`, each with the edge that leads to it. -/
def incident (graph : Graph Name Doc Score) (node : Name) : List (Name × EdgeAttr Doc Score) :=
  graph.edges.items.filterMap fun item =>
    if inside : node ∈ item.1 then some (Sym2.Mem.other' inside, item.2) else none

omit [LinearOrder Doc] [Add Score] in
theorem mem_names_of_incident {graph : Graph Name Doc Score} {node : Name}
    {neighbor : Name × EdgeAttr Doc Score} (membership : neighbor ∈ incident graph node) :
    neighbor.1 ∈ graph.names := by
  obtain ⟨item, itemMembership, found⟩ := List.mem_filterMap.mp membership
  split at found
  · rename_i inside
    obtain rfl := Option.some.inj found
    exact graph.endpoints item.1 (List.mem_map_of_mem itemMembership) _ (Sym2.other_mem' inside)
  · simp at found

structure Redirecting (Name Doc Score : Type) where
  edges : Dict (Sym2 Name) (EdgeAttr Doc Score)
  node0Neighbors : List Name
  change : GraphChange Name

/-- The body of the loop over the neighbors of `node1`. -/
def redirectEdge (summary : Summary Name Doc) (node0 : Name) (nodes : List Name) (node1 : Name)
    (state : Redirecting Name Doc Score) (neighbor : Name × EdgeAttr Doc Score) :
    Redirecting Name Doc Score :=
  let change :=
    { state.change with
      removedEdges := state.change.removedEdges.insert (getFromTo node1 neighbor.1) }
  if neighbor.1 ∈ nodes then
    { state with change := change }
  else if neighbor.1 ∈ state.node0Neighbors then
    -- Merge two edges
    { state with
      edges := state.edges.upsert s(node0, neighbor.1)
        (Dict.absorbed (mergeEdgeAttrs (summary (.inr (node0, neighbor.1)))) neighbor.2)
      change :=
        { change with
          addedUpdatedEdges := change.addedUpdatedEdges.insert (getFromTo node0 neighbor.1) } }
  else
    -- Track the redirected neighbour, so that a later node merges its edge with this one.
    { edges := state.edges.upsert s(node0, neighbor.1) fun _ => neighbor.2
      node0Neighbors := neighbor.1 :: state.node0Neighbors
      change := change }

def redirectEdges (summary : Summary Name Doc) (node0 : Name) (nodes : List Name) (node1 : Name)
    (state : Redirecting Name Doc Score) (neighbors : List (Name × EdgeAttr Doc Score)) :
    Redirecting Name Doc Score :=
  neighbors.foldl (redirectEdge summary node0 nodes node1) state

section Redirect

variable (summary : Summary Name Doc) (node0 : Name) (nodes : List Name) (node1 : Name)

theorem redirectEdge_spec (state : Redirecting Name Doc Score)
    (neighbor : Name × EdgeAttr Doc Score) :
    let redirected := redirectEdge summary node0 nodes node1 state neighbor
    redirected.change.removedNodes = state.change.removedNodes ∧
      redirected.change.addedUpdatedNodes = state.change.addedUpdatedNodes ∧
      ∀ edge ∈ redirected.edges.keys, edge ∈ state.edges.keys ∨ edge = s(node0, neighbor.1) := by
  unfold redirectEdge
  dsimp only
  split_ifs
  · exact ⟨rfl, rfl, fun edge membership => Or.inl membership⟩
  · exact ⟨rfl, rfl, fun edge membership => (Dict.mem_keys_upsert.mp membership).symm⟩
  · exact ⟨rfl, rfl, fun edge membership => (Dict.mem_keys_upsert.mp membership).symm⟩

theorem redirectEdges_spec (neighbors : List (Name × EdgeAttr Doc Score))
    (state : Redirecting Name Doc Score) :
    let redirected := redirectEdges summary node0 nodes node1 state neighbors
    redirected.change.removedNodes = state.change.removedNodes ∧
      redirected.change.addedUpdatedNodes = state.change.addedUpdatedNodes ∧
      ∀ edge ∈ redirected.edges.keys, edge ∈ state.edges.keys ∨
        ∃ neighbor ∈ neighbors, edge = s(node0, neighbor.1) := by
  induction neighbors generalizing state with
  | nil => exact ⟨rfl, rfl, fun edge membership => Or.inl membership⟩
  | cons neighbor neighbors ih =>
    obtain ⟨removed, added, edges⟩ := redirectEdge_spec summary node0 nodes node1 state neighbor
    obtain ⟨laterRemoved, laterAdded, laterEdges⟩ := ih
      (redirectEdge summary node0 nodes node1 state neighbor)
    refine ⟨laterRemoved.trans removed, laterAdded.trans added, fun edge membership => ?_⟩
    rcases laterEdges edge membership with old | ⟨other, otherMembership, rfl⟩
    · exact (edges edge old).imp_right fun same => ⟨neighbor, List.mem_cons_self, same⟩
    · exact Or.inr ⟨other, List.mem_cons_of_mem neighbor otherMembership, rfl⟩

end Redirect

structure Merging (Name Doc Score : Type) where
  graph : Graph Name Doc Score
  node0Neighbors : List Name
  change : GraphChange Name

/-- The body of the loop over `nodes[1:]`; a node that is not there raises. -/
def absorbNode (summary : Summary Name Doc) (node0 : Name) (nodes : List Name)
    (state : Merging Name Doc Score) (node1 : Name) : Option (Merging Name Doc Score) := do
  let node0Attrs ← state.graph.nodes.get? node0
  let node1Attrs ← state.graph.nodes.get? node1
  let redirected := redirectEdges summary node0 nodes node1
    ⟨state.graph.edges, state.node0Neighbors, state.change⟩ (incident state.graph node1)
  some
    { graph :=
        { nodes := (state.graph.nodes.upsert node0
            fun _ => mergeNodeAttrs node0Attrs node1Attrs).erase node1
          edges := redirected.edges.filterKeys fun edge => node1 ∉ edge
          sourceId := state.graph.sourceId
          endpoints := by
            intro edge membership name inside
            rw [Dict.keys_filterKeys, List.mem_filter, decide_eq_true_eq] at membership
            have notNode1 : name ≠ node1 := fun same => membership.2 (same ▸ inside)
            refine Dict.mem_keys_erase.mpr ⟨Dict.mem_keys_upsert.mpr ?_, notNode1⟩
            rcases (redirectEdges_spec summary node0 nodes node1 (incident state.graph node1)
              _).2.2 edge membership.1 with old | ⟨neighbor, neighborMembership, rfl⟩
            · exact Or.inr (state.graph.endpoints edge old name inside)
            · rcases Sym2.mem_iff.mp inside with rfl | rfl
              · exact Or.inl rfl
              · exact Or.inr (mem_names_of_incident neighborMembership) }
      node0Neighbors := redirected.node0Neighbors
      change := redirected.change }

def startMerging (state : Graph Name Doc Score × GraphChange Name) (node0 : Name)
    (rest : List Name) : Merging Name Doc Score where
  graph := state.1
  node0Neighbors := (incident state.1 node0).map Prod.fst
  change :=
    { state.2 with
      addedUpdatedNodes := state.2.addedUpdatedNodes.insert node0
      removedNodes := state.2.removedNodes ∪ rest }

def mergeGraphNodes (summary : Summary Name Doc)
    (state : Graph Name Doc Score × GraphChange Name) :
    List Name → Option (Graph Name Doc Score × GraphChange Name)
  | [] => some state
  | [_] => some state
  | node0 :: rest => do
    let merged ← rest.foldlM (absorbNode summary node0 (node0 :: rest))
      (startMerging state node0 rest)
    some (merged.graph.mapNodes fun name attr =>
      if name = node0 then { attr with description := summary (.inl node0) attr.description }
      else attr, merged.change)

def mergeGroups (summary : Summary Name Doc) (state : Graph Name Doc Score × GraphChange Name)
    (groups : List (List Name)) : Option (Graph Name Doc Score × GraphChange Name) :=
  groups.foldlM (mergeGraphNodes summary) state

section Merging

variable (summary : Summary Name Doc)

theorem absorbNode_spec (nodes : List Name) {node0 node1 : Name}
    {state : Merging Name Doc Score} (present0 : node0 ∈ state.graph.names)
    (present1 : node1 ∈ state.graph.names) :
    ∃ after, absorbNode summary node0 nodes state node1 = some after ∧
      (∀ name, name ∈ after.graph.names ↔ name ∈ state.graph.names ∧ name ≠ node1) ∧
      after.change.removedNodes = state.change.removedNodes ∧
      after.change.addedUpdatedNodes = state.change.addedUpdatedNodes := by
  obtain ⟨node0Attrs, lookup0⟩ := Graph.mem_names.mp present0
  obtain ⟨node1Attrs, lookup1⟩ := Graph.mem_names.mp present1
  obtain ⟨removed, added, -⟩ := redirectEdges_spec summary node0 nodes node1
    (incident state.graph node1) ⟨state.graph.edges, state.node0Neighbors, state.change⟩
  simp only [absorbNode, lookup0, lookup1, Option.bind_eq_bind, Option.bind_some,
    Option.some.injEq, exists_eq_left']
  refine ⟨fun name => ?_, removed, added⟩
  rw [Graph.names, Dict.mem_keys_erase, Dict.mem_keys_upsert]
  exact and_congr_left fun _ => or_iff_right_of_imp fun same => same ▸ present0

theorem absorbNodes_spec (nodes : List Name) {node0 : Name} {rest : List Name}
    (state : Merging Name Doc Score) (distinct : rest.Nodup) (outside : node0 ∉ rest)
    (present0 : node0 ∈ state.graph.names) (present : ∀ node1 ∈ rest, node1 ∈ state.graph.names) :
    ∃ after, rest.foldlM (absorbNode summary node0 nodes) state = some after ∧
      (∀ name, name ∈ after.graph.names ↔ name ∈ state.graph.names ∧ name ∉ rest) ∧
      after.change.removedNodes = state.change.removedNodes ∧
      after.change.addedUpdatedNodes = state.change.addedUpdatedNodes := by
  induction rest generalizing state with
  | nil => exact ⟨state, rfl, by simp, rfl, rfl⟩
  | cons node1 rest ih =>
    obtain ⟨next, absorbed, names, removed, added⟩ := absorbNode_spec summary
      nodes present0 (present node1 List.mem_cons_self)
    rw [List.nodup_cons] at distinct
    rw [List.mem_cons, not_or] at outside
    obtain ⟨after, absorbedRest, restNames, restRemoved, restAdded⟩ :=
      ih next distinct.2 outside.2
        ((names node0).mpr ⟨present0, outside.1⟩) fun other membership =>
          (names other).mpr ⟨present other (List.mem_cons_of_mem node1 membership),
            fun same => distinct.1 (same ▸ membership)⟩
    refine ⟨after, ?_, fun name => ?_, restRemoved.trans removed, restAdded.trans added⟩
    · rw [List.foldlM_cons, absorbed]
      exact absorbedRest
    · rw [restNames, names, List.mem_cons, not_or, and_assoc]

theorem mergeGraphNodes_spec {nodes : List Name}
    (state : Graph Name Doc Score × GraphChange Name) (distinct : nodes.Nodup)
    (present : ∀ node ∈ nodes, node ∈ state.1.names) :
    ∃ after, mergeGraphNodes summary state nodes = some after ∧
      (∀ name, name ∈ after.1.names ↔ name ∈ state.1.names ∧ name ∉ nodes.tail) ∧
      (∀ name, name ∈ after.2.removedNodes ↔
        name ∈ state.2.removedNodes ∨ name ∈ nodes.tail) ∧
      ∀ name, name ∈ after.2.addedUpdatedNodes ↔
        name ∈ state.2.addedUpdatedNodes ∨ 2 ≤ nodes.length ∧ nodes.head? = some name := by
  match nodes with
  | [] => exact ⟨state, rfl, by simp, by simp, by simp⟩
  | [_] => exact ⟨state, rfl, by simp, by simp, by simp⟩
  | node0 :: node1 :: rest =>
    rw [List.nodup_cons] at distinct
    obtain ⟨merged, absorbed, names, removed, added⟩ := absorbNodes_spec summary
      (node0 :: node1 :: rest) (startMerging state node0 (node1 :: rest)) distinct.2 distinct.1
      (present node0 List.mem_cons_self)
      fun other membership => present other (List.mem_cons_of_mem node0 membership)
    simp only [mergeGraphNodes, absorbed, Option.bind_eq_bind, Option.bind_some,
      Option.some.injEq, exists_eq_left', List.tail_cons]
    refine ⟨fun name => ?_, fun name => ?_, fun name => ?_⟩
    · rw [Graph.names_mapNodes, names]
      rfl
    · rw [removed]
      exact List.mem_union_iff
    · simp [added, startMerging, or_comm, eq_comm]

theorem mergeGroups_spec {groups : List (List Name)}
    (state : Graph Name Doc Score × GraphChange Name) (distinct : groups.flatten.Nodup)
    (present : ∀ node ∈ groups.flatten, node ∈ state.1.names) :
    ∃ after, mergeGroups summary state groups = some after ∧
      (∀ name, name ∈ after.1.names ↔ name ∈ state.1.names ∧ name ∉ groups.flatMap List.tail) ∧
      (∀ name, name ∈ after.2.removedNodes ↔
        name ∈ state.2.removedNodes ∨ name ∈ groups.flatMap List.tail) ∧
      ∀ name, name ∈ after.2.addedUpdatedNodes ↔
        name ∈ state.2.addedUpdatedNodes ∨
          ∃ group ∈ groups, 2 ≤ group.length ∧ group.head? = some name := by
  induction groups generalizing state with
  | nil => exact ⟨state, rfl, by simp, by simp, by simp⟩
  | cons nodes groups ih =>
    rw [List.flatten_cons, List.nodup_append'] at distinct
    rw [List.flatten_cons] at present
    obtain ⟨next, merged, names, removed, added⟩ := mergeGraphNodes_spec summary
      state distinct.1 fun node membership => present node (List.mem_append_left _ membership)
    obtain ⟨after, mergedRest, restNames, restRemoved, restAdded⟩ :=
      ih next distinct.2.1 fun node membership =>
        (names node).mpr ⟨present node (List.mem_append_right _ membership),
          fun inTail => distinct.2.2 (List.mem_of_mem_tail inTail) membership⟩
    refine ⟨after, ?_, fun name => ?_, fun name => ?_, fun name => ?_⟩
    · rw [mergeGroups, List.foldlM_cons, merged]
      exact mergedRest
    · rw [restNames, names, List.flatMap_cons, List.mem_append, not_or, and_assoc]
    · rw [restRemoved, removed, List.flatMap_cons, List.mem_append, or_assoc]
    · simp only [restAdded, added, List.mem_cons, exists_eq_or_imp, or_assoc]

omit [LinearOrder Doc] [Add Score] in
theorem head_not_mem_tails {groups : List (List Name)} (distinct : groups.flatten.Nodup)
    {group : List Name} (membership : group ∈ groups) {node : Name}
    (first : group.head? = some node) : node ∉ groups.flatMap List.tail := by
  rw [List.nodup_flatten] at distinct
  obtain ⟨rest, rfl⟩ := List.head?_eq_some_iff.mp first
  rw [List.mem_flatMap]
  rintro ⟨other, otherMembership, inTail⟩
  by_cases same : other = node :: rest
  · exact (List.nodup_cons.mp (distinct.1 _ membership)).1 (by simpa [same] using inTail)
  · have : Std.Symm (List.Disjoint (α := Name)) := ⟨fun _ _ disjoint => disjoint.symm⟩
    exact distinct.2.forall membership otherMembership (Ne.symm same) List.mem_cons_self
      (List.mem_of_mem_tail inTail)

theorem mergeGroups_of_short {groups : List (List Name)}
    (short : ∀ group ∈ groups, group.length < 2)
    (state : Graph Name Doc Score × GraphChange Name) :
    mergeGroups summary state groups = some state := by
  induction groups with
  | nil => rfl
  | cons nodes groups ih =>
    have unchanged : mergeGraphNodes summary state nodes = some state := by
      match nodes, short nodes List.mem_cons_self with
      | [], _ => rfl
      | [_], _ => rfl
    rw [mergeGroups, List.foldlM_cons, unchanged]
    exact ih fun group membership =>
      short group (List.mem_cons_of_mem nodes membership)

end Merging

end RagFlow.GraphRag
