import RagFlow.GraphRag.Resolution
import RagFlow.GraphRag.Store
import RagFlow.Lib.Runs

/-!
# The index of a knowledge graph

The entity and relation chunks of a knowledge base are an index of the nodes and edges of
its stored graph.  Every merge of a subgraph and every entity resolution saves the graph and
updates the index by the change it recorded.
-/

namespace RagFlow.GraphRag

open RagFlow.Lib

variable {Name Doc Score : Type} [LinearOrder Name] [LinearOrder Doc] [Add Score]
variable (pagerank : List Name → List (Sym2 Name × Score) → Name → Score)
variable (summary : Summary Name Doc)

structure Groups (Name : Type) where
  groups : List (List Name)
  nodup : groups.flatten.Nodup

/-- Merge the groups in the stored graph and save it.  The pairs are pairs of nodes of the
graph, so no group names another node. -/
def resolveEntities (store : DocStore Name Doc Score) (groups : Groups Name) :
    DocStore Name Doc Score :=
  match getGraph store [] with
  | none => store
  | some graph =>
    if ∀ node ∈ groups.groups.flatten, node ∈ graph.names then
      match mergeGroups summary (graph, .none) groups.groups with
      | none => store
      | some merged => setGraph store (merged.1.setPagerank pagerank) merged.2
    else
      store

inductive Update (Name Doc Score : Type) where
  | merge (subgraph : Graph Name Doc Score)
  | resolve (groups : Groups Name)

def update (store : DocStore Name Doc Score) : Update Name Doc Score → DocStore Name Doc Score
  | .merge subgraph => mergeSubgraph pagerank store subgraph
  | .resolve groups => resolveEntities pagerank summary store groups

omit [LinearOrder Name] [LinearOrder Doc] [Add Score] in
def undirected (entry : (Name × Name) × EdgeAttr Doc Score) : Sym2 Name × EdgeAttr Doc Score :=
  (s(entry.1.1, entry.1.2), entry.2)

omit [Add Score] in
/-- One entity chunk for each node and one relation chunk for each edge of the stored graph,
with their present attributes, and no others. -/
def Consistent (store : DocStore Name Doc Score) : Prop :=
  match getGraph store [] with
  | none => entities store = [] ∧ relations store = []
  | some graph =>
    (entities store).Perm graph.nodes.items ∧
      ((relations store).map undirected).Perm graph.edges.items

omit [Add Score] in
instance decidableConsistent [DecidableEq Score] (store : DocStore Name Doc Score) :
    Decidable (Consistent store) :=
  match stored : getGraph store [] with
  | none => decidable_of_iff (entities store = [] ∧ relations store = []) (by
      rw [Consistent, stored])
  | some graph => decidable_of_iff ((entities store).Perm graph.nodes.items ∧
      ((relations store).map undirected).Perm graph.edges.items) (by rw [Consistent, stored])

/-- The update touches no node that is already stored: a merged subgraph has no stored node
and leaves the ranks as they are, and a resolution merges no two nodes. -/
def Untouching (store : DocStore Name Doc Score) : Update Name Doc Score → Prop
  | .merge subgraph =>
    ∀ graph, getGraph store [] = some graph →
      (∀ name ∈ subgraph.names, name ∉ graph.names) ∧
        ∀ name attr, graph.nodes.get? name = some attr →
          attr.rank = some (Graph.degree graph.edges.keys name) ∧
          attr.pagerank = some (pagerank (graph.names ++ subgraph.names)
            (graph.weightedEdges ++ subgraph.weightedEdges) name)
  | .resolve groups =>
    ∀ graph, getGraph store [] = some graph →
      (∀ node ∈ groups.groups.flatten, node ∈ graph.names) →
        ∀ group ∈ groups.groups, group.length < 2

omit [Add Score] in
def Settled (store : DocStore Name Doc Score) : Prop :=
  ∀ graph removed, store.findSome? Chunk.graph? = some (graph, removed) →
    removed = false ∧ ∀ name attr, graph.nodes.get? name = some attr →
      attr.pagerank = some (pagerank graph.names graph.weightedEdges name)

section Settled

variable {pagerank} {summary}

omit [Add Score] in
theorem settled_setGraph (store : DocStore Name Doc Score) (graph : Graph Name Doc Score)
    (change : GraphChange Name) :
    Settled pagerank (setGraph store (graph.setPagerank pagerank) change) := by
  intro stored removed found
  rw [graph?_setGraph] at found
  obtain ⟨rfl, rfl⟩ := Prod.mk.inj (Option.some.inj found)
  refine ⟨rfl, fun name attr lookup => ?_⟩
  rw [Graph.setPagerank, Graph.mapNodes, Dict.get?_mapValues, Option.map_eq_some_iff] at lookup
  obtain ⟨old, -, rfl⟩ := lookup
  rw [Graph.setPagerank, Graph.names_mapNodes]
  rfl

theorem settled_update (store : DocStore Name Doc Score) (move : Update Name Doc Score)
    (settled : Settled pagerank store) : Settled pagerank (update pagerank summary store move) := by
  cases move with
  | merge subgraph => exact settled_setGraph store _ _
  | resolve groups =>
    rw [update, resolveEntities]
    split
    · exact settled
    · split_ifs
      · split
        · exact settled
        · exact settled_setGraph store _ _
      · exact settled

omit [Add Score] in
theorem Settled.getGraph_eq {store : DocStore Name Doc Score} (settled : Settled pagerank store)
    (exclude : List Doc) :
    getGraph store exclude = (store.findSome? Chunk.graph?).map Prod.fst :=
  RagFlow.GraphRag.getGraph_eq (fun graph removed found => (settled graph removed found).1) exclude

omit [Add Score] in
theorem Settled.pagerank_eq {store : DocStore Name Doc Score} (settled : Settled pagerank store)
    {graph : Graph Name Doc Score} (stored : getGraph store [] = some graph) {name : Name}
    {attr : NodeAttr Doc Score} (lookup : graph.nodes.get? name = some attr) :
    attr.pagerank = some (pagerank graph.names graph.weightedEdges name) := by
  rw [settled.getGraph_eq, Option.map_eq_some_iff] at stored
  obtain ⟨⟨content, removed⟩, found, rfl⟩ := stored
  exact (settled content removed found).2 name attr lookup

end Settled

section Entries

variable {graph : Graph Name Doc Score}

omit [LinearOrder Doc] [Add Score] in
theorem nodeEntries_of_items (part : List (Name × NodeAttr Doc Score))
    (inside : ∀ item ∈ part, item ∈ graph.nodes.items) :
    nodeEntries graph (part.map Prod.fst) = part := by
  rw [nodeEntries, List.filterMap_map]
  calc part.filterMap _ = part.filterMap some := List.filterMap_congr fun item membership => by
        simp [Dict.mem_items.mp (inside item membership)]
    _ = part := List.filterMap_some

omit [LinearOrder Doc] [Add Score] in
theorem edgeEntries_of_items {orientation : Sym2 Name → Name × Name}
    (faithful : ∀ edge, s((orientation edge).1, (orientation edge).2) = edge)
    (part : List (Sym2 Name × EdgeAttr Doc Score))
    (inside : ∀ item ∈ part, item ∈ graph.edges.items) :
    (edgeEntries graph ((part.map Prod.fst).map orientation)).map undirected = part := by
  rw [edgeEntries, List.map_map, List.filterMap_map, List.map_filterMap]
  calc part.filterMap _ = part.filterMap some := List.filterMap_congr fun item membership => by
        simp [undirected, faithful, Dict.mem_items.mp (inside item membership)]
    _ = part := List.filterMap_some

omit [LinearOrder Doc] [Add Score] in
theorem mem_names_nodeEntries {names : List Name} {name : Name} :
    name ∈ (nodeEntries graph names).map Prod.fst ↔ name ∈ names ∧ name ∈ graph.names := by
  simp only [nodeEntries, List.mem_map, List.mem_filterMap, Option.map_eq_some_iff,
    Graph.mem_names]
  constructor
  · rintro ⟨entry, ⟨other, membership, attr, lookup, rfl⟩, rfl⟩
    exact ⟨membership, attr, lookup⟩
  · rintro ⟨membership, attr, lookup⟩
    exact ⟨(name, attr), ⟨name, membership, attr, lookup, rfl⟩, rfl⟩

omit [LinearOrder Name] [LinearOrder Doc] [Add Score] in
theorem not_mem_of_kept {kept written : List (Name × NodeAttr Doc Score)}
    (index : (kept ++ written).Perm graph.nodes.items) {name : Name}
    (isKept : name ∈ kept.map Prod.fst) : name ∉ written.map Prod.fst := by
  have distinct : ((kept ++ written).map Prod.fst).Nodup :=
    (index.map Prod.fst).nodup_iff.mpr graph.nodes.nodup
  rw [List.map_append, List.nodup_append'] at distinct
  exact fun isWritten => distinct.2.2 isKept isWritten

end Entries

omit [Add Score] in
theorem consistent_setGraph (store : DocStore Name Doc Score) (graph : Graph Name Doc Score)
    (change : GraphChange Name) :
    Consistent (setGraph store graph change) ↔
      (((entities store).filter fun item => item.1 ∉ change.removedNodes) ++
        nodeEntries graph change.addedUpdatedNodes).Perm graph.nodes.items ∧
      ((((relations store).filter fun item => item.1 ∉ change.removedEdges) ++
        edgeEntries graph change.addedUpdatedEdges).map undirected).Perm graph.edges.items := by
  rw [Consistent, getGraph_setGraph, entities_setGraph, relations_setGraph]

section Merge

variable {pagerank}

theorem consistent_firstMerge {store : DocStore Name Doc Score}
    (settled : Settled pagerank store) (nothing : getGraph store [] = none)
    (consistent : Consistent store) (subgraph : Graph Name Doc Score) :
    Consistent (mergeSubgraph pagerank store subgraph) := by
  rw [Consistent, nothing] at consistent
  obtain ⟨noEntities, noRelations⟩ := consistent
  simp only [mergeSubgraph, mergedGraph, settled.getGraph_eq subgraph.sourceId,
    ← settled.getGraph_eq [], nothing, GraphChange.none]
  rw [consistent_setGraph, noEntities, noRelations]
  simp only [List.filter_nil, List.nil_append]
  constructor
  · have names : subgraph.names = (subgraph.setPagerank pagerank).nodes.items.map Prod.fst :=
      (Graph.names_mapNodes _ subgraph).symm
    rw [names, nodeEntries_of_items _ fun _ membership => membership]
  · have entries : (edgeEntries (subgraph.setPagerank pagerank)
        ((subgraph.edges.items.map Prod.fst).map (orient subgraph.names))).map undirected =
        subgraph.edges.items :=
      edgeEntries_of_items (mk_orient _) _ fun _ membership => membership
    exact entries ▸ List.Perm.refl _

section Later

variable {store : DocStore Name Doc Score} {graph subgraph : Graph Name Doc Score}

def grown (pagerank : List Name → List (Sym2 Name × Score) → Name → Score)
    (graph subgraph : Graph Name Doc Score) : Graph Name Doc Score :=
  ((graph.addGraph subgraph).setRank).setPagerank pagerank

theorem mergeSubgraph_grown (settled : Settled pagerank store)
    (stored : getGraph store [] = some graph) :
    mergeSubgraph pagerank store subgraph =
      setGraph store (grown pagerank graph subgraph)
        { GraphChange.none with
          addedUpdatedNodes := [] ∪ subgraph.names
          addedUpdatedEdges := [] ∪ subgraph.edges.keys.map edgeFromTo } := by
  simp only [mergeSubgraph, mergedGraph, settled.getGraph_eq subgraph.sourceId,
    ← settled.getGraph_eq [], stored]
  rfl

omit [LinearOrder Doc] in
theorem get?_grown (name : Name) :
    (grown pagerank graph subgraph).nodes.get? name =
      ((graph.addGraph subgraph).nodes.get? name).map fun attr =>
        { attr with
          rank := some (Graph.degree (graph.addGraph subgraph).edges.keys name)
          pagerank := some (pagerank (graph.addGraph subgraph).names
            (graph.addGraph subgraph).weightedEdges name) } := by
  simp only [grown, Graph.setPagerank, Graph.setRank, Graph.mapNodes, Dict.get?_mapValues,
    Option.map_map]
  simp only [Graph.names, Dict.keys_mapValues]
  rfl

omit [LinearOrder Doc] in
theorem mem_names_grown {name : Name} :
    name ∈ (grown pagerank graph subgraph).names ↔
      name ∈ graph.names ∨ name ∈ subgraph.names := by
  rw [grown, Graph.setPagerank, Graph.names_mapNodes, Graph.setRank, Graph.names_mapNodes,
    Graph.mem_names_addGraph]

omit [LinearOrder Doc] in
theorem get?_grown_old (disjoint : ∀ name ∈ subgraph.names, name ∉ graph.names) {name : Name}
    {attr : NodeAttr Doc Score} (lookup : graph.nodes.get? name = some attr) :
    (grown pagerank graph subgraph).nodes.get? name =
      some { attr with
        rank := some (Graph.degree graph.edges.keys name)
        pagerank := some (pagerank (graph.names ++ subgraph.names)
          (graph.weightedEdges ++ subgraph.weightedEdges) name) } := by
  have old : name ∈ graph.names := Dict.mem_keys_of_get? lookup
  have notNew : subgraph.nodes.get? name = none :=
    Dict.get?_eq_none.mpr fun new => disjoint name new old
  have same : (graph.addGraph subgraph).nodes.get? name = some attr := by
    rw [Graph.addGraph, Dict.get?_merge, notNew, lookup]
  rw [get?_grown, same, Graph.degree_addGraph disjoint old, Graph.names_addGraph disjoint,
    Graph.weightedEdges_addGraph disjoint]
  rfl

omit [LinearOrder Doc] in
theorem items_grown (disjoint : ∀ name ∈ subgraph.names, name ∉ graph.names)
    (ranked : ∀ name attr, graph.nodes.get? name = some attr →
      attr.rank = some (Graph.degree graph.edges.keys name) ∧
      attr.pagerank = some (pagerank (graph.names ++ subgraph.names)
        (graph.weightedEdges ++ subgraph.weightedEdges) name)) :
    ∃ newItems, (grown pagerank graph subgraph).nodes.items = graph.nodes.items ++ newItems ∧
      newItems.map Prod.fst = subgraph.names := by
  obtain ⟨refresh, items, keepsName⟩ : ∃ refresh : Name × NodeAttr Doc Score → _,
      (grown pagerank graph subgraph).nodes.items =
        (graph.addGraph subgraph).nodes.items.map refresh ∧
      ∀ item, (refresh item).1 = item.1 :=
    ⟨_, List.map_map, fun _ => rfl⟩
  rw [Graph.items_nodes_addGraph disjoint, List.map_append] at items
  have unchanged : graph.nodes.items.map refresh = graph.nodes.items := by
    refine List.map_congr_left (g := id) (fun item membership => ?_) |>.trans (List.map_id _)
    have lookup := Dict.mem_items.mp membership
    have refreshed : (grown pagerank graph subgraph).nodes.get? item.1 =
        some (refresh item).2 := by
      rw [← Dict.mem_items, items, ← keepsName item]
      exact List.mem_append_left _ (List.mem_map_of_mem membership)
    obtain ⟨rank, pageRank⟩ := ranked item.1 item.2 lookup
    rw [get?_grown_old disjoint lookup, ← rank, ← pageRank] at refreshed
    exact Prod.ext (keepsName item) (Option.some.inj refreshed).symm
  refine ⟨subgraph.nodes.items.map refresh, by rw [items, unchanged], ?_⟩
  rw [List.map_map]
  exact List.map_congr_left fun item _ => keepsName item

theorem consistent_grown (consistent : Consistent store) (settled : Settled pagerank store)
    (stored : getGraph store [] = some graph)
    (disjoint : ∀ name ∈ subgraph.names, name ∉ graph.names)
    (ranked : ∀ name attr, graph.nodes.get? name = some attr →
      attr.rank = some (Graph.degree graph.edges.keys name) ∧
      attr.pagerank = some (pagerank (graph.names ++ subgraph.names)
        (graph.weightedEdges ++ subgraph.weightedEdges) name)) :
    Consistent (mergeSubgraph pagerank store subgraph) := by
  rw [Consistent, stored] at consistent
  rw [mergeSubgraph_grown settled stored, consistent_setGraph]
  simp only [GraphChange.none, List.nil_union, List.not_mem_nil, not_false_eq_true,
    decide_true, List.filter_true, List.map_append]
  constructor
  · obtain ⟨newItems, items, newNames⟩ := items_grown disjoint ranked
    have entries : nodeEntries (grown pagerank graph subgraph) subgraph.names = newItems := by
      rw [← newNames]
      exact nodeEntries_of_items newItems fun item membership =>
        items ▸ List.mem_append_right _ membership
    rw [entries, items]
    exact consistent.1.append_right newItems
  · have edges : (grown pagerank graph subgraph).edges.items =
        graph.edges.items ++ subgraph.edges.items := Graph.items_edges_addGraph disjoint
    have entries : (edgeEntries (grown pagerank graph subgraph)
        ((subgraph.edges.items.map Prod.fst).map edgeFromTo)).map undirected =
        subgraph.edges.items :=
      edgeEntries_of_items mk_edgeFromTo _ fun item membership =>
        edges ▸ List.mem_append_right _ membership
    rw [Dict.keys, entries, edges]
    exact consistent.2.append_right subgraph.edges.items

theorem untouching_of_consistent (consistent : Consistent store)
    (settled : Settled pagerank store) (stored : getGraph store [] = some graph)
    (consistentAfter : Consistent (mergeSubgraph pagerank store subgraph)) :
    (∀ name ∈ subgraph.names, name ∉ graph.names) ∧
      ∀ name attr, graph.nodes.get? name = some attr →
        attr.rank = some (Graph.degree graph.edges.keys name) ∧
        attr.pagerank = some (pagerank (graph.names ++ subgraph.names)
          (graph.weightedEdges ++ subgraph.weightedEdges) name) := by
  rw [Consistent, stored] at consistent
  rw [mergeSubgraph_grown settled stored, consistent_setGraph] at consistentAfter
  simp only [GraphChange.none, List.nil_union, List.not_mem_nil, not_false_eq_true,
    decide_true, List.filter_true] at consistentAfter
  obtain ⟨index, -⟩ := consistentAfter
  have disjoint : ∀ name ∈ subgraph.names, name ∉ graph.names := by
    intro name new old
    -- The old chunk of the node is still there beside the new one.
    have kept : name ∈ (entities store).map Prod.fst := (consistent.1.map Prod.fst).mem_iff.mpr old
    exact not_mem_of_kept index kept
      (mem_names_nodeEntries.mpr ⟨new, mem_names_grown.mpr (Or.inr new)⟩)
  refine ⟨disjoint, fun name attr lookup => ?_⟩
  have indexed : (name, attr) ∈ (grown pagerank graph subgraph).nodes.items :=
    index.mem_iff.mp (List.mem_append_left _ (consistent.1.mem_iff.mpr (Dict.mem_items.mpr lookup)))
  rw [Dict.mem_items, get?_grown_old disjoint lookup] at indexed
  have same := Option.some.inj indexed
  exact ⟨(congrArg NodeAttr.rank same).symm, (congrArg NodeAttr.pagerank same).symm⟩

end Later

theorem consistent_merge_iff {store : DocStore Name Doc Score} (settled : Settled pagerank store)
    (consistent : Consistent store) (subgraph : Graph Name Doc Score) :
    Consistent (mergeSubgraph pagerank store subgraph) ↔
      Untouching pagerank store (.merge subgraph) := by
  cases stored : getGraph store [] with
  | none =>
    apply iff_of_true (consistent_firstMerge settled stored consistent subgraph)
    intro graph found
    simp [stored] at found
  | some graph =>
    constructor
    · intro consistentAfter other found
      obtain rfl := Option.some.inj (stored.symm.trans found)
      exact untouching_of_consistent consistent settled stored consistentAfter
    · intro untouching
      obtain ⟨disjoint, ranked⟩ := untouching graph stored
      exact consistent_grown consistent settled stored disjoint ranked

end Merge

section Resolve

variable {pagerank} {store : DocStore Name Doc Score} {graph : Graph Name Doc Score}

omit [Add Score] in
theorem consistent_unchanged (consistent : Consistent store) (settled : Settled pagerank store)
    (stored : getGraph store [] = some graph) :
    Consistent (setGraph store (graph.setPagerank pagerank) .none) := by
  rw [Consistent, stored] at consistent
  have sameItems : (graph.setPagerank pagerank).nodes.items.Perm graph.nodes.items := by
    apply Dict.items_perm
    intro name
    rw [Graph.setPagerank, Graph.mapNodes, Dict.get?_mapValues]
    cases lookup : graph.nodes.get? name with
    | none => rfl
    | some attr => rw [Option.map_some, ← settled.pagerank_eq stored lookup]
  rw [consistent_setGraph]
  simp only [GraphChange.none, List.not_mem_nil, not_false_eq_true, decide_true,
    List.filter_true, nodeEntries, edgeEntries, List.filterMap_nil, List.append_nil]
  exact ⟨consistent.1.trans sameItems.symm, consistent.2⟩

theorem short_of_consistent (consistent : Consistent store)
    (stored : getGraph store [] = some graph) (groups : Groups Name)
    (present : ∀ node ∈ groups.groups.flatten, node ∈ graph.names)
    (consistentAfter : Consistent (resolveEntities pagerank summary store groups)) :
    ∀ group ∈ groups.groups, group.length < 2 := by
  obtain ⟨merged, result, names, removed, added⟩ :=
    mergeGroups_spec summary (graph, .none) groups.nodup present
  simp only [resolveEntities, stored, if_pos present, result] at consistentAfter
  rw [Consistent, stored] at consistent
  rw [consistent_setGraph] at consistentAfter
  intro group membership
  by_contra long
  obtain ⟨node, rest, rfl⟩ := List.exists_cons_of_length_pos (by omega : 0 < group.length)
  have old : node ∈ graph.names :=
    present node (List.mem_flatten.mpr ⟨_, membership, List.mem_cons_self⟩)
  have stays : node ∉ groups.groups.flatMap List.tail :=
    head_not_mem_tails groups.nodup membership rfl
  have kept : node ∈ ((entities store).filter fun item =>
      item.1 ∉ merged.2.removedNodes).map Prod.fst := by
    obtain ⟨attr, lookup⟩ := Graph.mem_names.mp old
    refine List.mem_map.mpr ⟨(node, attr), List.mem_filter.mpr ⟨?_, ?_⟩, rfl⟩
    · exact consistent.1.mem_iff.mpr (Dict.mem_items.mpr lookup)
    · rw [decide_eq_true_eq, removed, not_or]
      exact ⟨List.not_mem_nil, stays⟩
  refine not_mem_of_kept consistentAfter.1 kept (mem_names_nodeEntries.mpr ⟨?_, ?_⟩)
  · exact (added node).mpr (Or.inr ⟨_, membership, by omega, rfl⟩)
  · rw [Graph.setPagerank, Graph.names_mapNodes, names]
    exact ⟨old, stays⟩

theorem consistent_resolve_iff (settled : Settled pagerank store) (consistent : Consistent store)
    (groups : Groups Name) :
    Consistent (resolveEntities pagerank summary store groups) ↔
      Untouching pagerank store (.resolve groups) := by
  cases stored : getGraph store [] with
  | none =>
    refine iff_of_true ?_ fun graph found => by simp [stored] at found
    simpa only [resolveEntities, stored] using consistent
  | some graph =>
    constructor
    · intro consistentAfter other found present
      obtain rfl := Option.some.inj (stored.symm.trans found)
      exact short_of_consistent summary consistent stored groups present consistentAfter
    · intro untouching
      by_cases present : ∀ node ∈ groups.groups.flatten, node ∈ graph.names
      · have short := untouching graph stored present
        simp only [resolveEntities, stored, if_pos present, mergeGroups_of_short summary short]
        exact consistent_unchanged consistent settled stored
      · simpa only [resolveEntities, stored, if_neg present] using consistent

end Resolve

/-- The index is consistent throughout exactly the histories in which no update touches a
stored node. -/
theorem alwaysConsistent_iff (updates : List (Update Name Doc Score)) :
    (∀ before, before <+: updates →
        Consistent (Runs.run (update pagerank summary) [] before)) ↔
      Runs.Along (update pagerank summary) (Untouching pagerank) [] updates := by
  refine Runs.always_iff_along (Settled pagerank) Consistent ?_ ?_ ?_ ?_ updates
  · intro graph removed found
    simp at found
  · exact fun store move settled => settled_update store move settled
  · exact ⟨rfl, rfl⟩
  · intro store move settled consistent
    cases move with
    | merge subgraph => exact consistent_merge_iff settled consistent subgraph
    | resolve groups => exact consistent_resolve_iff summary settled consistent groups

/-- The second document that mentions an entity adds a second chunk for it; a graph without
edges has the same page rank everywhere. -/
theorem not_consistent_of_secondMention :
    ¬ Consistent (Runs.run
      (update (fun names _ _ => (1 : ℚ) / names.length) (fun _ description => description)) []
      [.merge (mention 1 1).graph, .merge (mention 2 1).graph]) := by
  decide +kernel

end RagFlow.GraphRag
