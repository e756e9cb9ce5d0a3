import RagFlow.GraphRag.Resolution

/-!
# What a merged node inherits

`_merge_graph_nodes` redirects the edges of one node after the other while the graph changes.  What
is conserved are the weights of the group's edges to each neighbour outside of it.
-/

namespace RagFlow.GraphRag

open RagFlow.Lib

variable {Name Doc Score : Type} [LinearOrder Name] [LinearOrder Doc] [AddMonoid Score]

def total (weights : List Score) : Option Score := if weights = [] then none else some weights.sum

theorem total_toList_append (weights more : List Score) :
    total ((total weights).toList ++ more) = total (weights ++ more) := by
  unfold total
  by_cases isEmpty : weights = []
  · simp [isEmpty]
  · simp [isEmpty]

theorem total_toList (weight : Option Score) : total weight.toList = weight := by
  cases weight <;> simp [total]

def weightAt (edges : Dict (Sym2 Name) (EdgeAttr Doc Score)) (edge : Sym2 Name) : Option Score :=
  (edges.get? edge).map EdgeAttr.weight

def weightsTo (edges : Dict (Sym2 Name) (EdgeAttr Doc Score)) (nodes : List Name)
    (neighbor : Name) : List Score :=
  nodes.filterMap fun node => weightAt edges s(node, neighbor)

omit [LinearOrder Doc] [AddMonoid Score] in
theorem mem_incident {graph : Graph Name Doc Score} {node neighbor : Name}
    {attr : EdgeAttr Doc Score} :
    (neighbor, attr) ∈ incident graph node ↔
      graph.edges.get? s(node, neighbor) = some attr := by
  rw [← Dict.mem_items, incident, List.mem_filterMap]
  constructor
  · rintro ⟨⟨edge, edgeAttr⟩, isItem, isNeighbor⟩
    split at isNeighbor
    · rename_i inside
      obtain ⟨rfl, rfl⟩ := Prod.mk.inj (Option.some.inj isNeighbor)
      rw [Sym2.other_spec' inside]
      exact isItem
    · cases isNeighbor
  · intro isItem
    refine ⟨_, isItem, ?_⟩
    have inside : node ∈ s(node, neighbor) := Sym2.mem_mk_left node neighbor
    have isOther : Sym2.Mem.other' inside = neighbor :=
      Sym2.congr_right.mp (Sym2.other_spec' inside)
    rw [dif_pos inside, isOther]

theorem eq_toList_of_nodup {Value : Type} {values : List Value} {value : Option Value}
    (distinct : values.Nodup) (only : ∀ other, other ∈ values ↔ value = some other) :
    values = value.toList := by
  have perm : values.Perm value.toList :=
    (List.perm_ext_iff_of_nodup distinct (by cases value <;> simp)).mpr fun other => by
      simp [only]
  cases value with
  | none => exact perm.eq_nil
  | some value => exact List.perm_singleton.mp perm

omit [LinearOrder Doc] [AddMonoid Score] in
theorem filter_incident (graph : Graph Name Doc Score) (node neighbor : Name) :
    ((incident graph node).filter fun other => other.1 = neighbor) =
      ((graph.edges.get? s(node, neighbor)).map fun attr => (neighbor, attr)).toList := by
  have distinct : (incident graph node).Nodup := by
    refine List.Nodup.filterMap (fun item other found isFound isOtherFound => ?_)
      graph.edges.nodup.of_map
    rw [Option.mem_def] at isFound isOtherFound
    split at isFound <;> split at isOtherFound <;> try contradiction
    rename_i inside otherInside
    obtain ⟨sameNeighbor, sameAttr⟩ := Prod.mk.inj
      ((Option.some.inj isFound).trans (Option.some.inj isOtherFound).symm)
    refine Prod.ext ?_ sameAttr
    rw [← Sym2.other_spec' inside, ← Sym2.other_spec' otherInside, sameNeighbor]
  apply eq_toList_of_nodup (distinct.filter _)
  intro other
  rw [List.mem_filter, decide_eq_true_eq, Option.map_eq_some_iff]
  constructor
  · rintro ⟨isIncident, rfl⟩
    exact ⟨other.2, mem_incident.mp isIncident, rfl⟩
  · rintro ⟨attr, isEdge, rfl⟩
    exact ⟨mem_incident.mpr isEdge, rfl⟩

section Redirect

variable (node0 : Name) (nodes : List Name)

def Tracks (edges : Dict (Sym2 Name) (EdgeAttr Doc Score)) (node0Neighbors : List Name) : Prop :=
  ∀ neighbor ∉ nodes, neighbor ∈ node0Neighbors ↔ s(node0, neighbor) ∈ edges.keys

/-- The weight of a redirected edge is added to what the first node has. -/
structure Redirected (before after : Redirecting Name Doc Score)
    (neighbors : List (Name × EdgeAttr Doc Score)) : Prop where
  tracks : Tracks node0 nodes after.edges after.node0Neighbors
  weights : ∀ neighbor ∉ nodes, weightAt after.edges s(node0, neighbor) =
    total ((weightAt before.edges s(node0, neighbor)).toList ++
      (neighbors.filter fun other => other.1 = neighbor).map fun other => other.2.weight)
  others : ∀ edge, (∀ neighbor ∉ nodes, edge ≠ s(node0, neighbor)) →
    after.edges.get? edge = before.edges.get? edge

variable {node0 nodes} (summary : Summary Name Doc) (node1 : Name)

theorem redirected_redirectEdge {state : Redirecting Name Doc Score}
    (tracks : Tracks node0 nodes state.edges state.node0Neighbors)
    (neighbor : Name × EdgeAttr Doc Score) :
    Redirected node0 nodes state (redirectEdge summary node0 nodes node1 state neighbor)
      [neighbor] := by
  unfold redirectEdge
  simp only
  split_ifs with inGroup tracked
  · refine ⟨tracks, fun other outside => ?_, fun _ _ => rfl⟩
    have apart : neighbor.1 ≠ other := fun same => outside (same ▸ inGroup)
    simp [apart, total_toList]
  · obtain ⟨attr, isEdge⟩ := Dict.mem_keys.mp ((tracks neighbor.1 inGroup).mp tracked)
    refine ⟨fun other outside => ?_, fun other outside => ?_, fun edge untouched => ?_⟩
    · rw [Dict.mem_keys_upsert, Sym2.congr_right, tracks other outside]
      exact (or_iff_right_of_imp fun same => same ▸ Dict.mem_keys_of_get? isEdge).symm
    · rw [weightAt, Dict.get?_upsert]
      by_cases same : other = neighbor.1
      · subst same
        simp [isEdge, weightAt, total, Dict.absorbed, mergeEdgeAttrs]
      · rw [if_neg fun sameEdge => same (Sym2.congr_right.mp sameEdge)]
        simp [Ne.symm same, weightAt, total_toList]
    · rw [Dict.get?_upsert, if_neg (untouched neighbor.1 inGroup)]
  · have missing := Dict.get?_eq_none.mpr fun isKey => tracked ((tracks _ inGroup).mpr isKey)
    refine ⟨fun other outside => ?_, fun other outside => ?_, fun edge untouched => ?_⟩
    · rw [Dict.mem_keys_upsert, Sym2.congr_right, List.mem_cons, tracks other outside]
    · rw [weightAt, Dict.get?_upsert]
      by_cases same : other = neighbor.1
      · subst same
        simp [missing, weightAt, total]
      · rw [if_neg fun sameEdge => same (Sym2.congr_right.mp sameEdge)]
        simp [Ne.symm same, weightAt, total_toList]
    · rw [Dict.get?_upsert, if_neg (untouched neighbor.1 inGroup)]

theorem redirected_redirectEdges {state : Redirecting Name Doc Score}
    (tracks : Tracks node0 nodes state.edges state.node0Neighbors)
    (neighbors : List (Name × EdgeAttr Doc Score)) :
    Redirected node0 nodes state (redirectEdges summary node0 nodes node1 state neighbors)
      neighbors := by
  induction neighbors generalizing state with
  | nil => exact ⟨tracks, fun neighbor _ => by simp [redirectEdges, total_toList], fun _ _ => rfl⟩
  | cons neighbor neighbors ih =>
    have first := redirected_redirectEdge summary node1 tracks neighbor
    have later := ih first.tracks
    refine ⟨later.tracks, fun other outside => ?_, fun edge untouched => ?_⟩
    · rw [redirectEdges, List.foldl_cons, ← redirectEdges, later.weights other outside,
        first.weights other outside, total_toList_append]
      by_cases same : neighbor.1 = other
      · simp [same]
      · simp [same]
    · exact (later.others edge untouched).trans (first.others edge untouched)

end Redirect

def sourcesOf (graph : Graph Name Doc Score) (node : Name) : List Doc :=
  ((graph.nodes.get? node).map NodeAttr.sourceId).getD []

/-- The first node takes over the edges and the sources of other nodes, and nothing else is
touched. -/
structure Absorbed (node0 : Name) (nodes rest : List Name) (before after : Merging Name Doc Score) :
    Prop where
  tracks : Tracks node0 nodes after.graph.edges after.node0Neighbors
  weights : ∀ neighbor ∉ nodes, weightAt after.graph.edges s(node0, neighbor) =
    total ((weightAt before.graph.edges s(node0, neighbor)).toList ++
      weightsTo before.graph.edges rest neighbor)
  others : ∀ edge, (∀ neighbor ∉ nodes, edge ≠ s(node0, neighbor)) → (∀ node ∈ rest, node ∉ edge) →
    after.graph.edges.get? edge = before.graph.edges.get? edge
  inherits : ∀ doc, doc ∈ sourcesOf after.graph node0 ↔ doc ∈ sourcesOf before.graph node0 ∨
    ∃ node ∈ rest, doc ∈ sourcesOf before.graph node
  otherSources : ∀ node ∉ node0 :: rest, sourcesOf after.graph node = sourcesOf before.graph node

section Absorb

variable {node0 node1 : Name} {nodes rest : List Name} (summary : Summary Name Doc)

theorem absorbed_absorbNode {before after : Merging Name Doc Score} (apart : node0 ≠ node1)
    (inGroup1 : node1 ∈ nodes)
    (tracks : Tracks node0 nodes before.graph.edges before.node0Neighbors)
    (absorbs : absorbNode summary node0 nodes before node1 = some after) :
    Absorbed node0 nodes [node1] before after := by
  unfold absorbNode at absorbs
  simp only [Option.bind_eq_bind, Option.bind_eq_some_iff] at absorbs
  obtain ⟨node0Attrs, isNode0, node1Attrs, isNode1, isAfter⟩ := absorbs
  obtain rfl := Option.some.inj isAfter
  have redirected : Redirected node0 nodes
      ⟨before.graph.edges, before.node0Neighbors, before.change⟩
      (redirectEdges summary node0 nodes node1
        ⟨before.graph.edges, before.node0Neighbors, before.change⟩ (incident before.graph node1))
      (incident before.graph node1) := redirected_redirectEdges summary node1 tracks _
  have stays : ∀ neighbor ∉ nodes, node1 ∉ s(node0, neighbor) := by
    intro neighbor outside inside
    rcases Sym2.mem_iff.mp inside with same | same
    · exact apart same.symm
    · exact outside (same ▸ inGroup1)
  refine ⟨fun neighbor outside => ?_, fun neighbor outside => ?_, fun edge untouched spared => ?_,
    fun doc => ?_, fun node outside => ?_⟩
  · rw [Dict.keys_filterKeys, List.mem_filter, redirected.tracks neighbor outside]
    exact (and_iff_left (decide_eq_true (stays neighbor outside))).symm
  · rw [weightAt, Dict.get?_filterKeys, if_pos (decide_eq_true (stays neighbor outside)),
      ← weightAt, redirected.weights neighbor outside, filter_incident]
    cases isEdge : before.graph.edges.get? s(node1, neighbor) <;>
      simp [weightsTo, weightAt, isEdge]
  · rw [Dict.get?_filterKeys,
      if_pos (decide_eq_true (spared node1 (List.mem_singleton.mpr rfl)))]
    exact redirected.others edge untouched
  · simp [sourcesOf, apart, isNode0, isNode1, mergeNodeAttrs, sortedSet]
  · simp only [List.mem_cons, List.not_mem_nil, or_false, not_or] at outside
    simp [sourcesOf, outside.1, outside.2]

theorem absorbed_absorbNodes {before after : Merging Name Doc Score}
    (distinct : (node0 :: rest).Nodup) (inGroup : ∀ node ∈ rest, node ∈ nodes)
    (tracks : Tracks node0 nodes before.graph.edges before.node0Neighbors)
    (absorbs : rest.foldlM (absorbNode summary node0 nodes) before = some after) :
    Absorbed node0 nodes rest before after := by
  induction rest generalizing before with
  | nil =>
    obtain rfl := Option.some.inj absorbs
    exact ⟨tracks, fun neighbor _ => by simp [weightsTo, total_toList], fun _ _ _ => rfl,
      fun doc => by simp, fun _ _ => rfl⟩
  | cons node1 rest ih =>
    rw [List.foldlM_cons, Option.bind_eq_bind, Option.bind_eq_some_iff] at absorbs
    obtain ⟨next, absorbsFirst, absorbsRest⟩ := absorbs
    obtain ⟨outside0, distinctRest⟩ := List.nodup_cons.mp distinct
    obtain ⟨outside1, restNodup⟩ := List.nodup_cons.mp distinctRest
    have apart : node0 ≠ node1 := fun same => outside0 (same ▸ List.mem_cons_self)
    have inRest : node0 ∉ rest := fun isRest => outside0 (List.mem_cons_of_mem node1 isRest)
    have inGroup1 := inGroup node1 List.mem_cons_self
    have inGroupRest : ∀ node ∈ rest, node ∈ nodes :=
      fun node isRest => inGroup node (List.mem_cons_of_mem node1 isRest)
    have first := absorbed_absorbNode summary apart inGroup1 tracks absorbsFirst
    have later := ih (List.nodup_cons.mpr ⟨inRest, restNodup⟩) inGroupRest
      first.tracks absorbsRest
    -- the edges of the nodes that are still to come were not touched
    have sameWeights : ∀ neighbor ∉ nodes, weightsTo next.graph.edges rest neighbor =
        weightsTo before.graph.edges rest neighbor := by
      intro neighbor outside
      refine List.filterMap_congr fun node isRest => congrArg (Option.map EdgeAttr.weight)
        (first.others _ (fun other otherOutside same => ?_) ?_)
      · rcases Sym2.eq_iff.mp same with ⟨sameNode, _⟩ | ⟨sameNode, _⟩
        · exact inRest (sameNode ▸ isRest)
        · exact otherOutside (sameNode ▸ inGroupRest node isRest)
      · intro other isNode1 inside
        obtain rfl := List.mem_singleton.mp isNode1
        rcases Sym2.mem_iff.mp inside with rfl | rfl
        · exact outside1 isRest
        · exact outside inGroup1
    have sameSources : ∀ node ∈ rest,
        sourcesOf next.graph node = sourcesOf before.graph node := by
      intro node isRest
      apply first.otherSources node
      simp only [List.mem_cons, List.not_mem_nil, or_false, not_or]
      exact ⟨fun same => inRest (same ▸ isRest), fun same => outside1 (same ▸ isRest)⟩
    refine ⟨later.tracks, fun neighbor outside => ?_, fun edge untouched spared => ?_,
      fun doc => ?_, fun node outside => ?_⟩
    · rw [later.weights neighbor outside, first.weights neighbor outside, total_toList_append,
        sameWeights neighbor outside, List.append_assoc]
      exact congrArg (fun weights => total (_ ++ weights)) List.filterMap_append.symm
    · refine (later.others edge untouched fun node isRest =>
        spared node (List.mem_cons_of_mem node1 isRest)).trans
          (first.others edge untouched fun node isNode1 => ?_)
      exact List.mem_singleton.mp isNode1 ▸ spared node1 List.mem_cons_self
    · rw [later.inherits, first.inherits]
      simp only [List.mem_cons, exists_eq_or_imp, exists_eq_left, List.not_mem_nil, or_false,
        or_assoc]
      refine or_congr_right (or_congr_right (exists_congr fun node => and_congr_right ?_))
      exact fun isRest => by rw [sameSources node isRest]
    · rw [later.otherSources node fun isRest => outside ?_,
        first.otherSources node fun isFirst => outside ?_]
      · simp only [List.mem_cons, List.not_mem_nil, or_false] at isFirst ⊢
        exact isFirst.imp_right Or.inl
      · exact (List.mem_cons.mp isRest).elim (fun same => same ▸ List.mem_cons_self)
          fun isRest => List.mem_cons_of_mem _ (List.mem_cons_of_mem _ isRest)

end Absorb

structure NodeGroup (graph : Graph Name Doc Score) where
  node0 : Name
  rest : List Name
  distinct : (node0 :: rest).Nodup
  present : ∀ node ∈ node0 :: rest, node ∈ graph.names

def NodeGroup.nodes {graph : Graph Name Doc Score} (group : NodeGroup graph) : List Name :=
  group.node0 :: group.rest

/-- The first node stands for the group: its edges are the group's edges to the nodes outside of
it, with the sum of their weights, and an edge to itself if it had one. -/
structure Merged (graph : Graph Name Doc Score) (group : NodeGroup graph)
    (after : Graph Name Doc Score) : Prop where
  names : ∀ name, name ∈ after.names ↔ name ∈ graph.names ∧ name ∉ group.rest
  neighbors : ∀ neighbor, neighbor ≠ group.node0 →
    (s(group.node0, neighbor) ∈ after.edges.keys ↔
      neighbor ∉ group.nodes ∧ ∃ node ∈ group.nodes, s(node, neighbor) ∈ graph.edges.keys)
  weights : ∀ neighbor, neighbor ≠ group.node0 →
    ∀ attr, after.edges.get? s(group.node0, neighbor) = some attr →
      attr.weight = (weightsTo graph.edges group.nodes neighbor).sum
  loop : after.edges.get? s(group.node0, group.node0) =
    graph.edges.get? s(group.node0, group.node0)
  others : ∀ edge, (∀ node ∈ group.nodes, node ∉ edge) →
    after.edges.get? edge = graph.edges.get? edge
  sources : ∀ doc, doc ∈ sourcesOf after group.node0 ↔
    ∃ node ∈ group.nodes, doc ∈ sourcesOf graph node

theorem total_eq_some_iff {weights : List Score} {weight : Score} :
    total weights = some weight ↔ weights ≠ [] ∧ weight = weights.sum := by
  unfold total
  split_ifs with isEmpty
  · simp [isEmpty]
  · simp [isEmpty, eq_comm]

omit [LinearOrder Doc] [AddMonoid Score] in
theorem weightsTo_cons (edges : Dict (Sym2 Name) (EdgeAttr Doc Score)) (node : Name)
    (nodes : List Name) (neighbor : Name) : weightsTo edges (node :: nodes) neighbor =
      (weightAt edges s(node, neighbor)).toList ++ weightsTo edges nodes neighbor := by
  rw [weightsTo, List.filterMap_cons]
  cases weightAt edges s(node, neighbor) <;> rfl

omit [LinearOrder Doc] [AddMonoid Score] in
theorem weightsTo_ne_nil {edges : Dict (Sym2 Name) (EdgeAttr Doc Score)} {nodes : List Name}
    {neighbor : Name} : weightsTo edges nodes neighbor ≠ [] ↔
      ∃ node ∈ nodes, s(node, neighbor) ∈ edges.keys := by
  rw [weightsTo, ne_eq, List.filterMap_eq_nil_iff]
  simp [weightAt, Dict.get?_eq_none]

omit [LinearOrder Doc] in
theorem Absorbed.merged {graph : Graph Name Doc Score} {group : NodeGroup graph}
    {before after : Merging Name Doc Score} (isGraph : before.graph = graph)
    (absorbed : Absorbed group.node0 group.nodes group.rest before after)
    (names : ∀ name, name ∈ after.graph.names ↔ name ∈ graph.names ∧ name ∉ group.rest) :
    Merged graph group after.graph := by
  subst isGraph
  have weights : ∀ neighbor ∉ group.nodes, weightAt after.graph.edges s(group.node0, neighbor) =
      total (weightsTo before.graph.edges group.nodes neighbor) := by
    intro neighbor outside
    rw [absorbed.weights neighbor outside, NodeGroup.nodes, weightsTo_cons]
  have gone : ∀ neighbor, neighbor ≠ group.node0 → ∀ attr,
      after.graph.edges.get? s(group.node0, neighbor) = some attr → neighbor ∉ group.nodes := by
    intro neighbor apart attr isEdge inGroup
    have inRest := (List.mem_cons.mp inGroup).resolve_left apart
    have isNode := after.graph.endpoints _ (Dict.mem_keys_of_get? isEdge) neighbor
      (Sym2.mem_mk_right _ _)
    exact ((names neighbor).mp isNode).2 inRest
  refine ⟨names, fun neighbor apart => ?_, fun neighbor apart attr isEdge => ?_, ?_,
    fun edge spared => ?_, fun doc => ?_⟩
  · rw [← weightsTo_ne_nil, Dict.mem_keys]
    constructor
    · rintro ⟨attr, isEdge⟩
      have outside := gone neighbor apart attr isEdge
      have isWeight := weights neighbor outside
      rw [weightAt, isEdge] at isWeight
      exact ⟨outside, (total_eq_some_iff.mp isWeight.symm).1⟩
    · rintro ⟨outside, isTotal⟩
      have isWeight := (weights neighbor outside).trans (total_eq_some_iff.mpr ⟨isTotal, rfl⟩)
      obtain ⟨attr, isEdge, _⟩ := Option.map_eq_some_iff.mp isWeight
      exact ⟨attr, isEdge⟩
  · have isWeight := weights neighbor (gone neighbor apart attr isEdge)
    rw [weightAt, isEdge] at isWeight
    exact (total_eq_some_iff.mp isWeight.symm).2
  · refine absorbed.others _ (fun neighbor outside same => outside ?_) fun node isRest inside => ?_
    · exact Sym2.congr_right.mp same ▸ List.mem_cons_self
    · have isNode0 : node = group.node0 := by simpa using inside
      exact (List.nodup_cons.mp group.distinct).1 (isNode0 ▸ isRest)
  · refine absorbed.others edge (fun neighbor _ same => ?_)
      fun node isRest => spared node (List.mem_cons_of_mem _ isRest)
    exact spared group.node0 List.mem_cons_self (same ▸ Sym2.mem_mk_left _ _)
  · rw [absorbed.inherits, NodeGroup.nodes]
    simp only [List.mem_cons, exists_eq_or_imp]

omit [LinearOrder Doc] in
theorem Merged.mapNodes {graph after : Graph Name Doc Score} {group : NodeGroup graph}
    (isMerged : Merged graph group after)
    {change : Name → NodeAttr Doc Score → NodeAttr Doc Score}
    (same : ∀ name attr, (change name attr).sourceId = attr.sourceId) :
    Merged graph group (after.mapNodes change) := by
  refine ⟨fun name => ?_, isMerged.neighbors, isMerged.weights, isMerged.loop, isMerged.others,
    fun doc => ?_⟩
  · rw [Graph.names_mapNodes, isMerged.names]
  · rw [← isMerged.sources doc]
    simp [sourcesOf, Graph.mapNodes, Function.comp_def, same]

theorem mergeGraphNodes_merged (summary : Summary Name Doc)
    (state : Graph Name Doc Score × GraphChange Name) (group : NodeGroup state.1) :
    ∃ after, mergeGraphNodes summary state group.nodes = some after ∧
      Merged state.1 group after.1 := by
  obtain ⟨merged, absorbs, names, _⟩ := absorbNodes_spec summary group.nodes
    (startMerging state group.node0 group.rest) (List.nodup_cons.mp group.distinct).2
    (List.nodup_cons.mp group.distinct).1 (group.present _ List.mem_cons_self)
    fun node isRest => group.present node (List.mem_cons_of_mem _ isRest)
  have tracks : Tracks group.node0 group.nodes state.1.edges
      (startMerging state group.node0 group.rest).node0Neighbors := by
    intro neighbor _
    rw [startMerging, List.mem_map, Dict.mem_keys]
    constructor
    · rintro ⟨other, isIncident, rfl⟩
      exact ⟨other.2, mem_incident.mp isIncident⟩
    · rintro ⟨attr, isEdge⟩
      exact ⟨(neighbor, attr), mem_incident.mpr isEdge, rfl⟩
  have absorbed := absorbed_absorbNodes summary group.distinct
    (fun node isRest => List.mem_cons_of_mem group.node0 isRest) tracks absorbs
  have isMerged := absorbed.merged rfl names
  obtain ⟨node0, rest, distinct, present⟩ := group
  cases rest with
  | nil =>
    refine ⟨state, rfl, ?_⟩
    obtain rfl := Option.some.inj absorbs
    exact isMerged
  | cons node1 rest =>
    simp only [NodeGroup.nodes, mergeGraphNodes] at absorbs ⊢
    rw [absorbs]
    refine ⟨_, rfl, isMerged.mapNodes fun name attr => ?_⟩
    split_ifs <;> rfl

def looped : Graph ℕ ℕ ℚ where
  nodes := ⟨[(0, ⟨"", [], [], none, none⟩), (1, ⟨"", [], [], none, none⟩)], by decide⟩
  edges := ⟨[(s(0, 0), ⟨1, [], [], []⟩)], by decide⟩
  sourceId := []
  endpoints := by simp [Dict.keys]

def loopedGroup : NodeGroup looped where
  node0 := 0
  rest := [1]
  distinct := by decide
  present := by decide

/-- The first node stays a neighbour of itself. -/
theorem not_neighbors_loopedGroup :
    ¬ ∀ after, mergeGraphNodes (fun _ => id) (looped, .none) loopedGroup.nodes = some after →
      ∀ neighbor, s(loopedGroup.node0, neighbor) ∈ after.1.edges.keys ↔
        neighbor ∉ loopedGroup.nodes ∧
          ∃ node ∈ loopedGroup.nodes, s(node, neighbor) ∈ looped.edges.keys := by
  intro exact
  have keeps : ((mergeGraphNodes (fun _ => id) (looped, .none) loopedGroup.nodes).map
      fun after => decide (s(0, 0) ∈ after.1.edges.keys)) = some true := by decide
  obtain ⟨after, isAfter, isEdge⟩ := Option.map_eq_some_iff.mp keeps
  exact ((exact after isAfter 0).mp (of_decide_eq_true isEdge)).1 (by decide)

end RagFlow.GraphRag
