import RagFlow.GraphRag.Deletion

/-!
# Rebuilding the graph after a deletion

The graph that is rebuilt after the deletion of a document ought to be the graph that merging
the other documents gives.  The checkpoints are parts of the graph of all documents, so it is
when the deleted document shares no node with another one.
-/

namespace RagFlow.GraphRag

open RagFlow.Lib

variable {Name Doc Score : Type} [LinearOrder Name] [LinearOrder Doc] [Add Score]

section Agrees

def NodeAttr.Agrees (first second : NodeAttr Doc Score) : Prop :=
  describedBy first.description = describedBy second.description ∧
    first.sourceId.toFinset = second.sourceId.toFinset

def EdgeAttr.Agrees (first second : EdgeAttr Doc Score) : Prop :=
  first.weight = second.weight ∧
    describedBy first.description = describedBy second.description ∧
    first.sourceId.toFinset = second.sourceId.toFinset

/-- The same nodes and edges, with the same weights, source documents of descriptions and
sets of sources. -/
structure Graph.Agrees (first second : Graph Name Doc Score) : Prop where
  nodes : ∀ name,
    Option.Rel NodeAttr.Agrees (first.nodes.get? name) (second.nodes.get? name)
  edges : ∀ edge,
    Option.Rel EdgeAttr.Agrees (first.edges.get? edge) (second.edges.get? edge)
  sourceId : first.sourceId.toFinset = second.sourceId.toFinset

end Agrees

structure Family (Name Doc Score : Type) where
  subgraphs : List (DocSubgraph Name Doc Score)
  nodup : (subgraphs.map DocSubgraph.doc).Nodup
  nonempty : ∀ subgraph ∈ subgraphs, subgraph.graph.names ≠ []

section Compare

variable {subgraphs : List (DocSubgraph Name Doc Score)} {graph : Graph Name Doc Score}

def others (subgraphs : List (DocSubgraph Name Doc Score)) (deleted : Doc) :
    List (DocSubgraph Name Doc Score) :=
  subgraphs.filter fun subgraph => subgraph.doc ≠ deleted

def NothingShared (subgraphs : List (DocSubgraph Name Doc Score)) (deleted : Doc) : Prop :=
  ∀ subgraph ∈ subgraphs, subgraph.doc = deleted → ∀ other ∈ others subgraphs deleted,
    ∀ name ∈ subgraph.graph.names, name ∉ other.graph.names

omit [LinearOrder Name] [Add Score] in
theorem mem_others {deleted : Doc} {subgraph : DocSubgraph Name Doc Score} :
    subgraph ∈ others subgraphs deleted ↔ subgraph ∈ subgraphs ∧ subgraph.doc ≠ deleted := by
  simp [others]

omit [LinearOrder Doc] [Add Score] in
theorem mem_mentioning {name : Name} {doc : Doc} :
    doc ∈ mentioning subgraphs name ↔
      ∃ subgraph ∈ subgraphs, name ∈ subgraph.graph.names ∧ subgraph.doc = doc := by
  simp [mentioning, and_assoc]

omit [LinearOrder Name] [LinearOrder Doc] [Add Score] in
theorem sourceId_docs (subgraphs : List (DocSubgraph Name Doc Score)) :
    (subgraphs.map DocSubgraph.graph).flatMap Graph.sourceId =
      subgraphs.map DocSubgraph.doc := by
  rw [List.flatMap_map, ← List.flatMap_singleton' (subgraphs.map DocSubgraph.doc),
    List.flatMap_map]
  exact List.flatMap_congr fun subgraph _ => subgraph.sourceId

theorem Accumulates.lookup
    (accumulates : Accumulates (subgraphs.map DocSubgraph.graph) graph) {name : Name}
    {attr : NodeAttr Doc Score} (lookup : graph.nodes.get? name = some attr) :
    mentioning subgraphs name ≠ [] ∧
      describedBy attr.description = (mentioning subgraphs name).toFinset ∧
      attr.sourceId = mentioning subgraphs name := by
  have named := nodeText_namesDocs subgraphs name
  rwa [← accumulates.nodes name, lookup] at named

theorem Accumulates.lookup_none
    (accumulates : Accumulates (subgraphs.map DocSubgraph.graph) graph) {name : Name}
    (lookup : graph.nodes.get? name = none) : mentioning subgraphs name = [] := by
  have named := nodeText_namesDocs subgraphs name
  rwa [← accumulates.nodes name, lookup] at named

theorem Accumulates.comesFrom_iff
    (accumulates : Accumulates (subgraphs.map DocSubgraph.graph) graph) {doc : Doc}
    {name : Name} : graph.comesFrom doc name = true ↔ doc ∈ mentioning subgraphs name := by
  rw [Graph.comesFrom]
  cases lookup : graph.nodes.get? name with
  | none => simp [accumulates.lookup_none lookup]
  | some attr => simp [(accumulates.lookup lookup).2.2]

theorem Accumulates.mem_comingFrom
    (accumulates : Accumulates (subgraphs.map DocSubgraph.graph) graph) {deleted doc : Doc}
    {name : Name} :
    doc ∈ comingFrom graph ((others subgraphs deleted).map DocSubgraph.doc) name ↔
      doc ∈ mentioning (others subgraphs deleted) name := by
  rw [comingFrom, List.mem_filter, accumulates.comesFrom_iff, mem_mentioning, mem_mentioning]
  simp only [List.mem_map, mem_others]
  constructor
  · rintro ⟨⟨other, ⟨-, left⟩, rfl⟩, subgraph, membership, present, same⟩
    exact ⟨subgraph, ⟨membership, same ▸ left⟩, present, same⟩
  · rintro ⟨subgraph, ⟨membership, left⟩, present, rfl⟩
    exact ⟨⟨subgraph, ⟨membership, left⟩, rfl⟩, subgraph, membership, present, rfl⟩

theorem nodes_agree {deleted : Doc} (unshared : NothingShared subgraphs deleted)
    (accumulates : Accumulates (subgraphs.map DocSubgraph.graph) graph)
    {merged : Graph Name Doc Score}
    (mergedAccumulates : Accumulates ((others subgraphs deleted).map DocSubgraph.graph) merged)
    (name : Name) :
    Option.Rel NodeAttr.Agrees
      ((composed graph ((others subgraphs deleted).map DocSubgraph.doc)).nodes.get? name)
      (merged.nodes.get? name) := by
  have text := text_composed graph ((others subgraphs deleted).map DocSubgraph.doc) name
  cases mergedLookup : merged.nodes.get? name with
  | none =>
    have nobody := mergedAccumulates.lookup_none mergedLookup
    have nothing : comingFrom graph ((others subgraphs deleted).map DocSubgraph.doc) name =
        [] := by
      apply List.eq_nil_iff_forall_not_mem.mpr
      intro doc membership
      rw [accumulates.mem_comingFrom, nobody] at membership
      exact List.not_mem_nil membership
    rw [if_pos nothing, Option.map_eq_none_iff] at text
    rw [text]
    exact Option.Rel.none
  | some mergedAttr =>
    obtain ⟨somebody, mergedDescribed, mergedSources⟩ := mergedAccumulates.lookup mergedLookup
    obtain ⟨doc, mentions⟩ := List.exists_mem_of_ne_nil _ somebody
    have comes := accumulates.mem_comingFrom.mpr mentions
    obtain ⟨other, isOther, inOther, -⟩ := mem_mentioning.mp mentions
    rw [if_neg (List.ne_nil_of_mem comes)] at text
    -- The deleted document does not have the node, since another one has it.
    have sameDocs : ∀ doc, doc ∈ mentioning subgraphs name ↔
        doc ∈ mentioning (others subgraphs deleted) name := by
      intro doc
      simp only [mem_mentioning, mem_others]
      constructor
      · rintro ⟨subgraph, membership, present, same⟩
        exact ⟨subgraph, ⟨membership, fun isDeleted =>
          unshared subgraph membership isDeleted other isOther name present inOther⟩,
          present, same⟩
      · rintro ⟨subgraph, ⟨membership, -⟩, present, same⟩
        exact ⟨subgraph, membership, present, same⟩
    cases lookup : graph.nodes.get? name with
    | none =>
      have absent := accumulates.lookup_none lookup
      rw [← sameDocs, absent] at mentions
      exact absurd mentions List.not_mem_nil
    | some attr =>
      obtain ⟨-, described, -⟩ := accumulates.lookup lookup
      rw [lookup, Option.map_some, Option.map_eq_some_iff] at text
      obtain ⟨composedAttr, composedLookup, composedText⟩ := text
      obtain ⟨composedDescription, composedSources⟩ := Prod.mk.inj composedText
      rw [composedLookup]
      refine Option.Rel.some ⟨?_, ?_⟩
      · rw [composedDescription, described, mergedDescribed]
        ext doc
        rw [List.mem_toFinset, List.mem_toFinset, sameDocs]
      · rw [composedSources, mergedSources]
        ext doc
        rw [List.mem_toFinset, List.mem_toFinset, accumulates.mem_comingFrom]

theorem edges_composed_eq {deleted : Doc} (unshared : NothingShared subgraphs deleted)
    (accumulates : Accumulates (subgraphs.map DocSubgraph.graph) graph) (edge : Sym2 Name) :
    (composed graph ((others subgraphs deleted).map DocSubgraph.doc)).edges.get? edge =
      edgeAttr ((others subgraphs deleted).map DocSubgraph.graph) edge := by
  rw [edges_composed, accumulates.edges]
  split_ifs with inside
  · obtain ⟨doc, left, keeps⟩ := List.any_eq_true.mp inside
    rw [Graph.keepsEdge_eq_true] at keeps
    refine (edgeAttr_filter _ fun subgraph membership dropped present => ?_).symm
    have isDeleted : subgraph.doc = deleted := by simpa using dropped
    obtain ⟨name, isEndpoint⟩ : ∃ name, name ∈ edge := ⟨_, Sym2.out_fst_mem edge⟩
    have comes : doc ∈ comingFrom graph ((others subgraphs deleted).map DocSubgraph.doc) name :=
      List.mem_filter.mpr ⟨left, keeps name isEndpoint⟩
    obtain ⟨other, isOther, inOther, -⟩ :=
      mem_mentioning.mp (accumulates.mem_comingFrom.mp comes)
    exact unshared subgraph membership isDeleted other isOther name
      (subgraph.graph.endpoints edge present name isEndpoint) inOther
  · refine (edgeAttr_eq_none.mpr fun other membership present => inside ?_).symm
    obtain ⟨subgraph, isOther, rfl⟩ := List.mem_map.mp membership
    refine List.any_eq_true.mpr ⟨subgraph.doc, List.mem_map_of_mem isOther, ?_⟩
    apply Graph.keepsEdge_eq_true.mpr
    intro name isEndpoint
    exact accumulates.comesFrom_iff.mpr (mem_mentioning.mpr ⟨subgraph, (mem_others.mp isOther).1,
      subgraph.graph.endpoints edge present name isEndpoint, rfl⟩)

theorem unshared_of_nodes_agree {deleted : Doc}
    (accumulates : Accumulates (subgraphs.map DocSubgraph.graph) graph)
    {merged : Graph Name Doc Score}
    (mergedAccumulates : Accumulates ((others subgraphs deleted).map DocSubgraph.graph) merged)
    (agree : ∀ name, Option.Rel NodeAttr.Agrees
      ((composed graph ((others subgraphs deleted).map DocSubgraph.doc)).nodes.get? name)
      (merged.nodes.get? name)) :
    NothingShared subgraphs deleted := by
  intro subgraph membership isDeleted other isOther name present inOther
  have mentions : deleted ∈ mentioning subgraphs name :=
    mem_mentioning.mpr ⟨subgraph, membership, present, isDeleted⟩
  have comes := accumulates.mem_comingFrom.mpr
    (mem_mentioning.mpr ⟨other, isOther, inOther, rfl⟩)
  have text := text_composed graph ((others subgraphs deleted).map DocSubgraph.doc) name
  rw [if_neg (List.ne_nil_of_mem comes)] at text
  cases lookup : graph.nodes.get? name with
  | none =>
    rw [accumulates.lookup_none lookup] at mentions
    exact List.not_mem_nil mentions
  | some attr =>
    rw [lookup, Option.map_some, Option.map_eq_some_iff] at text
    obtain ⟨composedAttr, composedLookup, composedText⟩ := text
    have agreeHere := agree name
    rw [composedLookup] at agreeHere
    cases mergedLookup : merged.nodes.get? name with
    | none =>
      rw [mergedLookup] at agreeHere
      cases agreeHere
    | some mergedAttr =>
      rw [mergedLookup] at agreeHere
      cases agreeHere with
      | some agrees =>
        have described := agrees.1
        obtain ⟨composedDescription, -⟩ := Prod.mk.inj composedText
        rw [composedDescription, (accumulates.lookup lookup).2.1,
          (mergedAccumulates.lookup mergedLookup).2.1] at described
        rw [← List.mem_toFinset, described, List.mem_toFinset, mem_mentioning] at mentions
        obtain ⟨left, isLeft, -, same⟩ := mentions
        exact (mem_others.mp isLeft).2 same

end Compare

/-- After the deletion the rebuilt graph agrees with the merged graph of the other documents;
both are missing when no document is left. -/
def RebuiltAgrees (pagerank : List Name → List (Sym2 Name × Score) → Name → Score)
    (family : Family Name Doc Score) (deleted : Doc) (exclude : List Doc) : Prop :=
  Option.Rel Graph.Agrees
    (rebuildGraph (deleteDocument
      (buildStore pagerank (family.subgraphs.map DocSubgraph.graph)) deleted) exclude)
    (mergeAll ((others family.subgraphs deleted).map DocSubgraph.graph))

omit [LinearOrder Name] [Add Score] in
theorem toFinset_take_eq {docs : List Doc} (distinct : docs.Nodup) {count : ℕ} :
    (docs.take count).toFinset = docs.toFinset ↔ docs.length ≤ count := by
  constructor
  · intro same
    have cards := congrArg Finset.card same
    rw [List.toFinset_card_of_nodup distinct,
      List.toFinset_card_of_nodup (distinct.sublist (List.take_sublist count docs)),
      List.length_take] at cards
    omega
  · intro short
    rw [List.take_of_length_le short]

theorem checkpoints_left (pagerank : List Name → List (Sym2 Name × Score) → Name → Score)
    (subgraphs : List (DocSubgraph Name Doc Score)) (deleted : Doc) :
    ∃ graph, (subgraphs ≠ [] → Accumulates (subgraphs.map DocSubgraph.graph) graph) ∧
      (deleteDocument (buildStore pagerank (subgraphs.map DocSubgraph.graph))
        deleted).filterMap Chunk.subgraph? =
        ((others subgraphs deleted).map DocSubgraph.doc).map fun doc =>
          (graph.docSubgraph doc, [doc]) := by
  by_cases nothing : subgraphs = []
  · subst nothing
    exact ⟨Graph.empty, fun some => absurd rfl some, rfl⟩
  · have nonempty : subgraphs.map DocSubgraph.graph ≠ [] := by simpa using nothing
    obtain ⟨store, graph, change, isBuilt, accumulates⟩ := buildStore_spec pagerank nonempty
    refine ⟨graph, fun _ => accumulates, ?_⟩
    rw [isBuilt, subgraphs_deleteDocument, accumulates.sourceId, sourceId_docs, List.filter_map]
    rfl

theorem composed_nonempty {subgraphs : List (DocSubgraph Name Doc Score)}
    {graph : Graph Name Doc Score}
    (accumulates : Accumulates (subgraphs.map DocSubgraph.graph) graph)
    {subgraph : DocSubgraph Name Doc Score} (membership : subgraph ∈ subgraphs)
    (hasNodes : subgraph.graph.names ≠ []) {docs : List Doc} (left : subgraph.doc ∈ docs) :
    (composed graph docs).names ≠ [] := by
  obtain ⟨name, present⟩ := List.exists_mem_of_ne_nil _ hasNodes
  have comes : graph.comesFrom subgraph.doc name = true :=
    accumulates.comesFrom_iff.mpr (mem_mentioning.mpr ⟨subgraph, membership, present, rfl⟩)
  have coming : subgraph.doc ∈ comingFrom graph docs name := List.mem_filter.mpr ⟨left, comes⟩
  have text := text_composed graph docs name
  rw [if_neg (List.ne_nil_of_mem coming)] at text
  obtain ⟨attr, lookup, -⟩ := (Option.any_eq_true _ _).mp comes
  rw [lookup, Option.map_some, Option.map_eq_some_iff] at text
  obtain ⟨composedAttr, composedLookup, -⟩ := text
  exact List.ne_nil_of_mem (Dict.mem_keys_of_get? composedLookup)

theorem composed_agrees_iff {subgraphs : List (DocSubgraph Name Doc Score)}
    (distinct : (subgraphs.map DocSubgraph.doc).Nodup) {deleted : Doc}
    {graph merged : Graph Name Doc Score}
    (accumulates : Accumulates (subgraphs.map DocSubgraph.graph) graph)
    (mergedAccumulates : Accumulates ((others subgraphs deleted).map DocSubgraph.graph) merged)
    (rebuilt : Graph Name Doc Score) {count : ℕ}
    (sameNodes : rebuilt.nodes = (composed graph
      (((others subgraphs deleted).map DocSubgraph.doc).take count)).nodes)
    (sameEdges : rebuilt.edges = (composed graph
      (((others subgraphs deleted).map DocSubgraph.doc).take count)).edges)
    (sources : rebuilt.sourceId.Perm
      (((others subgraphs deleted).map DocSubgraph.doc).take count)) :
    rebuilt.Agrees merged ↔
      NothingShared subgraphs deleted ∧ (others subgraphs deleted).length ≤ count := by
  have mergedSources : merged.sourceId = (others subgraphs deleted).map DocSubgraph.doc :=
    mergedAccumulates.sourceId.trans (sourceId_docs _)
  have distinctLeft : ((others subgraphs deleted).map DocSubgraph.doc).Nodup :=
    distinct.sublist (List.filter_sublist.map DocSubgraph.doc)
  have reached : rebuilt.sourceId.toFinset = merged.sourceId.toFinset ↔
      (others subgraphs deleted).length ≤ count := by
    rw [List.toFinset_eq_of_perm _ _ sources, mergedSources, toFinset_take_eq distinctLeft,
      List.length_map]
  have complete : (others subgraphs deleted).length ≤ count →
      ((others subgraphs deleted).map DocSubgraph.doc).take count =
        (others subgraphs deleted).map DocSubgraph.doc :=
    fun short => List.take_of_length_le (by rwa [List.length_map])
  constructor
  · intro agrees
    have short := reached.mp agrees.sourceId
    rw [complete short] at sameNodes
    exact ⟨unshared_of_nodes_agree accumulates mergedAccumulates (sameNodes ▸ agrees.nodes), short⟩
  · rintro ⟨unshared, short⟩
    rw [complete short] at sameNodes sameEdges
    refine ⟨fun name => ?_, fun edge => ?_, reached.mpr short⟩
    · rw [sameNodes]
      exact nodes_agree unshared accumulates mergedAccumulates name
    · rw [sameEdges, edges_composed_eq unshared accumulates, mergedAccumulates.edges]
      cases edgeAttr ((others subgraphs deleted).map DocSubgraph.graph) edge with
      | none => exact Option.Rel.none
      | some attr => exact Option.Rel.some ⟨rfl, rfl, rfl⟩

/-- The rebuilt graph is the merged graph exactly when the deleted document shares no node with
another one and the pages reach all checkpoints. -/
theorem rebuiltAgrees_iff (pagerank : List Name → List (Sym2 Name × Score) → Name → Score)
    (family : Family Name Doc Score) (deleted : Doc) (exclude : List Doc)
    (onlyDeleted : ∀ doc ∈ exclude, doc = deleted) :
    RebuiltAgrees pagerank family deleted exclude ↔
      NothingShared family.subgraphs deleted ∧
        (others family.subgraphs deleted).length ≤ 1024 * 256 := by
  obtain ⟨graph, accumulated, chunks⟩ := checkpoints_left pagerank family.subgraphs deleted
  have included : ∀ doc ∈ (others family.subgraphs deleted).map DocSubgraph.doc,
      doc ∉ exclude := by
    intro doc membership excluded
    obtain ⟨other, isOther, rfl⟩ := List.mem_map.mp membership
    exact (mem_others.mp isOther).2 (onlyDeleted _ excluded)
  rw [RebuiltAgrees, rebuildGraph_eq chunks included]
  cases left : others family.subgraphs deleted with
  | nil =>
    -- No document is left: nothing is rebuilt and nothing is merged.
    refine iff_of_true Option.Rel.none ⟨fun _ _ _ other isOther => ?_, Nat.zero_le _⟩
    simp [left] at isOther
  | cons first rest =>
    have isOther : first ∈ others family.subgraphs deleted := by simp [left]
    have isMember := (mem_others.mp isOther).1
    have accumulates := accumulated (List.ne_nil_of_mem isMember)
    rw [← left]
    have company : (others family.subgraphs deleted).map DocSubgraph.graph ≠ [] :=
      List.ne_nil_of_mem (List.mem_map_of_mem isOther)
    obtain ⟨merged, isMerged, mergedAccumulates⟩ := mergeAll_spec company
    rw [isMerged, if_neg (composed_nonempty accumulates isMember
      (family.nonempty first isMember) (by simp [left]))]
    have agreement := composed_agrees_iff family.nodup accumulates mergedAccumulates
      { composed graph
        (((others family.subgraphs deleted).map DocSubgraph.doc).take (1024 * 256)) with
        sourceId := (composed graph (((others family.subgraphs deleted).map
          DocSubgraph.doc).take (1024 * 256))).sourceId.insertionSort (· ≤ ·) }
      rfl rfl ((List.perm_insertionSort _ _).trans (by rw [sourceId_composed]))
    rw [← agreement]
    constructor
    · intro related
      cases related with
      | some agrees => exact agrees
    · exact Option.Rel.some

def strangers : Family ℕ ℕ ℚ where
  subgraphs := [mention 1 1, mention 2 2]
  nodup := by decide
  nonempty := by decide

theorem rebuiltAgrees_of_strangers :
    RebuiltAgrees (fun names _ _ => (1 : ℚ) / names.length) strangers 2 [2] :=
  (rebuiltAgrees_iff _ strangers 2 [2] (by simp)).mpr
    ⟨by simp [NothingShared, others, strangers, mention, Graph.names, Dict.keys],
      by simp [others, strangers, mention]⟩

def twoPeople (doc : ℕ) (acquainted : Bool) : DocSubgraph ℕ ℕ ℚ where
  doc := doc
  graph :=
    { nodes := (mention doc 1).graph.nodes.merge NodeAttr.absorb (mention doc 2).graph.nodes
      edges :=
        { items := if acquainted then [(s(1, 2),
            { weight := 1, description := [⟨doc, "knows"⟩], keywords := [], sourceId := [doc] })]
            else []
          nodup := by cases acquainted <;> simp }
      sourceId := [doc]
      endpoints := by
        intro edge membership name inside
        cases acquainted
        · simp [Dict.keys] at membership
        · obtain rfl : edge = s(1, 2) := by simpa [Dict.keys] using membership
          rw [Dict.mem_keys_merge]
          simpa [mention, Dict.keys] using inside }
  sourceId := rfl
  nodes := by
    intro item membership
    rw [Dict.items_merge_of_disjoint _ (by simp [mention, Dict.keys])] at membership
    rcases List.mem_append.mp membership with first | second
    · exact (mention doc 1).nodes item first
    · exact (mention doc 2).nodes item second
  edges := by cases acquainted <;> simp [Graph.WrittenBy]

def gossip : Family ℕ ℕ ℚ where
  subgraphs := [twoPeople 1 false, twoPeople 2 true]
  nodup := by decide
  nonempty := by decide

/-- The edge survives the deletion of the only document it comes from. -/
theorem not_rebuiltAgrees_of_gossip :
    ¬ RebuiltAgrees (fun names _ _ => (1 : ℚ) / names.length) gossip 2 [2] := by
  intro related
  have survives : (rebuildGraph (deleteDocument (buildStore
      (fun names _ _ => (1 : ℚ) / names.length) (gossip.subgraphs.map DocSubgraph.graph)) 2)
      [2]).any (fun graph => (graph.edges.get? s(1, 2)).isSome) = true := by decide +kernel
  have absent : (mergeAll ((others gossip.subgraphs 2).map DocSubgraph.graph)).all
      (fun graph => (graph.edges.get? s(1, 2)).isNone) = true := by decide +kernel
  rw [RebuiltAgrees] at related
  obtain ⟨rebuilt, isRebuilt, hasEdge⟩ := (Option.any_eq_true _ _).mp survives
  rw [isRebuilt] at related
  cases isMerged : mergeAll ((others gossip.subgraphs 2).map DocSubgraph.graph) with
  | none =>
    rw [isMerged] at related
    cases related
  | some merged =>
    rw [isMerged] at related absent
    cases related with
    | some agrees =>
      have noEdge : merged.edges.get? s(1, 2) = none := by simpa using absent
      obtain ⟨attr, lookup⟩ := Option.isSome_iff_exists.mp hasEdge
      have edges := agrees.edges s(1, 2)
      rw [noEdge, lookup] at edges
      cases edges

end RagFlow.GraphRag
