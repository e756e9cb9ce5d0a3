import RagFlow.GraphRag.Checkpoints

/-!
# The invariant of a build

An invariant ties the chunks in the store, the subgraphs in memory and the requests that are
left of `set_graph` to the subgraphs generated so far.  Loading, generating and saving
subgraphs keep it.
-/

namespace RagFlow.GraphRag

open RagFlow.Lib

variable {Name Doc Score : Type} [LinearOrder Name] [LinearOrder Doc] [Add Score]

def Chunk.Sound (generated : List (DocSubgraph Name Doc Score)) : Chunk Name Doc Score → Prop
  | .graph content sourceId removed =>
    removed = false ∧ sourceId = content.sourceId ∧
      ∀ subgraph ∈ generated, subgraph.doc ∈ content.sourceId → Covers content subgraph
  | .subgraph content sourceId removed =>
    removed = false ∧ (∃ doc, sourceId = [doc]) ∧
      ∀ subgraph ∈ generated, subgraph.doc ∈ sourceId → Covers content subgraph
  | _ => True

omit [LinearOrder Name] [LinearOrder Doc] [Add Score] in
def Chunk.Mentions (doc : Doc) : Chunk Name Doc Score → Prop
  | .graph content _ _ => doc ∈ content.sourceId
  | .subgraph _ sourceId _ => doc ∈ sourceId
  | _ => False

/-- The requests of `set_graph` that are left, with at most one graph chunk in the store once
they are made. -/
def Remaining (state : Build Name Doc Score)
    (batches : List (List (Chunk Name Doc Score))) : Prop :=
  (state.writes = batches.map .insert ∧ (state.store ++ batches.flatten).countP isGraph ≤ 1) ∨
  (state.writes = .delete .graphs :: batches.map .insert ∧ state.store.countP isGraph ≤ 1 ∧
    batches.flatten.countP isGraph = 1)

structure Sound (state : Build Name Doc Score) : Prop where
  stored : ∀ chunk ∈ state.store, chunk.Sound state.generated
  remaining : ∃ batches, Remaining state batches ∧ ∀ chunk ∈ batches.flatten,
    chunk.Sound state.generated ∧
      (isGraph chunk → ∀ subgraph ∈ state.generated, chunk.Mentions subgraph.doc)
  nonempty : ∀ subgraph ∈ state.generated, subgraph.graph.names ≠ []
  loaded : ∀ item ∈ state.subgraphs, item.2.sourceId = [item.1] ∧
    ∀ subgraph ∈ state.generated, subgraph.doc = item.1 → Covers item.2 subgraph
  fresh : ∀ subgraph ∈ state.saving, (∀ other ∈ state.generated, other.doc ≠ subgraph.doc) ∧
    (∀ item ∈ state.subgraphs, item.1 ≠ subgraph.doc) ∧
      ∀ chunk ∈ state.store, ¬ chunk.Mentions subgraph.doc
  building : state.merging = false → state.writes = []
  gathered : state.merging = true → state.saving = []
  held : Exposed state ∨ ∀ subgraph ∈ state.generated,
    ∃ chunk ∈ state.store, chunk.Mentions subgraph.doc

omit [Add Score] in
theorem sound_start : Sound (Build.start : Build Name Doc Score) where
  stored := by simp [Build.start]
  remaining := ⟨[], Or.inl ⟨rfl, by simp [Build.start]⟩, by simp⟩
  nonempty := by simp [Build.start]
  loaded := by simp [Build.start]
  fresh := by simp [Build.start]
  building _ := rfl
  gathered _ := rfl
  held := Or.inr (by simp [Build.start])

omit [Add Score] in
theorem Sound.preserved {state : Build Name Doc Score} (sound : Sound state)
    (hidden : ¬ Exposed state) {subgraph : DocSubgraph Name Doc Score}
    (membership : subgraph ∈ state.generated) : Preserved state.store subgraph := by
  obtain ⟨chunk, stored, mentions⟩ := sound.held.resolve_left hidden subgraph membership
  refine ⟨chunk, stored, ?_⟩
  have chunkSound := sound.stored chunk stored
  cases chunk with
  | graph content sourceId removed =>
    exact ⟨chunkSound.1, (chunkSound.2.2 subgraph membership mentions).includes⟩
  | subgraph content sourceId removed =>
    exact ⟨chunkSound.1, mentions, (chunkSound.2.2 subgraph membership mentions).includes⟩
  | entity entityKwd content sourceId => exact mentions.elim
  | relation fromEntity toEntity content sourceId => exact mentions.elim

section Building

variable {pagerank : List Name → List (Sym2 Name × Score) → Name → Score}
variable {state : Build Name Doc Score}

omit [LinearOrder Name] [Add Score] in
theorem loadSubgraph_eq_some {store : DocStore Name Doc Score} {doc : Doc}
    {loaded : Graph Name Doc Score} (found : loadSubgraph store doc = some loaded) :
    ∃ content sourceId, Chunk.subgraph content sourceId false ∈ store ∧ doc ∈ sourceId ∧
      loaded = { content with sourceId := [doc] } := by
  obtain ⟨chunk, stored, isCheckpoint⟩ := List.exists_of_findSome?_eq_some found
  unfold Chunk.checkpoint? at isCheckpoint
  split at isCheckpoint
  · rename_i content sourceId
    split at isCheckpoint
    · rename_i source
      exact ⟨content, sourceId, stored, source, (Option.some.inj isCheckpoint).symm⟩
    · simp at isCheckpoint
  · simp at isCheckpoint

theorem sound_load (sound : Sound state) (doc : Doc) :
    Sound (state.step pagerank (.load doc)) := by
  simp only [Build.step]
  split
  · rename_i loaded found
    split_ifs
    · exact sound
    · obtain ⟨content, sourceId, stored, source, rfl⟩ := loadSubgraph_eq_some found
      have chunkSound := sound.stored _ stored
      exact
        { sound with
          loaded := by
            intro item membership
            rcases List.mem_cons.mp membership with rfl | old
            · exact ⟨rfl, fun subgraph generated same =>
                chunkSound.2.2 subgraph generated (same ▸ source)⟩
            · exact sound.loaded item old
          fresh := by
            intro subgraph saving
            obtain ⟨notGenerated, notLoaded, notStored⟩ := sound.fresh subgraph saving
            refine ⟨notGenerated, fun item membership => ?_, notStored⟩
            rcases List.mem_cons.mp membership with rfl | old
            · rintro rfl
              exact notStored _ stored source
            · exact notLoaded item old }
  · exact sound

omit [LinearOrder Name] [LinearOrder Doc] [Add Score] in
theorem Remaining.countP_store {batches : List (List (Chunk Name Doc Score))}
    (remaining : Remaining state batches) : state.store.countP isGraph ≤ 1 := by
  rcases remaining with ⟨-, count⟩ | ⟨-, count, -⟩
  · rw [List.countP_append] at count
    omega
  · exact count

omit [LinearOrder Name] [LinearOrder Doc] [Add Score] in
theorem eq_of_countP {store : DocStore Name Doc Score} (count : store.countP isGraph ≤ 1)
    {first second : Chunk Name Doc Score} (firstStored : first ∈ store) (firstGraph : isGraph first)
    (secondStored : second ∈ store) (secondGraph : isGraph second) : first = second := by
  rw [List.countP_eq_length_filter] at count
  have firstKept := List.mem_filter.mpr ⟨firstStored, firstGraph⟩
  have secondKept := List.mem_filter.mpr ⟨secondStored, secondGraph⟩
  match kept : store.filter isGraph, count with
  | [], _ => simp [kept] at firstKept
  | [only], _ =>
    rw [kept, List.mem_singleton] at firstKept secondKept
    rw [firstKept, secondKept]

omit [LinearOrder Name] [Add Score] in
theorem graphContains_of_mem {store : DocStore Name Doc Score}
    (count : store.countP isGraph ≤ 1) {content : Graph Name Doc Score} {sourceId : List Doc}
    {doc : Doc} (stored : Chunk.graph content sourceId false ∈ store) (source : doc ∈ sourceId) :
    graphContains store doc = true := by
  rw [graphContains, Option.any_eq_true]
  cases found : store.findSome? Chunk.graphSources? with
  | none =>
    have missing := List.findSome?_eq_none_iff.mp found _ stored
    simp [Chunk.graphSources?] at missing
  | some sources =>
    obtain ⟨chunk, chunkStored, isSources⟩ := List.exists_of_findSome?_eq_some found
    unfold Chunk.graphSources? at isSources
    split at isSources
    · have same := eq_of_countP count chunkStored rfl stored rfl
      obtain ⟨-, rfl, -⟩ := Chunk.graph.inj same
      obtain rfl := Option.some.inj isSources
      exact ⟨_, rfl, decide_eq_true source⟩
    · simp at isSources

omit [Add Score] in
theorem not_generated_of_mayGenerate (sound : Sound state) {doc : Doc}
    (may : state.mayGenerate doc = true) {other : DocSubgraph Name Doc Score}
    (generated : other ∈ state.generated) : other.doc ≠ doc := by
  rintro rfl
  simp only [Build.mayGenerate, Bool.and_eq_true, Bool.not_eq_eq_eq_not, Bool.not_true] at may
  obtain ⟨⟨⟨⟨building, -⟩, -⟩, noCheckpoint⟩, notContained⟩ := may
  have hidden : ¬ Exposed state := by
    rw [Exposed, sound.building building]
    simp
  obtain ⟨batches, remaining, -⟩ := sound.remaining
  obtain ⟨chunk, stored, mentions⟩ := sound.held.resolve_left hidden other generated
  have chunkSound := sound.stored chunk stored
  cases chunk with
  | graph content sourceId removed =>
    obtain ⟨rfl, rfl, -⟩ := chunkSound
    simp [graphContains_of_mem remaining.countP_store stored mentions] at notContained
  | subgraph content sourceId removed =>
    obtain ⟨rfl, -, -⟩ := chunkSound
    cases found : loadSubgraph state.store other.doc with
    | none =>
      have missing := List.findSome?_eq_none_iff.mp found _ stored
      simp only [Chunk.Mentions] at mentions
      simp [Chunk.checkpoint?, mentions] at missing
    | some loaded =>
      -- The checkpoint that is found covers the subgraph, so it is not empty.
      obtain ⟨first, sources, firstStored, source, rfl⟩ := loadSubgraph_eq_some found
      have covers := (sound.stored _ firstStored).2.2 other generated source
      obtain ⟨name, membership⟩ := List.exists_mem_of_ne_nil _ (sound.nonempty other generated)
      have inLoaded := covers.includes.1 name membership
      rw [found, Option.all_some, decide_eq_true_eq] at noCheckpoint
      have empty : first.names = [] := noCheckpoint
      simp [empty] at inLoaded
  | entity entityKwd content sourceId => exact mentions.elim
  | relation fromEntity toEntity content sourceId => exact mentions.elim

omit [LinearOrder Name] [LinearOrder Doc] [Add Score] in
theorem Remaining.sublist {batches : List (List (Chunk Name Doc Score))}
    (remaining : Remaining state batches) {store : DocStore Name Doc Score}
    (fewer : store.Sublist state.store) (saving : List (DocSubgraph Name Doc Score)) :
    Remaining { state with store := store, saving := saving } batches := by
  have fewerGraphs := fewer.countP_le (p := isGraph)
  refine remaining.imp (fun ⟨writes, count⟩ => ⟨writes, ?_⟩)
    (fun ⟨writes, count, pending⟩ => ⟨writes, fewerGraphs.trans count, pending⟩)
  rw [List.countP_append] at count ⊢
  exact (Nat.add_le_add_right fewerGraphs _).trans count

theorem sound_generate (sound : Sound state) (subgraph : DocSubgraph Name Doc Score) :
    Sound (state.step pagerank (.generate subgraph)) := by
  simp only [Build.step]
  split_ifs with may
  · have notGenerated : ∀ other ∈ state.generated, other.doc ≠ subgraph.doc :=
      fun other generated => not_generated_of_mayGenerate sound may generated
    simp only [Build.mayGenerate, Bool.and_eq_true, Bool.not_eq_eq_eq_not, Bool.not_true,
      List.all_eq_true, decide_eq_true_eq] at may
    obtain ⟨⟨⟨⟨building, -⟩, notLoaded⟩, -⟩, notContained⟩ := may
    obtain ⟨batches, remaining, sources⟩ := sound.remaining
    have hidden : ¬ Exposed state := by
      rw [Exposed, sound.building building]
      simp
    refine
      { sound with
        stored := fun chunk membership => sound.stored chunk (List.mem_of_mem_filter membership)
        remaining := ⟨batches, remaining.sublist List.filter_sublist _, sources⟩
        fresh := ?_
        gathered := fun merging => by simp [building] at merging
        held := Or.inr ?_ }
    · intro other membership
      rcases List.mem_cons.mp membership with rfl | old
      · refine ⟨notGenerated, notLoaded, fun chunk kept mentions => ?_⟩
        obtain ⟨stored, survives⟩ := List.mem_filter.mp kept
        have chunkSound := sound.stored chunk stored
        cases chunk with
        | graph content sourceId removed =>
          obtain ⟨rfl, rfl, -⟩ := chunkSound
          simp [graphContains_of_mem remaining.countP_store stored mentions] at notContained
        | subgraph content sourceId removed =>
          simp only [Chunk.Mentions] at mentions
          simp [Condition.matches, mentions] at survives
        | entity entityKwd content sourceId => exact mentions.elim
        | relation fromEntity toEntity content sourceId => exact mentions.elim
      · obtain ⟨otherGenerated, otherLoaded, otherStored⟩ := sound.fresh other old
        exact ⟨otherGenerated, otherLoaded, fun chunk kept =>
          otherStored chunk (List.mem_of_mem_filter kept)⟩
    · intro other generated
      obtain ⟨chunk, stored, mentions⟩ := sound.held.resolve_left hidden other generated
      refine ⟨chunk, List.mem_filter.mpr ⟨stored, ?_⟩, mentions⟩
      have chunkSound := sound.stored chunk stored
      cases chunk with
      | subgraph content sourceId removed =>
        obtain ⟨-, ⟨doc, rfl⟩, -⟩ := chunkSound
        obtain rfl := List.mem_singleton.mp mentions
        simpa [Condition.matches] using (notGenerated other generated).symm
      | graph content sourceId removed => rfl
      | entity entityKwd content sourceId => rfl
      | relation fromEntity toEntity content sourceId => rfl
  · exact sound

omit [Add Score] in
theorem Chunk.Sound.cons {generated : List (DocSubgraph Name Doc Score)}
    {chunk : Chunk Name Doc Score} (chunkSound : chunk.Sound generated)
    {subgraph : DocSubgraph Name Doc Score} (silent : ¬ chunk.Mentions subgraph.doc) :
    chunk.Sound (subgraph :: generated) := by
  cases chunk with
  | graph content sourceId removed =>
    refine ⟨chunkSound.1, chunkSound.2.1, fun other membership mentions => ?_⟩
    rcases List.mem_cons.mp membership with rfl | old
    · exact absurd mentions silent
    · exact chunkSound.2.2 other old mentions
  | subgraph content sourceId removed =>
    refine ⟨chunkSound.1, chunkSound.2.1, fun other membership mentions => ?_⟩
    rcases List.mem_cons.mp membership with rfl | old
    · exact absurd mentions silent
    · exact chunkSound.2.2 other old mentions
  | entity entityKwd content sourceId => trivial
  | relation fromEntity toEntity content sourceId => trivial

omit [Add Score] in
theorem Sound.idle (sound : Sound state) {subgraph : DocSubgraph Name Doc Score}
    (saving : subgraph ∈ state.saving) : state.writes = [] := by
  cases merging : state.merging with
  | false => exact sound.building merging
  | true => simp [sound.gathered merging] at saving

theorem sound_save (sound : Sound state) (doc : Doc) :
    Sound (state.step pagerank (.save doc)) := by
  simp only [Build.step]
  split
  · exact sound
  · rename_i subgraph found
    have saving := List.mem_of_find?_eq_some found
    obtain rfl : subgraph.doc = doc := by simpa using List.find?_some found
    obtain ⟨notGenerated, notLoaded, notStored⟩ := sound.fresh subgraph saving
    have idle := sound.idle saving
    have hidden : ¬ Exposed state := by
      rw [Exposed, idle]
      simp
    have count : (state.store ++ [Chunk.subgraph subgraph.graph [subgraph.doc] false]).countP
        isGraph ≤ 1 := by
      obtain ⟨batches, remaining, -⟩ := sound.remaining
      simpa [List.countP_append, isGraph, Chunk.graph?] using remaining.countP_store
    have others : ∀ other ∈ state.saving.filter fun other => other.doc ≠ subgraph.doc,
        ∀ chunk ∈ state.store ++ [Chunk.subgraph subgraph.graph [subgraph.doc] false],
          ¬ chunk.Mentions other.doc := by
      intro other membership chunk stored
      obtain ⟨otherSaving, different⟩ := List.mem_filter.mp membership
      rcases List.mem_append.mp stored with old | new
      · exact (sound.fresh other otherSaving).2.2 chunk old
      · obtain rfl := List.mem_singleton.mp new
        simpa [Chunk.Mentions] using different
    split_ifs with empty
    · exact
        { stored := by
            intro chunk membership
            rcases List.mem_append.mp membership with old | new
            · exact sound.stored chunk old
            · obtain rfl := List.mem_singleton.mp new
              exact ⟨rfl, ⟨_, rfl⟩, fun other generated same =>
                absurd (List.mem_singleton.mp same) (notGenerated other generated)⟩
          remaining := ⟨[], Or.inl ⟨idle, by rw [List.flatten_nil, List.append_nil]; exact count⟩,
            by simp⟩
          nonempty := sound.nonempty
          loaded := sound.loaded
          fresh := fun other membership => by
            have old := sound.fresh other (List.mem_of_mem_filter membership)
            exact ⟨old.1, old.2.1, others other membership⟩
          building := sound.building
          gathered := fun merging => by simp [sound.gathered merging]
          held := Or.inr fun other generated => by
            obtain ⟨chunk, stored, mentions⟩ := sound.held.resolve_left hidden other generated
            exact ⟨chunk, List.mem_append_left _ stored, mentions⟩ }
    · exact
        { stored := by
            intro chunk membership
            rcases List.mem_append.mp membership with old | new
            · exact (sound.stored chunk old).cons (notStored chunk old)
            · obtain rfl := List.mem_singleton.mp new
              refine ⟨rfl, ⟨_, rfl⟩, fun other generated same => ?_⟩
              rcases List.mem_cons.mp generated with rfl | earlier
              · exact covers_self other
              · exact absurd (List.mem_singleton.mp same) (notGenerated other earlier)
          remaining := ⟨[], Or.inl ⟨idle, by rw [List.flatten_nil, List.append_nil]; exact count⟩,
            by simp⟩
          nonempty := by
            intro other generated
            rcases List.mem_cons.mp generated with rfl | earlier
            · exact empty
            · exact sound.nonempty other earlier
          loaded := by
            intro item membership
            rcases List.mem_cons.mp membership with rfl | old
            · refine ⟨subgraph.sourceId, fun other generated same => ?_⟩
              rcases List.mem_cons.mp generated with rfl | earlier
              · exact covers_self other
              · exact absurd same (notGenerated other earlier)
            · refine ⟨(sound.loaded item old).1, fun other generated same => ?_⟩
              rcases List.mem_cons.mp generated with rfl | earlier
              · exact absurd same.symm (notLoaded item old)
              · exact (sound.loaded item old).2 other earlier same
          fresh := by
            intro other membership
            obtain ⟨otherSaving, different⟩ := List.mem_filter.mp membership
            rw [decide_eq_true_eq] at different
            obtain ⟨otherGenerated, otherLoaded, -⟩ := sound.fresh other otherSaving
            refine ⟨?_, ?_, others other membership⟩
            · intro earlier generated
              rcases List.mem_cons.mp generated with rfl | old
              · exact Ne.symm different
              · exact otherGenerated earlier old
            · intro item itemMembership
              rcases List.mem_cons.mp itemMembership with rfl | old
              · exact Ne.symm different
              · exact otherLoaded item old
          building := sound.building
          gathered := fun merging => by simp [sound.gathered merging]
          held := Or.inr fun other generated => by
            rcases List.mem_cons.mp generated with rfl | earlier
            · exact ⟨_, List.mem_append_right _ (List.mem_singleton_self _),
                List.mem_singleton_self other.doc⟩
            · obtain ⟨chunk, stored, mentions⟩ := sound.held.resolve_left hidden other earlier
              exact ⟨chunk, List.mem_append_left _ stored, mentions⟩ }

end Building

end RagFlow.GraphRag

/-!
# Crash safety of a build

Merging a subgraph and making the requests of `set_graph` one by one keeps the invariant of a
build, as long as the moves are safe.  Wherever a safe build fails, no generated subgraph is
lost.
-/

namespace RagFlow.GraphRag

open RagFlow.Lib

variable {Name Doc Score : Type} [LinearOrder Name] [LinearOrder Doc] [Add Score]

section Saving

variable {pagerank : List Name → List (Sym2 Name × Score) → Name → Score}
variable {state : Build Name Doc Score}

omit [LinearOrder Doc] [Add Score] in
theorem not_isGraph_of_entity {graph : Graph Name Doc Score} {names : List Name}
    {chunk : Chunk Name Doc Score} (membership : chunk ∈ entityChunks graph names) :
    ∃ name attr sourceId, chunk = .entity name attr sourceId := by
  obtain ⟨name, -, found⟩ := List.mem_filterMap.mp membership
  obtain ⟨attr, -, rfl⟩ := Option.map_eq_some_iff.mp found
  exact ⟨name, attr, _, rfl⟩

omit [LinearOrder Doc] [Add Score] in
theorem not_isGraph_of_relation {graph : Graph Name Doc Score} {edges : List (Name × Name)}
    {chunk : Chunk Name Doc Score} (membership : chunk ∈ relationChunks graph edges) :
    ∃ source target attr sourceId, chunk = .relation source target attr sourceId := by
  obtain ⟨edge, -, found⟩ := List.mem_filterMap.mp membership
  obtain ⟨attr, -, rfl⟩ := Option.map_eq_some_iff.mp found
  exact ⟨edge.1, edge.2, attr, _, rfl⟩

omit [Add Score] in
theorem countP_newChunks (graph : Graph Name Doc Score) (change : GraphChange Name) :
    (newChunks graph change).countP isGraph = 1 := by
  have noEntity : (entityChunks graph change.addedUpdatedNodes).countP isGraph = 0 := by
    apply List.countP_eq_zero.mpr
    intro chunk membership
    obtain ⟨name, attr, sourceId, rfl⟩ := not_isGraph_of_entity membership
    simp [isGraph, Chunk.graph?]
  have noRelation : (relationChunks graph change.addedUpdatedEdges).countP isGraph = 0 := by
    apply List.countP_eq_zero.mpr
    intro chunk membership
    obtain ⟨source, target, attr, sourceId, rfl⟩ := not_isGraph_of_relation membership
    simp [isGraph, Chunk.graph?]
  have oneGraph : (graphChunks graph).countP isGraph = 1 := by
    have noSubgraph : (graph.sourceId.map fun source =>
        Chunk.subgraph (graph.docSubgraph source) [source] false).countP isGraph = 0 := by
      apply List.countP_eq_zero.mpr
      intro chunk membership
      obtain ⟨source, -, rfl⟩ := List.mem_map.mp membership
      simp [isGraph, Chunk.graph?]
    rw [graphChunks, List.countP_cons, noSubgraph]
    rfl
  rw [newChunks, List.countP_append, List.countP_append, oneGraph, noEntity, noRelation]

omit [Add Score] in
theorem sound_newChunks {generated : List (DocSubgraph Name Doc Score)}
    {graph : Graph Name Doc Score} {change : GraphChange Name}
    (covers : ∀ subgraph ∈ generated, Covers graph subgraph ∧ subgraph.doc ∈ graph.sourceId)
    {chunk : Chunk Name Doc Score} (membership : chunk ∈ newChunks graph change) :
    chunk.Sound generated ∧
      (isGraph chunk → ∀ subgraph ∈ generated, chunk.Mentions subgraph.doc) := by
  rcases List.mem_append.mp membership with others | relation
  · rcases List.mem_append.mp others with graphs | entity
    · rcases List.mem_cons.mp graphs with rfl | subgraphs
      · exact ⟨⟨rfl, rfl, fun subgraph generated _ => (covers subgraph generated).1⟩,
          fun _ subgraph generated => (covers subgraph generated).2⟩
      · obtain ⟨source, -, rfl⟩ := List.mem_map.mp subgraphs
        refine ⟨⟨rfl, ⟨source, rfl⟩, fun subgraph generated same => ?_⟩, fun isGraph => ?_⟩
        · obtain rfl := List.mem_singleton.mp same
          exact (covers subgraph generated).1.docSubgraph
        · simp [RagFlow.GraphRag.isGraph, Chunk.graph?] at isGraph
    · obtain ⟨name, attr, sourceId, rfl⟩ := not_isGraph_of_entity entity
      exact ⟨trivial, fun isGraph => by simp [RagFlow.GraphRag.isGraph, Chunk.graph?] at isGraph⟩
  · obtain ⟨source, target, attr, sourceId, rfl⟩ := not_isGraph_of_relation relation
    exact ⟨trivial, fun isGraph => by simp [RagFlow.GraphRag.isGraph, Chunk.graph?] at isGraph⟩

theorem setGraphOps_mergedGraph (store : DocStore Name Doc Score) (merged : Graph Name Doc Score) :
    setGraphOps (mergedGraph pagerank store merged).1 (mergedGraph pagerank store merged).2 =
      .delete .graphs :: (Paging.batches 64 (newChunks (mergedGraph pagerank store merged).1
        (mergedGraph pagerank store merged).2)).map .insert := by
  have noDeletion : (deletions (mergedGraph pagerank store merged).2 :
      List (Condition Name Doc)) = [.graphs] := by
    simp only [mergedGraph]
    cases getGraph store merged.sourceId <;>
      simp [deletions, Graph.graphMerge, GraphChange.none, Paging.batches]
  rw [setGraphOps, noDeletion]
  rfl

omit [Add Score] in
theorem Sound.getGraph_eq (sound : Sound state) (exclude : List Doc) :
    getGraph state.store exclude = (state.store.findSome? Chunk.graph?).map Prod.fst := by
  refine RagFlow.GraphRag.getGraph_eq (fun graph removed found => ?_) exclude
  obtain ⟨chunk, stored, isGraph⟩ := List.exists_of_findSome?_eq_some found
  have chunkSound := sound.stored chunk stored
  cases chunk <;> simp [Chunk.graph?] at isGraph
  exact isGraph.2 ▸ chunkSound.1

omit [Add Score] in
theorem Sound.covers (sound : Sound state) {graph : Graph Name Doc Score}
    (stored : getGraph state.store [] = some graph) {subgraph : DocSubgraph Name Doc Score}
    (generated : subgraph ∈ state.generated) (source : subgraph.doc ∈ graph.sourceId) :
    Covers graph subgraph := by
  rw [sound.getGraph_eq, Option.map_eq_some_iff] at stored
  obtain ⟨⟨content, removed⟩, found, rfl⟩ := stored
  obtain ⟨chunk, chunkStored, isGraph⟩ := List.exists_of_findSome?_eq_some found
  have chunkSound := sound.stored chunk chunkStored
  cases chunk <;> simp [Chunk.graph?] at isGraph
  obtain ⟨rfl, rfl⟩ := isGraph
  exact chunkSound.2.2 subgraph generated source

theorem sound_merge (sound : Sound state) (doc : Doc) (safe : Safe state (.merge doc)) :
    Sound (state.step pagerank (.merge doc)) := by
  simp only [Build.step]
  split_ifs with idle
  · split
    · exact
        { sound with
          building := fun merging => by simp at merging
          gathered := fun _ => idle.1 }
    · rename_i merged found
      have covered : ∀ subgraph ∈ state.generated,
          Covers (mergedGraph pagerank state.store merged).1 subgraph ∧
            subgraph.doc ∈ (mergedGraph pagerank state.store merged).1.sourceId := by
        intro subgraph generated
        obtain ⟨sources, covers⟩ : merged.sourceId = [doc] ∧ ∀ other ∈ state.generated,
            other.doc = doc → Covers merged other := by
          unfold Build.toMerge at found
          split at found
          · simp at found
          · obtain ⟨item, isItem, rfl⟩ := Option.map_eq_some_iff.mp found
            obtain rfl : item.1 = doc := by simpa using List.find?_some isItem
            exact sound.loaded item (List.mem_of_find?_eq_some isItem)
        rw [sourceId_mergedGraph, sound.getGraph_eq, ← sound.getGraph_eq [], sources]
        rcases safe idle.1 idle.2 (by simp [found]) subgraph generated with same | contained
        · exact ⟨covers_mergedGraph (Or.inl (covers subgraph generated same)),
            List.mem_append_right _ (List.mem_singleton.mpr same)⟩
        · obtain ⟨graph, stored, source⟩ := (Option.any_eq_true _ _).mp contained
          rw [decide_eq_true_eq] at source
          refine ⟨covers_mergedGraph (Or.inr ⟨graph, ?_, sound.covers stored generated source⟩), ?_⟩
          · rw [sound.getGraph_eq, ← sound.getGraph_eq [], stored]
          · rw [stored]
            exact List.mem_append_left _ source
      obtain ⟨batches, remaining, -⟩ := sound.remaining
      have hidden : ¬ Exposed state := by
        rw [Exposed, idle.2]
        simp
      refine
        { sound with
          remaining := ⟨_, Or.inr ⟨setGraphOps_mergedGraph state.store merged,
            remaining.countP_store, ?_⟩, ?_⟩
          building := fun merging => by simp at merging
          gathered := fun _ => idle.1
          held := Or.inr (sound.held.resolve_left hidden) }
      · rw [Paging.flatten_batches (by decide), countP_newChunks]
      · rw [Paging.flatten_batches (by decide)]
        exact fun chunk membership => sound_newChunks covered membership
  · exact sound

omit [LinearOrder Name] [LinearOrder Doc] [Add Score] in
theorem exposed_iff {batches : List (List (Chunk Name Doc Score))}
    (writes : state.writes = batches.map .insert) :
    Exposed state ↔ ∃ chunk ∈ batches.flatten, isGraph chunk := by
  have noDeletion : (batches.map StoreOp.insert).any deletesGraphs = false := by
    simp [deletesGraphs]
  rw [Exposed, writes, noDeletion]
  simp only [List.any_map, List.any_eq_true, Function.comp_apply, insertsGraph,
    Bool.false_eq_true, not_false_eq_true, and_true, List.mem_flatten]
  constructor
  · rintro ⟨batch, membership, chunk, inBatch, graph⟩
    exact ⟨chunk, ⟨batch, membership, inBatch⟩, graph⟩
  · rintro ⟨chunk, ⟨batch, membership, inBatch⟩, graph⟩
    exact ⟨batch, membership, chunk, inBatch, graph⟩

omit [Add Score] in
theorem sound_insert (sound : Sound state) {batches : List (List (Chunk Name Doc Score))}
    (writes : state.writes = batches.map .insert)
    (count : (state.store ++ batches.flatten).countP isGraph ≤ 1)
    (sources : ∀ chunk ∈ batches.flatten, chunk.Sound state.generated ∧
      (isGraph chunk → ∀ subgraph ∈ state.generated, chunk.Mentions subgraph.doc))
    {index : ℕ} (inside : index < batches.length) :
    Sound
      { state with
        store := state.store ++ batches[index]
        writes := (batches.eraseIdx index).map .insert } := by
  have split : batches.flatten.Perm (batches[index] ++ (batches.eraseIdx index).flatten) :=
    (List.getElem_cons_eraseIdx_perm inside).symm.flatten
  have busy : state.writes ≠ [] := by
    rw [writes]
    exact fun nothing => by simp [List.map_eq_nil_iff.mp nothing] at inside
  have inBatch : ∀ chunk ∈ batches[index], chunk ∈ batches.flatten := fun chunk membership =>
    split.mem_iff.mpr (List.mem_append_left _ membership)
  have later : ∀ chunk ∈ (batches.eraseIdx index).flatten, chunk ∈ batches.flatten :=
    fun chunk membership => split.mem_iff.mpr (List.mem_append_right _ membership)
  have noSaving : ∀ subgraph, subgraph ∉ state.saving :=
    fun subgraph saving => busy (sound.idle saving)
  exact
    { stored := by
        intro chunk membership
        rcases List.mem_append.mp membership with old | new
        · exact sound.stored chunk old
        · exact (sources chunk (inBatch chunk new)).1
      remaining := by
        refine ⟨batches.eraseIdx index, Or.inl ⟨rfl, ?_⟩, fun chunk membership =>
          sources chunk (later chunk membership)⟩
        rw [List.append_assoc, ← (split.append_left state.store).countP_eq]
        exact count
      nonempty := sound.nonempty
      loaded := sound.loaded
      fresh := fun subgraph saving => absurd saving (noSaving subgraph)
      building := fun merging => absurd (sound.building merging) busy
      gathered := sound.gathered
      held := by
        by_cases isExposed : ∃ chunk ∈ (batches.eraseIdx index).flatten, isGraph chunk
        · exact Or.inl ((exposed_iff rfl).mpr isExposed)
        · apply Or.inr
          intro subgraph generated
          by_cases wasExposed : Exposed state
          · -- The batch brings the graph, and the graph contains everything.
            obtain ⟨chunk, membership, graph⟩ := (exposed_iff writes).mp wasExposed
            rcases List.mem_append.mp (split.mem_iff.mp membership) with new | rest
            · exact ⟨chunk, List.mem_append_right _ new,
                (sources chunk membership).2 graph subgraph generated⟩
            · exact absurd ⟨chunk, rest, graph⟩ isExposed
          · obtain ⟨chunk, stored, mentions⟩ :=
              sound.held.resolve_left wasExposed subgraph generated
            exact ⟨chunk, List.mem_append_left _ stored, mentions⟩ }

omit [Add Score] in
theorem sound_deleteGraphs (sound : Sound state)
    {batches : List (List (Chunk Name Doc Score))}
    (writes : state.writes = .delete .graphs :: batches.map .insert)
    (pending : batches.flatten.countP isGraph = 1)
    (sources : ∀ chunk ∈ batches.flatten, chunk.Sound state.generated ∧
      (isGraph chunk → ∀ subgraph ∈ state.generated, chunk.Mentions subgraph.doc)) :
    Sound
      { state with
        store := StoreOp.apply state.store (.delete .graphs)
        writes := batches.map .insert } := by
  have busy : state.writes ≠ [] := by simp [writes]
  have noGraph : (StoreOp.apply state.store (.delete .graphs)).countP isGraph = 0 := by
    apply List.countP_eq_zero.mpr
    intro chunk membership
    have survives := (List.mem_filter.mp membership).2
    cases chunk <;> simp_all [Condition.matches, isGraph, Chunk.graph?]
  exact
    { stored := fun chunk membership => sound.stored chunk (List.mem_of_mem_filter membership)
      remaining := ⟨batches, Or.inl ⟨rfl, by rw [List.countP_append, noGraph, pending]⟩, sources⟩
      nonempty := sound.nonempty
      loaded := sound.loaded
      fresh := fun subgraph saving => absurd (sound.idle saving) busy
      building := fun merging => absurd (sound.building merging) busy
      gathered := sound.gathered
      held := by
        obtain ⟨chunk, membership, graph⟩ :=
          List.countP_pos_iff.mp (by rw [pending]; exact Nat.one_pos)
        exact Or.inl ((exposed_iff rfl).mpr ⟨chunk, membership, graph⟩) }

theorem sound_write (sound : Sound state) (index : ℕ) :
    Sound (state.step pagerank (.write index)) := by
  simp only [Build.step]
  split
  · exact sound
  · rename_i op found
    split_ifs with may
    · obtain ⟨batches, remaining, sources⟩ := sound.remaining
      rcases remaining with ⟨writes, count⟩ | ⟨writes, -, pending⟩
      · rw [writes, List.getElem?_map, Option.map_eq_some_iff] at found
        obtain ⟨batch, atIndex, rfl⟩ := found
        obtain ⟨inside, rfl⟩ := List.getElem?_eq_some_iff.mp atIndex
        rw [writes, List.eraseIdx_map]
        exact sound_insert sound writes count sources inside
      · -- The deletion is still the first request, so it is made now.
        obtain rfl : index = 0 := by
          by_contra later
          obtain ⟨before, rfl⟩ := Nat.exists_eq_succ_of_ne_zero later
          simp [Build.mayWrite, writes, Build.isInsert] at may
        rw [writes, List.getElem?_cons_zero, Option.some.injEq] at found
        subst found
        rw [writes, List.eraseIdx_cons_zero]
        exact sound_deleteGraphs sound writes pending sources
    · exact sound

omit [Add Score] in
theorem Sound.giveUp (sound : Sound state) (hidden : ¬ Exposed state) :
    Sound { state with writes := [] } := by
  obtain ⟨batches, remaining, -⟩ := sound.remaining
  exact
    { sound with
      remaining := ⟨[], Or.inl ⟨rfl, by simpa using remaining.countP_store⟩, by simp⟩
      building := fun _ => rfl
      held := Or.inr (sound.held.resolve_left hidden) }

theorem sound_fail (sound : Sound state) (hidden : ¬ Exposed state) :
    Sound (state.step pagerank .fail) :=
  { sound.giveUp hidden with
    loaded := by simp [Build.step]
    fresh := by simp [Build.step]
    building := fun _ => rfl
    gathered := fun _ => rfl }

theorem sound_step (sound : Sound state) (move : Move Name Doc Score) (safe : Safe state move) :
    Sound (state.step pagerank move) := by
  cases move with
  | load doc => exact sound_load sound doc
  | generate subgraph => exact sound_generate sound subgraph
  | save doc => exact sound_save sound doc
  | merge doc => exact sound_merge sound doc safe
  | write index => exact sound_write sound index
  | abort => exact sound.giveUp safe
  | fail => exact sound_fail sound safe

end Saving

end RagFlow.GraphRag
