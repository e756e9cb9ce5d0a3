import RagFlow.Raptor.PsiLayers

/-!
# Generated summary chunks

The caller of a builder takes what is behind its own chunks for the summaries, and looks their
layers up by their positions.  The builder has put them behind the chunks that it kept, so that a
chunk without a text or an embedding costs a summary.
-/

namespace RagFlow.Raptor

open RagFlow.Lib

inductive TreeBuilder where
  | classic (builder : ClassicBuilder)
  | psi (builder : PsiBuilder)

namespace TreeBuilder

def name : TreeBuilder → String
  | classic _ => "raptor"
  | psi _ => "psi"

/-- `__call__`; nothing if the fuel did not suffice. -/
def call (fuel : Nat) (chunks : List Chunk) : TreeBuilder → Option (Except PyError Outcome)
  | classic builder =>
    (builder.call fuel chunks).map fun result =>
      result.map fun state => ⟨state.chunks, state.layers, state.runs⟩
  | psi builder =>
    if chunks.length ≤ 1 then some (.ok ⟨[], [], []⟩)
    else
      let chunks := chunks.filter Chunk.complete
      if chunks.length ≤ 1 then some (.ok ⟨chunks, [(0, chunks.length)], []⟩)
      else (builder.buildPsiLayers fuel chunks).map .ok

end TreeBuilder

def fakeDocId : String := "graph_raptor_x"

structure TaskContext where
  kbId : String
  name : String
  pagerank : Int
  /-- `doc_info_by_id`, of which the names are read. -/
  docInfoById : Dict String (Option String)
  tokenize : String → String
  fineGrainedTokenize : String → String
  numTokensFromString : String → Nat
  hexdigest : String → String

structure SummaryChunk where
  id : String
  docId : String
  kbId : List String
  docnmKwd : String
  titleTks : String
  raptorKwd : String
  raptorMethod : String
  pagerankFea : Option Int
  /-- The field of the vector. -/
  vctrNm : String
  vctr : List ℚ
  contentWithWeight : String
  contentLtks : String
  contentSmLtks : String
  raptorLayerInt : Nat

/-- `doc_info_by_id.get(doc_id, {}).get("name") or ctx.name` -/
def effectiveDocName (context : TaskContext) (docId : String) : String :=
  if docId = fakeDocId then context.name
  else
    match (context.docInfoById.get? docId).join with
    | none => context.name
    | some name => if name = "" then context.name else name

def summaryPositions (layers : Bounds) : List (Nat × Nat) :=
  layers.zipIdx.tail.flatMap fun layer =>
    (List.range' layer.1.1 (layer.1.2 - layer.1.1)).map fun ci => (ci, layer.2)

def chunkLayer (layers : Bounds) : Dict Nat Nat :=
  (summaryPositions layers).foldl (fun chunkLayer item => chunkLayer.upsert item.1 fun _ => item.2)
    Dict.empty

def summaryChunk (context : TaskContext) (docId treeBuilder vctrNm : String) (layers : Bounds)
    (item : Chunk × Nat) : SummaryChunk where
  id := context.hexdigest (item.1.text ++ docId)
  docId := docId
  kbId := [context.kbId]
  docnmKwd := effectiveDocName context docId
  titleTks := context.tokenize (effectiveDocName context docId)
  raptorKwd := "raptor"
  raptorMethod := treeBuilder
  pagerankFea := if context.pagerank = 0 then none else some context.pagerank
  vctrNm := vctrNm
  vctr := item.1.embedding
  contentWithWeight := item.1.text
  contentLtks := context.tokenize item.1.text
  contentSmLtks := context.fineGrainedTokenize (context.tokenize item.1.text)
  raptorLayerInt := ((chunkLayer layers).get? item.2).getD 1

/-- `_generate_raptor`, with the number of tokens. -/
def generateRaptor (context : TaskContext) (docId : String) (builder : TreeBuilder) (fuel : Nat)
    (chunks : List Chunk) : Option (Except PyError (List SummaryChunk × Nat)) :=
  match chunks with
  | [] => some (.error .assertionError)
  | first :: _ =>
    let vctrNm := "q_" ++ toString first.embedding.length ++ "_vec"
    (builder.call fuel chunks).map fun result => result.map fun outcome =>
      let processed := (outcome.chunks.drop chunks.length).zipIdx chunks.length
      (processed.map (summaryChunk context docId builder.name vctrNm outcome.layers),
        (processed.map fun item => context.numTokensFromString item.1.text).sum)

def labelled (layer : Nat) (groups : List (List Chunk)) : List (Chunk × Nat) :=
  (groups.zipIdx layer).flatMap fun group => group.1.map fun chunk => (chunk, group.2)

inductive Built (source : List Chunk) : Outcome → Prop where
  | few : source.length ≤ 1 → Built source ⟨[], [], []⟩
  | materialized {outcome : Outcome} : 1 < source.length →
      Materialized (source.filter Chunk.complete) outcome → Built source outcome

theorem built_of_call {builder : TreeBuilder} {fuel : Nat} {source : List Chunk}
    {outcome : Outcome} (ends : builder.call fuel source = some (.ok outcome)) :
    Built source outcome := by
  cases builder with
  | classic builder =>
    obtain ⟨result, isResult, isOutcome⟩ := Option.map_eq_some_iff.mp ends
    cases result with
    | error error => cases isOutcome
    | ok final =>
      cases isOutcome
      unfold ClassicBuilder.call at isResult
      split_ifs at isResult with few
      · cases isResult
        exact .few few
      · refine .materialized (not_le.mp few) ?_
        have start := ClassicBuilder.layersInv_startLayers (source.filter Chunk.complete)
        simp only at isResult
        split_ifs at isResult
        · cases isResult
          exact start.layered
        · have reached := (WhileLoop.reached_of_loop isResult).1
          exact (WhileLoop.invariant_of_reached start (fun _ _ inv isNext =>
            (ClassicBuilder.layersInv_next inv isNext).1) reached).layered
  | psi builder =>
    unfold TreeBuilder.call at ends
    simp only at ends
    split_ifs at ends with few
    · cases ends
      exact .few few
    · cases ends
      exact .materialized (not_le.mp few) ⟨[], .start _, .nil⟩
    · obtain ⟨found, isFound, same⟩ := Option.map_eq_some_iff.mp ends
      cases same
      exact .materialized (not_le.mp few) (PsiBuilder.materialized_buildPsiLayers isFound)

structure Execution where
  builder : TreeBuilder
  fuel : Nat
  source : List Chunk
  outcome : Outcome
  ends : builder.call fuel source = some (.ok outcome)

def Outcome.summaries (outcome : Outcome) : List (List Chunk) :=
  outcome.runs.map fun runs => runs.filterMap Prod.snd

theorem flatMap_boundsFrom (start : Nat) (sizes : List Nat) :
    (boundsFrom start sizes).flatMap (fun bounds => List.range' bounds.1 (bounds.2 - bounds.1)) =
      List.range' start sizes.sum := by
  induction sizes generalizing start with
  | nil => rfl
  | cons size sizes ih =>
    rw [boundsFrom, List.flatMap_cons, ih, List.sum_cons,
      Nat.add_sub_cancel_left, ← List.range'_append_1]

theorem map_zipIdx_flatten {layerOf : Nat → Nat} (start layer : Nat) (groups : List (List Chunk))
    (agrees : ∀ bounds ∈ (boundsFrom start (groups.map List.length)).zipIdx layer,
      ∀ ci, bounds.1.1 ≤ ci → ci < bounds.1.2 → layerOf ci = bounds.2) :
    (groups.flatten.zipIdx start).map (fun item => (item.1, layerOf item.2)) =
      labelled layer groups := by
  induction groups generalizing start layer with
  | nil => rfl
  | cons group groups ih =>
    rw [List.map_cons, boundsFrom, List.zipIdx_cons, List.forall_mem_cons] at agrees
    obtain ⟨here, later⟩ := agrees
    have rest := ih (start + group.length) (layer + 1) later
    rw [List.flatten_cons, List.zipIdx_append, List.map_append, rest, labelled,
      labelled, List.zipIdx_cons, List.flatMap_cons]
    congr 1
    have first : (group.zipIdx start).map (fun item => (item.1, layerOf item.2)) =
        (group.zipIdx start).map fun item => (item.1, layer) := by
      apply List.map_congr_left
      intro item isItem
      have bounds := List.mem_zipIdx isItem
      rw [here item.2 bounds.1 bounds.2.1]
    rw [first]
    conv_rhs => rw [← List.zipIdx_map_fst start group, List.map_map]
    rfl

theorem map_fst_summaryPositions (kept : Nat) (sizes : List Nat) :
    (summaryPositions (boundsFrom 0 (kept :: sizes))).map Prod.fst =
      List.range' kept sizes.sum := by
  have positions : (summaryPositions (boundsFrom 0 (kept :: sizes))).map Prod.fst =
      (((boundsFrom kept sizes).zipIdx 1).map Prod.fst).flatMap fun bounds =>
        List.range' bounds.1 (bounds.2 - bounds.1) := by
    rw [summaryPositions, boundsFrom, Nat.zero_add, List.zipIdx_cons, List.tail_cons,
      List.map_flatMap, List.flatMap_map]
    apply List.flatMap_congr
    intro layer _
    rw [List.map_map]
    exact List.map_id _
  rw [positions, List.zipIdx_map_fst, flatMap_boundsFrom]

theorem get?_chunkLayer {kept : Nat} {sizes : List Nat} {bounds : (Nat × Nat) × Nat}
    (isLayer : bounds ∈ (boundsFrom kept sizes).zipIdx 1) {ci : Nat} (above : bounds.1.1 ≤ ci)
    (below : ci < bounds.1.2) :
    (chunkLayer (boundsFrom 0 (kept :: sizes))).get? ci = some bounds.2 := by
  have distinct : ((summaryPositions (boundsFrom 0 (kept :: sizes))).map Prod.fst).Nodup := by
    rw [map_fst_summaryPositions]
    exact List.nodup_range'
  have fresh : ∀ key ∈ (summaryPositions (boundsFrom 0 (kept :: sizes))).map Prod.fst,
      key ∉ (Dict.empty : Dict Nat Nat).keys := fun _ _ => List.not_mem_nil
  have written := Dict.items_foldl_upsert_of_fresh (fun (layer : Nat) (_ : Option Nat) => layer)
    (summaryPositions (boundsFrom 0 (kept :: sizes))) distinct fresh
  rw [← Dict.mem_items, chunkLayer, written]
  refine List.mem_append_right _ (List.mem_map.mpr ⟨(ci, bounds.2), ?_, rfl⟩)
  rw [summaryPositions, boundsFrom, Nat.zero_add, List.zipIdx_cons, List.tail_cons]
  refine List.mem_flatMap.mpr ⟨bounds, isLayer, List.mem_map.mpr ⟨ci, ?_, rfl⟩⟩
  rw [List.mem_range'_1]
  omega

theorem zipIdx_drop {Item : Type} (items : List Item) (start count : Nat) :
    (items.drop count).zipIdx (start + count) = (items.zipIdx start).drop count := by
  induction count generalizing items start with
  | zero => rfl
  | succ count ih =>
    cases items with
    | nil => rfl
    | cons item items =>
      rw [List.drop_succ_cons, List.zipIdx_cons, List.drop_succ_cons,
        ← ih items (start + 1), Nat.add_right_comm, Nat.add_assoc]

theorem map_processed {kept processed : List Chunk} {groups : List (List Chunk)} {layers : Bounds}
    (layered : Layered kept groups processed layers) {originalLength : Nat}
    (more : kept.length ≤ originalLength) :
    ((processed.drop originalLength).zipIdx originalLength).map
        (fun item => (item.1, ((chunkLayer layers).get? item.2).getD 1)) =
      (labelled 1 groups).drop (originalLength - kept.length) := by
  obtain ⟨dropped, rfl⟩ := Nat.exists_eq_add_of_le more
  have looked := @map_zipIdx_flatten (fun ci => ((chunkLayer layers).get? ci).getD 1) kept.length 1
    groups fun bounds isLayer ci above below => by
      rw [layered.layers_eq, get?_chunkLayer isLayer above below, Option.getD_some]
  rw [layered.chunks_eq, List.drop_length_add_append, zipIdx_drop, List.map_drop, looked,
    Nat.add_sub_cancel_left]

def SummaryChunk.content (chunk : SummaryChunk) : Chunk × Nat :=
  (⟨chunk.contentWithWeight, chunk.vctr⟩, chunk.raptorLayerInt)

theorem labelled_perm {groups : List (List Chunk)} {runs : List (List Run)}
    (same : List.Forall₂ (fun group runs => group.Perm (runs.filterMap Prod.snd)) groups runs)
    (layer : Nat) :
    (labelled layer groups).Perm
      (labelled layer (runs.map fun runs => runs.filterMap Prod.snd)) := by
  induction same generalizing layer with
  | nil => exact .nil
  | cons perm _ ih =>
    rw [labelled, labelled, List.map_cons, List.zipIdx_cons, List.zipIdx_cons, List.flatMap_cons,
      List.flatMap_cons]
    exact (perm.map _).append (ih (layer + 1))

theorem labelled_eq_nil {layer : Nat} {groups : List (List Chunk)} :
    labelled layer groups = [] ↔ ∀ group ∈ groups, group = [] := by
  induction groups generalizing layer with
  | nil => simp [labelled]
  | cons group groups ih =>
    have later := @ih (layer + 1)
    rw [labelled] at later
    rw [labelled, List.zipIdx_cons, List.flatMap_cons, List.append_eq_nil_iff,
      List.map_eq_nil_iff, later, List.forall_mem_cons]

theorem exists_generateRaptor (context : TaskContext) (docId : String) (execution : Execution)
    (nonempty : execution.source ≠ []) :
    ∃ res tkCount groups,
      generateRaptor context docId execution.builder execution.fuel execution.source =
          some (.ok (res, tkCount)) ∧
        (labelled 1 groups).Perm (labelled 1 execution.outcome.summaries) ∧
        res.map SummaryChunk.content = (labelled 1 groups).drop
          (execution.source.length - (execution.source.filter Chunk.complete).length) := by
  obtain ⟨builder, fuel, source, outcome, ends⟩ := execution
  obtain ⟨first, rest, rfl⟩ := List.exists_cons_of_ne_nil nonempty
  simp only [generateRaptor, ends, Option.map_some, Except.map]
  cases built_of_call ends with
  | few _ => exact ⟨_, _, [], rfl, .nil, by simp [labelled]⟩
  | materialized _ materialized =>
    obtain ⟨groups, layered, summarized⟩ := materialized
    refine ⟨_, _, groups, rfl, labelled_perm summarized 1, ?_⟩
    rw [List.map_map]
    exact map_processed layered (List.length_filter_le _ _)

/-- There is one chunk for each summary, with its layer, and no other chunk. -/
def AllStored (context : TaskContext) (docId : String) (execution : Execution) : Prop :=
  ∃ res tkCount,
    generateRaptor context docId execution.builder execution.fuel execution.source =
        some (.ok (res, tkCount)) ∧
      (res.map SummaryChunk.content).Perm (labelled 1 execution.outcome.summaries)

/-- All summaries are stored where the builder left out no source chunk, or where there are no
summaries; the source chunks must not be empty. -/
theorem allStored_iff (context : TaskContext) (docId : String) (execution : Execution) :
    AllStored context docId execution ↔
      execution.source ≠ [] ∧
        ((∀ chunk ∈ execution.source, chunk.complete) ∨
          ∀ runs ∈ execution.outcome.runs, ∀ run ∈ runs, run.2 = none) := by
  have none : labelled 1 execution.outcome.summaries = [] ↔
      ∀ runs ∈ execution.outcome.runs, ∀ run ∈ runs, run.2 = none := by
    rw [labelled_eq_nil, Outcome.summaries, List.forall_mem_map]
    simp only [List.filterMap_eq_nil_iff]
  have complete : (execution.source.filter Chunk.complete).length = execution.source.length ↔
      ∀ chunk ∈ execution.source, chunk.complete := List.length_filter_eq_length_iff
  rw [← none, ← complete]
  by_cases nonempty : execution.source = []
  · refine iff_of_false ?_ fun holds => holds.1 nonempty
    rintro ⟨res, tkCount, isResult, _⟩
    rw [nonempty] at isResult
    cases isResult
  · obtain ⟨res, tkCount, groups, isResult, perm, isContent⟩ :=
      exists_generateRaptor context docId execution nonempty
    have fewer := List.length_filter_le Chunk.complete execution.source
    constructor
    · rintro ⟨other, otherCount, isOther, stored⟩
      obtain ⟨rfl, rfl⟩ : res = other ∧ tkCount = otherCount := by
        simpa using isResult.symm.trans isOther
      have sameLength := (stored.trans perm.symm).length_eq
      rw [isContent, List.length_drop] at sameLength
      refine ⟨nonempty, ?_⟩
      rw [← List.length_eq_zero_iff, ← perm.length_eq]
      omega
    · rintro ⟨_, isComplete | noSummaries⟩
      · refine ⟨res, tkCount, isResult, ?_⟩
        rw [isContent, isComplete, Nat.sub_self, List.drop_zero]
        exact perm
      · refine ⟨res, tkCount, isResult, ?_⟩
        rw [noSummaries] at perm ⊢
        rw [isContent, perm.eq_nil, List.drop_nil]

/-- Two chunks get one summary; the chunk before them has no text. -/
def textlessFirst : Execution where
  builder := .classic
    { ClassicBuilder.evenBuilder with summarizeTexts := fun _ _ _ => some ⟨"summary", [1]⟩ }
  fuel := 2
  source := [⟨"", [1]⟩, ⟨"a", [1]⟩, ⟨"b", [1]⟩]
  outcome :=
    { chunks := [⟨"a", [1]⟩, ⟨"b", [1]⟩, ⟨"summary", [1]⟩]
      layers := [(0, 2), (2, 3)]
      runs := [[([0, 1], some ⟨"summary", [1]⟩)]] }
  ends := rfl

/-- The summary stands where the three source chunks would end, and is not stored. -/
theorem not_allStored_textlessFirst : ¬ ∀ (context : TaskContext) (docId : String)
    (execution : Execution), AllStored context docId execution := by
  intro all
  have context : TaskContext := ⟨"kb", "name", 0, .empty, id, id, String.length, id⟩
  obtain ⟨res, tkCount, isResult, stored⟩ := all context "doc" textlessFirst
  cases isResult
  have sameLength : 0 = 1 := stored.length_eq
  cases sameLength

end RagFlow.Raptor
