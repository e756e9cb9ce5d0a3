import RagFlow.Editor.Dsl
import RagFlow.Editor.Store
import RagFlow.Lib.DepthFirst

/-!
# Which connections the canvas allows

`useValidateConnection` lets two nodes be connected only within one group, by operators that may
follow each other, and only where no path leads back.
-/

namespace RagFlow.Editor

open RagFlow.Lib Relation

/-- The operators that must not follow an operator. -/
def RestrictedUpstreamMap : Operator → Option (List Operator)
  | .begin => some [.begin]
  | .categorize => some [.begin]
  | .retrieval => some [.begin, .retrieval]
  | .message => some [.begin, .message, .retrieval, .rewriteQuestion, .categorize]
  | .rewriteQuestion => some [.begin, .message, .rewriteQuestion]
  | .duckDuckGo | .wikipedia | .pubMed | .arXiv | .google | .bing | .googleScholar | .gitHub
  | .searXNG => some [.begin, .retrieval]
  | .exeSQL | .switch | .wenCai | .yahooFinance | .crawler => some [.begin]
  | .note => some []
  | .invoke | .email | .iteration | .iterationStart | .code | .waitingDialogue | .agent
  | .tavilySearch | .tavilyExtract | .stringTransform | .userFillUp | .tool | .placeholder
  | .dataOperations | .listOperations | .variableAssigner | .variableAggregator | .parser
  | .tokenChunker | .titleChunker | .tokenizer | .extractor | .file | .loop | .loopStart
  | .exitLoop | .docGenerator | .browser => some [.begin]
  | .excelProcessor => none

def getParentIdById (nodes : List Node) (id : String) : Option String :=
  ((getNode nodes id).bind Node.parentId).filter fun parentId => parentId ≠ ""

def isSameNodeChild (nodes : List Node) (connection : Edge) : Bool :=
  getParentIdById nodes connection.source = getParentIdById nodes connection.target

def isUnrestricted (nodes : List Node) (connection : Edge) : Bool :=
  match (getOperatorTypeFromId nodes connection.source).bind RestrictedUpstreamMap with
  | none => false
  | some restricted =>
    restricted.all fun operator =>
      some operator ≠ getOperatorTypeFromId nodes connection.target

section Validate

variable (getOutgoers : Node → List Node → List Edge → List Node)

/-- `hasCycle`; as deep as there are edges, it has visited every target. -/
def hasCycle (state : RFState) (connection : Edge) (node : Node) : Option Bool :=
  (DepthFirst.finds Node.id (fun node => getOutgoers node state.nodes state.edges)
    connection.source (state.edges.length + 2) node []).map Prod.fst

def hasCanvasCycle (state : RFState) (connection : Edge) : Option Bool :=
  match getNode state.nodes connection.target with
  | none => some false
  | some target =>
    if target.id = connection.source then some false
    else (hasCycle getOutgoers state connection target).map not

/-- `none` when the search does not end. -/
def isValidConnection (state : RFState) (connection : Edge) : Option Bool :=
  if connection.target ≠ connection.source ∧ isUnrestricted state.nodes connection ∧
      isSameNodeChild state.nodes connection then
    hasCanvasCycle getOutgoers state connection
  else some false

def ReturnsTargets (state : RFState) : Prop :=
  ∀ node id, id ∈ (getOutgoers node state.nodes state.edges).map Node.id ↔
    ∃ edge ∈ state.edges, edge.source = node.id ∧ edge.target = id

/-- What the check of a connection is for. -/
structure Validates (state : RFState) (connection : Edge) : Prop where
  ends : (isValidConnection getOutgoers state connection).isSome
  accepts : isValidConnection getOutgoers state connection = some true →
    Acyclic (appendEdge state.edges connection) ∧
      getParentIdById state.nodes connection.source =
        getParentIdById state.nodes connection.target
  rejects : isValidConnection getOutgoers state connection = some false →
    isUnrestricted state.nodes connection →
    getParentIdById state.nodes connection.source =
      getParentIdById state.nodes connection.target →
    ¬ Acyclic (appendEdge state.edges connection)

inductive BuiltByConnections : RFState → Prop
  | empty (nodes : List Node) : BuiltByConnections { nodes := nodes, edges := [] }
  | change {state : RFState} (built : BuiltByConnections state) (nodes : List Node)
      {edges : List Edge} (fewer : edges ⊆ state.edges) :
      BuiltByConnections { nodes := nodes, edges := edges }
  | connect {state : RFState} {connection : Edge} (built : BuiltByConnections state)
      (returns : ReturnsTargets getOutgoers state)
      (valid : isValidConnection getOutgoers state connection = some true) :
      BuiltByConnections (addEdge state connection)

/-- The recursions along the edges end. -/
structure RecursionsEnd (state : RFState) : Prop where
  downstream : ∀ (predicate : Edge → Bool) (nodeIds : List String),
    ∃ fuel, (filterAllDownstreamNodeIds state.edges predicate fuel nodeIds).isSome
  agentTools : ∀ nodeId, ∃ fuel, (buildAgentTools state.edges state.nodes fuel nodeId).isSome

end Validate

variable {getOutgoers : Node → List Node → List Edge → List Node} {state : RFState}
  {connection : Edge}

def Linked (edges : List Edge) (source target : String) : Prop :=
  ∃ edge ∈ edges, edge.source = source ∧ edge.target = target

theorem mem_links_iff {edges : List Edge} {source target : String} :
    (source, target) ∈ links edges (fun _ => true) ↔ Linked edges source target := by
  simp [links, Linked]

theorem acyclic_iff {edges : List Edge} :
    Acyclic edges ↔ ∀ id, ¬ TransGen (Linked edges) id id := by
  have same : (fun x y => (x, y) ∈ links edges fun _ => true) = Linked edges := by
    funext x y
    exact propext mem_links_iff
  rw [Acyclic, same]

theorem Acyclic.of_subset {edges fewer : List Edge} (acyclic : Acyclic edges)
    (subset : fewer ⊆ edges) : Acyclic fewer := by
  rw [acyclic_iff] at acyclic ⊢
  intro id cycle
  have linked : ∀ x y, Linked fewer x y → Linked edges x y := by
    rintro x y ⟨edge, member, ends⟩
    exact ⟨edge, subset member, ends⟩
  exact acyclic id (TransGen.mono linked _ _ cycle)

theorem linked_appendEdge :
    Linked (appendEdge state.edges connection) = fun source target =>
      Linked state.edges source target ∨
        source = connection.source ∧ target = connection.target := by
  funext source target
  have mem : ∀ edge, edge ∈ appendEdge state.edges connection ↔
      edge ∈ state.edges ∨ edge = connection := by
    intro edge
    unfold appendEdge
    by_cases known : connection ∈ state.edges
    · rw [if_pos known]
      constructor
      · exact Or.inl
      · rintro (old | rfl)
        · exact old
        · exact known
    · rw [if_neg known, List.mem_append, List.mem_singleton]
  apply propext
  simp only [Linked, mem]
  constructor
  · rintro ⟨edge, old | rfl, isSource, isTarget⟩
    · exact Or.inl ⟨edge, old, isSource, isTarget⟩
    · exact Or.inr ⟨isSource.symm, isTarget.symm⟩
  · rintro (⟨edge, old, isSource, isTarget⟩ | ⟨isSource, isTarget⟩)
    · exact ⟨edge, Or.inl old, isSource, isTarget⟩
    · exact ⟨connection, Or.inr rfl, isSource.symm, isTarget.symm⟩

theorem acyclic_appendEdge_iff (acyclic : Acyclic state.edges) :
    Acyclic (appendEdge state.edges connection) ↔
      ¬ ReflTransGen (Linked state.edges) connection.target connection.source := by
  rw [acyclic_iff, linked_appendEdge]
  exact Descent.acyclic_or_edge_iff (acyclic_iff.mp acyclic)

theorem hasCycle_isSome (returns : ReturnsTargets getOutgoers state) (connection : Edge)
    (node : Node) :
    (hasCycle getOutgoers state connection node).isSome := by
  rw [hasCycle, Option.isSome_map]
  let keys := node.id :: state.edges.map Edge.target
  have leads : ∀ other id, Linked state.edges other.id id →
      ∃ next ∈ getOutgoers other state.nodes state.edges, next.id = id :=
    fun other id linked => List.mem_map.mp ((returns other id).mpr linked)
  have among : ∀ other, ∀ next ∈ getOutgoers other state.nodes state.edges, next.id ∈ keys := by
    intro other next member
    obtain ⟨edge, isEdge, _, isTarget⟩ :=
      (returns other next.id).mp (List.mem_map_of_mem member)
    exact List.mem_cons_of_mem _ (isTarget ▸ List.mem_map_of_mem isEdge)
  apply DepthFirst.finds_isSome leads among List.mem_cons_self
  calc DepthFirst.unvisited keys [] ≤ keys.length := List.countP_le_length
    _ < state.edges.length + 2 := by simp [keys]

theorem hasCycle_iff (returns : ReturnsTargets getOutgoers state) {node : Node} {found : Bool}
    (searched : hasCycle getOutgoers state connection node = some found) :
    found = true ↔ TransGen (Linked state.edges) node.id connection.source := by
  obtain ⟨⟨isFound, after⟩, result, rfl⟩ := Option.map_eq_some_iff.mp searched
  cases isFound with
  | true =>
    refine iff_of_true rfl (DepthFirst.transGen_of_finds (fun other next member => ?_) result)
    exact (returns other next.id).mp (List.mem_map_of_mem member)
  | false =>
    refine iff_of_false Bool.false_ne_true (DepthFirst.not_transGen_of_finds ?_ result)
    exact fun other id linked => List.mem_map.mp ((returns other id).mpr linked)

theorem hasCanvasCycle_eq (returns : ReturnsTargets getOutgoers state)
    (exists_target : (getNode state.nodes connection.target).isSome) :
    ∃ valid, hasCanvasCycle getOutgoers state connection = some valid ∧
      (valid = true ↔
        ¬ ReflTransGen (Linked state.edges) connection.target connection.source) := by
  obtain ⟨target, found⟩ := Option.isSome_iff_exists.mp exists_target
  obtain ⟨isCycle, searched⟩ :=
    Option.isSome_iff_exists.mp (hasCycle_isSome returns connection target)
  have isTarget := (mem_of_getNode found).2
  simp only [hasCanvasCycle, found]
  by_cases itself : target.id = connection.source
  · refine ⟨false, if_pos itself, iff_of_false Bool.false_ne_true ?_⟩
    rw [← isTarget, itself]
    exact not_not_intro .refl
  · refine ⟨!isCycle, by rw [if_neg itself, searched, Option.map_some], ?_⟩
    rw [← isTarget, reflTransGen_iff_eq_or_transGen, ← hasCycle_iff returns searched]
    simp [Ne.symm itself]

theorem validates (returns : ReturnsTargets getOutgoers state) (acyclic : Acyclic state.edges)
    (exists_target : (getNode state.nodes connection.target).isSome) :
    Validates getOutgoers state connection := by
  obtain ⟨valid, answered, isValid⟩ := hasCanvasCycle_eq returns exists_target
  rw [← acyclic_appendEdge_iff acyclic] at isValid
  by_cases checked : connection.target ≠ connection.source ∧
      isUnrestricted state.nodes connection ∧ isSameNodeChild state.nodes connection
  · have same : isValidConnection getOutgoers state connection = some valid := by
      rw [isValidConnection, if_pos checked, answered]
    refine ⟨by simp [same], fun accepted => ?_, fun rejected _ _ => ?_⟩
    · rw [same, Option.some.injEq] at accepted
      exact ⟨isValid.mp accepted, by simpa [isSameNodeChild] using checked.2.2⟩
    · rw [same, Option.some.injEq] at rejected
      rw [← isValid, rejected]
      exact Bool.false_ne_true
  · have same : isValidConnection getOutgoers state connection = some false := by
      rw [isValidConnection, if_neg checked]
    refine ⟨by simp [same], fun accepted => ?_, fun _ unrestricted sameGroup => ?_⟩
    · simp [same] at accepted
    · rw [acyclic_appendEdge_iff acyclic]
      have itself : connection.target = connection.source := by
        by_contra other
        exact checked ⟨other, unrestricted, by simpa [isSameNodeChild] using sameGroup⟩
      rw [itself]
      exact not_not_intro .refl

theorem exists_target_of_valid
    (valid : isValidConnection getOutgoers state connection = some true) :
    (getNode state.nodes connection.target).isSome := by
  unfold isValidConnection hasCanvasCycle at valid
  cases found : getNode state.nodes connection.target with
  | none => simp [found] at valid
  | some target => rfl

@[simp] theorem edges_addEdge :
    (addEdge state connection).edges = appendEdge state.edges connection := by
  simp only [addEdge]
  split <;> rfl

theorem BuiltByConnections.acyclic (built : BuiltByConnections getOutgoers state) :
    Acyclic state.edges := by
  induction built with
  | empty nodes =>
    rw [acyclic_iff]
    intro id cycle
    have noEdge : ∀ x y, ¬ Linked [] x y := by simp [Linked]
    obtain ⟨_, first, _⟩ := TransGen.head'_iff.mp cycle
    exact noEdge _ _ first
  | change _ nodes fewer acyclic => exact acyclic.of_subset fewer
  | connect _ returns valid acyclic =>
    rw [edges_addEdge]
    exact ((validates returns acyclic (exists_target_of_valid valid)).accepts valid).1

theorem endsWithin_of_acyclic (acyclic : Acyclic state.edges) (predicate : Edge → Bool)
    (id : String) :
    ∃ fuel, Descent.EndsWithin (links state.edges predicate) fuel id := by
  have fewer : links state.edges predicate ⊆ links state.edges fun _ => true := by
    apply List.map_subset
    simp
  exact ⟨_, Descent.endsWithin_of_acyclic (fun vertex cycle => acyclic vertex
    (TransGen.mono (fun _ _ link => fewer link) _ _ cycle)) id⟩

theorem recursionsEnd_of_acyclic (acyclic : Acyclic state.edges) : RecursionsEnd state where
  downstream predicate nodeIds := by
    obtain ⟨fuel, ends⟩ := Descent.exists_common_depth nodeIds fun id _ =>
      endsWithin_of_acyclic acyclic predicate id
    exact ⟨fuel + 1, filterAllDownstreamNodeIds_isSome_iff.mpr ends⟩
  agentTools nodeId := by
    obtain ⟨fuel, ends⟩ := endsWithin_of_acyclic acyclic
      (fun edge => edge.sourceHandle = some .agentBottom) nodeId
    exact ⟨fuel, buildAgentTools_isSome ends⟩

/-- A valid connection keeps an acyclic graph acyclic and stays within its group, only a cycle is
a reason to reject another, and the recursions along validated connections end. -/
theorem isValidConnection_correct (getOutgoers : Node → List Node → List Edge → List Node) :
    (∀ state connection, ReturnsTargets getOutgoers state → Acyclic state.edges →
      (getNode state.nodes connection.source).isSome →
      (getNode state.nodes connection.target).isSome →
      Validates getOutgoers state connection) ∧
    ∀ state, BuiltByConnections getOutgoers state → RecursionsEnd state :=
  ⟨fun _ _ returns acyclic _ exists_target => validates returns acyclic exists_target,
    fun _ built => recursionsEnd_of_acyclic built.acyclic⟩

/-- `getOutgoers` where all targets exist. -/
def flowOutgoers (node : Node) (nodes : List Node) (edges : List Edge) : List Node :=
  nodes.filter fun other => edges.any fun edge => edge.source = node.id ∧ edge.target = other.id

theorem returnsTargets_flowOutgoers
    (targets_exist : ∀ edge ∈ state.edges, edge.target ∈ state.nodes.map Node.id) :
    ReturnsTargets flowOutgoers state := by
  intro node id
  simp only [flowOutgoers, List.mem_map, List.mem_filter, List.any_eq_true, decide_eq_true_eq]
  constructor
  · rintro ⟨other, ⟨_, edge, isEdge, isSource, isTarget⟩, rfl⟩
    exact ⟨edge, isEdge, isSource, isTarget⟩
  · rintro ⟨edge, isEdge, isSource, rfl⟩
    obtain ⟨other, isNode, isTarget⟩ := List.mem_map.mp (targets_exist edge isEdge)
    exact ⟨other, ⟨isNode, edge, isEdge, isSource, isTarget.symm⟩, isTarget⟩

def agentNode (id : String) : Node where
  id := id
  label := .agent
  parentId := none
  name := id
  form := initialForm .agent

def agentEdge (source target : String) : Edge where
  source := source
  target := target
  sourceHandle := some .start
  targetHandle := some .target

def agents : RFState where
  nodes := [agentNode "Agent:A", agentNode "Agent:B"]
  edges := []

theorem isValidConnection_agents :
    Validates flowOutgoers (addEdge agents (agentEdge "Agent:A" "Agent:B"))
        (agentEdge "Agent:B" "Agent:A") ∧
      RecursionsEnd (addEdge agents (agentEdge "Agent:A" "Agent:B")) := by
  have returns : ReturnsTargets flowOutgoers agents :=
    returnsTargets_flowOutgoers (by simp [agents])
  have built : BuiltByConnections flowOutgoers (addEdge agents (agentEdge "Agent:A" "Agent:B")) :=
    .connect (.empty _) returns (by decide)
  refine ⟨(isValidConnection_correct flowOutgoers).1 _ _ (returnsTargets_flowOutgoers ?_)
    built.acyclic (by decide) (by decide), (isValidConnection_correct flowOutgoers).2 _ built⟩
  decide

end RagFlow.Editor
