import RagFlow.Editor.Dsl

/-!
# Compiled graphs

Which graphs compile to components that refer to each other consistently: every id is the id of a
component, downstream and upstream lists agree, and every edge is either flow or exception route.
-/

namespace RagFlow.Editor.Compilation

open RagFlow.Lib

def references (component : Component) : List String :=
  component.downstream ++ component.upstream ++ component.params.exceptionGoto ++
    (component.params.categoryDescription.items.map Prod.snd).flatten ++ component.parentId.toList

/-- The components of a graph as the runtime needs them. -/
structure Consistent (nodes : List Node) (edges : List Edge) (components : Dict String Component) :
    Prop where
  one_each : components.keys = (executable nodes edges).map Node.id
  closed : ∀ id component, components.get? id = some component →
    ∀ other ∈ references component, other ∈ components.keys
  dual : ∀ first last source target,
    components.get? first = some source → components.get? last = some target →
      (last ∈ source.downstream ↔ first ∈ target.upstream)
  once : ∀ edge ∈ edges, ∀ source target,
    components.get? edge.source = some source → components.get? edge.target = some target →
      (edge.target ∈ source.downstream ∧ edge.source ∈ target.upstream ∧
        edge.target ∉ source.params.exceptionGoto) ∨
      (edge.target ∈ source.params.exceptionGoto ∧ edge.target ∉ source.downstream ∧
        edge.source ∉ target.upstream)

/-- Edges connect components with components, an Agent's edges to tools and sub-agents apart, no
exception leaves an Agent, and parents are components. -/
structure Routable (nodes : List Node) (edges : List Edge) : Prop where
  edges_match : ∀ edge ∈ edges, edge.target ∈ (executable nodes edges).map Node.id ↔
    edge.source ∈ (executable nodes edges).map Node.id ∧
      ¬ (getOperatorTypeFromId nodes edge.source = some .agent ∧ leadsToSubAgentOrTool edge)
  no_exception : ∀ node ∈ executable nodes edges, node.label = .agent →
    ∀ edge ∈ edges, edge.source = node.id → edge.sourceHandle ≠ some .agentException
  parents_match : ∀ node ∈ executable nodes edges, ∀ parent ∈ node.parentId,
    parent ∈ (executable nodes edges).map Node.id

section Compilation

variable {nodes : List Node} {edges : List Edge} {components : Dict String Component}

structure BuiltFrom (nodes : List Node) (edges : List Edge) (node : Node) (component : Component) :
    Prop where
  downstream_eq :
    component.downstream = buildComponentDownstreamOrUpstream edges node.id true nodes
  upstream_eq : component.upstream = buildComponentDownstreamOrUpstream edges node.id false nodes
  exceptionGoto_eq : component.params.exceptionGoto =
    if node.label = .agent then buildAgentExceptionGoto edges node.id else []
  category_edge : ∀ targets ∈ component.params.categoryDescription.items.map Prod.snd,
    ∀ target ∈ targets, node.label ≠ .agent ∧
      ∃ edge ∈ edges, edge.source = node.id ∧ edge.target = target
  parentId_eq : component.parentId = node.parentId

theorem builtFrom_of_buildComponent (distinct : (nodes.map Node.id).Nodup) {node : Node}
    (member : node ∈ nodes) {component : Component}
    (built : buildComponent nodes edges node = some component) :
    BuiltFrom nodes edges node component := by
  obtain ⟨params, isParams, rfl⟩ := Option.map_eq_some_iff.mp built
  refine ⟨rfl, rfl, exceptionGoto_of_buildParams isParams, ?_, rfl⟩
  intro targets isCategory target isTarget
  obtain ⟨⟨name, _⟩, isItem, rfl⟩ := List.mem_map.mp isCategory
  exact exists_edge_of_buildParams distinct member isParams (Dict.mem_items.mp isItem) isTarget

theorem exists_builtFrom (distinct : (nodes.map Node.id).Nodup)
    (compiled : IsCompiled nodes edges components) {id : String} {component : Component}
    (found : components.get? id = some component) :
    ∃ node ∈ executable nodes edges, node.id = id ∧ BuiltFrom nodes edges node component := by
  obtain ⟨node, member, sameId, built⟩ := (compiled.get?_iff id component).mp found
  exact ⟨node, member, sameId,
    builtFrom_of_buildComponent distinct (mem_executable.mp member).1 built⟩

theorem exists_component (distinct : (nodes.map Node.id).Nodup)
    (compiled : IsCompiled nodes edges components) {node : Node}
    (member : node ∈ executable nodes edges) :
    ∃ component, components.get? node.id = some component ∧
      BuiltFrom nodes edges node component := by
  have isKey : node.id ∈ components.keys := by
    rw [compiled.keys_eq]
    exact List.mem_map_of_mem member
  obtain ⟨component, found⟩ := Dict.mem_keys.mp isKey
  obtain ⟨other, otherMember, sameId, built⟩ := exists_builtFrom distinct compiled found
  have same : other = node := by
    have first := getNode_of_mem distinct (mem_executable.mp otherMember).1
    rw [sameId, getNode_of_mem distinct (mem_executable.mp member).1] at first
    exact (Option.some.inj first).symm
  exact ⟨component, found, same ▸ built⟩

theorem label_of_mem (distinct : (nodes.map Node.id).Nodup) {node : Node}
    (member : node ∈ executable nodes edges) :
    getOperatorTypeFromId nodes node.id = some node.label := by
  rw [getOperatorTypeFromId, getNode_of_mem distinct (mem_executable.mp member).1, Option.map_some]

theorem leads_of_executable {edge other : Edge} (isEdge : edge ∈ edges)
    (target : edge.target ∈ (executable nodes edges).map Node.id)
    (leads : leadsToSubAgentOrTool edge) (same : other.target = edge.target) :
    leadsToSubAgentOrTool other := by
  simp only [leadsToSubAgentOrTool, Bool.decide_or, Bool.or_eq_true, decide_eq_true_eq] at leads ⊢
  rcases leads with tool | ⟨_, top⟩
  · exact Or.inl (same ▸ tool)
  · obtain ⟨node, member, sameId⟩ := List.mem_map.mp target
    exact absurd (isBottomSubAgent_iff.mpr ⟨edge, isEdge, sameId.symm, top⟩)
      (mem_executable.mp member).2.2

theorem mem_references {component : Component} {other : String} :
    other ∈ references component ↔
      other ∈ component.downstream ∨ other ∈ component.upstream ∨
        other ∈ component.params.exceptionGoto ∨
        (∃ targets ∈ component.params.categoryDescription.items.map Prod.snd, other ∈ targets) ∨
        component.parentId = some other := by
  simp only [references, List.mem_append, List.mem_flatten, Option.mem_toList, or_assoc]

theorem exists_upstream (distinct : (nodes.map Node.id).Nodup)
    (compiled : IsCompiled nodes edges components) {edge : Edge} (isEdge : edge ∈ edges)
    (target : edge.target ∈ (executable nodes edges).map Node.id) :
    ∃ component, components.get? edge.target = some component ∧
      edge.source ∈ component.upstream := by
  obtain ⟨node, member, sameId⟩ := List.mem_map.mp target
  obtain ⟨component, found, built⟩ := exists_component distinct compiled member
  refine ⟨component, sameId ▸ found, ?_⟩
  rw [built.upstream_eq]
  exact mem_upstreamOf_iff.mpr ⟨edge, isEdge, rfl, sameId.symm⟩

section Consistent

variable (distinct : (nodes.map Node.id).Nodup) (compiled : IsCompiled nodes edges components)
  (consistent : Consistent nodes edges components)

include compiled consistent

theorem executable_of_reference {id : String} {component : Component}
    (found : components.get? id = some component) {other : String}
    (isReference : other ∈ references component) :
    other ∈ (executable nodes edges).map Node.id := by
  rw [← compiled.keys_eq]
  exact consistent.closed id component found other isReference

include distinct

theorem source_of_consistent {edge : Edge} (isEdge : edge ∈ edges)
    (target : edge.target ∈ (executable nodes edges).map Node.id) :
    edge.source ∈ (executable nodes edges).map Node.id ∧
      ¬ (getOperatorTypeFromId nodes edge.source = some .agent ∧ leadsToSubAgentOrTool edge) := by
  obtain ⟨last, lastFound, isUpstream⟩ := exists_upstream distinct compiled isEdge target
  have source := executable_of_reference compiled consistent lastFound
    (mem_references.mpr (Or.inr (Or.inl isUpstream)))
  refine ⟨source, ?_⟩
  rintro ⟨agent, leads⟩
  obtain ⟨node, member, sameId⟩ := List.mem_map.mp source
  obtain ⟨first, firstFound, built⟩ := exists_component distinct compiled member
  have isDownstream := (consistent.dual _ _ _ _ firstFound lastFound).mpr (sameId ▸ isUpstream)
  rw [built.downstream_eq, sameId] at isDownstream
  obtain ⟨other, _, _, sameTarget, kept⟩ := mem_downstreamOf_iff.mp isDownstream
  have alsoLeads := leads_of_executable isEdge target leads sameTarget
  exact kept ⟨agent, by simp [isOmitted, alsoLeads]⟩

theorem target_of_consistent {edge : Edge} (isEdge : edge ∈ edges)
    (source : edge.source ∈ (executable nodes edges).map Node.id)
    (kept : ¬ (getOperatorTypeFromId nodes edge.source = some .agent ∧
      leadsToSubAgentOrTool edge)) :
    edge.target ∈ (executable nodes edges).map Node.id := by
  obtain ⟨node, member, sameId⟩ := List.mem_map.mp source
  obtain ⟨component, found, built⟩ := exists_component distinct compiled member
  have label := label_of_mem distinct member
  apply executable_of_reference compiled consistent found
  rw [mem_references]
  by_cases exception : node.label = .agent ∧ edge.sourceHandle = some .agentException
  · refine Or.inr (Or.inr (Or.inl ?_))
    rw [built.exceptionGoto_eq, if_pos exception.1]
    exact mem_buildAgentExceptionGoto_iff.mpr ⟨edge, isEdge, sameId.symm, rfl, exception.2⟩
  · apply Or.inl
    rw [built.downstream_eq]
    refine mem_downstreamOf_iff.mpr ⟨edge, isEdge, sameId.symm, rfl, ?_⟩
    rintro ⟨agent, omitted⟩
    have isAgent : node.label = .agent := Option.some.inj (label.symm.trans agent)
    simp only [isOmitted, Bool.decide_or, Bool.or_eq_true, decide_eq_true_eq] at omitted
    rcases omitted with isException | leads
    · exact exception ⟨isAgent, isException⟩
    · exact kept ⟨sameId ▸ agent, by simpa using leads⟩

theorem no_exception_of_consistent {node : Node} (member : node ∈ executable nodes edges)
    (agent : node.label = .agent) {edge : Edge} (isEdge : edge ∈ edges)
    (leaves : edge.source = node.id) : edge.sourceHandle ≠ some .agentException := by
  intro exception
  obtain ⟨component, found, built⟩ := exists_component distinct compiled member
  have goesTo : edge.target ∈ component.params.exceptionGoto := by
    rw [built.exceptionGoto_eq, if_pos agent]
    exact mem_buildAgentExceptionGoto_iff.mpr ⟨edge, isEdge, leaves, rfl, exception⟩
  have target := executable_of_reference compiled consistent found
    (mem_references.mpr (Or.inr (Or.inr (Or.inl goesTo))))
  obtain ⟨last, lastFound, isUpstream⟩ := exists_upstream distinct compiled isEdge target
  rcases consistent.once edge isEdge component last (leaves ▸ found) lastFound with
    ⟨_, _, noException⟩ | ⟨_, _, noFlow⟩
  · exact noException goesTo
  · exact noFlow isUpstream

theorem routable_of_consistent : Routable nodes edges := by
  constructor
  · intro edge isEdge
    constructor
    · exact source_of_consistent distinct compiled consistent isEdge
    · rintro ⟨source, kept⟩
      exact target_of_consistent distinct compiled consistent isEdge source kept
  · intro node member agent edge isEdge leaves
    exact no_exception_of_consistent distinct compiled consistent member agent isEdge leaves
  · intro node member parent isParent
    obtain ⟨component, found, built⟩ := exists_component distinct compiled member
    apply executable_of_reference compiled consistent found
    rw [mem_references, built.parentId_eq]
    exact Or.inr (Or.inr (Or.inr (Or.inr isParent)))

end Consistent

section Routable

variable (distinct : (nodes.map Node.id).Nodup) (compiled : IsCompiled nodes edges components)
  (routable : Routable nodes edges)

include distinct routable

theorem mem_downstreamOf_of_routable {edge : Edge} (isEdge : edge ∈ edges)
    (target : edge.target ∈ (executable nodes edges).map Node.id) :
    edge.target ∈ buildComponentDownstreamOrUpstream edges edge.source true nodes := by
  obtain ⟨source, kept⟩ := (routable.edges_match edge isEdge).mp target
  obtain ⟨node, member, sameId⟩ := List.mem_map.mp source
  refine mem_downstreamOf_iff.mpr ⟨edge, isEdge, rfl, rfl, ?_⟩
  rintro ⟨agent, omitted⟩
  simp only [isOmitted, Bool.decide_or, Bool.or_eq_true, decide_eq_true_eq] at omitted
  rcases omitted with exception | leads
  · have label := label_of_mem distinct member
    rw [sameId, agent] at label
    exact routable.no_exception node member (Option.some.inj label).symm edge isEdge sameId.symm
      exception
  · exact kept ⟨agent, by simpa using leads⟩

omit distinct in
theorem exceptionGoto_of_routable {node : Node} (member : node ∈ executable nodes edges)
    {component : Component} (built : BuiltFrom nodes edges node component) :
    component.params.exceptionGoto = [] := by
  rw [built.exceptionGoto_eq]
  by_cases agent : node.label = .agent
  · rw [if_pos agent]
    apply List.eq_nil_iff_forall_not_mem.mpr
    intro target goesTo
    obtain ⟨edge, isEdge, leaves, _, exception⟩ := mem_buildAgentExceptionGoto_iff.mp goesTo
    exact routable.no_exception node member agent edge isEdge leaves exception
  · exact if_neg agent

theorem closed_of_routable {node : Node} (member : node ∈ executable nodes edges)
    {component : Component} (built : BuiltFrom nodes edges node component) {other : String}
    (isReference : other ∈ references component) :
    other ∈ (executable nodes edges).map Node.id := by
  have label := label_of_mem distinct member
  have source := List.mem_map_of_mem (f := Node.id) member
  rw [mem_references] at isReference
  rcases isReference with downstream | upstream | exception | ⟨targets, isCategory, target⟩ | parent
  · rw [built.downstream_eq] at downstream
    obtain ⟨edge, isEdge, leaves, rfl, kept⟩ := mem_downstreamOf_iff.mp downstream
    apply (routable.edges_match edge isEdge).mpr
    refine ⟨leaves ▸ source, ?_⟩
    rintro ⟨agent, leads⟩
    exact kept ⟨leaves ▸ agent, by simp [isOmitted, leads]⟩
  · rw [built.upstream_eq] at upstream
    obtain ⟨edge, isEdge, rfl, enters⟩ := mem_upstreamOf_iff.mp upstream
    exact ((routable.edges_match edge isEdge).mp (enters ▸ source)).1
  · simp [exceptionGoto_of_routable routable member built] at exception
  · obtain ⟨noAgent, edge, isEdge, leaves, rfl⟩ :=
      built.category_edge targets isCategory other target
    apply (routable.edges_match edge isEdge).mpr
    refine ⟨leaves ▸ source, ?_⟩
    rintro ⟨agent, _⟩
    rw [leaves, label] at agent
    exact noAgent (Option.some.inj agent)
  · exact routable.parents_match node member other (built.parentId_eq ▸ parent)

include compiled

theorem consistent_of_routable : Consistent nodes edges components := by
  constructor
  · exact compiled.keys_eq
  · intro id component found other isReference
    obtain ⟨node, member, _, built⟩ := exists_builtFrom distinct compiled found
    rw [compiled.keys_eq]
    exact closed_of_routable distinct routable member built isReference
  · intro first last source target firstFound lastFound
    obtain ⟨firstNode, _, rfl, firstBuilt⟩ := exists_builtFrom distinct compiled firstFound
    obtain ⟨lastNode, lastMember, rfl, lastBuilt⟩ := exists_builtFrom distinct compiled lastFound
    rw [firstBuilt.downstream_eq, lastBuilt.upstream_eq]
    constructor
    · intro downstream
      obtain ⟨edge, isEdge, leaves, enters, _⟩ := mem_downstreamOf_iff.mp downstream
      exact mem_upstreamOf_iff.mpr ⟨edge, isEdge, leaves, enters⟩
    · intro upstream
      obtain ⟨edge, isEdge, leaves, enters⟩ := mem_upstreamOf_iff.mp upstream
      rw [← leaves, ← enters]
      apply mem_downstreamOf_of_routable distinct routable isEdge
      rw [enters]
      exact List.mem_map_of_mem lastMember
  · intro edge isEdge source target sourceFound targetFound
    obtain ⟨first, firstMember, firstId, firstBuilt⟩ :=
      exists_builtFrom distinct compiled sourceFound
    obtain ⟨last, lastMember, lastId, lastBuilt⟩ := exists_builtFrom distinct compiled targetFound
    refine Or.inl ⟨?_, ?_, ?_⟩
    · rw [firstBuilt.downstream_eq, firstId]
      apply mem_downstreamOf_of_routable distinct routable isEdge
      rw [← lastId]
      exact List.mem_map_of_mem lastMember
    · rw [lastBuilt.upstream_eq, lastId]
      exact mem_upstreamOf_iff.mpr ⟨edge, isEdge, rfl, rfl⟩
    · simp [exceptionGoto_of_routable routable firstMember firstBuilt]

end Routable

/-- A graph without cycles always compiles, to consistent components exactly when it is
routable. -/
theorem compiles_consistent_iff (distinct : (nodes.map Node.id).Nodup)
    (acyclic : Acyclic edges) :
    (∃ components, buildDslComponentsByGraph nodes edges = some components ∧
      Consistent nodes edges components) ↔ Routable nodes edges := by
  obtain ⟨components, built, compiled⟩ := exists_components distinct acyclic
  rw [built]
  constructor
  · rintro ⟨_, same, consistent⟩
    obtain rfl := Option.some.inj same
    exact routable_of_consistent distinct compiled consistent
  · exact fun routable => ⟨components, rfl, consistent_of_routable distinct compiled routable⟩

end Compilation

def plainNode (id : String) (label : Operator) : Node where
  id := id
  label := label
  parentId := none
  name := id
  form := initialForm label

def exampleNodes : List Node :=
  [plainNode "begin" .begin, plainNode "Agent:RedFoxesRun" .agent,
    plainNode "Tool:BlueOwlsFly" .tool, plainNode "Message:ColdDogsSing" .message]

def exampleEdges (handle : Handle) : List Edge :=
  [{ source := "begin", target := "Agent:RedFoxesRun", sourceHandle := some .start,
     targetHandle := some .target },
    { source := "Agent:RedFoxesRun", target := "Tool:BlueOwlsFly", sourceHandle := some .tool,
      targetHandle := some .target },
    { source := "Agent:RedFoxesRun", target := "Message:ColdDogsSing", sourceHandle := some handle,
      targetHandle := some .target }]

theorem acyclic_example (handle : Handle) : Acyclic (exampleEdges handle) := by
  intro id
  apply Descent.acyclic_of_rank fun id => (exampleNodes.map Node.id).idxOf id
  simp [links, exampleEdges, exampleNodes, plainNode]

theorem compiles_consistent_example :
    ∃ components, buildDslComponentsByGraph exampleNodes (exampleEdges .start) = some components ∧
      Consistent exampleNodes (exampleEdges .start) components := by
  apply (compiles_consistent_iff (by decide) (acyclic_example .start)).mpr
  refine ⟨by decide, by decide, by decide⟩

/-- An Agent whose exception goes to a Message is in the upstream list of the Message, which is not
in the downstream list of the Agent. -/
theorem not_consistent_of_exception :
    (exampleNodes.map Node.id).Nodup ∧ Acyclic (exampleEdges .agentException) ∧
      (∀ edge ∈ exampleEdges .agentException, edge.source ∈ exampleNodes.map Node.id ∧
        edge.target ∈ exampleNodes.map Node.id) ∧
      ∃ components,
        buildDslComponentsByGraph exampleNodes (exampleEdges .agentException) = some components ∧
          ¬ Consistent exampleNodes (exampleEdges .agentException) components := by
  have distinct : (exampleNodes.map Node.id).Nodup := by decide
  have acyclic := acyclic_example .agentException
  refine ⟨distinct, acyclic, by decide, ?_⟩
  obtain ⟨components, built, compiled⟩ := exists_components distinct acyclic
  refine ⟨components, built, fun consistent => ?_⟩
  have routable := routable_of_consistent distinct compiled consistent
  have isAgent : plainNode "Agent:RedFoxesRun" .agent ∈
      executable exampleNodes (exampleEdges .agentException) := by
    simp [mem_executable, exampleNodes, exampleEdges, plainNode, ExcludeOperators, isBottomSubAgent]
  have isEdge : (⟨"Agent:RedFoxesRun", "Message:ColdDogsSing", some .agentException,
      some .target⟩ : Edge) ∈ exampleEdges .agentException := by decide
  exact routable.no_exception _ isAgent rfl _ isEdge rfl rfl

end RagFlow.Editor.Compilation
