import RagFlow.Editor.Downstream
import RagFlow.Lib.Dict

/-!
# From the graph to the DSL

`buildDslComponentsByGraph` with the builders of Agents and Categorizes, and where the ids in a
component come from.  What a form becomes beyond its tools, routes and items is left out.
-/

namespace RagFlow.Editor

open RagFlow.Lib

def buildAgentExceptionGoto (edges : List Edge) (nodeId : String) : List String :=
  (edges.filter fun edge =>
    edge.source = nodeId ∧ edge.sourceHandle = some .agentException).map Edge.target

structure BuiltAgent where
  params : Form
  name : Option String
  id : Option String

/-- `none` when the recursion is deeper than the fuel. -/
def buildAgentTools (edges : List Edge) (nodes : List Node) :
    Nat → String → Option BuiltAgent
  | 0, _ => none
  | fuel + 1, nodeId =>
    match getNode nodes nodeId with
    | none => some { params := initialForm .note, name := none, id := none }
    | some node =>
      if node.label = .agent then do
        let bottomSubAgentEdges := edges.filter fun edge =>
          edge.source = nodeId ∧ edge.sourceHandle = some .agentBottom
        let subAgents ← bottomSubAgentEdges.mapM fun edge =>
          buildAgentTools edges nodes fuel edge.target
        let tools := subAgents.map fun subAgent =>
          AgentTool.mk .agent subAgent.id subAgent.name subAgent.params.tools
        some
          { params := { node.form with tools := node.form.tools ++ tools }
            name := some node.name
            id := some node.id }
      else some { params := node.form, name := some node.name, id := some node.id }

def filterTargetsBySourceHandleId (edges : List Edge) (handleId : Handle) : List String :=
  (edges.filter fun edge => edge.sourceHandle = some handleId).map Edge.target

/-- Of a component's parameters: the form, where an exception goes, and the `to` of each category
under its name. -/
structure Params where
  form : Form
  exceptionGoto : List String
  categoryDescription : Dict String (List String)

def Params.ofForm (form : Form) : Params where
  form := form
  exceptionGoto := []
  categoryDescription := Dict.empty

def categoryDescription (subEdges : List Edge) (items : List CategorizeItem) :
    Dict String (List String) :=
  items.foldl (fun pre val => pre.upsert val.name fun _ =>
    filterTargetsBySourceHandleId subEdges (.category val.uuid)) Dict.empty

def buildCategorize (edges : List Edge) (nodes : List Node) (nodeId : String) : Params :=
  match getNode nodes nodeId with
  | none => Params.ofForm (initialForm .note)
  | some node =>
    let params := Params.ofForm { node.form with items := [] }
    if node.label = .categorize then
      { params with
        categoryDescription :=
          categoryDescription (edges.filter fun edge => edge.source = nodeId) node.form.items }
    else params

def startsWith (text start : String) : Bool := start.toList.isPrefixOf text.toList

def leadsToSubAgentOrTool (edge : Edge) : Bool :=
  startsWith edge.target Operator.tool.text ∨
    startsWith edge.target Operator.agent.text ∧ edge.targetHandle = some .agentTop

def isOmitted (edge : Edge) : Bool :=
  edge.sourceHandle = some .agentException ∨ leadsToSubAgentOrTool edge

def buildComponentDownstreamOrUpstream (edges : List Edge) (nodeId : String)
    (isBuildDownstream : Bool) (nodes : List Node) : List String :=
  let omits := isBuildDownstream ∧ getOperatorTypeFromId nodes nodeId = some .agent
  (edges.filter fun edge =>
    (if isBuildDownstream then edge.source else edge.target) = nodeId ∧
      ¬ (omits ∧ isOmitted edge)).map
    fun edge => if isBuildDownstream then edge.target else edge.source

def ExcludeOperators : List Operator := [.note, .tool, .placeholder]

def isBottomSubAgent (edges : List Edge) (nodeId : String) : Bool :=
  edges.any fun edge => edge.target = nodeId ∧ edge.targetHandle = some .agentTop

structure Component where
  componentName : Operator
  params : Params
  downstream : List String
  upstream : List String
  parentId : Option String

/-- Without a cycle the sub-agents are never deeper than the edges are many; with one the recursion
overflows the stack. -/
def buildParams (nodes : List Node) (edges : List Edge) (node : Node) : Option Params :=
  match node.label with
  | .agent =>
    (buildAgentTools edges nodes (edges.length + 1) node.id).map fun agent =>
      { Params.ofForm agent.params with
        exceptionGoto := buildAgentExceptionGoto edges node.id }
  | .categorize => some (buildCategorize edges nodes node.id)
  | _ => some (Params.ofForm node.form)

def buildComponent (nodes : List Node) (edges : List Edge) (node : Node) : Option Component :=
  (buildParams nodes edges node).map fun params =>
    { componentName := node.label
      params := params
      downstream := buildComponentDownstreamOrUpstream edges node.id true nodes
      upstream := buildComponentDownstreamOrUpstream edges node.id false nodes
      parentId := node.parentId }

def buildDslComponentsByGraph (nodes : List Node) (edges : List Edge) :
    Option (Dict String Component) :=
  (nodes.filter fun node =>
    node.label ∉ ExcludeOperators ∧ ¬ isBottomSubAgent edges node.id).foldlM
    (fun components node => do
      let component ← buildComponent nodes edges node
      some (components.upsert node.id fun _ => component)) Dict.empty

def filteredNodes (state : RFState) : List Node :=
  state.nodes.filter fun node => node.label ≠ .placeholder

def filteredEdges (state : RFState) : List Edge :=
  state.edges.filter fun edge =>
    getOperatorTypeFromId state.nodes edge.source ≠ some .placeholder ∧
      getOperatorTypeFromId state.nodes edge.target ≠ some .placeholder

def buildDslData (state : RFState) : Option (Dict String Component) :=
  buildDslComponentsByGraph (filteredNodes state) (filteredEdges state)

section References

variable {nodes : List Node} {edges : List Edge} {source target : String}

theorem mem_downstreamOf_iff :
    target ∈ buildComponentDownstreamOrUpstream edges source true nodes ↔
      ∃ edge ∈ edges, edge.source = source ∧ edge.target = target ∧
        ¬ (getOperatorTypeFromId nodes source = some .agent ∧ isOmitted edge) := by
  simp only [buildComponentDownstreamOrUpstream, if_true, true_and, List.mem_map, List.mem_filter,
    decide_eq_true_eq]
  constructor
  · rintro ⟨edge, ⟨member, leaves, kept⟩, leads⟩
    exact ⟨edge, member, leaves, leads, kept⟩
  · rintro ⟨edge, member, leaves, leads, kept⟩
    exact ⟨edge, ⟨member, leaves, kept⟩, leads⟩

theorem mem_upstreamOf_iff :
    source ∈ buildComponentDownstreamOrUpstream edges target false nodes ↔
      ∃ edge ∈ edges, edge.source = source ∧ edge.target = target := by
  simp [buildComponentDownstreamOrUpstream, and_assoc, and_comm]

theorem mem_buildAgentExceptionGoto_iff :
    target ∈ buildAgentExceptionGoto edges source ↔
      ∃ edge ∈ edges, edge.source = source ∧ edge.target = target ∧
        edge.sourceHandle = some .agentException := by
  simp [buildAgentExceptionGoto, and_left_comm, and_comm]

theorem isBottomSubAgent_iff {id : String} :
    isBottomSubAgent edges id ↔
      ∃ edge ∈ edges, edge.target = id ∧ edge.targetHandle = some .agentTop := by
  simp [isBottomSubAgent]

theorem exists_edge_of_category {items : List CategorizeItem} {name : String}
    {targets : List String}
    (described : (categoryDescription (edges.filter fun edge => edge.source = source)
      items).get? name = some targets) (member : target ∈ targets) :
    ∃ edge ∈ edges, edge.source = source ∧ edge.target = target := by
  unfold categoryDescription at described
  induction items using List.reverseRecOn with
  | nil => simp at described
  | append_singleton items item ih =>
    rw [List.foldl_append, List.foldl_cons, List.foldl_nil, Dict.get?_upsert] at described
    by_cases last : name = item.name
    · rw [if_pos last] at described
      obtain rfl := Option.some.inj described
      simp only [filterTargetsBySourceHandleId, List.mem_map, List.mem_filter,
        decide_eq_true_eq] at member
      obtain ⟨edge, ⟨⟨isEdge, leaves⟩, _⟩, leads⟩ := member
      exact ⟨edge, isEdge, leaves, leads⟩
    · rw [if_neg last] at described
      exact ih described

end References

section Components

variable {nodes : List Node} {edges : List Edge}

def executable (nodes : List Node) (edges : List Edge) : List Node :=
  nodes.filter fun node => node.label ∉ ExcludeOperators ∧ ¬ isBottomSubAgent edges node.id

theorem mem_executable {node : Node} :
    node ∈ executable nodes edges ↔
      node ∈ nodes ∧ node.label ∉ ExcludeOperators ∧ ¬ isBottomSubAgent edges node.id := by
  simp [executable]

def Acyclic (edges : List Edge) : Prop :=
  ∀ id, ¬ Relation.TransGen (fun x y => (x, y) ∈ links edges fun _ => true) id id

theorem buildAgentTools_isSome {fuel : Nat} {id : String}
    (ends : Descent.EndsWithin
      (links edges fun edge => edge.sourceHandle = some .agentBottom) fuel id) :
    (buildAgentTools edges nodes fuel id).isSome := by
  induction fuel generalizing id with
  | zero => exact ends.elim
  | succ fuel ih =>
    unfold buildAgentTools
    cases getNode nodes id with
    | none => rfl
    | some node =>
      by_cases agent : node.label = .agent
      · have subAgents : ((edges.filter fun edge =>
            edge.source = id ∧ edge.sourceHandle = some .agentBottom).mapM fun edge =>
              buildAgentTools edges nodes fuel edge.target).isSome := by
          apply Fallible.mapM_isSome_iff.mpr
          intro edge member
          apply ih
          apply ends
          rw [← mem_downstream_iff]
          apply List.mem_map_of_mem
          simpa using member
        obtain ⟨built, found⟩ := Option.isSome_iff_exists.mp subAgents
        simp only [agent, if_true, found, Option.bind_eq_bind, Option.bind_some,
          Option.isSome_some]
      · simp [agent]

theorem buildParams_isSome (acyclic : Acyclic edges) (node : Node) :
    (buildParams nodes edges node).isSome := by
  unfold buildParams
  split
  · rw [Option.isSome_map]
    apply buildAgentTools_isSome
    have fewer : links edges (fun edge => edge.sourceHandle = some .agentBottom) ⊆
        links edges fun _ => true := by
      apply List.map_subset
      simp
    have ended := Descent.endsWithin_of_acyclic (fun id cycle => acyclic id
      (Relation.TransGen.mono (fun _ _ link => fewer link) _ _ cycle)) node.id
    apply ended.mono
    simpa [links] using List.length_filter_le _ edges
  · rfl
  · rfl

theorem exceptionGoto_of_buildParams {node : Node} {params : Params}
    (built : buildParams nodes edges node = some params) :
    params.exceptionGoto =
      if node.label = .agent then buildAgentExceptionGoto edges node.id else [] := by
  unfold buildParams at built
  split at built
  · rename_i agent
    obtain ⟨_, _, rfl⟩ := Option.map_eq_some_iff.mp built
    simp [agent]
  · rename_i categorize
    obtain rfl := Option.some.inj built
    rw [categorize, if_neg (by decide)]
    unfold buildCategorize
    split
    · rfl
    · split <;> rfl
  · rename_i noAgent _
    obtain rfl := Option.some.inj built
    rw [if_neg noAgent]
    rfl

theorem exists_edge_of_buildParams (distinct : (nodes.map Node.id).Nodup) {node : Node}
    (member : node ∈ nodes) {params : Params} (built : buildParams nodes edges node = some params)
    {name target : String} {targets : List String}
    (described : params.categoryDescription.get? name = some targets)
    (isTarget : target ∈ targets) :
    node.label ≠ .agent ∧ ∃ edge ∈ edges, edge.source = node.id ∧ edge.target = target := by
  unfold buildParams at built
  split at built
  · obtain ⟨_, _, rfl⟩ := Option.map_eq_some_iff.mp built
    simp [Params.ofForm] at described
  · rename_i categorize
    obtain rfl := Option.some.inj built
    simp only [buildCategorize, getNode_of_mem distinct member, categorize, if_true] at described
    exact ⟨by simp [categorize], exists_edge_of_category described isTarget⟩
  · obtain rfl := Option.some.inj built
    simp [Params.ofForm] at described

/-- Every executable node has its component, and there are no others. -/
structure IsCompiled (nodes : List Node) (edges : List Edge) (components : Dict String Component) :
    Prop where
  keys_eq : components.keys = (executable nodes edges).map Node.id
  get?_iff : ∀ id component, components.get? id = some component ↔
    ∃ node ∈ executable nodes edges, node.id = id ∧
      buildComponent nodes edges node = some component

/-- Without a cycle the compilation ends. -/
theorem exists_components (distinct : (nodes.map Node.id).Nodup)
    (acyclic : Acyclic edges) :
    ∃ components, buildDslComponentsByGraph nodes edges = some components ∧
      IsCompiled nodes edges components := by
  suffices folded : ∃ components, buildDslComponentsByGraph nodes edges = some components ∧
      components.keys = (executable nodes edges).map Node.id ∧
      ∀ id component, components.get? id = some component ↔
        ∃ node ∈ executable nodes edges, node.id = id ∧
          buildComponent nodes edges node = some component by
    obtain ⟨components, built, keys, found⟩ := folded
    exact ⟨components, built, keys, found⟩
  have sublist : ((executable nodes edges).map Node.id).Nodup :=
    distinct.sublist (List.filter_sublist.map Node.id)
  unfold buildDslComponentsByGraph
  change ∃ components, (executable nodes edges).foldlM _ _ = some components ∧ _
  generalize executable nodes edges = compiled at sublist
  induction compiled using List.reverseRecOn with
  | nil => exact ⟨Dict.empty, rfl, rfl, by simp⟩
  | append_singleton compiled node ih =>
    rw [List.map_append, List.map_singleton, ← List.concat_eq_append, List.nodup_concat]
      at sublist
    obtain ⟨components, built, keys, found⟩ := ih sublist.2
    obtain ⟨params, isParams⟩ := Option.isSome_iff_exists.mp
      (@buildParams_isSome nodes edges acyclic node)
    have isComponent : ∃ component, buildComponent nodes edges node = some component := by
      simp [buildComponent, isParams]
    obtain ⟨component, isComponent⟩ := isComponent
    refine ⟨components.upsert node.id fun _ => component, ?_, ?_, ?_⟩
    · rw [List.foldlM_append, built]
      simp [isComponent]
    · rw [Dict.keys_upsert, keys, if_neg sublist.1]
      simp
    · intro id other
      rw [Dict.get?_upsert]
      by_cases here : id = node.id
      · rw [if_pos here]
        constructor
        · rintro sameComponent
          exact ⟨node, by simp, here.symm, isComponent.trans sameComponent⟩
        · rintro ⟨found, member, sameId, isOther⟩
          rcases List.mem_append.mp member with earlier | last
          · exact absurd (List.mem_map.mpr ⟨found, earlier, sameId.trans here⟩) sublist.1
          · obtain rfl := List.mem_singleton.mp last
            exact isComponent.symm.trans isOther
      · rw [if_neg here, found]
        have notLast : node.id ≠ id := fun same => here same.symm
        simp [or_and_right, exists_or, notLast]

end Components

end RagFlow.Editor
