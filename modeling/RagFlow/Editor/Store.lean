import RagFlow.Editor.Downstream

/-!
# The actions of the editor's store

What the canvas, the toolbar and the forms do to the graph.  Positions, sizes and selections are
left out; ids, and the names shown on the nodes, are arguments where the source generates them.
-/

namespace RagFlow.Editor

def updateNodeForm (nodes : List Node) (nodeId : String) (change : Form → Form) : List Node :=
  nodes.map fun node => if node.id = nodeId then { node with form := change node.form } else node

/-- `lodashSet(form, ['conditions', index, 'to'], targets)`: missing conditions appear. -/
def setConditionTo (conditions : List (List String)) (index : Nat) (targets : List String) :
    List (List String) :=
  if index < conditions.length then conditions.set index targets
  else conditions ++ List.replicate (index - conditions.length) [] ++ [targets]

def generateSwitchHandleText (index : Nat) : Handle := .switchCase (index + 1)

def getOperatorIndex : Handle → Option Nat
  | .switchCase number => some number
  | _ => none

def currentHandleTargets (state : RFState) (source : String) (sourceHandle : Handle) :
    List String :=
  (state.edges.filter fun edge => edge.source = source ∧ edge.sourceHandle = some sourceHandle ∧
    getOperatorTypeFromId state.nodes edge.target ≠ some .placeholder).map Edge.target

def updateSwitchFormData (state : RFState) (source : String) (sourceHandle : Option Handle)
    (target : String) (isConnecting : Bool) : List Node :=
  match sourceHandle with
  | none => state.nodes
  | some sourceHandle =>
    let currentTargets := currentHandleTargets state source sourceHandle
    let targets :=
      if isConnecting then currentTargets else currentTargets.filter fun id => id ≠ target
    if sourceHandle = .switchElseTo then
      updateNodeForm state.nodes source fun form => { form with endCpnIds := targets }
    else
      match getOperatorIndex sourceHandle with
      | some (index + 1) =>
        updateNodeForm state.nodes source fun form =>
          { form with conditions := setConditionTo form.conditions index targets }
      | _ => state.nodes

section Forms

variable {nodes : List Node} {nodeId id : String} {change : Form → Form}

theorem getNode_updateNodeForm :
    getNode (updateNodeForm nodes nodeId change) id =
      (getNode nodes id).map fun node =>
        if node.id = nodeId then { node with form := change node.form } else node := by
  simp only [getNode, updateNodeForm, List.find?_map]
  congr 2
  funext node
  by_cases changed : node.id = nodeId <;> simp [changed]

@[simp] theorem getOperatorTypeFromId_updateNodeForm :
    getOperatorTypeFromId (updateNodeForm nodes nodeId change) id =
      getOperatorTypeFromId nodes id := by
  simp only [getOperatorTypeFromId, getNode_updateNodeForm, Option.map_map]
  congr 1
  funext node
  by_cases changed : node.id = nodeId <;> simp [changed]

@[simp] theorem ids_updateNodeForm :
    (updateNodeForm nodes nodeId change).map Node.id = nodes.map Node.id := by
  simp only [updateNodeForm, List.map_map]
  congr 1
  funext node
  by_cases changed : node.id = nodeId <;> simp [changed]

theorem getElem?_setConditionTo {conditions : List (List String)} {index other : Nat}
    {targets : List String} :
    (setConditionTo conditions index targets)[other]? =
      if other = index then some targets
      else if other < conditions.length then conditions[other]?
      else if other < index then some []
      else none := by
  unfold setConditionTo
  by_cases inside : index < conditions.length
  · rw [if_pos inside, List.getElem?_set]
    grind
  · rw [if_neg inside]
    grind

theorem length_le_setConditionTo {conditions : List (List String)} {index : Nat}
    {targets : List String} :
    conditions.length ≤ (setConditionTo conditions index targets).length := by
  unfold setConditionTo
  by_cases inside : index < conditions.length
  · simp [inside]
  · simp [inside]

@[simp] theorem ids_updateSwitchFormData {state : RFState} {source target : String}
    {sourceHandle : Option Handle} {isConnecting : Bool} :
    (updateSwitchFormData state source sourceHandle target isConnecting).map Node.id =
      state.nodes.map Node.id := by
  unfold updateSwitchFormData
  cases sourceHandle with
  | none => rfl
  | some handle =>
    by_cases isElse : handle = .switchElseTo
    · simp [isElse]
    · simp only [isElse, if_false]
      split <;> simp

@[simp] theorem getOperatorTypeFromId_updateSwitchFormData {state : RFState}
    {source target : String} {sourceHandle : Option Handle} {isConnecting : Bool} {id : String} :
    getOperatorTypeFromId (updateSwitchFormData state source sourceHandle target isConnecting) id =
      getOperatorTypeFromId state.nodes id := by
  unfold updateSwitchFormData
  cases sourceHandle with
  | none => rfl
  | some handle =>
    by_cases isElse : handle = .switchElseTo
    · simp [isElse]
    · simp only [isElse, if_false]
      split <;> simp

end Forms

/-- `addEdge` of the flow library: it does not add an edge that is already there. -/
def appendEdge (edges : List Edge) (connection : Edge) : List Edge :=
  if connection ∈ edges then edges else edges ++ [connection]

/-- `addEdge`, and `onConnect`, which does the same. -/
def addEdge (state : RFState) (connection : Edge) : RFState :=
  let state := { state with edges := appendEdge state.edges connection }
  if getOperatorTypeFromId state.nodes connection.source = some .switch then
    { state with
      nodes := updateSwitchFormData state connection.source connection.sourceHandle
        connection.target true }
  else state

def deleteEdgeById (state : RFState) (id : Edge) : RFState where
  nodes :=
    if id ∈ state.edges ∧ getOperatorTypeFromId state.nodes id.source = some .switch then
      updateSwitchFormData state id.source id.sourceHandle id.target false
    else state.nodes
  edges := state.edges.filter fun edge => edge ≠ id

@[simp] theorem ids_addEdge {state : RFState} {connection : Edge} :
    (addEdge state connection).nodes.map Node.id = state.nodes.map Node.id := by
  simp only [addEdge]
  split <;> simp

@[simp] theorem getOperatorTypeFromId_addEdge {state : RFState} {connection : Edge} {id : String} :
    getOperatorTypeFromId (addEdge state connection).nodes id =
      getOperatorTypeFromId state.nodes id := by
  simp only [addEdge]
  split <;> simp

@[simp] theorem ids_deleteEdgeById {state : RFState} {edge : Edge} :
    (deleteEdgeById state edge).nodes.map Node.id = state.nodes.map Node.id := by
  unfold deleteEdgeById
  split <;> simp

@[simp] theorem getOperatorTypeFromId_deleteEdgeById {state : RFState} {edge : Edge}
    {id : String} :
    getOperatorTypeFromId (deleteEdgeById state edge).nodes id =
      getOperatorTypeFromId state.nodes id := by
  unfold deleteEdgeById
  split <;> simp

/-- The edges of `deleteAllDownstreamAgentsAndTool`: an edge is collected unless a different one
has been. -/
def relatedEdges (edges : List Edge) (downstream : List String) : List Edge :=
  downstream.foldl (fun pre cur =>
    (edges.filter fun edge => edge.source = cur ∨ edge.target = cur).foldl
      (fun pre edge => if pre.any fun other => other ≠ edge then pre else pre ++ [edge]) pre) []

def deleteAgentDownstreamNodesById (state : RFState) (id : String) : Option RFState :=
  (filterAllDownstreamAgentAndToolNodeIds state.edges [id]).map fun downstream =>
    { nodes := state.nodes.filter fun node => node.id ∉ downstream ∧ node.id ≠ id
      edges := state.edges.filter fun edge =>
        edge.source ≠ id ∧ edge.target ≠ id ∧ edge ∉ relatedEdges state.edges downstream }

/-- A stack overflow leaves the store as it was. -/
def deleteNodeById (state : RFState) (id : String) : RFState :=
  if getOperatorTypeFromId state.nodes id = some .agent then
    (deleteAgentDownstreamNodesById state id).getD state
  else
    { nodes := state.nodes.filter fun node => node.id ≠ id
      edges := (state.edges.filter fun edge => edge.source ≠ id).filter fun edge =>
        edge.target ≠ id }

def deleteAgentToolNodeById (state : RFState) (id : String) : RFState :=
  match state.edges.find? fun edge => edge.source = id ∧ edge.sourceHandle = some .tool with
  | none => state
  | some edge => deleteNodeById (deleteEdgeById state edge) edge.target

def deleteIterationNodeById (state : RFState) (id : String) : RFState :=
  let children := state.nodes.filter fun node => node.parentId = some id
  { nodes := state.nodes.filter fun node => node.id ≠ id ∧ node.parentId ≠ some id
    edges := state.edges.filter fun edge => edge.source ≠ id ∧ edge.target ≠ id ∧
      ¬ children.any fun child => edge.source = child.id ∧ edge.target = child.id }

def IsGroup (state : RFState) (id : String) : Prop :=
  getOperatorTypeFromId state.nodes id ∈ [some .iteration, some .loop]

instance (state : RFState) (id : String) : Decidable (IsGroup state id) :=
  inferInstanceAs (Decidable (_ ∈ _))

def deleteNode (state : RFState) (id : String) : RFState :=
  if IsGroup state id then deleteIterationNodeById state id else deleteNodeById state id

def Edge.Touches (edge : Edge) (id : String) : Prop :=
  edge.source = id ∨ edge.target = id

instance (edge : Edge) (id : String) : Decidable (edge.Touches id) :=
  inferInstanceAs (Decidable (_ ∨ _))

def firstEdgeAt (edges : List Edge) (id : String) : Option Edge :=
  edges.find? fun edge => edge.Touches id

section Related

variable {edges : List Edge} {downstream : List String} {edge : Edge}

theorem mem_collect_iff {related : List Edge} {pre : List Edge} {first : Edge}
    (alone : ∀ old ∈ pre, old = first) (nonempty : pre ≠ []) :
    edge ∈ related.foldl
        (fun pre edge => if pre.any fun other => other ≠ edge then pre else pre ++ [edge]) pre ↔
      edge = first := by
  induction related generalizing pre with
  | nil =>
    constructor
    · exact alone edge
    · rintro rfl
      obtain ⟨old, member⟩ := List.exists_mem_of_ne_nil pre nonempty
      exact alone old member ▸ member
  | cons head rest ih =>
    rw [List.foldl_cons]
    by_cases different : (pre.any fun other => other ≠ head) = true
    · rw [if_pos different]
      exact ih alone nonempty
    · rw [if_neg different]
      apply ih
      · intro old member
        rcases List.mem_append.mp member with inPre | new
        · exact alone old inPre
        · obtain ⟨kept, inPre⟩ := List.exists_mem_of_ne_nil pre nonempty
          have same : kept = head := by
            by_contra other
            exact different (List.any_eq_true.mpr ⟨kept, inPre, by simpa using other⟩)
          rw [List.mem_singleton.mp new, ← same]
          exact alone kept inPre
      · simp

theorem mem_relatedEdges_iff :
    edge ∈ relatedEdges edges downstream ↔
      downstream.findSome? (firstEdgeAt edges) = some edge := by
  have flat : relatedEdges edges downstream =
      (downstream.flatMap fun cur => edges.filter fun edge => edge.Touches cur).foldl
        (fun pre edge => if pre.any fun other => other ≠ edge then pre else pre ++ [edge]) [] := by
    rw [List.foldl_flatMap]
    rfl
  have head : downstream.findSome? (firstEdgeAt edges) =
      (downstream.flatMap fun cur => edges.filter fun edge => edge.Touches cur).head? := by
    rw [List.head?_flatMap]
    simp only [List.head?_filter]
    rfl
  rw [flat, head]
  cases downstream.flatMap fun cur => edges.filter fun edge => edge.Touches cur with
  | nil => simp
  | cons first rest =>
    rw [List.foldl_cons, List.head?_cons, Option.some.injEq]
    refine (@mem_collect_iff edge rest [first] first ?_ ?_).trans eq_comm
    · simp
    · simp

theorem touches_of_mem_relatedEdges (member : edge ∈ relatedEdges edges downstream) :
    ∃ id ∈ downstream, edge.Touches id := by
  obtain ⟨id, inDownstream, found⟩ :=
    List.exists_of_findSome?_eq_some (mem_relatedEdges_iff.mp member)
  exact ⟨id, inDownstream, by simpa using List.find?_some found⟩

end Related

/-- The nodes that `deleteNodeById` removes: an Agent with what is downstream of it, any other
node alone. -/
def deletedIdsById (state : RFState) (id : String) : List String :=
  if getOperatorTypeFromId state.nodes id = some .agent then
    match filterAllDownstreamAgentAndToolNodeIds state.edges [id] with
    | none => []
    | some downstream => id :: downstream
  else [id]

def EdgeDeletedById (state : RFState) (id : String) (edge : Edge) : Prop :=
  if getOperatorTypeFromId state.nodes id = some .agent then
    ∃ downstream ∈ filterAllDownstreamAgentAndToolNodeIds state.edges [id],
      edge.Touches id ∨ downstream.findSome? (firstEdgeAt state.edges) = some edge
  else edge.Touches id

def groupIds (state : RFState) (id : String) : List String :=
  id :: (state.nodes.filter fun node => node.parentId = some id).map Node.id

def EdgeDeletedWithGroup (state : RFState) (id : String) (edge : Edge) : Prop :=
  edge.Touches id ∨ edge.source = edge.target ∧ edge.source ∈ groupIds state id

def deletedIds (state : RFState) (id : String) : List String :=
  if IsGroup state id then groupIds state id else deletedIdsById state id

section Deletions

variable {state : RFState} (id : String)

theorem deleteNodeById_nodes :
    (deleteNodeById state id).nodes =
      state.nodes.filter fun node => node.id ∉ deletedIdsById state id := by
  unfold deleteNodeById deletedIdsById
  by_cases agent : getOperatorTypeFromId state.nodes id = some .agent
  · simp only [agent, if_true, deleteAgentDownstreamNodesById]
    cases filterAllDownstreamAgentAndToolNodeIds state.edges [id] with
    | none => simp
    | some downstream =>
      simp only [Option.map_some, Option.getD_some, List.mem_cons, not_or]
      apply List.filter_congr
      intro node _
      simp [and_comm]
  · simp [agent]

theorem mem_edges_deleteNodeById {edge : Edge} :
    edge ∈ (deleteNodeById state id).edges ↔
      edge ∈ state.edges ∧ ¬ EdgeDeletedById state id edge := by
  unfold deleteNodeById EdgeDeletedById
  by_cases agent : getOperatorTypeFromId state.nodes id = some .agent
  · simp only [agent, if_true, deleteAgentDownstreamNodesById]
    cases filterAllDownstreamAgentAndToolNodeIds state.edges [id] with
    | none => simp
    | some downstream =>
      simp [mem_relatedEdges_iff, Edge.Touches, and_assoc]
  · simp [agent, Edge.Touches, and_comm]

theorem mem_groupIds (distinct : (state.nodes.map Node.id).Nodup) {node : Node}
    (member : node ∈ state.nodes) :
    node.id ∈ groupIds state id ↔ node.id = id ∨ node.parentId = some id := by
  simp only [groupIds, List.mem_cons, List.mem_map, List.mem_filter, decide_eq_true_eq]
  constructor
  · rintro (isGroup | ⟨other, ⟨otherMember, child⟩, sameId⟩)
    · exact Or.inl isGroup
    · have found := getNode_of_mem distinct otherMember
      rw [sameId, getNode_of_mem distinct member] at found
      obtain rfl := Option.some.inj found
      exact Or.inr child
  · rintro (isGroup | child)
    · exact Or.inl isGroup
    · exact Or.inr ⟨node, ⟨member, child⟩, rfl⟩

theorem deleteIterationNodeById_nodes (distinct : (state.nodes.map Node.id).Nodup) :
    (deleteIterationNodeById state id).nodes =
      state.nodes.filter fun node => node.id ∉ groupIds state id := by
  unfold deleteIterationNodeById
  apply List.filter_congr
  intro node member
  simp [mem_groupIds id distinct member]

theorem mem_edges_deleteIterationNodeById {edge : Edge} :
    edge ∈ (deleteIterationNodeById state id).edges ↔
      edge ∈ state.edges ∧ ¬ EdgeDeletedWithGroup state id edge := by
  have children : (∃ child ∈ state.nodes, child.parentId = some id ∧
      edge.source = child.id ∧ edge.target = child.id) ↔
      edge.source = edge.target ∧ ∃ child ∈ state.nodes, child.parentId = some id ∧
        child.id = edge.source := by
    constructor
    · rintro ⟨child, member, isChild, source, target⟩
      exact ⟨source.trans target.symm, child, member, isChild, source.symm⟩
    · rintro ⟨loop, child, member, isChild, source⟩
      exact ⟨child, member, isChild, source.symm, loop ▸ source.symm⟩
  by_cases touches : edge.Touches id
  · simp only [EdgeDeletedWithGroup, touches, true_or, not_true_eq_false, and_false, iff_false]
    intro kept
    rcases touches with source | target
    · simp [deleteIterationNodeById, source] at kept
    · simp [deleteIterationNodeById, target] at kept
  · have apart : edge.source ≠ id ∧ edge.target ≠ id := not_or.mp touches
    simp only [EdgeDeletedWithGroup, touches, false_or, groupIds, List.mem_cons, apart.1,
      List.mem_map, List.mem_filter, decide_eq_true_eq, and_assoc, ← children]
    simp [deleteIterationNodeById, apart]

theorem deleteNode_nodes (distinct : (state.nodes.map Node.id).Nodup) :
    (deleteNode state id).nodes =
      state.nodes.filter fun node => node.id ∉ deletedIds state id := by
  unfold deleteNode deletedIds
  by_cases group : IsGroup state id
  · rw [if_pos group, if_pos group]
    exact deleteIterationNodeById_nodes id distinct
  · rw [if_neg group, if_neg group]
    exact deleteNodeById_nodes id

theorem getNode_deleteNode (distinct : (state.nodes.map Node.id).Nodup) (other : String) :
    getNode (deleteNode state id).nodes other =
      if other ∈ deletedIds state id then none else getNode state.nodes other := by
  rw [deleteNode_nodes id distinct, getNode, List.find?_filter]
  by_cases gone : other ∈ deletedIds state id
  · rw [if_pos gone, List.find?_eq_none]
    intro node _
    simp only [decide_eq_true_eq, not_and]
    rintro stays rfl
    exact stays gone
  · rw [if_neg gone, getNode]
    congr 1
    funext node
    by_cases here : node.id = other
    · simp [here, gone]
    · simp [here]

theorem mem_edges_deleteNodeById_of_not_mem {edge : Edge} (member : edge ∈ state.edges)
    (source : edge.source ∉ deletedIdsById state id)
    (target : edge.target ∉ deletedIdsById state id) : edge ∈ (deleteNodeById state id).edges := by
  apply (mem_edges_deleteNodeById id).mpr
  refine ⟨member, ?_⟩
  unfold EdgeDeletedById
  unfold deletedIdsById at source target
  by_cases agent : getOperatorTypeFromId state.nodes id = some .agent
  · simp only [agent, if_true] at source target ⊢
    rintro ⟨downstream, found, (rfl | rfl) | collected⟩
    · simp [Option.mem_def.mp found] at source
    · simp [Option.mem_def.mp found] at target
    · simp only [Option.mem_def.mp found, List.mem_cons, not_or] at source target
      obtain ⟨cur, inDownstream, rfl | rfl⟩ :=
        touches_of_mem_relatedEdges (mem_relatedEdges_iff.mpr collected)
      · exact source.2 inDownstream
      · exact target.2 inDownstream
  · simp only [agent, if_false, List.mem_singleton] at source target ⊢
    exact not_or.mpr ⟨source, target⟩

theorem mem_edges_deleteNode {edge : Edge} (member : edge ∈ state.edges)
    (source : edge.source ∉ deletedIds state id) (target : edge.target ∉ deletedIds state id) :
    edge ∈ (deleteNode state id).edges := by
  unfold deleteNode
  unfold deletedIds at source target
  by_cases group : IsGroup state id
  · rw [if_pos group] at source target ⊢
    apply (mem_edges_deleteIterationNodeById id).mpr
    refine ⟨member, ?_⟩
    rintro ((rfl | rfl) | ⟨_, child⟩)
    · simp [groupIds] at source
    · simp [groupIds] at target
    · exact source child
  · rw [if_neg group] at source target ⊢
    exact mem_edges_deleteNodeById_of_not_mem id member source target

theorem deleteNode_edges : ∃ keep : Edge → Bool,
    (deleteNode state id).edges = state.edges.filter keep := by
  unfold deleteNode
  by_cases group : IsGroup state id
  · rw [if_pos group]
    exact ⟨_, rfl⟩
  · rw [if_neg group]
    unfold deleteNodeById deleteAgentDownstreamNodesById
    by_cases agent : getOperatorTypeFromId state.nodes id = some .agent
    · simp only [agent, if_true]
      cases filterAllDownstreamAgentAndToolNodeIds state.edges [id] with
      | none => exact ⟨fun _ => true, by simp⟩
      | some downstream => exact ⟨_, rfl⟩
    · simp only [agent, if_false, List.filter_filter]
      exact ⟨_, rfl⟩

end Deletions

end RagFlow.Editor
