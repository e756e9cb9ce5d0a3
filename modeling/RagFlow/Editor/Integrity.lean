import Mathlib
import RagFlow.Lib.Runs
import RagFlow.Editor.Shapes

/-!
# Integrity of the editor's graph

Which histories of additions, connections, copies and deletions keep the graph whole, from the
graph with only Begin, and what survives a deletion.
-/

namespace RagFlow.Editor.Integrity

open RagFlow.Lib Relation

inductive Move where
  | addCanvasNode (operatorType : Operator) (source : Option String) (position : Position)
      (sourceHandle : Option Handle) (word name : String) (shared : Bool)
  | connect (connection : Edge)
  | duplicateNode (id : String) (word name : Nat → String)
  | deleteEdgeById (id : Edge)
  | deleteNode (id : String)
  | deleteAgentToolNodeById (id : String)

def beginGraph : RFState where
  nodes :=
    [{ id := "begin", label := .begin, parentId := none, name := "begin",
       form := initialForm .begin }]
  edges := []

def step (templates : GroupStartNodeMap) (state : RFState) : Move → RFState
  | .addCanvasNode operatorType source position sourceHandle word name shared =>
    addCanvasNode templates state operatorType source position sourceHandle word name shared
  | .connect connection => addEdge state connection
  | .duplicateNode id word name => duplicateNode state id word name
  | .deleteEdgeById id => Editor.deleteEdgeById state id
  | .deleteNode id => Editor.deleteNode state id
  | .deleteAgentToolNodeById id => Editor.deleteAgentToolNodeById state id

def shapes (state : RFState) : List Shape := state.nodes.map Node.shape

def children (state : RFState) (id : String) : List Node :=
  state.nodes.filter fun child => child.parentId = some id

def newIds (state : RFState) : Move → List String
  | .addCanvasNode operatorType _ _ _ word _ _ => [nodeId operatorType word]
  | .duplicateNode id word _ =>
    match getNode state.nodes id with
    | none => []
    | some node =>
      if node.label = .iteration then
        nodeId node.label (word 0) :: (children state node.id).mapIdx
          fun index child => nodeId child.label (word (index + 1))
      else [nodeId node.label (word 0)]
  | _ => []

/-- Generated words are fresh, and moves are about nodes that exist. -/
def Possible (templates : GroupStartNodeMap) (state : RFState) (move : Move) : Prop :=
  (newIds state move ++ [templates.iterationStartId, templates.loopStartId]).Nodup ∧
  (∀ id ∈ newIds state move, id ∉ ids (shapes state)) ∧
  match move with
  | .addCanvasNode _ source _ _ _ _ _ => ∀ id ∈ source, id ∈ ids (shapes state)
  | .connect connection =>
    connection.source ∈ ids (shapes state) ∧ connection.target ∈ ids (shapes state)
  | .duplicateNode id _ _ => id ∈ ids (shapes state)
  | _ => True

def startId (templates : GroupStartNodeMap) (operatorType : Operator) : String :=
  if operatorType = .iteration then templates.iterationStartId else templates.loopStartId

def StartsNoGroup (state : RFState) (label : Operator) (parentId : Option String) : Prop :=
  label.isStart → ∀ group ∈ shapes state, group.label.isGroup → parentId ≠ some group.id

/-- Every edge at a removed node goes with it, and so do its children, and the group of a removed
start node. -/
structure LeavesNothing (state : RFState) (gone : List String) (edgeGone : Edge → Prop) :
    Prop where
  edges_go : ∀ edge ∈ state.edges, edge.source ∈ gone ∨ edge.target ∈ gone → edgeGone edge
  children_go : ∀ shape ∈ shapes state, shape.id ∉ gone → ∀ parent ∈ shape.parentId, parent ∉ gone
  groups_go : ∀ shape ∈ shapes state, shape.id ∈ gone → ∀ group ∈ shapes state,
    group.label.isGroup → shape.isStartOf group.id → group.id ∈ gone

def toolEdge (state : RFState) (id : String) : Option Edge :=
  state.edges.find? fun edge => edge.source = id ∧ edge.sourceHandle = some .tool

def Keeps (templates : GroupStartNodeMap) (state : RFState) : Move → Prop
  | .addCanvasNode operatorType source _ _ _ _ _ =>
    if operatorType.isGroup then startId templates operatorType ∉ ids (shapes state)
    else StartsNoGroup state operatorType
      ((source.bind fun id => getNode state.nodes id).bind Node.parentId)
  | .connect _ => True
  | .duplicateNode id _ _ =>
    ∀ node ∈ getNode state.nodes id,
      if node.label = .iteration then ∀ child ∈ children state id, ¬ child.label.isGroup
      else node.label ≠ .loop ∧ StartsNoGroup state node.label node.parentId
  | .deleteEdgeById _ => True
  | .deleteNode id =>
    if IsGroup state id then
      LeavesNothing state (groupIds state id) (EdgeDeletedWithGroup state id)
    else LeavesNothing state (deletedIdsById state id) (EdgeDeletedById state id)
  | .deleteAgentToolNodeById id =>
    ∀ edge ∈ toolEdge state id,
      let without := Editor.deleteEdgeById state edge
      LeavesNothing without (deletedIdsById without edge.target)
        (EdgeDeletedById without edge.target)

section Shapes

variable {state : RFState}

@[simp] theorem ids_shapes : ids (shapes state) = state.nodes.map Node.id := by
  simp only [ids, shapes, List.map_map]
  rfl

theorem shapes_updateNodeForm {nodes : List Node} {id : String} {change : Form → Form} :
    (updateNodeForm nodes id change).map Node.shape = nodes.map Node.shape := by
  simp only [updateNodeForm, List.map_map]
  congr 1
  funext node
  by_cases changed : node.id = id <;> simp [changed, Node.shape]

theorem shapes_updateSwitchFormData {source target : String} {sourceHandle : Option Handle}
    {isConnecting : Bool} :
    (updateSwitchFormData state source sourceHandle target isConnecting).map Node.shape =
      state.nodes.map Node.shape := by
  unfold updateSwitchFormData
  cases sourceHandle with
  | none => rfl
  | some handle =>
    by_cases isElse : handle = .switchElseTo
    · simp [isElse, shapes_updateNodeForm]
    · simp only [isElse, if_false]
      split <;> simp [shapes_updateNodeForm]

@[simp] theorem shapes_addEdge {connection : Edge} :
    shapes (addEdge state connection) = shapes state := by
  simp only [addEdge, shapes]
  split <;> simp [shapes_updateSwitchFormData]

@[simp] theorem edges_addEdge {connection : Edge} :
    (addEdge state connection).edges = appendEdge state.edges connection := by
  simp only [addEdge]
  split <;> rfl

@[simp] theorem shapes_deleteEdgeById {edge : Edge} :
    shapes (deleteEdgeById state edge) = shapes state := by
  simp only [deleteEdgeById, shapes]
  split <;> simp [shapes_updateSwitchFormData]

@[simp] theorem shapes_addNode {node : Node} :
    shapes (addNode state node) = shapes state ++ [node.shape] := by
  simp [shapes, addNode]

@[simp] theorem edges_addNode {node : Node} : (addNode state node).edges = state.edges := rfl

theorem whole_addEdge_iff {connection : Edge} (source : connection.source ∈ ids (shapes state))
    (target : connection.target ∈ ids (shapes state)) :
    Whole (shapes (addEdge state connection)) (addEdge state connection).edges ↔
      Whole (shapes state) state.edges := by
  rw [shapes_addEdge, edges_addEdge]
  constructor
  · intro whole
    apply whole.of_edges_subset
    unfold appendEdge
    by_cases present : connection ∈ state.edges
    · simp [present]
    · simp [present]
  · exact fun whole => whole.appendEdge source target

theorem whole_connectFrom_iff {source : Option String} {target : String}
    {sourceHandle targetHandle : Handle} (sourceExists : ∀ id ∈ source, id ∈ ids (shapes state))
    (targetExists : target ∈ ids (shapes state)) :
    Whole (shapes (connectFrom state source target sourceHandle targetHandle))
        (connectFrom state source target sourceHandle targetHandle).edges ↔
      Whole (shapes state) state.edges := by
  cases source with
  | none => rfl
  | some source => exact whole_addEdge_iff (sourceExists source rfl) targetExists

end Shapes

section Adding

variable {templates : GroupStartNodeMap} {state : RFState}

theorem parent_exists (whole : Whole (shapes state) state.edges) {node : Node}
    (member : node ∈ state.nodes) {parent : String} (isParent : node.parentId = some parent) :
    parent ∈ ids (shapes state) :=
  whole.parents_exist node.shape (List.mem_map_of_mem member) parent isParent

theorem parent_of_source_exists (whole : Whole (shapes state) state.edges)
    {source : Option String} {parent : String}
    (isParent : (source.bind fun id => getNode state.nodes id).bind Node.parentId = some parent) :
    parent ∈ ids (shapes state) := by
  simp only [Option.bind_eq_some_iff] at isParent
  obtain ⟨node, ⟨id, _, found⟩, isParent⟩ := isParent
  exact parent_exists whole (mem_of_getNode found).1 isParent

theorem whole_addNode_iff (whole : Whole (shapes state) state.edges) {node : Node}
    (fresh : node.id ∉ ids (shapes state))
    (parent : ∀ id ∈ node.parentId, id ∈ ids (shapes state)) :
    Whole (shapes (addNode state node)) (addNode state node).edges ↔
      ¬ node.label.isGroup ∧ StartsNoGroup state node.label node.parentId := by
  rw [shapes_addNode, edges_addNode, whole_append_singleton_iff whole fresh parent]
  apply and_congr_right
  intro _
  simp only [StartsNoGroup, Shape.isStartOf_iff, not_and]
  constructor
  · exact fun none_starts isStart group member isGroup => none_starts group member isGroup isStart
  · exact fun none_starts group member isGroup isStart => none_starts isStart group member isGroup

theorem startNode_shape (operatorType : Operator) (parentId : String) :
    (templates.startNode operatorType parentId).shape =
      { id := startId templates operatorType
        label := if operatorType = .iteration then .iterationStart else .loopStart
        parentId := some parentId } := by
  unfold GroupStartNodeMap.startNode startId
  by_cases iteration : operatorType = .iteration <;> simp [iteration, Node.shape]

theorem whole_addGroupNode_iff (whole : Whole (shapes state) state.edges) {operatorType : Operator}
    {newNode : Node} {source : Option String} {shared : Bool}
    (isGroup : newNode.label.isGroup) (fresh : newNode.id ∉ ids (shapes state))
    (different : newNode.id ≠ startId templates operatorType)
    (parent : ∀ id ∈ newNode.parentId, id ∈ ids (shapes state))
    (sourceExists : ∀ id ∈ source, id ∈ ids (shapes state)) :
    Whole (shapes (addGroupNode templates state operatorType newNode source shared))
        (addGroupNode templates state operatorType newNode source shared).edges ↔
      startId templates operatorType ∉ ids (shapes state) := by
  have startIs := @startNode_shape templates operatorType newNode.id
  have startIdIs : (templates.startNode operatorType newNode.id).id =
      startId templates operatorType := congrArg Shape.id startIs
  set moved := state.nodes.map fun node =>
    if shared ∧ node.id = (templates.startNode operatorType newNode.id).id then
      { node with parentId := some newNode.id } else node with isMoved
  have movedIds : moved.map Node.id = state.nodes.map Node.id := by
    rw [isMoved, List.map_map]
    congr 1
    funext node
    simp only [Function.comp]
    split <;> rfl
  have connected := @whole_connectFrom_iff
    (addNode (addNode { state with nodes := moved } newNode)
      (templates.startNode operatorType newNode.id))
    source newNode.id .start .target ?_ ?_
  · apply connected.trans
    rw [shapes_addNode, shapes_addNode, List.append_assoc, List.singleton_append]
    constructor
    · intro after taken
      have distinct := after.distinct
      rw [ids_append] at distinct
      apply List.disjoint_of_nodup_append distinct (a := startId templates operatorType)
      · rw [ids_shapes, movedIds, ← ids_shapes]
        exact taken
      · simp [ids, startIs]
    · intro free
      have unmoved : moved = state.nodes := by
        rw [isMoved]
        apply (List.map_congr_left fun node member => ?_).trans (List.map_id _)
        have other : node.id ≠ (templates.startNode operatorType newNode.id).id := by
          intro same
          rw [startIdIs] at same
          exact free (by simpa [← same] using ⟨node, member, rfl⟩)
        simp [other]
      rw [unmoved]
      apply whole_append_group whole fresh _ _ isGroup _ _ parent
      · rw [startIs]
        exact free
      · rw [startIs]
        exact different
      · rw [startIs]
        by_cases iteration : operatorType = .iteration <;> simp [iteration, Operator.isStart]
      · rw [startIs]
        rfl
  · intro id isSource
    have exists_source := sourceExists id isSource
    rw [ids_shapes] at exists_source
    simp [shapes_addNode, ids_append, ids_shapes, movedIds, exists_source]
  · simp [shapes_addNode, ids, Node.shape]

theorem whole_addCanvasNode_iff {operatorType : Operator} {source : Option String}
    {position : Position} {sourceHandle : Option Handle} {word name : String} {shared : Bool}
    (possible : Possible templates state
      (.addCanvasNode operatorType source position sourceHandle word name shared))
    (whole : Whole (shapes state) state.edges) :
    Whole (shapes (step templates state
          (.addCanvasNode operatorType source position sourceHandle word name shared)))
        (step templates state
          (.addCanvasNode operatorType source position sourceHandle word name shared)).edges ↔
      Keeps templates state
        (.addCanvasNode operatorType source position sourceHandle word name shared) := by
  obtain ⟨distinct, fresh, sourceExists⟩ := possible
  simp only [newIds, List.singleton_append, List.nodup_cons, List.mem_cons, not_or] at distinct
  have fresh : nodeId operatorType word ∉ ids (shapes state) :=
    fresh _ (List.mem_singleton_self _)
  set newNode : Node :=
    { id := nodeId operatorType word
      label := operatorType
      parentId := (source.bind fun id => getNode state.nodes id).bind Node.parentId
      name := name
      form := initialForm operatorType } with isNew
  have parent : ∀ id ∈ newNode.parentId, id ∈ ids (shapes state) :=
    fun id isParent => parent_of_source_exists whole isParent
  have added : Whole (shapes (addNode state newNode)) (addNode state newNode).edges ↔
      ¬ operatorType.isGroup ∧ StartsNoGroup state operatorType newNode.parentId :=
    whole_addNode_iff whole fresh parent
  have sourceStays : ∀ id ∈ source, id ∈ ids (shapes (addNode state newNode)) := by
    intro id isSource
    rw [shapes_addNode, ids_append]
    exact List.mem_append_left _ (sourceExists id isSource)
  have newExists : newNode.id ∈ ids (shapes (addNode state newNode)) := by
    simp [shapes_addNode, ids, Node.shape]
  simp only [step, addCanvasNode, Keeps]
  by_cases group : operatorType = .iteration ∨ operatorType = .loop
  · have isGroup : operatorType.isGroup := by simpa [Operator.isGroup] using group
    have different : newNode.id ≠ startId templates operatorType := by
      unfold startId
      by_cases iteration : operatorType = .iteration
      · rw [if_pos iteration]
        exact distinct.1.1
      · rw [if_neg iteration]
        exact distinct.1.2.1
    rw [if_pos group, if_pos isGroup]
    exact whole_addGroupNode_iff whole isGroup fresh different parent sourceExists
  · have noGroup : ¬ operatorType.isGroup := by simpa [Operator.isGroup] using group
    rw [if_neg group, if_neg noGroup]
    by_cases subAgent : operatorType = .agent ∧ position = .bottom
    · rw [if_pos subAgent, whole_connectFrom_iff sourceStays newExists, added]
      exact and_iff_right noGroup
    · rw [if_neg subAgent]
      by_cases tool : operatorType = .tool
      · have startsNone : StartsNoGroup state operatorType newNode.parentId := by
          simp [StartsNoGroup, tool, Operator.isStart]
        rw [if_pos tool]
        refine iff_of_true ?_ startsNone
        unfold addToolNode
        split
        · exact whole
        · dsimp only
          split
          · exact whole
          · exact (whole_connectFrom_iff sourceStays newExists).mpr
              (added.mpr ⟨noGroup, startsNone⟩)
      · rw [if_neg tool]
        unfold addChildEdge
        split
        · split
          · rw [whole_connectFrom_iff sourceStays newExists, added]
            exact and_iff_right noGroup
          · rw [added]
            exact and_iff_right noGroup
        · rw [added]
          exact and_iff_right noGroup

def copyOf (node : Node) (word : Nat → String) : Shape where
  id := nodeId node.label (word 0)
  label := node.label
  parentId := node.parentId

/-- The copies that `duplicateIterationNode` makes of an Iteration's children. -/
def copies (state : RFState) (node : Node) (word : Nat → String) : List Shape :=
  (children state node.id).mapIdx fun index child =>
    { id := nodeId child.label (word (index + 1))
      label := child.label
      parentId := some (nodeId node.label (word 0)) }

theorem shapes_duplicateIterationNode {node : Node} {word name : Nat → String} :
    shapes (duplicateIterationNode state node word name) =
      shapes state ++ copyOf node word :: copies state node word := by
  simp only [duplicateIterationNode, shapes, copies, children, List.map_append, List.map_cons,
    List.mapIdx_eq_zipIdx_map, List.map_map]
  rfl

theorem mem_copies {node : Node} {word : Nat → String} {shape : Shape}
    (member : shape ∈ copies state node word) :
    shape.parentId = some (nodeId node.label (word 0)) ∧
      ∃ child ∈ children state node.id, child.label = shape.label := by
  obtain ⟨index, inside, rfl⟩ := List.mem_mapIdx.mp member
  exact ⟨rfl, _, List.getElem_mem inside, rfl⟩

theorem exists_copy {node child : Node} {word : Nat → String}
    (member : child ∈ children state node.id) :
    ∃ shape ∈ copies state node word, shape.label = child.label := by
  obtain ⟨index, inside, rfl⟩ := List.getElem_of_mem member
  exact ⟨_, List.mem_mapIdx.mpr ⟨index, inside, rfl⟩, rfl⟩

theorem countP_copies {node : Node} {word : Nat → String} :
    (copies state node word).countP
        (fun shape => shape.isStartOf (nodeId node.label (word 0))) =
      (shapes state).countP fun shape => shape.isStartOf node.id := by
  have copied : (copies state node word).countP
      (fun shape => shape.isStartOf (nodeId node.label (word 0))) =
        (children state node.id).countP fun child => child.label.isStart := by
    unfold copies
    rw [List.mapIdx_eq_zipIdx_map, List.countP_map]
    conv_rhs => rw [← List.zipIdx_map_fst 0 (children state node.id), List.countP_map]
    congr 1
    funext child
    simp [Shape.isStartOf]
  have original : (shapes state).countP (fun shape => shape.isStartOf node.id) =
      (children state node.id).countP fun child => child.label.isStart := by
    simp only [shapes, children, List.countP_map, List.countP_filter]
    congr 1
    funext child
    by_cases isChild : child.parentId = some node.id <;>
      simp [Shape.isStartOf, Node.shape, isChild]
  rw [copied, original]

theorem whole_duplicateIterationNode_iff (whole : Whole (shapes state) state.edges) {node : Node}
    {word name : Nat → String} (member : node ∈ state.nodes) (iteration : node.label = .iteration)
    (distinct : (nodeId node.label (word 0) :: ids (copies state node word)).Nodup)
    (fresh : ∀ id ∈ nodeId node.label (word 0) :: ids (copies state node word),
      id ∉ ids (shapes state)) :
    Whole (shapes (duplicateIterationNode state node word name))
        (duplicateIterationNode state node word name).edges ↔
      ∀ child ∈ children state node.id, ¬ child.label.isGroup := by
  have isGroup : node.label.isGroup := by simp [iteration, Operator.isGroup]
  have noStart : node.label.isStart = false := by simp [iteration, Operator.isStart]
  have newFresh := fresh _ (List.mem_cons_self ..)
  rw [shapes_duplicateIterationNode]
  refine (whole_append_iff whole ?_ ?_).trans ?_
  · rw [ids_append]
    apply List.Nodup.append whole.distinct distinct
    intro id old new
    exact fresh id new old
  · intro shape isNew parent isParent
    rw [ids_append]
    rcases List.mem_cons.mp isNew with rfl | isCopy
    · exact List.mem_append_left _ (parent_exists whole member isParent)
    · obtain rfl : nodeId node.label (word 0) = parent :=
        Option.some.inj ((mem_copies isCopy).1.symm.trans isParent)
      exact List.mem_append_right _ (List.mem_cons_self ..)
  · constructor
    · rintro ⟨_, starts⟩ child isChild childGroup
      obtain ⟨copy, isCopy, sameLabel⟩ := @exists_copy state node child word isChild
      have count := starts copy (List.mem_cons_of_mem _ isCopy) (sameLabel ▸ childGroup)
      have none_start : (copyOf node word :: copies state node word).countP
          (fun shape => shape.isStartOf copy.id) = 0 := by
        apply List.countP_eq_zero.mpr
        intro shape isNew start
        rw [Shape.isStartOf_iff] at start
        rcases List.mem_cons.mp isNew with rfl | other
        · simp [copyOf, noStart] at start
        · have same := Option.some.inj ((mem_copies other).1.symm.trans start.2)
          exact (List.nodup_cons.mp distinct).1 (same ▸ mem_ids_of_mem isCopy)
      rw [none_start] at count
      contradiction
    · intro noGroups
      refine ⟨fun group old _ shape isNew start => ?_, fun group isNew isGroup => ?_⟩
      · rw [Shape.isStartOf_iff] at start
        rcases List.mem_cons.mp isNew with rfl | isCopy
        · simp [copyOf, noStart] at start
        · have same := Option.some.inj ((mem_copies isCopy).1.symm.trans start.2)
          exact newFresh (same ▸ mem_ids_of_mem old)
      · rcases List.mem_cons.mp isNew with rfl | isCopy
        · rw [List.countP_cons_of_neg]
          · exact countP_copies.trans
              (whole.one_start node.shape (List.mem_map_of_mem member) isGroup)
          · simp [Shape.isStartOf, copyOf, noStart]
        · obtain ⟨_, child, isChild, sameLabel⟩ := mem_copies isCopy
          exact absurd (sameLabel ▸ isGroup) (noGroups child isChild)

theorem whole_duplicateNode_iff {id : String} {word name : Nat → String}
    (possible : Possible templates state (.duplicateNode id word name))
    (whole : Whole (shapes state) state.edges) :
    Whole (shapes (step templates state (.duplicateNode id word name)))
        (step templates state (.duplicateNode id word name)).edges ↔
      Keeps templates state (.duplicateNode id word name) := by
  obtain ⟨distinct, fresh, known⟩ := possible
  rw [ids_shapes] at known
  obtain ⟨node, found⟩ := Option.isSome_iff_exists.mp (getNode_isSome_iff.mpr known)
  obtain ⟨member, rfl⟩ := mem_of_getNode found
  have distinct := (List.nodup_append.mp distinct).1
  simp only [newIds, found] at distinct fresh
  simp only [step, duplicateNode, Keeps, found, Option.mem_def, Option.some.injEq, forall_eq']
  by_cases iteration : node.label = .iteration
  · rw [if_pos iteration, if_pos iteration]
    have copyIds : ids (copies state node word) = (children state node.id).mapIdx
        fun index child => nodeId child.label (word (index + 1)) := by
      simp only [ids, copies, List.mapIdx_eq_zipIdx_map, List.map_map]
      rfl
    rw [if_pos iteration, ← copyIds] at distinct fresh
    exact whole_duplicateIterationNode_iff whole member iteration distinct fresh
  · rw [if_neg iteration, if_neg iteration]
    rw [if_neg iteration] at fresh
    have noGroup : ¬ node.label.isGroup ↔ node.label ≠ .loop := by
      simp [Operator.isGroup, iteration]
    rw [← noGroup]
    exact whole_addNode_iff whole (fresh _ (List.mem_singleton_self _))
      fun parent isParent => parent_exists whole member isParent

end Adding

section Deleting

variable {templates : GroupStartNodeMap} {state : RFState}

theorem shapes_filter {nodes : List Node} {gone : List String} :
    (nodes.filter fun node => node.id ∉ gone).map Node.shape =
      (nodes.map Node.shape).filter fun shape => shape.id ∉ gone := by
  rw [List.filter_map]
  rfl

theorem leavesNothing_iff (whole : Whole (shapes state) state.edges) {gone : List String}
    {edgeGone : Edge → Prop} {kept : List Edge}
    (mem_kept : ∀ edge, edge ∈ kept ↔ edge ∈ state.edges ∧ ¬ edgeGone edge) :
    Whole ((shapes state).filter fun shape => shape.id ∉ gone) kept ↔
      LeavesNothing state gone edgeGone :=
  (whole_filter_iff whole gone mem_kept).trans
    ⟨fun ⟨edges, children, groups⟩ => ⟨edges, children, groups⟩,
      fun leaves => ⟨leaves.edges_go, leaves.children_go, leaves.groups_go⟩⟩

theorem whole_deleteNodeById_iff (whole : Whole (shapes state) state.edges) (id : String) :
    Whole (shapes (deleteNodeById state id)) (deleteNodeById state id).edges ↔
      LeavesNothing state (deletedIdsById state id) (EdgeDeletedById state id) := by
  have kept : shapes (deleteNodeById state id) =
      (shapes state).filter fun shape => shape.id ∉ deletedIdsById state id := by
    rw [shapes, deleteNodeById_nodes, shapes_filter]
    rfl
  rw [kept]
  exact leavesNothing_iff whole fun edge => mem_edges_deleteNodeById id

theorem whole_deleteIterationNodeById_iff (whole : Whole (shapes state) state.edges)
    (id : String) :
    Whole (shapes (deleteIterationNodeById state id)) (deleteIterationNodeById state id).edges ↔
      LeavesNothing state (groupIds state id) (EdgeDeletedWithGroup state id) := by
  have distinct := whole.distinct
  rw [ids_shapes] at distinct
  have kept : shapes (deleteIterationNodeById state id) =
      (shapes state).filter fun shape => shape.id ∉ groupIds state id := by
    rw [shapes, deleteIterationNodeById_nodes id distinct, shapes_filter]
    rfl
  rw [kept]
  exact leavesNothing_iff whole fun edge => mem_edges_deleteIterationNodeById id

theorem whole_deleteNode_iff (whole : Whole (shapes state) state.edges) (id : String) :
    Whole (shapes (Editor.deleteNode state id)) (Editor.deleteNode state id).edges ↔
      Keeps templates state (.deleteNode id) := by
  simp only [Editor.deleteNode, Keeps]
  by_cases group : IsGroup state id
  · rw [if_pos group, if_pos group]
    exact whole_deleteIterationNodeById_iff whole id
  · rw [if_neg group, if_neg group]
    exact whole_deleteNodeById_iff whole id

theorem whole_deleteEdgeById (whole : Whole (shapes state) state.edges) (edge : Edge) :
    Whole (shapes (Editor.deleteEdgeById state edge)) (Editor.deleteEdgeById state edge).edges := by
  rw [shapes_deleteEdgeById]
  apply whole.of_edges_subset
  intro other member
  exact (List.mem_filter.mp member).1

theorem deleteAgentToolNodeById_of_none {id : String} (found : toolEdge state id = none) :
    Editor.deleteAgentToolNodeById state id = state := by
  unfold Editor.deleteAgentToolNodeById
  unfold toolEdge at found
  rw [found]

theorem deleteAgentToolNodeById_of_some {id : String} {edge : Edge}
    (found : toolEdge state id = some edge) :
    Editor.deleteAgentToolNodeById state id =
      deleteNodeById (Editor.deleteEdgeById state edge) edge.target := by
  unfold Editor.deleteAgentToolNodeById
  unfold toolEdge at found
  rw [found]

theorem whole_deleteAgentToolNodeById_iff (whole : Whole (shapes state) state.edges)
    (id : String) :
    Whole (shapes (Editor.deleteAgentToolNodeById state id))
        (Editor.deleteAgentToolNodeById state id).edges ↔
      Keeps templates state (.deleteAgentToolNodeById id) := by
  cases found : toolEdge state id with
  | none =>
    simp only [deleteAgentToolNodeById_of_none found, Keeps, found]
    exact iff_of_true whole (by simp)
  | some edge =>
    simp only [deleteAgentToolNodeById_of_some found, Keeps, found, Option.mem_def,
      Option.some.injEq, forall_eq']
    exact whole_deleteNodeById_iff (whole_deleteEdgeById whole edge) edge.target

theorem whole_step_iff {move : Move} (possible : Possible templates state move)
    (whole : Whole (shapes state) state.edges) :
    Whole (shapes (step templates state move)) (step templates state move).edges ↔
      Keeps templates state move := by
  cases move with
  | addCanvasNode operatorType source position sourceHandle word name shared =>
    exact whole_addCanvasNode_iff possible whole
  | connect connection =>
    obtain ⟨source, target⟩ := possible.2.2
    exact (whole_addEdge_iff source target).trans (iff_true_intro whole)
  | duplicateNode id word name => exact whole_duplicateNode_iff possible whole
  | deleteEdgeById edge => exact iff_true_intro (whole_deleteEdgeById whole edge)
  | deleteNode id => exact whole_deleteNode_iff whole id
  | deleteAgentToolNodeById id => exact whole_deleteAgentToolNodeById_iff whole id

end Deleting

def Belongs (state : RFState) (id other : String) : Prop :=
  other = id ∨ (∃ child ∈ children state id, child.id = other) ∨
    TransGen (fun x y => (x, y) ∈ links state.edges Edge.isSubAgentOrTool) id other

/-- What belongs to the node that a move deletes. -/
def Doomed (state : RFState) (move : Move) (other : String) : Prop :=
  match move with
  | .deleteNode id => Belongs state id other
  | .deleteAgentToolNodeById id =>
    ∃ edge ∈ toolEdge state id, Belongs state edge.target other
  | _ => False

def Move.IsDeletion : Move → Prop
  | .deleteEdgeById _ | .deleteNode _ | .deleteAgentToolNodeById _ => True
  | _ => False

structure Survives (templates : GroupStartNodeMap) (state : RFState) (move : Move) : Prop where
  nodes_survive : ∀ shape ∈ shapes state, ¬ Doomed state move shape.id →
    shape ∈ shapes (step templates state move)
  edges_survive : ∀ edge ∈ state.edges, ¬ Doomed state move edge.source →
    ¬ Doomed state move edge.target → move ≠ .deleteEdgeById edge →
    edge ∈ (step templates state move).edges

section Survival

variable {templates : GroupStartNodeMap} {state : RFState} {id other : String}

theorem belongs_of_mem_deletedIdsById (deleted : other ∈ deletedIdsById state id) :
    Belongs state id other := by
  unfold deletedIdsById at deleted
  by_cases agent : getOperatorTypeFromId state.nodes id = some .agent
  · rw [if_pos agent] at deleted
    cases collected : filterAllDownstreamAgentAndToolNodeIds state.edges [id] with
    | none => simp [collected] at deleted
    | some downstream =>
      simp only [collected, List.mem_cons] at deleted
      rcases deleted with same | below
      · exact Or.inl same
      · obtain ⟨start, isStart, reached⟩ := (mem_filterAllDownstreamNodeIds collected).mp below
        obtain rfl := List.mem_singleton.mp isStart
        exact Or.inr (Or.inr reached)
  · rw [if_neg agent] at deleted
    exact Or.inl (List.mem_singleton.mp deleted)

theorem belongs_of_mem_deletedIds (deleted : other ∈ deletedIds state id) :
    Belongs state id other := by
  unfold deletedIds at deleted
  by_cases group : IsGroup state id
  · rw [if_pos group] at deleted
    rcases List.mem_cons.mp deleted with same | child
    · exact Or.inl same
    · exact Or.inr (Or.inl (List.mem_map.mp child))
  · rw [if_neg group] at deleted
    exact belongs_of_mem_deletedIdsById deleted

theorem belongs_of_deleteEdgeById {edge : Edge}
    (belongs : Belongs (Editor.deleteEdgeById state edge) id other) : Belongs state id other := by
  rcases belongs with same | ⟨child, isChild, sameId⟩ | below
  · exact Or.inl same
  · have member : child.shape ∈ shapes (Editor.deleteEdgeById state edge) :=
      List.mem_map_of_mem (List.mem_filter.mp isChild).1
    rw [shapes_deleteEdgeById] at member
    obtain ⟨original, originalMember, sameShape⟩ := List.mem_map.mp member
    have parent := (List.mem_filter.mp isChild).2
    refine Or.inr (Or.inl ⟨original, List.mem_filter.mpr ⟨originalMember, ?_⟩, ?_⟩)
    · rwa [show original.parentId = child.parentId from congrArg Shape.parentId sameShape]
    · exact (congrArg Shape.id sameShape).trans sameId
  · refine Or.inr (Or.inr (TransGen.mono (fun x y link => ?_) _ _ below))
    simp only [links, List.mem_map, List.mem_filter] at link ⊢
    obtain ⟨follows, ⟨member, isSubAgentOrTool⟩, ends⟩ := link
    exact ⟨follows, ⟨(List.mem_filter.mp member).1, isSubAgentOrTool⟩, ends⟩

theorem mem_shapes_deleteNodeById {shape : Shape} (member : shape ∈ shapes state)
    (stays : ¬ Belongs state id shape.id) : shape ∈ shapes (deleteNodeById state id) := by
  obtain ⟨node, nodeMember, rfl⟩ := List.mem_map.mp member
  apply List.mem_map_of_mem
  rw [deleteNodeById_nodes]
  apply List.mem_filter.mpr
  refine ⟨nodeMember, ?_⟩
  have kept : node.id ∉ deletedIdsById state id := mt belongs_of_mem_deletedIdsById stays
  simpa using kept

theorem mem_shapes_deleteNode {shape : Shape} (member : shape ∈ shapes state)
    (stays : ¬ Belongs state id shape.id) : shape ∈ shapes (Editor.deleteNode state id) := by
  unfold Editor.deleteNode
  by_cases group : IsGroup state id
  · rw [if_pos group]
    obtain ⟨node, nodeMember, rfl⟩ := List.mem_map.mp member
    apply List.mem_map_of_mem
    apply List.mem_filter.mpr
    refine ⟨nodeMember, ?_⟩
    have notItself : node.id ≠ id := fun same => stays (Or.inl same)
    have noChild : node.parentId ≠ some id := by
      intro isChild
      exact stays (Or.inr (Or.inl ⟨node, List.mem_filter.mpr ⟨nodeMember, by simpa⟩, rfl⟩))
    simp [notItself, noChild]
  · rw [if_neg group]
    exact mem_shapes_deleteNodeById member stays

theorem mem_edges_of_deleteNodeById {edge : Edge} (member : edge ∈ state.edges)
    (source : ¬ Belongs state id edge.source) (target : ¬ Belongs state id edge.target) :
    edge ∈ (deleteNodeById state id).edges := by
  apply mem_edges_deleteNodeById_of_not_mem id member
  · exact mt belongs_of_mem_deletedIdsById source
  · exact mt belongs_of_mem_deletedIdsById target

theorem survives (move : Move) (deletion : move.IsDeletion) : Survives templates state move := by
  cases move with
  | deleteEdgeById edge =>
    constructor
    · intro shape member _
      rw [step, shapes_deleteEdgeById]
      exact member
    · intro other member _ _ different
      apply List.mem_filter.mpr
      refine ⟨member, ?_⟩
      have apart : other ≠ edge := fun same => different (congrArg _ same.symm)
      simpa using apart
  | deleteNode id =>
    constructor
    · exact fun shape member stays => mem_shapes_deleteNode member stays
    · intro edge member source target _
      apply mem_edges_deleteNode id member
      · exact mt belongs_of_mem_deletedIds source
      · exact mt belongs_of_mem_deletedIds target
  | deleteAgentToolNodeById id =>
    cases found : toolEdge state id with
    | none =>
      constructor
      · intro shape member _
        rw [step, deleteAgentToolNodeById_of_none found]
        exact member
      · intro edge member _ _ _
        rw [step, deleteAgentToolNodeById_of_none found]
        exact member
    | some toTool =>
      have doomed : ∀ {other}, ¬ Doomed state (.deleteAgentToolNodeById id) other →
          ¬ Belongs (Editor.deleteEdgeById state toTool) toTool.target other :=
        fun stays belongs => stays ⟨toTool, found, belongs_of_deleteEdgeById belongs⟩
      constructor
      · intro shape member stays
        rw [step, deleteAgentToolNodeById_of_some found]
        apply mem_shapes_deleteNodeById _ (doomed stays)
        rwa [shapes_deleteEdgeById]
      · intro edge member source target _
        rw [step, deleteAgentToolNodeById_of_some found]
        apply mem_edges_of_deleteNodeById _ (doomed source) (doomed target)
        apply List.mem_filter.mpr
        refine ⟨member, ?_⟩
        have apart : edge ≠ toTool := by
          rintro rfl
          exact target ⟨edge, found, Or.inl rfl⟩
        simpa using apart
  | addCanvasNode => exact deletion.elim
  | connect => exact deletion.elim
  | duplicateNode => exact deletion.elim

end Survival

section Histories

variable {templates : GroupStartNodeMap} {moves : List Move}

theorem whole_beginGraph : Whole (shapes beginGraph) beginGraph.edges := by
  constructor <;> simp [beginGraph, shapes, ids, Node.shape, Operator.isGroup]

/-- The graph is whole after every step, and deletions remove no more than they should. -/
def Intact (templates : GroupStartNodeMap) (moves : List Move) : Prop :=
  (∀ before, before <+: moves →
    Whole (shapes (Runs.run (step templates) beginGraph before))
      (Runs.run (step templates) beginGraph before).edges) ∧
  ∀ before move, before ++ [move] <+: moves → move.IsDeletion →
    Survives templates (Runs.run (step templates) beginGraph before) move

/-- Intact are the histories that never add a second group of an operator, copy a Loop or a
nested group, put a second start node into a group, or delete a node and leave something of it. -/
theorem intact_iff (possible : Runs.Along (step templates) (Possible templates) beginGraph moves) :
    Intact templates moves ↔ Runs.Along (step templates) (Keeps templates) beginGraph moves := by
  have always := @Runs.always_iff_along_possible _ _ (step templates) (Keeps templates) beginGraph
    (Possible templates) (fun _ => True) (fun state => Whole (shapes state) state.edges) trivial
    (fun _ _ _ _ => trivial) whole_beginGraph (fun _ _ possible _ whole =>
      whole_step_iff possible whole) moves possible
  rw [← always]
  constructor
  · exact fun intact => intact.1
  · exact fun whole => ⟨whole, fun _ move _ deletion => survives move deletion⟩

end Histories

def exampleTemplates : GroupStartNodeMap where
  iterationStartId := "IterationItem:BrightCatsJump"
  loopStartId := "LoopItem:ColdDogsSing"

def addIteration (word : String) : Move :=
  .addCanvasNode .iteration (some "begin") .right (some .start) word "Iteration" false

theorem intact_iteration : Intact exampleTemplates [addIteration "RedFoxesRun"] := by
  have possible : Runs.Along (step exampleTemplates) (Possible exampleTemplates) beginGraph
      [addIteration "RedFoxesRun"] := by
    rw [Runs.along_cons]
    refine ⟨?_, Runs.along_nil⟩
    simp [Possible, newIds, addIteration, exampleTemplates, nodeId, Operator.text, beginGraph]
  apply (intact_iff possible).mpr
  rw [Runs.along_cons]
  refine ⟨?_, Runs.along_nil⟩
  simp [Keeps, startId, addIteration, exampleTemplates, beginGraph, Operator.isGroup]

/-- Two Iterations get start nodes with the same id. -/
theorem not_intact_of_two_iterations :
    Runs.Along (step exampleTemplates) (Possible exampleTemplates) beginGraph
        [addIteration "RedFoxesRun", addIteration "BlueOwlsFly"] ∧
      ¬ Intact exampleTemplates [addIteration "RedFoxesRun", addIteration "BlueOwlsFly"] := by
  have first : ids (shapes (step exampleTemplates beginGraph (addIteration "RedFoxesRun"))) =
      ["begin", "Iteration:RedFoxesRun", "IterationItem:BrightCatsJump"] := by
    decide
  have second : ids (shapes (Runs.run (step exampleTemplates) beginGraph
      [addIteration "RedFoxesRun", addIteration "BlueOwlsFly"])) =
      ["begin", "Iteration:RedFoxesRun", "IterationItem:BrightCatsJump", "Iteration:BlueOwlsFly",
        "IterationItem:BrightCatsJump"] := by
    decide
  constructor
  · rw [Runs.along_cons, Runs.along_cons]
    refine ⟨?_, ?_, Runs.along_nil⟩
    · simp [Possible, newIds, addIteration, exampleTemplates, nodeId, Operator.text, beginGraph]
    · simp only [Possible, addIteration, newIds] at first ⊢
      rw [first]
      simp [exampleTemplates, nodeId, Operator.text]
  · intro intact
    have distinct := (intact.1 _ List.prefix_rfl).distinct
    rw [second] at distinct
    simp at distinct

end RagFlow.Editor.Integrity
