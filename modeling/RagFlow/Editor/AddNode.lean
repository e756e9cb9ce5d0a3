import RagFlow.Editor.Store

/-!
# Adding and copying nodes

`addCanvasNode` with its variants for groups, sub-agents and tools, and `duplicateNode`.
-/

namespace RagFlow.Editor

inductive Position where
  | left | top | right | bottom
  deriving DecidableEq

/-- The ids of the start nodes in `GroupStartNodeMap`, generated once, with the module. -/
structure GroupStartNodeMap where
  iterationStartId : String
  loopStartId : String

def nodeId (label : Operator) (word : String) : String := label.text ++ ":" ++ word

/-- The template of the start node of a group, which belongs to the new group `parentId`. -/
def GroupStartNodeMap.startNode (templates : GroupStartNodeMap) (operatorType : Operator)
    (parentId : String) : Node :=
  if operatorType = .iteration then
    { id := templates.iterationStartId
      label := .iterationStart
      parentId := some parentId
      name := Operator.iterationStart.text
      form := initialForm .iterationStart }
  else
    { id := templates.loopStartId
      label := .loopStart
      parentId := some parentId
      name := Operator.loopStart.text
      form := initialForm .loopStart }

def addNode (state : RFState) (node : Node) : RFState :=
  { state with nodes := state.nodes ++ [node] }

def connectFrom (state : RFState) (source : Option String) (target : String)
    (sourceHandle targetHandle : Handle) : RFState :=
  match source with
  | none => state
  | some source =>
    addEdge state
      { source := source
        target := target
        sourceHandle := some sourceHandle
        targetHandle := some targetHandle }

/-- All groups get the same start node object.  While an earlier group still holds it (`shared`,
until the flow library replaces the nodes by copies), setting its parent moves it there too. -/
def addGroupNode (templates : GroupStartNodeMap) (state : RFState) (operatorType : Operator)
    (newNode : Node) (source : Option String) (shared : Bool) : RFState :=
  let startNode := templates.startNode operatorType newNode.id
  let moved := state.nodes.map fun node =>
    if shared ∧ node.id = startNode.id then { node with parentId := some newNode.id } else node
  connectFrom (addNode (addNode { state with nodes := moved } newNode) startNode) source newNode.id
    .start .target

def addToolNode (state : RFState) (newNode : Node) (source : Option String) : RFState :=
  match source.bind fun id => getNode state.nodes id with
  | none => state
  | some agentNode =>
    let childToolNodeIds :=
      (state.edges.filter fun edge =>
        edge.source = agentNode.id ∧ edge.sourceHandle = some .tool).map Edge.target
    if childToolNodeIds.head?.any fun id => id ∈ state.nodes.map Node.id then state
    else connectFrom (addNode state newNode) source newNode.id .tool .target

def addChildEdge (state : RFState) (position : Position) (source : Option String)
    (target : String) (sourceHandle : Option Handle) : RFState :=
  match sourceHandle with
  | some handle =>
    if position = .right then connectFrom state source target handle .target else state
  | none => state

def addCanvasNode (templates : GroupStartNodeMap) (state : RFState) (operatorType : Operator)
    (source : Option String) (position : Position) (sourceHandle : Option Handle)
    (word name : String) (shared : Bool) : RFState :=
  let node := source.bind fun id => getNode state.nodes id
  let newNode : Node :=
    { id := nodeId operatorType word
      label := operatorType
      parentId := node.bind Node.parentId
      name := name
      form := initialForm operatorType }
  if operatorType = .iteration ∨ operatorType = .loop then
    addGroupNode templates state operatorType newNode source shared
  else if operatorType = .agent ∧ position = .bottom then
    connectFrom (addNode state newNode) source newNode.id .agentBottom .agentTop
  else if operatorType = .tool then addToolNode state newNode source
  else addChildEdge (addNode state newNode) position source newNode.id sourceHandle

def duplicateIterationNode (state : RFState) (node : Node) (word name : Nat → String) : RFState :=
  let iterationNode := { node with id := nodeId node.label (word 0), name := name 0 }
  let children := (state.nodes.filter fun child => child.parentId = some node.id).mapIdx
    fun index child =>
      { child with
        id := nodeId child.label (word (index + 1))
        name := name (index + 1)
        parentId := some iterationNode.id }
  { state with nodes := state.nodes ++ iterationNode :: children }

def duplicateNode (state : RFState) (id : String) (word name : Nat → String) : RFState :=
  match getNode state.nodes id with
  | none => state
  | some node =>
    if node.label = .iteration then duplicateIterationNode state node word name
    else addNode state { node with id := nodeId node.label (word 0), name := name 0 }

end RagFlow.Editor
