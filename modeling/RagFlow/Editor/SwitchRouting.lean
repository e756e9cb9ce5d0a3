import Mathlib
import RagFlow.Lib.Runs
import RagFlow.Editor.Store

/-!
# Routing of a Switch node

A Switch keeps the targets of each case in its form, while the canvas draws them as edges.
Connecting and deleting edges update the form; deleting a target does not, and the form of the
node writes back the lists it read when it was opened.
-/

namespace RagFlow.Editor.SwitchRouting

open RagFlow.Lib

structure Session where
  graph : RFState
  openForm : Option Form

inductive Move where
  | connect (connection : Edge)
  | deleteEdge (id : Edge)
  | deleteNode (id : String)
  | openForm
  | closeForm
  | addCase
  | removeCase (index : Nat)

section Switch

variable (switch : String)

/-- `useWatchFormChange`: an edited form writes all its values to the node. -/
def writeForm (session : Session) (form : Form) : Session where
  graph :=
    { session.graph with nodes := updateNodeForm session.graph.nodes switch fun _ => form }
  openForm := some form

def switchForm (graph : RFState) : Option Form :=
  (getNode graph.nodes switch).map Node.form

def step (session : Session) : Move → Session
  | .connect connection => { session with graph := addEdge session.graph connection }
  | .deleteEdge id => { session with graph := deleteEdgeById session.graph id }
  | .deleteNode id => { session with graph := deleteNode session.graph id }
  | .openForm => { session with openForm := switchForm switch session.graph }
  | .closeForm => { session with openForm := none }
  | .addCase =>
    match session.openForm with
    | none => session
    | some form => writeForm switch session { form with conditions := form.conditions ++ [[]] }
  | .removeCase index =>
    match session.openForm with
    | none => session
    | some form =>
      writeForm switch session { form with conditions := form.conditions.eraseIdx index }

def drawnTargets (graph : RFState) (handle : Handle) : List String :=
  (graph.edges.filter fun edge => edge.source = switch ∧ edge.sourceHandle = some handle ∧
    (getNode graph.nodes edge.target).isSome ∧
    getOperatorTypeFromId graph.nodes edge.target ≠ some .placeholder).map Edge.target

/-- The form routes every case, and what no case takes, to where the edges lead. -/
structure RoutesAsDrawn (graph : RFState) (form : Form) : Prop where
  cases_drawn : ∀ (index : Nat) (targets : List String),
    form.conditions[index]? = some targets →
    targets = drawnTargets switch graph (generateSwitchHandleText index)
  else_drawn : form.endCpnIds = drawnTargets switch graph .switchElseTo

def Mirrors (session : Session) : Prop :=
  ∀ form ∈ switchForm switch session.graph, RoutesAsDrawn switch session.graph form

def Drawn (form : Form) (handle : Handle) : Prop :=
  handle = .switchElseTo ∨ ∃ index < form.conditions.length, handle = generateSwitchHandleText index

/-- Edges start at a shown handle and end at a node; a removed case leaves its edges, which can
still be deleted.  The Switch itself stays, and so does its first case. -/
def Possible (session : Session) : Move → Prop
  | .connect connection =>
    connection.source = switch ∧ (getNode session.graph.nodes connection.target).isSome ∧
      ∃ form ∈ switchForm switch session.graph, ∃ handle ∈ connection.sourceHandle,
        Drawn form handle
  | .deleteEdge id =>
    id ∈ session.graph.edges ∧ id.source = switch ∧
      (id.sourceHandle = some .switchElseTo ∨
        ∃ index, id.sourceHandle = some (generateSwitchHandleText index))
  | .deleteNode id =>
    getNode (deleteNode session.graph id).nodes switch = getNode session.graph.nodes switch
  | .openForm => True
  | .closeForm => True
  | .addCase => True
  | .removeCase index => 0 < index ∧ ∀ form ∈ session.openForm, index < form.conditions.length

def InStep (session : Session) : Move → Prop
  | .connect connection =>
    ∀ edge ∈ session.graph.edges, edge.source = switch →
      edge.sourceHandle = connection.sourceHandle →
      (getNode session.graph.nodes edge.target).isSome
  | .deleteEdge id =>
    (∀ edge ∈ session.graph.edges, edge ≠ id → edge.source = switch →
      edge.sourceHandle = id.sourceHandle →
      getOperatorTypeFromId session.graph.nodes edge.target ≠ some .placeholder →
      ((getNode session.graph.nodes edge.target).isSome ↔ edge.target ≠ id.target)) ∧
    ∀ form ∈ switchForm switch session.graph, ∀ index removed, form.conditions.length ≤ index →
      index < removed → id.sourceHandle = some (generateSwitchHandleText removed) →
      drawnTargets switch session.graph (generateSwitchHandleText index) = []
  | .deleteNode id =>
    ∀ form ∈ switchForm switch session.graph, ∀ handle, Drawn form handle →
      ∀ target ∈ drawnTargets switch session.graph handle, target ∉ deletedIds session.graph id
  | .openForm => True
  | .closeForm => True
  | .addCase =>
    ∀ shown ∈ session.openForm, ∀ form ∈ switchForm switch session.graph,
      shown.conditions <+: form.conditions ∧ shown.endCpnIds = form.endCpnIds ∧
      drawnTargets switch session.graph (generateSwitchHandleText shown.conditions.length) = []
  | .removeCase index =>
    ∀ shown ∈ session.openForm, ∀ form ∈ switchForm switch session.graph,
      shown.conditions.eraseIdx index <+: form.conditions ∧ shown.endCpnIds = form.endCpnIds

/-- A Switch with its form, and no more cases in the open form than on the canvas. -/
structure WellFormed (session : Session) : Prop where
  distinct : (session.graph.nodes.map Node.id).Nodup
  is_switch : getOperatorTypeFromId session.graph.nodes switch = some .switch
  shown_cases : ∀ shown ∈ session.openForm, ∀ form ∈ switchForm switch session.graph,
    shown.conditions.length ≤ form.conditions.length

variable {switch}

theorem exists_switchForm {session : Session} (wellFormed : WellFormed switch session) :
    ∃ form, switchForm switch session.graph = some form := by
  have isSwitch := wellFormed.is_switch
  simp only [getOperatorTypeFromId, Option.map_eq_some_iff] at isSwitch
  obtain ⟨node, found, _⟩ := isSwitch
  exact ⟨node.form, by simp [switchForm, found]⟩

@[simp] theorem drawnTargets_updateNodeForm {graph : RFState} {change : Form → Form}
    {handle : Handle} :
    drawnTargets switch
        { graph with nodes := updateNodeForm graph.nodes switch change } handle =
      drawnTargets switch graph handle := by
  simp [drawnTargets, getNode_updateNodeForm]

theorem switchForm_updateNodeForm {graph : RFState} {change : Form → Form} :
    switchForm switch { graph with nodes := updateNodeForm graph.nodes switch change } =
      (switchForm switch graph).map change := by
  simp only [switchForm, getNode_updateNodeForm, Option.map_map]
  cases found : getNode graph.nodes switch with
  | none => rfl
  | some node => simp [(mem_of_getNode found).2]

def routed (form : Form) (handle : Handle) (targets : List String) : Form :=
  if handle = .switchElseTo then { form with endCpnIds := targets }
  else
    match getOperatorIndex handle with
    | some (index + 1) => { form with conditions := setConditionTo form.conditions index targets }
    | _ => form

theorem updateSwitchFormData_eq {graph : RFState} {handle : Handle} {target : String}
    {isConnecting : Bool}
    (ofSwitch : handle = .switchElseTo ∨ ∃ index, handle = generateSwitchHandleText index) :
    updateSwitchFormData graph switch (some handle) target isConnecting =
      updateNodeForm graph.nodes switch fun form => routed form handle
        (if isConnecting then currentHandleTargets graph switch handle
          else (currentHandleTargets graph switch handle).filter fun id => id ≠ target) := by
  rcases ofSwitch with rfl | ⟨index, rfl⟩
  · simp [updateSwitchFormData, routed]
  · simp [updateSwitchFormData, routed, generateSwitchHandleText, getOperatorIndex]

theorem generateSwitchHandleText_injective {first second : Nat} :
    generateSwitchHandleText first = generateSwitchHandleText second ↔ first = second := by
  simp [generateSwitchHandleText]

theorem routesAsDrawn_routed_iff {before after : RFState} {form : Form} {handle : Handle}
    {targets : List String}
    (ofSwitch : handle = .switchElseTo ∨ ∃ index, handle = generateSwitchHandleText index)
    (drawn : RoutesAsDrawn switch before form)
    (others : ∀ other, other ≠ handle →
      drawnTargets switch after other = drawnTargets switch before other) :
    RoutesAsDrawn switch after (routed form handle targets) ↔
      targets = drawnTargets switch after handle ∧
        ∀ index removed, form.conditions.length ≤ index → index < removed →
          handle = generateSwitchHandleText removed →
          drawnTargets switch before (generateSwitchHandleText index) = [] := by
  rcases ofSwitch with rfl | ⟨position, rfl⟩
  · have same : ∀ index, drawnTargets switch after (generateSwitchHandleText index) =
        drawnTargets switch before (generateSwitchHandleText index) := by
      intro index
      apply others
      simp [generateSwitchHandleText]
    constructor
    · intro routes
      refine ⟨by simpa [routed] using routes.else_drawn, ?_⟩
      intro index removed _ _ isCase
      simp [generateSwitchHandleText] at isCase
    · rintro ⟨rfl, _⟩
      refine ⟨fun index targets found => ?_, by simp [routed]⟩
      rw [same index]
      exact drawn.cases_drawn index targets (by simpa [routed] using found)
  · have elseSame : drawnTargets switch after .switchElseTo =
        drawnTargets switch before .switchElseTo := by
      apply others
      simp [generateSwitchHandleText]
    have routedForm : routed form (generateSwitchHandleText position) targets =
        { form with conditions := setConditionTo form.conditions position targets } := by
      simp [routed, generateSwitchHandleText, getOperatorIndex]
    rw [routedForm]
    constructor
    · intro routes
      refine ⟨routes.cases_drawn position targets (by simp [getElem?_setConditionTo]), ?_⟩
      intro index removed missing appears isCase
      obtain rfl := generateSwitchHandleText_injective.mp isCase
      have other : index ≠ position := Nat.ne_of_lt appears
      have empty := routes.cases_drawn index [] (by
        simp [getElem?_setConditionTo, other, appears, Nat.not_lt.mpr missing])
      rw [← others _ (mt generateSwitchHandleText_injective.mp other)]
      exact empty.symm
    · rintro ⟨rfl, appearing⟩
      refine ⟨fun index old found => ?_, by simpa [elseSame] using drawn.else_drawn⟩
      simp only [getElem?_setConditionTo] at found
      by_cases here : index = position
      · simp only [here, if_true, Option.some.injEq] at found
        rw [here, found]
      · rw [others _ (mt generateSwitchHandleText_injective.mp here)]
        by_cases existing : index < form.conditions.length
        · simp only [here, existing, if_true, if_false] at found
          exact drawn.cases_drawn index old found
        · by_cases appears : index < position
          · simp only [here, existing, appears, if_true, if_false, Option.some.injEq] at found
            rw [← found]
            exact (appearing index position (Nat.not_lt.mp existing) appears rfl).symm
          · simp [here, existing, appears] at found

theorem mem_drawnTargets {graph : RFState} {handle : Handle} {target : String} :
    target ∈ drawnTargets switch graph handle ↔
      ∃ edge ∈ graph.edges, edge.target = target ∧ edge.source = switch ∧
        edge.sourceHandle = some handle ∧ (getNode graph.nodes target).isSome ∧
        getOperatorTypeFromId graph.nodes target ≠ some .placeholder := by
  simp only [drawnTargets, List.mem_map, List.mem_filter, decide_eq_true_eq]
  constructor
  · rintro ⟨edge, ⟨member, drawn⟩, rfl⟩
    exact ⟨edge, member, rfl, drawn⟩
  · rintro ⟨edge, member, rfl, drawn⟩
    exact ⟨edge, ⟨member, drawn⟩, rfl⟩

theorem currentHandleTargets_eq_iff {graph : RFState} {handle : Handle}
    (placeholders_exist : ∀ id, getOperatorTypeFromId graph.nodes id = some .placeholder →
      (getNode graph.nodes id).isSome) :
    currentHandleTargets graph switch handle = drawnTargets switch graph handle ↔
      ∀ edge ∈ graph.edges, edge.source = switch → edge.sourceHandle = some handle →
        (getNode graph.nodes edge.target).isSome := by
  constructor
  · intro same edge member source onHandle
    by_cases placeholder : getOperatorTypeFromId graph.nodes edge.target = some .placeholder
    · exact placeholders_exist _ placeholder
    · have current : edge.target ∈ currentHandleTargets graph switch handle := by
        apply List.mem_map_of_mem
        simp [member, source, onHandle, placeholder]
      rw [same, mem_drawnTargets] at current
      obtain ⟨_, _, _, _, _, exists_target, _⟩ := current
      exact exists_target
  · intro existing
    unfold currentHandleTargets drawnTargets
    congr 1
    apply List.filter_congr
    intro edge member
    by_cases onHandle : edge.source = switch ∧ edge.sourceHandle = some handle
    · simp [onHandle, existing edge member onHandle.1 onHandle.2]
    · simp only [decide_eq_decide]
      constructor
      · rintro ⟨source, handle, _⟩
        exact absurd ⟨source, handle⟩ onHandle
      · rintro ⟨source, handle, _⟩
        exact absurd ⟨source, handle⟩ onHandle

theorem isSome_of_getOperatorTypeFromId {nodes : List Node} {id : String} {operator : Operator}
    (found : getOperatorTypeFromId nodes id = some operator) : (getNode nodes id).isSome := by
  simp only [getOperatorTypeFromId, Option.map_eq_some_iff] at found
  obtain ⟨node, found, _⟩ := found
  simp [found]

theorem drawnTargets_appendEdge_of_ne {graph : RFState} {connection : Edge} {other : Handle}
    (elsewhere : connection.sourceHandle ≠ some other) :
    drawnTargets switch { graph with edges := appendEdge graph.edges connection } other =
      drawnTargets switch graph other := by
  by_cases present : connection ∈ graph.edges
  · simp [appendEdge, present]
  · simp [appendEdge, present, drawnTargets, List.filter_append, elsewhere]

theorem drawnTargets_removeEdge_of_ne {graph : RFState} {id : Edge} {other : Handle}
    (elsewhere : id.sourceHandle ≠ some other) :
    drawnTargets switch { graph with edges := graph.edges.filter fun edge => edge ≠ id } other =
      drawnTargets switch graph other := by
  unfold drawnTargets
  rw [List.filter_filter]
  congr 1
  apply List.filter_congr
  intro edge _
  by_cases same : edge = id
  · simp [same, elsewhere]
  · simp [same]

theorem mirrors_connect_iff {session : Session} {connection : Edge}
    (possible : Possible switch session (.connect connection))
    (wellFormed : WellFormed switch session) (mirrors : Mirrors switch session) :
    Mirrors switch (step switch session (.connect connection)) ↔
      InStep switch session (.connect connection) := by
  obtain ⟨form, isForm⟩ := exists_switchForm wellFormed
  obtain ⟨source, existing, shown, isShown, handle, onHandle, drawn⟩ := possible
  obtain rfl : form = shown := Option.some.inj (isForm.symm.trans isShown)
  obtain onHandle : connection.sourceHandle = some handle := onHandle
  have ofSwitch : handle = .switchElseTo ∨ ∃ index, handle = generateSwitchHandleText index := by
    rcases drawn with isElse | ⟨index, _, isCase⟩
    · exact Or.inl isElse
    · exact Or.inr ⟨index, isCase⟩
  set appended : RFState :=
    { session.graph with edges := appendEdge session.graph.edges connection } with isAppended
  have graphAfter : (step switch session (.connect connection)).graph =
      { appended with
        nodes := updateNodeForm appended.nodes switch fun form =>
          routed form handle (currentHandleTargets appended switch handle) } := by
    simp only [step, addEdge, source, wellFormed.is_switch, if_true, onHandle,
      updateSwitchFormData_eq ofSwitch, ← isAppended]
    rfl
  have formBefore : switchForm switch appended = some form := isForm
  simp only [Mirrors, graphAfter, switchForm_updateNodeForm, formBefore, Option.map_some,
    Option.mem_some_iff, forall_eq']
  have noneAppear : ∀ index removed, form.conditions.length ≤ index → index < removed →
      handle = generateSwitchHandleText removed →
      drawnTargets switch session.graph (generateSwitchHandleText index) = [] := by
    intro index removed missing appears isCase
    rcases drawn with rfl | ⟨position, inside, rfl⟩
    · simp [generateSwitchHandleText] at isCase
    · obtain rfl := generateSwitchHandleText_injective.mp isCase
      omega
  have routes : RoutesAsDrawn switch
      { appended with
        nodes := updateNodeForm appended.nodes switch fun form =>
          routed form handle (currentHandleTargets appended switch handle) }
      (routed form handle (currentHandleTargets appended switch handle)) ↔
        currentHandleTargets appended switch handle = drawnTargets switch appended handle := by
    rw [routesAsDrawn_routed_iff ofSwitch (mirrors form isForm), drawnTargets_updateNodeForm]
    · exact and_iff_left noneAppear
    · intro other different
      rw [drawnTargets_updateNodeForm]
      apply drawnTargets_appendEdge_of_ne
      simpa [onHandle] using Ne.symm different
  rw [routes, currentHandleTargets_eq_iff fun id => isSome_of_getOperatorTypeFromId]
  simp only [InStep, onHandle]
  constructor
  · intro all edge member
    apply all edge
    by_cases present : connection ∈ session.graph.edges
    · simpa [isAppended, appendEdge, present] using member
    · simp [isAppended, appendEdge, present, member]
  · intro all edge member isSource isHandle
    by_cases new : edge = connection
    · exact new ▸ existing
    · apply all edge _ isSource isHandle
      by_cases present : connection ∈ session.graph.edges
      · simpa [isAppended, appendEdge, present] using member
      · simpa [isAppended, appendEdge, present, new] using member

theorem remainingTargets_eq_iff {graph : RFState} {handle : Handle} {id : Edge}
    (onHandle : id.sourceHandle = some handle) :
    ((currentHandleTargets graph switch handle).filter fun target => target ≠ id.target) =
        drawnTargets switch { graph with edges := graph.edges.filter fun edge => edge ≠ id }
          handle ↔
      ∀ edge ∈ graph.edges, edge ≠ id → edge.source = switch →
        edge.sourceHandle = id.sourceHandle →
        getOperatorTypeFromId graph.nodes edge.target ≠ some .placeholder →
        ((getNode graph.nodes edge.target).isSome ↔ edge.target ≠ id.target) := by
  constructor
  · intro same edge member stays source sameHandle isNode
    rw [onHandle] at sameHandle
    constructor
    · intro existing
      have drawn : edge.target ∈ drawnTargets switch
          { graph with edges := graph.edges.filter fun edge => edge ≠ id } handle := by
        apply mem_drawnTargets.mpr
        exact ⟨edge, by simp [member, stays], rfl, source, sameHandle, existing, isNode⟩
      rw [← same] at drawn
      simpa using (List.mem_filter.mp drawn).2
    · intro different
      have kept : edge.target ∈
          (currentHandleTargets graph switch handle).filter fun target => target ≠ id.target := by
        apply List.mem_filter.mpr
        refine ⟨List.mem_map_of_mem ?_, by simpa using different⟩
        simp [member, source, sameHandle, isNode]
      rw [same, mem_drawnTargets] at kept
      obtain ⟨_, _, _, _, _, existing, _⟩ := kept
      exact existing
  · intro exact_edges
    unfold currentHandleTargets drawnTargets
    rw [List.filter_map, List.filter_filter, List.filter_filter]
    congr 1
    apply List.filter_congr
    intro edge member
    by_cases same : edge = id
    · simp [same]
    · by_cases relevant : edge.source = switch ∧ edge.sourceHandle = some handle ∧
          getOperatorTypeFromId graph.nodes edge.target ≠ some .placeholder
      · have keeps := exact_edges edge member same relevant.1 (relevant.2.1.trans onHandle.symm)
          relevant.2.2
        simp [same, relevant, keeps]
      · simp only [Function.comp, Bool.and_eq_decide, decide_eq_true_eq, decide_eq_decide]
        constructor
        · rintro ⟨_, source, isHandle, isNode⟩
          exact absurd ⟨source, isHandle, isNode⟩ relevant
        · rintro ⟨⟨source, isHandle, _, isNode⟩, _⟩
          exact absurd ⟨source, isHandle, isNode⟩ relevant

theorem mirrors_deleteEdge_iff {session : Session} {id : Edge}
    (possible : Possible switch session (.deleteEdge id))
    (wellFormed : WellFormed switch session) (mirrors : Mirrors switch session) :
    Mirrors switch (step switch session (.deleteEdge id)) ↔
      InStep switch session (.deleteEdge id) := by
  obtain ⟨form, isForm⟩ := exists_switchForm wellFormed
  obtain ⟨member, source, onHandle⟩ := possible
  obtain ⟨handle, isHandle, ofSwitch⟩ : ∃ handle, id.sourceHandle = some handle ∧
      (handle = .switchElseTo ∨ ∃ index, handle = generateSwitchHandleText index) := by
    rcases onHandle with isElse | ⟨index, isCase⟩
    · exact ⟨_, isElse, Or.inl rfl⟩
    · exact ⟨_, isCase, Or.inr ⟨index, rfl⟩⟩
  set removed : RFState :=
    { session.graph with edges := session.graph.edges.filter fun edge => edge ≠ id } with isRemoved
  set targets := (currentHandleTargets session.graph switch handle).filter fun target =>
    target ≠ id.target with isTargets
  have graphAfter : (step switch session (.deleteEdge id)).graph =
      { removed with
        nodes := updateNodeForm removed.nodes switch fun form => routed form handle targets } := by
    simp only [step, deleteEdgeById, source, wellFormed.is_switch, member, true_and, if_true,
      isHandle, updateSwitchFormData_eq ofSwitch]
    rfl
  have formBefore : switchForm switch removed = some form := isForm
  simp only [Mirrors, graphAfter, switchForm_updateNodeForm, formBefore, Option.map_some,
    Option.mem_some_iff, forall_eq']
  have routes : RoutesAsDrawn switch
      { removed with
        nodes := updateNodeForm removed.nodes switch fun form => routed form handle targets }
      (routed form handle targets) ↔
        targets = drawnTargets switch removed handle ∧
          ∀ index removed, form.conditions.length ≤ index → index < removed →
            handle = generateSwitchHandleText removed →
            drawnTargets switch session.graph (generateSwitchHandleText index) = [] := by
    rw [routesAsDrawn_routed_iff ofSwitch (mirrors form isForm), drawnTargets_updateNodeForm]
    intro other different
    rw [drawnTargets_updateNodeForm]
    apply drawnTargets_removeEdge_of_ne
    simpa [isHandle] using Ne.symm different
  rw [routes, isTargets, isRemoved, remainingTargets_eq_iff isHandle]
  simp only [InStep, isForm, Option.mem_some_iff, forall_eq', isHandle, Option.some.injEq]

theorem drawnTargets_deleteNode_eq_iff {graph : RFState}
    (distinct : (graph.nodes.map Node.id).Nodup) {id : String}
    (stays : switch ∉ deletedIds graph id) (handle : Handle) :
    drawnTargets switch (deleteNode graph id) handle = drawnTargets switch graph handle ↔
      ∀ target ∈ drawnTargets switch graph handle, target ∉ deletedIds graph id := by
  constructor
  · intro same target drawn gone
    rw [← same, mem_drawnTargets] at drawn
    obtain ⟨_, _, _, _, _, existing, _⟩ := drawn
    simp [getNode_deleteNode id distinct, gone] at existing
  · intro kept
    obtain ⟨keep, edgesAfter⟩ := @deleteNode_edges graph id
    unfold drawnTargets
    rw [edgesAfter, List.filter_filter]
    congr 1
    apply List.filter_congr
    intro edge member
    by_cases relevant : edge.source = switch ∧ edge.sourceHandle = some handle
    · by_cases gone : edge.target ∈ deletedIds graph id
      · have undrawn : ¬ ((getNode graph.nodes edge.target).isSome ∧
            getOperatorTypeFromId graph.nodes edge.target ≠ some .placeholder) := by
          intro drawn
          have isDrawn : edge.target ∈ drawnTargets switch graph handle :=
            mem_drawnTargets.mpr ⟨edge, member, rfl, relevant.1, relevant.2, drawn⟩
          exact kept _ isDrawn gone
        simp [relevant, getNode_deleteNode id distinct, gone, undrawn]
      · have kept := mem_edges_deleteNode id member (relevant.1 ▸ stays) gone
        rw [edgesAfter] at kept
        simp [relevant, getOperatorTypeFromId, getNode_deleteNode id distinct, gone,
          (List.mem_filter.mp kept).2]
    · have undrawn : ∀ rest : Prop,
          ¬ (edge.source = switch ∧ edge.sourceHandle = some handle ∧ rest) :=
        fun rest drawn => relevant ⟨drawn.1, drawn.2.1⟩
      simp [undrawn]

theorem mirrors_deleteNode_iff {session : Session} {id : String}
    (possible : Possible switch session (.deleteNode id))
    (wellFormed : WellFormed switch session) (mirrors : Mirrors switch session) :
    Mirrors switch (step switch session (.deleteNode id)) ↔
      InStep switch session (.deleteNode id) := by
  obtain ⟨form, isForm⟩ := exists_switchForm wellFormed
  have sameForm : switchForm switch (deleteNode session.graph id) = some form := by
    rw [← isForm, switchForm, possible, switchForm]
  have stays : switch ∉ deletedIds session.graph id := by
    intro gone
    have deleted : getNode (deleteNode session.graph id).nodes switch = none := by
      simp [getNode_deleteNode id wellFormed.distinct, gone]
    simp [switchForm, deleted] at sameForm
  have drawn := mirrors form isForm
  have unchanged := drawnTargets_deleteNode_eq_iff wellFormed.distinct stays
  simp only [Mirrors, step, sameForm, Option.mem_some_iff, forall_eq', InStep, isForm, ← unchanged]
  constructor
  · rintro routes handle (rfl | ⟨index, inside, rfl⟩)
    · rw [← routes.else_drawn, drawn.else_drawn]
    · have found := List.getElem?_eq_getElem inside
      rw [← routes.cases_drawn index _ found, drawn.cases_drawn index _ found]
  · intro same
    refine ⟨fun index targets found => ?_, ?_⟩
    · rw [same _ (Or.inr ⟨index, (List.getElem?_eq_some_iff.mp found).1, rfl⟩)]
      exact drawn.cases_drawn index targets found
    · rw [same _ (Or.inl rfl)]
      exact drawn.else_drawn

theorem mirrors_writeForm_iff {session : Session} {shown form : Form}
    (isForm : switchForm switch session.graph = some form) :
    Mirrors switch (writeForm switch session shown) ↔
      RoutesAsDrawn switch session.graph shown := by
  have after : switchForm switch (writeForm switch session shown).graph = some shown := by
    simp [writeForm, switchForm_updateNodeForm, isForm]
  simp only [Mirrors, after, Option.mem_some_iff, forall_eq']
  constructor
  · intro routes
    refine ⟨fun index targets found => ?_, ?_⟩
    · simpa [writeForm] using routes.cases_drawn index targets found
    · simpa [writeForm] using routes.else_drawn
  · intro routes
    refine ⟨fun index targets found => ?_, ?_⟩
    · simpa [writeForm] using routes.cases_drawn index targets found
    · simpa [writeForm] using routes.else_drawn

theorem cases_drawn_iff_prefix {graph : RFState} {form : Form}
    (drawn : RoutesAsDrawn switch graph form) {conditions : List (List String)}
    (shorter : conditions.length ≤ form.conditions.length) :
    (∀ (index : Nat) (targets : List String), conditions[index]? = some targets →
      targets = drawnTargets switch graph (generateSwitchHandleText index)) ↔
      conditions <+: form.conditions := by
  rw [List.prefix_iff_getElem?]
  constructor
  · intro cases_drawn index inside
    have inForm : index < form.conditions.length := inside.trans_le shorter
    rw [cases_drawn index _ (List.getElem?_eq_getElem inside), List.getElem?_eq_getElem inForm,
      drawn.cases_drawn index _ (List.getElem?_eq_getElem inForm)]
  · intro same index targets found
    obtain ⟨inside, rfl⟩ := List.getElem?_eq_some_iff.mp found
    exact drawn.cases_drawn index _ (same index inside)

theorem mirrors_addCase_iff {session : Session} (wellFormed : WellFormed switch session)
    (mirrors : Mirrors switch session) :
    Mirrors switch (step switch session .addCase) ↔ InStep switch session .addCase := by
  obtain ⟨form, isForm⟩ := exists_switchForm wellFormed
  cases opened : session.openForm with
  | none => simp [step, InStep, opened, mirrors]
  | some shown =>
    have drawn := mirrors form isForm
    have shorter := wellFormed.shown_cases shown opened form isForm
    simp only [step, opened, InStep, isForm, Option.mem_some_iff, forall_eq']
    rw [mirrors_writeForm_iff isForm, ← cases_drawn_iff_prefix drawn shorter, drawn.else_drawn]
    constructor
    · intro routes
      refine ⟨fun index targets found => ?_, routes.else_drawn, ?_⟩
      · apply routes.cases_drawn index targets
        have inside := (List.getElem?_eq_some_iff.mp found).1
        simpa [List.getElem?_append_left inside] using found
      · symm
        apply routes.cases_drawn
        simp
    · rintro ⟨cases_drawn, else_drawn, last⟩
      refine ⟨fun index targets found => ?_, else_drawn⟩
      by_cases inside : index < shown.conditions.length
      · apply cases_drawn index targets
        simpa [List.getElem?_append_left inside] using found
      · simp only [List.getElem?_append_right (Nat.not_lt.mp inside)] at found
        have isLast : index = shown.conditions.length := by
          have := (List.getElem?_eq_some_iff.mp found).1
          simp only [List.length_singleton] at this
          omega
        subst isLast
        simp only [Nat.sub_self, List.getElem?_cons_zero, Option.some.injEq] at found
        rw [← found, last]

theorem mirrors_removeCase_iff {session : Session} {index : Nat}
    (wellFormed : WellFormed switch session) (mirrors : Mirrors switch session) :
    Mirrors switch (step switch session (.removeCase index)) ↔
      InStep switch session (.removeCase index) := by
  obtain ⟨form, isForm⟩ := exists_switchForm wellFormed
  cases opened : session.openForm with
  | none => simp [step, InStep, opened, mirrors]
  | some shown =>
    have drawn := mirrors form isForm
    have shorter : (shown.conditions.eraseIdx index).length ≤ form.conditions.length :=
      (List.length_eraseIdx_le _ _).trans (wellFormed.shown_cases shown opened form isForm)
    simp only [step, opened, InStep, isForm, Option.mem_some_iff, forall_eq']
    rw [mirrors_writeForm_iff isForm, ← cases_drawn_iff_prefix drawn shorter, drawn.else_drawn]
    constructor
    · intro routes
      exact ⟨routes.cases_drawn, routes.else_drawn⟩
    · rintro ⟨cases_drawn, else_drawn⟩
      exact ⟨cases_drawn, else_drawn⟩

theorem length_conditions_le_routed {form : Form} {handle : Handle} {targets : List String} :
    form.conditions.length ≤ (routed form handle targets).conditions.length := by
  unfold routed
  by_cases isElse : handle = .switchElseTo
  · simp [isElse]
  · simp only [isElse, if_false]
    split
    · exact length_le_setConditionTo
    · exact Nat.le_refl _

theorem switchForm_updateSwitchFormData {graph : RFState} {handle : Handle} {target : String}
    {isConnecting : Bool} {edges : List Edge}
    (ofSwitch : handle = .switchElseTo ∨ ∃ index, handle = generateSwitchHandleText index)
    {form after : Form} (isForm : switchForm switch graph = some form)
    (isAfter : switchForm switch
      { nodes := updateSwitchFormData graph switch (some handle) target isConnecting
        edges := edges } = some after) :
    form.conditions.length ≤ after.conditions.length := by
  rw [updateSwitchFormData_eq ofSwitch] at isAfter
  rw [switchForm, getNode_updateNodeForm, Option.map_map] at isAfter
  simp only [switchForm, Option.map_eq_some_iff, Function.comp] at isForm isAfter
  obtain ⟨node, found, rfl⟩ := isForm
  obtain ⟨_, found', rfl⟩ := isAfter
  obtain rfl := Option.some.inj (found.symm.trans found')
  rw [if_pos (mem_of_getNode found).2]
  exact length_conditions_le_routed

theorem wellFormed_step {session : Session} {move : Move}
    (possible : Possible switch session move) (wellFormed : WellFormed switch session) :
    WellFormed switch (step switch session move) := by
  have keepForm : ∀ shown form, session.openForm = some shown →
      switchForm switch session.graph = some form →
      shown.conditions.length ≤ form.conditions.length :=
    fun shown form opened isForm => wellFormed.shown_cases shown opened form isForm
  obtain ⟨before, isBefore⟩ := exists_switchForm wellFormed
  have written : ∀ shown, WellFormed switch (writeForm switch session shown) := by
    intro shown
    refine ⟨by simpa [writeForm] using wellFormed.distinct, ?_, ?_⟩
    · simpa [writeForm] using wellFormed.is_switch
    · intro shown' opened form isForm
      obtain rfl : shown = shown' := Option.some.inj opened
      simp only [writeForm, switchForm_updateNodeForm, isBefore, Option.map_some,
        Option.mem_some_iff] at isForm
      rw [isForm]
  cases move with
  | connect connection =>
    obtain ⟨source, _, shown, isShown, handle, onHandle, drawn⟩ := possible
    obtain onHandle : connection.sourceHandle = some handle := onHandle
    have ofSwitch : handle = .switchElseTo ∨
        ∃ index, handle = generateSwitchHandleText index := by
      rcases drawn with isElse | ⟨index, _, isCase⟩
      · exact Or.inl isElse
      · exact Or.inr ⟨index, isCase⟩
    refine ⟨by simpa [step] using wellFormed.distinct, ?_, ?_⟩
    · simpa [step] using wellFormed.is_switch
    · intro shown opened form isForm
      apply (keepForm shown before opened isBefore).trans
      simp only [step, addEdge, source, wellFormed.is_switch, if_true, onHandle] at isForm
      have isAppended : switchForm switch { session.graph with
          edges := appendEdge session.graph.edges connection } = some before := isBefore
      exact switchForm_updateSwitchFormData ofSwitch isAppended isForm
  | deleteEdge id =>
    obtain ⟨member, source, onHandle⟩ := possible
    refine ⟨by simpa [step] using wellFormed.distinct, ?_, ?_⟩
    · simpa [step] using wellFormed.is_switch
    · intro shown opened form isForm
      apply (keepForm shown before opened isBefore).trans
      simp only [step, deleteEdgeById, source, wellFormed.is_switch, member, true_and,
        if_true] at isForm
      rcases onHandle with isElse | ⟨index, isCase⟩
      · rw [isElse] at isForm
        exact switchForm_updateSwitchFormData (Or.inl rfl) isBefore isForm
      · rw [isCase] at isForm
        exact switchForm_updateSwitchFormData (Or.inr ⟨index, rfl⟩) isBefore isForm
  | deleteNode id =>
    refine ⟨?_, ?_, ?_⟩
    · simp only [step, deleteNode_nodes id wellFormed.distinct]
      exact wellFormed.distinct.sublist (List.filter_sublist.map _)
    · simp only [step, getOperatorTypeFromId]
      rw [possible]
      exact wellFormed.is_switch
    · intro shown opened form isForm
      apply keepForm shown form opened
      simp only [step, switchForm] at isForm
      rwa [possible] at isForm
  | openForm =>
    refine ⟨wellFormed.distinct, wellFormed.is_switch, ?_⟩
    intro shown opened form isForm
    obtain rfl : shown = form := Option.some.inj (opened.symm.trans isForm)
    exact Nat.le_refl _
  | closeForm => exact ⟨wellFormed.distinct, wellFormed.is_switch, by simp [step]⟩
  | addCase =>
    cases opened : session.openForm with
    | none => simpa [step, opened] using wellFormed
    | some shown =>
      simp only [step, opened]
      exact written _
  | removeCase index =>
    cases opened : session.openForm with
    | none => simpa [step, opened] using wellFormed
    | some shown =>
      simp only [step, opened]
      exact written _

theorem mirrors_step_iff {session : Session} {move : Move}
    (possible : Possible switch session move) (wellFormed : WellFormed switch session)
    (mirrors : Mirrors switch session) :
    Mirrors switch (step switch session move) ↔ InStep switch session move := by
  cases move with
  | connect connection => exact mirrors_connect_iff possible wellFormed mirrors
  | deleteEdge id => exact mirrors_deleteEdge_iff possible wellFormed mirrors
  | deleteNode id => exact mirrors_deleteNode_iff possible wellFormed mirrors
  | openForm => exact iff_of_true mirrors trivial
  | closeForm => exact iff_of_true mirrors trivial
  | addCase => exact mirrors_addCase_iff wellFormed mirrors
  | removeCase index => exact mirrors_removeCase_iff wellFormed mirrors

variable (switch)

/-- A graph to which the Switch has just been added. -/
structure JustAdded (graph : RFState) : Prop where
  distinct : (graph.nodes.map Node.id).Nodup
  added : ∃ node ∈ graph.nodes, node.id = switch ∧ node.label = .switch ∧
    node.form = initialForm .switch
  unconnected : ∀ edge ∈ graph.edges, edge.source ≠ switch

def begin (graph : RFState) : Session where
  graph := graph
  openForm := none

variable {switch}

theorem JustAdded.getNode {graph : RFState} (justAdded : JustAdded switch graph) :
    ∃ node, getNode graph.nodes switch = some node ∧ node.label = .switch ∧
      node.form = initialForm .switch := by
  obtain ⟨node, member, rfl, isSwitch, initial⟩ := justAdded.added
  exact ⟨node, getNode_of_mem justAdded.distinct member, isSwitch, initial⟩

theorem JustAdded.wellFormed {graph : RFState} (justAdded : JustAdded switch graph) :
    WellFormed switch (begin graph) := by
  obtain ⟨node, found, isSwitch, _⟩ := justAdded.getNode
  refine ⟨justAdded.distinct, ?_, by simp [begin]⟩
  simp [begin, getOperatorTypeFromId, found, isSwitch]

theorem JustAdded.mirrors {graph : RFState} (justAdded : JustAdded switch graph) :
    Mirrors switch (begin graph) := by
  obtain ⟨node, found, _, initial⟩ := justAdded.getNode
  have nothing : ∀ handle, drawnTargets switch graph handle = [] := by
    intro handle
    simp only [drawnTargets, List.map_eq_nil_iff, List.filter_eq_nil_iff, decide_eq_true_eq]
    exact fun edge member drawn => justAdded.unconnected edge member drawn.1
  intro form isForm
  simp only [begin, switchForm, found, Option.map_some, Option.mem_some_iff, initial] at isForm
  subst isForm
  refine ⟨fun index targets first => ?_, by simp [begin, initialForm, nothing]⟩
  cases index with
  | zero => simpa [begin, initialForm, nothing, eq_comm] using first
  | succ index => simp [initialForm] at first

end Switch

def newNode (id : String) (label : Operator) : Node where
  id := id
  label := label
  parentId := none
  name := id
  form := initialForm label

def switchAndRetrieval : RFState where
  nodes := [newNode "Switch:One" .switch, newNode "Retrieval:Two" .retrieval]
  edges := []

def caseToRetrieval : Edge where
  source := "Switch:One"
  target := "Retrieval:Two"
  sourceHandle := some (generateSwitchHandleText 0)
  targetHandle := some .target

theorem justAdded_switchAndRetrieval : JustAdded "Switch:One" switchAndRetrieval where
  distinct := by decide
  added := ⟨newNode "Switch:One" .switch, by simp [switchAndRetrieval], rfl, rfl, rfl⟩
  unconnected := by simp [switchAndRetrieval]

theorem possible_connect : Possible "Switch:One" (begin switchAndRetrieval)
    (.connect caseToRetrieval) :=
  ⟨rfl, rfl, initialForm .switch, rfl, generateSwitchHandleText 0, rfl, Or.inr ⟨0, by decide, rfl⟩⟩

end RagFlow.Editor.SwitchRouting
