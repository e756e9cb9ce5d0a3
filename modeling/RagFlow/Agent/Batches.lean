import Mathlib
import RagFlow.Lib.Runs

/-!
# The canvas scheduler

`Canvas.run` keeps one growing path of component ids.  Each round invokes the pending end of
the path as one batch, then lets every invoked component append its successors.  What the
components compute is left to the environment of the round.
-/

namespace RagFlow.Agent

/-- The component names that `Canvas.run` tells apart. -/
inductive ComponentName where
  | begin | userFillUp | message | categorize | switch | iteration | iterationItem
  | loop | loopItem | exitLoop | other
  deriving DecidableEq, Repr

/-- `exception_handler()`: where to go on, and whether there is a default value; with the
method "comment" the default value takes the place of the error. -/
structure ExceptionHandler (Id : Type) where
  goto : List Id
  defaultValue : Bool
  comment : Bool

inductive LogicalOperator where
  | and | or
  deriving DecidableEq, Repr

/-- A component of the DSL with the parameters that steer the run.  `refs` are the
`_cpn_id`s of its input elements. -/
structure Component (Id : Type) where
  name : ComponentName
  downstream : List Id
  parent : Option Id
  refs : List Id
  exceptionHandler : Option (ExceptionHandler Id)
  maximumLoopCount : Nat
  logicalOperator : LogicalOperator

/-- A loaded workflow.  `start` is `get_start()`, the item component of an iteration or a
loop; `namesUserFillUp` tells whether an id contains "userfillup". -/
structure Canvas (Id : Type) where
  component : Id → Component Id
  start : Id → Id
  beginId : Id
  namesUserFillUp : Id → Bool
  begin_name : (component beginId).name = .begin
  begin_id : namesUserFillUp beginId = false
  start_iteration : ∀ id, (component id).name = .iteration →
    (component (start id)).name = .iterationItem ∧ (component (start id)).parent = some id
  start_loop : ∀ id, (component id).name = .loop →
    (component (start id)).name = .loopItem ∧ (component (start id)).parent = some id

structure Round (Id Value : Type) where
  canceled : Bool
  /-- The component sets its `_ERROR`. -/
  errors : Id → Bool
  next : Id → List Id
  /-- What `items_ref` of an iteration denotes; `none` when it is not an array. -/
  items : Id → Option (List Value)
  /-- The body's output that an iteration collects. -/
  collect : Id → Value
  /-- The termination conditions of a loop; `none` when evaluating them raises. -/
  conditions : Id → Option (List Bool)

/-- Whether the main loop goes on.  In `pausing` a batch is done and a user fill-up is
pending, so that the run is about to be paused. -/
inductive Status where
  | idle | running | pausing | paused | finished | failed | canceled | crashed
  deriving DecidableEq, Repr

/-- What happened since control last entered an iteration or a loop: the items it was
entered with, what its item component has handed out since, whether that ended the
iteration, the number of entries collected when the item component last started, and the
number of times a loop's body was run. -/
structure Entry (Value : Type) where
  items : Option (List Value)
  drawn : List (Int × Value)
  exhausted : Bool
  collected : Nat
  turns : Nat

/-- The state of a canvas object.  `position` is the `_idx` of an item component,
`collated` an output that an iteration collects from its body, `failed` whether a
component has its `_ERROR` set.  The batches of the run, the components invoked by a pause
and the entries are recorded for the specification only. -/
structure State (Id Value : Type) where
  path : List Id
  idx : Nat
  status : Status
  position : Id → Int
  collated : Id → List Value
  failed : Id → Bool
  batches : List (List Id)
  filledUp : List Id
  entry : Id → Entry Value

variable {Id Value : Type} [DecidableEq Id]

inductive Drawn (Value : Type) where
  | item (index : Int) (value : Value)
  | exhausted
  | raised

/-- `arr[idx]`, where a negative index counts from the end. -/
def subscript (arr : List Value) (idx : Int) : Option Value :=
  if 0 ≤ idx then arr[idx.toNat]?
  else if 0 ≤ arr.length + idx then arr[(arr.length + idx).toNat]? else none

/-- `IterationItem._invoke`: the next position, the collated output, what was drawn. -/
def iterationItemInvoke (position : Int) (items : Option (List Value)) (collated : List Value)
    (collect : Value) : Int × List Value × Drawn Value :=
  match items with
  | none => (-1, collated, .raised)
  | some arr =>
    let collated := if position > 0 then collated ++ [collect] else collated
    if position ≥ arr.length then (-1, collated, .exhausted)
    else
      match subscript arr position with
      | none => (position, collated, .raised)
      | some value => (position + 1, collated, .item position value)

def loopItemInvoke (position : Int) (maximumLoopCount : Nat) : Int :=
  if position ≥ maximumLoopCount then -1 else position + 1

/-- `LoopItem.end`: the position it leaves and its answer. -/
def loopItemEnd (position : Int) (logicalOperator : LogicalOperator)
    (conditions : Option (List Bool)) : Option (Int × Bool) :=
  if position = -1 then some (-1, true)
  else
    conditions.map fun conditions =>
      let shouldEnd := match logicalOperator with
        | .and => conditions.all id
        | .or => conditions.any id
      if shouldEnd then (-1, true) else (position, false)

/-- The test of `_run_batch`: begin and user-fill-up components start at once, any other
one when its inputs stand before it on the path or the path resumes a user fill-up. -/
def mayStart (canvas : Canvas Id) (resumed : Bool) (before : List Id) (id : Id) : Bool :=
  (canvas.component id).name = .begin || (canvas.component id).name = .userFillUp || resumed ||
    (canvas.component id).refs.all fun ref => ref ∈ before

/-- The loop of `_run_batch` over the pending end of the path: a component that may not
start yet is popped from the path. -/
def selectBatch (canvas : Canvas Id) (resumed : Bool) : List Id → List Id → List Id
  | _, [] => []
  | before, id :: pending =>
    if mayStart canvas resumed before id then
      id :: selectBatch canvas resumed (before ++ [id]) pending
    else selectBatch canvas resumed before pending

def resumes (canvas : Canvas Id) (path : List Id) : Bool :=
  path.head?.any canvas.namesUserFillUp

def nextBatch (canvas : Canvas Id) (state : State Id Value) : List Id :=
  selectBatch canvas (resumes canvas state.path) (state.path.take state.idx)
    (state.path.drop state.idx)

def Entry.start (entry : Entry Value) (collated : List Value) : Drawn Value → Entry Value
  | .item index value =>
    { entry with drawn := entry.drawn ++ [(index, value)], collected := collated.length }
  | .exhausted => { entry with exhausted := true, collected := collated.length }
  | .raised => { entry with collected := collated.length }

def invoke (canvas : Canvas Id) (round : Round Id Value) (state : State Id Value) (id : Id) :
    State Id Value :=
  match (canvas.component id).name, (canvas.component id).parent with
  | .iterationItem, some parent =>
    let (position, collated, drawn) := iterationItemInvoke (state.position id)
      (round.items parent) (state.collated parent) (round.collect parent)
    let comments := (canvas.component id).exceptionHandler.any fun handler =>
      handler.comment && handler.defaultValue
    let raised := match drawn with
      | .raised => !comments
      | _ => false
    { state with
      position := Function.update state.position id position
      collated := Function.update state.collated parent collated
      failed := Function.update state.failed id (state.failed id || raised)
      entry := Function.update state.entry id ((state.entry id).start collated drawn) }
  | .loopItem, some parent =>
    { state with
      position := Function.update state.position id
        (loopItemInvoke (state.position id) (canvas.component parent).maximumLoopCount) }
  | .iterationItem, none | .loopItem, none =>
    { state with failed := Function.update state.failed id true }
  | _, _ => state

/-- `_run_batch`: the path keeps what is started, and the started components are invoked. -/
def runBatch (canvas : Canvas Id) (round : Round Id Value) (state : State Id Value) :
    State Id Value :=
  let batch := nextBatch canvas state
  let state := batch.foldl (invoke canvas round) state
  { state with
    path := state.path.take state.idx ++ batch
    failed := fun id => state.failed id || (decide (id ∈ batch) && round.errors id)
    batches := state.batches ++ [batch] }

def appendPath (path : List Id) (id : Id) : List Id :=
  if path.getLast? = some id then path else path ++ [id]

def extendPath (path ids : List Id) : List Id := ids.foldl appendPath path

/-- `end()` of an item component: the position it leaves and its answer. -/
def itemEnd (canvas : Canvas Id) (round : Round Id Value) (state : State Id Value) (id : Id) :
    Option (Int × Bool) :=
  match (canvas.component id).name, (canvas.component id).parent with
  | .iterationItem, some _ => some (state.position id, decide (state.position id = -1))
  | .loopItem, some parent =>
    loopItemEnd (state.position id) (canvas.component parent).logicalOperator
      (round.conditions parent)
  | .iterationItem, none | .loopItem, none => none
  | _, _ => some (state.position id, false)

def successors (canvas : Canvas Id) (id : Id) : List Id :=
  match (canvas.component id).downstream, (canvas.component id).parent with
  | [], some parent => [canvas.start parent]
  | downstream, _ => downstream

/-- The components appended after `id`; `none` when reading the parent raises. -/
def nextIds (canvas : Canvas Id) (round : Round Id Value) (id : Id) (ended : Bool) :
    Option (List Id) :=
  if ended then (canvas.component id).parent.map fun parent => (canvas.component parent).downstream
  else
    match (canvas.component id).name with
    | .categorize | .switch => some (round.next id)
    | .iteration | .loop => some [canvas.start id]
    | .exitLoop =>
      (canvas.component id).parent.map fun parent =>
        if (canvas.component parent).name = .loop then (canvas.component parent).downstream
        else successors canvas id
    | _ => some (successors canvas id)

def recordEntry (canvas : Canvas Id) (round : Round Id Value) (id : Id) (ended : Bool)
    (entry : Id → Entry Value) : Id → Entry Value :=
  match (canvas.component id).name with
  | .iteration | .loop => Function.update entry (canvas.start id) ⟨round.items id, [], false, 0, 0⟩
  | .loopItem =>
    if ended then entry
    else Function.update entry id { entry id with turns := (entry id).turns + 1 }
  | _ => entry

def errorGoto (canvas : Canvas Id) (state : State Id Value) (id : Id) : List Id :=
  if state.failed id then ((canvas.component id).exceptionHandler.map (·.goto)).getD [] else []

def endsRun (canvas : Canvas Id) (state : State Id Value) (id : Id) : Bool :=
  state.failed id && errorGoto canvas state id = [] &&
    !(canvas.component id).exceptionHandler.any (·.defaultValue)

/-- The body of the loop over the invoked components: the error is handled, then the
successors are appended, unless the handler named other ones.  The flag is `self.error`;
the error result is the state in which an exception leaves the run. -/
def postProcess (canvas : Canvas Id) (round : Round Id Value) (state : State Id Value)
    (error : Bool) (id : Id) : Except (State Id Value) (State Id Value × Bool) :=
  let goto := errorGoto canvas state id
  let error := error || endsRun canvas state id
  let state := { state with path := state.path ++ goto }
  match itemEnd canvas round state id with
  | none => .error state
  | some (position, ended) =>
    let state := { state with position := Function.update state.position id position }
    match nextIds canvas round id ended with
    | none => .error state
    | some ids =>
      if goto ≠ [] then .ok (state, error)
      else .ok ({ state with
        path := extendPath state.path ids
        entry := recordEntry canvas round id ended state.entry }, error)

def postProcessAll (canvas : Canvas Id) (round : Round Id Value) :
    State Id Value → Bool → List Id → Except (State Id Value) (State Id Value × Bool)
  | state, error, [] => .ok (state, error)
  | state, error, id :: batch =>
    match postProcess canvas round state error id with
    | .error state => .error state
    | .ok (state, error) => postProcessAll canvas round state error batch

def isFillUp (canvas : Canvas Id) (id : Id) : Bool := (canvas.component id).name = .userFillUp

/-- After the batch: stop on an error, go on to a pause when a user fill-up is pending, and
to the next batch when anything is. -/
def conclude (canvas : Canvas Id) (state : State Id Value) (error : Bool) : State Id Value :=
  if error then { state with path := state.path.take state.idx, status := .failed }
  else
    let idx := state.idx + (state.batches.getLastD []).length
    if (state.path.drop idx).any (isFillUp canvas) then
      { state with idx := idx, status := .pausing }
    else if idx < state.path.length then { state with idx := idx }
    else { state with path := state.path.take idx, idx := idx, status := .finished }

def pause (canvas : Canvas Id) (state : State Id Value) : State Id Value :=
  let pending := state.path.drop state.idx
  { state with
    path := pending.filter (isFillUp canvas) ++ pending.filter fun id => !isFillUp canvas id
    filledUp := pending.filter (isFillUp canvas)
    status := .paused }

def runComponents (canvas : Canvas Id) (state : State Id Value) (round : Round Id Value) :
    State Id Value :=
  let state := runBatch canvas round state
  match postProcessAll canvas round state false (state.batches.getLastD []) with
  | .error state => { state with status := .crashed }
  | .ok (state, error) => conclude canvas state error

/-- One step of `Canvas.run`. -/
def runRound (canvas : Canvas Id) (state : State Id Value) (round : Round Id Value) :
    State Id Value :=
  match state.status with
  | .running =>
    if round.canceled then { state with status := .canceled }
    else runComponents canvas state round
  | .pausing => pause canvas state
  | _ => state

/-- The start of `Canvas.run`: the outputs of what is on the path are reset, and the path
goes on at `begin`, unless it ends with a user fill-up. -/
def beginRun (canvas : Canvas Id) (state : State Id Value) (canceled : Bool) : State Id Value :=
  let path :=
    if state.path.getLast?.any canvas.namesUserFillUp then state.path
    else state.path ++ [canvas.beginId]
  { state with
    path := path
    idx := path.length - 1
    status := if canceled then .canceled else .running
    collated := fun id => if id ∈ state.path then [] else state.collated id
    failed := fun id => decide (id ∉ state.path) && state.failed id
    batches := []
    filledUp := [] }

/-- A canvas object as it is loaded, with an empty path. -/
def loaded : State Id Value where
  path := []
  idx := 0
  status := .idle
  position _ := 0
  collated _ := []
  failed _ := false
  batches := []
  filledUp := []
  entry _ := ⟨none, [], false, 0, 0⟩

/-- The state in which `Canvas.run` enters its main loop with `path = ["begin"]`. -/
def started (canvas : Canvas Id) : State Id Value := beginRun canvas loaded false

def firstRun (canvas : Canvas Id) (rounds : List (Round Id Value)) : State Id Value :=
  Lib.Runs.run (runRound canvas) (started canvas) rounds

end RagFlow.Agent

/-!
# Batches of a canvas run

What one round does to the path and to the record of the batches, and which of the pending
components a batch starts.
-/

namespace RagFlow.Agent

variable {Id Value : Type} [DecidableEq Id]

section

variable (canvas : Canvas Id) (round : Round Id Value)

/-- The fields that neither invoking nor post-processing a component touches. -/
structure SameRun (state state' : State Id Value) : Prop where
  idx : state'.idx = state.idx
  status : state'.status = state.status
  batches : state'.batches = state.batches
  filledUp : state'.filledUp = state.filledUp

omit [DecidableEq Id] in
theorem SameRun.refl (state : State Id Value) : SameRun state state := ⟨rfl, rfl, rfl, rfl⟩

omit [DecidableEq Id] in
theorem SameRun.trans {first second third : State Id Value} (before : SameRun first second)
    (after : SameRun second third) : SameRun first third :=
  ⟨after.idx.trans before.idx, after.status.trans before.status,
    after.batches.trans before.batches, after.filledUp.trans before.filledUp⟩

theorem invoke_sameRun (state : State Id Value) (id : Id) :
    SameRun state (invoke canvas round state id) ∧
      (invoke canvas round state id).path = state.path := by
  unfold invoke
  split <;> exact ⟨⟨rfl, rfl, rfl, rfl⟩, rfl⟩

theorem foldl_invoke_sameRun (batch : List Id) (state : State Id Value) :
    SameRun state (batch.foldl (invoke canvas round) state) ∧
      (batch.foldl (invoke canvas round) state).path = state.path := by
  induction batch generalizing state with
  | nil => exact ⟨SameRun.refl state, rfl⟩
  | cons id batch ih =>
    obtain ⟨first, firstPath⟩ := invoke_sameRun canvas round state id
    obtain ⟨rest, restPath⟩ := ih (invoke canvas round state id)
    exact ⟨first.trans rest, restPath.trans firstPath⟩

theorem prefix_extendPath (path ids : List Id) : path <+: extendPath path ids := by
  induction ids generalizing path with
  | nil => exact List.prefix_refl path
  | cons id ids ih =>
    refine List.IsPrefix.trans ?_ (ih (appendPath path id))
    unfold appendPath
    split_ifs
    · exact List.prefix_refl path
    · exact List.prefix_append path [id]

def leaves (result : Except (State Id Value) (State Id Value × Bool)) : State Id Value :=
  match result with
  | .error state => state
  | .ok (state, _) => state

theorem postProcess_sameRun (state : State Id Value) (error : Bool) (id : Id) :
    SameRun state (leaves (postProcess canvas round state error id)) ∧
      state.path <+: (leaves (postProcess canvas round state error id)).path := by
  unfold postProcess
  dsimp only
  split
  · exact ⟨⟨rfl, rfl, rfl, rfl⟩, List.prefix_append _ _⟩
  · split
    · exact ⟨⟨rfl, rfl, rfl, rfl⟩, List.prefix_append _ _⟩
    · split
      · exact ⟨⟨rfl, rfl, rfl, rfl⟩, List.prefix_append _ _⟩
      · exact ⟨⟨rfl, rfl, rfl, rfl⟩,
          List.IsPrefix.trans (List.prefix_append _ _) (prefix_extendPath _ _)⟩

theorem postProcessAll_sameRun (batch : List Id) (state : State Id Value) (error : Bool) :
    SameRun state (leaves (postProcessAll canvas round state error batch)) ∧
      state.path <+: (leaves (postProcessAll canvas round state error batch)).path := by
  induction batch generalizing state error with
  | nil => exact ⟨SameRun.refl _, List.prefix_refl _⟩
  | cons id batch ih =>
    have first := postProcess_sameRun canvas round state error id
    rw [postProcessAll]
    split
    · next stopped => rwa [stopped] at first
    · next after error' continued =>
        rw [continued] at first
        obtain ⟨rest, grown⟩ := ih after error'
        exact ⟨first.1.trans rest, List.IsPrefix.trans first.2 grown⟩

end

def executed (state : State Id Value) : List Id := state.path.take state.idx

def pending (state : State Id Value) : List Id := state.path.drop state.idx

def goesOn (state : State Id Value) : Prop := state.status = .running ∨ state.status = .pausing

theorem runBatch_spec (canvas : Canvas Id) (state : State Id Value) (round : Round Id Value) :
    (runBatch canvas round state).path = executed state ++ nextBatch canvas state ∧
      (runBatch canvas round state).batches = state.batches ++ [nextBatch canvas state] ∧
      (runBatch canvas round state).idx = state.idx ∧
      (runBatch canvas round state).filledUp = state.filledUp := by
  obtain ⟨invoked, path⟩ := foldl_invoke_sameRun canvas round (nextBatch canvas state) state
  refine ⟨?_, ?_, invoked.idx, invoked.filledUp⟩
  · simp only [runBatch, invoked.idx, path, executed]
  · simp only [runBatch, invoked.batches]

theorem runComponents_cases (canvas : Canvas Id) (state : State Id Value) (round : Round Id Value) :
    ∃ after, SameRun (runBatch canvas round state) after ∧
      (runBatch canvas round state).path <+: after.path ∧
      (runComponents canvas state round = { after with status := .crashed } ∨
        ∃ error, runComponents canvas state round = conclude canvas after error) := by
  have same := postProcessAll_sameRun canvas round
    ((runBatch canvas round state).batches.getLastD []) (runBatch canvas round state) false
  unfold runComponents
  dsimp only
  split
  · next after crashed =>
      rw [crashed] at same
      exact ⟨after, same.1, same.2, Or.inl rfl⟩
  · next after error processed =>
      rw [processed] at same
      exact ⟨after, same.1, same.2, Or.inr ⟨error, rfl⟩⟩

omit [DecidableEq Id] in
theorem conclude_spec (canvas : Canvas Id) (state : State Id Value) (error : Bool)
    (inRange : state.idx + (state.batches.getLastD []).length ≤ state.path.length) :
    (conclude canvas state error).batches = state.batches ∧
      (conclude canvas state error).filledUp = state.filledUp ∧
      (goesOn (conclude canvas state error) →
        executed (conclude canvas state error) =
          state.path.take (state.idx + (state.batches.getLastD []).length) ∧
        (conclude canvas state error).idx ≤ (conclude canvas state error).path.length) := by
  simp only [conclude]
  split_ifs
  · exact ⟨rfl, rfl, fun goes => by rcases goes with goes | goes <;> cases goes⟩
  · exact ⟨rfl, rfl, fun _ => ⟨rfl, inRange⟩⟩
  · exact ⟨rfl, rfl, fun _ => ⟨rfl, inRange⟩⟩
  · exact ⟨rfl, rfl, fun goes => by rcases goes with goes | goes <;> cases goes⟩

theorem runComponents_spec (canvas : Canvas Id) {state : State Id Value} (round : Round Id Value)
    (inRange : state.idx ≤ state.path.length) :
    (runComponents canvas state round).batches = state.batches ++ [nextBatch canvas state] ∧
      (runComponents canvas state round).filledUp = state.filledUp ∧
      (goesOn (runComponents canvas state round) →
        executed (runComponents canvas state round) = executed state ++ nextBatch canvas state ∧
        (runComponents canvas state round).idx ≤
          (runComponents canvas state round).path.length) := by
  obtain ⟨ranPath, ranBatches, ranIdx, ranFilledUp⟩ := runBatch_spec canvas state round
  obtain ⟨after, same, grown, crashed | ⟨error, result⟩⟩ := runComponents_cases canvas state round
  · rw [crashed]
    exact ⟨same.batches.trans ranBatches, same.filledUp.trans ranFilledUp,
      fun goes => by rcases goes with goes | goes <;> cases goes⟩
  · have batches := same.batches.trans ranBatches
    have last : after.batches.getLastD [] = nextBatch canvas state := by simp [batches]
    have width : state.idx + (nextBatch canvas state).length =
        (executed state ++ nextBatch canvas state).length := by
      rw [List.length_append, executed, List.length_take, min_eq_left inRange]
    rw [ranPath] at grown
    obtain ⟨concludedBatches, concludedFilledUp, concluded⟩ := conclude_spec canvas
      after error (by rw [last, same.idx, ranIdx, width]; exact grown.length_le)
    rw [result]
    refine ⟨concludedBatches.trans batches,
      concludedFilledUp.trans (same.filledUp.trans ranFilledUp), fun goes => ?_⟩
    obtain ⟨front, bounded⟩ := concluded goes
    rw [last, same.idx, ranIdx, width, ← List.prefix_iff_eq_take.mp grown] at front
    exact ⟨front, bounded⟩

/-- While the run goes on, the executed part of the path lists the batches, and no user
fill-up has been invoked by a pause. -/
structure Tracked (state : State Id Value) : Prop where
  executed_eq : goesOn state → executed state = state.batches.flatten
  filledUp_eq : goesOn state → state.filledUp = []
  in_range : goesOn state → state.idx ≤ state.path.length

theorem tracked_started (canvas : Canvas Id) : Tracked (started canvas : State Id Value) where
  executed_eq _ := rfl
  filledUp_eq _ := rfl
  in_range _ := Nat.sub_le _ _

theorem tracked_runRound (canvas : Canvas Id) (state : State Id Value) (round : Round Id Value)
    (tracked : Tracked state) : Tracked (runRound canvas state round) := by
  unfold runRound
  split
  · next running =>
      split_ifs
      · constructor <;> (intro goes; rcases goes with goes | goes <;> cases goes)
      · obtain ⟨batches, filledUp, advanced⟩ :=
          runComponents_spec canvas round (tracked.in_range (Or.inl running))
        refine ⟨fun goes => ?_, fun _ => ?_, fun goes => (advanced goes).2⟩
        · rw [(advanced goes).1, batches, tracked.executed_eq (Or.inl running),
            List.flatten_append, List.flatten_singleton]
        · rw [filledUp, tracked.filledUp_eq (Or.inl running)]
  · constructor <;> (intro goes; rcases goes with goes | goes <;> cases goes)
  · exact tracked

section

variable {canvas : Canvas Id} {resumed : Bool}

theorem mayStart_mono {before before' : List Id} {id : Id} (subset : before ⊆ before')
    (starts : mayStart canvas resumed before id) : mayStart canvas resumed before' id := by
  simp only [mayStart, Bool.or_eq_true, List.all_eq_true, decide_eq_true_eq] at starts ⊢
  exact starts.imp_right fun finished ref membership => subset (finished ref membership)

theorem mayStart_append {before more : List Id} {id : Id} :
    mayStart canvas resumed (before ++ more) id ↔ mayStart canvas resumed before id ∨
      ∀ ref ∈ (canvas.component id).refs, ref ∈ before ∨ ref ∈ more := by
  simp only [mayStart, Bool.or_eq_true, List.all_eq_true, decide_eq_true_eq, List.mem_append]
  constructor
  · rintro (unchecked | finished)
    · exact Or.inl (Or.inl unchecked)
    · exact Or.inr finished
  · rintro ((unchecked | finished) | later)
    · exact Or.inl unchecked
    · exact Or.inr fun ref reads => Or.inl (finished ref reads)
    · exact Or.inr later

theorem exists_awaited {before before' : List Id} {id : Id}
    (waits : ¬mayStart canvas resumed before id) (starts : mayStart canvas resumed before' id) :
    ∃ ref ∈ (canvas.component id).refs, ref ∉ before ∧ ref ∈ before' := by
  simp only [mayStart, Bool.or_eq_true, List.all_eq_true, decide_eq_true_eq, not_or, not_forall]
    at waits starts
  obtain ⟨unchecked, ref, reads, missing⟩ := waits
  exact ⟨ref, reads, missing, starts.resolve_left (by simpa using unchecked) ref reads⟩

theorem selectBatch_append (before front rest : List Id) :
    selectBatch canvas resumed before (front ++ rest) =
      selectBatch canvas resumed before front ++
        selectBatch canvas resumed (before ++ selectBatch canvas resumed before front) rest := by
  induction front generalizing before with
  | nil => simp [selectBatch]
  | cons id front ih =>
    simp only [List.cons_append, selectBatch]
    split_ifs
    · rw [ih, List.cons_append, List.append_assoc, List.singleton_append]
    · exact ih before

theorem mem_selectBatch {before front rest : List Id} {id : Id}
    (starts : mayStart canvas resumed (before ++ selectBatch canvas resumed before front) id) :
    id ∈ selectBatch canvas resumed before (front ++ id :: rest) := by
  rw [selectBatch_append, selectBatch, if_pos starts]
  exact List.mem_append_right _ List.mem_cons_self

theorem filter_subset_selectBatch (before pending : List Id) :
    pending.filter (mayStart canvas resumed before) ⊆
      selectBatch canvas resumed before pending := by
  intro id membership
  obtain ⟨isPending, starts⟩ := List.mem_filter.mp membership
  obtain ⟨front, rest, rfl⟩ := List.append_of_mem isPending
  exact mem_selectBatch (mayStart_mono (List.subset_append_left _ _) starts)

end

/-- A workflow whose edges, error branches and references lead from lower to higher
components. -/
def Acyclic (canvas : Canvas Id) : Prop :=
  ∃ rank : Id → Nat, ∀ id,
    (∀ next ∈ (canvas.component id).downstream, rank id < rank next) ∧
    (∀ handler ∈ (canvas.component id).exceptionHandler, ∀ next ∈ handler.goto,
      rank id < rank next) ∧
    ∀ ref ∈ (canvas.component id).refs, rank ref < rank id

def plainComponent (downstream refs : List Id) : Component Id :=
  ⟨.other, downstream, none, refs, none, 0, .and⟩

def quietRound : Round Nat Nat where
  canceled := false
  errors _ := false
  next _ := []
  items _ := none
  collect _ := 0
  conditions _ := none

/-- A workflow of plain components behind `begin`, which is component zero. -/
def plainCanvas (first : List Nat) (component : Nat → Component Nat)
    (plain : ∀ id, (component id).name = .other) : Canvas Nat where
  component id := if id = 0 then { plainComponent first [] with name := .begin } else component id
  start id := id
  beginId := 0
  namesUserFillUp _ := false
  begin_name := rfl
  begin_id := rfl
  start_iteration id named := by
    split_ifs at named
    rw [plain id] at named
    cases named
  start_loop id named := by
    split_ifs at named
    rw [plain id] at named
    cases named

end RagFlow.Agent
