import Mathlib.Logic.Function.Basic
import RagFlow.Lib.Dict
import RagFlow.Lib.Runs

/-!
# The ingestion manager

The state of `IngestionManager` in `internal/admin/ingestion_manager.go` and what its goroutines do
under its lock: registrations and heartbeats of ingestors, and the dispatch of tasks to them.
-/

namespace RagFlow.Ingestion

open RagFlow.Lib

abbrev TaskId := Nat

abbrev IngestorId := Nat

abbrev StreamId := Nat

inductive TaskType where
  | startIngestionTask
  | cancelIngestionTask
  | shutdownIngestor
  deriving DecidableEq

structure Assignment where
  taskId : TaskId
  taskType : TaskType
  comeFrom : String
  assignedTo : Option IngestorId
  deriving DecidableEq

/-- The first three are set by the manager, the others by the ingestor. -/
inductive Status where
  | pending
  | dispatched
  | canceling
  | queued
  | running
  | completed
  | canceled
  | rejected
  deriving DecidableEq

def Status.Terminal (status : Status) : Prop :=
  status = .canceled ∨ status = .completed ∨ status = .rejected

instance (status : Status) : Decidable status.Terminal :=
  inferInstanceAs (Decidable (status = .canceled ∨ status = .completed ∨ status = .rejected))

structure Report where
  taskId : TaskId
  status : Status
  comeFrom : String
  errorMessage : String

/-- `HeartbeatInfo`; the reports are the entries of a map. -/
structure Heartbeat where
  deleteTaskIds : List TaskId
  taskStates : List Report
  nodup : (taskStates.map Report.taskId).Nodup

inductive Message where
  | register
  | heartbeat (info : Heartbeat)
  | taskResult (taskId : TaskId) (status : Status)

def deleteTasks {Value : Type} (tasks : Dict TaskId Value) (taskIds : List TaskId) :
    Dict TaskId Value :=
  tasks.filterKeys fun taskId => taskId ∉ taskIds

structure TaskState where
  status : Status
  comeFrom : String
  assignTo : Option IngestorId
  errorMessage : String
  deriving DecidableEq

inductive ServerStatus where
  | active
  | timeout
  deriving DecidableEq

structure IngestorState where
  id : IngestorId
  stream : StreamId
  status : ServerStatus
  deriving DecidableEq

/-- A goroutine of `tryAssign`. -/
inductive Worker where
  /-- before `SelectIngestorForTask` -/
  | selecting (task : Assignment)
  /-- before it records that there is no ingestor -/
  | parking (task : Assignment)
  /-- until a slot is freed or two seconds have passed -/
  | parked (task : Assignment)
  /-- before `Send` -/
  | sending (task : Assignment) (stream : StreamId)
  deriving DecidableEq

def Worker.task : Worker → Assignment
  | .selecting task => task
  | .parking task => task
  | .parked task => task
  | .sending task _ => task

def startIds (tasks : List Assignment) : List TaskId :=
  (tasks.filter fun task => task.taskType = .startIngestionTask).map Assignment.taskId

/-- `submitted` lists the tasks to start, `results` the states that ingestors have reported,
`canceledWaiting` the tasks whose cancellation was submitted while the manager had them, and
`revived` those of them that were sent to an ingestor later. -/
structure Manager where
  crashed : Bool
  ingestionServers : Dict IngestorId IngestorState
  taskStates : Dict TaskId TaskState
  taskQueue : List Assignment
  workers : List Worker
  nextTask : TaskId
  submitted : List TaskId
  results : List (TaskId × Status)
  canceledWaiting : List TaskId
  revived : List TaskId

namespace Manager

def empty : Manager where
  crashed := false
  ingestionServers := .empty
  taskStates := .empty
  taskQueue := []
  workers := []
  nextTask := 0
  submitted := []
  results := []
  canceledWaiting := []
  revived := []

def handleRegister (manager : Manager) (id : IngestorId) (stream : StreamId) : Manager :=
  { manager with
    ingestionServers := manager.ingestionServers.upsert id fun _ => ⟨id, stream, .active⟩ }

def updateTask (id : IngestorId) (taskStates : Dict TaskId TaskState) (report : Report) :
    Dict TaskId TaskState :=
  taskStates.modify report.taskId fun state =>
    { state with
      status := report.status
      errorMessage := report.errorMessage
      assignTo := some id }

def heartbeatTasks (taskStates : Dict TaskId TaskState) (id : IngestorId) (info : Heartbeat) :
    Dict TaskId TaskState :=
  info.taskStates.foldl (updateTask id) (deleteTasks taskStates info.deleteTaskIds)

def terminalReports (taskStates : Dict TaskId TaskState) (info : Heartbeat) :
    List (TaskId × Status) :=
  (info.taskStates.filter fun report => report.status.Terminal ∧
    report.taskId ∈ (deleteTasks taskStates info.deleteTaskIds).keys).map
      fun report => (report.taskId, report.status)

/-- `handleHeartbeat` on a stream with a registration; without an entry for the ingestor a nil
pointer is followed while the lock is held. -/
def handleHeartbeat (manager : Manager) (id : IngestorId) (info : Heartbeat) : Manager :=
  match manager.ingestionServers.get? id with
  | none => { manager with crashed := true }
  | some state =>
    let status := if state.status = .timeout then .active else state.status
    { manager with
      ingestionServers := manager.ingestionServers.upsert id fun _ => { state with status }
      taskStates := heartbeatTasks manager.taskStates id info
      results := manager.results ++ terminalReports manager.taskStates info }

/-- `cleanupIngestionServer` for a stream with a registration. -/
def cleanupIngestionServer (manager : Manager) (id : IngestorId) : Manager :=
  match manager.ingestionServers.get? id with
  | none => manager
  | some _ =>
    let tasksToDelete := (manager.taskStates.items.filter fun item =>
      item.2.assignTo = some id).map Prod.fst
    { manager with
      ingestionServers := manager.ingestionServers.erase id
      taskStates := deleteTasks manager.taskStates tasksToDelete }

def submitTask (manager : Manager) (task : Assignment) : Manager :=
  { manager with taskQueue := manager.taskQueue ++ [task] }

def waiting (manager : Manager) : List TaskId :=
  startIds (manager.taskQueue ++ manager.workers.map Worker.task)

/-- The select of `dispatchLoop`. -/
def dispatch (manager : Manager) : Manager :=
  match manager.taskQueue with
  | [] => manager
  | task :: rest =>
    { manager with
      taskQueue := rest
      workers := manager.workers ++ [.selecting task] }

def activeServers (manager : Manager) : List IngestorState :=
  (manager.ingestionServers.items.map Prod.snd).filter fun state => state.status = .active

/-- `SelectIngestorForTask`; the order of a map is any, `choice` says which active server comes
first. -/
def selectIngestorForTask (manager : Manager) (task : Assignment) (choice : Nat) :
    Manager × Option IngestorState :=
  match task.taskType with
  | .startIngestionTask =>
    match manager.activeServers[choice % manager.activeServers.length]? with
    | some ingestor =>
      ({ manager with
          taskStates := manager.taskStates.upsert task.taskId fun _ =>
            ⟨.dispatched, "CLI", some ingestor.id, ""⟩ }, some ingestor)
    | none => (manager, none)
  | .cancelIngestionTask =>
    match manager.taskStates.get? task.taskId with
    | none => (manager, none)
    | some state =>
      let target := state.assignTo.bind manager.ingestionServers.get?
      match state.status with
      | .completed => (manager, none)
      | .dispatched =>
        ({ manager with
            taskStates := manager.taskStates.modify task.taskId fun state =>
              { state with status := .canceling } }, target)
      | _ => (manager, target)
  | .shutdownIngestor => (manager, task.assignedTo.bind manager.ingestionServers.get?)

/-- The part of `tryAssign` around `SelectIngestorForTask`. -/
def select (manager : Manager) (index choice : Nat) : Manager :=
  match manager.workers[index]? with
  | some (.selecting task) =>
    match manager.selectIngestorForTask task choice with
    | (manager, some target) =>
      { manager with
        workers := manager.workers.set index
          (.sending { task with assignedTo := some target.id } target.stream) }
    | (manager, none) =>
      if task.taskType = .startIngestionTask then
        { manager with workers := manager.workers.set index (.parking task) }
      else { manager with workers := manager.workers.eraseIdx index }
  | _ => manager

def park (manager : Manager) (index : Nat) : Manager :=
  match manager.workers[index]? with
  | some (.parking task) =>
    { manager with
      taskStates := manager.taskStates.upsert task.taskId fun _ =>
        ⟨.pending, task.comeFrom, none, ""⟩
      workers := manager.workers.set index (.parked task) }
  | _ => manager

def wake (manager : Manager) (index : Nat) : Manager :=
  match manager.workers[index]? with
  | some (.parked task) =>
    { manager with workers := manager.workers.set index (.selecting task) }
  | _ => manager

/-- `assignToIngestor` after its `Send`. -/
def sent (manager : Manager) (index : Nat) (succeeds : Bool) : Manager :=
  match manager.workers[index]? with
  | some (.sending task _) =>
    let manager := { manager with workers := manager.workers.eraseIdx index }
    if succeeds then
      if task.taskType = .startIngestionTask ∧ task.taskId ∈ manager.canceledWaiting then
        { manager with revived := manager.revived ++ [task.taskId] }
      else manager
    else manager.submitTask task
  | _ => manager

theorem handleHeartbeat_of_entry {manager : Manager} {id : IngestorId} {old : IngestorState}
    (found : manager.ingestionServers.get? id = some old) (info : Heartbeat) :
    ∃ status, manager.handleHeartbeat id info =
      { manager with
        ingestionServers := manager.ingestionServers.upsert id fun _ => { old with status }
        taskStates := heartbeatTasks manager.taskStates id info
        results := manager.results ++ terminalReports manager.taskStates info } := by
  unfold handleHeartbeat
  rw [found]
  exact ⟨_, rfl⟩

theorem get?_updateTasks_of_notMem (id : IngestorId) {taskId : TaskId} :
    ∀ (reports : List Report) (taskStates : Dict TaskId TaskState),
      taskId ∉ reports.map Report.taskId →
        (reports.foldl (updateTask id) taskStates).get? taskId = taskStates.get? taskId
  | [], _, _ => rfl
  | report :: reports, taskStates, absent => by
    obtain ⟨isOther, absentRest⟩ := not_or.mp (mt List.mem_cons.mpr absent)
    rw [List.foldl_cons, get?_updateTasks_of_notMem id reports _ absentRest, updateTask,
      Dict.get?_modify, if_neg isOther]

theorem get?_updateTasks (id : IngestorId) {report : Report} :
    ∀ (reports : List Report) (taskStates : Dict TaskId TaskState),
      (reports.map Report.taskId).Nodup → report ∈ reports → report.taskId ∈ taskStates.keys →
        ∃ state, (reports.foldl (updateTask id) taskStates).get? report.taskId = some state ∧
          state.status = report.status ∧ state.assignTo = some id
  | first :: reports, taskStates, nodup, isMem, known => by
    obtain ⟨absent, nodupRest⟩ := List.nodup_cons.mp nodup
    obtain ⟨old, found⟩ := Dict.mem_keys.mp known
    rw [List.foldl_cons]
    cases List.mem_cons.mp isMem with
    | inl isFirst =>
      subst isFirst
      rw [get?_updateTasks_of_notMem id reports _ absent, updateTask, Dict.get?_modify,
        if_pos rfl, found]
      exact ⟨_, rfl, rfl, rfl⟩
    | inr isRest =>
      refine get?_updateTasks id reports _ nodupRest isRest ?_
      rw [updateTask, Dict.keys_modify]
      exact known

theorem get?_cleanupIngestionServer (manager : Manager) (id other : IngestorId) :
    (manager.cleanupIngestionServer id).ingestionServers.get? other =
      if other = id then none else manager.ingestionServers.get? other := by
  unfold cleanupIngestionServer
  split
  · rename_i absent
    split_ifs with same
    · rw [same, absent]
    · rfl
  · exact Dict.get?_erase ..

theorem crashed_cleanupIngestionServer (manager : Manager) (id : IngestorId) :
    (manager.cleanupIngestionServer id).crashed = manager.crashed := by
  unfold cleanupIngestionServer
  split <;> rfl

def SameRegistry (before after : Manager) : Prop :=
  after.ingestionServers = before.ingestionServers ∧ after.crashed = before.crashed

variable {manager : Manager}

theorem sameRegistry_dispatch : SameRegistry manager manager.dispatch := by
  unfold dispatch
  split <;> exact ⟨rfl, rfl⟩

theorem sameRegistry_selectIngestorForTask (manager : Manager) (task : Assignment)
    (choice : Nat) : SameRegistry manager (manager.selectIngestorForTask task choice).1 := by
  unfold selectIngestorForTask
  split
  · split <;> exact ⟨rfl, rfl⟩
  · split
    · exact ⟨rfl, rfl⟩
    · dsimp only
      split <;> exact ⟨rfl, rfl⟩
  · exact ⟨rfl, rfl⟩

theorem sameRegistry_select (index choice : Nat) :
    SameRegistry manager (manager.select index choice) := by
  unfold select
  split
  · rename_i task _
    have same := sameRegistry_selectIngestorForTask manager task choice
    split
    · rename_i selected target found
      rw [found] at same
      exact same
    · rename_i selected found
      rw [found] at same
      split_ifs <;> exact same
  · exact ⟨rfl, rfl⟩

theorem sameRegistry_park (index : Nat) : SameRegistry manager (manager.park index) := by
  unfold park
  split <;> exact ⟨rfl, rfl⟩

theorem sameRegistry_wake (index : Nat) : SameRegistry manager (manager.wake index) := by
  unfold wake
  split <;> exact ⟨rfl, rfl⟩

theorem sameRegistry_sent (index : Nat) (succeeds : Bool) :
    SameRegistry manager (manager.sent index succeeds) := by
  unfold sent
  split
  · dsimp only
    split_ifs <;> exact ⟨rfl, rfl⟩
  · exact ⟨rfl, rfl⟩

end Manager

end RagFlow.Ingestion

/-!
# An ingestor

The state of `Ingestor` in `internal/ingestion/ingestion_service.go` and what its loops do: the
receive loop, the workers and the heartbeat loop.  What they send is put in an outbox first, since
each of them sends on the stream that is current when it comes to that.
-/

namespace RagFlow.Ingestion

open RagFlow.Lib

/-- `TaskContext`; `canceled` says that its context is done. -/
structure TaskContext where
  status : Status
  canceled : Bool
  comeFrom : String
  errorMessage : String
  deriving DecidableEq

/-- `handling` are the tasks the receive loop has put in the map and not yet in the channel,
`executed` those that a worker has begun to execute. -/
structure Ingestor where
  id : IngestorId
  maxConcurrency : Nat
  stream : Option StreamId
  currentTasks : Dict TaskId TaskContext
  handling : List TaskId
  taskChan : List TaskId
  running : List TaskId
  executed : List TaskId
  outbox : List Message
  shutdown : Bool

namespace Ingestor

def new (id : IngestorId) (maxConcurrency : Nat) : Ingestor where
  id := id
  maxConcurrency := maxConcurrency
  stream := none
  currentTasks := .empty
  handling := []
  taskChan := []
  running := []
  executed := []
  outbox := []
  shutdown := false

def finish (ingestor : Ingestor) (taskId : TaskId) (status : Status) : Ingestor :=
  { ingestor with
    currentTasks := ingestor.currentTasks.modify taskId fun context => { context with status }
    outbox := ingestor.outbox ++ [.taskResult taskId status] }

def handleCancelTask (ingestor : Ingestor) (taskId : TaskId) : Ingestor :=
  { ingestor with
    currentTasks := ingestor.currentTasks.modify taskId fun context =>
      { context with canceled := true } }

/-- `handleTaskAssignment` until the task is offered to the channel. -/
def handleTaskAssignment (ingestor : Ingestor) (task : Assignment) : Ingestor :=
  match task.taskType with
  | .shutdownIngestor =>
    if task.assignedTo = some ingestor.id then { ingestor with shutdown := true } else ingestor
  | .cancelIngestionTask => ingestor.handleCancelTask task.taskId
  | .startIngestionTask =>
    { ingestor with
      currentTasks := ingestor.currentTasks.upsert task.taskId fun _ =>
        ⟨.queued, false, task.comeFrom, ""⟩
      handling := ingestor.handling ++ [task.taskId] }

/-- The rest of `handleTaskAssignment`. -/
def offer (ingestor : Ingestor) (index : Nat) : Ingestor :=
  match ingestor.handling[index]? with
  | none => ingestor
  | some taskId =>
    let ingestor := { ingestor with handling := ingestor.handling.eraseIdx index }
    if ingestor.taskChan.length < ingestor.maxConcurrency * 2 then
      { ingestor with taskChan := ingestor.taskChan ++ [taskId] }
    else ingestor.finish taskId .rejected

/-- `workerLoop` until the task is executed. -/
def take (ingestor : Ingestor) : Ingestor :=
  if ingestor.running.length < ingestor.maxConcurrency then
    match ingestor.taskChan with
    | [] => ingestor
    | taskId :: rest =>
      let ingestor := { ingestor with taskChan := rest }
      match ingestor.currentTasks.get? taskId with
      | none => ingestor
      | some context =>
        if context.canceled then ingestor.finish taskId .canceled
        else
          { ingestor with
            currentTasks := ingestor.currentTasks.modify taskId fun context =>
              { context with status := .running }
            running := ingestor.running ++ [taskId]
            executed := ingestor.executed ++ [taskId] }
  else ingestor

/-- The end of `executeTask`; a cancellation that comes after the last progress is not seen. -/
def execute (ingestor : Ingestor) (index : Nat) (seesCancel : Bool) : Ingestor :=
  match ingestor.running[index]? with
  | none => ingestor
  | some taskId =>
    let ingestor := { ingestor with running := ingestor.running.eraseIdx index }
    match ingestor.currentTasks.get? taskId with
    | none => ingestor
    | some context =>
      ingestor.finish taskId (if context.canceled && seesCancel then .canceled else .completed)

def expiredTasks (ingestor : Ingestor) (expired : List TaskId) : List TaskId :=
  (ingestor.currentTasks.items.filter fun item =>
    item.2.status.Terminal ∧ item.1 ∈ expired).map Prod.fst

def report (item : TaskId × TaskContext) : Report :=
  ⟨item.1, item.2.status, item.2.comeFrom, item.2.errorMessage⟩

/-- The heartbeat of an ingestor; `expired` says which tasks ended long enough ago. -/
def heartbeat (ingestor : Ingestor) (expired : List TaskId) : Heartbeat where
  deleteTaskIds := ingestor.expiredTasks expired
  taskStates :=
    (deleteTasks ingestor.currentTasks (ingestor.expiredTasks expired)).items.map report
  nodup := by
    rw [List.map_map]
    exact (deleteTasks ingestor.currentTasks (ingestor.expiredTasks expired)).nodup

/-- `sendHeartbeat` until its `Send`. -/
def sendHeartbeat (ingestor : Ingestor) (expired : List TaskId) : Ingestor :=
  { ingestor with
    currentTasks := deleteTasks ingestor.currentTasks (ingestor.expiredTasks expired)
    outbox := ingestor.outbox ++ [.heartbeat (ingestor.heartbeat expired)] }

/-- `Connect` or `reconnect` with a new stream. -/
def connect (ingestor : Ingestor) (stream : StreamId) : Ingestor :=
  { ingestor with
    stream := some stream
    outbox := ingestor.outbox ++ [.register] }

variable {ingestor : Ingestor}

theorem handleTaskAssignment_stream (task : Assignment) :
    (ingestor.handleTaskAssignment task).stream = ingestor.stream := by
  unfold handleTaskAssignment
  split
  · split_ifs <;> rfl
  · rfl
  · rfl

theorem offer_stream (index : Nat) : (ingestor.offer index).stream = ingestor.stream := by
  unfold offer
  split
  · rfl
  · dsimp only
    split_ifs <;> rfl

theorem take_stream : ingestor.take.stream = ingestor.stream := by
  unfold take
  split_ifs
  · split
    · rfl
    · dsimp only
      split
      · rfl
      · split_ifs <;> rfl
  · rfl

theorem execute_stream (index : Nat) (seesCancel : Bool) :
    (ingestor.execute index seesCancel).stream = ingestor.stream := by
  unfold execute
  split
  · rfl
  · dsimp only
    split <;> rfl

end Ingestor

end RagFlow.Ingestion

/-!
# The manager, its ingestors and the streams between them

One step of the system is one critical section of the manager, one step of a loop of an ingestor, or
something that happens to a stream.  A stream can fail at any time, and either side notices it at
any later time.
-/

namespace RagFlow.Ingestion

open RagFlow.Lib

/-- A call of `Action`: `noticed` says that the manager has cleaned up after it. -/
structure Stream where
  ingestor : IngestorId
  live : Bool
  noticed : Bool
  registered : Bool
  toManager : List Message
  toIngestor : List Assignment

def Stream.unopened : Stream where
  ingestor := 0
  live := false
  noticed := true
  registered := false
  toManager := []
  toIngestor := []

def Stream.open (ingestor : IngestorId) : Stream where
  ingestor := ingestor
  live := true
  noticed := false
  registered := false
  toManager := []
  toIngestor := []

structure System where
  manager : Manager
  streams : StreamId → Stream
  opened : Nat
  ingestors : IngestorId → Ingestor

def start (maxConcurrency : IngestorId → Nat) : System where
  manager := .empty
  streams _ := .unopened
  opened := 0
  ingestors id := .new id (maxConcurrency id)

inductive Move where
  -- requests
  | startTask (comeFrom : String)
  | cancelTask (taskId : TaskId) (comeFrom : String)
  | shutdownIngestor (id : IngestorId)
  -- the manager
  | dispatches
  | selects (index choice : Nat)
  | parks (index : Nat)
  | wakes (index : Nat)
  | sends (index : Nat) (succeeds : Bool)
  | receives (stream : StreamId)
  | notices (stream : StreamId)
  -- the streams
  | breaks (stream : StreamId)
  -- the ingestors
  | connects (id : IngestorId)
  | ingestorReceives (id : IngestorId)
  | offers (id : IngestorId) (index : Nat)
  | takes (id : IngestorId)
  | executes (id : IngestorId) (index : Nat) (seesCancel : Bool)
  | sendsHeartbeat (id : IngestorId) (expired : List TaskId)
  | ingestorSends (id : IngestorId) (index : Nat) (succeeds : Bool)

namespace System

def setIngestor (system : System) (id : IngestorId) (ingestor : Ingestor) : System :=
  { system with ingestors := Function.update system.ingestors id ingestor }

def setStream (system : System) (id : StreamId) (stream : Stream) : System :=
  { system with streams := Function.update system.streams id stream }

def startTask (system : System) (comeFrom : String) : System :=
  let manager := system.manager
  { system with
    manager :=
      { manager with
        nextTask := manager.nextTask + 1
        submitted := manager.submitted ++ [manager.nextTask] }.submitTask
          ⟨manager.nextTask, .startIngestionTask, comeFrom, none⟩ }

def cancelTask (system : System) (taskId : TaskId) (comeFrom : String) : System :=
  let manager := system.manager
  let canceledWaiting :=
    if taskId ∈ manager.waiting then manager.canceledWaiting ++ [taskId]
    else manager.canceledWaiting
  { system with
    manager := { manager with canceledWaiting }.submitTask
      ⟨taskId, .cancelIngestionTask, comeFrom, none⟩ }

def shutdownIngestor (system : System) (id : IngestorId) : System :=
  let manager := system.manager
  { system with
    manager := { manager with nextTask := manager.nextTask + 1 }.submitTask
      ⟨manager.nextTask, .shutdownIngestor, "", some id⟩ }

/-- `Send` of the manager; a message sent on a stream that has failed is lost even if the sender
does not see it. -/
def send (system : System) (index : Nat) (succeeds : Bool) : System :=
  match system.manager.workers[index]? with
  | some (.sending task id) =>
    let stream := system.streams id
    let system :=
      if succeeds && stream.live then
        system.setStream id { stream with toIngestor := stream.toIngestor ++ [task] }
      else system
    { system with manager := system.manager.sent index succeeds }
  | _ => system

/-- `handleMessage` -/
def receive (system : System) (id : StreamId) : System :=
  let stream := system.streams id
  match stream.toManager with
  | [] => system
  | message :: rest =>
    let stream := { stream with toManager := rest }
    match message with
    | .register =>
      { system.setStream id { stream with registered := true } with
        manager := system.manager.handleRegister stream.ingestor id }
    | .heartbeat info =>
      { system.setStream id stream with
        manager :=
          if stream.registered then system.manager.handleHeartbeat stream.ingestor info
          else system.manager }
    | .taskResult taskId status =>
      { system.setStream id stream with
        manager := { system.manager with
          results := system.manager.results ++ [(taskId, status)] } }

/-- The end of `Action`. -/
def notice (system : System) (id : StreamId) : System :=
  let stream := system.streams id
  if stream.live || stream.noticed then system
  else
    { system.setStream id { stream with noticed := true } with
      manager :=
        if stream.registered then system.manager.cleanupIngestionServer stream.ingestor
        else system.manager }

def breakStream (system : System) (id : StreamId) : System :=
  system.setStream id { system.streams id with live := false }

/-- `Connect` and `reconnect`: the old stream is closed first. -/
def connect (system : System) (id : IngestorId) : System :=
  let ingestor := system.ingestors id
  let system :=
    match ingestor.stream with
    | some old =>
      system.setStream old { system.streams old with live := false, toIngestor := [] }
    | none => system
  { (system.setStream system.opened (.open id)).setIngestor id (ingestor.connect system.opened) with
    opened := system.opened + 1 }

def ingestorReceive (system : System) (id : IngestorId) : System :=
  let ingestor := system.ingestors id
  match ingestor.stream with
  | none => system
  | some streamId =>
    let stream := system.streams streamId
    match stream.toIngestor with
    | [] => system
    | task :: rest =>
      (system.setStream streamId { stream with toIngestor := rest }).setIngestor id
        (ingestor.handleTaskAssignment task)

/-- `Send` of an ingestor on its current stream. -/
def ingestorSend (system : System) (id : IngestorId) (index : Nat) (succeeds : Bool) : System :=
  let ingestor := system.ingestors id
  match ingestor.outbox[index]?, ingestor.stream with
  | some message, some streamId =>
    let system :=
      system.setIngestor id { ingestor with outbox := ingestor.outbox.eraseIdx index }
    let stream := system.streams streamId
    if succeeds && stream.live then
      system.setStream streamId { stream with toManager := stream.toManager ++ [message] }
    else system
  | _, _ => system

def byManager (system after : System) : System := if system.manager.crashed then system else after

def step (system : System) : Move → System
  | .startTask comeFrom => system.byManager (system.startTask comeFrom)
  | .cancelTask taskId comeFrom => system.byManager (system.cancelTask taskId comeFrom)
  | .shutdownIngestor id => system.byManager (system.shutdownIngestor id)
  | .dispatches => system.byManager { system with manager := system.manager.dispatch }
  | .selects index choice =>
    system.byManager { system with manager := system.manager.select index choice }
  | .parks index => system.byManager { system with manager := system.manager.park index }
  | .wakes index => system.byManager { system with manager := system.manager.wake index }
  | .sends index succeeds => system.byManager (system.send index succeeds)
  | .receives id => system.byManager (system.receive id)
  | .notices id => system.byManager (system.notice id)
  | .breaks id => system.breakStream id
  | .connects id => system.connect id
  | .ingestorReceives id => system.ingestorReceive id
  | .offers id index => system.setIngestor id ((system.ingestors id).offer index)
  | .takes id => system.setIngestor id (system.ingestors id).take
  | .executes id index seesCancel =>
    system.setIngestor id ((system.ingestors id).execute index seesCancel)
  | .sendsHeartbeat id expired =>
    system.setIngestor id ((system.ingestors id).sendHeartbeat expired)
  | .ingestorSends id index succeeds => system.ingestorSend id index succeeds

end System

end RagFlow.Ingestion
