import RagFlow.Ingestion.Registry
import RagFlow.Lib.Custody

/-!
# Tasks are neither lost nor doubled

Where a submitted task is: with the manager, in flight on a stream, or with an ingestor.  Each step
keeps it in one place or moves it on, except for the steps that lose it.
-/

namespace RagFlow.Ingestion

open RagFlow.Lib

variable (system : System)

def InManager (taskId : TaskId) : Prop := taskId ∈ system.manager.waiting

def AssignedTo (id : IngestorId) (taskId : TaskId) : Prop :=
  taskId ∈ (system.ingestors id).currentTasks.keys ∨
    ∃ stream, (system.streams stream).ingestor = id ∧
      taskId ∈ startIds (system.streams stream).toIngestor

def Reported (taskId : TaskId) : Prop :=
  ∃ result ∈ system.manager.results, result.1 = taskId ∧ result.2.Terminal

instance (taskId : TaskId) : Decidable (Reported system taskId) :=
  inferInstanceAs
    (Decidable (∃ result ∈ system.manager.results, result.1 = taskId ∧ result.2.Terminal))

structure Conserved : Prop where
  alive : system.manager.crashed = false
  placed : ∀ taskId ∈ system.manager.submitted,
    InManager system taskId ∨ (∃ id, AssignedTo system id taskId) ∨ Reported system taskId
  apart : ∀ id taskId, InManager system taskId → ¬ AssignedTo system id taskId
  one : ∀ id other taskId, AssignedTo system id taskId → AssignedTo system other taskId →
    id = other
  executedOnce : ∀ id other taskId, taskId ∈ (system.ingestors id).executed →
    taskId ∈ (system.ingestors other).executed → id = other
  notRevived : system.manager.revived = []

/-- No cancellation comes while the manager has the task; a message that is sent goes out on a live
stream; a heartbeat finds the entry of its ingestor; no task is on the way to an ingestor that
reconnects; an ingestor forgets only what the manager has been told. -/
def Lossless : Move → Prop
  | .cancelTask taskId _ => taskId ∉ system.manager.waiting
  | .sends index succeeds =>
    match system.manager.workers[index]? with
    | some (.sending task id) =>
      task.taskType = .startIngestionTask → succeeds = true → (system.streams id).live = true
    | _ => True
  | .receives id =>
    match (system.streams id).toManager with
    | .heartbeat _ :: _ => (system.streams id).registered = true →
        (system.manager.ingestionServers.get? (system.streams id).ingestor).isSome = true
    | _ => True
  | .connects id => ∀ old ∈ (system.ingestors id).stream,
      startIds (system.streams old).toIngestor = []
  | .sendsHeartbeat id expired =>
    ∀ taskId ∈ (system.ingestors id).expiredTasks expired, Reported system taskId
  | _ => True

def sending? : Worker → Option (Assignment × StreamId)
  | .sending task id => some (task, id)
  | _ => none

def isHeartbeat : Message → Bool
  | .heartbeat _ => true
  | _ => false

theorem lossless_sends_iff {system : System} {index : Nat} {succeeds : Bool} :
    Lossless system (.sends index succeeds) ↔
      ∀ sent ∈ system.manager.workers[index]?.bind sending?,
        sent.1.taskType = .startIngestionTask → succeeds = true →
          (system.streams sent.2).live = true := by
  cases found : system.manager.workers[index]? with
  | none => simp [Lossless, found]
  | some worker => cases worker <;> simp [Lossless, found, sending?]

theorem lossless_receives_iff {system : System} {id : StreamId} :
    Lossless system (.receives id) ↔
      (∃ message ∈ (system.streams id).toManager.head?, isHeartbeat message = true) →
        (system.streams id).registered = true →
          (system.manager.ingestionServers.get? (system.streams id).ingestor).isSome = true := by
  cases queue : (system.streams id).toManager with
  | nil => simp [Lossless, queue]
  | cons message messages => cases message <;> simp [Lossless, queue, isHeartbeat]

instance : DecidableRel Lossless := fun system move =>
  match move with
  | .sends .. => decidable_of_iff _ lossless_sends_iff.symm
  | .receives _ => decidable_of_iff _ lossless_receives_iff.symm
  | .cancelTask taskId _ => inferInstanceAs (Decidable (taskId ∉ system.manager.waiting))
  | .connects id => inferInstanceAs (Decidable (∀ old ∈ (system.ingestors id).stream,
      startIds (system.streams old).toIngestor = []))
  | .sendsHeartbeat id expired => inferInstanceAs (Decidable
      (∀ taskId ∈ (system.ingestors id).expiredTasks expired, Reported system taskId))
  | .startTask _ | .shutdownIngestor _ | .dispatches | .selects .. | .parks _ | .wakes _
  | .notices _ | .breaks _ | .ingestorReceives _ | .offers .. | .takes _ | .executes ..
  | .ingestorSends .. => isTrue trivial

inductive Place where
  | manager
  | flight (stream : StreamId)
  | ingestor (id : IngestorId)
  deriving DecidableEq

def held : Place → List TaskId
  | .manager => system.manager.waiting
  | .flight stream => startIds (system.streams stream).toIngestor
  | .ingestor id => (system.ingestors id).currentTasks.keys

variable {system : System}

theorem startIds_append (first second : List Assignment) :
    startIds (first ++ second) = startIds first ++ startIds second := by
  simp [startIds]

theorem startIds_perm {first second : List Assignment} (perm : first.Perm second) :
    (startIds first).Perm (startIds second) :=
  (perm.filter _).map _

theorem startIds_cons_of_start {task : Assignment} (isStart : task.taskType = .startIngestionTask)
    (tasks : List Assignment) : startIds (task :: tasks) = task.taskId :: startIds tasks := by
  simp [startIds, isStart]

theorem startIds_cons_of_other {task : Assignment} (isOther : task.taskType ≠ .startIngestionTask)
    (tasks : List Assignment) : startIds (task :: tasks) = startIds tasks := by
  simp [startIds, isOther]

theorem exists_around {Element : Type} {list : List Element} {index : Nat} {element : Element}
    (found : list[index]? = some element) :
    ∃ before after, list = before ++ element :: after ∧
      (∀ other, list.set index other = before ++ other :: after) ∧
      list.eraseIdx index = before ++ after := by
  obtain ⟨inside, isElement⟩ := List.getElem?_eq_some_iff.mp found
  refine ⟨list.take index, list.drop (index + 1), ?_, ?_, List.eraseIdx_eq_take_drop_succ ..⟩
  · rw [← isElement, List.getElem_cons_drop, List.take_append_drop]
  · exact fun other => List.set_eq_take_append_cons_drop .. |>.trans (if_pos inside)

theorem startIds_cons_congr {first second : Assignment}
    (sameType : second.taskType = first.taskType) (sameId : second.taskId = first.taskId)
    (tasks : List Assignment) :
    startIds (second :: tasks) = startIds (first :: tasks) := by
  simp only [startIds, List.filter_cons, sameType]
  split_ifs
  · rw [List.map_cons, List.map_cons, sameId]
  · rfl

theorem exists_others (queue : List Assignment) {workers : List Worker} {index : Nat}
    {worker : Worker} (found : workers[index]? = some worker) :
    ∃ others, (queue ++ workers.map Worker.task).Perm (worker.task :: others) ∧
      (∀ next, (queue ++ (workers.set index next).map Worker.task).Perm (next.task :: others)) ∧
      queue ++ (workers.eraseIdx index).map Worker.task = others := by
  obtain ⟨before, after, split, set, erase⟩ := exists_around found
  refine ⟨queue ++ (before ++ after).map Worker.task, ?_, fun next => ?_, by rw [erase]⟩
  · rw [split, List.map_append, List.map_cons, List.map_append, ← List.append_assoc,
      ← List.append_assoc]
    exact List.perm_middle
  · rw [set, List.map_append, List.map_cons, List.map_append, ← List.append_assoc,
      ← List.append_assoc]
    exact List.perm_middle

namespace Manager

variable {manager : Manager}

theorem waiting_submitTask (task : Assignment) :
    (manager.submitTask task).waiting.Perm (startIds [task] ++ manager.waiting) := by
  have moved : (manager.taskQueue ++ [task] ++ manager.workers.map Worker.task).Perm
      ([task] ++ (manager.taskQueue ++ manager.workers.map Worker.task)) := by
    rw [List.append_assoc]
    exact List.perm_middle
  rw [waiting, waiting, ← startIds_append]
  exact startIds_perm moved

theorem waiting_set {index : Nat} {worker next : Worker}
    (found : manager.workers[index]? = some worker)
    (sameType : next.task.taskType = worker.task.taskType)
    (sameId : next.task.taskId = worker.task.taskId) :
    (startIds (manager.taskQueue ++ (manager.workers.set index next).map Worker.task)).Perm
      manager.waiting := by
  obtain ⟨others, perm, set, -⟩ := exists_others manager.taskQueue found
  have after := startIds_perm (set next)
  rw [startIds_cons_congr sameType sameId] at after
  exact after.trans (startIds_perm perm).symm

theorem waiting_eraseIdx {index : Nat} {worker : Worker}
    (found : manager.workers[index]? = some worker) :
    manager.waiting.Perm (startIds (worker.task ::
      (manager.taskQueue ++ (manager.workers.eraseIdx index).map Worker.task))) := by
  obtain ⟨others, perm, -, rfl⟩ := exists_others manager.taskQueue found
  exact startIds_perm perm

theorem waiting_dispatch (manager : Manager) : manager.dispatch.waiting.Perm manager.waiting := by
  unfold dispatch
  cases queue : manager.taskQueue with
  | nil => exact .refl _
  | cons task rest =>
    have moved : (rest ++ (manager.workers ++ [Worker.selecting task]).map Worker.task).Perm
        (task :: rest ++ manager.workers.map Worker.task) := by
      rw [List.map_append, List.map_singleton, ← List.append_assoc]
      exact List.perm_append_singleton ..
    rw [waiting, waiting, queue]
    exact startIds_perm moved

/-- The tasks are where they were, and nothing that was reported is forgotten. -/
structure SameTasks (before after : Manager) : Prop where
  waiting : after.waiting.Perm before.waiting
  submitted : after.submitted = before.submitted
  nextTask : before.nextTask ≤ after.nextTask
  results : before.results ⊆ after.results
  canceledWaiting : after.canceledWaiting = before.canceledWaiting
  revived : after.revived = before.revived

theorem SameTasks.refl (manager : Manager) : SameTasks manager manager :=
  ⟨.refl _, rfl, Nat.le_refl _, List.Subset.refl _, rfl, rfl⟩

theorem sameTasks_dispatch : SameTasks manager manager.dispatch := by
  have waiting := manager.waiting_dispatch
  unfold dispatch at waiting ⊢
  split at waiting
  · exact .refl manager
  · exact ⟨waiting, rfl, Nat.le_refl _, List.Subset.refl _, rfl, rfl⟩

theorem selectIngestorForTask_eq (manager : Manager) (task : Assignment) (choice : Nat) :
    ∃ taskStates, (manager.selectIngestorForTask task choice).1 = { manager with taskStates } := by
  unfold selectIngestorForTask
  split
  · split <;> exact ⟨_, rfl⟩
  · split
    · exact ⟨_, rfl⟩
    · dsimp only
      split <;> exact ⟨_, rfl⟩
  · exact ⟨_, rfl⟩

theorem sameTasks_select (index choice : Nat) :
    SameTasks manager (manager.select index choice) := by
  unfold select
  split
  · rename_i task found
    obtain ⟨taskStates, selected⟩ := selectIngestorForTask_eq manager task choice
    split
    · rename_i after target chosen
      rw [chosen] at selected
      cases selected
      exact ⟨waiting_set found rfl rfl, rfl, Nat.le_refl _, List.Subset.refl _, rfl, rfl⟩
    · rename_i after none
      rw [none] at selected
      cases selected
      split_ifs with isStart
      · exact ⟨waiting_set found rfl rfl, rfl, Nat.le_refl _, List.Subset.refl _, rfl, rfl⟩
      · have waiting := waiting_eraseIdx found
        rw [Worker.task, startIds_cons_of_other isStart] at waiting
        exact ⟨waiting.symm, rfl, Nat.le_refl _, List.Subset.refl _, rfl, rfl⟩
  · exact .refl manager

theorem sameTasks_park (index : Nat) : SameTasks manager (manager.park index) := by
  unfold park
  split
  · rename_i task found
    exact ⟨waiting_set found rfl rfl, rfl, Nat.le_refl _, List.Subset.refl _, rfl, rfl⟩
  · exact .refl manager

theorem sameTasks_wake (index : Nat) : SameTasks manager (manager.wake index) := by
  unfold wake
  split
  · rename_i task found
    exact ⟨waiting_set found rfl rfl, rfl, Nat.le_refl _, List.Subset.refl _, rfl, rfl⟩
  · exact .refl manager

theorem sameTasks_cleanup (id : IngestorId) :
    SameTasks manager (manager.cleanupIngestionServer id) := by
  unfold cleanupIngestionServer
  split <;> exact ⟨.refl _, rfl, Nat.le_refl _, List.Subset.refl _, rfl, rfl⟩

theorem sameTasks_heartbeat {id : IngestorId} {old : IngestorState}
    (found : manager.ingestionServers.get? id = some old) (info : Heartbeat) :
    SameTasks manager (manager.handleHeartbeat id info) := by
  obtain ⟨status, handled⟩ := handleHeartbeat_of_entry found info
  rw [handled]
  exact ⟨.refl _, rfl, Nat.le_refl _, List.subset_append_left _ _, rfl, rfl⟩

theorem sameTasks_sent_failed {index : Nat} {task : Assignment} {stream : StreamId}
    (found : manager.workers[index]? = some (.sending task stream)) :
    SameTasks manager (manager.sent index false) := by
  have erased := waiting_eraseIdx found
  rw [← List.singleton_append, startIds_append] at erased
  have requeued : manager.sent index false =
      { manager with workers := manager.workers.eraseIdx index }.submitTask task := by
    rw [sent, found]
    rfl
  rw [requeued]
  exact ⟨(waiting_submitTask task).trans erased.symm, rfl, Nat.le_refl _,
    List.Subset.refl _, rfl, rfl⟩

theorem sameTasks_sent_other {index : Nat} {task : Assignment} {stream : StreamId}
    (found : manager.workers[index]? = some (.sending task stream))
    (isOther : task.taskType ≠ .startIngestionTask) :
    SameTasks manager (manager.sent index true) := by
  have erased := waiting_eraseIdx found
  rw [Worker.task, startIds_cons_of_other isOther] at erased
  rw [sent, found]
  simp only [if_true, isOther, false_and, if_false]
  exact ⟨erased.symm, rfl, Nat.le_refl _, List.Subset.refl _, rfl, rfl⟩

end Manager

namespace Ingestor

def SameTasks (before after : Ingestor) : Prop :=
  after.currentTasks.keys = before.currentTasks.keys ∧ after.executed = before.executed

variable {ingestor : Ingestor}

theorem keys_finish (taskId : TaskId) (status : Status) :
    (ingestor.finish taskId status).currentTasks.keys = ingestor.currentTasks.keys :=
  Dict.keys_modify ..

theorem sameTasks_offer (index : Nat) : SameTasks ingestor (ingestor.offer index) := by
  unfold offer
  split
  · exact ⟨rfl, rfl⟩
  · dsimp only
    split_ifs
    · exact ⟨rfl, rfl⟩
    · exact ⟨keys_finish .., rfl⟩

theorem sameTasks_execute (index : Nat) (seesCancel : Bool) :
    SameTasks ingestor (ingestor.execute index seesCancel) := by
  unfold execute
  split
  · exact ⟨rfl, rfl⟩
  · dsimp only
    split
    · exact ⟨rfl, rfl⟩
    · exact ⟨keys_finish .., rfl⟩

theorem take_cases (ingestor : Ingestor) : SameTasks ingestor ingestor.take ∨
    ∃ taskId ∈ ingestor.currentTasks.keys,
      ingestor.take.currentTasks.keys = ingestor.currentTasks.keys ∧
        ingestor.take.executed = ingestor.executed ++ [taskId] := by
  unfold take
  split_ifs
  · split
    · exact .inl ⟨rfl, rfl⟩
    · rename_i taskId rest _
      dsimp only
      split
      · exact .inl ⟨rfl, rfl⟩
      · rename_i context found
        split_ifs
        · exact .inl ⟨keys_finish .., rfl⟩
        · exact .inr ⟨taskId, Dict.mem_keys_of_get? found, Dict.keys_modify .., rfl⟩
  · exact .inl ⟨rfl, rfl⟩

theorem sameTasks_assignOther {task : Assignment} (isOther : task.taskType ≠ .startIngestionTask) :
    SameTasks ingestor (ingestor.handleTaskAssignment task) := by
  unfold handleTaskAssignment
  split
  · split_ifs <;> exact ⟨rfl, rfl⟩
  · exact ⟨Dict.keys_modify .., rfl⟩
  · contradiction

end Ingestor

/-- What holds as long as no step loses a task. -/
structure Kept (system : System) : Prop where
  alive : system.manager.crashed = false
  streaming : Streaming system
  custody : Custody (held system) system.manager.submitted (Reported system)
  fresh : ∀ taskId ∈ system.manager.submitted, taskId < system.manager.nextTask
  settled : ∀ id, ∀ taskId ∈ (system.ingestors id).executed,
    taskId ∈ system.manager.submitted ∧ Settled (held system) taskId (.ingestor id)
  executedOnce : ∀ id other taskId, taskId ∈ (system.ingestors id).executed →
    taskId ∈ (system.ingestors other).executed → id = other
  notCanceled : system.manager.canceledWaiting = []
  notRevived : system.manager.revived = []

structure Unmoved (before after : System) : Prop where
  held : ∀ place, (held after place).Perm (held before place)
  submitted : after.manager.submitted = before.manager.submitted
  nextTask : before.manager.nextTask ≤ after.manager.nextTask
  results : before.manager.results ⊆ after.manager.results
  executed : ∀ id, (after.ingestors id).executed = (before.ingestors id).executed
  canceledWaiting : after.manager.canceledWaiting = before.manager.canceledWaiting
  revived : after.manager.revived = before.manager.revived

theorem Unmoved.trans {first second third : System} (left : Unmoved first second)
    (right : Unmoved second third) : Unmoved first third where
  held place := (right.held place).trans (left.held place)
  submitted := right.submitted.trans left.submitted
  nextTask := Nat.le_trans left.nextTask right.nextTask
  results := List.Subset.trans left.results right.results
  executed id := (right.executed id).trans (left.executed id)
  canceledWaiting := right.canceledWaiting.trans left.canceledWaiting
  revived := right.revived.trans left.revived

theorem unmoved_refl (system : System) : Unmoved system system :=
  ⟨fun _ => .refl _, rfl, Nat.le_refl _, List.Subset.refl _, fun _ => rfl, rfl, rfl⟩

theorem unmoved_manager {manager : Manager} (same : system.manager.SameTasks manager) :
    Unmoved system { system with manager } where
  held place := by
    cases place with
    | manager => exact same.waiting
    | flight stream => exact .refl _
    | ingestor id => exact .refl _
  submitted := same.submitted
  nextTask := same.nextTask
  results := same.results
  executed _ := rfl
  canceledWaiting := same.canceledWaiting
  revived := same.revived

theorem unmoved_setStream {id : StreamId} {stream : Stream}
    (same : startIds stream.toIngestor = startIds (system.streams id).toIngestor) :
    Unmoved system (system.setStream id stream) where
  held place := by
    cases place with
    | manager => exact .refl _
    | flight other =>
      by_cases isId : other = id
      · subst isId
        simp only [held, System.setStream, Function.update_self, same, List.Perm.refl]
      · simp only [held, System.setStream, Function.update_of_ne isId, List.Perm.refl]
    | ingestor other => exact .refl _
  submitted := rfl
  nextTask := Nat.le_refl _
  results := List.Subset.refl _
  executed _ := rfl
  canceledWaiting := rfl
  revived := rfl

theorem unmoved_setIngestor {id : IngestorId} {ingestor : Ingestor}
    (same : (system.ingestors id).SameTasks ingestor) :
    Unmoved system (system.setIngestor id ingestor) where
  held place := by
    cases place with
    | manager => exact .refl _
    | flight stream => exact .refl _
    | ingestor other =>
      by_cases isId : other = id
      · subst isId
        simp only [held, System.setIngestor, Function.update_self, same.1, List.Perm.refl]
      · simp only [held, System.setIngestor, Function.update_of_ne isId, List.Perm.refl]
  submitted := rfl
  nextTask := Nat.le_refl _
  results := List.Subset.refl _
  executed other := by
    by_cases isId : other = id
    · subst isId
      simp only [System.setIngestor, Function.update_self, same.2]
    · simp only [System.setIngestor, Function.update_of_ne isId]
  canceledWaiting := rfl
  revived := rfl

theorem reported_of_subset {after : System}
    (results : system.manager.results ⊆ after.manager.results) {taskId : TaskId}
    (reported : Reported system taskId) : Reported after taskId := by
  obtain ⟨result, isMem, isTask⟩ := reported
  exact ⟨result, results isMem, isTask⟩

theorem Kept.unmoved (kept : Kept system) {after : System} (same : Unmoved system after)
    (alive : after.manager.crashed = false) (streaming : Streaming after) : Kept after where
  alive := alive
  streaming := streaming
  custody := by
    rw [same.submitted]
    exact kept.custody.keep same.held fun _ => reported_of_subset same.results
  fresh taskId isMem := by
    rw [same.submitted] at isMem
    exact Nat.lt_of_lt_of_le (kept.fresh taskId isMem) same.nextTask
  settled id taskId isMem := by
    rw [same.executed] at isMem
    obtain ⟨submitted, isSettled⟩ := kept.settled id taskId isMem
    rw [same.submitted]
    exact ⟨submitted, isSettled.of_subset fun place => (same.held place).subset⟩
  executedOnce id other taskId isMem isMemOther := by
    rw [same.executed] at isMem isMemOther
    exact kept.executedOnce id other taskId isMem isMemOther
  notCanceled := same.canceledWaiting.trans kept.notCanceled
  notRevived := same.revived.trans kept.notRevived

theorem unmoved_receive {id : StreamId} (lossless : Lossless system (.receives id)) :
    Unmoved system (system.receive id) ∧
      (system.receive id).manager.crashed = system.manager.crashed := by
  have popped (stream : Stream) (same : stream.toIngestor = (system.streams id).toIngestor) :
      Unmoved system (system.setStream id stream) :=
    unmoved_setStream (congrArg startIds same)
  unfold System.receive
  dsimp only
  cases queue : (system.streams id).toManager with
  | nil => exact ⟨unmoved_refl system, rfl⟩
  | cons message rest =>
    simp only [Lossless, queue] at lossless
    cases message with
    | register =>
      refine ⟨(popped _ ?_).trans (unmoved_manager ?_), rfl⟩
      · rfl
      · exact ⟨.refl _, rfl, Nat.le_refl _, List.Subset.refl _, rfl, rfl⟩
    | heartbeat info =>
      dsimp only
      by_cases registered : (system.streams id).registered = true
      · rw [if_pos registered]
        obtain ⟨old, found⟩ := Option.isSome_iff_exists.mp (lossless registered)
        have sameTasks := Manager.sameTasks_heartbeat found info
        refine ⟨(popped _ ?_).trans (unmoved_manager sameTasks), ?_⟩
        · rfl
        · obtain ⟨status, handled⟩ := Manager.handleHeartbeat_of_entry found info
          rw [handled]
      · rw [if_neg registered]
        exact ⟨popped _ rfl, rfl⟩
    | taskResult taskId status =>
      refine ⟨(popped _ ?_).trans (unmoved_manager ?_), rfl⟩
      · rfl
      · exact ⟨.refl _, rfl, Nat.le_refl _, List.subset_append_left _ _, rfl, rfl⟩

theorem unmoved_notice (system : System) (id : StreamId) : Unmoved system (system.notice id) ∧
    (system.notice id).manager.crashed = system.manager.crashed := by
  have marked : Unmoved system
      (system.setStream id { system.streams id with noticed := true }) := unmoved_setStream rfl
  unfold System.notice
  dsimp only
  by_cases ended : ((system.streams id).live || (system.streams id).noticed) = true
  · rw [if_pos ended]
    exact ⟨unmoved_refl system, rfl⟩
  · rw [if_neg ended]
    by_cases registered : (system.streams id).registered = true
    · rw [if_pos registered]
      exact ⟨marked.trans (unmoved_manager (Manager.sameTasks_cleanup _)),
        Manager.crashed_cleanupIngestionServer ..⟩
    · rw [if_neg registered]
      exact ⟨marked, rfl⟩

theorem unmoved_connect (streaming : Streaming system) {id : IngestorId}
    (lossless : Lossless system (.connects id)) : Unmoved system (system.connect id) := by
  have opens (before : System) (unopened : before.streams system.opened = .unopened)
      (same : before.ingestors id = system.ingestors id) : Unmoved before
        { (before.setStream system.opened (.open id)).setIngestor id
            ((system.ingestors id).connect system.opened) with
          opened := system.opened + 1 } := by
    have opened : Unmoved before (before.setStream system.opened (.open id)) :=
      unmoved_setStream (by rw [unopened]; rfl)
    have connected : Unmoved (before.setStream system.opened (.open id))
        ((before.setStream system.opened (.open id)).setIngestor id
          ((system.ingestors id).connect system.opened)) :=
      unmoved_setIngestor (by rw [System.setStream, same]; exact ⟨rfl, rfl⟩)
    have both := opened.trans connected
    exact ⟨both.held, both.submitted, both.nextTask, both.results, both.executed,
      both.canceledWaiting, both.revived⟩
  have unopened := streaming.unopened system.opened (Nat.le_refl _)
  unfold System.connect
  dsimp only
  cases current : (system.ingestors id).stream with
  | none => exact opens system unopened rfl
  | some old =>
    have nothing : startIds (system.streams old).toIngestor = [] := lossless old current
    have closed : Unmoved system
        (system.setStream old { system.streams old with live := false, toIngestor := [] }) :=
      unmoved_setStream (by rw [nothing]; rfl)
    refine closed.trans (opens _ ?_ rfl)
    by_cases isOld : system.opened = old
    · subst isOld
      simp [System.setStream, unopened, Stream.unopened]
    · simp [System.setStream, Function.update_of_ne isOld, unopened]

theorem unmoved_ingestorSend (id : IngestorId) (index : Nat) (succeeds : Bool) :
    Unmoved system (system.ingestorSend id index succeeds) := by
  unfold System.ingestorSend
  dsimp only
  split
  · rename_i message streamId _ _
    have popped : Unmoved system (system.setIngestor id { system.ingestors id with
        outbox := (system.ingestors id).outbox.eraseIdx index }) :=
      unmoved_setIngestor ⟨rfl, rfl⟩
    split_ifs
    · exact popped.trans (unmoved_setStream rfl)
    · exact popped
  · exact unmoved_refl system

theorem crashed_connect (id : IngestorId) :
    (system.connect id).manager.crashed = system.manager.crashed := by
  unfold System.connect
  dsimp only
  split <;> rfl

theorem crashed_ingestorSend (id : IngestorId) (index : Nat) (succeeds : Bool) :
    (system.ingestorSend id index succeeds).manager.crashed = system.manager.crashed := by
  unfold System.ingestorSend
  dsimp only
  split
  · split_ifs <;> rfl
  · rfl

theorem Kept.move (kept : Kept system) {after : System} {source target : Place} {taskId : TaskId}
    (isAway : ∀ id, source ≠ .ingestor id) (apart : source ≠ target)
    (leaves : (held system source).Perm (taskId :: held after source))
    (arrives : (held after target).Perm (taskId :: held system target))
    (same : ∀ other, other ≠ source → other ≠ target →
      (held after other).Perm (held system other))
    (alive : after.manager.crashed = false) (streaming : Streaming after)
    (submitted : after.manager.submitted = system.manager.submitted)
    (nextTask : after.manager.nextTask = system.manager.nextTask)
    (results : after.manager.results = system.manager.results)
    (executed : ∀ id, (after.ingestors id).executed = (system.ingestors id).executed)
    (notCanceled : after.manager.canceledWaiting = [])
    (notRevived : after.manager.revived = []) : Kept after where
  alive := alive
  streaming := streaming
  custody := by
    have reported : Reported after = Reported system := by
      funext taskId
      rw [Reported, Reported, results]
    rw [submitted, reported]
    exact kept.custody.move apart leaves arrives same
  fresh taskId isMem := by
    rw [submitted] at isMem
    rw [nextTask]
    exact kept.fresh taskId isMem
  settled id taskId isMem := by
    rw [executed] at isMem
    obtain ⟨isSubmitted, isSettled⟩ := kept.settled id taskId isMem
    rw [submitted]
    exact ⟨isSubmitted, isSettled.move kept.custody (isAway id) apart leaves arrives same⟩
  executedOnce id other taskId isMem isMemOther := by
    rw [executed] at isMem isMemOther
    exact kept.executedOnce id other taskId isMem isMemOther
  notCanceled := notCanceled
  notRevived := notRevived

theorem send_of_live {index : Nat} {task : Assignment} {id : StreamId}
    (found : system.manager.workers[index]? = some (.sending task id))
    (live : (system.streams id).live = true) : system.send index true =
      { system.setStream id { system.streams id with
          toIngestor := (system.streams id).toIngestor ++ [task] } with
        manager := system.manager.sent index true } := by
  simp only [System.send, found, live, Bool.true_and, if_true]
  rfl

theorem send_of_lost {index : Nat} {succeeds : Bool} {task : Assignment} {id : StreamId}
    (found : system.manager.workers[index]? = some (.sending task id))
    (lost : (succeeds && (system.streams id).live) = false) : system.send index succeeds =
      { system with manager := system.manager.sent index succeeds } := by
  simp only [System.send, found, lost, Bool.false_eq_true, if_false]

theorem Kept.send_start (kept : Kept system) {index : Nat} {task : Assignment} {id : StreamId}
    (found : system.manager.workers[index]? = some (.sending task id))
    (isStart : task.taskType = .startIngestionTask) (live : (system.streams id).live = true)
    (streaming : Streaming (system.send index true)) : Kept (system.send index true) := by
  have sent : system.manager.sent index true =
      { system.manager with workers := system.manager.workers.eraseIdx index } := by
    simp only [Manager.sent, found, if_true, kept.notCanceled, List.not_mem_nil, and_false,
      if_false]
  have leaves := Manager.waiting_eraseIdx found
  rw [Worker.task, startIds_cons_of_start isStart] at leaves
  rw [send_of_live found live, sent] at streaming ⊢
  refine @Kept.move system kept _ .manager (.flight id) task.taskId (fun _ => by simp)
    (by simp) leaves ?_ ?_ kept.alive streaming rfl rfl rfl (fun _ => rfl)
    kept.notCanceled kept.notRevived
  · simp only [held, System.setStream, Function.update_self, startIds_append]
    rw [startIds_cons_of_start isStart]
    exact List.perm_append_singleton ..
  · intro other notManager notFlight
    cases other with
    | manager => exact absurd rfl notManager
    | flight stream =>
      have isOther : stream ≠ id := fun same => notFlight (same ▸ rfl)
      simp only [held, System.setStream, Function.update_of_ne isOther, List.Perm.refl]
    | ingestor id => exact .refl _

theorem Kept.send (kept : Kept system) {index : Nat} {succeeds : Bool}
    (lossless : Lossless system (.sends index succeeds))
    (streaming : Streaming (system.send index succeeds)) :
    Kept (system.send index succeeds) := by
  have alive (sends : Bool) : (system.manager.sent index sends).crashed = false :=
    (Manager.sameRegistry_sent index sends).2.trans kept.alive
  cases found : system.manager.workers[index]? with
  | none => simpa only [System.send, found] using kept
  | some worker =>
    cases worker with
    | sending task id =>
      simp only [Lossless, found] at lossless
      cases succeeds with
      | false =>
        rw [send_of_lost found rfl] at streaming ⊢
        exact kept.unmoved (unmoved_manager (Manager.sameTasks_sent_failed found))
          (alive false) streaming
      | true =>
        by_cases isStart : task.taskType = .startIngestionTask
        · exact kept.send_start found isStart (lossless isStart rfl) streaming
        · have manager := Manager.sameTasks_sent_other found isStart
          by_cases live : (system.streams id).live = true
          · have sent : Unmoved system (system.setStream id { system.streams id with
                toIngestor := (system.streams id).toIngestor ++ [task] }) :=
              unmoved_setStream (by
                rw [startIds_append, startIds_cons_of_other isStart]
                exact List.append_nil _)
            rw [send_of_live found live] at streaming ⊢
            exact kept.unmoved (sent.trans (unmoved_manager manager)) (alive true) streaming
          · rw [send_of_lost found (by simpa using live)] at streaming ⊢
            exact kept.unmoved (unmoved_manager manager) (alive true) streaming
    | _ => simpa only [System.send, found] using kept

theorem Kept.ingestorReceive (kept : Kept system) {id : IngestorId}
    (streaming : Streaming (system.ingestorReceive id)) : Kept (system.ingestorReceive id) := by
  revert streaming
  unfold System.ingestorReceive
  dsimp only
  split
  · exact fun _ => kept
  · rename_i streamId _
    split
    · exact fun _ => kept
    · rename_i task rest queue
      intro streaming
      by_cases isStart : task.taskType = .startIngestionTask
      · have leaves : held system (.flight streamId) = task.taskId :: startIds rest := by
          rw [held, queue, startIds_cons_of_start isStart]
        have absent : task.taskId ∉ (system.ingestors id).currentTasks.keys := by
          intro isMem
          have isFlight : task.taskId ∈ held system (.flight streamId) :=
            leaves ▸ List.mem_cons_self ..
          cases kept.custody.one (.ingestor id) (.flight streamId) task.taskId isMem isFlight
        have assigned : ((system.ingestors id).handleTaskAssignment task).currentTasks.keys =
            (system.ingestors id).currentTasks.keys ++ [task.taskId] := by
          simp only [Ingestor.handleTaskAssignment, isStart, Dict.keys_upsert, if_neg absent]
        have executed : ((system.ingestors id).handleTaskAssignment task).executed =
            (system.ingestors id).executed := by
          simp only [Ingestor.handleTaskAssignment, isStart]
        refine @Kept.move system kept _ (.flight streamId) (.ingestor id) task.taskId
          (fun _ => by simp) (by simp) ?_ ?_ ?_ kept.alive streaming rfl rfl rfl ?_
          kept.notCanceled kept.notRevived
        · rw [leaves]
          simp only [held, System.setIngestor, System.setStream, Function.update_self,
            List.Perm.refl]
        · simp only [held, System.setIngestor, System.setStream, Function.update_self, assigned]
          exact List.perm_append_singleton ..
        · intro other notFlight notIngestor
          cases other with
          | manager => exact .refl _
          | flight stream =>
            have isOther : stream ≠ streamId := fun same => notFlight (same ▸ rfl)
            simp only [held, System.setIngestor, System.setStream,
              Function.update_of_ne isOther, List.Perm.refl]
          | ingestor other =>
            have isOther : other ≠ id := fun same => notIngestor (same ▸ rfl)
            simp only [held, System.setIngestor, System.setStream,
              Function.update_of_ne isOther, List.Perm.refl]
        · intro other
          by_cases isId : other = id
          · subst isId
            simp only [System.setIngestor, System.setStream, Function.update_self, executed]
          · simp only [System.setIngestor, System.setStream, Function.update_of_ne isId]
      · have popped : Unmoved system
            (system.setStream streamId { system.streams streamId with toIngestor := rest }) :=
          unmoved_setStream (by rw [queue, startIds_cons_of_other isStart])
        exact kept.unmoved (popped.trans
          (unmoved_setIngestor (Ingestor.sameTasks_assignOther isStart))) kept.alive streaming

theorem Kept.startTask (kept : Kept system) (comeFrom : String)
    (streaming : Streaming (system.startTask comeFrom)) : Kept (system.startTask comeFrom) := by
  have fresh : system.manager.nextTask ∉ system.manager.submitted :=
    fun isMem => absurd (kept.fresh _ isMem) (Nat.lt_irrefl _)
  have enters : (held (system.startTask comeFrom) .manager).Perm
      (system.manager.nextTask :: held system .manager) :=
    Manager.waiting_submitTask _
  have same (other : Place) (isOther : other ≠ .manager) :
      (held (system.startTask comeFrom) other).Perm (held system other) := by
    cases other with
    | manager => exact absurd rfl isOther
    | flight stream => exact .refl _
    | ingestor id => exact .refl _
  refine ⟨kept.alive, streaming, ?_, ?_, ?_, kept.executedOnce, kept.notCanceled,
    kept.notRevived⟩
  · exact kept.custody.enter fresh enters same
  · intro taskId isMem
    cases List.mem_append.mp isMem with
    | inl earlier => exact Nat.lt_succ_of_lt (kept.fresh taskId earlier)
    | inr new =>
      rw [List.mem_singleton.mp new]
      exact Nat.lt_succ_self _
  · intro id taskId isMem
    obtain ⟨submitted, isSettled⟩ := kept.settled id taskId isMem
    have isOther : taskId ≠ system.manager.nextTask := fun isNew => fresh (isNew ▸ submitted)
    exact ⟨List.mem_append_left _ submitted, isSettled.enter isOther enters same⟩

theorem Kept.cancelTask (kept : Kept system) {taskId : TaskId} {comeFrom : String}
    (lossless : Lossless system (.cancelTask taskId comeFrom))
    (streaming : Streaming (system.cancelTask taskId comeFrom)) :
    Kept (system.cancelTask taskId comeFrom) := by
  have ignored : taskId ∉ system.manager.waiting := lossless
  refine kept.unmoved (unmoved_manager ?_) kept.alive streaming
  refine ⟨?_, rfl, Nat.le_refl _, List.Subset.refl _, ?_, rfl⟩
  · exact Manager.waiting_submitTask _
  · simp only [Manager.submitTask, if_neg ignored]

theorem Kept.take (kept : Kept system) (id : IngestorId)
    (streaming : Streaming (system.setIngestor id (system.ingestors id).take)) :
    Kept (system.setIngestor id (system.ingestors id).take) := by
  obtain same | ⟨taskId, isMem, sameKeys, begun⟩ := (system.ingestors id).take_cases
  · exact kept.unmoved (unmoved_setIngestor same) kept.alive streaming
  · -- the tasks stay where they are, and one of them is executed now
    have sameHeld (place : Place) :
        held (system.setIngestor id (system.ingestors id).take) place = held system place := by
      cases place with
      | manager => rfl
      | flight stream => rfl
      | ingestor other =>
        by_cases isId : other = id
        · subst isId
          simp only [held, System.setIngestor, Function.update_self, sameKeys]
        · simp only [held, System.setIngestor, Function.update_of_ne isId]
    have isHeld : taskId ∈ held system (.ingestor id) := isMem
    have home : Settled (held system) taskId (.ingestor id) :=
      fun other isOther => kept.custody.one other (.ingestor id) taskId isOther isHeld
    have executed (other : IngestorId) (found : TaskId) :
        found ∈ ((system.setIngestor id (system.ingestors id).take).ingestors other).executed ↔
          found ∈ (system.ingestors other).executed ∨ other = id ∧ found = taskId := by
      by_cases isId : other = id
      · subst isId
        simp [System.setIngestor, begun]
      · simp [System.setIngestor, isId]
    have atHome (other : IngestorId) (isExecuted : taskId ∈ (system.ingestors other).executed) :
        id = other := by
      have same := (kept.settled other taskId isExecuted).2 (.ingestor id) isHeld
      cases same
      rfl
    refine ⟨kept.alive, streaming, ?_, kept.fresh, ?_, ?_, kept.notCanceled, kept.notRevived⟩
    · exact kept.custody.keep (fun place => .of_eq (sameHeld place)) fun _ reported => reported
    · intro other found isExecuted
      rw [Settled]
      simp only [sameHeld]
      cases (executed other found).mp isExecuted with
      | inl earlier => exact kept.settled other found earlier
      | inr now =>
        obtain ⟨rfl, rfl⟩ := now
        exact ⟨kept.custody.known _ _ isHeld, home⟩
    · intro first second found isExecuted isExecutedToo
      rw [executed] at isExecuted isExecutedToo
      obtain earlier | ⟨rfl, rfl⟩ := isExecuted
      · obtain earlierToo | ⟨rfl, rfl⟩ := isExecutedToo
        · exact kept.executedOnce first second found earlier earlierToo
        · exact (atHome first earlier).symm
      · obtain earlierToo | ⟨rfl, -⟩ := isExecutedToo
        · exact atHome second earlierToo
        · rfl

theorem Kept.sendHeartbeat (kept : Kept system) {id : IngestorId} {expired : List TaskId}
    (lossless : Lossless system (.sendsHeartbeat id expired))
    (streaming : Streaming
      (system.setIngestor id ((system.ingestors id).sendHeartbeat expired))) :
    Kept (system.setIngestor id ((system.ingestors id).sendHeartbeat expired)) := by
  have keys : ((system.ingestors id).sendHeartbeat expired).currentTasks.keys =
      (system.ingestors id).currentTasks.keys.filter
        fun taskId => taskId ∉ (system.ingestors id).expiredTasks expired :=
    Dict.keys_filterKeys ..
  have kept_sublist (place : Place) :
      (held (system.setIngestor id ((system.ingestors id).sendHeartbeat expired)) place).Sublist
        (held system place) := by
    cases place with
    | manager => exact .refl _
    | flight stream => exact .refl _
    | ingestor other =>
      by_cases isId : other = id
      · subst isId
        simp only [held, System.setIngestor, Function.update_self, keys]
        exact List.filter_sublist
      · simp only [held, System.setIngestor, Function.update_of_ne isId, List.Sublist.refl]
  have executed (other : IngestorId) :
      ((system.setIngestor id ((system.ingestors id).sendHeartbeat expired)).ingestors
        other).executed = (system.ingestors other).executed := by
    by_cases isId : other = id
    · subst isId
      simp only [System.setIngestor, Function.update_self]
      rfl
    · simp only [System.setIngestor, Function.update_of_ne isId]
  refine ⟨kept.alive, streaming, ?_, kept.fresh, ?_, ?_, kept.notCanceled, kept.notRevived⟩
  · apply kept.custody.release kept_sublist
    intro place taskId isHeld isReleased
    cases place with
    | manager => exact absurd isHeld isReleased
    | flight stream => exact absurd isHeld isReleased
    | ingestor other =>
      by_cases isId : other = id
      · subst isId
        simp only [held, System.setIngestor, Function.update_self, keys, List.mem_filter,
          decide_eq_true_eq, not_and, not_not] at isReleased
        exact lossless taskId (isReleased isHeld)
      · simp only [held, System.setIngestor, Function.update_of_ne isId] at isHeld isReleased
        exact absurd isHeld isReleased
  · intro other taskId isExecuted
    rw [executed] at isExecuted
    obtain ⟨submitted, isSettled⟩ := kept.settled other taskId isExecuted
    exact ⟨submitted, isSettled.of_subset fun place => (kept_sublist place).subset⟩
  · intro first second taskId isExecuted isExecutedToo
    rw [executed] at isExecuted isExecutedToo
    exact kept.executedOnce first second taskId isExecuted isExecutedToo

theorem kept_start (maxConcurrency : IngestorId → Nat) : Kept (start maxConcurrency) where
  alive := rfl
  streaming := streaming_start maxConcurrency
  custody := by
    have nothing : held (start maxConcurrency) = fun _ => [] := by
      funext place
      cases place <;> rfl
    rw [nothing]
    exact .empty
  fresh taskId isMem := absurd isMem List.not_mem_nil
  settled id taskId isMem := absurd isMem List.not_mem_nil
  executedOnce id other taskId isMem := absurd isMem List.not_mem_nil
  notCanceled := rfl
  notRevived := rfl

theorem kept_step {move : Move} (lossless : Lossless system move) (kept : Kept system) :
    Kept (system.step move) := by
  have streaming := streaming_step kept.streaming move
  have running (after : System) : system.byManager after = after := by
    rw [System.byManager, kept.alive]
    rfl
  have byManager {manager : Manager} (same : system.manager.SameTasks manager)
      (registry : system.manager.SameRegistry manager) : Kept { system with manager } :=
    kept.unmoved (unmoved_manager same) (registry.2.trans kept.alive)
      (kept.streaming.of_manager manager)
  cases move with
  | startTask comeFrom =>
    simp only [System.step, running] at streaming ⊢
    exact kept.startTask comeFrom streaming
  | cancelTask taskId comeFrom =>
    simp only [System.step, running] at streaming ⊢
    exact kept.cancelTask lossless streaming
  | shutdownIngestor id =>
    simp only [System.step, running]
    refine byManager ?_ ⟨rfl, rfl⟩
    exact ⟨Manager.waiting_submitTask _, rfl, Nat.le_succ _, List.Subset.refl _, rfl, rfl⟩
  | dispatches =>
    simp only [System.step, running]
    exact byManager Manager.sameTasks_dispatch Manager.sameRegistry_dispatch
  | selects index choice =>
    simp only [System.step, running]
    exact byManager (Manager.sameTasks_select index choice)
      (Manager.sameRegistry_select index choice)
  | parks index =>
    simp only [System.step, running]
    exact byManager (Manager.sameTasks_park index) (Manager.sameRegistry_park index)
  | wakes index =>
    simp only [System.step, running]
    exact byManager (Manager.sameTasks_wake index) (Manager.sameRegistry_wake index)
  | sends index succeeds =>
    simp only [System.step, running] at streaming ⊢
    exact kept.send lossless streaming
  | receives id =>
    simp only [System.step, running] at streaming ⊢
    obtain ⟨unmoved, crashed⟩ := unmoved_receive lossless
    exact kept.unmoved unmoved (crashed.trans kept.alive) streaming
  | notices id =>
    simp only [System.step, running] at streaming ⊢
    obtain ⟨unmoved, crashed⟩ := unmoved_notice system id
    exact kept.unmoved unmoved (crashed.trans kept.alive) streaming
  | breaks id => exact kept.unmoved (unmoved_setStream rfl) kept.alive streaming
  | connects id =>
    exact kept.unmoved (unmoved_connect kept.streaming lossless)
      ((crashed_connect id).trans kept.alive) streaming
  | ingestorReceives id => exact kept.ingestorReceive streaming
  | offers id index =>
    exact kept.unmoved (unmoved_setIngestor (Ingestor.sameTasks_offer index)) kept.alive streaming
  | takes id => exact kept.take id streaming
  | executes id index seesCancel =>
    exact kept.unmoved (unmoved_setIngestor (Ingestor.sameTasks_execute index seesCancel))
      kept.alive streaming
  | sendsHeartbeat id expired => exact kept.sendHeartbeat lossless streaming
  | ingestorSends id index succeeds =>
    exact kept.unmoved (unmoved_ingestorSend id index succeeds)
      ((crashed_ingestorSend id index succeeds).trans kept.alive) streaming

theorem exists_place {id : IngestorId} {taskId : TaskId} (assigned : AssignedTo system id taskId) :
    taskId ∈ held system (.ingestor id) ∨
      ∃ stream, (system.streams stream).ingestor = id ∧ taskId ∈ held system (.flight stream) :=
  assigned

theorem Kept.conserved (kept : Kept system) : Conserved system where
  alive := kept.alive
  placed taskId isMem := by
    cases kept.custody.covered taskId isMem with
    | inr reported => exact .inr (.inr reported)
    | inl isHeld =>
      obtain ⟨place, isHeld⟩ := isHeld
      cases place with
      | manager => exact .inl isHeld
      | flight stream => exact .inr (.inl ⟨_, .inr ⟨stream, rfl, isHeld⟩⟩)
      | ingestor id => exact .inr (.inl ⟨id, .inl isHeld⟩)
  apart id taskId inManager assigned := by
    obtain isHeld | ⟨stream, -, isHeld⟩ := exists_place assigned
    · cases kept.custody.one .manager _ taskId inManager isHeld
    · cases kept.custody.one .manager _ taskId inManager isHeld
  one id other taskId assigned assignedToo := by
    obtain isHeld | ⟨stream, isStream, isHeld⟩ := exists_place assigned
    · obtain isHeldToo | ⟨streamToo, -, isHeldToo⟩ := exists_place assignedToo
      · cases kept.custody.one _ _ taskId isHeld isHeldToo
        rfl
      · cases kept.custody.one _ _ taskId isHeld isHeldToo
    · obtain isHeldToo | ⟨streamToo, isStreamToo, isHeldToo⟩ := exists_place assignedToo
      · cases kept.custody.one _ _ taskId isHeld isHeldToo
      · cases kept.custody.one _ _ taskId isHeld isHeldToo
        exact isStream.symm.trans isStreamToo
  executedOnce := kept.executedOnce
  notRevived := kept.notRevived

/-- In every run whose moves lose no task, every submitted task is with the manager, with one
ingestor, or reported. -/
theorem conserved_of_along (maxConcurrency : IngestorId → Nat) (moves : List Move)
    (lossless : Runs.Along System.step Lossless (start maxConcurrency) moves) :
    Conserved (Runs.run System.step (start maxConcurrency) moves) := by
  have preserved (system : System) (move : Move) (isLossless : Lossless system move)
      (kept : Kept system) : Kept (system.step move) := kept_step isLossless kept
  exact (Runs.invariant_along (kept_start maxConcurrency) preserved lossless).conserved

theorem conserved_completed :
    Conserved (Runs.run System.step (start fun _ => 1)
      [.startTask "CLI", .dispatches, .selects 0 0, .parks 0, .connects 0, .ingestorSends 0 0 true,
        .receives 0, .wakes 0, .selects 0 0, .sends 0 true, .ingestorReceives 0, .offers 0 0,
        .takes 0, .cancelTask 0 "CLI", .executes 0 0 true, .ingestorSends 0 0 true, .receives 0,
        .sendsHeartbeat 0 [0], .ingestorSends 0 0 true, .receives 0]) :=
  conserved_of_along (fun _ => 1) _ (by decide)

def canceledWaiting : System :=
  Runs.run System.step (start fun _ => 1)
    [.startTask "CLI", .dispatches, .selects 0 0, .parks 0, .cancelTask 0 "CLI", .dispatches,
      .selects 1 0, .connects 0, .ingestorSends 0 0 true, .receives 0, .wakes 0, .selects 0 0,
      .sends 0 true]

def lostAssignment : System :=
  Runs.run System.step (start fun _ => 1)
    [.connects 0, .ingestorSends 0 0 true, .receives 0, .startTask "CLI", .dispatches,
      .selects 0 0, .sends 0 true, .breaks 0, .notices 0, .connects 0]

theorem not_assigned_lostAssignment (id : IngestorId) : ¬ AssignedTo lostAssignment id 0 := by
  rintro (isMem | ⟨stream, -, isMem⟩)
  · cases id with
    | zero => exact absurd isMem (by decide)
    | succ id => cases isMem
  · match stream with
    | 0 => exact absurd isMem (by decide)
    | 1 => exact absurd isMem (by decide)
    | stream + 2 => cases isMem

/-- A cancellation that is forgotten, and a task that is lost. -/
theorem not_conserved : ¬ Conserved canceledWaiting ∧ ¬ Conserved lostAssignment := by
  constructor
  · intro conserved
    have revived : canceledWaiting.manager.revived = [0] := by decide
    rw [conserved.notRevived] at revived
    cases revived
  · intro conserved
    obtain inManager | ⟨id, assigned⟩ | reported := conserved.placed 0 (by decide)
    · exact absurd inManager (by unfold InManager; decide)
    · exact not_assigned_lostAssignment id assigned
    · exact absurd reported (by decide)

end RagFlow.Ingestion
