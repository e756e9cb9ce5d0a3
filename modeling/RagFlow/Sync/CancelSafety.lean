import RagFlow.Lib.Runs
import RagFlow.Lib.Workers
import RagFlow.Sync.Polling

/-!
# Tasks of a connector

The API cancels and schedules the tasks of a connector while the sync service dispatches and runs
them.  Every statement of these procedures on the database is one step; the connector has one status
for all its knowledge bases and kinds of task.
-/

namespace RagFlow.Sync.Tasks

open Lib

inductive TaskType
  | sync
  | prune
  deriving DecidableEq, Repr

structure Log where
  id : ℕ
  kbId : String
  taskType : TaskType
  status : TaskStatus
  deriving DecidableEq, Repr

structure Tables where
  /-- `none` while it is `UNSTART` -/
  connectorStatus : Option TaskStatus
  /-- `sync_deleted_files` in the connector's configuration -/
  syncDeletedFiles : Bool
  /-- The knowledge bases that the connector is linked to. -/
  links : List String
  logs : List Log
  nextId : ℕ
  /-- `cancel_tasks` has returned, and none of `schedule_tasks`, `rebuild` and `link_connectors` has
  been called since. -/
  cancelled : Bool
  /-- The logs of the tasks that were started so far. -/
  started : List ℕ
  deriving DecidableEq, Repr

inductive Statement
  /-- The scheduled and running tasks of a knowledge base become `CANCEL`. -/
  | cancelLogs (kbId : String)
  | cancelConnector
  /-- The two statements of `SyncLogsService.start`. -/
  | startLog (log : Log)
  | startConnector
  /-- `_run_task_logic`, up to `SyncLogsService.done`. -/
  | runTaskLogic (log : Log)
  | doneLog (log : Log)
  | doneConnector
  | failLog (log : Log)
  /-- `SyncLogsService.schedule`: the query, and then its two writes. -/
  | schedule (kbId : String) (taskType : TaskType)
  | scheduleConnector
  | insertLog (kbId : String) (taskType : TaskType)
  | deleteLogs (kbId : String)
  deriving DecidableEq, Repr

def setStatus (hit : Log → Bool) (status : TaskStatus) (logs : List Log) : List Log :=
  logs.map fun log => if hit log then { log with status } else log

def Log.scheduledFor (kbId : String) (taskType : TaskType) (log : Log) : Bool :=
  log.kbId = kbId && log.taskType = taskType && log.status = .schedule

def Log.cancelledWith (kbId : String) (log : Log) : Bool :=
  log.kbId = kbId && (log.status = .schedule || log.status = .running)

/-- A statement and the rest of its program; `fails` is whether a task times out or raises. -/
def runStatement (fails : Bool) (tables : Tables) (statement : Statement)
    (rest : List Statement) : Tables × List Statement :=
  match statement with
  | .cancelLogs kbId =>
    ({ tables with logs := setStatus (Log.cancelledWith kbId) .cancel tables.logs }, rest)
  | .cancelConnector =>
    ({ tables with connectorStatus := some .cancel, cancelled := true }, rest)
  | .startLog log =>
    ({ tables with
        logs := setStatus (fun other => other.id = log.id) .running tables.logs
        started := tables.started ++ [log.id] }, rest)
  | .startConnector => ({ tables with connectorStatus := some .running }, rest)
  | .runTaskLogic log => (tables, if fails then [.failLog log] else rest)
  | .doneLog log =>
    ({ tables with logs := setStatus (fun other => other.id = log.id) .done tables.logs }, rest)
  | .doneConnector => ({ tables with connectorStatus := some .done }, rest)
  | .failLog log =>
    ({ tables with logs := setStatus (fun other => other.id = log.id) .fail tables.logs }, rest)
  | .schedule kbId taskType =>
    if tables.logs.any (Log.scheduledFor kbId taskType) then (tables, rest)
    else (tables, .scheduleConnector :: .insertLog kbId taskType :: rest)
  | .scheduleConnector => ({ tables with connectorStatus := some .schedule }, rest)
  | .insertLog kbId taskType =>
    ({ tables with
        logs := tables.logs ++ [⟨tables.nextId, kbId, taskType, .schedule⟩]
        nextId := tables.nextId + 1 }, rest)
  | .deleteLogs kbId =>
    ({ tables with logs := tables.logs.filter fun log => log.kbId ≠ kbId }, rest)

/-- `SyncBase.__call__` of a task that was listed with the connector's configuration. -/
def call (syncDeletedFiles : Bool) (log : Log) : List Statement :=
  [.startLog log, .startConnector, .runTaskLogic log, .doneLog log, .doneConnector] ++
    match log.taskType with
    | .sync => [.schedule log.kbId .sync]
    | .prune => if syncDeletedFiles then [.schedule log.kbId .prune] else []

/-- The calls of `schedule` for a knowledge base. -/
def scheduleBoth (tables : Tables) (kbId : String) : List Statement :=
  .schedule kbId .sync :: if tables.syncDeletedFiles then [.schedule kbId .prune] else []

abbrev State := Workers Tables Statement

inductive Move
  | turn (worker : ℕ) (fails : Bool)
  /-- `list_due_sync_tasks` or `list_due_prune_tasks`, and a task for each row; `due` is what the
  times and the joins of the query let through. -/
  | dispatch (taskType : TaskType) (due : ℕ → Bool)
  | cancelTasks
  | scheduleTasks
  | rebuild (kbId : String)
  | link (kbId : String)
  | unlink (kbId : String)
  | configure (syncDeletedFiles : Bool)

def listDue (taskType : TaskType) (due : ℕ → Bool) (tables : Tables) : List Log :=
  if tables.connectorStatus = some .schedule then
    tables.logs.filter fun log =>
      log.status = .schedule && log.taskType = taskType && due log.id &&
        (taskType ≠ .prune || tables.syncDeletedFiles)
  else []

def schedules (state : State) (program : List Statement) : State :=
  Workers.spawn program { state with shared := { state.shared with cancelled := false } }

def step (state : State) : Move → State
  | .turn worker fails => Workers.exec (runStatement fails) worker state
  | .dispatch taskType due =>
    { state with programs := state.programs ++
        (listDue taskType due state.shared).map (call state.shared.syncDeletedFiles) }
  | .cancelTasks =>
    state.spawn (state.shared.links.map .cancelLogs ++ [.cancelConnector])
  | .scheduleTasks =>
    schedules state (state.shared.links.flatMap (scheduleBoth state.shared))
  | .rebuild kbId => schedules state (.deleteLogs kbId :: scheduleBoth state.shared kbId)
  | .link kbId =>
    if kbId ∈ state.shared.links then
      { state with shared := { state.shared with cancelled := false } }
    else
      schedules
        { state with shared := { state.shared with links := state.shared.links ++ [kbId] } }
        (scheduleBoth state.shared kbId)
  | .unlink kbId =>
    Workers.spawn [.cancelLogs kbId]
      { state with shared :=
          { state.shared with links := state.shared.links.filter fun other => other ≠ kbId } }
  | .configure syncDeletedFiles =>
    { state with shared := { state.shared with syncDeletedFiles } }

def created (syncDeletedFiles : Bool) : State where
  shared :=
    { connectorStatus := none
      syncDeletedFiles := syncDeletedFiles
      links := []
      logs := []
      nextId := 0
      cancelled := false
      started := [] }
  programs := []

def countScheduled (kbId : String) (taskType : TaskType) (tables : Tables) : ℕ :=
  tables.logs.countP (Log.scheduledFor kbId taskType)

structure StaysCancelled (state : State) (move : Move) : Prop where
  started : state.shared.cancelled = true →
    (step state move).shared.started = state.shared.started
  status : (step state move).shared.cancelled = true →
    (step state move).shared.connectorStatus ≠ some .schedule
  unique : ∀ kbId taskType, countScheduled kbId taskType (step state move).shared ≤ 1

/-- `schedule` finds no row only while the connector is not cancelled and no other call of it is
about to insert such a row; `cancel_tasks` returns only when no dispatched task is still to be
started and no call of `schedule` is about to set the connector's status. -/
def Calm (state : State) : Statement → Prop
  | .schedule kbId taskType => state.shared.logs.any (Log.scheduledFor kbId taskType) = false →
      state.shared.cancelled = false ∧ ¬state.Pending (.insertLog kbId taskType)
  | .cancelConnector =>
    (∀ log, ¬state.Pending (.startLog log)) ∧ ¬state.Pending .scheduleConnector
  | _ => True

def Undisturbed (state : State) : Move → Prop
  | .turn worker _ => ∀ statement ∈ state.current? worker, Calm state statement
  | _ => True

end RagFlow.Sync.Tasks

/-!
# Cancelled connectors stay cancelled

A row is counted from the moment a call of `schedule` has decided to insert it.  This count stays
below two, and a cancelled connector stays quiet, along the undisturbed runs.
-/

namespace RagFlow.Sync.Tasks

open Lib

variable {state : State} {tables : Tables} {kbId : String} {taskType : TaskType}

def Statement.inserts (kbId : String) (taskType : TaskType) (statement : Statement) : Bool :=
  statement = .insertLog kbId taskType

def countRows (kbId : String) (taskType : TaskType) (state : State) : ℕ :=
  countScheduled kbId taskType state.shared + state.countPending (Statement.inserts kbId taskType)

/-- Neither the status nor a dispatched task is about to start anything. -/
structure Quiet (state : State) : Prop where
  status : state.shared.connectorStatus ≠ some .schedule
  undispatched : ∀ log, ¬state.Pending (.startLog log)
  unscheduled : ¬state.Pending .scheduleConnector

structure Sound (state : State) : Prop where
  unique : ∀ kbId taskType, countRows kbId taskType state ≤ 1
  quiet : state.shared.cancelled = true → Quiet state

section Rows

theorem countP_setStatus_le {hit : Log → Bool} {status : TaskStatus} (other : status ≠ .schedule)
    (logs : List Log) :
    (setStatus hit status logs).countP (Log.scheduledFor kbId taskType) ≤
      logs.countP (Log.scheduledFor kbId taskType) := by
  unfold setStatus
  rw [List.countP_map]
  apply List.countP_mono_left
  intro log _ scheduled
  by_cases changed : hit log = true
  · simp [changed, Log.scheduledFor, other] at scheduled
  · simpa [changed] using scheduled

theorem countScheduled_eq_zero
    (none_scheduled : tables.logs.any (Log.scheduledFor kbId taskType) = false) :
    countScheduled kbId taskType tables = 0 := by
  rw [countScheduled, List.countP_eq_zero]
  intro log stored
  simpa using List.any_eq_false.mp none_scheduled log stored

end Rows

section Turns

variable {fails : Bool} {worker : ℕ} {statement : Statement} {rest : List Statement}

/-- The two statements that a call of `schedule` decides on, and the report of a failure. -/
def extra (fails : Bool) (tables : Tables) : Statement → List Statement
  | .schedule kbId taskType =>
    if tables.logs.any (Log.scheduledFor kbId taskType) then []
    else [.scheduleConnector, .insertLog kbId taskType]
  | .runTaskLogic log => if fails then [.failLog log] else []
  | _ => []

theorem runStatement_program (fails : Bool) (tables : Tables) (statement : Statement)
    (rest : List Statement) :
    (runStatement fails tables statement rest).2 = extra fails tables statement ++ rest ∨
      (runStatement fails tables statement rest).2 = extra fails tables statement := by
  cases statement with
  | schedule kbId taskType =>
    left
    by_cases found : tables.logs.any (Log.scheduledFor kbId taskType) = true
    · simp only [runStatement, extra, if_pos found, List.nil_append]
    · simp only [runStatement, extra, if_neg found, List.cons_append, List.nil_append]
  | runTaskLogic log =>
    unfold runStatement extra
    cases fails <;> simp
  | _ => exact .inl (by simp [runStatement, extra])

theorem pending_turn (found : state.programs[worker]? = some (statement :: rest))
    {shared : Tables} {pending : Statement}
    (after : Workers.Pending ⟨shared, state.programs.set worker
      (runStatement fails state.shared statement rest).2⟩ pending) :
    state.Pending pending ∨ pending ∈ extra fails state.shared statement := by
  rcases Workers.pending_set after with before | decided
  · exact .inl before
  · rcases runStatement_program fails state.shared statement rest with both | only
    · rw [both, List.mem_append] at decided
      apply decided.symm.imp_left
      intro inRest
      exact Workers.pending_of_getElem? found (List.mem_cons_of_mem _ inRest)
    · exact .inr (only ▸ decided)

theorem countPending_turn (fails : Bool)
    (found : state.programs[worker]? = some (statement :: rest)) (kind : Statement → Bool)
    (shared : Tables) :
    Workers.countPending kind ⟨shared, state.programs.set worker
        (runStatement fails state.shared statement rest).2⟩ + [statement].countP kind ≤
      state.countPending kind + (extra fails state.shared statement).countP kind := by
  have counted : Workers.countPending kind ⟨shared, _⟩ + _ = _ :=
    Workers.countPending_set kind found (runStatement fails state.shared statement rest).2
  have cons : (statement :: rest).countP kind = [statement].countP kind + rest.countP kind := by
    rw [← List.countP_append, List.singleton_append]
  rcases runStatement_program fails state.shared statement rest with both | only
  · rw [both, List.countP_append, cons] at counted
    rw [both]
    omega
  · rw [only, cons] at counted
    rw [only]
    omega

theorem countScheduled_turn (fails : Bool) (tables : Tables) (statement : Statement)
    (rest : List Statement) :
    countScheduled kbId taskType (runStatement fails tables statement rest).1 ≤
      countScheduled kbId taskType tables +
        [statement].countP (Statement.inserts kbId taskType) := by
  unfold countScheduled
  cases statement with
  | cancelLogs other => exact Nat.le_add_right_of_le (countP_setStatus_le (by simp) _)
  | startLog log => exact Nat.le_add_right_of_le (countP_setStatus_le (by simp) _)
  | doneLog log => exact Nat.le_add_right_of_le (countP_setStatus_le (by simp) _)
  | failLog log => exact Nat.le_add_right_of_le (countP_setStatus_le (by simp) _)
  | deleteLogs other =>
    exact Nat.le_add_right_of_le (List.Sublist.countP_le List.filter_sublist)
  | insertLog otherKb otherType =>
    simp only [runStatement, List.countP_append]
    apply Nat.add_le_add_left
    by_cases same : otherKb = kbId ∧ otherType = taskType
    · obtain ⟨rfl, rfl⟩ := same
      simp [Statement.inserts, Log.scheduledFor]
    · have other : Log.scheduledFor kbId taskType
          ⟨tables.nextId, otherKb, otherType, .schedule⟩ = false := by
        simpa [Log.scheduledFor] using same
      simp [other]
  | schedule otherKb otherType =>
    by_cases found : tables.logs.any (Log.scheduledFor otherKb otherType) = true
    · simp only [runStatement, if_pos found, Nat.le_add_right]
    · simp only [runStatement, if_neg found, Nat.le_add_right]
  | _ => exact Nat.le_add_right _ _

theorem countP_extra (fails : Bool) (tables : Tables) (statement : Statement) (kbId : String)
    (taskType : TaskType) :
    (extra fails tables statement).countP (Statement.inserts kbId taskType) = 0 ∨
      (statement = .schedule kbId taskType ∧
        tables.logs.any (Log.scheduledFor kbId taskType) = false ∧
        (extra fails tables statement).countP (Statement.inserts kbId taskType) = 1) := by
  cases statement with
  | schedule otherKb otherType =>
    unfold extra
    by_cases exist : tables.logs.any (Log.scheduledFor otherKb otherType) = true
    · simp only [if_pos exist, List.countP_nil, true_or]
    · simp only [if_neg exist]
      by_cases same : otherKb = kbId ∧ otherType = taskType
      · obtain ⟨rfl, rfl⟩ := same
        exact .inr ⟨rfl, Bool.eq_false_iff.mpr exist, by simp [Statement.inserts]⟩
      · exact .inl (by simpa [Statement.inserts] using same)
  | runTaskLogic log => exact .inl (by cases fails <;> simp [extra, Statement.inserts])
  | _ => exact .inl (by simp [extra])

end Turns

section Steps

theorem countRows_turn_le {fails : Bool} {worker : ℕ} {statement : Statement}
    {rest : List Statement} (found : state.programs[worker]? = some (statement :: rest))
    (unique : ∀ kbId taskType, countRows kbId taskType state ≤ 1)
    (decides : ∀ kbId taskType, statement = .schedule kbId taskType →
      state.shared.logs.any (Log.scheduledFor kbId taskType) = false →
        ¬state.Pending (.insertLog kbId taskType)) (kbId : String) (taskType : TaskType) :
    countRows kbId taskType ⟨(runStatement fails state.shared statement rest).1,
      state.programs.set worker (runStatement fails state.shared statement rest).2⟩ ≤ 1 := by
  have before := unique kbId taskType
  have rows : countScheduled kbId taskType _ ≤ _ :=
    countScheduled_turn fails state.shared statement rest
  have pending := countPending_turn fails found (Statement.inserts kbId taskType)
    (runStatement fails state.shared statement rest).1
  unfold countRows at before ⊢
  simp only
  rcases countP_extra fails state.shared statement kbId taskType with nothing | insertion
  · omega
  · obtain ⟨isSchedule, missing, one⟩ := insertion
    have noRow := countScheduled_eq_zero missing
    have noPending : state.countPending (Statement.inserts kbId taskType) = 0 := by
      apply Workers.countPending_eq_zero.mpr
      intro other isPending
      apply decide_eq_false
      rintro rfl
      exact decides kbId taskType isSchedule missing isPending
    omega

theorem countRows_spawn {program : List Statement}
    (undecided : ∀ statement ∈ program, ∀ kbId taskType,
      statement ≠ .insertLog kbId taskType) :
    countRows kbId taskType (state.spawn program) = countRows kbId taskType state := by
  unfold countRows
  rw [Workers.countPending_spawn]
  have nothing : program.countP (Statement.inserts kbId taskType) = 0 := by
    apply List.countP_eq_zero.mpr
    intro statement member
    simpa [Statement.inserts] using undecided statement member kbId taskType
  rw [nothing]
  rfl

def Begins (statement : Statement) : Prop :=
  (∀ kbId taskType, statement ≠ .insertLog kbId taskType) ∧ statement ≠ .scheduleConnector

theorem begins_scheduleBoth {tables : Tables} {statement : Statement}
    (member : statement ∈ scheduleBoth tables kbId) :
    Begins statement ∧ ∀ log, statement ≠ .startLog log := by
  unfold scheduleBoth at member
  rcases List.mem_cons.mp member with rfl | prune
  · exact ⟨⟨by simp, by simp⟩, by simp⟩
  · split at prune
    · obtain rfl := List.mem_singleton.mp prune
      exact ⟨⟨by simp, by simp⟩, by simp⟩
    · cases prune

theorem begins_call {syncDeletedFiles : Bool} {log : Log} {statement : Statement}
    (member : statement ∈ call syncDeletedFiles log) : Begins statement := by
  unfold call at member
  rcases List.mem_append.mp member with first | last
  · simp only [List.mem_cons, List.not_mem_nil, or_false] at first
    rcases first with rfl | rfl | rfl | rfl | rfl <;> exact ⟨by simp, by simp⟩
  · cases type : log.taskType with
    | sync =>
      rw [type] at last
      obtain rfl := List.mem_singleton.mp last
      exact ⟨by simp, by simp⟩
    | prune =>
      rw [type] at last
      cases syncDeletedFiles with
      | true =>
        obtain rfl := List.mem_singleton.mp last
        exact ⟨by simp, by simp⟩
      | false => cases last

theorem Sound.spawn (sound : Sound state) {program : List Statement}
    (begins : ∀ statement ∈ program, Begins statement ∧ ∀ log, statement ≠ .startLog log) :
    Sound (state.spawn program) where
  unique kbId taskType := by
    rw [countRows_spawn fun statement member => (begins statement member).1.1]
    exact sound.unique kbId taskType
  quiet cancelled := by
    obtain ⟨status, undispatched, unscheduled⟩ := sound.quiet cancelled
    refine ⟨status, fun log pending => ?_, fun pending => ?_⟩
    · rcases Workers.pending_spawn.mp pending with before | new
      · exact undispatched log before
      · exact (begins _ new).2 log rfl
    · rcases Workers.pending_spawn.mp pending with before | new
      · exact unscheduled before
      · exact (begins _ new).1.2 rfl

theorem Sound.schedules (sound : Sound state) {program : List Statement}
    (begins : ∀ statement ∈ program, Begins statement) : Sound (schedules state program) where
  unique kbId taskType := by
    unfold Tasks.schedules
    rw [countRows_spawn fun statement member => (begins statement member).1]
    exact sound.unique kbId taskType
  quiet cancelled := by
    cases cancelled

theorem cancelled_runStatement {fails : Bool} {statement : Statement} {rest : List Statement}
    (other : statement ≠ .cancelConnector) :
    (runStatement fails tables statement rest).1.cancelled = tables.cancelled := by
  cases statement with
  | cancelConnector => exact absurd rfl other
  | schedule kbId taskType => unfold runStatement; dsimp only; split <;> rfl
  | _ => simp [runStatement]

theorem status_runStatement {fails : Bool} {statement : Statement} {rest : List Statement}
    (other : statement ≠ .scheduleConnector)
    (before : tables.connectorStatus ≠ some .schedule) :
    (runStatement fails tables statement rest).1.connectorStatus ≠ some .schedule := by
  cases statement with
  | scheduleConnector => exact absurd rfl other
  | schedule kbId taskType => unfold runStatement; dsimp only; split <;> exact before
  | cancelConnector => simp [runStatement]
  | startConnector => simp [runStatement]
  | doneConnector => simp [runStatement]
  | _ => exact before

theorem started_runStatement {fails : Bool} {statement : Statement} {rest : List Statement}
    (other : ∀ log, statement ≠ .startLog log) :
    (runStatement fails tables statement rest).1.started = tables.started := by
  cases statement with
  | startLog log => exact absurd rfl (other log)
  | schedule kbId taskType => unfold runStatement; dsimp only; split <;> rfl
  | _ => simp [runStatement]

theorem mem_extra {fails : Bool} {statement decided : Statement}
    (member : decided ∈ extra fails tables statement) :
    (∀ log, decided ≠ .startLog log) ∧ (decided = .scheduleConnector →
      ∃ kbId taskType, statement = .schedule kbId taskType ∧
        tables.logs.any (Log.scheduledFor kbId taskType) = false) := by
  cases statement with
  | schedule kbId taskType =>
    unfold extra at member
    by_cases exist : tables.logs.any (Log.scheduledFor kbId taskType) = true
    · simp only [if_pos exist] at member
      cases member
    · simp only [if_neg exist, List.mem_cons, List.not_mem_nil, or_false] at member
      refine ⟨?_, fun _ => ⟨kbId, taskType, rfl, Bool.eq_false_iff.mpr exist⟩⟩
      rcases member with rfl | rfl <;> simp
  | runTaskLogic log =>
    cases fails with
    | true =>
      obtain rfl := List.mem_singleton.mp member
      exact ⟨by simp, by simp⟩
    | false => cases member
  | _ => cases member

theorem sound_turn (sound : Sound state) {worker : ℕ} {fails : Bool}
    (undisturbed : Undisturbed state (.turn worker fails)) :
    Sound (step state (.turn worker fails)) := by
  rcases Workers.exec_cases (runStatement fails) worker state with same | executed
  · simpa only [step, same] using sound
  · obtain ⟨statement, rest, current, found, executed⟩ := executed
    have calm : Calm state statement := undisturbed statement current
    simp only [step, executed]
    constructor
    · apply countRows_turn_le found sound.unique
      rintro kbId taskType rfl missing
      exact (calm missing).2
    · intro cancelled
      -- What is pending afterwards was pending before, apart from the decisions.
      have quiet : ∀ status : (runStatement fails state.shared statement rest).1.connectorStatus ≠
            some .schedule, (∀ log, ¬state.Pending (.startLog log)) →
          ¬state.Pending .scheduleConnector →
          (∀ kbId taskType, statement = .schedule kbId taskType →
            state.shared.logs.any (Log.scheduledFor kbId taskType) = true) →
          Quiet ⟨(runStatement fails state.shared statement rest).1,
            state.programs.set worker (runStatement fails state.shared statement rest).2⟩ := by
        intro status undispatched unscheduled settled
        refine ⟨status, fun log pending => ?_, fun pending => ?_⟩
        · rcases pending_turn found pending with before | decided
          · exact undispatched log before
          · exact (mem_extra decided).1 log rfl
        · rcases pending_turn found pending with before | decided
          · exact unscheduled before
          · obtain ⟨kbId, taskType, isSchedule, missing⟩ := (mem_extra decided).2 rfl
            rw [settled kbId taskType isSchedule] at missing
            cases missing
      by_cases cancels : statement = .cancelConnector
      · subst cancels
        refine quiet ?_ calm.1 calm.2 ?_
        · simp [runStatement]
        · simp
      · simp only [cancelled_runStatement cancels] at cancelled
        have before := sound.quiet cancelled
        have waiting : state.Pending statement :=
          Workers.pending_of_getElem? found List.mem_cons_self
        refine quiet ?_ before.undispatched before.unscheduled ?_
        · apply status_runStatement ?_ before.status
          rintro rfl
          exact before.unscheduled waiting
        · rintro kbId taskType rfl
          by_contra missing
          have open_ := (calm (Bool.eq_false_iff.mpr missing)).1
          rw [cancelled] at open_
          cases open_

theorem sound_step {move : Move} (undisturbed : Undisturbed state move) (sound : Sound state) :
    Sound (step state move) := by
  cases move with
  | turn worker fails => exact sound_turn sound undisturbed
  | dispatch taskType due =>
    constructor
    · intro kbId taskType'
      have noInsertion : ((listDue taskType due state.shared).map
          (call state.shared.syncDeletedFiles)).flatten.countP
            (Statement.inserts kbId taskType') = 0 := by
        apply List.countP_eq_zero.mpr
        intro statement member
        obtain ⟨program, inPrograms, inProgram⟩ := List.mem_flatten.mp member
        obtain ⟨log, -, rfl⟩ := List.mem_map.mp inPrograms
        simpa [Statement.inserts] using (begins_call inProgram).1 kbId taskType'
      have before := sound.unique kbId taskType'
      unfold countRows Workers.countPending at before ⊢
      simpa only [step, List.flatten_append, List.countP_append, noInsertion,
        Nat.add_zero] using before
    · intro cancelled
      have quiet := sound.quiet cancelled
      -- Nothing is listed while the connector is cancelled.
      have nothing : listDue taskType due state.shared = [] := if_neg quiet.status
      simpa only [step, nothing, List.map_nil, List.append_nil] using quiet
  | cancelTasks =>
    apply sound.spawn
    intro statement member
    rcases List.mem_append.mp member with logs | last
    · obtain ⟨kbId, -, rfl⟩ := List.mem_map.mp logs
      exact ⟨⟨by simp, by simp⟩, by simp⟩
    · obtain rfl := List.mem_singleton.mp last
      exact ⟨⟨by simp, by simp⟩, by simp⟩
  | scheduleTasks =>
    apply sound.schedules
    intro statement member
    obtain ⟨kbId, -, inBoth⟩ := List.mem_flatMap.mp member
    exact (begins_scheduleBoth inBoth).1
  | rebuild kbId =>
    apply sound.schedules
    intro statement member
    rcases List.mem_cons.mp member with rfl | inBoth
    · exact ⟨by simp, by simp⟩
    · exact (begins_scheduleBoth inBoth).1
  | link kbId =>
    by_cases known : kbId ∈ state.shared.links
    · simp only [step, if_pos known]
      exact ⟨sound.unique, fun cancelled => nomatch cancelled⟩
    · simp only [step, if_neg known]
      have linked : Sound
          { state with shared := { state.shared with links := state.shared.links ++ [kbId] } } :=
        ⟨sound.unique, fun cancelled =>
          ⟨(sound.quiet cancelled).status, (sound.quiet cancelled).undispatched,
            (sound.quiet cancelled).unscheduled⟩⟩
      exact linked.schedules fun statement member => (begins_scheduleBoth member).1
  | unlink kbId =>
    have unlinked : Sound { state with shared := { state.shared with
        links := state.shared.links.filter fun other => other ≠ kbId } } :=
      ⟨sound.unique, fun cancelled =>
        ⟨(sound.quiet cancelled).status, (sound.quiet cancelled).undispatched,
          (sound.quiet cancelled).unscheduled⟩⟩
    apply unlinked.spawn
    intro statement member
    obtain rfl := List.mem_singleton.mp member
    exact ⟨⟨by simp, by simp⟩, by simp⟩
  | configure syncDeletedFiles =>
    exact ⟨sound.unique, fun cancelled =>
      ⟨(sound.quiet cancelled).status, (sound.quiet cancelled).undispatched,
        (sound.quiet cancelled).unscheduled⟩⟩

theorem started_step (sound : Sound state) (move : Move)
    (cancelled : state.shared.cancelled = true) :
    (step state move).shared.started = state.shared.started := by
  cases move with
  | turn worker fails =>
    rcases Workers.exec_cases (runStatement fails) worker state with same | executed
    · simp only [step, same]
    · obtain ⟨statement, rest, -, found, executed⟩ := executed
      simp only [step, executed]
      apply started_runStatement
      rintro log rfl
      exact (sound.quiet cancelled).undispatched log
        (Workers.pending_of_getElem? found List.mem_cons_self)
  | link kbId =>
    simp only [step]
    split <;> rfl
  | _ => rfl

end Steps

def Statement.starts : Statement → Bool
  | .startLog _ => true
  | _ => false

theorem undispatched_iff :
    (∀ log, ¬state.Pending (.startLog log)) ↔
      ∀ program ∈ state.programs, ∀ statement ∈ program, statement.starts = false := by
  constructor
  · intro undispatched program member statement inProgram
    cases statement with
    | startLog log => exact absurd ⟨program, member, inProgram⟩ (undispatched log)
    | _ => simp [Statement.starts]
  · rintro none_starts log ⟨program, member, inProgram⟩
    cases none_starts program member _ inProgram

instance decidablePending (statement : Statement) : Decidable (state.Pending statement) :=
  inferInstanceAs (Decidable (∃ program ∈ state.programs, statement ∈ program))

instance decidableUndispatched : Decidable (∀ log, ¬state.Pending (.startLog log)) :=
  decidable_of_iff' _ undispatched_iff

instance decidableCalm (state : State) : (statement : Statement) → Decidable (Calm state statement)
  | .schedule kbId taskType => inferInstanceAs (Decidable
      (state.shared.logs.any (Log.scheduledFor kbId taskType) = false →
        state.shared.cancelled = false ∧ ¬state.Pending (.insertLog kbId taskType)))
  | .cancelConnector => inferInstanceAs (Decidable
      ((∀ log, ¬state.Pending (.startLog log)) ∧ ¬state.Pending .scheduleConnector))
  | .cancelLogs _ => isTrue trivial
  | .startLog _ => isTrue trivial
  | .startConnector => isTrue trivial
  | .runTaskLogic _ => isTrue trivial
  | .doneLog _ => isTrue trivial
  | .doneConnector => isTrue trivial
  | .failLog _ => isTrue trivial
  | .scheduleConnector => isTrue trivial
  | .insertLog _ _ => isTrue trivial
  | .deleteLogs _ => isTrue trivial

instance decidableUndisturbed (state : State) : (move : Move) → Decidable (Undisturbed state move)
  | .turn worker _ => inferInstanceAs (Decidable
      (∀ statement ∈ state.current? worker, Calm state statement))
  | .dispatch _ _ => isTrue trivial
  | .cancelTasks => isTrue trivial
  | .scheduleTasks => isTrue trivial
  | .rebuild _ => isTrue trivial
  | .link _ => isTrue trivial
  | .unlink _ => isTrue trivial
  | .configure _ => isTrue trivial

def turns (worker count : ℕ) : List Move :=
  List.replicate count (.turn worker false)

def dispatched : List Move :=
  .link "kb" :: turns 0 3 ++ [.dispatch .sync fun _ => true]

end RagFlow.Sync.Tasks
