import Mathlib.Data.List.Perm.Basic
import RagFlow.Lib.Runs

/-!
# Incremental sync

A sync run polls the documents that were updated after the start of its window, and passes them to
`duplicate_and_parse` batch by batch.  The start of the next window is copied from the task, or from
the log of the run when the user schedules again.
-/

namespace RagFlow.Sync

open Lib

structure Version where
  doc : Nat
  updatedAt : Nat
deriving DecidableEq, Repr

inductive TaskStatus
  | schedule
  | running
  | done
  | fail
  | cancel
deriving DecidableEq, Repr

structure SyncLog where
  id : Nat
  status : TaskStatus
  pollRangeStart : Option Nat
  pollRangeEnd : Option Nat
deriving DecidableEq, Repr

structure SyncRun where
  logId : Nat
  /-- The batches that the source has still to give. -/
  batches : List (List Version)
  nextUpdate : Nat
  /-- The documents counted in `failed_docs`. -/
  failedDocs : List Version
  /-- The log is `DONE`; the next run is still to be scheduled. -/
  ended : Bool
deriving DecidableEq, Repr

/-- The source, the logs with the one that was updated last in front, the run in progress, and the
versions that were reported and ingested so far. -/
structure SyncState where
  now : Nat
  source : List Version
  logs : List SyncLog
  nextId : Nat
  run : Option SyncRun
  reported : List Version
  ingested : List Version
deriving DecidableEq, Repr

inductive Outcome
  | raised
  /-- The batch is ingested, and `increase_docs` raises. -/
  | uncounted
  | counted
deriving DecidableEq, Repr

inductive SyncMove
  | publish (doc advance : Nat)
  | remove (doc : Nat)
  /-- The scheduled task is dispatched and polls the source. -/
  | dispatch (batches : List (List Version))
  | batch (outcome : Outcome)
  | finish
  | reschedule
  | abort
  | scheduleTasks
  | cancelTasks
deriving DecidableEq, Repr

def touch (selected : SyncLog → Bool) (change : SyncLog → SyncLog) (logs : List SyncLog) :
    List SyncLog :=
  (logs.filter selected).map change ++ logs.filter fun log => !selected log

def setStatus (id : Nat) (status : TaskStatus) : List SyncLog → List SyncLog :=
  touch (fun log => log.id = id) fun log => { log with status := status }

/-- `COALESCE(GREATEST(value, max_update), max_update)` -/
def greatest (value : Option Nat) (maxUpdate : Nat) : Option Nat :=
  match value with
  | none => some maxUpdate
  | some value => some (max value maxUpdate)

def increaseDocs (id maxUpdate : Nat) : List SyncLog → List SyncLog :=
  touch (fun log => log.id = id) fun log =>
    { log with
      pollRangeStart := greatest log.pollRangeStart maxUpdate
      pollRangeEnd := greatest log.pollRangeEnd maxUpdate }

/-- `SyncLogsService.schedule`: nothing happens when a task is scheduled already. -/
def schedule (pollRangeStart : Option Nat) (state : SyncState) : SyncState :=
  if state.logs.any fun log => log.status = .schedule then state
  else
    { state with
      logs := ⟨state.nextId, .schedule, pollRangeStart, none⟩ :: state.logs
      nextId := state.nextId + 1 }

def inWindow (pollRangeStart : Option Nat) (now : Nat) (version : Version) : Bool :=
  (match pollRangeStart with
    | none => true
    | some start => start < version.updatedAt) && version.updatedAt ≤ now

def dispatch (batches : List (List Version)) (state : SyncState) : SyncState :=
  match state.run, state.logs.find? fun log => log.status = .schedule with
  | none, some log =>
    if batches.flatten.Perm (state.source.filter (inWindow log.pollRangeStart state.now)) then
      { state with
        logs := setStatus log.id .running state.logs
        run := some
          { logId := log.id
            batches := batches
            nextUpdate := log.pollRangeStart.getD 0
            failedDocs := []
            ended := false } }
    else state
  | _, _ => state

def takeBatch (outcome : Outcome) (state : SyncState) : SyncState :=
  match state.run with
  | none => state
  | some run =>
    match run.batches with
    | [] => state
    | batch :: batches =>
      let maxUpdate := (batch.map Version.updatedAt).foldl max 0
      let next := { run with batches := batches, nextUpdate := max run.nextUpdate maxUpdate }
      let state := { state with reported := state.reported ++ batch }
      match batch, outcome with
      | [], _ => { state with run := some { run with batches := batches } }
      | _, .raised =>
        { state with run := some { next with failedDocs := next.failedDocs ++ batch } }
      | _, .uncounted =>
        { state with
          run := some { next with failedDocs := next.failedDocs ++ batch }
          ingested := state.ingested ++ batch }
      | _, .counted =>
        { state with
          run := some next
          logs := increaseDocs run.logId maxUpdate state.logs
          ingested := state.ingested ++ batch }

/-- `SyncLogsService.done` at the end of the loop. -/
def finish (state : SyncState) : SyncState :=
  match state.run with
  | none => state
  | some run =>
    if run.batches = [] then
      { state with
        logs := setStatus run.logId .done state.logs
        run := some { run with ended := true } }
    else state

def reschedule (state : SyncState) : SyncState :=
  match state.run with
  | none => state
  | some run =>
    if run.ended then schedule (some run.nextUpdate) { state with run := none } else state

def abort (state : SyncState) : SyncState :=
  match state.run with
  | none => state
  | some run =>
    { state with
      logs := setStatus run.logId .fail state.logs
      run := none }

def scheduleTasks (state : SyncState) : SyncState :=
  let pollRangeStart :=
    match state.logs.head? with
    | some log => if log.status = .done then log.pollRangeEnd else none
    | none => none
  schedule pollRangeStart state

def cancelTasks (state : SyncState) : SyncState :=
  { state with
    logs := touch (fun log => log.status = .schedule || log.status = .running)
      (fun log => { log with status := .cancel }) state.logs }

def syncStep (state : SyncState) : SyncMove → SyncState
  | .publish doc advance =>
    let now := state.now + advance
    { state with
      now := now
      source := ⟨doc, now⟩ :: state.source.filter fun version => version.doc ≠ doc }
  | .remove doc =>
    { state with source := state.source.filter fun version => version.doc ≠ doc }
  | .dispatch batches => dispatch batches state
  | .batch outcome => takeBatch outcome state
  | .finish => finish state
  | .reschedule => reschedule state
  | .abort => abort state
  | .scheduleTasks => scheduleTasks state
  | .cancelTasks => cancelTasks state

def linked : SyncState where
  now := 0
  source := []
  logs := [⟨0, .schedule, none, none⟩]
  nextId := 1
  run := none
  reported := []
  ingested := []

def Covered (state : SyncState) (start : Nat) : Prop :=
  ∀ version ∈ state.reported, version.updatedAt ≤ start → version ∈ state.ingested

/-- The windows of the next run leave nothing out: neither that which follows the run that is done,
nor that which is scheduled while no run is in progress. -/
structure SkipsNothing (state : SyncState) : Prop where
  done : ∀ run, state.run = some run → run.ended = true → Covered state run.nextUpdate
  scheduled : state.run = none → ∀ log ∈ state.logs, log.status = .schedule →
    ∀ start, log.pollRangeStart = some start → Covered state start

def Missed (state : SyncState) (version : Version) : Prop :=
  version ∈ state.reported ∧ version ∉ state.ingested

/-- A run is done only when the documents of its failed batches are ingested in another way, and a
version that was reported stays at the source until it is ingested. -/
def Safe (state : SyncState) : SyncMove → Prop
  | .publish doc _ => ∀ version ∈ state.reported, version ∉ state.ingested → version.doc ≠ doc
  | .remove doc => ∀ version ∈ state.reported, version ∉ state.ingested → version.doc ≠ doc
  | .batch .raised => ∀ run ∈ state.run, ∀ batch ∈ run.batches.head?, ∀ version ∈ batch,
      version ∈ state.ingested ∨ version ∈ state.source
  | .finish => ∀ run ∈ state.run, run.batches = [] → ∀ version ∈ run.failedDocs,
      version ∈ state.ingested
  | _ => True

instance decidableSafe (state : SyncState) : (move : SyncMove) → Decidable (Safe state move)
  | .publish doc _ => inferInstanceAs (Decidable (∀ version ∈ state.reported,
      version ∉ state.ingested → version.doc ≠ doc))
  | .remove doc => inferInstanceAs (Decidable (∀ version ∈ state.reported,
      version ∉ state.ingested → version.doc ≠ doc))
  | .batch .raised => inferInstanceAs (Decidable (∀ run ∈ state.run, ∀ batch ∈ run.batches.head?,
      ∀ version ∈ batch, version ∈ state.ingested ∨ version ∈ state.source))
  | .finish => inferInstanceAs (Decidable (∀ run ∈ state.run, run.batches = [] →
      ∀ version ∈ run.failedDocs, version ∈ state.ingested))
  | .batch .uncounted => isTrue trivial
  | .batch .counted => isTrue trivial
  | .dispatch _ => isTrue trivial
  | .reschedule => isTrue trivial
  | .abort => isTrue trivial
  | .scheduleTasks => isTrue trivial
  | .cancelTasks => isTrue trivial

end RagFlow.Sync
