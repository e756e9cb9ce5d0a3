import Mathlib.Data.List.Dedup
import RagFlow.Executor.InsertChunks
import RagFlow.Executor.Store

/-!
# The RAPTOR plan

A RAPTOR task generates summaries for its documents, one tree for each of them or one for the
dataset, and schedules which older summaries go once the new ones are stored.  Documents whose
summaries of the wanted builder are stored already are passed over.
-/

namespace RagFlow.Executor

inductive Scope
  | file
  | dataset
deriving DecidableEq, Repr

/-- How far a task comes before it writes: the models cannot be bound, a later step raises, or its
results are ready. -/
inductive Readiness
  | unbound
  | failed
  | ready
deriving DecidableEq, Repr

abbrev Cleanup := String × Option TreeBuilder

/-- A RAPTOR task.  `skips` are the documents that the auto-disable rules leave out; `summarize`
are the contents of the summaries generated for a document, or for `fakeDocId` from the documents
together, none when no chunks could be loaded. -/
structure RaptorTask where
  docIds : List String
  docIds_ne_nil : docIds ≠ []
  docIds_real : fakeDocId ∉ docIds
  scope : Scope
  treeBuilder : TreeBuilder
  skips : String → Bool
  summarize : String → List String
  tokenCount : Nat
  readiness : Readiness

variable (hash : String → String) (kbId : String) (store : List Chunk) (task : RaptorTask)

/-- `get_raptor_chunk_methods`: the builders of the stored summaries of a document. -/
def raptorChunkMethods (docId : String) : List TreeBuilder :=
  (store.filter fun chunk => chunk.kbId = kbId && chunk.docId = docId).filterMap
    Chunk.raptorMethod

/-- A generated summary; `make_raptor_summary_chunk_id` gives its id. -/
def summaryChunk (docId content : String) : Chunk :=
  { id := hash (content ++ docId), docId := docId, kbId := kbId, content := content, mom := "",
    raptorMethod := some task.treeBuilder }

def generateRaptor (docId : String) : List Chunk :=
  (task.summarize docId).map (summaryChunk hash kbId task docId)

def scheduleRaptorCleanup (plan : Cleanup) (cleanup : List Cleanup) : List Cleanup :=
  if plan ∈ cleanup then cleanup else cleanup ++ [plan]

structure RaptorProgress where
  chunks : List Chunk
  cleanup : List Cleanup
  hasFileLevelTarget : Bool

def fileLevelDoc (progress : RaptorProgress) (docId : String) : RaptorProgress :=
  let existing := raptorChunkMethods kbId store docId
  let new := generateRaptor hash kbId task docId
  if task.skips docId then progress
  else if task.treeBuilder ∈ existing then
    { progress with
      hasFileLevelTarget := true
      cleanup := if ∃ method ∈ existing, method ≠ task.treeBuilder then
          scheduleRaptorCleanup (docId, some task.treeBuilder) progress.cleanup
        else progress.cleanup }
  else if new = [] then progress
  else
    { chunks := progress.chunks ++ new
      hasFileLevelTarget := true
      cleanup := if existing ≠ [] then
          scheduleRaptorCleanup (docId, some task.treeBuilder) progress.cleanup
        else progress.cleanup }

def runFileLevelRaptor : List Chunk × List Cleanup :=
  let progress := task.docIds.foldl (fileLevelDoc hash kbId store task) ⟨[], [], false⟩
  if raptorChunkMethods kbId store fakeDocId ≠ [] ∧ progress.hasFileLevelTarget = true then
    (progress.chunks, scheduleRaptorCleanup (fakeDocId, none) progress.cleanup)
  else (progress.chunks, progress.cleanup)

def fileCleanupDocIds : List String :=
  task.docIds.dedup.filter fun docId =>
    !task.skips docId && raptorChunkMethods kbId store docId ≠ []

def runDatasetLevelRaptor : List Chunk × List Cleanup :=
  let existing := raptorChunkMethods kbId store fakeDocId
  let new := generateRaptor hash kbId task fakeDocId
  let files := (fileCleanupDocIds kbId store task).map fun docId => (docId, none)
  if task.treeBuilder ∈ existing then
    ([], (if ∃ method ∈ existing, method ≠ task.treeBuilder then
      [(fakeDocId, some task.treeBuilder)] else []) ++ files)
  else if new = [] then ([], [])
  else (new, files ++ if existing ≠ [] then [(fakeDocId, some task.treeBuilder)] else [])

/-- `run_raptor_for_kb`: the new summaries and the clean-ups. -/
def runRaptorForKb : List Chunk × List Cleanup :=
  match task.scope with
  | .file => runFileLevelRaptor hash kbId store task
  | .dataset => runDatasetLevelRaptor hash kbId store task

def RaptorTask.IsTarget (docId target : String) : Prop :=
  match task.scope with
  | .file => if docId = fakeDocId then target ∈ task.docIds else target = docId
  | .dataset => target = fakeDocId

def TargetStored (docId : String) : Prop :=
  ∃ chunk ∈ store, chunk.kbId = kbId ∧ chunk.raptorMethod = some task.treeBuilder ∧
    task.IsTarget docId chunk.docId

structure PlanSpec (chunks : List Chunk) (cleanup : List Cleanup) : Prop where
  generated : ∀ chunk ∈ chunks, ∃ content, chunk = summaryChunk hash kbId task chunk.docId content
  missing : ∀ chunk ∈ chunks, task.treeBuilder ∉ raptorChunkMethods kbId store chunk.docId
  own : ∀ chunk ∈ chunks, task.IsTarget chunk.docId chunk.docId
  stale : ∀ plan ∈ cleanup, ∃ chunk ∈ store, chunk.kbId = kbId ∧ isStale plan.1 plan.2 chunk = true
  target : ∀ plan ∈ cleanup, TargetStored kbId store task plan.1 ∨
    ∃ chunk ∈ chunks, task.IsTarget plan.1 chunk.docId
  keeps : ∀ plan ∈ cleanup, ∀ docId, ∀ chunk : Chunk, task.IsTarget docId chunk.docId →
    chunk.raptorMethod = some task.treeBuilder → isStale plan.1 plan.2 chunk = false

variable {hash kbId store task}

theorem mem_raptorChunkMethods {docId : String} {builder : TreeBuilder} :
    builder ∈ raptorChunkMethods kbId store docId ↔ ∃ chunk ∈ store,
      chunk.kbId = kbId ∧ chunk.docId = docId ∧ chunk.raptorMethod = some builder := by
  simp [raptorChunkMethods, and_assoc]

theorem mem_scheduleRaptorCleanup {plan other : Cleanup} {cleanup : List Cleanup} :
    other ∈ scheduleRaptorCleanup plan cleanup ↔ other = plan ∨ other ∈ cleanup := by
  rw [scheduleRaptorCleanup]
  split
  · next known => exact ⟨Or.inr, fun either => either.elim (fun same => same ▸ known) id⟩
  · simp [or_comm]

theorem mem_generateRaptor {docId : String} {chunk : Chunk}
    (member : chunk ∈ generateRaptor hash kbId task docId) :
    ∃ content, chunk = summaryChunk hash kbId task docId content := by
  obtain ⟨content, _, rfl⟩ := List.mem_map.mp member
  exact ⟨content, rfl⟩

theorem exists_stale {docId : String} {keepMethod : Option TreeBuilder} {builder : TreeBuilder}
    (existing : builder ∈ raptorChunkMethods kbId store docId)
    (differs : keepMethod ≠ some builder) :
    ∃ chunk ∈ store, chunk.kbId = kbId ∧ isStale docId keepMethod chunk = true := by
  obtain ⟨chunk, stored, inKb, ofDoc, method⟩ := mem_raptorChunkMethods.mp existing
  exact ⟨chunk, stored, inKb, isStale_iff.mpr ⟨ofDoc, builder, method, differs⟩⟩

theorem isTarget_real {docId target : String} (file : task.scope = .file)
    (real : docId ∈ task.docIds) : task.IsTarget docId target ↔ target = docId := by
  have differs : docId ≠ fakeDocId := fun same => task.docIds_real (same ▸ real)
  simp [RaptorTask.IsTarget, file, differs]

structure FileSpec (hash : String → String) (kbId : String) (store : List Chunk)
    (task : RaptorTask) (progress : RaptorProgress) : Prop where
  chunks : ∀ chunk ∈ progress.chunks, chunk.docId ∈ task.docIds ∧
    task.treeBuilder ∉ raptorChunkMethods kbId store chunk.docId ∧
    ∃ content, chunk = summaryChunk hash kbId task chunk.docId content
  cleanup : ∀ plan ∈ progress.cleanup, plan.1 ∈ task.docIds ∧ plan.2 = some task.treeBuilder ∧
    (∃ chunk ∈ store, chunk.kbId = kbId ∧ isStale plan.1 plan.2 chunk = true) ∧
    (task.treeBuilder ∈ raptorChunkMethods kbId store plan.1 ∨
      ∃ chunk ∈ progress.chunks, chunk.docId = plan.1)
  target : progress.hasFileLevelTarget = true → ∃ docId ∈ task.docIds,
    task.treeBuilder ∈ raptorChunkMethods kbId store docId ∨
      ∃ chunk ∈ progress.chunks, chunk.docId = docId

theorem fileSpec_fileLevelDoc {progress : RaptorProgress} {docId : String}
    (real : docId ∈ task.docIds) (spec : FileSpec hash kbId store task progress) :
    FileSpec hash kbId store task (fileLevelDoc hash kbId store task progress docId) := by
  rw [fileLevelDoc]
  split
  · exact spec
  · split
    · next existing =>
        refine ⟨spec.chunks, ?_, fun _ => ⟨docId, real, .inl existing⟩⟩
        intro plan scheduled
        dsimp only at scheduled
        split at scheduled
        · next others =>
            rcases mem_scheduleRaptorCleanup.mp scheduled with rfl | earlier
            · obtain ⟨method, other, differs⟩ := others
              have stale := @exists_stale _ _ _ (some task.treeBuilder) _ other
                fun same => differs (Option.some.inj same).symm
              exact ⟨real, rfl, stale, .inl existing⟩
            · exact spec.cleanup plan earlier
        · exact spec.cleanup plan scheduled
    · next missing =>
        split
        · exact spec
        · next made =>
            obtain ⟨first, generated⟩ := List.exists_mem_of_ne_nil _ made
            have ofDoc : first.docId = docId := by
              obtain ⟨content, rfl⟩ := mem_generateRaptor generated
              rfl
            have here : ∃ chunk ∈ progress.chunks ++ generateRaptor hash kbId task docId,
                chunk.docId = docId :=
              ⟨first, List.mem_append_right _ generated, ofDoc⟩
            refine ⟨?_, ?_, fun _ => ⟨docId, real, .inr here⟩⟩
            · intro chunk member
              rcases List.mem_append.mp member with earlier | new
              · exact spec.chunks chunk earlier
              · obtain ⟨content, rfl⟩ := mem_generateRaptor new
                exact ⟨real, missing, content, rfl⟩
            · intro plan scheduled
              have later : plan ∈ progress.cleanup → plan.1 ∈ task.docIds ∧
                  plan.2 = some task.treeBuilder ∧
                  (∃ chunk ∈ store, chunk.kbId = kbId ∧ isStale plan.1 plan.2 chunk = true) ∧
                  (task.treeBuilder ∈ raptorChunkMethods kbId store plan.1 ∨
                    ∃ chunk ∈ progress.chunks ++ generateRaptor hash kbId task docId,
                      chunk.docId = plan.1) := by
                intro earlier
                obtain ⟨inTask, keeps, stale, target⟩ := spec.cleanup plan earlier
                refine ⟨inTask, keeps, stale, target.imp_right ?_⟩
                rintro ⟨chunk, member, same⟩
                exact ⟨chunk, List.mem_append_left _ member, same⟩
              dsimp only at scheduled
              split at scheduled
              · next existing =>
                  rcases mem_scheduleRaptorCleanup.mp scheduled with rfl | earlier
                  · obtain ⟨method, other⟩ := List.exists_mem_of_ne_nil _ existing
                    have stale := @exists_stale _ _ _ (some task.treeBuilder) _ other
                      fun same => missing (Option.some.inj same ▸ other)
                    exact ⟨real, rfl, stale, .inr here⟩
                  · exact later earlier
              · exact later scheduled

theorem fileSpec_foldl (docIds : List String) (real : docIds ⊆ task.docIds)
    {progress : RaptorProgress} (spec : FileSpec hash kbId store task progress) :
    FileSpec hash kbId store task
      (docIds.foldl (fileLevelDoc hash kbId store task) progress) := by
  induction docIds generalizing progress with
  | nil => exact spec
  | cons docId docIds ih =>
    rw [List.cons_subset] at real
    exact ih real.2 (fileSpec_fileLevelDoc real.1 spec)

theorem targetStored_of_method {docId target : String} (isTarget : task.IsTarget docId target)
    (existing : task.treeBuilder ∈ raptorChunkMethods kbId store target) :
    TargetStored kbId store task docId := by
  obtain ⟨chunk, stored, inKb, ofDoc, method⟩ := mem_raptorChunkMethods.mp existing
  exact ⟨chunk, stored, inKb, method, ofDoc ▸ isTarget⟩

theorem isTarget_ne_fake {docId target : String} (file : task.scope = .file)
    (isTarget : task.IsTarget docId target) : target ≠ fakeDocId := by
  rw [RaptorTask.IsTarget, file] at isTarget
  dsimp only at isTarget
  split at isTarget
  · exact fun same => task.docIds_real (same ▸ isTarget)
  · next real => exact isTarget ▸ real

theorem isTarget_unique {docId target : String} (own : task.IsTarget docId docId)
    (isTarget : task.IsTarget docId target) : target = docId := by
  cases scope : task.scope with
  | file =>
    have real := isTarget_ne_fake scope own
    simpa [RaptorTask.IsTarget, scope, real] using isTarget
  | dataset =>
    rw [RaptorTask.IsTarget, scope] at own isTarget
    exact isTarget.trans own.symm

theorem isStale_eq_false_of_kept {docId : String} {chunk : Chunk} {builder : TreeBuilder}
    (method : chunk.raptorMethod = some builder) :
    isStale docId (some builder) chunk = false := by
  simp [isStale, method]

theorem isStale_eq_false_of_other {docId : String} {keepMethod : Option TreeBuilder}
    {chunk : Chunk} (other : chunk.docId ≠ docId) : isStale docId keepMethod chunk = false := by
  simp [isStale, other]

theorem planSpec_fileLevel (file : task.scope = .file) :
    PlanSpec hash kbId store task (runFileLevelRaptor hash kbId store task).1
      (runFileLevelRaptor hash kbId store task).2 := by
  have spec : FileSpec hash kbId store task
      (task.docIds.foldl (fileLevelDoc hash kbId store task) ⟨[], [], false⟩) := by
    apply fileSpec_foldl _ (List.Subset.refl _)
    exact ⟨by simp, by simp, by simp⟩
  rw [runFileLevelRaptor]
  generalize task.docIds.foldl (fileLevelDoc hash kbId store task) ⟨[], [], false⟩ = progress
    at spec
  have withoutDataset : PlanSpec hash kbId store task progress.chunks progress.cleanup := by
    constructor
    · exact fun chunk member => (spec.chunks chunk member).2.2
    · exact fun chunk member => (spec.chunks chunk member).2.1
    · exact fun chunk member => (isTarget_real file (spec.chunks chunk member).1).mpr rfl
    · exact fun plan scheduled => (spec.cleanup plan scheduled).2.2.1
    · intro plan scheduled
      obtain ⟨real, _, _, target⟩ := spec.cleanup plan scheduled
      rcases target with existing | ⟨chunk, member, same⟩
      · exact .inl (targetStored_of_method ((isTarget_real file real).mpr rfl) existing)
      · exact .inr ⟨chunk, member, (isTarget_real file real).mpr same⟩
    · intro plan scheduled docId chunk isTarget method
      rw [(spec.cleanup plan scheduled).2.1]
      exact isStale_eq_false_of_kept method
  split
  · next both =>
      obtain ⟨dataset, wanted⟩ := both
      obtain ⟨docId, real, target⟩ := spec.target wanted
      have isTarget : task.IsTarget fakeDocId docId := by
        simpa [RaptorTask.IsTarget, file] using real
      refine ⟨withoutDataset.generated, withoutDataset.missing, withoutDataset.own, ?_, ?_, ?_⟩
      · intro plan scheduled
        rcases mem_scheduleRaptorCleanup.mp scheduled with rfl | earlier
        · obtain ⟨method, existing⟩ := List.exists_mem_of_ne_nil _ dataset
          exact exists_stale existing (by simp)
        · exact withoutDataset.stale plan earlier
      · intro plan scheduled
        rcases mem_scheduleRaptorCleanup.mp scheduled with rfl | earlier
        · rcases target with existing | ⟨chunk, member, same⟩
          · exact .inl (targetStored_of_method isTarget existing)
          · exact .inr ⟨chunk, member, same ▸ isTarget⟩
        · exact withoutDataset.target plan earlier
      · intro plan scheduled docId chunk isTarget method
        rcases mem_scheduleRaptorCleanup.mp scheduled with rfl | earlier
        · exact isStale_eq_false_of_other (isTarget_ne_fake file isTarget)
        · exact withoutDataset.keeps plan earlier docId chunk isTarget method
  · exact withoutDataset

theorem mem_fileCleanupDocIds {docId : String} (member : docId ∈ fileCleanupDocIds kbId store task) :
    docId ∈ task.docIds ∧ raptorChunkMethods kbId store docId ≠ [] := by
  rw [fileCleanupDocIds, List.mem_filter, List.mem_dedup] at member
  refine ⟨member.1, ?_⟩
  have conditions := member.2
  rw [Bool.and_eq_true] at conditions
  exact of_decide_eq_true conditions.2

theorem planSpec_datasetLevel (dataset : task.scope = .dataset) :
    PlanSpec hash kbId store task (runDatasetLevelRaptor hash kbId store task).1
      (runDatasetLevelRaptor hash kbId store task).2 := by
  have isTarget_iff : ∀ docId target, task.IsTarget docId target ↔ target = fakeDocId := by
    intro docId target
    simp [RaptorTask.IsTarget, dataset]
  -- a clean-up of a document, or one of the dataset that keeps the wanted builder
  have fileStale : ∀ plan ∈ (fileCleanupDocIds kbId store task).map fun docId =>
      ((docId, none) : Cleanup),
      ∃ chunk ∈ store, chunk.kbId = kbId ∧ isStale plan.1 plan.2 chunk = true := by
    intro plan scheduled
    obtain ⟨docId, member, rfl⟩ := List.mem_map.mp scheduled
    obtain ⟨method, existing⟩ := List.exists_mem_of_ne_nil _ (mem_fileCleanupDocIds member).2
    exact exists_stale existing (by simp)
  have fileKeeps : ∀ plan ∈ (fileCleanupDocIds kbId store task).map fun docId =>
      ((docId, none) : Cleanup), ∀ docId, ∀ chunk : Chunk, task.IsTarget docId chunk.docId →
      chunk.raptorMethod = some task.treeBuilder → isStale plan.1 plan.2 chunk = false := by
    intro plan scheduled docId chunk isTarget method
    obtain ⟨real, member, rfl⟩ := List.mem_map.mp scheduled
    apply isStale_eq_false_of_other
    rw [(isTarget_iff docId chunk.docId).mp isTarget]
    exact fun same => task.docIds_real (same ▸ (mem_fileCleanupDocIds member).1)
  rw [runDatasetLevelRaptor]
  split
  · next existing =>
      have stored : ∀ docId, TargetStored kbId store task docId := fun docId =>
        targetStored_of_method ((isTarget_iff docId fakeDocId).mpr rfl) existing
      refine ⟨by simp, by simp, by simp, ?_, fun plan _ => .inl (stored plan.1), ?_⟩
      · intro plan scheduled
        rcases List.mem_append.mp scheduled with own | file
        · split at own
          · next others =>
              obtain ⟨method, other, differs⟩ := others
              rw [List.mem_singleton.mp own]
              exact exists_stale other fun same => differs (Option.some.inj same).symm
          · cases own
        · exact fileStale plan file
      · intro plan scheduled docId chunk isTarget method
        rcases List.mem_append.mp scheduled with own | file
        · split at own
          · rw [List.mem_singleton.mp own]
            exact isStale_eq_false_of_kept method
          · cases own
        · exact fileKeeps plan file docId chunk isTarget method
  · next missing =>
      split
      · exact ⟨by simp, by simp, by simp, by simp, by simp, by simp⟩
      · next made =>
          obtain ⟨first, generated⟩ := List.exists_mem_of_ne_nil _ made
          have ofDataset : ∀ chunk ∈ generateRaptor hash kbId task fakeDocId,
              chunk.docId = fakeDocId := by
            intro chunk member
            obtain ⟨content, rfl⟩ := mem_generateRaptor member
            rfl
          constructor
          · intro chunk member
            rw [ofDataset chunk member]
            exact mem_generateRaptor member
          · exact fun chunk member => (ofDataset chunk member).symm ▸ missing
          · exact fun chunk member => (isTarget_iff _ _).mpr (ofDataset chunk member)
          · intro plan scheduled
            rcases List.mem_append.mp scheduled with file | own
            · exact fileStale plan file
            · split at own
              · next existing =>
                  obtain ⟨method, other⟩ := List.exists_mem_of_ne_nil _ existing
                  rw [List.mem_singleton.mp own]
                  exact exists_stale other fun same => missing (Option.some.inj same ▸ other)
              · cases own
          · exact fun plan _ => .inr ⟨first, generated, (isTarget_iff _ _).mpr
              (ofDataset first generated)⟩
          · intro plan scheduled docId chunk isTarget method
            rcases List.mem_append.mp scheduled with file | own
            · exact fileKeeps plan file docId chunk isTarget method
            · split at own
              · rw [List.mem_singleton.mp own]
                exact isStale_eq_false_of_kept method
              · cases own

theorem planSpec_runRaptorForKb : PlanSpec hash kbId store task
    (runRaptorForKb hash kbId store task).1 (runRaptorForKb hash kbId store task).2 := by
  rw [runRaptorForKb]
  cases scope : task.scope with
  | file => exact planSpec_fileLevel scope
  | dataset => exact planSpec_datasetLevel scope

end RagFlow.Executor

/-!
# The task handlers

`do_handle_task` of the original executor and `TaskHandler.handle_task` of the refactored one, for
standard, RAPTOR and GraphRAG tasks.
-/

namespace RagFlow.Executor

open Lib.Procedure
open Lib.Procedure.Run

inductive Version
  | original
  | refactored
deriving DecidableEq, Repr

structure Piece where
  content : String
  mom : String
deriving DecidableEq, Repr

/-- What `build_TOC` comes to.  The chunk of the table of contents is a copy of the last chunk of
the document, its parent text included. -/
inductive Toc
  | none
  | failed
  | built (last : Piece)
deriving DecidableEq, Repr

structure StandardTask where
  docId : String
  readiness : Readiness
  pieces : List Piece
  tokenCount : Nat
  toc : Toc

/-- A task that builds the knowledge graph, with the writes of `run_graphrag_for_kb`. -/
structure GraphragTask where
  docIds : List String
  readiness : Readiness
  writes : List Event

inductive Task
  | standard (task : StandardTask)
  | raptor (task : RaptorTask)
  | graphrag (task : GraphragTask)

variable (env : Environment) (hash : String → String) (kbId : String) (store : List Chunk)

/-- `upload_to_minio`: the chunk of a document with its id. -/
def docChunk (docId : String) (piece : Piece) : Chunk :=
  { id := hash (piece.content ++ docId), docId := docId, kbId := kbId, content := piece.content,
    mom := piece.mom, raptorMethod := none }

def StandardTask.chunks (task : StandardTask) : List Chunk :=
  task.pieces.map (docChunk hash kbId task.docId)

/-- `len(set([chunk["id"] for chunk in chunks]))`. -/
def distinctIds (chunks : List Chunk) : Nat :=
  (chunks.map Chunk.id).dedup.length

/-- The document that stands for a RAPTOR task, `(doc_ids or [GRAPH_RAPTOR_FAKE_DOC_ID])[0]`. -/
def RaptorTask.referredDocId (task : RaptorTask) : String :=
  task.docIds.headD fakeDocId

def cleanupEvents (cleanup : List Cleanup) : List Event :=
  cleanup.map fun plan => .deleteRaptorChunks plan.1 plan.2

/-- The sum of what `delete_raptor_chunks` returns: it does not count when it keeps no builder. -/
def cleanedChunks : List Cleanup → List Chunk → Nat
  | [], _ => 0
  | plan :: rest, store =>
    (if plan.2 = none then 0
      else store.countP fun chunk => chunk.kbId = kbId && isStale plan.1 plan.2 chunk) +
    cleanedChunks rest (apply kbId store (.deleteRaptorChunks plan.1 plan.2))

def prepare (readiness : Readiness) : Run Event :=
  match readiness with
  | .ready => pass
  | _ => raise

/-- The clean-up in the `finally` clause of a handler.  The index is there once the task
initialised it. -/
def finalCleanup (docId : String) (initialized : Bool) : List Event :=
  if env.hasCanceled .ended && (env.indexExisted || initialized) then [.deleteDoc docId] else []

/-- The task got as far as `init_kb`. -/
def initialized (readiness : Readiness) : Bool :=
  !env.hasCanceled .started && readiness ≠ .unbound

def insertTocChunk (docId : String) (last : Piece) : Run Event :=
  sequence [
    env.stopIfCanceled .tocBuilt,
    runInsertChunks env hash .toc [docChunk hash kbId docId last],
    perform [.incrementChunkNum docId 0 1]]

/-- The body of the `try` statement of `do_handle_task`. -/
def indexChunks (docId : String) (chunks : List Chunk) (tokenCount : Nat)
    (cleanup : List Cleanup) (toc : Toc) : Run Event :=
  let insertion := runInsertChunks env hash .chunks chunks
  sequence [
    env.stopIfCanceled .generated,
    insertion,
    env.stopIfCanceled .inserted,
    perform (cleanupEvents cleanup),
    if 0 < cleanedChunks kbId cleanup (replay kbId insertion.trace store) then
      env.progress .cleaned
    else pass,
    perform [.incrementChunkNum docId tokenCount (distinctIds chunks)],
    env.progress .indexed,
    match toc with
    | .none => pass
    | .failed => raise
    | .built last => insertTocChunk env hash kbId docId last,
    env.stopIfCanceled .finished,
    env.progress .ended]

def doHandleTask : Task → Run Event
  | .standard task =>
    sequence [
      env.stopIfCanceled .started,
      prepare task.readiness,
      if task.chunks hash kbId = [] then stop else pass,
      (indexChunks env hash kbId store task.docId (task.chunks hash kbId) task.tokenCount []
        task.toc).ensuring (finalCleanup env task.docId true)]
  | .raptor task =>
    let (chunks, cleanup) := runRaptorForKb hash kbId store task
    sequence [
      env.stopIfCanceled .started,
      prepare task.readiness,
      -- `task_doc_id` is a document of the task from here on
      (indexChunks env hash kbId store task.referredDocId chunks task.tokenCount cleanup
        .none).ensuring (finalCleanup env task.referredDocId true)]
  | .graphrag task =>
    sequence [
      env.stopIfCanceled .started,
      if task.readiness = .unbound then raise else pass,
      perform task.writes,
      prepare task.readiness,
      env.progress .finished]

def runStandardChunking (task : StandardTask) : Run Event :=
  let chunks := task.chunks hash kbId
  sequence [
    if chunks = [] then stop else pass,
    env.stopIfCanceled .generated,
    runInsertChunks env hash .chunks chunks,
    env.progress .indexed,
    match task.toc with
    | .none => pass
    | .failed => raise
    -- the result of `insert_toc_chunk` is not looked at
    | .built last => (insertTocChunk env hash kbId task.docId last).called,
    env.stopIfCanceled .finished,
    perform [.incrementChunkNum task.docId task.tokenCount (distinctIds chunks)],
    env.progress .ended]

def runRaptor (task : RaptorTask) : Run Event :=
  let (chunks, cleanup) := runRaptorForKb hash kbId store task
  if chunks = [] then env.progress .finished
  else
    let insertion := runInsertChunks env hash .chunks chunks
    sequence [
      -- whether the chunks were inserted is only recorded
      insertion.called,
      perform (cleanupEvents cleanup),
      if 0 < cleanedChunks kbId cleanup (replay kbId insertion.trace store) then
        env.progress .cleaned
      else pass,
      perform [.incrementChunkNum task.referredDocId task.tokenCount chunks.length],
      env.progress .finished]

/-- `TaskHandler.handle_task`: the clean-up follows whatever `handle` comes to.  The document of a
RAPTOR or GraphRAG task is `GRAPH_RAPTOR_FAKE_DOC_ID`. -/
def handleTask : Task → Run Event
  | .standard task =>
    (sequence [
      env.stopIfCanceled .started,
      prepare task.readiness,
      runStandardChunking env hash kbId task]).ensuring
    (finalCleanup env task.docId (initialized env task.readiness))
  | .raptor task =>
    (sequence [
      env.stopIfCanceled .started,
      prepare task.readiness,
      runRaptor env hash kbId store task]).ensuring
    (finalCleanup env fakeDocId (initialized env task.readiness))
  | .graphrag task =>
    (sequence [
      env.stopIfCanceled .started,
      if task.readiness = .unbound then raise else pass,
      perform task.writes,
      prepare task.readiness,
      env.progress .finished]).ensuring
    (finalCleanup env fakeDocId (initialized env task.readiness))

def handle (version : Version) (task : Task) : Run Event :=
  match version with
  | .original => doHandleTask env hash kbId store task
  | .refactored => handleTask env hash kbId store task

variable {env hash kbId store}

theorem prepare_trace (readiness : Readiness) : (prepare readiness).trace = [] := by
  cases readiness <;> rfl

theorem mem_chunks_docId {task : StandardTask} {chunk : Chunk}
    (member : chunk ∈ task.chunks hash kbId) : chunk.docId = task.docId := by
  obtain ⟨piece, _, rfl⟩ := List.mem_map.mp member
  rfl

theorem mem_replay_cleanupEvents {cleanup : List Cleanup} {chunk : Chunk} :
    chunk ∈ replay kbId (cleanupEvents cleanup) store ↔ chunk ∈ store ∧
      ∀ plan ∈ cleanup, ¬(chunk.kbId = kbId ∧ isStale plan.1 plan.2 chunk = true) := by
  induction cleanup generalizing store with
  | nil => simp [cleanupEvents]
  | cons plan cleanup ih =>
    rw [cleanupEvents, List.map_cons, replay_cons]
    have rest := @ih (apply kbId store (.deleteRaptorChunks plan.1 plan.2))
    rw [cleanupEvents] at rest
    rw [rest, apply, mem_deleteChunks, List.forall_mem_cons, and_assoc]

end RagFlow.Executor
