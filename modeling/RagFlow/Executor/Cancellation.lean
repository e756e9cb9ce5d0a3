import RagFlow.Executor.Handlers

/-!
# Cancelling a task

A handler whose task was cancelled deletes the chunks of one document before it ends.  For a
standard task that is its document; for a RAPTOR or GraphRAG task it is a document of the task or
the placeholder of all datasets, whose chunks the task did not make.
-/

namespace RagFlow.Executor

open Lib.Procedure
open Lib.Procedure.Run

variable (env : Environment) (hash : String → String) (kbId : String) (store : List Chunk)

/-- The chunks that the task replaces or removes anyway: the chunks with an id it writes, the
summaries its plan cleans up, what the build of the graph rewrites, the document it parses. -/
def Scheduled (chunk : Chunk) : Task → Prop
  | .standard task =>
    chunk.docId = task.docId ∨
      chunk.id ∈ writtenIds hash (task.chunks hash kbId) ∨
      ∃ last, task.toc = .built last ∧
        chunk.id ∈ writtenIds hash [docChunk hash kbId task.docId last]
  | .raptor task =>
    chunk.id ∈ writtenIds hash (runRaptorForKb hash kbId store task).1 ∨
      ∃ plan ∈ (runRaptorForKb hash kbId store task).2,
        chunk.kbId = kbId ∧ isStale plan.1 plan.2 chunk = true
  | .graphrag task => chunk ∉ replay kbId task.writes store

def Confined (version : Version) (task : Task) : Prop :=
  ∀ chunk ∈ store, ¬Scheduled hash kbId store chunk task →
    chunk ∈ replay kbId (handle env hash kbId store version task).trace store

def deletedDocId : Version → Task → String
  | _, .standard task => task.docId
  | .original, .raptor task => task.referredDocId
  | _, _ => fakeDocId

def cleansUp : Version → Task → Bool
  | .original, .standard task =>
    env.hasCanceled .ended && !env.hasCanceled .started && task.readiness = .ready &&
      task.pieces ≠ []
  | .original, .raptor task =>
    env.hasCanceled .ended && !env.hasCanceled .started && task.readiness = .ready
  | .original, .graphrag _ => false
  | .refactored, .standard task =>
    env.hasCanceled .ended && (env.indexExisted || initialized env task.readiness)
  | .refactored, .raptor task =>
    env.hasCanceled .ended && (env.indexExisted || initialized env task.readiness)
  | .refactored, .graphrag task =>
    env.hasCanceled .ended && (env.indexExisted || initialized env task.readiness)

variable {env hash kbId store} {chunk : Chunk}

def Event.Spares (kbId : String) (chunk : Chunk) (event : Event) : Prop :=
  ∀ store, chunk ∈ store → chunk ∈ apply kbId store event

theorem mem_replay_of_spares {trace : List Event}
    (spares : ∀ event ∈ trace, event.Spares kbId chunk) (stored : chunk ∈ store) :
    chunk ∈ replay kbId trace store := by
  induction trace generalizing store with
  | nil => exact stored
  | cons event trace ih =>
    rw [List.forall_mem_cons] at spares
    exact ih spares.2 (spares.1 store stored)

theorem spares_of_within {ids : List String} {event : Event} (within : event.Within ids)
    (other : chunk.id ∉ ids) : event.Spares kbId chunk :=
  fun _ stored => mem_apply_of_within within stored other

theorem spares_increment (docId : String) (tokens chunks : Nat) :
    (Event.incrementChunkNum docId tokens chunks).Spares kbId chunk :=
  fun _ stored => stored

theorem spares_cleanup {cleanup : List Cleanup} {event : Event}
    (kept : ∀ plan ∈ cleanup, ¬(chunk.kbId = kbId ∧ isStale plan.1 plan.2 chunk = true))
    (member : event ∈ cleanupEvents cleanup) : event.Spares kbId chunk := by
  obtain ⟨plan, scheduled, rfl⟩ := List.mem_map.mp member
  exact fun _ stored => mem_deleteChunks.mpr ⟨stored, kept plan scheduled⟩

theorem spares_of_silent {run : Run Event} (silent : run.trace = []) :
    ∀ event ∈ run.trace, event.Spares kbId chunk := by
  rw [silent]
  simp

theorem spares_sequence {runs : List (Run Event)}
    (all : ∀ run ∈ runs, ∀ event ∈ run.trace, event.Spares kbId chunk) :
    ∀ event ∈ (sequence runs).trace, event.Spares kbId chunk := by
  intro event member
  obtain ⟨run, inRuns, here⟩ := mem_sequence member
  exact all run inRuns event here

theorem spares_insertion {round : Round} {chunks : List Chunk}
    (other : chunk.id ∉ writtenIds hash chunks) :
    ∀ event ∈ (runInsertChunks env hash round chunks).trace, event.Spares kbId chunk :=
  fun event member => spares_of_within (runInsertChunks_within event member) other

theorem spares_toc {docId : String} {last : Piece}
    (other : chunk.id ∉ writtenIds hash [docChunk hash kbId docId last]) :
    ∀ event ∈ (insertTocChunk env hash kbId docId last).trace, event.Spares kbId chunk := by
  apply spares_sequence
  simp only [List.forall_mem_cons]
  refine ⟨spares_of_silent (stopIfCanceled_trace _), spares_insertion other, ?_, by simp⟩
  simpa using spares_increment docId 0 1

theorem spares_indexChunks {docId : String} {chunks : List Chunk} {tokenCount : Nat}
    {cleanup : List Cleanup} {toc : Toc} (other : chunk.id ∉ writtenIds hash chunks)
    (kept : ∀ plan ∈ cleanup, ¬(chunk.kbId = kbId ∧ isStale plan.1 plan.2 chunk = true))
    (otherToc : ∀ last, toc = .built last →
      chunk.id ∉ writtenIds hash [docChunk hash kbId docId last]) :
    ∀ event ∈ (indexChunks env hash kbId store docId chunks tokenCount cleanup toc).trace,
      event.Spares kbId chunk := by
  apply spares_sequence
  simp only [List.forall_mem_cons]
  refine ⟨spares_of_silent (stopIfCanceled_trace _), spares_insertion other,
    spares_of_silent (stopIfCanceled_trace _), fun event => spares_cleanup kept, ?_, ?_,
    spares_of_silent (progress_trace _), ?_, spares_of_silent (stopIfCanceled_trace _),
    spares_of_silent (progress_trace _), by simp⟩
  · split
    · exact spares_of_silent (progress_trace _)
    · exact spares_of_silent rfl
  · simpa using spares_increment docId tokenCount (distinctIds chunks)
  · cases toc with
    | none => exact spares_of_silent rfl
    | failed => exact spares_of_silent rfl
    | built last => exact spares_toc (otherToc last rfl)

theorem spares_runStandardChunking {task : StandardTask}
    (other : chunk.id ∉ writtenIds hash (task.chunks hash kbId))
    (otherToc : ∀ last, task.toc = .built last →
      chunk.id ∉ writtenIds hash [docChunk hash kbId task.docId last]) :
    ∀ event ∈ (runStandardChunking env hash kbId task).trace, event.Spares kbId chunk := by
  apply spares_sequence
  simp only [List.forall_mem_cons]
  refine ⟨?_, spares_of_silent (stopIfCanceled_trace _), spares_insertion other,
    spares_of_silent (progress_trace _), ?_, spares_of_silent (stopIfCanceled_trace _), ?_,
    spares_of_silent (progress_trace _), by simp⟩
  · split <;> exact spares_of_silent rfl
  · cases toc : task.toc with
    | none => exact spares_of_silent rfl
    | failed => exact spares_of_silent rfl
    | built last => exact spares_toc (otherToc last toc)
  · simpa using spares_increment task.docId task.tokenCount _

theorem spares_runRaptor {task : RaptorTask}
    (other : chunk.id ∉ writtenIds hash (runRaptorForKb hash kbId store task).1)
    (kept : ∀ plan ∈ (runRaptorForKb hash kbId store task).2,
      ¬(chunk.kbId = kbId ∧ isStale plan.1 plan.2 chunk = true)) :
    ∀ event ∈ (runRaptor env hash kbId store task).trace, event.Spares kbId chunk := by
  rw [runRaptor]
  dsimp only
  split
  · exact spares_of_silent (progress_trace _)
  · apply spares_sequence
    simp only [List.forall_mem_cons]
    refine ⟨spares_insertion other, fun event => spares_cleanup kept, ?_, ?_,
      spares_of_silent (progress_trace _), by simp⟩
    · split
      · exact spares_of_silent (progress_trace _)
      · exact spares_of_silent rfl
    · simpa using spares_increment task.referredDocId task.tokenCount _

/-- What a handler writes before its clean-up keeps the chunks that are not scheduled. -/
structure Decomposed (env : Environment) (hash : String → String) (kbId : String)
    (store : List Chunk) (version : Version) (task : Task) (body : List Event) : Prop where
  trace : (handle env hash kbId store version task).trace = body ++
    if cleansUp env version task = true then [.deleteDoc (deletedDocId version task)] else []
  spares : ∀ chunk ∈ store, ¬Scheduled hash kbId store chunk task → chunk ∈ replay kbId body store

theorem guarded_trace (readiness : Readiness) (next : Run Event) :
    (sequence [env.stopIfCanceled .started, prepare readiness, next]).trace =
      if env.hasCanceled .started = false ∧ readiness = .ready then next.trace else [] := by
  by_cases alive : env.hasCanceled .started = false
  · cases readiness <;> simp [stopIfCanceled_of_not_canceled alive, alive, prepare]
  · have stops : (env.stopIfCanceled .started).outcome ≠ .done := by
      rwa [Ne, stopIfCanceled_done_iff]
    rw [sequence_cons, andThen_of_not_done stops, stopIfCanceled_trace, if_neg]
    exact fun both => alive both.1

theorem guarded_spares {readiness : Readiness} {next : Run Event}
    (spares : ∀ event ∈ next.trace, event.Spares kbId chunk) :
    ∀ event ∈ (sequence [env.stopIfCanceled .started, prepare readiness, next]).trace,
      event.Spares kbId chunk := by
  rw [guarded_trace]
  split
  · exact spares
  · simp

theorem guarded_ensuring_trace (readiness : Readiness) (next : Run Event) (docId : String) :
    (sequence [env.stopIfCanceled .started, prepare readiness,
      next.ensuring (finalCleanup env docId true)]).trace =
      (sequence [env.stopIfCanceled .started, prepare readiness, next]).trace ++
        if (env.hasCanceled .ended && !env.hasCanceled .started && readiness = .ready) = true
        then [.deleteDoc docId] else [] := by
  rw [guarded_trace, guarded_trace]
  cases started : env.hasCanceled .started <;> cases readiness <;>
    simp [finalCleanup]

theorem graphrag_trace (task : GraphragTask) :
    (sequence [
      env.stopIfCanceled .started,
      if task.readiness = .unbound then raise else pass,
      perform task.writes,
      prepare task.readiness,
      env.progress .finished]).trace =
    if env.hasCanceled .started = false ∧ task.readiness ≠ .unbound then task.writes else [] := by
  by_cases alive : env.hasCanceled .started = false
  · cases readiness : task.readiness <;>
      simp [stopIfCanceled_of_not_canceled alive, alive, prepare]
  · have stops : (env.stopIfCanceled .started).outcome ≠ .done := by
      rwa [Ne, stopIfCanceled_done_iff]
    rw [sequence_cons, andThen_of_not_done stops, stopIfCanceled_trace, if_neg]
    exact fun both => alive both.1

theorem graphrag_spares (task : GraphragTask) (stored : chunk ∈ store)
    (kept : ¬Scheduled hash kbId store chunk (.graphrag task)) :
    chunk ∈ replay kbId (sequence [
      env.stopIfCanceled .started,
      if task.readiness = .unbound then raise else pass,
      perform task.writes,
      prepare task.readiness,
      env.progress .finished]).trace store := by
  rw [graphrag_trace]
  split
  · exact not_not.mp kept
  · exact stored

theorem decomposed_standard (version : Version) (task : StandardTask) :
    ∃ body, Decomposed env hash kbId store version (.standard task) body := by
  have spares : ∀ chunk : Chunk, ¬Scheduled hash kbId store chunk (.standard task) →
      chunk.id ∉ writtenIds hash (task.chunks hash kbId) ∧ ∀ last, task.toc = .built last →
        chunk.id ∉ writtenIds hash [docChunk hash kbId task.docId last] := by
    intro chunk kept
    refine ⟨fun written => kept (.inr (.inl written)), fun last built written => ?_⟩
    exact kept (.inr (.inr ⟨last, built, written⟩))
  cases version with
  | original =>
    by_cases empty : task.chunks hash kbId = []
    · have none : task.pieces = [] := List.map_eq_nil_iff.mp empty
      refine ⟨(sequence [env.stopIfCanceled .started, prepare task.readiness, stop]).trace,
        ?_, fun chunk stored _ => ?_⟩
      · simp [handle, doHandleTask, empty, cleansUp, none]
      · rw [guarded_trace]
        split <;> exact stored
    · have some : task.pieces ≠ [] := fun none => empty (List.map_eq_nil_iff.mpr none)
      refine ⟨(sequence [env.stopIfCanceled .started, prepare task.readiness,
        indexChunks env hash kbId store task.docId (task.chunks hash kbId) task.tokenCount []
          task.toc]).trace, ?_, fun chunk stored kept => ?_⟩
      · have trace := @guarded_ensuring_trace env task.readiness
          (indexChunks env hash kbId store task.docId (task.chunks hash kbId) task.tokenCount []
            task.toc) task.docId
        simpa [handle, doHandleTask, empty, cleansUp, some, deletedDocId] using trace
      · obtain ⟨other, otherToc⟩ := spares chunk kept
        apply mem_replay_of_spares (guarded_spares _) stored
        exact spares_indexChunks other (by simp) otherToc
  | refactored =>
    refine ⟨(sequence [env.stopIfCanceled .started, prepare task.readiness,
      runStandardChunking env hash kbId task]).trace, ?_, fun chunk stored kept => ?_⟩
    · rfl
    · obtain ⟨other, otherToc⟩ := spares chunk kept
      exact mem_replay_of_spares (guarded_spares (spares_runStandardChunking other otherToc))
        stored

theorem decomposed_raptor (version : Version) (task : RaptorTask) :
    ∃ body, Decomposed env hash kbId store version (.raptor task) body := by
  have spares : ∀ chunk : Chunk, ¬Scheduled hash kbId store chunk (.raptor task) →
      chunk.id ∉ writtenIds hash (runRaptorForKb hash kbId store task).1 ∧
        ∀ plan ∈ (runRaptorForKb hash kbId store task).2,
          ¬(chunk.kbId = kbId ∧ isStale plan.1 plan.2 chunk = true) := by
    intro chunk kept
    refine ⟨fun written => kept (.inl written), fun plan scheduled stale => ?_⟩
    exact kept (.inr ⟨plan, scheduled, stale⟩)
  cases version with
  | original =>
    refine ⟨(sequence [env.stopIfCanceled .started, prepare task.readiness,
      indexChunks env hash kbId store task.referredDocId (runRaptorForKb hash kbId store task).1
        task.tokenCount (runRaptorForKb hash kbId store task).2 .none]).trace, ?_,
      fun chunk stored kept => ?_⟩
    · exact guarded_ensuring_trace task.readiness _ task.referredDocId
    · obtain ⟨other, kept⟩ := spares chunk kept
      apply mem_replay_of_spares (guarded_spares _) stored
      exact spares_indexChunks other kept (by simp)
  | refactored =>
    refine ⟨(sequence [env.stopIfCanceled .started, prepare task.readiness,
      runRaptor env hash kbId store task]).trace, rfl, fun chunk stored kept => ?_⟩
    obtain ⟨other, kept⟩ := spares chunk kept
    exact mem_replay_of_spares (guarded_spares (spares_runRaptor other kept)) stored

theorem exists_decomposed (version : Version) (task : Task) :
    ∃ body, Decomposed env hash kbId store version task body := by
  cases task with
  | standard task => exact decomposed_standard version task
  | raptor task => exact decomposed_raptor version task
  | graphrag task =>
    refine ⟨(sequence [
      env.stopIfCanceled .started,
      if task.readiness = .unbound then raise else pass,
      perform task.writes,
      prepare task.readiness,
      env.progress .finished]).trace, ?_, fun chunk stored kept => graphrag_spares task stored kept⟩
    cases version with
    | original => exact (List.append_nil _).symm
    | refactored => rfl

/-- A task is confined exactly when its clean-up, if it reaches it cancelled, finds no chunk of
the deleted document but the scheduled ones. -/
theorem confined_iff (version : Version) (task : Task) :
    Confined env hash kbId store version task ↔
      (cleansUp env version task = true → ∀ chunk ∈ store, chunk.kbId = kbId →
        chunk.docId = deletedDocId version task → Scheduled hash kbId store chunk task) := by
  obtain ⟨body, trace, spares⟩ := @exists_decomposed env hash kbId store version task
  rw [Confined, trace]
  constructor
  · intro confined cleans chunk stored inKb ofDoc
    by_contra kept
    have there := confined chunk stored kept
    rw [if_pos cleans, replay_append] at there
    exact (mem_deleteChunks.mp there).2 ⟨inKb, decide_eq_true ofDoc⟩
  · intro spared chunk stored kept
    rw [replay_append]
    have there := spares chunk stored kept
    by_cases cleans : cleansUp env version task = true
    · rw [if_pos cleans]
      apply mem_deleteChunks.mpr
      exact ⟨there, fun hit => kept (spared cleans chunk stored hit.1 (of_decide_eq_true hit.2))⟩
    · rw [if_neg cleans]
      exact there

def datasetStore : List Chunk :=
  [⟨"chunk", "document", "kb", "text", "", none⟩,
    ⟨"summary", fakeDocId, "kb", "summary", "", some .raptor⟩]

def datasetTask : RaptorTask where
  docIds := ["document"]
  docIds_ne_nil := by simp
  docIds_real := by decide
  scope := .dataset
  treeBuilder := .raptor
  skips _ := false
  summarize _ := []
  tokenCount := 0
  readiness := .ready

/-- Cancelled once it indexes, the task takes the parsed chunks of its document along in the
original executor and the summaries of the dataset in the refactored one. -/
theorem not_confined :
    (¬Confined (.canceledFrom .inserted) id "kb" datasetStore .original (.raptor datasetTask)) ∧
      ¬Confined (.canceledFrom .inserted) id "kb" datasetStore .refactored (.raptor datasetTask) := by
  have plan : runRaptorForKb id "kb" datasetStore datasetTask = ([], []) := by decide
  constructor
  · intro confined
    have kept : ¬Scheduled id "kb" datasetStore ⟨"chunk", "document", "kb", "text", "", none⟩
        (.raptor datasetTask) := by
      rw [Scheduled, plan]
      simp [writtenIds, createMotherChunks]
    exact absurd (confined _ (by decide) kept) (by decide)
  · intro confined
    have kept : ¬Scheduled id "kb" datasetStore
        ⟨"summary", fakeDocId, "kb", "summary", "", some .raptor⟩ (.raptor datasetTask) := by
      rw [Scheduled, plan]
      simp [writtenIds, createMotherChunks]
    exact absurd (confined _ (by decide) kept) (by decide)

end RagFlow.Executor
