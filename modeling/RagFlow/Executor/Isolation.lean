import RagFlow.Executor.Handlers
import RagFlow.Lib.Runs

/-!
# Documents side by side

Documents of one tenant share an index of the document store.  Parsing a document writes its chunks
and their parents by id, queueing it again deletes the ids on its task rows, removing it deletes
its chunks by document.
-/

namespace RagFlow.Executor

open Lib
open Lib.Procedure
open Lib.Procedure.Run

structure TaskRow where
  id : String
  docId : String
  chunkIds : List String
deriving DecidableEq, Repr

structure TenantState where
  store : List Chunk
  rows : List TaskRow
deriving DecidableEq, Repr

inductive DocumentMove
  | parse (taskId : String) (version : Version) (env : Environment) (task : StandardTask)
  /-- `queue_tasks`: chunks of the previous tasks that are not taken over are deleted. -/
  | queue (docId : String) (takenOver created : List String)
  /-- Parsing again from scratch: the tasks and chunks of the document are deleted. -/
  | rerun (docId : String)
  | remove (docId : String)

def DocumentMove.docId : DocumentMove → String
  | .parse _ _ _ task => task.docId
  | .queue docId _ _ => docId
  | .rerun docId => docId
  | .remove docId => docId

variable (hash : String → String) (kbOf : String → String)

def parseTrace (state : TenantState) (version : Version) (env : Environment)
    (task : StandardTask) : List Event :=
  (handle env hash (kbOf task.docId) state.store version (.standard task)).trace

/-- `TaskService.update_chunk_ids` on the row of the task. -/
def recordIn (taskId : String) (docId : String) (trace : List Event) (row : TaskRow) : TaskRow :=
  if row.id = taskId ∧ row.docId = docId then
    { row with chunkIds := trace.foldl Event.recordedIds row.chunkIds }
  else row

def replacedRows (docId : String) (takenOver : List String) (rows : List TaskRow) : List TaskRow :=
  rows.filter fun row => row.docId = docId && row.id ∉ takenOver

def documentStep (state : TenantState) : DocumentMove → TenantState
  | .parse taskId version env task =>
    let trace := parseTrace hash kbOf state version env task
    { store := replay (kbOf task.docId) trace state.store
      rows := state.rows.map (recordIn taskId task.docId trace) }
  | .queue docId takenOver created =>
    let preChunkIds := (replacedRows docId takenOver state.rows).flatMap TaskRow.chunkIds
    { store := deleteChunks (kbOf docId) (fun chunk => chunk.id ∈ preChunkIds) state.store
      rows := (state.rows.filter fun row => !(row.docId = docId && row.id ∉ takenOver)) ++
        created.map fun id => ⟨id, docId, []⟩ }
  | .rerun docId =>
    { store := deleteChunks (kbOf docId) (fun chunk => chunk.docId = docId) state.store
      rows := state.rows.filter fun row => row.docId ≠ docId }
  | .remove docId =>
    { store := deleteChunks (kbOf docId) (fun chunk => chunk.docId = docId) state.store
      rows := state.rows.filter fun row => row.docId ≠ docId }

def OfOther (state : TenantState) (docId : String) (chunk : Chunk) : Prop :=
  chunk.docId ≠ docId ∨
    ∃ child ∈ state.store, child.docId ≠ docId ∧ child.momId hash = some chunk.id

def Isolates (state : TenantState) (move : DocumentMove) : Prop :=
  ∀ chunk ∈ state.store, OfOther hash state move.docId chunk →
    chunk ∈ (documentStep hash kbOf state move).store

def parseIds (kbId : String) (task : StandardTask) : List String :=
  writtenIds hash (task.chunks hash kbId) ++
    match task.toc with
    | .built last => writtenIds hash [docChunk hash kbId task.docId last]
    | _ => []

def WritesApart (state : TenantState) : DocumentMove → Prop
  | .parse _ _ _ task => ∀ id ∈ parseIds hash (kbOf task.docId) task,
      (∀ chunk ∈ state.store, chunk.docId ≠ task.docId →
        chunk.id ≠ id ∧ chunk.momId hash ≠ some id) ∧
      ∀ row ∈ state.rows, row.docId ≠ task.docId → id ∉ row.chunkIds
  | _ => True

instance (state : TenantState) (move : DocumentMove) :
    Decidable (WritesApart hash kbOf state move) :=
  match move with
  | .parse _ _ _ task => inferInstanceAs
      (Decidable (∀ id ∈ parseIds hash (kbOf task.docId) task,
        (∀ chunk ∈ state.store, chunk.docId ≠ task.docId →
          chunk.id ≠ id ∧ chunk.momId hash ≠ some id) ∧
        ∀ row ∈ state.rows, row.docId ≠ task.docId → id ∉ row.chunkIds))
  | .queue _ _ _ => isTrue trivial
  | .rerun _ => isTrue trivial
  | .remove _ => isTrue trivial

/-- Parents belong to the document of their children, and what a row records to the document of
the row. -/
structure Separate (state : TenantState) : Prop where
  parents : ∀ child ∈ state.store, ∀ chunk ∈ state.store,
    child.momId hash = some chunk.id → chunk.docId = child.docId
  rows : ∀ row ∈ state.rows, ∀ chunk ∈ state.store,
    chunk.id ∈ row.chunkIds → chunk.docId = row.docId

variable {hash kbOf}

def Event.OfParse (hash : String → String) (docId : String) (ids : List String) : Event → Prop
  | .insert _ accepted => ∀ chunk ∈ accepted, chunk.docId = docId ∧ chunk.id ∈ ids ∧
      ∀ mom, chunk.momId hash = some mom → mom ∈ ids
  | .deleteIds deleted => deleted ⊆ ids
  | .updateChunkIds recorded => recorded ⊆ ids
  | .deleteDoc deleted => deleted = docId
  | .deleteRaptorChunks _ _ => False
  | .incrementChunkNum _ _ _ => True

section Parse

variable {env : Environment} {kbId : String} {store : List Chunk} {task : StandardTask}

theorem motherChunk_momId (chunk : Chunk) : (motherChunk hash chunk).momId hash = none := if_pos rfl

theorem insertion_ofParse {round : Round} {chunks : List Chunk} {docId : String}
    {ids : List String} (own : ∀ chunk ∈ chunks, chunk.docId = docId)
    (within : writtenIds hash chunks ⊆ ids) :
    ∀ event ∈ (runInsertChunks env hash round chunks).trace, event.OfParse hash docId ids := by
  intro event member
  have touches := runInsertChunks_within event member
  cases event with
  | insert requested accepted =>
    have requests := runInsertChunks_requests member
    intro chunk inAccepted
    have inRequested := touches.2 inAccepted
    have inIds := within (touches.1 (List.mem_map_of_mem inRequested))
    rcases List.mem_append.mp (requests inRequested) with mother | main
    · obtain ⟨child, inChunks, rfl⟩ := mem_createMotherChunks mother
      refine ⟨own child inChunks, inIds, fun mom names => ?_⟩
      rw [motherChunk_momId] at names
      cases names
    · refine ⟨own chunk main, inIds, fun mom names => ?_⟩
      exact within (mem_writtenIds.mpr (.inl ⟨chunk, main, names⟩))
  | deleteIds deleted => exact List.Subset.trans touches within
  | updateChunkIds recorded => exact List.Subset.trans touches within
  | deleteDoc docId => cases touches
  | deleteRaptorChunks docId keepMethod => cases touches
  | incrementChunkNum docId tokens chunks => cases touches

theorem silent_ofParse {run : Run Event} {docId : String} {ids : List String}
    (silent : run.trace = []) : ∀ event ∈ run.trace, event.OfParse hash docId ids := by
  rw [silent]
  simp

theorem sequence_ofParse {runs : List (Run Event)} {docId : String} {ids : List String}
    (all : ∀ run ∈ runs, ∀ event ∈ run.trace, event.OfParse hash docId ids) :
    ∀ event ∈ (sequence runs).trace, event.OfParse hash docId ids := by
  intro event member
  obtain ⟨run, inRuns, here⟩ := mem_sequence member
  exact all run inRuns event here

theorem chunks_ofParse :
    ∀ event ∈ (runInsertChunks env hash .chunks (task.chunks hash kbId)).trace,
      event.OfParse hash task.docId (parseIds hash kbId task) :=
  insertion_ofParse (fun _ member => mem_chunks_docId member) (List.subset_append_left _ _)

theorem toc_ofParse {last : Piece} (built : task.toc = .built last) :
    ∀ event ∈ (insertTocChunk env hash kbId task.docId last).trace,
      event.OfParse hash task.docId (parseIds hash kbId task) := by
  apply sequence_ofParse
  simp only [List.forall_mem_cons]
  refine ⟨silent_ofParse (stopIfCanceled_trace _), insertion_ofParse ?_ ?_, ?_, by simp⟩
  · intro chunk member
    rw [List.mem_singleton.mp member]
    rfl
  · simp [parseIds, built]
  · simp [Event.OfParse]

theorem finalCleanup_ofParse {init : Bool} :
    ∀ event ∈ finalCleanup env task.docId init,
      event.OfParse hash task.docId (parseIds hash kbId task) := by
  intro event member
  rw [finalCleanup] at member
  split at member
  · rw [List.mem_singleton.mp member]
    rfl
  · cases member

theorem ensuring_ofParse {run : Run Event} {init : Bool}
    (body : ∀ event ∈ run.trace, event.OfParse hash task.docId (parseIds hash kbId task)) :
    ∀ event ∈ (run.ensuring (finalCleanup env task.docId init)).trace,
      event.OfParse hash task.docId (parseIds hash kbId task) := by
  intro event member
  rcases List.mem_append.mp member with inBody | atEnd
  · exact body event inBody
  · exact finalCleanup_ofParse event atEnd

theorem handle_ofParse (version : Version) :
    ∀ event ∈ (handle env hash kbId store version (.standard task)).trace,
      event.OfParse hash task.docId (parseIds hash kbId task) := by
  cases version with
  | original =>
    rw [handle, doHandleTask]
    apply sequence_ofParse
    simp only [List.forall_mem_cons]
    refine ⟨silent_ofParse (stopIfCanceled_trace _), silent_ofParse (prepare_trace _), ?_,
      ensuring_ofParse ?_, by simp⟩
    · split <;> exact silent_ofParse rfl
    · unfold indexChunks
      apply sequence_ofParse
      simp only [List.forall_mem_cons]
      refine ⟨silent_ofParse (stopIfCanceled_trace _), chunks_ofParse,
        silent_ofParse (stopIfCanceled_trace _), silent_ofParse rfl, ?_, ?_,
        silent_ofParse (progress_trace _), ?_, silent_ofParse (stopIfCanceled_trace _),
        silent_ofParse (progress_trace _), by simp⟩
      · split
        · exact silent_ofParse (progress_trace _)
        · exact silent_ofParse rfl
      · simp [Event.OfParse]
      · cases toc : task.toc with
        | none => exact silent_ofParse rfl
        | failed => exact silent_ofParse rfl
        | built last => exact toc_ofParse toc
  | refactored =>
    rw [handle, handleTask]
    apply ensuring_ofParse
    apply sequence_ofParse
    simp only [List.forall_mem_cons]
    refine ⟨silent_ofParse (stopIfCanceled_trace _), silent_ofParse (prepare_trace _), ?_,
      by simp⟩
    unfold runStandardChunking
    apply sequence_ofParse
    simp only [List.forall_mem_cons]
    refine ⟨?_, silent_ofParse (stopIfCanceled_trace _), chunks_ofParse,
      silent_ofParse (progress_trace _), ?_, silent_ofParse (stopIfCanceled_trace _), ?_,
      silent_ofParse (progress_trace _), by simp⟩
    · split <;> exact silent_ofParse rfl
    · cases toc : task.toc with
      | none => exact silent_ofParse rfl
      | failed => exact silent_ofParse rfl
      | built last => exact toc_ofParse toc
    · simp [Event.OfParse]

end Parse

section Replay

variable {kbId docId : String} {ids : List String}

def WrittenBy (hash : String → String) (docId : String) (ids : List String) (chunk : Chunk) :
    Prop :=
  chunk.docId = docId ∧ chunk.id ∈ ids ∧ ∀ mom, chunk.momId hash = some mom → mom ∈ ids

theorem mem_apply_ofParse {store : List Chunk} {event : Event} {chunk : Chunk}
    (ofParse : event.OfParse hash docId ids) (stored : chunk ∈ apply kbId store event) :
    chunk ∈ store ∨ WrittenBy hash docId ids chunk := by
  cases event with
  | insert requested accepted =>
    rcases mem_insertChunks_cases stored with ⟨new, inAccepted, rfl⟩ | ⟨before, _⟩
    · exact .inr (ofParse new inAccepted)
    · exact .inl before
  | deleteIds deleted => exact .inl (mem_deleteChunks.mp stored).1
  | deleteDoc deleted => exact .inl (mem_deleteChunks.mp stored).1
  | deleteRaptorChunks deleted keepMethod => cases ofParse
  | updateChunkIds recorded => exact .inl stored
  | incrementChunkNum counter tokens chunks => exact .inl stored

theorem mem_replay_ofParse {trace : List Event} {store : List Chunk} {chunk : Chunk}
    (ofParse : ∀ event ∈ trace, event.OfParse hash docId ids)
    (stored : chunk ∈ replay kbId trace store) :
    chunk ∈ store ∨ WrittenBy hash docId ids chunk := by
  induction trace generalizing store with
  | nil => exact .inl stored
  | cons event trace ih =>
    rw [List.forall_mem_cons] at ofParse
    rcases ih ofParse.2 stored with before | written
    · exact mem_apply_ofParse ofParse.1 before
    · exact .inr written

theorem apply_spares_other {store : List Chunk} {event : Event} {chunk : Chunk}
    (ofParse : event.OfParse hash docId ids) (stored : chunk ∈ store)
    (other : chunk.docId ≠ docId) (apart : chunk.id ∉ ids) :
    chunk ∈ apply kbId store event := by
  cases event with
  | insert requested accepted =>
    apply mem_insertChunks_of_kept stored
    intro written
    obtain ⟨new, inAccepted, sameId⟩ := List.mem_map.mp written
    exact apart (sameId ▸ (ofParse new inAccepted).2.1)
  | deleteIds deleted =>
    apply mem_deleteChunks.mpr ⟨stored, fun hit => ?_⟩
    exact apart (ofParse (of_decide_eq_true hit.2))
  | deleteDoc deleted =>
    apply mem_deleteChunks.mpr ⟨stored, fun hit => ?_⟩
    exact other ((of_decide_eq_true hit.2).trans ofParse)
  | deleteRaptorChunks deleted keepMethod => cases ofParse
  | updateChunkIds recorded => exact stored
  | incrementChunkNum counter tokens chunks => exact stored

theorem replay_spares_other {trace : List Event} {store : List Chunk} {chunk : Chunk}
    (ofParse : ∀ event ∈ trace, event.OfParse hash docId ids) (stored : chunk ∈ store)
    (other : chunk.docId ≠ docId) (apart : chunk.id ∉ ids) :
    chunk ∈ replay kbId trace store := by
  induction trace generalizing store with
  | nil => exact stored
  | cons event trace ih =>
    rw [List.forall_mem_cons] at ofParse
    apply ih ofParse.2
    exact apply_spares_other ofParse.1 stored other apart

theorem mem_recordedIds_ofParse {trace : List Event} {start : List String} {id : String}
    (ofParse : ∀ event ∈ trace, event.OfParse hash docId ids)
    (member : id ∈ trace.foldl Event.recordedIds start) : id ∈ start ∨ id ∈ ids := by
  induction trace generalizing start with
  | nil => exact .inl member
  | cons event trace ih =>
    rw [List.forall_mem_cons] at ofParse
    rcases ih ofParse.2 member with before | written
    · cases event with
      | updateChunkIds recorded => exact .inr (ofParse.1 before)
      | _ => exact .inl before
    · exact .inr written

end Replay

section Moves

variable {state : TenantState}

theorem mem_step_parse {taskId : String} {version : Version} {env : Environment}
    {task : StandardTask} {chunk : Chunk}
    (stored : chunk ∈ (documentStep hash kbOf state (.parse taskId version env task)).store) :
    chunk ∈ state.store ∨
      WrittenBy hash task.docId (parseIds hash (kbOf task.docId) task) chunk :=
  mem_replay_ofParse (handle_ofParse version) stored

theorem mem_step_parse_rows {taskId : String} {version : Version} {env : Environment}
    {task : StandardTask} {row : TaskRow}
    (inRows : row ∈ (documentStep hash kbOf state (.parse taskId version env task)).rows) :
    ∃ old ∈ state.rows, row.docId = old.docId ∧ ∀ id ∈ row.chunkIds,
      id ∈ old.chunkIds ∨
        (old.docId = task.docId ∧ id ∈ parseIds hash (kbOf task.docId) task) := by
  obtain ⟨old, inOld, rfl⟩ := List.mem_map.mp inRows
  refine ⟨old, inOld, ?_, fun id member => ?_⟩
  · unfold recordIn
    split <;> rfl
  · unfold recordIn at member
    split at member
    · rename_i own
      rcases mem_recordedIds_ofParse (handle_ofParse version) member with before | written
      · exact .inl before
      · exact .inr ⟨own.2, written⟩
    · exact .inl member

theorem separate_parse {taskId : String} {version : Version} {env : Environment}
    {task : StandardTask} (separate : Separate hash state)
    (apart : WritesApart hash kbOf state (.parse taskId version env task)) :
    Separate hash (documentStep hash kbOf state (.parse taskId version env task)) := by
  constructor
  · intro child inChildren chunk inChunks names
    rcases mem_step_parse inChildren with oldChild | newChild <;>
      rcases mem_step_parse inChunks with oldChunk | newChunk
    · exact separate.parents child oldChild chunk oldChunk names
    · by_contra differs
      have other : child.docId ≠ task.docId := fun same => differs (newChunk.1.trans same.symm)
      exact ((apart _ newChunk.2.1).1 child oldChild other).2 names
    · by_contra differs
      have other : chunk.docId ≠ task.docId := fun same => differs (same.trans newChild.1.symm)
      exact ((apart _ (newChild.2.2 _ names)).1 chunk oldChunk other).1 rfl
    · exact newChunk.1.trans newChild.1.symm
  · intro row inRows chunk inChunks member
    obtain ⟨old, inOld, sameDoc, ids⟩ := mem_step_parse_rows inRows
    rw [sameDoc]
    rcases mem_step_parse inChunks with oldChunk | newChunk <;>
      rcases ids chunk.id member with before | ⟨own, written⟩
    · exact separate.rows old inOld chunk oldChunk before
    · by_contra differs
      have other : chunk.docId ≠ task.docId := fun same => differs (same.trans own.symm)
      exact ((apart _ written).1 chunk oldChunk other).1 rfl
    · by_contra differs
      have other : old.docId ≠ task.docId := fun same => differs (newChunk.1.trans same.symm)
      exact (apart _ newChunk.2.1).2 old inOld other before
    · exact newChunk.1.trans own.symm

theorem Separate.shrink {smaller : TenantState} (separate : Separate hash state)
    (chunks : ∀ chunk ∈ smaller.store, chunk ∈ state.store)
    (rows : ∀ row ∈ smaller.rows, row ∈ state.rows ∨ row.chunkIds = []) :
    Separate hash smaller := by
  constructor
  · intro child inChildren chunk inChunks names
    exact separate.parents child (chunks child inChildren) chunk (chunks chunk inChunks) names
  · intro row inRows chunk inChunks member
    rcases rows row inRows with old | empty
    · exact separate.rows row old chunk (chunks chunk inChunks) member
    · rw [empty] at member
      cases member

theorem mem_of_mem_deleteChunks {kbId : String} {condition : Chunk → Bool} {store : List Chunk}
    {chunk : Chunk} (stored : chunk ∈ deleteChunks kbId condition store) : chunk ∈ store :=
  (mem_deleteChunks.mp stored).1

theorem separate_step {move : DocumentMove} (separate : Separate hash state)
    (apart : WritesApart hash kbOf state move) :
    Separate hash (documentStep hash kbOf state move) := by
  cases move with
  | parse taskId version env task => exact separate_parse separate apart
  | queue docId takenOver created =>
    apply separate.shrink (fun _ => mem_of_mem_deleteChunks)
    intro row inRows
    rcases List.mem_append.mp inRows with kept | new
    · exact .inl (List.mem_filter.mp kept).1
    · obtain ⟨id, _, rfl⟩ := List.mem_map.mp new
      exact .inr rfl
  | rerun docId =>
    apply separate.shrink (fun _ => mem_of_mem_deleteChunks)
    exact fun row inRows => .inl (List.mem_filter.mp inRows).1
  | remove docId =>
    apply separate.shrink (fun _ => mem_of_mem_deleteChunks)
    exact fun row inRows => .inl (List.mem_filter.mp inRows).1

theorem docId_ne_of_ofOther {docId : String} {chunk : Chunk} (separate : Separate hash state)
    (stored : chunk ∈ state.store) (other : OfOther hash state docId chunk) :
    chunk.docId ≠ docId := by
  rcases other with differs | ⟨child, inChildren, differs, names⟩
  · exact differs
  · rw [separate.parents child inChildren chunk stored names]
    exact differs

theorem isolates_step {move : DocumentMove} (separate : Separate hash state)
    (apart : WritesApart hash kbOf state move) : Isolates hash kbOf state move := by
  intro chunk stored ofOther
  have other := docId_ne_of_ofOther separate stored ofOther
  cases move with
  | parse taskId version env task =>
    apply replay_spares_other (handle_ofParse version) stored other
    exact fun written => ((apart _ written).1 chunk stored other).1 rfl
  | queue docId takenOver created =>
    apply mem_deleteChunks.mpr ⟨stored, fun hit => ?_⟩
    obtain ⟨row, inReplaced, member⟩ := List.mem_flatMap.mp (of_decide_eq_true hit.2)
    obtain ⟨inRows, own⟩ := List.mem_filter.mp inReplaced
    rw [Bool.and_eq_true, decide_eq_true_eq] at own
    exact other ((separate.rows row inRows chunk stored member).trans own.1)
  | rerun docId => exact mem_deleteChunks.mpr ⟨stored, fun hit => other (of_decide_eq_true hit.2)⟩
  | remove docId => exact mem_deleteChunks.mpr ⟨stored, fun hit => other (of_decide_eq_true hit.2)⟩

/-- From an empty index, the documents of a tenant stay isolated along every run whose parse tasks
write no id of another document. -/
theorem isolated_along (hash kbOf : String → String) {moves : List DocumentMove}
    (apart : Runs.Along (documentStep hash kbOf) (WritesApart hash kbOf) ⟨[], []⟩ moves) :
    Runs.Along (documentStep hash kbOf) (Isolates hash kbOf) ⟨[], []⟩ moves := by
  induction moves using List.reverseRecOn with
  | nil => exact Runs.along_nil
  | append_singleton moves move ih =>
    obtain ⟨earlier, last⟩ := Runs.along_concat.mp apart
    have initially : Separate hash ⟨[], []⟩ := ⟨by simp, by simp⟩
    have separate := Runs.invariant_along initially
      (fun _ _ condition before => separate_step before condition) earlier
    exact Runs.along_concat.mpr ⟨ih earlier, isolates_step separate last⟩

end Moves

def pieceTask (docId parent : String) : StandardTask :=
  { docId := docId, readiness := .ready, pieces := [⟨"text", parent⟩], tokenCount := 1,
    toc := .none }

def parsedThenRemoved (first second : String) : List DocumentMove :=
  [.parse "task-a" .refactored .quiet (pieceTask "a" first),
    .parse "task-b" .refactored .quiet (pieceTask "b" second), .remove "b"]

theorem isolated_parsedThenRemoved :
    Runs.Along (documentStep id fun _ => "kb") (Isolates id fun _ => "kb") ⟨[], []⟩
      (parsedThenRemoved "one" "two") :=
  isolated_along id (fun _ => "kb") (by decide)

/-- Documents with one parent text share the parent chunk: it becomes the chunk of the document
parsed last, and goes with it. -/
theorem not_isolated_of_same_parent :
    ¬Runs.Along (documentStep id fun _ => "kb") (Isolates id fun _ => "kb") ⟨[], []⟩
      (parsedThenRemoved "same" "same") ∧
    ⟨"same", "a", "kb", "same", "", none⟩ ∈
      (Runs.run (documentStep id fun _ => "kb") ⟨[], []⟩
        [.parse "task-a" .refactored .quiet (pieceTask "a" "same")]).store ∧
    (Runs.run (documentStep id fun _ => "kb") ⟨[], []⟩ (parsedThenRemoved "same" "same")).store =
      [⟨"texta", "a", "kb", "text", "same", none⟩] := by
  refine ⟨fun along => ?_, by decide, by decide⟩
  have second := along [.parse "task-a" .refactored .quiet (pieceTask "a" "same")]
    (.parse "task-b" .refactored .quiet (pieceTask "b" "same")) [.remove "b"] rfl
  have kept := second ⟨"same", "a", "kb", "same", "", none⟩ (by decide) (.inl (by decide))
  exact absurd kept (by decide)

end RagFlow.Executor
