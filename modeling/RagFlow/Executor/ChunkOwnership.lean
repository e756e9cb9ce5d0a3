import RagFlow.Documents.QueueTasks
import RagFlow.Executor.Refinement

/-!
# The chunks on the row of a task

A standard task records the ids of its chunks on its row, batch by batch, and a later
`queue_tasks` takes them over or deletes them.
-/

namespace RagFlow.Executor

open Lib
open Lib.Procedure
open Lib.Procedure.Run

section Insertion

variable {env : Environment} {hash : String → String} {kbId : String} {round : Round}
  {chunks : List Chunk}

def acceptedMothers (env : Environment) (hash : String → String) (round : Round)
    (chunks : List Chunk) : List Chunk :=
  insertedChunks (motherInserts env round (createMotherChunks hash chunks))

theorem foldl_recordedIds_insertion
    (done : (runInsertChunks env hash round chunks).outcome = .done) (some : chunks ≠ [])
    (ids : List String) :
    (runInsertChunks env hash round chunks).trace.foldl Event.recordedIds ids =
      chunks.map Chunk.id := by
  obtain ⟨before, last, split, reaches⟩ := @offsets_last env _
    (List.length_pos_iff.mpr some)
  rw [runInsertChunks_trace done, split, storedBatches, List.flatMap_append, List.foldl_append,
    List.foldl_append]
  simp [storedBatch, Event.recordedIds, List.take_of_length_le reaches]

theorem insertedChunks_storedBatches (offsets : List Nat) :
    insertedChunks (storedBatches env chunks offsets) =
      offsets.flatMap fun offset => (chunks.drop offset).take env.docBulkSize := by
  induction offsets with
  | nil => rfl
  | cons offset offsets ih =>
    rw [storedBatches, List.flatMap_cons, insertedChunks_append, List.flatMap_cons]
    exact congrArg₂ (· ++ ·) (by simp [storedBatch, insertedChunks, Event.acceptedChunks])
      ih

theorem insertedChunks_insertion
    (done : (runInsertChunks env hash round chunks).outcome = .done) :
    insertedChunks (runInsertChunks env hash round chunks).trace =
      acceptedMothers env hash round chunks ++ chunks := by
  rw [runInsertChunks_trace done, insertedChunks_append, insertedChunks_storedBatches,
    flatMap_offsets, acceptedMothers]

theorem counted_insertion (docId : String) :
    counted docId (runInsertChunks env hash round chunks).trace = 0 :=
  counted_eq_zero fun event member => (runInsertChunks_within event member).not_increment

theorem runInsertChunks_done_of_healthy (alive : env.hasCanceled .ended = false)
    (row : env.rowExists .ended = true)
    (quiet : (runInsertChunks env hash round chunks).outcome ≠ .raised) :
    (runInsertChunks env hash round chunks).outcome = .done := by
  have before : ∀ moment : Moment, env.hasCanceled moment = false := fun moment =>
    env.alive_earlier moment.before_ended alive
  have mothers : (insertMotherChunks env round (createMotherChunks hash chunks)).outcome =
      .done := insertMotherChunks_done_iff.mpr fun offset _ => before _
  rw [runInsertChunks, andThen_done mothers] at quiet ⊢
  dsimp only at quiet ⊢
  by_contra broken
  obtain ⟨_, offset, _, run, _, _, breaks, made⟩ := insertMainChunks_breaks_off broken
  rw [made] at quiet
  cases breaks with
  | canceled flag =>
    rw [before] at flag
    cases flag
  | interrupted _ late =>
    rw [before] at late
    cases late
  | rejected _ errors => exact quiet rfl
  | unknown _ clean missing =>
    have gone := env.row_missing missing
    rw [env.row_earlier (Moment.before_ended _) row] at gone
    cases gone

end Insertion

section Completed

variable (env : Environment) (hash : String → String) (kbId : String) (store : List Chunk)
  (version : Version) (task : StandardTask)

/-- The task came to its end, was not cancelled and has its row. -/
structure Completed : Prop where
  done : (handle env hash kbId store version (.standard task)).outcome = .done
  alive : env.hasCanceled .ended = false
  row : env.rowExists .ended = true

def tocChunks : List Chunk :=
  match task.toc with
  | .built last => [docChunk hash kbId task.docId last]
  | _ => []

variable {env hash kbId store version task}

structure Indexed (env : Environment) (hash : String → String) (kbId : String)
    (task : StandardTask) : Prop where
  some : task.chunks hash kbId ≠ []
  ready : task.readiness = .ready
  inserted : (runInsertChunks env hash .chunks (task.chunks hash kbId)).outcome = .done
  toc : TocPasses env hash kbId task

theorem ready_of_prepare {readiness : Readiness} (done : (prepare readiness).outcome = .done) :
    readiness = .ready := by
  cases readiness with
  | ready => rfl
  | _ => cases done

theorem indexed_of_completed (completed : Completed env hash kbId store version task) :
    Indexed env hash kbId task := by
  have done := completed.done
  cases version with
  | original =>
    rw [handle, doHandleTask, sequence_done_iff] at done
    simp only [List.forall_mem_cons] at done
    obtain ⟨_, prepared, some, indexed, _⟩ := done
    have nonempty : task.chunks hash kbId ≠ [] := by
      intro none
      rw [if_pos none] at some
      cases some
    unfold indexChunks at indexed
    rw [ensuring_outcome, sequence_done_iff] at indexed
    simp only [List.forall_mem_cons] at indexed
    obtain ⟨_, inserted, _, _, _, _, _, toc, _⟩ := indexed
    refine ⟨nonempty, ready_of_prepare prepared, inserted, ?_⟩
    cases built : task.toc with
    | none => simp [TocPasses, built]
    | failed =>
      rw [built] at toc
      cases toc
    | built last =>
      rw [built] at toc
      simp [TocPasses, built, toc]
  | refactored =>
    rw [handle, handleTask, ensuring_outcome, sequence_done_iff] at done
    simp only [List.forall_mem_cons] at done
    obtain ⟨_, prepared, chunking, _⟩ := done
    unfold runStandardChunking at chunking
    rw [sequence_done_iff] at chunking
    simp only [List.forall_mem_cons] at chunking
    obtain ⟨some, _, inserted, _, toc, _⟩ := chunking
    have nonempty : task.chunks hash kbId ≠ [] := by
      intro none
      rw [if_pos none] at some
      cases some
    refine ⟨nonempty, ready_of_prepare prepared, inserted, ?_⟩
    cases built : task.toc with
    | none => simp [TocPasses, built]
    | failed =>
      rw [built] at toc
      cases toc
    | built last =>
      rw [built] at toc
      dsimp only at toc
      simp only [TocPasses, built]
      intro raised
      rw [called, raised] at toc
      cases toc

theorem completed_agree (completed : Completed env hash kbId store version task) :
    Agree (handle env hash kbId store version (.standard task)).trace
      ((runInsertChunks env hash .chunks (task.chunks hash kbId)).trace ++
        (tocTrace env hash kbId task ++
          [.incrementChunkNum task.docId task.tokenCount
            (distinctIds (task.chunks hash kbId))])) := by
  have indexed := indexed_of_completed completed
  have alive := completed.alive
  have before : ∀ moment : Moment, env.hasCanceled moment = false := fun moment =>
    env.alive_earlier moment.before_ended alive
  have reports : (env.progress .indexed).outcome = .done := by
    rw [progress_of_not_canceled (before _), pass_outcome]
  have kept : ∀ init, finalCleanup env task.docId init = [] := by
    intro init
    simp [finalCleanup, alive]
  cases version with
  | original =>
    have trace : (doHandleTask env hash kbId store (.standard task)).trace =
        (indexChunks env hash kbId store task.docId (task.chunks hash kbId) task.tokenCount []
          task.toc).trace := by
      rw [doHandleTask, sequence_cons, stopIfCanceled_of_not_canceled (before _), pass_andThen,
        sequence_cons, indexed.ready, if_neg indexed.some, kept]
      simp [prepare]
    rw [handle, trace, indexChunks_trace _ indexed.inserted (before _), if_pos reports,
      agree_append_left]
    have late := @agree_late_count (tocTrace env hash kbId task) task.docId task.tokenCount
      (distinctIds (task.chunks hash kbId)) True _
    rw [if_pos trivial] at late
    exact late.mpr trivial
  | refactored =>
    rw [handle, handleTask_trace, if_pos ⟨before _, indexed.ready⟩, kept, List.append_nil,
      runStandardChunking_trace indexed.some indexed.inserted (before _), if_pos reports,
      if_pos ⟨reports, indexed.toc, before _⟩]
    exact Agree.refl _

theorem toc_inserted (completed : Completed env hash kbId store version task) {last : Piece}
    (built : task.toc = .built last) :
    (runInsertChunks env hash .toc [docChunk hash kbId task.docId last]).outcome = .done ∧
      tocTrace env hash kbId task =
        (runInsertChunks env hash .toc [docChunk hash kbId task.docId last]).trace ++
          [.incrementChunkNum task.docId 0 1] := by
  have passes := (indexed_of_completed completed).toc
  simp only [TocPasses, built] at passes
  have alive : env.hasCanceled .tocBuilt = false :=
    env.alive_earlier (Moment.before_ended _) completed.alive
  have quiet : (runInsertChunks env hash .toc [docChunk hash kbId task.docId last]).outcome ≠
      .raised := by
    intro raised
    apply passes
    rw [insertTocChunk, sequence_cons, stopIfCanceled_of_not_canceled alive, pass_andThen,
      sequence_cons, andThen_of_not_done (by simp [raised]), raised]
  have done := runInsertChunks_done_of_healthy completed.alive completed.row quiet
  refine ⟨done, ?_⟩
  simp only [tocTrace, built]
  rw [insertTocChunk, sequence_cons, stopIfCanceled_of_not_canceled alive, pass_andThen,
    sequence_cons, andThen_done done]
  rfl

structure Effects (env : Environment) (hash : String → String) (kbId : String)
    (store : List Chunk) (version : Version) (task : StandardTask) : Prop where
  recorded_eq : recorded (handle env hash kbId store version (.standard task)).trace =
    (if tocChunks hash kbId task = [] then task.chunks hash kbId
      else tocChunks hash kbId task).map Chunk.id
  inserted_eq : insertedChunks (handle env hash kbId store version (.standard task)).trace =
    acceptedMothers env hash .chunks (task.chunks hash kbId) ++ task.chunks hash kbId ++
      (acceptedMothers env hash .toc (tocChunks hash kbId task) ++ tocChunks hash kbId task)
  counted_eq : counted task.docId (handle env hash kbId store version (.standard task)).trace =
    distinctIds (task.chunks hash kbId) + (tocChunks hash kbId task).length

theorem effects (completed : Completed env hash kbId store version task) :
    Effects env hash kbId store version task := by
  have indexed := indexed_of_completed completed
  have agree := completed_agree completed
  have same : SameEffect kbId store _ _ := agree.sameEffect
  have countedMain := @counted_insertion env hash .chunks (task.chunks hash kbId) task.docId
  by_cases built : ∃ last, task.toc = .built last
  · obtain ⟨last, built⟩ := built
    obtain ⟨done, trace⟩ := toc_inserted completed built
    have toc : tocChunks hash kbId task = [docChunk hash kbId task.docId last] := by
      simp [tocChunks, built]
    have countedToc := @counted_insertion env hash .toc [docChunk hash kbId task.docId last]
      task.docId
    constructor
    · rw [same.recorded_eq, toc, if_neg (by simp), recorded, List.foldl_append, List.foldl_append,
        trace, List.foldl_append, foldl_recordedIds_insertion done (by simp)]
      rfl
    · rw [agree.insertedChunks_eq, toc, insertedChunks_append, insertedChunks_append, trace,
        insertedChunks_append, insertedChunks_insertion indexed.inserted,
        insertedChunks_insertion done]
      simp [insertedChunks, Event.acceptedChunks]
    · rw [same.counted_eq, toc, counted_append, counted_append, trace, counted_append, countedMain,
        countedToc]
      simp [counted, Event.countedChunks, Nat.add_comm]
  · have toc : tocChunks hash kbId task = [] := by
      rw [tocChunks]
      cases kind : task.toc with
      | built last => exact absurd ⟨last, kind⟩ built
      | _ => rfl
    have trace : tocTrace env hash kbId task = [] := by
      rw [tocTrace]
      cases kind : task.toc with
      | built last => exact absurd ⟨last, kind⟩ built
      | _ => rfl
    constructor
    · rw [same.recorded_eq, toc, if_pos rfl, recorded, trace, List.foldl_append, List.nil_append,
        foldl_recordedIds_insertion indexed.inserted indexed.some]
      rfl
    · rw [agree.insertedChunks_eq, toc, trace, insertedChunks_append, insertedChunks_append,
        insertedChunks_insertion indexed.inserted]
      simp [insertedChunks, Event.acceptedChunks, acceptedMothers, motherInserts,
        createMotherChunks, offsets_zero]
    · rw [same.counted_eq, toc, trace, counted_append, counted_append, countedMain]
      simp [counted, Event.countedChunks]

end Completed

section Ownership

open Documents (ParseTask queueTasks)

variable (env : Environment) (hash : String → String) (kbId : String) (store : List Chunk)
  (version : Version) (task : StandardTask)

def taskRow (fromPage : Nat) (digest : String) (createTime : Nat) : Documents.Task where
  docId := task.docId
  fromPage := fromPage
  digest := digest
  createTime := createTime
  progress := 1
  chunkIds := " ".intercalate
    (recorded (handle env hash kbId store version (.standard task)).trace)

def afterTask (doc : Documents.Document) (row : Documents.Task) : Documents.Database where
  knowledgebases := []
  documents := [doc]
  tasks := [row]
  chunks := (replay kbId (handle env hash kbId store version (.standard task)).trace store).map
    fun chunk => ⟨chunk.id, chunk.docId, chunk.kbId⟩

def insertedIds : List String :=
  (insertedChunks (handle env hash kbId store version (.standard task)).trace).map Chunk.id

/-- A completed task owns its chunks: it records just the ids it inserted, a new task with its
pages and digest takes all of them over and counts them as the task did, and any other new task
removes all of them. -/
structure OwnsChunks : Prop where
  recorded_exact : ∀ id,
    id ∈ recorded (handle env hash kbId store version (.standard task)).trace ↔
      id ∈ insertedIds env hash kbId store version task
  reused : ∀ (doc : Documents.Document) (fromPage : Nat) (digest : String)
    (createTime renewed : Nat), doc.id = task.docId → doc.kbId = kbId →
    let before := afterTask env hash kbId store version task doc
      (taskRow env hash kbId store version task fromPage digest createTime)
    let after := queueTasks before doc [⟨fromPage, digest, renewed⟩]
    (∀ id ∈ insertedIds env hash kbId store version task,
      (∃ row ∈ after.tasks, id ∈ row.ids) ∧ after.stores kbId id = before.stores kbId id) ∧
    ∀ doc ∈ after.documents, doc.chunkNum =
      counted task.docId (handle env hash kbId store version (.standard task)).trace
  removed : ∀ (doc : Documents.Document) (fromPage : Nat) (digest : String) (createTime : Nat)
    (parse : ParseTask), doc.id = task.docId → doc.kbId = kbId →
    parse.key ≠ (fromPage, digest) →
    ∀ id ∈ insertedIds env hash kbId store version task,
      (queueTasks (afterTask env hash kbId store version task doc
        (taskRow env hash kbId store version task fromPage digest createTime)) doc
        [parse]).stores kbId id = false

/-- When a completed task owns its chunks: it has no table of contents, the parent chunks that
were stored have ids of chunks, and the chunks have different ids. -/
structure RecordsAll : Prop where
  noToc : tocChunks hash kbId task = []
  mothers : ∀ mother ∈ acceptedMothers env hash .chunks (task.chunks hash kbId),
    mother.id ∈ (task.chunks hash kbId).map Chunk.id
  distinct : ((task.chunks hash kbId).map Chunk.id).Nodup

variable {env hash kbId store version task}

theorem queueTasks_reused {doc : Documents.Document} {row : Documents.Task}
    {chunks : List Documents.Chunk} {renewed : Nat} (ofDoc : row.docId = doc.id)
    (complete : row.progress = 1) (some : row.chunkIds ≠ "") :
    let after := queueTasks ⟨[], [doc], [row], chunks⟩ doc [⟨row.fromPage, row.digest, renewed⟩]
    after.tasks = [{ row with createTime := renewed }] ∧ after.chunks = chunks ∧
      ∀ other ∈ after.documents, other.chunkNum = row.ids.length := by
  have none : ({ row with chunkIds := "" } : Documents.Task).ids = [] := by
    simp [Documents.Task.ids]
  obtain ⟨docId, fromPage, digest, createTime, progress, chunkIds⟩ := row
  dsimp only at ofDoc complete some
  subst ofDoc complete
  simp [queueTasks, Documents.Database.getTasks, Documents.reuseAll, Documents.reusePrevTaskChunks,
    ParseTask.newTask, Documents.Task.key, some, none, Documents.Database.deleteTasks,
    Documents.Database.deleteChunks, Documents.Database.updateDocument, Table.modify]

theorem queueTasks_removed {doc : Documents.Document} {row : Documents.Task}
    {chunks : List Documents.Chunk} {parse : ParseTask} (ofDoc : row.docId = doc.id)
    (other : parse.key ≠ row.key) :
    (queueTasks ⟨[], [doc], [row], chunks⟩ doc [parse]).chunks =
      chunks.filter fun chunk => ¬(chunk.kbId = doc.kbId ∧ chunk.id ∈ row.ids) := by
  have differs : ¬row.key = (parse.newTask doc.id).key := fun same => other same.symm
  simp [queueTasks, Documents.Database.getTasks, Documents.reuseAll, Documents.reusePrevTaskChunks,
    ofDoc, differs, Documents.Database.deleteTasks, Documents.Database.deleteChunks,
    Documents.Database.updateDocument]

theorem recorded_words (hexdigest : ∀ text, PyString.IsWord (hash text))
    (completed : Completed env hash kbId store version task) :
    ∀ id ∈ recorded (handle env hash kbId store version (.standard task)).trace,
      PyString.IsWord id := by
  rw [(effects completed).recorded_eq]
  intro id member
  obtain ⟨chunk, inChunks, rfl⟩ := List.mem_map.mp member
  split at inChunks
  · obtain ⟨piece, _, rfl⟩ := List.mem_map.mp inChunks
    exact hexdigest _
  · rw [tocChunks] at inChunks
    split at inChunks
    · rw [List.mem_singleton.mp inChunks]
      exact hexdigest _
    · cases inChunks

theorem taskRow_ids (hexdigest : ∀ text, PyString.IsWord (hash text))
    (completed : Completed env hash kbId store version task) (fromPage : Nat) (digest : String)
    (createTime : Nat) :
    (taskRow env hash kbId store version task fromPage digest createTime).ids =
      recorded (handle env hash kbId store version (.standard task)).trace :=
  PyString.split_intercalate (recorded_words hexdigest completed)

theorem recorded_ne_nil (completed : Completed env hash kbId store version task) :
    recorded (handle env hash kbId store version (.standard task)).trace ≠ [] := by
  rw [(effects completed).recorded_eq]
  split
  · simpa using (indexed_of_completed completed).some
  · next some => simpa using some

def wordHash (text : String) : String :=
  String.ofList ('x' :: text.toList.filter fun char => !PyString.isSpace char)

theorem isWord_wordHash (text : String) : PyString.IsWord (wordHash text) := by
  constructor
  · intro empty
    have chars := congrArg String.toList empty
    simp [wordHash] at chars
  · intro char member
    rw [wordHash, String.toList_ofList] at member
    rcases List.mem_cons.mp member with rfl | kept
    · decide
    · simpa using (List.mem_filter.mp kept).2

end Ownership

end RagFlow.Executor
