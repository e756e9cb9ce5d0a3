import RagFlow.Executor.Handlers

/-!
# Migrating RAPTOR summaries

`TaskHandler._run_raptor` inserts the new summaries of a RAPTOR task and then removes the stale
ones.  It does not look whether the insertion was refused, skips the removal when there is nothing
to insert, and counts summaries with one id twice.
-/

namespace RagFlow.Executor

open Lib.Procedure
open Lib.Procedure.Run

/-- What an insertion of summaries leaves in the store. -/
inductive SummariesInserted (env : Environment) (kbId : String) (chunks store : List Chunk)
    (run : Run Event) : Prop
  | stored (done : run.outcome = .done)
      (nothingDeleted : ∀ ids, .deleteIds ids ∉ run.trace)
      (result : replay kbId run.trace store = insertChunks kbId chunks store)
  | partly (raised : run.outcome = .raised)
      (nothingDeleted : ∀ ids, .deleteIds ids ∉ run.trace) (written : List Chunk)
      (subset : written ⊆ chunks)
      (result : replay kbId run.trace store = insertChunks kbId written store)
  | takenBack (early : run.outcome ≠ .done)
      (rowMissing : run.outcome = .returned → env.rowExists .cleaned = false)
      (ids : List String) (deleted : ∀ other, .deleteIds other ∈ run.trace ↔ other = ids)
      (some : ∃ chunk ∈ chunks, chunk.id ∈ ids) (own : ids ⊆ chunks.map Chunk.id)
      (written : List Chunk) (subset : written ⊆ chunks) (covered : written.map Chunk.id ⊆ ids)
      (result : replay kbId run.trace store =
        deleteChunks kbId (fun chunk => chunk.id ∈ ids) (insertChunks kbId written store))

section Insertion

variable {env : Environment} {kbId : String} {chunks store : List Chunk}

theorem raptorIds_of_summaries (summaries : ∀ chunk ∈ chunks, chunk.raptorMethod ≠ none) :
    raptorIds chunks = chunks.map Chunk.id := by
  rw [raptorIds, List.filter_eq_self.mpr]
  exact fun chunk member => Option.isSome_iff_ne_none.mpr (summaries chunk member)

theorem rollback_of_summaries (summaries : ∀ chunk ∈ chunks, chunk.raptorMethod ≠ none)
    (some : chunks ≠ []) : rollbackRaptorChunks chunks = [.deleteIds (chunks.map Chunk.id)] := by
  rw [rollbackRaptorChunks, raptorIds_of_summaries summaries, if_neg]
  simpa using some

private theorem deleteIds_not_mem_storedBatches (offsets : List Nat) (ids : List String) :
    .deleteIds ids ∉ storedBatches env chunks offsets := by
  simp [storedBatches, storedBatch]

theorem summariesInserted (summaries : ∀ chunk ∈ chunks, chunk.raptorMethod ≠ none) :
    SummariesInserted env kbId chunks store (insertMainChunks env .chunks chunks) := by
  by_cases done : (insertMainChunks env .chunks chunks).outcome = .done
  · have trace := insertMainChunks_trace (insertMainChunks_done_iff.mp done)
    apply SummariesInserted.stored done
    · intro ids
      rw [trace]
      exact deleteIds_not_mem_storedBatches _ ids
    · rw [trace, replay_storedBatches, flatMap_offsets]
  · obtain ⟨before, offset, after, run, split, _, breaks, made⟩ := insertMainChunks_breaks_off done
    have subset := batch_subset_upTo split
    have inRange : offset < chunks.length := by
      apply @mem_offsets env
      rw [split]
      exact List.mem_append_right _ List.mem_cons_self
    have upTo_ne_nil : chunks.take (offset + env.docBulkSize) ≠ [] := by
      have positive := env.docBulkSize_pos
      intro empty
      have length := congrArg List.length empty
      rw [List.length_take, List.length_nil] at length
      omega
    have upToSummaries : ∀ chunk ∈ chunks.take (offset + env.docBulkSize),
        chunk.raptorMethod ≠ none := fun chunk member =>
      summaries chunk (List.take_subset _ _ member)
    have rowLater : ∀ late, env.rowExists (.batch .chunks late) = false →
        env.rowExists .cleaned = false := by
      intro late missing
      by_contra exist
      have earlier := @Environment.row_earlier env (.batch .chunks late) .cleaned
        (.inl (show 3 < 5 by decide)) (by simpa using exist)
      rw [missing] at earlier
      cases earlier
    -- what one batch more writes, then perhaps the deletion of all batches so far
    have written : ∀ accepted, accepted ⊆ (chunks.drop offset).take env.docBulkSize →
        (before.flatMap fun earlier => (chunks.drop earlier).take env.docBulkSize) ++ accepted ⊆
          chunks.take (offset + env.docBulkSize) := by
      intro accepted within chunk member
      apply subset
      rcases List.mem_append.mp member with early | here
      · exact List.mem_append_left _ early
      · exact List.mem_append_right _ (within here)
    have taken : ∀ requested accepted,
        accepted ⊆ (chunks.drop offset).take env.docBulkSize → ∀ outcome, outcome ≠ .done →
        (outcome = .returned → env.rowExists .cleaned = false) →
        SummariesInserted env kbId chunks store ⟨storedBatches env chunks before ++
          [.insert requested accepted,
            .deleteIds ((chunks.take (offset + env.docBulkSize)).map Chunk.id)], outcome⟩ := by
      intro requested accepted within outcome early rowMissing
      obtain ⟨first, inUpTo⟩ := List.exists_mem_of_ne_nil _ upTo_ne_nil
      apply SummariesInserted.takenBack early rowMissing
        ((chunks.take (offset + env.docBulkSize)).map Chunk.id) _
        ⟨first, List.take_subset _ _ inUpTo, List.mem_map_of_mem inUpTo⟩
        (List.map_subset _ (List.take_subset _ _)) _
        (List.Subset.trans (written accepted within) (List.take_subset _ _))
        (List.map_subset _ (written accepted within))
      · rw [replay_append, replay_storedBatches, insertChunks_append]
        rfl
      · intro other
        rw [List.mem_append]
        simp [deleteIds_not_mem_storedBatches]
    have partly : ∀ requested accepted,
        accepted ⊆ (chunks.drop offset).take env.docBulkSize →
        SummariesInserted env kbId chunks store ⟨storedBatches env chunks before ++
          [.insert requested accepted], .raised⟩ := by
      intro requested accepted within
      apply SummariesInserted.partly rfl _ _
        (List.Subset.trans (written accepted within) (List.take_subset _ _))
      · rw [replay_append, replay_storedBatches, insertChunks_append]
        rfl
      · intro ids member
        rcases List.mem_append.mp member with early | here
        · exact deleteIds_not_mem_storedBatches before ids early
        · cases List.mem_singleton.mp here
    rw [made]
    cases breaks with
    | canceled flag =>
      rw [rollback_of_summaries upToSummaries upTo_ne_nil]
      apply taken _ _ accepted_subset
      · split <;> simp
      · split
        · simp
        · next missing => exact fun _ => rowLater offset (by simpa using missing)
    | interrupted alive late => exact partly _ _ accepted_subset
    | rejected alive errors => exact partly _ _ accepted_subset
    | unknown alive clean missing =>
      exact taken _ _ (List.Subset.refl _) .returned (by simp) fun _ =>
        rowLater offset (env.row_missing missing)

end Insertion

section Migration

variable (env : Environment) (hash : String → String) (kbId : String) (before : List Chunk)
  (task : RaptorTask)

def newSummaries : List Chunk := (runRaptorForKb hash kbId before task).1

def scheduledCleanup : List Cleanup := (runRaptorForKb hash kbId before task).2

def summaryInsertion : Run Event :=
  runInsertChunks env hash .chunks (newSummaries hash kbId before task)

def afterRaptor : List Chunk :=
  replay kbId (runRaptor env hash kbId before task).trace before

def HasSummaries (store : List Chunk) (docId : String) : Prop :=
  ∃ chunk ∈ store, chunk.kbId = kbId ∧ chunk.docId = docId ∧ chunk.raptorMethod ≠ none

def storedSummaries (new store : List Chunk) : Nat :=
  ((new.map Chunk.id).dedup.filter fun id =>
    store.any fun chunk => chunk.kbId = kbId && chunk.id = id).length

structure LosesNothing : Prop where
  /-- Who had summaries still has some, its own or those that take their place. -/
  remain : ∀ docId ∈ fakeDocId :: task.docIds, HasSummaries kbId before docId →
    HasSummaries kbId (afterRaptor env hash kbId before task) docId ∨
      TargetStored kbId (afterRaptor env hash kbId before task) task docId
  /-- A summary goes only when those that take its place are stored. -/
  replaced : ∀ chunk ∈ before, chunk.kbId = kbId → chunk.raptorMethod ≠ none →
    chunk ∉ afterRaptor env hash kbId before task →
      TargetStored kbId (afterRaptor env hash kbId before task) task chunk.docId
  /-- Scheduled clean-ups are made once the wanted summaries are stored, unless the insertion
  failed with an exception. -/
  cleaned : (summaryInsertion env hash kbId before task).outcome ≠ .raised →
    ∀ plan ∈ scheduledCleanup hash kbId before task,
      TargetStored kbId (afterRaptor env hash kbId before task) task plan.1 →
      ∀ chunk ∈ afterRaptor env hash kbId before task, chunk.kbId = kbId →
        isStale plan.1 plan.2 chunk = false
  /-- What is counted is stored. -/
  counted : counted task.referredDocId (runRaptor env hash kbId before task).trace ≤
    storedSummaries kbId (newSummaries hash kbId before task)
      (afterRaptor env hash kbId before task)

def interrupted : Bool :=
  decide (0 < cleanedChunks kbId (scheduledCleanup hash kbId before task)
    (replay kbId (summaryInsertion env hash kbId before task).trace before)) &&
    env.hasCanceled .cleaned && env.rowExists .cleaned

structure MigratesSafely : Prop where
  /-- Without new summaries nothing is scheduled. -/
  nothingToDo : newSummaries hash kbId before task = [] →
    scheduledCleanup hash kbId before task = []
  /-- The insertion is not refused. -/
  notRefused : (summaryInsertion env hash kbId before task).outcome ≠ .returned
  /-- Counted summaries have different ids. -/
  distinct : (summaryInsertion env hash kbId before task).outcome = .done →
    interrupted env hash kbId before task = false →
      ((newSummaries hash kbId before task).map Chunk.id).Nodup
  /-- A rollback meets no summary that was stored before. -/
  rollback : (summaryInsertion env hash kbId before task).outcome = .raised →
    ∀ ids, .deleteIds ids ∈ (summaryInsertion env hash kbId before task).trace →
      ∀ chunk ∈ before, chunk.kbId = kbId → chunk.raptorMethod ≠ none → chunk.id ∉ ids

/-- `xxhash` tells the summaries of different documents apart. -/
def SeparatesDocuments : Prop :=
  ∀ new ∈ newSummaries hash kbId before task,
    ∀ chunk ∈ before ++ newSummaries hash kbId before task,
      chunk.raptorMethod ≠ none → chunk.id = new.id → chunk.docId = new.docId

variable {env hash kbId before task}

theorem planSpec : PlanSpec hash kbId before task (newSummaries hash kbId before task)
    (scheduledCleanup hash kbId before task) :=
  planSpec_runRaptorForKb

theorem newSummary_method {chunk : Chunk} (member : chunk ∈ newSummaries hash kbId before task) :
    chunk.raptorMethod = some task.treeBuilder := by
  obtain ⟨content, made⟩ := planSpec.generated chunk member
  rw [made]
  rfl

theorem summaryInsertion_eq : summaryInsertion env hash kbId before task =
    insertMainChunks env .chunks (newSummaries hash kbId before task) := by
  apply runInsertChunks_of_childless
  intro chunk member
  obtain ⟨content, made⟩ := planSpec.generated chunk member
  rw [made]
  rfl

theorem summaryInsertion_cases : SummariesInserted env kbId
    (newSummaries hash kbId before task) before (summaryInsertion env hash kbId before task) := by
  rw [summaryInsertion_eq]
  apply summariesInserted
  intro chunk member
  rw [newSummary_method member]
  simp

theorem runRaptor_trace (some : newSummaries hash kbId before task ≠ []) :
    (runRaptor env hash kbId before task).trace =
      (summaryInsertion env hash kbId before task).trace ++
        if (summaryInsertion env hash kbId before task).outcome = .raised then []
        else cleanupEvents (scheduledCleanup hash kbId before task) ++
          if interrupted env hash kbId before task = true then []
          else [.incrementChunkNum task.referredDocId task.tokenCount
            (newSummaries hash kbId before task).length] := by
  have unfolded : runRaptor env hash kbId before task = sequence [
      (summaryInsertion env hash kbId before task).called,
      perform (cleanupEvents (scheduledCleanup hash kbId before task)),
      if 0 < cleanedChunks kbId (scheduledCleanup hash kbId before task)
          (replay kbId (summaryInsertion env hash kbId before task).trace before) then
        env.progress .cleaned
      else pass,
      perform [.incrementChunkNum task.referredDocId task.tokenCount
        (newSummaries hash kbId before task).length],
      env.progress .finished] := if_neg some
  rw [unfolded]
  by_cases raised : (summaryInsertion env hash kbId before task).outcome = .raised
  · simp [called, raised]
  · by_cases cleans : 0 < cleanedChunks kbId (scheduledCleanup hash kbId before task)
        (replay kbId (summaryInsertion env hash kbId before task).trace before)
    · cases flag : env.hasCanceled .cleaned && env.rowExists .cleaned with
      | false =>
        have report : env.progress .cleaned = pass := by simp [Environment.progress, flag]
        simp [called, raised, cleans, interrupted, flag, report]
      | true =>
        have report : env.progress .cleaned = raise := by simp [Environment.progress, flag]
        simp [called, raised, cleans, interrupted, flag, report]
    · simp [called, raised, cleans, interrupted]

theorem runRaptor_trace_nil (none : newSummaries hash kbId before task = []) :
    (runRaptor env hash kbId before task).trace = [] := by
  have unfolded : runRaptor env hash kbId before task = env.progress .finished := if_pos none
  rw [unfolded, progress_trace]

theorem afterRaptor_eq (some : newSummaries hash kbId before task ≠ [])
    (quiet : (summaryInsertion env hash kbId before task).outcome ≠ .raised) :
    afterRaptor env hash kbId before task =
      replay kbId (cleanupEvents (scheduledCleanup hash kbId before task))
        (replay kbId (summaryInsertion env hash kbId before task).trace before) := by
  rw [afterRaptor, runRaptor_trace some, if_neg quiet, replay_append, replay_append]
  split <;> rfl

theorem afterRaptor_of_raised (some : newSummaries hash kbId before task ≠ [])
    (raised : (summaryInsertion env hash kbId before task).outcome = .raised) :
    afterRaptor env hash kbId before task =
      replay kbId (summaryInsertion env hash kbId before task).trace before := by
  rw [afterRaptor, runRaptor_trace some, if_pos raised, List.append_nil]

theorem exists_stored_of_written (separates : SeparatesDocuments hash kbId before task)
    {written : List Chunk} (subset : written ⊆ newSummaries hash kbId before task)
    {new : Chunk} (member : new ∈ written) :
    ∃ chunk ∈ insertChunks kbId written before, chunk.kbId = kbId ∧
      chunk.raptorMethod = some task.treeBuilder ∧ chunk.docId = new.docId ∧ chunk.id = new.id := by
  obtain ⟨last, inWritten, sameId, stored⟩ :=
    @exists_inserted kbId before _ _ member
  have method := newSummary_method (subset inWritten)
  have sameDoc := separates new (subset member) last
    (List.mem_append_right _ (subset inWritten)) (by simp [method]) sameId
  exact ⟨_, stored, rfl, method, sameDoc, sameId⟩

theorem exists_stored_of_overwritten (separates : SeparatesDocuments hash kbId before task)
    {written : List Chunk} (subset : written ⊆ newSummaries hash kbId before task)
    {chunk : Chunk} (stored : chunk ∈ before) (summary : chunk.raptorMethod ≠ none)
    (gone : chunk ∉ insertChunks kbId written before) :
    task.IsTarget chunk.docId chunk.docId ∧
      ∃ other ∈ insertChunks kbId written before, other.kbId = kbId ∧
        other.raptorMethod = some task.treeBuilder ∧ other.docId = chunk.docId := by
  have overwritten : chunk.id ∈ written.map Chunk.id := by
    by_contra kept
    exact gone (mem_insertChunks_of_kept stored kept)
  obtain ⟨new, member, sameId⟩ := List.mem_map.mp overwritten
  obtain ⟨other, there, inKb, method, sameDoc, _⟩ :=
    exists_stored_of_written separates subset member
  have ofDoc := separates new (subset member) chunk (List.mem_append_left _ stored) summary
    sameId.symm
  refine ⟨?_, other, there, inKb, method, sameDoc.trans ofDoc.symm⟩
  rw [ofDoc]
  exact planSpec.own new (subset member)

theorem targetStored_of_overwritten (separates : SeparatesDocuments hash kbId before task)
    {written : List Chunk} (subset : written ⊆ newSummaries hash kbId before task)
    {chunk : Chunk} (stored : chunk ∈ before) (summary : chunk.raptorMethod ≠ none)
    (gone : chunk ∉ insertChunks kbId written before) :
    TargetStored kbId (insertChunks kbId written before) task chunk.docId := by
  obtain ⟨own, other, there, inKb, method, sameDoc⟩ :=
    exists_stored_of_overwritten separates subset stored summary gone
  exact ⟨other, there, inKb, method, sameDoc.symm ▸ own⟩

theorem targetStored_insertChunks (separates : SeparatesDocuments hash kbId before task)
    {written : List Chunk} (subset : written ⊆ newSummaries hash kbId before task)
    {docId : String} (target : TargetStored kbId before task docId) :
    TargetStored kbId (insertChunks kbId written before) task docId := by
  obtain ⟨chunk, stored, inKb, method, isTarget⟩ := target
  by_cases there : chunk ∈ insertChunks kbId written before
  · exact ⟨chunk, there, inKb, method, isTarget⟩
  · obtain ⟨_, other, here, otherKb, otherMethod, sameDoc⟩ :=
      exists_stored_of_overwritten separates subset stored (by simp [method]) there
    exact ⟨other, here, otherKb, otherMethod, sameDoc ▸ isTarget⟩

theorem targetStored_cleanup {store : List Chunk} {docId : String}
    (target : TargetStored kbId store task docId) :
    TargetStored kbId (replay kbId (cleanupEvents (scheduledCleanup hash kbId before task)) store)
      task docId := by
  obtain ⟨chunk, stored, inKb, method, isTarget⟩ := target
  refine ⟨chunk, mem_replay_cleanupEvents.mpr ⟨stored, ?_⟩, inKb, method, isTarget⟩
  intro plan scheduled stale
  have kept := planSpec.keeps plan scheduled docId chunk isTarget method
  rw [stale.2] at kept
  cases kept

theorem remain_of_replaced
    (replaced : ∀ chunk ∈ before, chunk.kbId = kbId → chunk.raptorMethod ≠ none →
      chunk ∉ afterRaptor env hash kbId before task →
        TargetStored kbId (afterRaptor env hash kbId before task) task chunk.docId)
    (docId : String) (had : HasSummaries kbId before docId) :
    HasSummaries kbId (afterRaptor env hash kbId before task) docId ∨
      TargetStored kbId (afterRaptor env hash kbId before task) task docId := by
  obtain ⟨chunk, stored, inKb, ofDoc, summary⟩ := had
  by_cases there : chunk ∈ afterRaptor env hash kbId before task
  · exact .inl ⟨chunk, there, inKb, ofDoc, summary⟩
  · exact .inr (ofDoc ▸ replaced chunk stored inKb summary there)

theorem counted_summaryInsertion :
    counted task.referredDocId (summaryInsertion env hash kbId before task).trace = 0 :=
  counted_eq_zero fun event member => (runInsertChunks_within event member).not_increment

theorem counted_cleanupEvents (docId : String) (cleanup : List Cleanup) :
    counted docId (cleanupEvents cleanup) = 0 := by
  apply counted_eq_zero
  intro event member
  obtain ⟨plan, _, rfl⟩ := List.mem_map.mp member
  rfl

theorem counted_runRaptor (some : newSummaries hash kbId before task ≠ [])
    (quiet : (summaryInsertion env hash kbId before task).outcome ≠ .raised) :
    counted task.referredDocId (runRaptor env hash kbId before task).trace =
      if interrupted env hash kbId before task = true then 0
      else (newSummaries hash kbId before task).length := by
  rw [runRaptor_trace some, if_neg quiet, counted_append, counted_append,
    counted_summaryInsertion, counted_cleanupEvents]
  split <;> simp [counted, Event.countedChunks]

theorem losesNothing_nil (none : newSummaries hash kbId before task = []) :
    LosesNothing env hash kbId before task ↔ scheduledCleanup hash kbId before task = [] := by
  have same : afterRaptor env hash kbId before task = before := by
    rw [afterRaptor, runRaptor_trace_nil none, replay_nil]
  constructor
  · intro safe
    by_contra some
    obtain ⟨plan, scheduled⟩ := List.exists_mem_of_ne_nil _ some
    obtain ⟨chunk, stored, inKb, stale⟩ := planSpec.stale plan scheduled
    have quiet : (summaryInsertion env hash kbId before task).outcome ≠ .raised := by
      rw [summaryInsertion, none, runInsertChunks_nil]
      simp
    have target : TargetStored kbId before task plan.1 := by
      rcases planSpec.target plan scheduled with target | ⟨new, member, _⟩
      · exact target
      · rw [none] at member
        cases member
    have clean := safe.cleaned quiet plan scheduled (same.symm ▸ target) chunk
      (same.symm ▸ stored) inKb
    rw [stale] at clean
    cases clean
  · intro idle
    have replaced : ∀ chunk ∈ before, chunk.kbId = kbId → chunk.raptorMethod ≠ Option.none →
        chunk ∉ afterRaptor env hash kbId before task →
        TargetStored kbId (afterRaptor env hash kbId before task) task chunk.docId :=
      fun chunk stored _ _ gone => absurd (same.symm ▸ stored) gone
    refine ⟨fun docId _ => remain_of_replaced replaced docId, replaced, ?_, ?_⟩
    · intro _ plan scheduled
      rw [idle] at scheduled
      cases scheduled
    · rw [runRaptor_trace_nil none]
      exact Nat.zero_le _

theorem losesNothing_of_stored (separates : SeparatesDocuments hash kbId before task)
    (some : newSummaries hash kbId before task ≠ [])
    (done : (summaryInsertion env hash kbId before task).outcome = .done)
    (result : replay kbId (summaryInsertion env hash kbId before task).trace before =
      insertChunks kbId (newSummaries hash kbId before task) before) :
    LosesNothing env hash kbId before task ↔ (interrupted env hash kbId before task = false →
      ((newSummaries hash kbId before task).map Chunk.id).Nodup) := by
  have quiet : (summaryInsertion env hash kbId before task).outcome ≠ .raised := by simp [done]
  have after : afterRaptor env hash kbId before task =
      replay kbId (cleanupEvents (scheduledCleanup hash kbId before task))
        (insertChunks kbId (newSummaries hash kbId before task) before) := by
    rw [afterRaptor_eq some quiet, result]
  have allStored : storedSummaries kbId (newSummaries hash kbId before task)
      (afterRaptor env hash kbId before task) =
        ((newSummaries hash kbId before task).map Chunk.id).dedup.length := by
    rw [storedSummaries, List.filter_eq_self.mpr]
    intro id member
    obtain ⟨new, inNew, rfl⟩ := List.mem_map.mp (List.mem_dedup.mp member)
    obtain ⟨chunk, stored, inKb, method, sameDoc, sameId⟩ :=
      exists_stored_of_written separates (List.Subset.refl _) inNew
    have survives : chunk ∈ afterRaptor env hash kbId before task := by
      rw [after]
      refine mem_replay_cleanupEvents.mpr ⟨stored, fun plan scheduled stale => ?_⟩
      have kept := planSpec.keeps plan scheduled new.docId chunk
        (sameDoc ▸ planSpec.own new inNew) method
      rw [stale.2] at kept
      cases kept
    exact List.any_eq_true.mpr ⟨chunk, survives, by simp [inKb, sameId]⟩
  have replaced : ∀ chunk ∈ before, chunk.kbId = kbId → chunk.raptorMethod ≠ none →
      chunk ∉ afterRaptor env hash kbId before task →
      TargetStored kbId (afterRaptor env hash kbId before task) task chunk.docId := by
    intro chunk stored inKb summary gone
    rw [after] at gone ⊢
    apply targetStored_cleanup
    by_cases there : chunk ∈ insertChunks kbId (newSummaries hash kbId before task) before
    · -- it was cleaned up
      rw [mem_replay_cleanupEvents] at gone
      obtain ⟨plan, scheduled, _, stale⟩ : ∃ plan ∈ scheduledCleanup hash kbId before task,
          chunk.kbId = kbId ∧ isStale plan.1 plan.2 chunk = true := by
        by_contra kept
        exact gone ⟨there, fun plan scheduled hit => kept ⟨plan, scheduled, hit⟩⟩
      rw [(isStale_iff.mp stale).1]
      rcases planSpec.target plan scheduled with target | ⟨new, inNew, isTarget⟩
      · exact targetStored_insertChunks separates (List.Subset.refl _) target
      · obtain ⟨other, here, otherKb, method, sameDoc, _⟩ :=
          exists_stored_of_written separates (List.Subset.refl _) inNew
        exact ⟨other, here, otherKb, method, sameDoc ▸ isTarget⟩
    · exact targetStored_of_overwritten separates (List.Subset.refl _) stored summary there
  have cleaned : ∀ plan ∈ scheduledCleanup hash kbId before task,
      ∀ chunk ∈ afterRaptor env hash kbId before task, chunk.kbId = kbId →
        isStale plan.1 plan.2 chunk = false := by
    intro plan scheduled chunk stored inKb
    rw [after, mem_replay_cleanupEvents] at stored
    simpa [inKb] using stored.2 plan scheduled
  have countedAll := @counted_runRaptor env _ _ _ _ some quiet
  constructor
  · intro safe alive
    have bound := safe.counted
    rw [countedAll, alive, if_neg (by simp), allStored] at bound
    have sublist := List.dedup_sublist ((newSummaries hash kbId before task).map Chunk.id)
    have equal := sublist.eq_of_length_le (by simpa using bound)
    exact List.dedup_eq_self.mp equal
  · intro distinct
    refine ⟨fun docId _ => remain_of_replaced replaced docId, replaced,
      fun _ plan scheduled _ => cleaned plan scheduled, ?_⟩
    rw [countedAll, allStored]
    split
    · exact Nat.zero_le _
    · next alive =>
        rw [List.dedup_eq_self.mpr (distinct (by simpa using alive)), List.length_map]

theorem losesNothing_of_partly (separates : SeparatesDocuments hash kbId before task)
    (some : newSummaries hash kbId before task ≠ [])
    (raised : (summaryInsertion env hash kbId before task).outcome = .raised)
    {written : List Chunk} (subset : written ⊆ newSummaries hash kbId before task)
    (result : replay kbId (summaryInsertion env hash kbId before task).trace before =
      insertChunks kbId written before) :
    LosesNothing env hash kbId before task := by
  have after : afterRaptor env hash kbId before task = insertChunks kbId written before := by
    rw [afterRaptor_of_raised some raised, result]
  have replaced : ∀ chunk ∈ before, chunk.kbId = kbId → chunk.raptorMethod ≠ none →
      chunk ∉ afterRaptor env hash kbId before task →
      TargetStored kbId (afterRaptor env hash kbId before task) task chunk.docId := by
    intro chunk stored _ summary gone
    rw [after] at gone ⊢
    exact targetStored_of_overwritten separates subset stored summary gone
  refine ⟨fun docId _ => remain_of_replaced replaced docId, replaced,
    fun quiet => absurd raised quiet, ?_⟩
  rw [runRaptor_trace some, if_pos raised, List.append_nil, counted_summaryInsertion]
  exact Nat.zero_le _

/-- The insertion raises after it took its summaries back: a summary that was stored before under
one of their ids is lost. -/
theorem losesNothing_of_rollback
    (some : newSummaries hash kbId before task ≠ [])
    (separates : SeparatesDocuments hash kbId before task)
    (raised : (summaryInsertion env hash kbId before task).outcome = .raised)
    {ids : List String} (own : ids ⊆ (newSummaries hash kbId before task).map Chunk.id)
    {written : List Chunk} (covered : written.map Chunk.id ⊆ ids)
    (result : replay kbId (summaryInsertion env hash kbId before task).trace before =
      deleteChunks kbId (fun chunk => chunk.id ∈ ids) (insertChunks kbId written before)) :
    LosesNothing env hash kbId before task ↔
      ∀ chunk ∈ before, chunk.kbId = kbId → chunk.raptorMethod ≠ none → chunk.id ∉ ids := by
  have after : afterRaptor env hash kbId before task =
      deleteChunks kbId (fun chunk => chunk.id ∈ ids) (insertChunks kbId written before) := by
    rw [afterRaptor_of_raised some raised, result]
  -- nothing of what was written stays
  have old : ∀ chunk ∈ afterRaptor env hash kbId before task, chunk.kbId = kbId →
      chunk ∈ before ∧ chunk.id ∉ ids := by
    intro chunk stored inKb
    rw [after, mem_deleteChunks] at stored
    have other : chunk.id ∉ ids := fun hit => stored.2 ⟨inKb, decide_eq_true hit⟩
    rcases mem_insertChunks_cases stored.1 with ⟨new, inWritten, rfl⟩ | ⟨earlier, _⟩
    · exact absurd (covered (List.mem_map_of_mem inWritten)) other
    · exact ⟨earlier, other⟩
  constructor
  · intro safe chunk stored inKb summary hit
    have gone : chunk ∉ afterRaptor env hash kbId before task :=
      fun there => (old chunk there inKb).2 hit
    obtain ⟨other, there, otherKb, method, isTarget⟩ :=
      safe.replaced chunk stored inKb summary gone
    obtain ⟨new, inNew, sameId⟩ := List.mem_map.mp (own hit)
    have sameDoc := separates new inNew chunk (List.mem_append_left _ stored) summary sameId.symm
    -- the document of a new summary is its own target, and had none of the wanted builder
    apply planSpec.missing new inNew
    apply mem_raptorChunkMethods.mpr
    refine ⟨other, (old other there otherKb).1, otherKb, ?_, method⟩
    rw [sameDoc] at isTarget
    exact isTarget_unique (planSpec.own new inNew) isTarget
  · intro clear
    have replaced : ∀ chunk ∈ before, chunk.kbId = kbId → chunk.raptorMethod ≠ none →
        chunk ∉ afterRaptor env hash kbId before task →
        TargetStored kbId (afterRaptor env hash kbId before task) task chunk.docId := by
      intro chunk stored inKb summary gone
      have other := clear chunk stored inKb summary
      refine absurd ?_ gone
      rw [after]
      apply mem_deleteChunks.mpr
      refine ⟨mem_insertChunks_of_kept stored fun written => other (covered written), ?_⟩
      exact fun hit => other (of_decide_eq_true hit.2)
    refine ⟨fun docId _ => remain_of_replaced replaced docId, replaced,
      fun quiet => absurd raised quiet, ?_⟩
    rw [runRaptor_trace some, if_pos raised, List.append_nil, counted_summaryInsertion]
    exact Nat.zero_le _

theorem not_losesNothing_of_refused (some : newSummaries hash kbId before task ≠ [])
    (refused : (summaryInsertion env hash kbId before task).outcome = .returned)
    (rowMissing : env.rowExists .cleaned = false) {ids : List String}
    (hit : ∃ chunk ∈ newSummaries hash kbId before task, chunk.id ∈ ids)
    {written : List Chunk}
    (result : replay kbId (summaryInsertion env hash kbId before task).trace before =
      deleteChunks kbId (fun chunk => chunk.id ∈ ids) (insertChunks kbId written before)) :
    ¬LosesNothing env hash kbId before task := by
  intro safe
  have quiet : (summaryInsertion env hash kbId before task).outcome ≠ .raised := by simp [refused]
  have silent : interrupted env hash kbId before task = false := by
    simp [interrupted, rowMissing]
  obtain ⟨first, inNew, taken⟩ := hit
  have gone : (afterRaptor env hash kbId before task).any
      (fun chunk => chunk.kbId = kbId && chunk.id = first.id) = false := by
    rw [List.any_eq_false]
    intro chunk stored
    rw [afterRaptor_eq some quiet, mem_replay_cleanupEvents, result, mem_deleteChunks] at stored
    have kept := stored.1.2
    intro same
    rw [Bool.and_eq_true] at same
    apply kept
    rw [of_decide_eq_true same.2]
    exact ⟨of_decide_eq_true same.1, decide_eq_true taken⟩
  have fewer : storedSummaries kbId (newSummaries hash kbId before task)
      (afterRaptor env hash kbId before task) < (newSummaries hash kbId before task).length := by
    have strictly : storedSummaries kbId (newSummaries hash kbId before task)
        (afterRaptor env hash kbId before task) <
          ((newSummaries hash kbId before task).map Chunk.id).dedup.length := by
      apply List.length_filter_lt_length_iff_exists.mpr
      refine ⟨first.id, List.mem_dedup.mpr (List.mem_map_of_mem inNew), ?_⟩
      rw [gone]
      simp
    have shorter := (List.dedup_sublist
      ((newSummaries hash kbId before task).map Chunk.id)).length_le
    rw [List.length_map] at shorter
    omega
  have bound := safe.counted
  rw [counted_runRaptor some quiet, silent, if_neg (by simp)] at bound
  omega

theorem document_real : fakeDocId ∉ ["document"] := by
  decide

theorem document_ne_nil : ["document"] ≠ [] :=
  List.cons_ne_nil _ _

def migrationTask : RaptorTask where
  docIds := ["document"]
  docIds_ne_nil := document_ne_nil
  docIds_real := document_real
  scope := .file
  treeBuilder := .raptor
  skips _ := false
  summarize _ := ["new"]
  tokenCount := 1
  readiness := .ready

end Migration

end RagFlow.Executor
