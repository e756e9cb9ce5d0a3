import RagFlow.Executor.Cancellation
import RagFlow.Executor.RaptorMigration

/-!
# The refactored executor against the original one

Both executors insert, delete and record the same for a task until one of them stops, cleans up or
counts where the other does not.
-/

namespace RagFlow.Executor

open Lib.Procedure
open Lib.Procedure.Run

/-- The same inserts, deletes and chunk-id updates in the same order, and the same increments. -/
structure Agree (first second : List Event) : Prop where
  writes : first.filter (fun event => !event.isIncrement) =
    second.filter fun event => !event.isIncrement
  increments : (first.filter Event.isIncrement).Perm (second.filter Event.isIncrement)

/-- The same writes and what they lead to: the store, the recorded ids and the counters. -/
structure SameEffect (kbId : String) (store : List Chunk) (first second : List Event) : Prop
    extends Agree first second where
  store_eq : replay kbId first store = replay kbId second store
  recorded_eq : recorded first = recorded second
  counted_eq : ∀ docId, counted docId first = counted docId second
  tokens_eq : ∀ docId, countedTokens docId first = countedTokens docId second

section Agreement

variable {kbId : String} {store : List Chunk} {first second common : List Event}

theorem replay_writes (trace : List Event) :
    replay kbId (trace.filter fun event => !event.isIncrement) store =
      replay kbId trace store := by
  induction trace generalizing store with
  | nil => rfl
  | cons event trace ih =>
    cases event with
    | incrementChunkNum docId tokens chunks => exact ih
    | _ => exact ih

private theorem recorded_foldl_writes (trace : List Event) (ids : List String) :
    (trace.filter fun event => !event.isIncrement).foldl Event.recordedIds ids =
      trace.foldl Event.recordedIds ids := by
  induction trace generalizing ids with
  | nil => rfl
  | cons event trace ih => cases event <;> exact ih _

theorem recorded_writes (trace : List Event) :
    recorded (trace.filter fun event => !event.isIncrement) = recorded trace :=
  recorded_foldl_writes trace []

private theorem sum_increments {amount : Event → Nat}
    (none : ∀ event, event.isIncrement = false → amount event = 0) (trace : List Event) :
    ((trace.filter Event.isIncrement).map amount).sum = (trace.map amount).sum := by
  induction trace with
  | nil => rfl
  | cons event trace ih =>
    by_cases increment : event.isIncrement = true
    · rw [List.filter_cons_of_pos increment, List.map_cons, List.map_cons, List.sum_cons,
        List.sum_cons, ih]
    · rw [List.filter_cons_of_neg increment, List.map_cons, List.sum_cons,
        none event (by simpa using increment), ih, Nat.zero_add]

theorem counted_increments (docId : String) (trace : List Event) :
    counted docId (trace.filter Event.isIncrement) = counted docId trace := by
  apply sum_increments
  intro event quiet
  cases event with
  | incrementChunkNum counter tokens chunks => cases quiet
  | _ => rfl

theorem countedTokens_increments (docId : String) (trace : List Event) :
    countedTokens docId (trace.filter Event.isIncrement) = countedTokens docId trace := by
  apply sum_increments
  intro event quiet
  cases event with
  | incrementChunkNum counter tokens chunks => cases quiet
  | _ => rfl

theorem insertedChunks_writes (trace : List Event) :
    insertedChunks (trace.filter fun event => !event.isIncrement) = insertedChunks trace := by
  induction trace with
  | nil => rfl
  | cons event trace ih =>
    rw [insertedChunks] at ih ⊢
    cases event with
    | incrementChunkNum docId tokens chunks => exact ih
    | _ => exact congrArg (_ ++ ·) ih

theorem Agree.insertedChunks_eq (agree : Agree first second) :
    insertedChunks first = insertedChunks second := by
  rw [← insertedChunks_writes first, agree.writes, insertedChunks_writes]

theorem Agree.sameEffect (agree : Agree first second) : SameEffect kbId store first second where
  toAgree := agree
  store_eq := by rw [← replay_writes first, agree.writes, replay_writes]
  recorded_eq := by rw [← recorded_writes first, agree.writes, recorded_writes]
  counted_eq docId := by
    rw [← counted_increments docId first, ← counted_increments docId second, counted, counted]
    exact (agree.increments.map _).sum_eq
  tokens_eq docId := by
    rw [← countedTokens_increments docId first, ← countedTokens_increments docId second,
      countedTokens, countedTokens]
    exact (agree.increments.map _).sum_eq

theorem Agree.refl (trace : List Event) : Agree trace trace := ⟨rfl, List.Perm.refl _⟩

theorem agree_append_left : Agree (common ++ first) (common ++ second) ↔ Agree first second := by
  constructor
  · rintro ⟨writes, increments⟩
    rw [List.filter_append, List.filter_append] at writes increments
    exact ⟨List.append_cancel_left writes, (List.perm_append_left_iff _).mp increments⟩
  · rintro ⟨writes, increments⟩
    constructor
    · rw [List.filter_append, List.filter_append, writes]
    · rw [List.filter_append, List.filter_append]
      exact increments.append_left _

theorem agree_append_right : Agree (first ++ common) (second ++ common) ↔ Agree first second := by
  constructor
  · rintro ⟨writes, increments⟩
    rw [List.filter_append, List.filter_append] at writes increments
    exact ⟨List.append_cancel_right writes, (List.perm_append_right_iff _).mp increments⟩
  · rintro ⟨writes, increments⟩
    constructor
    · rw [List.filter_append, List.filter_append, writes]
    · rw [List.filter_append, List.filter_append]
      exact increments.append_right _

theorem agree_late_count {docId : String} {tokens chunks : Nat} {reached : Prop}
    [Decidable reached] :
    Agree (.incrementChunkNum docId tokens chunks :: common)
      (common ++ if reached then [.incrementChunkNum docId tokens chunks] else []) ↔ reached := by
  constructor
  · intro agree
    by_contra missed
    rw [if_neg missed, List.append_nil] at agree
    have counts := agree.increments.length_eq
    rw [List.filter_cons_of_pos rfl, List.length_cons] at counts
    omega
  · intro here
    rw [if_pos here]
    constructor
    · rw [List.filter_append, List.filter_cons_of_neg (by simp [Event.isIncrement])]
      exact (List.append_nil _).symm
    · rw [List.filter_append, List.filter_cons_of_pos rfl]
      exact (List.perm_append_singleton _ _).symm

end Agreement

section Standard

variable (env : Environment) (hash : String → String) (kbId : String) (store : List Chunk)
  (task : StandardTask)

def CountsInTime : Prop :=
  env.hasCanceled .finished = false ∧ task.toc ≠ .failed ∧
    ∀ last, task.toc = .built last →
      env.rejects (.batch .toc 0) (docChunk hash kbId task.docId last) = false

def StandardAgrees : Prop :=
  if env.hasCanceled .started = true then env.indexExisted = false
  else match task.readiness with
    | .unbound => (env.hasCanceled .ended && env.indexExisted) = false
    | .failed => env.hasCanceled .ended = false
    | .ready =>
      if task.pieces = [] then env.hasCanceled .ended = false
      else env.hasCanceled .inserted = false →
        (∀ offset ∈ env.offsets (task.chunks hash kbId).length,
          env.Stores .chunks (task.chunks hash kbId) offset) →
        CountsInTime env hash kbId task

def tocTrace : List Event :=
  match task.toc with
  | .built last => (insertTocChunk env hash kbId task.docId last).trace
  | _ => []

/-- The table of contents does not stop the refactored handler. -/
def TocPasses : Prop :=
  match task.toc with
  | .none => True
  | .failed => False
  | .built last => (insertTocChunk env hash kbId task.docId last).outcome ≠ .raised

instance : Decidable (TocPasses env hash kbId task) := by
  unfold TocPasses
  split <;> infer_instance

variable {env hash kbId store task}

theorem insertToc_outcome (alive : env.hasCanceled .finished = false) (last : Piece) :
    (insertTocChunk env hash kbId task.docId last).outcome ≠ .raised ↔
      env.rejects (.batch .toc 0) (docChunk hash kbId task.docId last) = false := by
  have built : env.hasCanceled .tocBuilt = false := env.alive_earlier (by decide) alive
  have batch : env.hasCanceled (.batch .toc 0) = false := env.alive_earlier (by decide) alive
  have reported : env.hasCanceled (.reported .toc 0) = false :=
    env.alive_earlier (by decide) alive
  have mothers : (insertMotherChunks env .toc (createMotherChunks hash
      [docChunk hash kbId task.docId last])).outcome = .done :=
    @insertMotherChunks_done_of_alive _ _ .finished _
      (fun offset => .inl (show 8 < 10 by decide)) alive
  have main : insertMainChunks env .toc [docChunk hash kbId task.docId last] =
      insertBatch env .toc [docChunk hash kbId task.docId last] 0 := by
    rw [insertMainChunks, List.length_singleton, offsets_one]
    simp
  have single : ([docChunk hash kbId task.docId last].drop 0).take env.docBulkSize =
      [docChunk hash kbId task.docId last] := by
    rw [List.drop_zero, List.take_of_length_le]
    exact env.docBulkSize_pos
  have whole : (insertTocChunk env hash kbId task.docId last).outcome ≠ .raised ↔
      (insertBatch env .toc [docChunk hash kbId task.docId last] 0).outcome ≠ .raised := by
    rw [insertTocChunk, sequence_cons, stopIfCanceled_of_not_canceled built, pass_andThen,
      sequence_cons, runInsertChunks, main, andThen_assoc, andThen_done mothers]
    cases outcome : (insertBatch env .toc [docChunk hash kbId task.docId last] 0).outcome <;>
      simp [andThen, outcome]
  rw [whole]
  rcases @insertBatch_cases env .toc [docChunk hash kbId task.docId last] 0 with stores | breaks
  · have clean := stores.2.2.1
    rw [single] at clean
    rw [insertBatch_stored stores]
    simpa using clean
  · generalize insertBatch env .toc [docChunk hash kbId task.docId last] 0 = run at breaks
    cases breaks with
    | canceled flag =>
      rw [batch] at flag
      cases flag
    | interrupted _ late =>
      rw [reported] at late
      cases late
    | rejected _ errors =>
      rw [single] at errors
      simpa using errors
    | unknown _ clean missing =>
      rw [single] at clean
      simpa using clean

theorem tocPasses_iff (alive : env.hasCanceled .finished = false) :
    TocPasses env hash kbId task ↔ CountsInTime env hash kbId task := by
  rw [CountsInTime, and_iff_right alive]
  cases toc : task.toc with
  | none => simp [TocPasses, toc]
  | failed => simp [TocPasses, toc]
  | built last => simpa [TocPasses, toc] using insertToc_outcome alive last

theorem indexChunks_trace (chunks : List Chunk)
    (done : (runInsertChunks env hash .chunks chunks).outcome = .done)
    (alive : env.hasCanceled .inserted = false) :
    (indexChunks env hash kbId store task.docId chunks task.tokenCount [] task.toc).trace =
      (runInsertChunks env hash .chunks chunks).trace ++
        .incrementChunkNum task.docId task.tokenCount (distinctIds chunks) ::
          if (env.progress .indexed).outcome = .done then tocTrace env hash kbId task else [] := by
  have generated : env.hasCanceled .generated = false := env.alive_earlier (by decide) alive
  have guards : ∀ run : Run Event, (run.andThen (sequence
      [env.stopIfCanceled .finished, env.progress .ended])).trace = run.trace := by
    intro run
    apply andThen_trace_of_silent
    rw [sequence_cons, silent_andThen_trace (stopIfCanceled_trace _)]
    simp
  unfold indexChunks
  rw [sequence_cons, stopIfCanceled_of_not_canceled generated, pass_andThen,
    sequence_cons, andThen_done done, sequence_cons, stopIfCanceled_of_not_canceled alive,
    pass_andThen]
  simp only [cleanupEvents, List.map_nil, cleanedChunks, lt_irrefl, if_false, sequence_cons,
    perform_andThen, pass_andThen, List.nil_append, List.singleton_append]
  rw [silent_andThen_trace (progress_trace _)]
  simp only [sequence_cons] at guards
  rw [guards, tocTrace]
  cases task.toc <;> rfl

theorem runStandardChunking_trace (some : task.chunks hash kbId ≠ [])
    (done : (runInsertChunks env hash .chunks (task.chunks hash kbId)).outcome = .done)
    (generated : env.hasCanceled .generated = false) :
    (runStandardChunking env hash kbId task).trace =
      (runInsertChunks env hash .chunks (task.chunks hash kbId)).trace ++
        ((if (env.progress .indexed).outcome = .done then tocTrace env hash kbId task else []) ++
          if (env.progress .indexed).outcome = .done ∧ TocPasses env hash kbId task ∧
              env.hasCanceled .finished = false then
            [.incrementChunkNum task.docId task.tokenCount (distinctIds (task.chunks hash kbId))]
          else []) := by
  have last : ((env.stopIfCanceled .finished).andThen (sequence
      [perform [.incrementChunkNum task.docId task.tokenCount
        (distinctIds (task.chunks hash kbId))], env.progress .ended])).trace =
      if env.hasCanceled .finished = false then
        [.incrementChunkNum task.docId task.tokenCount (distinctIds (task.chunks hash kbId))]
      else [] := by
    rw [silent_andThen_trace (stopIfCanceled_trace _)]
    simp [stopIfCanceled_done_iff]
  unfold runStandardChunking
  dsimp only
  rw [if_neg some, sequence_cons, pass_andThen, sequence_cons,
    stopIfCanceled_of_not_canceled generated, pass_andThen, sequence_cons, andThen_done done,
    sequence_cons, silent_andThen_trace (progress_trace _)]
  dsimp only
  congr 1
  by_cases indexed : (env.progress .indexed).outcome = .done
  · simp only [indexed, if_true, true_and]
    rw [sequence_cons, sequence_cons]
    generalize (env.stopIfCanceled .finished).andThen (sequence
      [perform [.incrementChunkNum task.docId task.tokenCount
        (distinctIds (task.chunks hash kbId))], env.progress .ended]) = counting at last
    cases toc : task.toc with
    | none => simp [toc, tocTrace, TocPasses, last]
    | failed => simp [toc, tocTrace, TocPasses]
    | built final =>
      by_cases raised : (insertTocChunk env hash kbId task.docId final).outcome = .raised
      · simp [toc, tocTrace, TocPasses, called, raised]
      · simp [toc, tocTrace, TocPasses, called, raised, last]
  · simp [indexed]

theorem agree_inserted (some : task.chunks hash kbId ≠ [])
    (done : (runInsertChunks env hash .chunks (task.chunks hash kbId)).outcome = .done)
    (alive : env.hasCanceled .inserted = false) :
    Agree (indexChunks env hash kbId store task.docId (task.chunks hash kbId) task.tokenCount []
        task.toc).trace (runStandardChunking env hash kbId task).trace ↔
      CountsInTime env hash kbId task := by
  have generated : env.hasCanceled .generated = false := env.alive_earlier (by decide) alive
  rw [indexChunks_trace _ done alive, runStandardChunking_trace some done generated,
    agree_append_left, agree_late_count]
  constructor
  · rintro ⟨_, passes, finished⟩
    exact (tocPasses_iff finished).mp passes
  · intro inTime
    refine ⟨?_, (tocPasses_iff inTime.1).mpr inTime, inTime.1⟩
    have indexed : env.hasCanceled .indexed = false := env.alive_earlier (by decide) inTime.1
    rw [progress_of_not_canceled indexed, pass_outcome]

theorem agree_canceled (some : task.chunks hash kbId ≠ [])
    (canceled : env.hasCanceled .inserted = true) :
    (indexChunks env hash kbId store task.docId (task.chunks hash kbId) task.tokenCount []
      task.toc).trace = (runStandardChunking env hash kbId task).trace := by
  have finished : env.hasCanceled .finished = true := env.canceled_later (by decide) canceled
  have built : env.hasCanceled .tocBuilt = true := env.canceled_later (by decide) canceled
  have stops : ∀ moment, env.hasCanceled moment = true →
      (env.stopIfCanceled moment).outcome ≠ .done := by
    intro moment flag
    rw [Ne, stopIfCanceled_done_iff, flag]
    simp
  unfold indexChunks runStandardChunking
  dsimp only
  rw [if_neg some]
  by_cases generated : env.hasCanceled .generated = true
  · simp only [sequence_cons, pass_andThen, andThen_of_not_done (stops _ generated)]
  rw [Bool.not_eq_true] at generated
  by_cases done : (runInsertChunks env hash .chunks (task.chunks hash kbId)).outcome = .done
  · have silentToc : ∀ last, (insertTocChunk env hash kbId task.docId last).trace = [] := by
      intro last
      rw [insertTocChunk, sequence_cons, andThen_of_not_done (stops _ built),
        stopIfCanceled_trace]
    simp only [sequence_cons, pass_andThen, stopIfCanceled_of_not_canceled generated,
      andThen_done done, andThen_of_not_done (stops _ canceled), andThen_of_not_done
      (stops _ finished), stopIfCanceled_trace, List.append_nil]
    rw [silent_andThen_trace (progress_trace _)]
    cases task.toc with
    | none => simp
    | failed => simp
    | built last =>
      rw [andThen_trace_of_silent (stopIfCanceled_trace _), called_trace, silentToc]
      simp
  · simp only [sequence_cons, pass_andThen, stopIfCanceled_of_not_canceled generated,
      andThen_of_not_done done]

theorem agree_broken (some : task.chunks hash kbId ≠ [])
    (alive : env.hasCanceled .inserted = false)
    (broken : (runInsertChunks env hash .chunks (task.chunks hash kbId)).outcome ≠ .done) :
    (indexChunks env hash kbId store task.docId (task.chunks hash kbId) task.tokenCount []
      task.toc).trace = (runStandardChunking env hash kbId task).trace := by
  have generated : env.hasCanceled .generated = false := env.alive_earlier (by decide) alive
  unfold indexChunks runStandardChunking
  dsimp only
  rw [if_neg some]
  simp only [sequence_cons, pass_andThen, stopIfCanceled_of_not_canceled generated,
    andThen_of_not_done broken]

theorem agree_nil_iff {trace : List Event} (writes : ∀ event ∈ trace, event.isIncrement = false) :
    Agree [] trace ↔ trace = [] := by
  constructor
  · intro agree
    have same := agree.writes
    have all : trace.filter (fun event => !event.isIncrement) = trace :=
      List.filter_eq_self.mpr fun event member => by simp [writes event member]
    rw [all] at same
    exact same.symm
  · rintro rfl
    exact Agree.refl []

theorem finalCleanup_writes {docId : String} {init : Bool} :
    ∀ event ∈ finalCleanup env docId init, event.isIncrement = false := by
  intro event member
  rw [finalCleanup] at member
  split at member
  · rw [List.mem_singleton.mp member]
    rfl
  · cases member

theorem finalCleanup_eq_nil {docId : String} {init : Bool} :
    finalCleanup env docId init = [] ↔
      (env.hasCanceled .ended && (env.indexExisted || init)) = false := by
  rw [finalCleanup]
  split
  · next cleans => simp [cleans]
  · next kept => simpa using kept

theorem agree_idle {docId : String} {init : Bool} :
    Agree [] (finalCleanup env docId init) ↔
      (env.hasCanceled .ended && (env.indexExisted || init)) = false := by
  rw [agree_nil_iff finalCleanup_writes, finalCleanup_eq_nil]

theorem started_trace {next : Run Event} (canceled : env.hasCanceled .started = true) :
    ((env.stopIfCanceled .started).andThen next).trace = [] := by
  have stops : (env.stopIfCanceled .started).outcome ≠ .done := by
    rw [Ne, stopIfCanceled_done_iff, canceled]
    simp
  rw [andThen_of_not_done stops, stopIfCanceled_trace]

theorem prepare_not_done {readiness : Readiness} (early : readiness ≠ .ready) :
    prepare readiness = raise := by
  cases readiness with
  | ready => exact absurd rfl early
  | _ => rfl

theorem doHandleTask_idle (idle : env.hasCanceled .started = true ∨ task.readiness ≠ .ready ∨
    task.pieces = []) : (doHandleTask env hash kbId store (.standard task)).trace = [] := by
  rw [doHandleTask, sequence_cons]
  by_cases canceled : env.hasCanceled .started = true
  · exact started_trace canceled
  rw [stopIfCanceled_of_not_canceled (by simpa using canceled), pass_andThen, sequence_cons]
  by_cases early : task.readiness ≠ .ready
  · rw [prepare_not_done early, raise_andThen, raise_trace]
  · have ready := not_not.mp early
    have empty : task.chunks hash kbId = [] := by
      have none := idle.resolve_left canceled |>.resolve_left early
      rw [StandardTask.chunks, none, List.map_nil]
    rw [ready, empty]
    rfl

theorem handleTask_trace : (handleTask env hash kbId store (.standard task)).trace =
    (if env.hasCanceled .started = false ∧ task.readiness = .ready then
      (runStandardChunking env hash kbId task).trace else []) ++
      finalCleanup env task.docId (initialized env task.readiness) := by
  rw [handleTask, ensuring_trace, guarded_trace]

theorem standard_agree_iff : Agree (doHandleTask env hash kbId store (.standard task)).trace
      (handleTask env hash kbId store (.standard task)).trace ↔
    StandardAgrees env hash kbId task := by
  rw [handleTask_trace, StandardAgrees]
  by_cases canceled : env.hasCanceled .started = true
  · have ended : env.hasCanceled .ended = true := env.canceled_later (by decide) canceled
    rw [doHandleTask_idle (.inl canceled), if_neg (by simp [canceled]), List.nil_append,
      agree_idle, if_pos canceled]
    simp [ended, initialized, canceled]
  have alive : env.hasCanceled .started = false := by simpa using canceled
  rw [if_neg canceled]
  cases readiness : task.readiness with
  | unbound =>
    rw [doHandleTask_idle (.inr (.inl (by simp [readiness]))), if_neg (by simp), List.nil_append,
      agree_idle]
    simp [initialized]
  | failed =>
    rw [doHandleTask_idle (.inr (.inl (by simp [readiness]))), if_neg (by simp), List.nil_append,
      agree_idle]
    simp [initialized, alive]
  | ready =>
    rw [if_pos ⟨alive, rfl⟩]
    have init : initialized env .ready = true := by simp [initialized, alive]
    rw [init]
    by_cases empty : task.pieces = []
    · have none : task.chunks hash kbId = [] := by rw [StandardTask.chunks, empty, List.map_nil]
      have silent : (runStandardChunking env hash kbId task).trace = [] := by
        unfold runStandardChunking
        dsimp only
        rw [if_pos none]
        rfl
      rw [doHandleTask_idle (.inr (.inr empty)), silent, List.nil_append, agree_idle,
        if_pos empty]
      simp
    · have some : task.chunks hash kbId ≠ [] := fun none => empty (List.map_eq_nil_iff.mp none)
      have original : (doHandleTask env hash kbId store (.standard task)).trace =
          (indexChunks env hash kbId store task.docId (task.chunks hash kbId) task.tokenCount []
            task.toc).trace ++ finalCleanup env task.docId true := by
        rw [doHandleTask, sequence_cons, stopIfCanceled_of_not_canceled alive, pass_andThen,
          sequence_cons, readiness, if_neg some]
        simp [prepare]
      rw [original, agree_append_right, if_neg empty]
      by_cases stopped : env.hasCanceled .inserted = true
      · rw [agree_canceled some stopped]
        exact iff_of_true (Agree.refl _) fun here => by simp [stopped] at here
      have onTime : env.hasCanceled .inserted = false := by simpa using stopped
      have doneIff := @runInsertChunks_done_iff_of_alive env hash .chunks
        (task.chunks hash kbId) .inserted
        (fun offset => .inl (show 2 < 4 by decide)) onTime
      by_cases done : (runInsertChunks env hash .chunks (task.chunks hash kbId)).outcome = .done
      · rw [agree_inserted some done onTime]
        exact ⟨fun inTime _ _ => inTime, fun inTime => inTime onTime (doneIff.mp done)⟩
      · rw [agree_broken some onTime done]
        exact iff_of_true (Agree.refl _) fun _ stores => absurd (doneIff.mpr stores) done

end Standard

section Raptor

variable (env : Environment) (hash : String → String) (kbId : String) (store : List Chunk)
  (task : RaptorTask)

def RaptorAgrees : Prop :=
  if env.hasCanceled .started = true then env.indexExisted = false
  else match task.readiness with
    | .unbound => (env.hasCanceled .ended && env.indexExisted) = false
    | .failed => env.hasCanceled .ended = false
    | .ready =>
      env.hasCanceled .ended = false ∧ newSummaries hash kbId store task ≠ [] ∧
        (summaryInsertion env hash kbId store task).outcome ≠ .returned ∧
        ((summaryInsertion env hash kbId store task).outcome = .done →
          ((newSummaries hash kbId store task).map Chunk.id).Nodup)

variable {env hash kbId store task}

theorem indexChunks_raptor_trace (alive : env.hasCanceled .ended = false) :
    (indexChunks env hash kbId store task.referredDocId (newSummaries hash kbId store task)
      task.tokenCount (scheduledCleanup hash kbId store task) .none).trace =
    (summaryInsertion env hash kbId store task).trace ++
      if (summaryInsertion env hash kbId store task).outcome = .done then
        cleanupEvents (scheduledCleanup hash kbId store task) ++
          [.incrementChunkNum task.referredDocId task.tokenCount
            (distinctIds (newSummaries hash kbId store task))]
      else [] := by
  have before : ∀ moment : Moment, moment.Before .ended → env.hasCanceled moment = false :=
    fun moment order => env.alive_earlier order alive
  have quiet : ∀ moment : Moment, moment.Before .ended → env.progress moment = pass :=
    fun moment order => progress_of_not_canceled (before moment order)
  have passes : ∀ moment : Moment, moment.Before .ended → env.stopIfCanceled moment = pass :=
    fun moment order => stopIfCanceled_of_not_canceled (before moment order)
  unfold indexChunks
  dsimp only
  rw [passes .generated (by decide), passes .inserted (by decide), quiet .cleaned (by decide),
    quiet .indexed (by decide), passes .finished (by decide), quiet .ended (by decide)]
  simp only [ite_self, sequence_cons, sequence_nil, pass_andThen]
  rw [summaryInsertion]
  by_cases done : (runInsertChunks env hash .chunks (newSummaries hash kbId store task)).outcome =
      .done
  · rw [andThen_done done, if_pos done]
    simp
  · rw [andThen_of_not_done done, if_neg done, List.append_nil]

theorem runRaptor_trace_alive (alive : env.hasCanceled .ended = false)
    (some : newSummaries hash kbId store task ≠ []) :
    (runRaptor env hash kbId store task).trace =
      (summaryInsertion env hash kbId store task).trace ++
        if (summaryInsertion env hash kbId store task).outcome = .raised then []
        else cleanupEvents (scheduledCleanup hash kbId store task) ++
          [.incrementChunkNum task.referredDocId task.tokenCount
            (newSummaries hash kbId store task).length] := by
  have cleaned : env.hasCanceled .cleaned = false := env.alive_earlier (by decide) alive
  have passes : interrupted env hash kbId store task = false := by simp [interrupted, cleaned]
  rw [runRaptor_trace some, passes]
  simp

theorem agree_singleton {docId : String} {tokens first second : Nat} :
    Agree [.incrementChunkNum docId tokens first] [.incrementChunkNum docId tokens second] ↔
      first = second := by
  constructor
  · intro agree
    have same := List.singleton_perm_singleton.mp agree.increments
    simpa using same
  · rintro rfl
    exact Agree.refl _

theorem distinctIds_eq_length {chunks : List Chunk} :
    distinctIds chunks = chunks.length ↔ (chunks.map Chunk.id).Nodup := by
  rw [distinctIds, ← @List.length_map _ _ chunks Chunk.id]
  constructor
  · intro equal
    exact List.dedup_eq_self.mp ((List.dedup_sublist _).eq_of_length equal)
  · intro distinct
    rw [List.dedup_eq_self.mpr distinct]

theorem not_agree_count {first second : List Event} {docId : String} {tokens chunks : Nat}
    (writes : ∀ event ∈ first, event.isIncrement = false) :
    ¬Agree first (second ++ [.incrementChunkNum docId tokens chunks]) := by
  intro agree
  have counts := agree.increments.length_eq
  have none : first.filter Event.isIncrement = [] := by
    rw [List.filter_eq_nil_iff]
    exact fun event member => by simp [writes event member]
  rw [none, List.filter_append, List.length_append, List.filter_cons_of_pos rfl] at counts
  simp at counts

theorem Agree.symm {first second : List Event} (agree : Agree first second) :
    Agree second first :=
  ⟨agree.writes.symm, agree.increments.symm⟩

theorem agree_raptor_alive (alive : env.hasCanceled .ended = false) :
    Agree (indexChunks env hash kbId store task.referredDocId (newSummaries hash kbId store task)
        task.tokenCount (scheduledCleanup hash kbId store task) .none).trace
      (runRaptor env hash kbId store task).trace ↔
    newSummaries hash kbId store task ≠ [] ∧
      (summaryInsertion env hash kbId store task).outcome ≠ .returned ∧
      ((summaryInsertion env hash kbId store task).outcome = .done →
        ((newSummaries hash kbId store task).map Chunk.id).Nodup) := by
  rw [indexChunks_raptor_trace alive]
  by_cases none : newSummaries hash kbId store task = []
  · have passed : summaryInsertion env hash kbId store task = pass := by
      rw [summaryInsertion, none, runInsertChunks_nil]
    refine iff_of_false (fun agree => ?_) fun holds => holds.1 none
    rw [runRaptor_trace_nil none, passed, pass_trace, pass_outcome, if_pos rfl,
      List.nil_append] at agree
    exact not_agree_count (by simp) agree.symm
  rw [runRaptor_trace_alive alive none, agree_append_left, and_iff_right none]
  cases outcome : (summaryInsertion env hash kbId store task).outcome with
  | done =>
    rw [if_pos rfl, if_neg (by simp), agree_append_left, agree_singleton, distinctIds_eq_length]
    simp
  | raised =>
    rw [if_neg (by simp), if_pos rfl]
    exact iff_of_true (Agree.refl _) (by simp)
  | returned =>
    rw [if_neg (by simp), if_neg (by simp)]
    exact iff_of_false (not_agree_count (by simp)) (by simp)

theorem not_agree_deletions {first second : List Event} {firstDoc secondDoc : String}
    (differ : firstDoc ≠ secondDoc) :
    ¬Agree (first ++ [.deleteDoc firstDoc]) (second ++ [.deleteDoc secondDoc]) := by
  intro agree
  have writes := agree.writes
  rw [List.filter_append, List.filter_append] at writes
  have last := (List.append_inj' writes rfl).2
  exact differ (by simpa [Event.isIncrement] using last)

theorem referredDocId_ne_fake : task.referredDocId ≠ fakeDocId := by
  intro same
  obtain ⟨first, rest, split⟩ := List.exists_cons_of_ne_nil task.docIds_ne_nil
  rw [RaptorTask.referredDocId, split, List.headD_cons] at same
  exact task.docIds_real (by simp [split, same])

theorem raptor_agree_iff : Agree (doHandleTask env hash kbId store (.raptor task)).trace
      (handleTask env hash kbId store (.raptor task)).trace ↔
    RaptorAgrees env hash kbId store task := by
  have original : (doHandleTask env hash kbId store (.raptor task)).trace =
      (if env.hasCanceled .started = false ∧ task.readiness = .ready then
        (indexChunks env hash kbId store task.referredDocId (newSummaries hash kbId store task)
          task.tokenCount (scheduledCleanup hash kbId store task) .none).trace ++
          finalCleanup env task.referredDocId true else []) :=
    guarded_trace task.readiness _
  have refactored : (handleTask env hash kbId store (.raptor task)).trace =
      (if env.hasCanceled .started = false ∧ task.readiness = .ready then
        (runRaptor env hash kbId store task).trace else []) ++
        finalCleanup env fakeDocId (initialized env task.readiness) := by
    rw [handleTask, ensuring_trace, guarded_trace]
  rw [original, refactored, RaptorAgrees]
  by_cases canceled : env.hasCanceled .started = true
  · have ended : env.hasCanceled .ended = true := env.canceled_later (by decide) canceled
    rw [if_neg (by simp [canceled]), if_neg (by simp [canceled]), List.nil_append, agree_idle,
      if_pos canceled]
    simp [ended, initialized, canceled]
  have alive : env.hasCanceled .started = false := by simpa using canceled
  rw [if_neg canceled]
  cases readiness : task.readiness with
  | unbound =>
    rw [if_neg (by simp), if_neg (by simp), List.nil_append, agree_idle]
    simp [initialized]
  | failed =>
    rw [if_neg (by simp), if_neg (by simp), List.nil_append, agree_idle]
    simp [initialized, alive]
  | ready =>
    rw [if_pos ⟨alive, rfl⟩, if_pos ⟨alive, rfl⟩]
    cases ended : env.hasCanceled .ended with
    | true =>
      have deletes : ∀ docId, finalCleanup env docId true = [.deleteDoc docId] := by
        intro docId
        simp [finalCleanup, ended]
      have init : initialized env .ready = true := by simp [initialized, alive]
      rw [init, deletes, deletes]
      exact iff_of_false (not_agree_deletions referredDocId_ne_fake) fun holds => by
        cases holds.1
    | false =>
      have kept : ∀ docId init, finalCleanup env docId init = [] := by
        intro docId init
        simp [finalCleanup, ended]
      rw [kept, kept, List.append_nil, List.append_nil, agree_raptor_alive ended]
      simp

end Raptor

section Executors

variable {env : Environment} {hash : String → String} {kbId : String} {store : List Chunk}

/-- When both executors do the same for a task.  For the graph the original executor never cleans
up. -/
def ExecutorsAgree (env : Environment) (hash : String → String) (kbId : String)
    (store : List Chunk) : Task → Prop
  | .standard task => StandardAgrees env hash kbId task
  | .raptor task => RaptorAgrees env hash kbId store task
  | .graphrag task =>
    (env.hasCanceled .ended && (env.indexExisted || initialized env task.readiness)) = false

/-- The refactored executor has the writes of the original one, and their effect, exactly when
neither cleans up, stops or counts where the other does not. -/
theorem refines_iff (task : Task) :
    SameEffect kbId store (doHandleTask env hash kbId store task).trace
        (handleTask env hash kbId store task).trace ↔
      ExecutorsAgree env hash kbId store task := by
  have agree : SameEffect kbId store (doHandleTask env hash kbId store task).trace
        (handleTask env hash kbId store task).trace ↔
      Agree (doHandleTask env hash kbId store task).trace
        (handleTask env hash kbId store task).trace :=
    ⟨SameEffect.toAgree, Agree.sameEffect⟩
  rw [agree]
  cases task with
  | standard task => exact standard_agree_iff
  | raptor task => exact raptor_agree_iff
  | graphrag task =>
    rw [handleTask, ensuring_trace, ← List.append_nil (doHandleTask env hash kbId store _).trace]
    rw [doHandleTask, agree_append_left, agree_idle, ExecutorsAgree]

/-- A task of one page that nobody counts twice. -/
def countedTask : StandardTask where
  docId := "document"
  readiness := .ready
  pieces := [⟨"text", ""⟩]
  tokenCount := 1
  toc := .none

/-- Cancelled between its insertion and its end, a standard task is counted by the original
executor only; cancelled, a RAPTOR task takes the chunks of different documents along. -/
theorem not_refines :
    (¬SameEffect "kb" [] (doHandleTask (.canceledFrom .indexed) id "kb" []
        (.standard countedTask)).trace
      (handleTask (.canceledFrom .indexed) id "kb" [] (.standard countedTask)).trace) ∧
    ¬SameEffect "kb" datasetStore (doHandleTask (.canceledFrom .indexed) id "kb" datasetStore
        (.raptor datasetTask)).trace
      (handleTask (.canceledFrom .indexed) id "kb" datasetStore (.raptor datasetTask)).trace := by
  constructor
  · intro same
    exact absurd (same.counted_eq "document") (by decide)
  · intro same
    exact absurd same.store_eq (by decide)

end Executors

end RagFlow.Executor
