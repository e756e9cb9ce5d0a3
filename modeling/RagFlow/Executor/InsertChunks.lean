import RagFlow.Lib.Procedure
import RagFlow.Executor.Store
import Mathlib.Data.List.Range
import Mathlib.Data.Nat.ModEq

/-!
# Inserting chunks

`insert_chunks` puts the parent chunks into the store, then the chunks themselves, in batches. 
After each batch it looks whether the task was cancelled, takes RAPTOR summaries back if so, and
else records the ids of all chunks so far on the row of the task.
-/

namespace RagFlow.Executor

open Lib.Procedure
open Lib.Procedure.Run

inductive Round
  | chunks
  | toc
deriving DecidableEq, Repr

/-- The points of a task at which it looks outside: whether it was cancelled, whether its row is
still there, what the store answers. -/
inductive Moment
  | started
  | generated
  | mothers (round : Round) (offset : Nat)
  | batch (round : Round) (offset : Nat)
  | reported (round : Round) (offset : Nat)
  | inserted
  | cleaned
  | indexed
  | tocBuilt
  | finished
  | ended
deriving DecidableEq, Repr

def Moment.rank : Moment → Nat × Nat
  | .started => (0, 0)
  | .generated => (1, 0)
  | .mothers .chunks offset => (2, offset)
  | .batch .chunks offset => (3, 2 * offset)
  | .reported .chunks offset => (3, 2 * offset + 1)
  | .inserted => (4, 0)
  | .cleaned => (5, 0)
  | .indexed => (6, 0)
  | .tocBuilt => (7, 0)
  | .mothers .toc offset => (8, offset)
  | .batch .toc offset => (9, 2 * offset)
  | .reported .toc offset => (9, 2 * offset + 1)
  | .finished => (10, 0)
  | .ended => (11, 0)

def Moment.Before (earlier later : Moment) : Prop :=
  earlier.rank.1 < later.rank.1 ∨
    (earlier.rank.1 = later.rank.1 ∧ earlier.rank.2 ≤ later.rank.2)

instance (earlier later : Moment) : Decidable (earlier.Before later) :=
  inferInstanceAs (Decidable (_ ∨ _))

/-- What happens around a task while it runs.  A cancelled task stays cancelled. -/
structure Environment where
  docBulkSize : Nat
  docBulkSize_pos : 0 < docBulkSize
  /-- Whether the index of the tenant was there before the task. -/
  indexExisted : Bool
  hasCanceled : Moment → Bool
  canceled_later : ∀ {earlier later}, earlier.Before later → hasCanceled earlier = true →
    hasCanceled later = true
  /-- Whether the row of the task is in the database.  A deleted row does not come back. -/
  rowExists : Moment → Bool
  row_earlier : ∀ {earlier later}, earlier.Before later → rowExists later = true →
    rowExists earlier = true
  /-- Whether the ids of the chunks could be written to the row. -/
  idsWritten : Moment → Bool
  row_missing : ∀ {moment}, idsWritten moment = false → rowExists moment = false
  /-- The chunks of a bulk request that the store does not accept. -/
  rejects : Moment → Chunk → Bool

theorem Moment.Before.trans {first second third : Moment} (one : first.Before second)
    (two : second.Before third) : first.Before third := by
  unfold Moment.Before at *
  omega

theorem Moment.before_ended (moment : Moment) : moment.Before .ended := by
  cases moment with
  | mothers round offset => cases round <;> exact .inl (by simp [Moment.rank])
  | batch round offset => cases round <;> exact .inl (by simp [Moment.rank])
  | reported round offset => cases round <;> exact .inl (by simp [Moment.rank])
  | _ => decide

def Environment.canceledFrom (start : Moment) : Environment where
  docBulkSize := 4
  docBulkSize_pos := by decide
  indexExisted := true
  hasCanceled moment := decide (start.Before moment)
  canceled_later before canceled :=
    decide_eq_true ((of_decide_eq_true canceled).trans before)
  rowExists _ := true
  row_earlier _ _ := rfl
  idsWritten _ := true
  row_missing := by simp
  rejects _ _ := false

/-- A task with a working store that is never cancelled. -/
def Environment.quiet : Environment where
  docBulkSize := 4
  docBulkSize_pos := by decide
  indexExisted := true
  hasCanceled _ := false
  canceled_later _ := id
  rowExists _ := true
  row_earlier _ _ := rfl
  idsWritten _ := true
  row_missing := by simp
  rejects _ _ := false

variable (env : Environment) (hash : String → String)

/-- `progress_callback`, which raises `TaskCanceledException` once the progress is written. -/
def Environment.progress (moment : Moment) : Run Event :=
  if env.hasCanceled moment && env.rowExists moment then raise else pass

/-- `if has_canceled(task_id): progress_callback(-1, …); return`. -/
def Environment.stopIfCanceled (moment : Moment) : Run Event :=
  if env.hasCanceled moment then (env.progress moment).andThen stop else pass

def Environment.accepted (moment : Moment) (chunks : List Chunk) : List Chunk :=
  chunks.filter fun chunk => !env.rejects moment chunk

/-- `range(0, length, DOC_BULK_SIZE)`. -/
def Environment.offsets (length : Nat) : List Nat :=
  List.range' 0 ((length + env.docBulkSize - 1) / env.docBulkSize) env.docBulkSize

def motherChunk (chunk : Chunk) : Chunk :=
  { chunk with id := hash chunk.mom, content := chunk.mom, mom := "", raptorMethod := none }

def addMotherChunk (mothers : List Chunk) (chunk : Chunk) : List Chunk :=
  if chunk.mom = "" then mothers
  else if hash chunk.mom ∈ mothers.map Chunk.id then mothers
  else mothers ++ [motherChunk hash chunk]

def createMotherChunks (chunks : List Chunk) : List Chunk :=
  chunks.foldl (addMotherChunk hash) []

def insertMotherBatch (round : Round) (mothers : List Chunk) (offset : Nat) : Run Event :=
  let batch := (mothers.drop offset).take env.docBulkSize
  -- the answer of the store to parent chunks is not looked at
  sequence [perform [.insert batch (env.accepted (.mothers round offset) batch)],
    env.stopIfCanceled (.mothers round offset)]

def insertMotherChunks (round : Round) (mothers : List Chunk) : Run Event :=
  sequence ((env.offsets mothers.length).map (insertMotherBatch env round mothers))

def raptorIds (chunks : List Chunk) : List String :=
  (chunks.filter fun chunk => chunk.raptorMethod.isSome).map Chunk.id

def rollbackRaptorChunks (chunks : List Chunk) : List Event :=
  if raptorIds chunks = [] then [] else [.deleteIds (raptorIds chunks)]

def insertBatch (round : Round) (chunks : List Chunk) (offset : Nat) : Run Event :=
  let batch := (chunks.drop offset).take env.docBulkSize
  let upTo := chunks.take (offset + env.docBulkSize)
  let moment := Moment.batch round offset
  sequence [
    perform [.insert batch (env.accepted moment batch)],
    if env.hasCanceled moment then
      (perform (rollbackRaptorChunks upTo)).andThen (env.stopIfCanceled moment)
    else pass,
    if offset % 128 = 0 then env.progress (.reported round offset) else pass,
    if batch.any (env.rejects moment) then raise else pass,
    if env.idsWritten moment then perform [.updateChunkIds (upTo.map Chunk.id)]
    else sequence [perform [.deleteIds (upTo.map Chunk.id)],
      env.progress (.reported round offset), stop]]

def insertMainChunks (round : Round) (chunks : List Chunk) : Run Event :=
  sequence ((env.offsets chunks.length).map (insertBatch env round chunks))

/-- `insert_chunks`: true is a run that is done, false one that returned. -/
def runInsertChunks (round : Round) (chunks : List Chunk) : Run Event :=
  (insertMotherChunks env round (createMotherChunks hash chunks)).andThen
    (insertMainChunks env round chunks)

variable {env hash} {round : Round} {chunks : List Chunk}

theorem Environment.alive_earlier {earlier later : Moment} (order : earlier.Before later)
    (alive : env.hasCanceled later = false) : env.hasCanceled earlier = false := by
  by_contra canceled
  rw [env.canceled_later order (by simpa using canceled)] at alive
  cases alive

section Mothers

private theorem mem_id_foldl_mothers (id : String) (mothers : List Chunk) :
    id ∈ (chunks.foldl (addMotherChunk hash) mothers).map Chunk.id ↔
      id ∈ mothers.map Chunk.id ∨ ∃ chunk ∈ chunks, chunk.momId hash = some id := by
  induction chunks generalizing mothers with
  | nil => simp
  | cons chunk chunks ih =>
    rw [List.foldl_cons, ih, List.exists_mem_cons_iff, ← or_assoc]
    apply or_congr_left
    by_cases childless : chunk.mom = ""
    · simp [addMotherChunk, childless, Chunk.momId]
    · rw [addMotherChunk, if_neg childless, Chunk.momId, if_neg childless, Option.some.injEq]
      by_cases known : hash chunk.mom ∈ mothers.map Chunk.id
      · rw [if_pos known]
        exact ⟨Or.inl, fun either => either.elim (fun old => old) fun same => same ▸ known⟩
      · simp [known, motherChunk, eq_comm]

theorem mem_id_createMotherChunks {id : String} :
    id ∈ (createMotherChunks hash chunks).map Chunk.id ↔
      ∃ chunk ∈ chunks, chunk.momId hash = some id := by
  rw [createMotherChunks, mem_id_foldl_mothers]
  simp

private theorem mem_foldl_mothers {mother : Chunk} (mothers : List Chunk)
    (member : mother ∈ chunks.foldl (addMotherChunk hash) mothers) :
    mother ∈ mothers ∨ ∃ chunk ∈ chunks, mother = motherChunk hash chunk := by
  induction chunks generalizing mothers with
  | nil => exact .inl member
  | cons chunk chunks ih =>
    rcases ih _ member with earlier | ⟨child, later, rfl⟩
    · rw [addMotherChunk] at earlier
      split at earlier
      · exact .inl earlier
      · split at earlier
        · exact .inl earlier
        · rcases List.mem_append.mp earlier with old | new
          · exact .inl old
          · exact .inr ⟨chunk, List.mem_cons_self, List.mem_singleton.mp new⟩
    · exact .inr ⟨child, List.mem_cons_of_mem chunk later, rfl⟩

theorem mem_createMotherChunks {mother : Chunk}
    (member : mother ∈ createMotherChunks hash chunks) :
    ∃ chunk ∈ chunks, mother = motherChunk hash chunk := by
  rcases mem_foldl_mothers [] member with none | made
  · cases none
  · exact made

theorem createMotherChunks_eq_nil (childless : ∀ chunk ∈ chunks, chunk.mom = "") :
    createMotherChunks hash chunks = [] := by
  apply List.eq_nil_iff_forall_not_mem.mpr
  intro mother member
  have named : mother.id ∈ (createMotherChunks hash chunks).map Chunk.id :=
    List.mem_map_of_mem member
  obtain ⟨chunk, inChunks, names⟩ := mem_id_createMotherChunks.mp named
  rw [Chunk.momId, if_pos (childless chunk inChunks)] at names
  cases names

end Mothers

section Batches

theorem mem_offsets {length offset : Nat} (member : offset ∈ env.offsets length) :
    offset < length := by
  obtain ⟨index, inRange, rfl⟩ := List.mem_range'.mp member
  have enough := (Nat.lt_div_iff_mul_lt env.docBulkSize_pos).mp inRange
  rw [Nat.zero_add]
  have scaled : env.docBulkSize * index = index * env.docBulkSize := Nat.mul_comm _ _
  omega

theorem flatMap_batches {α : Type} (bulk : Nat) (items : List α) (count start : Nat)
    (enough : items.length ≤ start + count * bulk) :
    (List.range' start count bulk).flatMap (fun offset => (items.drop offset).take bulk) =
      items.drop start := by
  induction count generalizing start with
  | zero =>
    have past : items.length ≤ start := by simpa using enough
    rw [List.range'_zero, List.flatMap_nil, List.drop_eq_nil_of_le past]
  | succ count ih =>
    have rest : items.length ≤ start + bulk + count * bulk := by
      rw [Nat.succ_mul] at enough
      omega
    rw [List.range'_succ, List.flatMap_cons, ih _ rest, ← List.drop_drop,
      List.take_append_drop]

theorem flatMap_offsets {α : Type} (items : List α) :
    (env.offsets items.length).flatMap (fun offset => (items.drop offset).take env.docBulkSize) =
      items := by
  have positive := env.docBulkSize_pos
  have enough : items.length ≤
      0 + (items.length + env.docBulkSize - 1) / env.docBulkSize * env.docBulkSize := by
    have rounded := Nat.div_add_mod (items.length + env.docBulkSize - 1) env.docBulkSize
    have remainder := Nat.mod_lt (items.length + env.docBulkSize - 1) positive
    rw [Nat.mul_comm] at rounded
    omega
  rw [Environment.offsets, flatMap_batches _ _ _ _ enough, List.drop_zero]

theorem offsets_one : env.offsets 1 = [0] := by
  have positive := env.docBulkSize_pos
  rw [Environment.offsets, Nat.add_comm, Nat.add_sub_cancel, Nat.div_self positive]
  rfl

theorem offsets_zero : env.offsets 0 = [] := by
  have small : 0 + env.docBulkSize - 1 < env.docBulkSize := by
    have positive := env.docBulkSize_pos
    omega
  rw [Environment.offsets, Nat.div_eq_of_lt small, List.range'_zero]

theorem offsets_last {length : Nat} (positive : 0 < length) :
    ∃ before last, env.offsets length = before ++ [last] ∧ length ≤ last + env.docBulkSize := by
  have bulk := env.docBulkSize_pos
  obtain ⟨count, isSucc⟩ : ∃ count,
      (length + env.docBulkSize - 1) / env.docBulkSize = count + 1 := by
    apply Nat.exists_eq_add_one.mpr
    exact Nat.div_pos (by omega) bulk
  refine ⟨List.range' 0 count env.docBulkSize, env.docBulkSize * count, ?_, ?_⟩
  · rw [Environment.offsets, isSucc, List.range'_concat, Nat.zero_add]
  · have rounded := Nat.div_add_mod (length + env.docBulkSize - 1) env.docBulkSize
    have remainder := Nat.mod_lt (length + env.docBulkSize - 1) bulk
    rw [isSucc, Nat.mul_succ] at rounded
    omega

end Batches

section Ends

@[simp] theorem progress_trace (moment : Moment) : (env.progress moment).trace = [] := by
  rw [Environment.progress]
  split <;> rfl

theorem progress_done_iff {moment : Moment} : (env.progress moment).outcome = .done ↔
    (env.hasCanceled moment && env.rowExists moment) = false := by
  rw [Environment.progress]
  split
  · next raises => simp [raises]
  · next quiet => simpa using quiet

theorem progress_of_not_canceled {moment : Moment} (alive : env.hasCanceled moment = false) :
    env.progress moment = pass := by
  simp [Environment.progress, alive]

@[simp] theorem stopIfCanceled_trace (moment : Moment) :
    (env.stopIfCanceled moment).trace = [] := by
  rw [Environment.stopIfCanceled]
  split
  · rw [Environment.progress]
    split <;> rfl
  · rfl

theorem stopIfCanceled_of_not_canceled {moment : Moment}
    (alive : env.hasCanceled moment = false) : env.stopIfCanceled moment = pass := by
  simp [Environment.stopIfCanceled, alive]

theorem stopIfCanceled_done_iff {moment : Moment} :
    (env.stopIfCanceled moment).outcome = .done ↔ env.hasCanceled moment = false := by
  cases canceled : env.hasCanceled moment with
  | false => simp [stopIfCanceled_of_not_canceled canceled]
  | true => simp [Environment.stopIfCanceled, canceled]

@[simp] theorem insertMotherBatch_trace (mothers : List Chunk) (offset : Nat) :
    (insertMotherBatch env round mothers offset).trace =
      [.insert ((mothers.drop offset).take env.docBulkSize)
        (env.accepted (.mothers round offset) ((mothers.drop offset).take env.docBulkSize))] := by
  simp [insertMotherBatch]

theorem insertMotherBatch_done_iff {mothers : List Chunk} {offset : Nat} :
    (insertMotherBatch env round mothers offset).outcome = .done ↔
      env.hasCanceled (.mothers round offset) = false := by
  simp [insertMotherBatch, stopIfCanceled_done_iff]

theorem accepted_eq_self {moment : Moment} {batch : List Chunk}
    (clean : batch.any (env.rejects moment) = false) : env.accepted moment batch = batch := by
  rw [Environment.accepted, List.filter_eq_self]
  intro chunk inBatch
  rw [List.any_eq_false] at clean
  simpa using clean chunk inBatch

theorem accepted_subset {moment : Moment} {batch : List Chunk} :
    env.accepted moment batch ⊆ batch :=
  List.filter_subset_self batch

def storedBatch (env : Environment) (chunks : List Chunk) (offset : Nat) : List Event :=
  [.insert ((chunks.drop offset).take env.docBulkSize)
      ((chunks.drop offset).take env.docBulkSize),
    .updateChunkIds ((chunks.take (offset + env.docBulkSize)).map Chunk.id)]

/-- Nothing stops the batch: the task is not cancelled, the store takes all chunks and the row
takes their ids. -/
def Environment.Stores (env : Environment) (round : Round) (chunks : List Chunk)
    (offset : Nat) : Prop :=
  env.hasCanceled (.batch round offset) = false ∧
    (offset % 128 = 0 → (env.progress (.reported round offset)).outcome = .done) ∧
    ((chunks.drop offset).take env.docBulkSize).any (env.rejects (.batch round offset)) = false ∧
    env.idsWritten (.batch round offset) = true

theorem insertBatch_stored {offset : Nat} (stores : env.Stores round chunks offset) :
    insertBatch env round chunks offset = ⟨storedBatch env chunks offset, .done⟩ := by
  obtain ⟨alive, quiet, clean, written⟩ := stores
  have report : (if offset % 128 = 0 then env.progress (.reported round offset) else pass) =
      pass := by
    split
    · next due =>
        have done := quiet due
        rw [progress_done_iff] at done
        simp [Environment.progress, done]
    · rfl
  simp [insertBatch, alive, report, clean, written, accepted_eq_self clean, storedBatch]

/-- The ways a batch breaks off. -/
inductive BreaksOff (env : Environment) (round : Round) (chunks : List Chunk) (offset : Nat) :
    Run Event → Prop
  /-- The task was cancelled: its summaries are taken back. -/
  | canceled (flag : env.hasCanceled (.batch round offset) = true) :
      BreaksOff env round chunks offset
        ⟨.insert ((chunks.drop offset).take env.docBulkSize)
            (env.accepted (.batch round offset) ((chunks.drop offset).take env.docBulkSize)) ::
          rollbackRaptorChunks (chunks.take (offset + env.docBulkSize)),
        if env.rowExists (.batch round offset) = true then .raised else .returned⟩
  /-- The task was cancelled while it reported its progress. -/
  | interrupted (alive : env.hasCanceled (.batch round offset) = false)
      (late : env.hasCanceled (.reported round offset) = true) :
      BreaksOff env round chunks offset
        ⟨[.insert ((chunks.drop offset).take env.docBulkSize)
            (env.accepted (.batch round offset) ((chunks.drop offset).take env.docBulkSize))],
        .raised⟩
  /-- The store did not take all chunks. -/
  | rejected (alive : env.hasCanceled (.batch round offset) = false)
      (errors : ((chunks.drop offset).take env.docBulkSize).any
        (env.rejects (.batch round offset)) = true) :
      BreaksOff env round chunks offset
        ⟨[.insert ((chunks.drop offset).take env.docBulkSize)
            (env.accepted (.batch round offset) ((chunks.drop offset).take env.docBulkSize))],
        .raised⟩
  /-- The row of the task is unknown: what was inserted is deleted. -/
  | unknown (alive : env.hasCanceled (.batch round offset) = false)
      (clean : ((chunks.drop offset).take env.docBulkSize).any
        (env.rejects (.batch round offset)) = false)
      (missing : env.idsWritten (.batch round offset) = false) :
      BreaksOff env round chunks offset
        ⟨[.insert ((chunks.drop offset).take env.docBulkSize)
            ((chunks.drop offset).take env.docBulkSize),
          .deleteIds ((chunks.take (offset + env.docBulkSize)).map Chunk.id)], .returned⟩

theorem insertBatch_cases (offset : Nat) :
    env.Stores round chunks offset ∨
      BreaksOff env round chunks offset (insertBatch env round chunks offset) := by
  by_cases canceled : env.hasCanceled (.batch round offset) = true
  · right
    have made : insertBatch env round chunks offset =
        ⟨.insert ((chunks.drop offset).take env.docBulkSize)
            (env.accepted (.batch round offset) ((chunks.drop offset).take env.docBulkSize)) ::
          rollbackRaptorChunks (chunks.take (offset + env.docBulkSize)),
        if env.rowExists (.batch round offset) = true then .raised else .returned⟩ := by
      cases row : env.rowExists (.batch round offset) <;>
        simp [insertBatch, Environment.stopIfCanceled, Environment.progress, canceled, row]
    rw [made]
    exact .canceled canceled
  have alive : env.hasCanceled (.batch round offset) = false := by simpa using canceled
  by_cases late : offset % 128 = 0 ∧ (env.progress (.reported round offset)).outcome ≠ .done
  · right
    obtain ⟨due, raises⟩ := late
    rw [Ne, progress_done_iff, Bool.not_eq_false] at raises
    have made : insertBatch env round chunks offset =
        ⟨[.insert ((chunks.drop offset).take env.docBulkSize)
            (env.accepted (.batch round offset) ((chunks.drop offset).take env.docBulkSize))],
        .raised⟩ := by
      simp only [insertBatch, alive, due, Environment.progress, raises, if_true, sequence_cons,
        perform_andThen]
      simp
    rw [made]
    rw [Bool.and_eq_true] at raises
    exact .interrupted alive raises.1
  have quiet : offset % 128 = 0 → (env.progress (.reported round offset)).outcome = .done :=
    fun due => not_not.mp fun raises => late ⟨due, raises⟩
  have report : (if offset % 128 = 0 then env.progress (.reported round offset) else pass) =
      pass := by
    split
    · next due =>
        have done := quiet due
        rw [progress_done_iff] at done
        simp [Environment.progress, done]
    · rfl
  by_cases errors : ((chunks.drop offset).take env.docBulkSize).any
      (env.rejects (.batch round offset)) = true
  · right
    have made : insertBatch env round chunks offset =
        ⟨[.insert ((chunks.drop offset).take env.docBulkSize)
            (env.accepted (.batch round offset) ((chunks.drop offset).take env.docBulkSize))],
        .raised⟩ := by
      simp [insertBatch, alive, report, errors]
    rw [made]
    exact .rejected alive errors
  have clean := Bool.not_eq_true _ ▸ errors
  by_cases written : env.idsWritten (.batch round offset) = true
  · exact .inl ⟨alive, quiet, clean, written⟩
  · right
    have missing : env.idsWritten (.batch round offset) = false := by simpa using written
    have gone : env.rowExists (.reported round offset) = false := by
      by_contra exist
      have order : (Moment.batch round offset).Before (.reported round offset) := by
        cases round <;> exact .inr ⟨rfl, Nat.le_succ _⟩
      have earlier := env.row_earlier order (by simpa using exist)
      rw [env.row_missing missing] at earlier
      cases earlier
    have made : insertBatch env round chunks offset =
        ⟨[.insert ((chunks.drop offset).take env.docBulkSize)
            ((chunks.drop offset).take env.docBulkSize),
          .deleteIds ((chunks.take (offset + env.docBulkSize)).map Chunk.id)], .returned⟩ := by
      have silent : env.progress (.reported round offset) = pass := by
        simp [Environment.progress, gone]
      simp [insertBatch, alive, clean, missing, accepted_eq_self clean, silent]
    rw [made]
    exact .unknown alive clean missing

theorem insertBatch_done_iff {offset : Nat} :
    (insertBatch env round chunks offset).outcome = .done ↔ env.Stores round chunks offset := by
  constructor
  · intro done
    rcases @insertBatch_cases env round chunks offset with
      stores | broken
    · exact stores
    · generalize insertBatch env round chunks offset = run at broken done
      cases broken with
      | canceled flag => split at done <;> cases done
      | interrupted alive late => cases done
      | rejected alive errors => cases done
      | unknown alive clean missing => cases done
  · intro stores
    rw [insertBatch_stored stores]

def motherInserts (env : Environment) (round : Round) (mothers : List Chunk) : List Event :=
  (env.offsets mothers.length).map fun offset =>
    .insert ((mothers.drop offset).take env.docBulkSize)
      (env.accepted (.mothers round offset) ((mothers.drop offset).take env.docBulkSize))

theorem insertMotherChunks_done_iff {mothers : List Chunk} :
    (insertMotherChunks env round mothers).outcome = .done ↔
      ∀ offset ∈ env.offsets mothers.length, env.hasCanceled (.mothers round offset) = false := by
  rw [insertMotherChunks, sequence_done_iff, List.forall_mem_map]
  exact forall₂_congr fun offset _ => insertMotherBatch_done_iff

theorem insertMotherChunks_trace {mothers : List Chunk}
    (done : (insertMotherChunks env round mothers).outcome = .done) :
    (insertMotherChunks env round mothers).trace = motherInserts env round mothers := by
  rw [insertMotherChunks, sequence_done_iff] at done
  rw [insertMotherChunks, sequence_trace_of_done done, List.flatMap_map, motherInserts]
  simp only [insertMotherBatch_trace]
  exact List.map_eq_flatMap.symm

def storedBatches (env : Environment) (chunks : List Chunk) (offsets : List Nat) : List Event :=
  offsets.flatMap (storedBatch env chunks)

theorem insertMainChunks_done_iff : (insertMainChunks env round chunks).outcome = .done ↔
    ∀ offset ∈ env.offsets chunks.length, env.Stores round chunks offset := by
  rw [insertMainChunks, sequence_done_iff, List.forall_mem_map]
  exact forall₂_congr fun offset _ => insertBatch_done_iff

private theorem flatMap_stored {offsets : List Nat}
    (stores : ∀ offset ∈ offsets, env.Stores round chunks offset) :
    (offsets.map (insertBatch env round chunks)).flatMap Run.trace =
      storedBatches env chunks offsets := by
  rw [List.flatMap_map, storedBatches]
  apply List.flatMap_congr
  intro offset member
  rw [insertBatch_stored (stores offset member)]

theorem insertMainChunks_trace
    (stores : ∀ offset ∈ env.offsets chunks.length, env.Stores round chunks offset) :
    (insertMainChunks env round chunks).trace =
      storedBatches env chunks (env.offsets chunks.length) := by
  have done := insertMainChunks_done_iff.mpr stores
  rw [insertMainChunks, sequence_done_iff] at done
  rw [insertMainChunks, sequence_trace_of_done done, flatMap_stored stores]

theorem insertMainChunks_breaks_off
    (broken : (insertMainChunks env round chunks).outcome ≠ .done) :
    ∃ before offset after run, env.offsets chunks.length = before ++ offset :: after ∧
      (∀ earlier ∈ before, env.Stores round chunks earlier) ∧
      BreaksOff env round chunks offset run ∧
      insertMainChunks env round chunks =
        ⟨storedBatches env chunks before ++ run.trace, run.outcome⟩ := by
  obtain ⟨before, run, after, split, all, stops, outcome, trace⟩ := sequence_breaks_off broken
  obtain ⟨earlier, rest, offsets, rfl, later⟩ := List.map_eq_append_iff.mp split
  obtain ⟨offset, last, rfl, rfl, rfl⟩ := List.map_eq_cons_iff.mp later
  have stores : ∀ early ∈ earlier, env.Stores round chunks early := fun early member =>
    insertBatch_done_iff.mp (all _ (List.mem_map_of_mem member))
  refine ⟨earlier, offset, last, insertBatch env round chunks offset, offsets, stores, ?_, ?_⟩
  · rcases @insertBatch_cases env round chunks offset with
      here | breaks
    · exact absurd (insertBatch_done_iff.mpr here) stops
    · exact breaks
  · rw [flatMap_stored stores] at trace
    rw [insertMainChunks, ← trace, ← outcome]

theorem runInsertChunks_done_iff : (runInsertChunks env hash round chunks).outcome = .done ↔
    (∀ offset ∈ env.offsets (createMotherChunks hash chunks).length,
      env.hasCanceled (.mothers round offset) = false) ∧
    ∀ offset ∈ env.offsets chunks.length, env.Stores round chunks offset := by
  rw [runInsertChunks, andThen_outcome_done, insertMotherChunks_done_iff,
    insertMainChunks_done_iff]

theorem runInsertChunks_trace (done : (runInsertChunks env hash round chunks).outcome = .done) :
    (runInsertChunks env hash round chunks).trace =
      motherInserts env round (createMotherChunks hash chunks) ++
        storedBatches env chunks (env.offsets chunks.length) := by
  rw [runInsertChunks, andThen_outcome_done] at done
  rw [runInsertChunks, andThen_done done.1, insertMotherChunks_trace done.1,
    insertMainChunks_trace (insertMainChunks_done_iff.mp done.2)]

theorem runInsertChunks_of_childless (childless : ∀ chunk ∈ chunks, chunk.mom = "") :
    runInsertChunks env hash round chunks = insertMainChunks env round chunks := by
  rw [runInsertChunks, createMotherChunks_eq_nil childless, insertMotherChunks, List.length_nil,
    offsets_zero, List.map_nil, sequence_nil, pass_andThen]

theorem insertMotherChunks_done_of_alive {later : Moment} {mothers : List Chunk}
    (order : ∀ offset, (Moment.mothers round offset).Before later)
    (alive : env.hasCanceled later = false) :
    (insertMotherChunks env round mothers).outcome = .done :=
  insertMotherChunks_done_iff.mpr fun offset _ => env.alive_earlier (order offset) alive

theorem runInsertChunks_done_iff_of_alive {later : Moment}
    (order : ∀ offset, (Moment.mothers round offset).Before later)
    (alive : env.hasCanceled later = false) :
    (runInsertChunks env hash round chunks).outcome = .done ↔
      ∀ offset ∈ env.offsets chunks.length, env.Stores round chunks offset := by
  rw [runInsertChunks_done_iff]
  exact and_iff_right fun offset _ => env.alive_earlier (order offset) alive

theorem runInsertChunks_nil : runInsertChunks env hash round [] = pass := by
  rw [runInsertChunks_of_childless (by simp), insertMainChunks, List.length_nil, offsets_zero,
    List.map_nil, sequence_nil]

end Ends

section Touches

def Event.Within (ids : List String) : Event → Prop
  | .insert requested accepted => (requested.map Chunk.id ⊆ ids) ∧ accepted ⊆ requested
  | .deleteIds deleted => deleted ⊆ ids
  | .updateChunkIds recorded => recorded ⊆ ids
  | _ => False

def writtenIds (hash : String → String) (chunks : List Chunk) : List String :=
  (createMotherChunks hash chunks).map Chunk.id ++ chunks.map Chunk.id

theorem mem_writtenIds {id : String} : id ∈ writtenIds hash chunks ↔
    (∃ chunk ∈ chunks, chunk.momId hash = some id) ∨ id ∈ chunks.map Chunk.id := by
  rw [writtenIds, List.mem_append, mem_id_createMotherChunks]

private theorem map_id_batch_subset (offset : Nat) :
    ((chunks.drop offset).take env.docBulkSize).map Chunk.id ⊆ chunks.map Chunk.id :=
  List.map_subset _ fun _ member => List.drop_subset _ _ (List.take_subset _ _ member)

private theorem map_id_upTo_subset (offset : Nat) :
    (chunks.take offset).map Chunk.id ⊆ chunks.map Chunk.id :=
  List.map_subset _ (List.take_subset _ _)

theorem raptorIds_subset (offset : Nat) :
    raptorIds (chunks.take offset) ⊆ chunks.map Chunk.id := by
  apply List.Subset.trans _ (map_id_upTo_subset offset)
  exact List.map_subset _ (List.filter_subset_self _)

theorem BreaksOff.within {offset : Nat} {run : Run Event}
    (breaks : BreaksOff env round chunks offset run) :
    ∀ event ∈ run.trace, event.Within (chunks.map Chunk.id) := by
  have batch := @map_id_batch_subset env chunks offset
  have upTo := @map_id_upTo_subset chunks (offset + env.docBulkSize)
  intro event member
  cases breaks with
  | canceled flag =>
    rcases List.mem_cons.mp member with rfl | rollback
    · exact ⟨batch, accepted_subset⟩
    · rw [rollbackRaptorChunks] at rollback
      split at rollback
      · cases rollback
      · rw [List.mem_singleton.mp rollback]
        exact raptorIds_subset _
  | interrupted alive late =>
    rw [List.mem_singleton.mp member]
    exact ⟨batch, accepted_subset⟩
  | rejected alive errors =>
    rw [List.mem_singleton.mp member]
    exact ⟨batch, accepted_subset⟩
  | unknown alive clean missing =>
    rcases List.mem_cons.mp member with rfl | deletion
    · exact ⟨batch, List.Subset.refl _⟩
    · rw [List.mem_singleton.mp deletion]
      exact upTo

theorem insertBatch_within (offset : Nat) :
    ∀ event ∈ (insertBatch env round chunks offset).trace,
      event.Within (chunks.map Chunk.id) := by
  rcases @insertBatch_cases env round chunks offset with
    stores | breaks
  · rw [insertBatch_stored stores]
    intro event member
    rcases List.mem_cons.mp member with rfl | record
    · exact ⟨map_id_batch_subset offset, List.Subset.refl _⟩
    · rw [List.mem_singleton.mp record]
      exact map_id_upTo_subset _
  · exact breaks.within

theorem Event.Within.mono {ids more : List String} {event : Event} (within : event.Within ids)
    (subset : ids ⊆ more) : event.Within more := by
  cases event with
  | insert requested accepted => exact ⟨List.Subset.trans within.1 subset, within.2⟩
  | deleteIds deleted => exact List.Subset.trans within subset
  | updateChunkIds recorded => exact List.Subset.trans within subset
  | deleteDoc docId => cases within
  | deleteRaptorChunks docId keepMethod => cases within
  | incrementChunkNum docId tokens chunks => cases within

theorem runInsertChunks_within :
    ∀ event ∈ (runInsertChunks env hash round chunks).trace,
      event.Within (writtenIds hash chunks) := by
  intro event member
  rcases mem_andThen member with early | late
  · obtain ⟨run, inRuns, here⟩ := mem_sequence early
    obtain ⟨offset, _, rfl⟩ := List.mem_map.mp inRuns
    rw [insertMotherBatch_trace, List.mem_singleton] at here
    subst here
    refine ⟨?_, accepted_subset⟩
    exact List.Subset.trans (map_id_batch_subset offset) (List.subset_append_left _ _)
  · obtain ⟨run, inRuns, here⟩ := mem_sequence late
    obtain ⟨offset, _, rfl⟩ := List.mem_map.mp inRuns
    exact (insertBatch_within offset event here).mono (List.subset_append_right _ _)

theorem runInsertChunks_requests {requested accepted : List Chunk}
    (member : .insert requested accepted ∈ (runInsertChunks env hash round chunks).trace) :
    requested ⊆ createMotherChunks hash chunks ++ chunks := by
  have batch : ∀ (items : List Chunk) (offset : Nat),
      (items.drop offset).take env.docBulkSize ⊆ items := fun items offset _ member =>
    List.drop_subset _ _ (List.take_subset _ _ member)
  rcases mem_andThen member with early | late
  · obtain ⟨run, inRuns, here⟩ := mem_sequence early
    obtain ⟨offset, _, rfl⟩ := List.mem_map.mp inRuns
    rw [insertMotherBatch_trace, List.mem_singleton] at here
    cases here
    exact List.Subset.trans (batch _ offset) (List.subset_append_left _ _)
  · obtain ⟨run, inRuns, here⟩ := mem_sequence late
    obtain ⟨offset, _, rfl⟩ := List.mem_map.mp inRuns
    apply List.Subset.trans _ (List.subset_append_right _ _)
    rcases @insertBatch_cases env round chunks offset with
      stores | breaks
    · rw [insertBatch_stored stores] at here
      rcases List.mem_cons.mp here with same | record
      · cases same
        exact batch _ offset
      · cases List.mem_singleton.mp record
    · generalize insertBatch env round chunks offset = run at breaks here
      cases breaks with
      | canceled flag =>
        rcases List.mem_cons.mp here with same | rollback
        · cases same
          exact batch _ offset
        · rw [rollbackRaptorChunks] at rollback
          split at rollback
          · cases rollback
          · cases List.mem_singleton.mp rollback
      | interrupted alive late =>
        cases List.mem_singleton.mp here
        exact batch _ offset
      | rejected alive errors =>
        cases List.mem_singleton.mp here
        exact batch _ offset
      | unknown alive clean missing =>
        rcases List.mem_cons.mp here with same | deletion
        · cases same
          exact batch _ offset
        · cases List.mem_singleton.mp deletion

variable {kbId : String} {store : List Chunk} {chunk : Chunk}

theorem mem_apply_of_within {ids : List String} {event : Event} (within : event.Within ids)
    (stored : chunk ∈ store) (other : chunk.id ∉ ids) : chunk ∈ apply kbId store event := by
  cases event with
  | insert requested accepted =>
    apply mem_insertChunks_of_kept stored
    exact fun written => other (within.1 (List.map_subset _ within.2 written))
  | deleteIds deleted =>
    apply mem_deleteChunks.mpr
    exact ⟨stored, fun hit => other (within (of_decide_eq_true hit.2))⟩
  | updateChunkIds recorded => exact stored
  | deleteDoc docId => cases within
  | deleteRaptorChunks docId keepMethod => cases within
  | incrementChunkNum docId tokens chunks => cases within

theorem Event.Within.not_increment {ids : List String} {event : Event}
    (within : event.Within ids) : event.isIncrement = false := by
  cases event with
  | incrementChunkNum docId tokens chunks => cases within
  | _ => rfl

theorem replay_storedBatches (offsets : List Nat) :
    replay kbId (storedBatches env chunks offsets) store =
      insertChunks kbId
        (offsets.flatMap fun offset => (chunks.drop offset).take env.docBulkSize) store := by
  induction offsets generalizing store with
  | nil => rfl
  | cons offset offsets ih =>
    rw [storedBatches, List.flatMap_cons, replay_append, List.flatMap_cons, insertChunks_append]
    exact ih

theorem batch_subset_upTo {before after : List Nat} {offset : Nat}
    (split : env.offsets chunks.length = before ++ offset :: after) :
    (before.flatMap fun earlier => (chunks.drop earlier).take env.docBulkSize) ++
      (chunks.drop offset).take env.docBulkSize ⊆ chunks.take (offset + env.docBulkSize) := by
  have upTo : ∀ earlier, earlier ≤ offset → ∀ chunk ∈ (chunks.drop earlier).take env.docBulkSize,
      chunk ∈ chunks.take (offset + env.docBulkSize) := by
    intro earlier before chunk member
    have here : chunk ∈ chunks.take (earlier + env.docBulkSize) := by
      rw [List.take_add]
      exact List.mem_append_right _ member
    exact List.take_subset_take_left chunks (Nat.add_le_add_right before _) here
  have sorted : (before ++ offset :: after).Pairwise (· < ·) := by
    rw [← split]
    exact List.pairwise_lt_range' env.docBulkSize env.docBulkSize_pos
  intro chunk member
  rcases List.mem_append.mp member with early | here
  · obtain ⟨earlier, inBefore, inBatch⟩ := List.mem_flatMap.mp early
    have smaller := (List.pairwise_append.mp sorted).2.2 earlier inBefore offset
      List.mem_cons_self
    exact upTo earlier smaller.le chunk inBatch
  · exact upTo offset le_rfl chunk here

end Touches

end RagFlow.Executor
