import RagFlow.Executor.ChunkOwnership
import RagFlow.Executor.Isolation

/-!
# Deliveries of a task

The message of a task is acknowledged last.  When the worker crashes before, the message is
delivered again and the task starts over: its chunks are written over by id, its counts are added
once more.
-/

namespace RagFlow.Executor

open Lib
open Lib.Procedure
open Lib.Procedure.Run

structure Delivery (docId : String) where
  version : Version
  env : Environment
  task : StandardTask
  ofDoc : task.docId = docId
  /-- What `has_canceled` says when the message is collected. -/
  canceled : Bool
  /-- The writes after which the worker crashes, if it does. -/
  crash : Option Nat

structure Delivered where
  store : List Chunk
  inserted : List String
  chunkNum : Nat
  kbChunkNum : Nat
  retryCount : Nat
  acknowledged : Bool
deriving DecidableEq, Repr

variable (hash : String → String) (kbId docId : String)

def Delivery.trace {docId : String} (delivery : Delivery docId) (store : List Chunk) :
    List Event :=
  (handle delivery.env hash kbId store delivery.version (.standard delivery.task)).trace

def Delivery.executed {docId : String} (delivery : Delivery docId) (store : List Chunk) :
    List Event :=
  match delivery.crash with
  | none => delivery.trace hash kbId store
  | some writes => (delivery.trace hash kbId store).take writes

/-- `get_task` gives the task up after three attempts, `collect` leaves a cancelled one. -/
def Delivery.leftAlone {docId : String} (delivery : Delivery docId) (state : Delivered) : Bool :=
  3 ≤ state.retryCount || delivery.canceled

/-- `handle_task` of the worker, from `collect` to the acknowledgement. -/
def deliver (state : Delivered) (delivery : Delivery docId) : Delivered :=
  if state.acknowledged then state
  else if delivery.leftAlone state then
    { state with
      retryCount := state.retryCount + 1
      acknowledged := delivery.crash.isNone }
  else
    let executed := delivery.executed hash kbId state.store
    { store := replay kbId executed state.store
      inserted := state.inserted ++ (insertedChunks executed).map Chunk.id
      chunkNum := state.chunkNum + counted docId executed
      kbChunkNum := state.kbChunkNum + counted docId executed
      retryCount := state.retryCount + 1
      acknowledged := delivery.crash.isNone }

def Delivered.ofTask (state : Delivered) (chunk : Chunk) : Bool :=
  chunk.kbId = kbId && chunk.docId = docId && chunk.id ∈ state.inserted

def Delivered.taskChunkIds (state : Delivered) : List String :=
  ((state.store.filter (state.ofTask kbId docId)).map Chunk.id).dedup

def CountedOnce (kbBefore : Nat) (state : Delivered) : Prop :=
  state.acknowledged = true →
    state.chunkNum = (state.taskChunkIds kbId docId).length ∧
    state.kbChunkNum = kbBefore + (state.taskChunkIds kbId docId).length

def Delivery.countedIds {docId : String} (delivery : Delivery docId) : List String :=
  (delivery.task.chunks hash kbId).map Chunk.id ++
    (tocChunks hash kbId delivery.task).map Chunk.id

/-- The ways in which a delivery that runs to its acknowledgement counts what is in the store. -/
inductive CountsStored (state : Delivered) (delivery : Delivery docId) : Prop
  /-- The task completes: the parent chunks that were stored have ids of counted chunks, the table
  of contents is not one of the chunks, and earlier deliveries left no other chunks. -/
  | completed
      (completed : Completed delivery.env hash kbId state.store delivery.version delivery.task)
      (mothers : ∀ mother ∈ acceptedMothers delivery.env hash .chunks
          (delivery.task.chunks hash kbId) ++
            acceptedMothers delivery.env hash .toc (tocChunks hash kbId delivery.task),
        mother.id ∈ delivery.countedIds hash kbId)
      (toc : ∀ chunk ∈ tocChunks hash kbId delivery.task,
        chunk.id ∉ (delivery.task.chunks hash kbId).map Chunk.id)
      (leftovers : state.taskChunkIds kbId docId ⊆ delivery.countedIds hash kbId)
  /-- The task is over before its first chunk, and so were the earlier deliveries. -/
  | unwritten
      (uncounted : ∀ event ∈ delivery.trace hash kbId state.store, event.isIncrement = false)
      (none : insertedChunks (delivery.trace hash kbId state.store) = [])
      (leftovers : state.taskChunkIds kbId docId = [])
  /-- The task is cancelled before its first count, and cleaned up. -/
  | cleaned
      (uncounted : ∀ event ∈ delivery.trace hash kbId state.store, event.isIncrement = false)
      (cleanup : (delivery.trace hash kbId state.store).getLast? = some (.deleteDoc docId))

/-- A delivery counts no chunk that it leaves uncounted or that is counted again. -/
def SafeDelivery (state : Delivered) (delivery : Delivery docId) : Prop :=
  if delivery.leftAlone state then
    delivery.crash = none → state.taskChunkIds kbId docId = []
  else
    match delivery.crash with
    | some writes => ∀ event ∈ (delivery.trace hash kbId state.store).take writes,
        event.isIncrement = false
    | none => CountsStored hash kbId docId state delivery

variable {hash kbId docId}

section Replay

variable {trace : List Event} {store : List Chunk}

theorem mem_replay_cases {chunk : Chunk} (stored : chunk ∈ replay kbId trace store) :
    chunk ∈ store ∨ chunk.id ∈ (insertedChunks trace).map Chunk.id := by
  induction trace generalizing store with
  | nil => exact .inl stored
  | cons event trace ih =>
    rw [insertedChunks, List.flatMap_cons, List.map_append, List.mem_append]
    rcases ih stored with before | written
    · cases event with
      | insert requested accepted =>
        rcases mem_insertChunks_cases before with ⟨new, inAccepted, rfl⟩ | ⟨earlier, _⟩
        · exact .inr (.inl (List.mem_map.mpr ⟨new, inAccepted, rfl⟩))
        · exact .inl earlier
      | deleteIds ids => exact .inl (mem_deleteChunks.mp before).1
      | deleteDoc deleted => exact .inl (mem_deleteChunks.mp before).1
      | deleteRaptorChunks deleted keepMethod => exact .inl (mem_deleteChunks.mp before).1
      | updateChunkIds ids => exact .inl before
      | incrementChunkNum counter tokens chunks => exact .inl before
    · exact .inr (.inr written)

def Event.Adds (docId : String) : Event → Prop
  | .insert _ accepted => ∀ chunk ∈ accepted, chunk.docId = docId
  | .updateChunkIds _ => True
  | .incrementChunkNum _ _ _ => True
  | _ => False

theorem exists_stored_of_inserted (adds : ∀ event ∈ trace, event.Adds docId) {id : String}
    (inserted : id ∈ (insertedChunks trace).map Chunk.id) :
    ∃ chunk ∈ replay kbId trace store, chunk.id = id ∧ chunk.docId = docId ∧
      chunk.kbId = kbId := by
  induction trace using List.reverseRecOn with
  | nil => cases inserted
  | append_singleton trace event ih =>
    rw [List.forall_mem_append] at adds
    have last := adds.2 event List.mem_cons_self
    rw [insertedChunks_append, List.map_append, List.mem_append] at inserted
    rw [replay_append]
    cases event with
    | insert requested accepted =>
      by_cases again : id ∈ accepted.map Chunk.id
      · obtain ⟨new, inAccepted, rfl⟩ := List.mem_map.mp again
        obtain ⟨stored, inStored, sameId, found⟩ :=
          @exists_inserted kbId (replay kbId trace store) new accepted inAccepted
        exact ⟨_, found, sameId, last stored inStored, rfl⟩
      · have earlier := inserted.resolve_right (by
          simpa [insertedChunks, Event.acceptedChunks] using again)
        obtain ⟨chunk, stored, rfl, ofDoc, inKb⟩ := ih adds.1 earlier
        exact ⟨chunk, mem_insertChunks_of_kept stored again, rfl, ofDoc, inKb⟩
    | updateChunkIds ids =>
      exact ih adds.1 (inserted.resolve_right (by simp [insertedChunks,
        Event.acceptedChunks]))
    | incrementChunkNum counter tokens chunks =>
      exact ih adds.1 (inserted.resolve_right (by simp [insertedChunks,
        Event.acceptedChunks]))
    | deleteIds ids => cases last
    | deleteDoc deleted => cases last
    | deleteRaptorChunks deleted keepMethod => cases last

end Replay

section Completed

variable {state : Delivered} {delivery : Delivery docId}

theorem insertion_keeps {env : Environment} {round : Round} {chunks : List Chunk}
    (done : (runInsertChunks env hash round chunks).outcome = .done) :
    ∀ event ∈ (runInsertChunks env hash round chunks).trace,
      (∃ requested accepted, event = .insert requested accepted) ∨
        ∃ ids, event = .updateChunkIds ids := by
  intro event member
  rw [runInsertChunks_trace done] at member
  rcases List.mem_append.mp member with mothers | main
  · obtain ⟨offset, _, rfl⟩ := List.mem_map.mp mothers
    exact .inl ⟨_, _, rfl⟩
  · obtain ⟨offset, _, inBatch⟩ := List.mem_flatMap.mp main
    rcases List.mem_cons.mp inBatch with rfl | recorded
    · exact .inl ⟨_, _, rfl⟩
    · exact .inr ⟨_, List.mem_singleton.mp recorded⟩

theorem toc_keeps {env : Environment} {store : List Chunk} {version : Version}
    {task : StandardTask} (completed : Completed env hash kbId store version task) :
    ∀ event ∈ tocTrace env hash kbId task, event.isIncrement = true ∨
      (∃ requested accepted, event = .insert requested accepted) ∨
        ∃ ids, event = .updateChunkIds ids := by
  intro event member
  by_cases built : ∃ last, task.toc = .built last
  · obtain ⟨last, built⟩ := built
    obtain ⟨done, trace⟩ := toc_inserted completed built
    rw [trace] at member
    rcases List.mem_append.mp member with inserted | count
    · exact .inr (insertion_keeps done event inserted)
    · rw [List.mem_singleton.mp count]
      exact .inl rfl
  · rw [tocTrace] at member
    cases kind : task.toc with
    | built last => exact absurd ⟨last, kind⟩ built
    | _ => simp [kind] at member

theorem adds_of_completed {store : List Chunk}
    (completed : Completed delivery.env hash kbId store delivery.version delivery.task) :
    ∀ event ∈ delivery.trace hash kbId store, event.Adds docId := by
  intro event member
  have ofParse := handle_ofParse delivery.version event member
  cases count : event.isIncrement with
  | true =>
    cases event with
    | incrementChunkNum counter tokens chunks => trivial
    | _ => cases count
  | false =>
    have written : event ∈ (delivery.trace hash kbId store).filter
        fun event => !event.isIncrement := List.mem_filter.mpr ⟨member, by simp [count]⟩
    rw [Delivery.trace, (completed_agree completed).writes] at written
    have inEffects := (List.mem_filter.mp written).1
    rcases List.mem_append.mp inEffects with main | rest
    · rcases insertion_keeps (indexed_of_completed completed).inserted event main with
        ⟨requested, accepted, rfl⟩ | ⟨ids, rfl⟩
      · exact fun chunk inAccepted => (ofParse chunk inAccepted).1.trans delivery.ofDoc
      · trivial
    · rcases List.mem_append.mp rest with toc | last
      · rcases toc_keeps completed event toc with increment |
          ⟨requested, accepted, rfl⟩ | ⟨ids, rfl⟩
        · rw [count] at increment
          cases increment
        · exact fun chunk inAccepted => (ofParse chunk inAccepted).1.trans delivery.ofDoc
        · trivial
      · rw [List.mem_singleton.mp last] at count
        cases count

theorem mem_taskChunkIds {id : String} : id ∈ state.taskChunkIds kbId docId ↔
    ∃ chunk ∈ state.store, chunk.kbId = kbId ∧ chunk.docId = docId ∧
      chunk.id ∈ state.inserted ∧ chunk.id = id := by
  rw [Delivered.taskChunkIds, List.mem_dedup, List.mem_map]
  constructor
  · intro found
    obtain ⟨chunk, inFiltered, sameId⟩ := found
    obtain ⟨stored, ofTask⟩ := List.mem_filter.mp inFiltered
    simp only [Delivered.ofTask, Bool.and_eq_true, decide_eq_true_eq] at ofTask
    exact ⟨chunk, stored, ofTask.1.1, ofTask.1.2, ofTask.2, sameId⟩
  · intro found
    obtain ⟨chunk, stored, inKb, ofDoc, inserted, sameId⟩ := found
    refine ⟨chunk, List.mem_filter.mpr ⟨stored, ?_⟩, sameId⟩
    simp [Delivered.ofTask, inKb, ofDoc, inserted]

def Delivered.after (state : Delivered) (hash : String → String) (kbId docId : String)
    (delivery : Delivery docId) : Delivered :=
  { store := replay kbId (delivery.trace hash kbId state.store) state.store
    inserted := state.inserted ++
      (insertedChunks (delivery.trace hash kbId state.store)).map Chunk.id
    chunkNum := state.chunkNum + counted docId (delivery.trace hash kbId state.store)
    kbChunkNum := state.kbChunkNum + counted docId (delivery.trace hash kbId state.store)
    retryCount := state.retryCount + 1
    acknowledged := true }

theorem mem_taskChunkIds_completed
    (completed : Completed delivery.env hash kbId state.store delivery.version delivery.task)
    (mothers : ∀ mother ∈ acceptedMothers delivery.env hash .chunks
        (delivery.task.chunks hash kbId) ++
          acceptedMothers delivery.env hash .toc (tocChunks hash kbId delivery.task),
      mother.id ∈ delivery.countedIds hash kbId)
    (leftovers : state.taskChunkIds kbId docId ⊆ delivery.countedIds hash kbId) (id : String) :
    id ∈ (state.after hash kbId docId delivery).taskChunkIds kbId docId ↔
      id ∈ delivery.countedIds hash kbId := by
  have inserted := (effects completed).inserted_eq
  rw [← Delivery.trace] at inserted
  have ofCounted : id ∈ delivery.countedIds hash kbId →
      id ∈ (insertedChunks (delivery.trace hash kbId state.store)).map Chunk.id := by
    intro counted
    rw [inserted]
    rcases List.mem_append.mp counted with chunk | toc
    · simp only [List.map_append, List.mem_append]
      exact .inl (.inr chunk)
    · simp only [List.map_append, List.mem_append]
      exact .inr (.inr toc)
  have toCounted : id ∈ (insertedChunks (delivery.trace hash kbId state.store)).map Chunk.id →
      id ∈ delivery.countedIds hash kbId := by
    intro written
    obtain ⟨chunk, inInserted, rfl⟩ := List.mem_map.mp written
    rw [inserted, List.mem_append, List.mem_append, List.mem_append] at inInserted
    rcases inInserted with (mother | own) | (mother | own)
    · exact mothers chunk (List.mem_append_left _ mother)
    · exact List.mem_append_left _ (List.mem_map_of_mem own)
    · exact mothers chunk (List.mem_append_right _ mother)
    · exact List.mem_append_right _ (List.mem_map_of_mem own)
  rw [mem_taskChunkIds]
  constructor
  · intro found
    obtain ⟨chunk, stored, inKb, ofDoc, inInserted, rfl⟩ := found
    rcases List.mem_append.mp inInserted with earlier | now
    · rcases mem_replay_cases stored with before | written
      · exact leftovers (mem_taskChunkIds.mpr ⟨chunk, before, inKb, ofDoc, earlier, rfl⟩)
      · exact toCounted written
    · exact toCounted now
  · intro counted
    have written := ofCounted counted
    obtain ⟨chunk, stored, sameId, ofDoc, inKb⟩ :=
      @exists_stored_of_inserted kbId docId _ state.store (adds_of_completed completed) id written
    exact ⟨chunk, stored, inKb, ofDoc, List.mem_append_right _ (sameId ▸ written), sameId⟩

theorem dedup_length_congr {first second : List String} (same : ∀ id, id ∈ first ↔ id ∈ second) :
    first.dedup.length = second.dedup.length :=
  ((List.perm_ext_iff_of_nodup first.nodup_dedup second.nodup_dedup).mpr fun id => by
    rw [List.mem_dedup, List.mem_dedup, same]).length_eq

theorem countedIds_length
    (toc : ∀ chunk ∈ tocChunks hash kbId delivery.task,
      chunk.id ∉ (delivery.task.chunks hash kbId).map Chunk.id) :
    (delivery.countedIds hash kbId).dedup.length =
      distinctIds (delivery.task.chunks hash kbId) +
        (tocChunks hash kbId delivery.task).length := by
  rw [Delivery.countedIds, distinctIds]
  cases kind : delivery.task.toc with
  | built last =>
    have one : tocChunks hash kbId delivery.task =
        [docChunk hash kbId delivery.task.docId last] := by simp [tocChunks, kind]
    rw [one] at toc ⊢
    have new := toc _ List.mem_cons_self
    rw [dedup_length_congr fun id => List.perm_append_comm.mem_iff, List.map_singleton,
      List.singleton_append, List.dedup_cons_of_notMem new, List.length_cons,
      List.length_singleton]
  | _ => simp [tocChunks, kind]

theorem counted_completed
    (completed : Completed delivery.env hash kbId state.store delivery.version delivery.task)
    (mothers : ∀ mother ∈ acceptedMothers delivery.env hash .chunks
        (delivery.task.chunks hash kbId) ++
          acceptedMothers delivery.env hash .toc (tocChunks hash kbId delivery.task),
      mother.id ∈ delivery.countedIds hash kbId)
    (toc : ∀ chunk ∈ tocChunks hash kbId delivery.task,
      chunk.id ∉ (delivery.task.chunks hash kbId).map Chunk.id)
    (leftovers : state.taskChunkIds kbId docId ⊆ delivery.countedIds hash kbId) :
    ((state.after hash kbId docId delivery).taskChunkIds kbId docId).length =
      counted docId (delivery.trace hash kbId state.store) := by
  have amount := (effects completed).counted_eq
  rw [delivery.ofDoc] at amount
  rw [Delivery.trace, amount, ← countedIds_length toc]
  have nodup : ((state.after hash kbId docId delivery).taskChunkIds kbId docId).Nodup :=
    List.nodup_dedup _
  rw [← List.dedup_eq_self.mpr nodup]
  exact dedup_length_congr (mem_taskChunkIds_completed completed mothers leftovers)

end Completed

section Runs

variable {kbBefore : Nat} {state : Delivered} {delivery : Delivery docId}

/-- Until the acknowledgement nothing is counted, and then everything once. -/
structure Sound (kbId docId : String) (kbBefore : Nat) (state : Delivered) : Prop where
  pending : state.acknowledged = false → state.chunkNum = 0 ∧ state.kbChunkNum = kbBefore
  once : CountedOnce kbId docId kbBefore state

theorem taskChunkIds_eq_nil
    (none : ∀ chunk ∈ state.store, chunk.kbId = kbId → chunk.docId = docId →
      chunk.id ∉ state.inserted) : state.taskChunkIds kbId docId = [] := by
  apply List.eq_nil_iff_forall_not_mem.mpr
  intro id member
  obtain ⟨chunk, stored, inKb, ofDoc, inserted, _⟩ := mem_taskChunkIds.mp member
  exact none chunk stored inKb ofDoc inserted

theorem countsStored_length (counts : CountsStored hash kbId docId state delivery) :
    ((state.after hash kbId docId delivery).taskChunkIds kbId docId).length =
      counted docId (delivery.trace hash kbId state.store) := by
  cases counts with
  | completed completed mothers toc leftovers =>
    exact counted_completed completed mothers toc leftovers
  | unwritten uncounted none leftovers =>
    rw [counted_eq_zero uncounted, List.length_eq_zero_iff]
    apply taskChunkIds_eq_nil
    intro chunk stored inKb ofDoc inserted
    have old : chunk.id ∈ state.inserted := by
      simpa [Delivered.after, none] using inserted
    have before : chunk ∈ state.store := by
      simpa [none] using mem_replay_cases stored
    have left := mem_taskChunkIds.mpr ⟨chunk, before, inKb, ofDoc, old, rfl⟩
    rw [leftovers] at left
    cases left
  | cleaned uncounted cleanup =>
    rw [counted_eq_zero uncounted, List.length_eq_zero_iff]
    apply taskChunkIds_eq_nil
    intro chunk stored inKb ofDoc _
    obtain ⟨before, split⟩ := List.getLast?_eq_some_iff.mp cleanup
    rw [Delivered.after, split, replay_append] at stored
    exact (mem_deleteChunks.mp stored).2 ⟨inKb, decide_eq_true ofDoc⟩

theorem sound_deliver (sound : Sound kbId docId kbBefore state)
    (safe : SafeDelivery hash kbId docId state delivery) :
    Sound kbId docId kbBefore (deliver hash kbId docId state delivery) := by
  unfold deliver
  cases pending : state.acknowledged with
  | true => exact sound
  | false =>
    have nothing := sound.pending pending
    unfold SafeDelivery at safe
    cases left : delivery.leftAlone state with
    | true =>
      rw [left, if_pos rfl] at safe
      refine ⟨fun _ => nothing, fun acknowledged => ?_⟩
      have gone : state.taskChunkIds kbId docId = [] :=
        safe (by simpa using acknowledged)
      change state.chunkNum = (state.taskChunkIds kbId docId).length ∧
        state.kbChunkNum = kbBefore + (state.taskChunkIds kbId docId).length
      rw [gone]
      exact nothing
    | false =>
      rw [left, if_neg Bool.false_ne_true] at safe
      cases crash : delivery.crash with
      | some writes =>
        rw [crash] at safe
        have uncounted := @counted_eq_zero docId _ safe
        refine ⟨fun _ => ?_, fun acknowledged => ?_⟩
        · simpa [Delivery.executed, crash, uncounted] using nothing
        · simp at acknowledged
      | none =>
        rw [crash] at safe
        have amount := countsStored_length safe
        refine ⟨fun unacknowledged => ?_, fun _ => ?_⟩
        · simp at unacknowledged
        · simp only [Bool.false_eq_true, if_false, Delivery.executed, crash,
            Option.isNone_none]
          rw [nothing.1, nothing.2, Nat.zero_add]
          exact ⟨amount.symm, congrArg (kbBefore + ·) amount.symm⟩

def undelivered (store : List Chunk) (kbBefore : Nat) : Delivered where
  store := store
  inserted := []
  chunkNum := 0
  kbChunkNum := kbBefore
  retryCount := 0
  acknowledged := false

end Runs

def quietDelivery (crash : Option Nat) : Delivery countedTask.docId where
  version := .refactored
  env := .quiet
  task := countedTask
  ofDoc := rfl
  canceled := false
  crash := crash

end RagFlow.Executor
