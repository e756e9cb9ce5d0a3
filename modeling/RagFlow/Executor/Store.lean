import RagFlow.Lib.Table

/-!
# What a task writes

A task of the executor writes chunks to the document store, the ids of its chunks to its own row
and chunk counts to its document and knowledge base.  Its trace lists these writes.
-/

namespace RagFlow.Executor

open Lib.Table

inductive TreeBuilder
  | raptor
  | psi
deriving DecidableEq, Repr

/-- A chunk of the document store.  `mom` is the text of its parent chunk, empty when it has none;
`raptorMethod` is the tree builder of a RAPTOR summary. -/
structure Chunk where
  id : String
  docId : String
  kbId : String
  content : String
  mom : String
  raptorMethod : Option TreeBuilder
deriving DecidableEq, Repr

/-- The document id of the summaries of a whole dataset, `GRAPH_RAPTOR_FAKE_DOC_ID`. -/
def fakeDocId : String := "graph_raptor_x"

/-- The id of the parent chunk, `xxhash.xxh64(mom)`. -/
def Chunk.momId (hash : String → String) (chunk : Chunk) : Option String :=
  if chunk.mom = "" then none else some (hash chunk.mom)

inductive Event
  /-- A bulk request, and the chunks of it that the store accepts. -/
  | insert (chunks accepted : List Chunk)
  | deleteIds (ids : List String)
  | deleteDoc (docId : String)
  | deleteRaptorChunks (docId : String) (keepMethod : Option TreeBuilder)
  | updateChunkIds (ids : List String)
  | incrementChunkNum (docId : String) (tokens chunks : Nat)
deriving DecidableEq, Repr

def isStale (docId : String) (keepMethod : Option TreeBuilder) (chunk : Chunk) : Bool :=
  chunk.docId = docId && chunk.raptorMethod.isSome &&
    (keepMethod.isNone || chunk.raptorMethod ≠ keepMethod)

def insertChunks (kbId : String) (chunks store : List Chunk) : List Chunk :=
  upsertAll Chunk.id (chunks.map fun chunk => { chunk with kbId := kbId }) store

def deleteChunks (kbId : String) (condition : Chunk → Bool) (store : List Chunk) : List Chunk :=
  store.filter fun chunk => !(chunk.kbId = kbId && condition chunk)

def apply (kbId : String) (store : List Chunk) : Event → List Chunk
  | .insert _ accepted => insertChunks kbId accepted store
  | .deleteIds ids => deleteChunks kbId (fun chunk => chunk.id ∈ ids) store
  | .deleteDoc docId => deleteChunks kbId (fun chunk => chunk.docId = docId) store
  | .deleteRaptorChunks docId keepMethod => deleteChunks kbId (isStale docId keepMethod) store
  | .updateChunkIds _ => store
  | .incrementChunkNum _ _ _ => store

def replay (kbId : String) (trace : List Event) (store : List Chunk) : List Chunk :=
  trace.foldl (apply kbId) store

def Event.recordedIds (ids : List String) : Event → List String
  | .updateChunkIds new => new
  | _ => ids

def recorded (trace : List Event) : List String :=
  trace.foldl Event.recordedIds []

def Event.countedChunks (docId : String) : Event → Nat
  | .incrementChunkNum counter _ chunks => if counter = docId then chunks else 0
  | _ => 0

def Event.countedTokens (docId : String) : Event → Nat
  | .incrementChunkNum counter tokens _ => if counter = docId then tokens else 0
  | _ => 0

/-- What a trace adds to the `chunk_num` of a document. -/
def counted (docId : String) (trace : List Event) : Nat :=
  (trace.map (Event.countedChunks docId)).sum

/-- What a trace adds to the `token_num` of a document. -/
def countedTokens (docId : String) (trace : List Event) : Nat :=
  (trace.map (Event.countedTokens docId)).sum

def Event.acceptedChunks : Event → List Chunk
  | .insert _ accepted => accepted
  | _ => []

def insertedChunks (trace : List Event) : List Chunk :=
  trace.flatMap Event.acceptedChunks

def Event.isIncrement : Event → Bool
  | .incrementChunkNum _ _ _ => true
  | _ => false

variable {kbId : String} {store : List Chunk} {chunk : Chunk}

@[simp] theorem replay_nil : replay kbId [] store = store := rfl

@[simp] theorem replay_cons (event : Event) (trace : List Event) :
    replay kbId (event :: trace) store = replay kbId trace (apply kbId store event) := rfl

theorem replay_append (first second : List Event) :
    replay kbId (first ++ second) store = replay kbId second (replay kbId first store) :=
  List.foldl_append

theorem mem_deleteChunks {condition : Chunk → Bool} :
    chunk ∈ deleteChunks kbId condition store ↔
      chunk ∈ store ∧ ¬(chunk.kbId = kbId ∧ condition chunk = true) := by
  rw [deleteChunks, List.mem_filter]
  simp only [Bool.not_eq_true', Bool.and_eq_false_iff, decide_eq_false_iff_not, not_and_or,
    Bool.not_eq_true]

theorem isStale_iff {docId : String} {keepMethod : Option TreeBuilder} :
    isStale docId keepMethod chunk = true ↔ chunk.docId = docId ∧
      ∃ builder, chunk.raptorMethod = some builder ∧ keepMethod ≠ some builder := by
  cases method : chunk.raptorMethod with
  | none => simp [isStale, method]
  | some builder =>
    cases keepMethod with
    | none => simp [isStale, method]
    | some kept =>
      have differs : some builder ≠ some kept ↔ some kept ≠ some builder := ne_comm
      simpa [isStale, method] using fun _ => differs

theorem mem_insertChunks_of_kept {chunks : List Chunk} (stored : chunk ∈ store)
    (kept : chunk.id ∉ chunks.map Chunk.id) : chunk ∈ insertChunks kbId chunks store := by
  apply mem_upsertAll_of_kept stored
  simpa [List.map_map, Function.comp_def] using kept

theorem mem_insertChunks_cases {chunks : List Chunk}
    (stored : chunk ∈ insertChunks kbId chunks store) :
    (∃ new ∈ chunks, chunk = { new with kbId := kbId }) ∨
      (chunk ∈ store ∧ chunk.id ∉ chunks.map Chunk.id) := by
  rcases mem_upsertAll_cases stored with written | ⟨before, kept⟩
  · obtain ⟨new, inNew, rfl⟩ := List.mem_map.mp written
    exact .inl ⟨new, inNew, rfl⟩
  · refine .inr ⟨before, ?_⟩
    simpa [List.map_map, Function.comp_def] using kept

theorem exists_inserted {chunks : List Chunk} (new : chunk ∈ chunks) :
    ∃ last ∈ chunks, last.id = chunk.id ∧
      { last with kbId := kbId } ∈ insertChunks kbId chunks store := by
  obtain ⟨written, inNew, sameId, stored⟩ := @exists_written_of_mem _ _ _ Chunk.id _ store _
    (List.mem_map_of_mem (f := fun new : Chunk => { new with kbId := kbId }) new)
  obtain ⟨last, inChunks, rfl⟩ := List.mem_map.mp inNew
  exact ⟨last, inChunks, sameId, stored⟩

theorem insertChunks_append (first second : List Chunk) :
    insertChunks kbId (first ++ second) store =
      insertChunks kbId second (insertChunks kbId first store) := by
  rw [insertChunks, List.map_append, upsertAll_append]
  rfl

theorem counted_append (docId : String) (first second : List Event) :
    counted docId (first ++ second) = counted docId first + counted docId second := by
  simp [counted]

theorem insertedChunks_append (first second : List Event) :
    insertedChunks (first ++ second) = insertedChunks first ++ insertedChunks second :=
  List.flatMap_append

theorem counted_eq_zero {docId : String} {trace : List Event}
    (none : ∀ event ∈ trace, event.isIncrement = false) : counted docId trace = 0 := by
  rw [counted, List.sum_eq_zero]
  intro amount member
  obtain ⟨event, inTrace, rfl⟩ := List.mem_map.mp member
  have quiet := none event inTrace
  cases event with
  | incrementChunkNum counter tokens chunks => cases quiet
  | _ => rfl

end RagFlow.Executor
