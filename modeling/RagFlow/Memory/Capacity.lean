import Mathlib.Data.List.Sort
import RagFlow.Lib.Runs
import RagFlow.Lib.Table

/-!
# Messages of a memory

`MessageService` keeps the messages of a memory in the index of its tenant.  This file has the size
of a message, the size of a memory as `calculate_memory_size` finds it, and the messages that
`pick_messages_to_delete_by_fifo` picks.
-/

namespace RagFlow.Memory

open Lib

universe u

/-- `sys.getsizeof` of a text and of an element of an embedding, and the element that is read back
for one that was inserted. -/
structure Runtime (Element : Type u) where
  text : String → Nat
  element : Element → Nat
  readBack : Element → Element

structure Message (Element : Type u) where
  messageId : Nat
  content : String
  contentEmbed : List Element
  validAt : Nat
  forgetAt : Option Nat

structure Row (Element : Type u) where
  /-- The `uid` that the index is named after. -/
  uid : String
  memoryId : String
  message : Message Element

variable {Element : Type u}

/-- The `_id` of the document, in its index. -/
def Row.key (row : Row Element) : String × String × Nat :=
  (row.uid, row.memoryId, row.message.messageId)

def calculateMessageSize (runtime : Runtime Element) (message : Message Element) : Nat :=
  let embedSize :=
    match message.contentEmbed with
    | [] => 0
    | first :: _ => runtime.element first * message.contentEmbed.length
  runtime.text message.content + embedSize

def messagesSize (runtime : Runtime Element) (messages : List (Message Element)) : Nat :=
  (messages.map (calculateMessageSize runtime)).sum

def storedMessage (runtime : Runtime Element) (message : Message Element) : Message Element :=
  { message with contentEmbed := message.contentEmbed.map runtime.readBack }

/-- The messages that a search in the index of `uid` finds for `memory_id`. -/
def messagesOf (rows : List (Row Element)) (memoryId uid : String) : List (Message Element) :=
  (rows.filter fun row => row.uid = uid ∧ row.memoryId = memoryId).map Row.message

/-- `calculate_memory_size`: a search for one memory finds at most 2048 messages. -/
def calculateMemorySize (runtime : Runtime Element) (rows : List (Row Element))
    (memoryId uid : String) : Nat :=
  let newestFirst := (messagesOf rows memoryId uid).insertionSort fun first second =>
    second.validAt ≤ first.validAt
  messagesSize runtime (newestFirst.take 2048)

/-- `get_forgotten_messages` without its limit. -/
def forgottenMessages (messages : List (Message Element)) : List (Message Element) :=
  (messages.filter fun message => message.forgetAt.isSome).insertionSort fun first second =>
    first.forgetAt.getD 0 ≤ second.forgetAt.getD 0

def oldMessages (messages : List (Message Element)) : List (Message Element) :=
  (messages.filter fun message => !message.forgetAt.isSome).insertionSort fun first second =>
    first.validAt ≤ second.validAt

def fifoOrder (messages : List (Message Element)) : List (Message Element) :=
  forgottenMessages messages ++ oldMessages messages

/-- The loop over a page: messages are picked while their size is below `size_to_delete`. -/
def pickLoop (runtime : Runtime Element) (sizeToDelete : Nat) :
    List (Message Element) → List Nat × Nat → List Nat × Nat
  | [], picked => picked
  | message :: messages, (idsToRemove, currentSize) =>
    if currentSize < sizeToDelete then
      pickLoop runtime sizeToDelete messages
        (idsToRemove ++ [message.messageId], currentSize + calculateMessageSize runtime message)
    else (idsToRemove, currentSize)

def pickMessagesToDeleteByFifo (runtime : Runtime Element) (rows : List (Row Element))
    (memoryId uid : String) (sizeToDelete : Nat) : List Nat × Nat :=
  let messages := messagesOf rows memoryId uid
  let picked := pickLoop runtime sizeToDelete ((forgottenMessages messages).take 512) ([], 0)
  if sizeToDelete ≤ picked.2 then picked
  else pickLoop runtime sizeToDelete ((oldMessages messages).take 512) picked

/-- `delete_message` of the messages with some ids. -/
def deleteMessage (rows : List (Row Element)) (messageIds : List Nat) (uid memoryId : String) :
    List (Row Element) :=
  rows.filter fun row =>
    ¬(row.uid = uid ∧ row.memoryId = memoryId ∧ row.message.messageId ∈ messageIds)

/-- The documents that `insert_message` writes for the messages which the engine accepts. -/
def insertMessage (runtime : Runtime Element) (rows : List (Row Element))
    (messages : List (Message Element)) (accepted : Message Element → Bool)
    (uid memoryId : String) : List (Row Element) :=
  Table.upsertAll Row.key
    ((messages.filter accepted).map fun message => ⟨uid, memoryId, storedMessage runtime message⟩)
    rows

section Sizes

variable {runtime : Runtime Element}

@[simp] theorem messagesSize_nil : messagesSize runtime [] = 0 := rfl

@[simp] theorem messagesSize_append (first second : List (Message Element)) :
    messagesSize runtime (first ++ second) =
      messagesSize runtime first + messagesSize runtime second := by
  simp [messagesSize]

theorem messagesSize_of_perm {first second : List (Message Element)} (same : first.Perm second) :
    messagesSize runtime first = messagesSize runtime second :=
  (same.map _).sum_eq

theorem calculateMemorySize_of_few {rows : List (Row Element)} {memoryId uid : String}
    (few : (messagesOf rows memoryId uid).length ≤ 2048) :
    calculateMemorySize runtime rows memoryId uid =
      messagesSize runtime (messagesOf rows memoryId uid) := by
  rw [calculateMemorySize, List.take_of_length_le (by simpa using few)]
  apply messagesSize_of_perm
  apply List.perm_insertionSort

theorem fifoOrder_perm (messages : List (Message Element)) :
    (fifoOrder messages).Perm messages := by
  have forgotten := List.perm_insertionSort
    (fun first second : Message Element => first.forgetAt.getD 0 ≤ second.forgetAt.getD 0)
    (messages.filter fun message => message.forgetAt.isSome)
  have old := List.perm_insertionSort
    (fun first second : Message Element => first.validAt ≤ second.validAt)
    (messages.filter fun message => !message.forgetAt.isSome)
  exact (forgotten.append old).trans (List.filter_append_perm _ messages)

end Sizes

end RagFlow.Memory

/-!
# Memory capacity

`embed_and_save` asks for the size of the memory with the tenant's id in the place of the memory's,
so it always finds an empty memory.
-/

namespace RagFlow.Memory

open Lib

universe u

variable {Element : Type u}

/-- `forgetting_policy` of a memory: FIFO, or LRU as the help text of the column has it. -/
inductive ForgettingPolicy
  | fifo
  | lru
deriving DecidableEq, Repr

structure MemoryRecord where
  id : String
  tenantId : String
  memorySize : Nat
  forgettingPolicy : ForgettingPolicy
  distinct : id ≠ tenantId

/-- The message indices, their documents and the Redis keys `memory_{memory_id}`. -/
structure State (Element : Type u) where
  indices : List String
  rows : List (Row Element)
  sizeCache : String → Option Int

/-- What becomes of the bulk request of `insert_message`. -/
structure Insertion (Element : Type u) where
  /-- The documents that the engine indexes. -/
  accepts : Message Element → Bool
  /-- Whether errors are returned.  After timeouts only there are none. -/
  failCases : Bool

def setMemorySizeCache (memoryId : String) (size : Int) (state : State Element) : State Element :=
  { state with sizeCache := Function.update state.sizeCache memoryId (some size) }

def getMemorySizeCache (runtime : Runtime Element) (memoryId uid : String) (state : State Element) :
    Int × State Element :=
  match state.sizeCache memoryId with
  | some size => (size, state)
  | none =>
    let memorySize : Int := calculateMemorySize runtime state.rows memoryId uid
    (memorySize, setMemorySizeCache memoryId memorySize state)

/-- `increase_memory_size_cache`: `INCRBY` counts from 0 when the key is missing. -/
def increaseMemorySizeCache (memoryId : String) (size : Nat) (state : State Element) :
    State Element :=
  setMemorySizeCache memoryId ((state.sizeCache memoryId).getD 0 + size) state

def decreaseMemorySizeCache (memoryId : String) (size : Nat) (state : State Element) :
    State Element :=
  setMemorySizeCache memoryId ((state.sizeCache memoryId).getD 0 - size) state

def withIndex (memory : MemoryRecord) (creates : Bool) (state : State Element) :
    Option (State Element) :=
  if memory.tenantId ∈ state.indices then some state
  else if creates then some { state with indices := memory.tenantId :: state.indices }
  else none

/-- The part of `embed_and_save` before the insertion: messages are deleted when the new ones do not
fit.  Another policy than FIFO decides on none, and the save fails. -/
def makeRoom (runtime : Runtime Element) (memory : MemoryRecord) (newMsgSize : Nat)
    (state : State Element) : State Element × Bool :=
  let (currentMemorySize, state) := getMemorySizeCache runtime memory.tenantId memory.id state
  if (memory.memorySize : Int) < newMsgSize + currentMemorySize then
    let sizeToDelete := currentMemorySize + newMsgSize - memory.memorySize
    if memory.forgettingPolicy = .fifo then
      let (messageIdsToDelete, deleteSize) :=
        pickMessagesToDeleteByFifo runtime state.rows memory.id memory.tenantId sizeToDelete.toNat
      let rows := deleteMessage state.rows messageIdsToDelete memory.tenantId memory.id
      (decreaseMemorySizeCache memory.id deleteSize { state with rows := rows }, true)
    else (state, false)
  else (state, true)

/-- `embed_and_save` of messages that are embedded, and whether it reports success. -/
def embedAndSave (runtime : Runtime Element) (memory : MemoryRecord) (messages : List (Message Element))
    (creates : Bool) (insertion : Insertion Element) (state : State Element) :
    State Element × Bool :=
  -- `vector_list[0]` fails without messages.
  if messages = [] then (state, false)
  else
    match withIndex memory creates state with
    | none => (state, false)
    | some state =>
      let newMsgSize := messagesSize runtime messages
      let (state, room) := makeRoom runtime memory newMsgSize state
      if room then
        let rows := insertMessage runtime state.rows messages insertion.accepts memory.tenantId
          memory.id
        let state := { state with rows := rows }
        if insertion.failCases then (state, false)
        else (increaseMemorySizeCache memory.id newMsgSize state, true)
      else (state, false)

def forgetMessage (memory : MemoryRecord) (messageId forgetTime : Nat) (state : State Element) :
    State Element :=
  let forget (row : Row Element) : Row Element :=
    if row.key = (memory.tenantId, memory.id, messageId) then
      { row with message := { row.message with forgetAt := some forgetTime } }
    else row
  { state with rows := state.rows.map forget }

inductive Move (Element : Type u)
  | save (messages : List (Message Element)) (creates : Bool) (insertion : Insertion Element)
  /-- The size is read, at the start of the server or by an update of the memory. -/
  | read
  | forget (messageId forgetTime : Nat)
  | expire (memoryId : String)

def step (runtime : Runtime Element) (memory : MemoryRecord) (state : State Element) :
    Move Element → State Element
  | .save messages creates insertion =>
    (embedAndSave runtime memory messages creates insertion state).1
  | .read => (getMemorySizeCache runtime memory.id memory.tenantId state).2
  | .forget messageId forgetTime => forgetMessage memory messageId forgetTime state
  | .expire memoryId =>
    { state with sizeCache := Function.update state.sizeCache memoryId none }

def State.messages (state : State Element) (memory : MemoryRecord) : List (Message Element) :=
  messagesOf state.rows memory.id memory.tenantId

def cachedSize (runtime : Runtime Element) (memory : MemoryRecord) (state : State Element) : Int :=
  (getMemorySizeCache runtime memory.id memory.tenantId state).1

/-- The messages that are there after a save are the new ones and all but the oldest of those there
were before, and without the last of these that went there was not enough room. -/
def EvictsOldest (runtime : Runtime Element) (memory : MemoryRecord)
    (new : List (Message Element)) (before after : State Element) : Prop :=
  ∃ evicted kept, fifoOrder (before.messages memory) = evicted ++ kept ∧
    (after.messages memory).Perm (kept ++ new.map (storedMessage runtime)) ∧
    ∀ fewer last, evicted = fewer ++ [last] →
      memory.memorySize < messagesSize runtime (last :: kept) + messagesSize runtime new

structure Keeps (runtime : Runtime Element) (memory : MemoryRecord) (state : State Element)
    (move : Move Element) : Prop where
  counted : cachedSize runtime memory (step runtime memory state move) =
    messagesSize runtime ((step runtime memory state move).messages memory)
  saved : ∀ messages creates insertion, move = .save messages creates insertion →
    (embedAndSave runtime memory messages creates insertion state).2 = true →
    messagesSize runtime ((step runtime memory state move).messages memory) ≤ memory.memorySize ∧
      EvictsOldest runtime memory messages state (step runtime memory state move)
  failed : ∀ messages creates insertion, move = .save messages creates insertion →
    (embedAndSave runtime memory messages creates insertion state).2 = false →
    (step runtime memory state move).rows = state.rows ∧
      cachedSize runtime memory (step runtime memory state move) = cachedSize runtime memory state

def fresh : State Element where
  indices := []
  rows := []
  sizeCache _ := none

/-- `embed_and_save` comes to the insertion: there are messages, the index is there or is created,
and the messages fit or may take the place of others. -/
def Inserts (runtime : Runtime Element) (memory : MemoryRecord) (messages : List (Message Element))
    (creates : Bool) (state : State Element) : Prop :=
  messages ≠ [] ∧ (memory.tenantId ∈ state.indices ∨ creates = true) ∧
    (messagesSize runtime messages ≤ memory.memorySize ∨ memory.forgettingPolicy = .fifo)

/-- The messages fit beside the stored ones, are all accepted, and are counted as what they are:
they have new ids and are as large when they are read back, and the cache has not expired. -/
structure Fits (runtime : Runtime Element) (memory : MemoryRecord) (messages : List (Message Element))
    (insertion : Insertion Element) (state : State Element) : Prop where
  room : messagesSize runtime (state.messages memory) + messagesSize runtime messages ≤
    memory.memorySize
  cached : state.sizeCache memory.id ≠ none ∨ state.messages memory = []
  accepted : ∀ message ∈ messages, insertion.accepts message = true
  unique : (messages.map Message.messageId).Nodup
  unused : ∀ message ∈ messages, message.messageId ∉ (state.messages memory).map Message.messageId
  sameSize : ∀ message ∈ messages,
    calculateMessageSize runtime (storedMessage runtime message) =
      calculateMessageSize runtime message

/-- A save that succeeds needs no eviction, one that fails has nothing inserted or evicted, and the
cache expires only while a search finds all messages. -/
def Safe (runtime : Runtime Element) (memory : MemoryRecord) (state : State Element) :
    Move Element → Prop
  | .save messages creates insertion =>
    Inserts runtime memory messages creates state →
      if insertion.failCases then
        (∀ message ∈ messages, insertion.accepts message = false) ∧
          (messagesSize runtime messages ≤ memory.memorySize ∨ state.messages memory = [])
      else Fits runtime memory messages insertion state
  | .read => True
  | .forget _ _ => True
  | .expire memoryId => memoryId = memory.id → (state.messages memory).length ≤ 2048

section Invariant

variable {runtime : Runtime Element} {memory : MemoryRecord} {state : State Element}

/-- All documents are those of the memory; the key that `embed_and_save` reads is 0 if it is there;
the key of the memory has its size, or is missing while a search finds all messages. -/
structure Sound (runtime : Runtime Element) (memory : MemoryRecord) (state : State Element) :
    Prop where
  own : ∀ row ∈ state.rows, row.uid = memory.tenantId ∧ row.memoryId = memory.id
  asked : state.sizeCache memory.tenantId = none ∨ state.sizeCache memory.tenantId = some 0
  counted : state.sizeCache memory.id = some (messagesSize runtime (state.messages memory) : Int) ∨
    (state.sizeCache memory.id = none ∧ (state.messages memory).length ≤ 2048)

theorem sound_fresh : Sound runtime memory fresh where
  own row stored := by cases stored
  asked := .inl rfl
  counted := .inr ⟨rfl, Nat.zero_le _⟩

theorem cachedSize_of_sound (sound : Sound runtime memory state) :
    cachedSize runtime memory state = messagesSize runtime (state.messages memory) := by
  rw [cachedSize, getMemorySizeCache]
  rcases sound.counted with cached | ⟨missing, few⟩
  · simp only [cached]
  · simp only [missing, calculateMemorySize_of_few few]
    rfl

theorem messagesOf_swapped (sound : Sound runtime memory state) :
    messagesOf state.rows memory.tenantId memory.id = [] := by
  rw [messagesOf, List.filter_eq_nil_iff.mpr]
  · rfl
  · intro row stored other
    have mine := (sound.own row stored).1
    have swapped : row.uid = memory.id := (of_decide_eq_true other).1
    exact memory.distinct (swapped.symm.trans mine)

theorem sound_of_rows {other : State Element} (sound : Sound runtime memory state)
    (rows : other.rows = state.rows)
    (asked : other.sizeCache memory.tenantId = none ∨ other.sizeCache memory.tenantId = some 0)
    (cached : other.sizeCache memory.id = state.sizeCache memory.id) :
    Sound runtime memory other where
  own := rows ▸ sound.own
  asked := asked
  counted := by
    have same : other.messages memory = state.messages memory := by
      rw [State.messages, rows, State.messages]
    rw [cached, same]
    exact sound.counted

theorem getMemorySizeCache_swapped (sound : Sound runtime memory state) :
    ∃ asked, getMemorySizeCache runtime memory.tenantId memory.id state = (0, asked) ∧
      asked.rows = state.rows ∧ asked.sizeCache memory.id = state.sizeCache memory.id ∧
      Sound runtime memory asked := by
  rcases sound.asked with missing | cached
  · have zero : calculateMemorySize runtime state.rows memory.tenantId memory.id = 0 := by
      rw [calculateMemorySize_of_few] <;> simp [messagesOf_swapped sound]
    have kept : (setMemorySizeCache memory.tenantId 0 state).sizeCache memory.id =
        state.sizeCache memory.id := Function.update_of_ne memory.distinct _ _
    refine ⟨setMemorySizeCache memory.tenantId 0 state, ?_, rfl, kept, ?_⟩
    · simp only [getMemorySizeCache, missing, zero]
      rfl
    · exact sound_of_rows sound rfl (.inr (Function.update_self ..)) kept
  · refine ⟨state, ?_, rfl, rfl, sound⟩
    simp only [getMemorySizeCache, cached]

theorem makeRoom_of_fits (sound : Sound runtime memory state) {newMsgSize : Nat}
    (fits : newMsgSize ≤ memory.memorySize) :
    ∃ room, makeRoom runtime memory newMsgSize state = (room, true) ∧
      room.rows = state.rows ∧ room.sizeCache memory.id = state.sizeCache memory.id ∧
      Sound runtime memory room := by
  obtain ⟨asked, result, rows, cached, stillSound⟩ := getMemorySizeCache_swapped sound
  refine ⟨asked, ?_, rows, cached, stillSound⟩
  have fitsInt : ¬((memory.memorySize : Int) < newMsgSize + 0) := by omega
  simp only [makeRoom, result, if_neg fitsInt]

theorem makeRoom_of_empty (sound : Sound runtime memory state)
    (empty : state.messages memory = []) (newMsgSize : Nat) :
    ∃ room ok, makeRoom runtime memory newMsgSize state = (room, ok) ∧
      room.rows = state.rows ∧ Sound runtime memory room := by
  obtain ⟨asked, result, rows, cached, stillSound⟩ := getMemorySizeCache_swapped sound
  by_cases fits : (memory.memorySize : Int) < newMsgSize + 0
  · by_cases fifo : memory.forgettingPolicy = .fifo
    · have none_asked : messagesOf asked.rows memory.id memory.tenantId = [] := by
        rw [rows]
        exact empty
      have none_picked : ∀ size, pickMessagesToDeleteByFifo runtime asked.rows memory.id
          memory.tenantId size = ([], 0) := by
        intro size
        simp [pickMessagesToDeleteByFifo, none_asked, forgottenMessages, oldMessages, pickLoop]
      have none_deleted : deleteMessage asked.rows [] memory.tenantId memory.id = asked.rows := by
        simp [deleteMessage]
      refine ⟨decreaseMemorySizeCache memory.id 0 asked, true, ?_, rows, ?_⟩
      · simp only [makeRoom, result, if_pos fits, if_pos fifo, none_picked, none_deleted]
      · have noMessages : asked.messages memory = [] := none_asked
        constructor
        · exact stillSound.own
        · have kept : (decreaseMemorySizeCache memory.id 0 asked).sizeCache memory.tenantId =
              asked.sizeCache memory.tenantId := Function.update_of_ne memory.distinct.symm _ _
          rw [kept]
          exact stillSound.asked
        · left
          have start : (asked.sizeCache memory.id).getD 0 = 0 := by
            rcases stillSound.counted with cached | ⟨missing, -⟩
            · simp [cached, noMessages]
            · simp [missing]
          have same : (decreaseMemorySizeCache memory.id 0 asked).messages memory =
              asked.messages memory := rfl
          rw [same, noMessages, decreaseMemorySizeCache, setMemorySizeCache, start]
          simp
    · exact ⟨asked, false, by simp only [makeRoom, result, if_pos fits, if_neg fifo], rows,
        stillSound⟩
  · exact ⟨asked, true, by simp only [makeRoom, result, if_neg fits], rows, stillSound⟩

theorem makeRoom_refused (sound : Sound runtime memory state) {newMsgSize : Nat}
    (exceeds : ¬newMsgSize ≤ memory.memorySize) (other : memory.forgettingPolicy ≠ .fifo) :
    ∃ asked, makeRoom runtime memory newMsgSize state = (asked, false) ∧
      asked.rows = state.rows ∧ Sound runtime memory asked := by
  obtain ⟨asked, result, rows, -, stillSound⟩ := getMemorySizeCache_swapped sound
  refine ⟨asked, ?_, rows, stillSound⟩
  have exceedsInt : (memory.memorySize : Int) < newMsgSize + 0 := by omega
  simp only [makeRoom, result, if_pos exceedsInt, if_neg other]

def rowsOf (runtime : Runtime Element) (memory : MemoryRecord) (messages : List (Message Element)) :
    List (Row Element) :=
  messages.map fun message => ⟨memory.tenantId, memory.id, storedMessage runtime message⟩

theorem messagesOf_append_rowsOf (rows : List (Row Element)) (messages : List (Message Element)) :
    messagesOf (rows ++ rowsOf runtime memory messages) memory.id memory.tenantId =
      messagesOf rows memory.id memory.tenantId ++ messages.map (storedMessage runtime) := by
  have mine : (rowsOf runtime memory messages).filter
      (fun row => row.uid = memory.tenantId ∧ row.memoryId = memory.id) =
        rowsOf runtime memory messages := by
    apply List.filter_eq_self.mpr
    intro row new
    obtain ⟨message, -, rfl⟩ := List.mem_map.mp new
    simp
  rw [messagesOf, List.filter_append, mine, List.map_append, rowsOf, List.map_map]
  rfl

theorem messages_of_append {after : State Element} {messages : List (Message Element)}
    (rows : after.rows = state.rows ++ rowsOf runtime memory messages) :
    after.messages memory = state.messages memory ++ messages.map (storedMessage runtime) := by
  rw [State.messages, rows]
  exact messagesOf_append_rowsOf state.rows messages

theorem Fits.messagesSize_stored {messages : List (Message Element)} {insertion : Insertion Element}
    (fits : Fits runtime memory messages insertion state) :
    messagesSize runtime (messages.map (storedMessage runtime)) = messagesSize runtime messages := by
  rw [messagesSize, List.map_map, messagesSize]
  exact congrArg List.sum (List.map_congr_left fits.sameSize)

theorem insertMessage_of_refused {rows : List (Row Element)} {messages : List (Message Element)}
    {accepts : Message Element → Bool}
    (refused : ∀ message ∈ messages, accepts message = false) (uid memoryId : String) :
    insertMessage runtime rows messages accepts uid memoryId = rows := by
  have none_left : messages.filter accepts = [] := by
    apply List.filter_eq_nil_iff.mpr
    intro message listed accepted
    exact Bool.false_ne_true ((refused message listed).symm.trans accepted)
  rw [insertMessage, none_left]
  rfl

theorem insertMessage_of_fits {messages : List (Message Element)} {insertion : Insertion Element}
    (fits : Fits runtime memory messages insertion state) :
    insertMessage runtime state.rows messages insertion.accepts memory.tenantId memory.id =
      state.rows ++ rowsOf runtime memory messages := by
  rw [insertMessage, List.filter_eq_self.mpr fits.accepted]
  apply Table.upsertAll_of_fresh
  · have keys : (messages.map fun message : Message Element =>
        (⟨memory.tenantId, memory.id, storedMessage runtime message⟩ : Row Element)).map Row.key =
        (messages.map Message.messageId).map fun id => (memory.tenantId, memory.id, id) := by
      rw [List.map_map, List.map_map]
      rfl
    rw [keys]
    apply List.Nodup.map _ fits.unique
    intro first second same
    simpa using same
  · intro row new used
    obtain ⟨message, listed, rfl⟩ := List.mem_map.mp new
    obtain ⟨other, stored, sameKey⟩ := List.mem_map.mp used
    simp only [Row.key, Prod.mk.injEq] at sameKey
    obtain ⟨sameUid, sameMemory, sameId⟩ := sameKey
    apply fits.unused message listed
    refine List.mem_map.mpr ⟨other.message, ?_, sameId⟩
    exact List.mem_map_of_mem (List.mem_filter.mpr ⟨stored, by simp [sameUid, sameMemory]⟩)

theorem sound_insert {room : State Element} {messages : List (Message Element)}
    {insertion : Insertion Element} (sound : Sound runtime memory room)
    (rows : room.rows = state.rows) (cached : room.sizeCache memory.id = state.sizeCache memory.id)
    (fits : Fits runtime memory messages insertion state) :
    Sound runtime memory (increaseMemorySizeCache memory.id (messagesSize runtime messages)
      { room with rows := state.rows ++ rowsOf runtime memory messages }) where
  own := by
    intro row stored
    rcases List.mem_append.mp stored with before | new
    · exact sound.own row (rows ▸ before)
    · obtain ⟨message, -, rfl⟩ := List.mem_map.mp new
      exact ⟨rfl, rfl⟩
  asked := by
    have kept : (increaseMemorySizeCache memory.id (messagesSize runtime messages)
        { room with rows := state.rows ++ rowsOf runtime memory messages }).sizeCache
          memory.tenantId = room.sizeCache memory.tenantId :=
      Function.update_of_ne memory.distinct.symm _ _
    rw [kept]
    exact sound.asked
  counted := by
    left
    have same : room.messages memory = state.messages memory := by
      rw [State.messages, rows, State.messages]
    have before : (room.sizeCache memory.id).getD 0 =
        (messagesSize runtime (state.messages memory) : Int) := by
      rcases sound.counted with counted | ⟨missing, -⟩
      · rw [counted, same]
        rfl
      · have empty := fits.cached.resolve_left (not_not.mpr (cached ▸ missing))
        rw [missing, empty]
        rfl
    have after : (increaseMemorySizeCache memory.id (messagesSize runtime messages)
        { room with rows := state.rows ++ rowsOf runtime memory messages }).sizeCache memory.id =
          some ((room.sizeCache memory.id).getD 0 + messagesSize runtime messages) :=
      Function.update_self ..
    have messagesAfter : (increaseMemorySizeCache memory.id (messagesSize runtime messages)
        { room with rows := state.rows ++ rowsOf runtime memory messages }).messages memory =
          state.messages memory ++ messages.map (storedMessage runtime) := messages_of_append rfl
    rw [after, before, messagesAfter, messagesSize_append, fits.messagesSize_stored,
      Int.natCast_add]

theorem withIndex_cases (creates : Bool) :
    withIndex memory creates state = none ∧ ¬(memory.tenantId ∈ state.indices ∨ creates = true) ∨
      ∃ indices, withIndex memory creates state = some { state with indices := indices } ∧
        (memory.tenantId ∈ state.indices ∨ creates = true) := by
  rw [withIndex]
  by_cases there : memory.tenantId ∈ state.indices
  · exact .inr ⟨state.indices, by simp [there], .inl there⟩
  · by_cases created : creates = true
    · exact .inr ⟨memory.tenantId :: state.indices, by simp [there, created], .inr created⟩
    · exact .inl ⟨by simp [there, created], by simp [there, created]⟩

theorem embedAndSave_cases (sound : Sound runtime memory state)
    {messages : List (Message Element)} {creates : Bool} {insertion : Insertion Element}
    (safe : Safe runtime memory state (.save messages creates insertion)) :
    ∃ after ok, embedAndSave runtime memory messages creates insertion state = (after, ok) ∧
      Sound runtime memory after ∧
      (ok = false ∧ after.rows = state.rows ∨
        ok = true ∧ Fits runtime memory messages insertion state ∧
          after.rows = state.rows ++ rowsOf runtime memory messages) := by
  by_cases empty : messages = []
  · exact ⟨state, false, by rw [embedAndSave, if_pos empty], sound, .inl ⟨rfl, rfl⟩⟩
  rcases @withIndex_cases _ memory state creates with ⟨missing, -⟩ | ⟨indices, indexed, there⟩
  · refine ⟨state, false, ?_, sound, .inl ⟨rfl, rfl⟩⟩
    simp only [embedAndSave, if_neg empty, missing]
  let withNew : State Element := { state with indices := indices }
  have soundNew : Sound runtime memory withNew := sound_of_rows sound rfl sound.asked rfl
  by_cases attempted : messagesSize runtime messages ≤ memory.memorySize ∨
      memory.forgettingPolicy = .fifo
  · have condition := safe ⟨empty, there, attempted⟩
    cases fails : insertion.failCases with
    | true =>
      rw [fails, if_pos rfl] at condition
      obtain ⟨refused, fits | none_stored⟩ := condition
      · obtain ⟨room, result, rows, -, soundRoom⟩ := makeRoom_of_fits soundNew fits
        refine ⟨room, false, ?_, soundRoom, .inl ⟨rfl, rows⟩⟩
        simp only [embedAndSave, if_neg empty, indexed, result, fails, if_true,
          insertMessage_of_refused refused, withNew]
      · obtain ⟨room, ok, result, rows, soundRoom⟩ := makeRoom_of_empty soundNew none_stored
          (messagesSize runtime messages)
        refine ⟨room, false, ?_, soundRoom, .inl ⟨rfl, rows⟩⟩
        cases ok with
        | true => simp only [embedAndSave, if_neg empty, indexed, result, fails, if_true,
            insertMessage_of_refused refused, withNew]
        | false => simp [embedAndSave, empty, indexed, result, withNew]
    | false =>
      rw [fails, if_neg Bool.false_ne_true] at condition
      have alone := Nat.le_trans (Nat.le_add_left _ _) condition.room
      obtain ⟨room, result, rows, cached, soundRoom⟩ := makeRoom_of_fits soundNew alone
      have inserted := insertMessage_of_fits condition
      have rowsState : room.rows = state.rows := rows
      refine ⟨_, true, ?_, sound_insert soundRoom rowsState cached condition,
        .inr ⟨rfl, condition, rfl⟩⟩
      simp only [embedAndSave, if_neg empty, indexed, result, fails, if_true, rowsState, inserted,
        Bool.false_eq_true, if_false, withNew]
  · obtain ⟨exceeds, other⟩ := not_or.mp attempted
    obtain ⟨asked, result, rows, soundAsked⟩ := makeRoom_refused soundNew exceeds other
    refine ⟨asked, false, ?_, soundAsked, .inl ⟨rfl, rows⟩⟩
    simp [embedAndSave, empty, indexed, result, withNew]

theorem messages_forget (messageId forgetTime : Nat) :
    ((forgetMessage memory messageId forgetTime state).messages memory).map
        (calculateMessageSize runtime) =
      (state.messages memory).map (calculateMessageSize runtime) := by
  rw [State.messages, State.messages, forgetMessage, messagesOf, messagesOf, List.filter_map,
    List.map_map, List.map_map, List.map_map]
  have sameTest : ((fun row : Row Element => decide (row.uid = memory.tenantId ∧
      row.memoryId = memory.id)) ∘ fun row : Row Element =>
        if row.key = (memory.tenantId, memory.id, messageId) then
          { row with message := { row.message with forgetAt := some forgetTime } }
        else row) = fun row => decide (row.uid = memory.tenantId ∧ row.memoryId = memory.id) := by
    funext row
    by_cases forgotten : row.key = (memory.tenantId, memory.id, messageId) <;> simp [forgotten]
  rw [sameTest]
  apply List.map_congr_left
  intro row _
  by_cases forgotten : row.key = (memory.tenantId, memory.id, messageId)
  · simp [forgotten, calculateMessageSize]
  · simp [forgotten]

theorem sound_forget (sound : Sound runtime memory state) (messageId forgetTime : Nat) :
    Sound runtime memory (forgetMessage memory messageId forgetTime state) where
  own := by
    intro row stored
    obtain ⟨before, beforeStored, rfl⟩ := List.mem_map.mp stored
    by_cases forgotten : before.key = (memory.tenantId, memory.id, messageId)
    · simpa [forgotten] using sound.own before beforeStored
    · simpa [forgotten] using sound.own before beforeStored
  asked := sound.asked
  counted := by
    have sizes := @messages_forget _ runtime memory state messageId forgetTime
    have length := congrArg List.length sizes
    rw [List.length_map, List.length_map] at length
    rw [messagesSize, sizes, length]
    exact sound.counted

theorem sound_read (sound : Sound runtime memory state) :
    Sound runtime memory (getMemorySizeCache runtime memory.id memory.tenantId state).2 := by
  rw [getMemorySizeCache]
  rcases sound.counted with cached | ⟨missing, few⟩
  · simp only [cached]
    exact sound
  · simp only [missing]
    have kept : (setMemorySizeCache memory.id
        (calculateMemorySize runtime state.rows memory.id memory.tenantId) state).sizeCache
          memory.tenantId = state.sizeCache memory.tenantId :=
      Function.update_of_ne memory.distinct.symm _ _
    constructor
    · exact sound.own
    · rw [kept]
      exact sound.asked
    · left
      rw [calculateMemorySize_of_few few]
      exact Function.update_self ..

theorem sound_expire (sound : Sound runtime memory state) {memoryId : String}
    (safe : Safe runtime memory state (.expire memoryId)) :
    Sound runtime memory
      { state with sizeCache := Function.update state.sizeCache memoryId none } where
  own := sound.own
  asked := by
    by_cases same : memory.tenantId = memoryId
    · exact .inl (same ▸ Function.update_self ..)
    · simpa only [Function.update_of_ne same] using sound.asked
  counted := by
    by_cases same : memory.id = memoryId
    · exact .inr ⟨same ▸ Function.update_self .., safe same.symm⟩
    · simp only [Function.update_of_ne same]
      exact sound.counted

theorem sound_step {move : Move Element} (safe : Safe runtime memory state move)
    (sound : Sound runtime memory state) : Sound runtime memory (step runtime memory state move) := by
  cases move with
  | save messages creates insertion =>
    obtain ⟨after, ok, result, soundAfter, -⟩ := embedAndSave_cases sound safe
    rw [step, result]
    exact soundAfter
  | read => exact sound_read sound
  | forget messageId forgetTime => exact sound_forget sound messageId forgetTime
  | expire memoryId => exact sound_expire sound safe

theorem evictsOldest_of_append {after : State Element} {messages : List (Message Element)}
    (rows : after.rows = state.rows ++ rowsOf runtime memory messages) :
    EvictsOldest runtime memory messages state after := by
  refine ⟨[], fifoOrder (state.messages memory), rfl, ?_, ?_⟩
  · rw [messages_of_append rows]
    exact (fifoOrder_perm (state.messages memory)).symm.append_right _
  · intro fewer last none_evicted
    simp at none_evicted

theorem keeps_of_safe {move : Move Element} (safe : Safe runtime memory state move)
    (sound : Sound runtime memory state) : Keeps runtime memory state move where
  counted := cachedSize_of_sound (sound_step safe sound)
  saved := by
    rintro messages creates insertion rfl succeeds
    obtain ⟨after, ok, result, soundAfter, ⟨rfl, -⟩ | ⟨rfl, fits, rows⟩⟩ :=
      embedAndSave_cases sound safe
    · rw [result] at succeeds
      cases succeeds
    · rw [step, result]
      refine ⟨?_, evictsOldest_of_append rows⟩
      rw [messages_of_append rows, messagesSize_append, fits.messagesSize_stored]
      exact fits.room
  failed := by
    rintro messages creates insertion rfl fails
    obtain ⟨after, ok, result, soundAfter, ⟨rfl, rows⟩ | ⟨rfl, -⟩⟩ :=
      embedAndSave_cases sound safe
    · rw [step, result]
      refine ⟨rows, ?_⟩
      rw [cachedSize_of_sound soundAfter, cachedSize_of_sound sound, State.messages, rows,
        State.messages]
    · rw [result] at fails
      cases fails

end Invariant

/-- In every run of safe moves the cached size is the size of the messages, saves stay within the
memory's capacity, and failed saves change nothing. -/
theorem keeps_along (runtime : Runtime Element) (memory : MemoryRecord)
    (moves : List (Move Element))
    (safe : Runs.Along (step runtime memory) (Safe runtime memory) fresh moves) :
    Runs.Along (step runtime memory) (Keeps runtime memory) fresh moves := by
  have preserved := fun state move => @sound_step _ runtime memory state move
  have follows := fun state move => @keeps_of_safe _ runtime memory state move
  exact Runs.along_of_invariant sound_fresh preserved follows safe

def cpython : Runtime Unit where
  text content := 41 + content.length
  element _ := 24
  readBack element := element

def memoryOfSize (memorySize : Nat) : MemoryRecord where
  id := "memory"
  tenantId := "tenant"
  memorySize := memorySize
  forgettingPolicy := .fifo
  distinct := by decide

def hello (messageId : Nat) : Message Unit := ⟨messageId, "hello", [()], messageId, none⟩

def insertsAll : Insertion Unit := ⟨fun _ => true, false⟩

theorem keeps_twoMessages :
    Runs.Along (step cpython (memoryOfSize 140)) (Keeps cpython (memoryOfSize 140)) fresh
      [.save [hello 1] true insertsAll, .expire "memory", .read,
        .save [hello 2] true insertsAll] := by
  apply keeps_along
  simp only [Runs.along_cons]
  refine ⟨fun _ => ?_, fun _ => by decide, trivial, fun _ => ?_, Runs.along_nil⟩
  · refine ⟨by decide, .inr rfl, fun _ _ => rfl, by decide, fun _ _ => List.not_mem_nil, ?_⟩
    simp [storedMessage, cpython]
  · refine ⟨by decide, .inl (by decide), fun _ _ => rfl, by decide, by decide, ?_⟩
    simp [storedMessage, cpython]

/-- Two saves exceed the capacity and evict nothing; messages that are evicted for others are gone
when the others are not inserted; a cache that has expired counts the new messages only. -/
theorem not_keeps :
    ¬Runs.Along (step cpython (memoryOfSize 100)) (Keeps cpython (memoryOfSize 100)) fresh
      [.save [hello 1] true insertsAll, .save [hello 2] true insertsAll] ∧
    ¬Runs.Along (step cpython (memoryOfSize 100)) (Keeps cpython (memoryOfSize 100)) fresh
      [.save [hello 1] true insertsAll,
        .save [hello 2, hello 3] true ⟨fun _ => false, true⟩] ∧
    ¬Runs.Along (step cpython (memoryOfSize 140)) (Keeps cpython (memoryOfSize 140)) fresh
      [.save [hello 1] true insertsAll, .expire "memory", .save [hello 2] true insertsAll] := by
  refine ⟨fun keeps => ?_, fun keeps => ?_, fun keeps => ?_⟩
  · have second := keeps [.save [hello 1] true insertsAll] (.save [hello 2] true insertsAll) [] rfl
    exact absurd (second.saved _ _ _ rfl (by decide)).1 (by decide)
  · have second := keeps [.save [hello 1] true insertsAll]
      (.save [hello 2, hello 3] true ⟨fun _ => false, true⟩) [] rfl
    exact absurd (congrArg List.length (second.failed _ _ _ rfl (by decide)).1) (by decide)
  · have third := keeps [.save [hello 1] true insertsAll, .expire "memory"]
      (.save [hello 2] true insertsAll) [] rfl
    exact absurd third.counted (by decide)

end RagFlow.Memory
