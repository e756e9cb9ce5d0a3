import Mathlib
import RagFlow.Lib.PyString
import RagFlow.Lib.Table

/-!
# Documents, their tasks and their chunks

The tables that hold documents and knowledge bases with their counters, the parse tasks, and
the chunks in the document store.
-/

namespace RagFlow.Documents

open RagFlow.Lib

inductive TaskStatus where
  | unstart
  | running
  | cancel
  | done
  | fail
  | schedule
  deriving DecidableEq

structure Knowledgebase where
  id : String
  docNum : Int
  chunkNum : Int
  tokenNum : Int
  deriving DecidableEq

structure Document where
  id : String
  kbId : String
  pipelineId : String
  run : TaskStatus
  chunkNum : Int
  tokenNum : Int
  deriving DecidableEq

/-- A parse task.  `chunkIds` holds the ids of its chunks, with spaces between them. -/
structure Task where
  docId : String
  fromPage : Nat
  digest : String
  createTime : Nat
  progress : ℚ
  chunkIds : String
  deriving DecidableEq

structure Chunk where
  id : String
  docId : String
  kbId : String
  deriving DecidableEq

structure Database where
  knowledgebases : List Knowledgebase
  documents : List Document
  tasks : List Task
  chunks : List Chunk
  deriving DecidableEq

namespace Database

def document? (db : Database) (docId : String) : Option Document :=
  db.documents.find? fun doc => doc.id = docId

def updateDocument (db : Database) (docId : String) (change : Document → Document) : Database :=
  { db with documents := Table.modify Document.id docId change db.documents }

def updateKnowledgebase (db : Database) (kbId : String) (change : Knowledgebase → Knowledgebase) :
    Database :=
  { db with knowledgebases := Table.modify Knowledgebase.id kbId change db.knowledgebases }

def deleteTasks (db : Database) (docId : String) : Database :=
  { db with tasks := db.tasks.filter fun task => task.docId ≠ docId }

/-- `docStoreConn.delete({"doc_id": doc_id}, …, kb_id)`. -/
def deleteChunksOf (db : Database) (docId kbId : String) : Database :=
  { db with chunks := db.chunks.filter fun chunk => ¬ (chunk.kbId = kbId ∧ chunk.docId = docId) }

/-- `docStoreConn.delete({"id": ids}, …, kb_id)`. -/
def deleteChunks (db : Database) (ids : List String) (kbId : String) : Database :=
  { db with chunks := db.chunks.filter fun chunk => ¬ (chunk.kbId = kbId ∧ chunk.id ∈ ids) }

def stores (db : Database) (kbId id : String) : Bool :=
  db.chunks.any fun chunk => chunk.kbId = kbId ∧ chunk.id = id

/-- `order_by(from_page.asc(), create_time.desc())`. -/
def getTasks (db : Database) (docId : String) : List Task :=
  (db.tasks.filter fun task => task.docId = docId).insertionSort fun first second =>
    first.fromPage < second.fromPage ∨
      first.fromPage = second.fromPage ∧ second.createTime ≤ first.createTime

theorem document?_eq_some {db : Database} {docId : String} {doc : Document}
    (found : db.document? docId = some doc) : doc ∈ db.documents ∧ doc.id = docId :=
  ⟨List.mem_of_find?_eq_some found, by simpa using List.find?_some found⟩

theorem document?_updateDocument {db : Database} {docId : String} {change : Document → Document}
    (same : ∀ doc, (change doc).id = doc.id) :
    (db.updateDocument docId change).document? docId = (db.document? docId).map change :=
  Table.find?_modify same db.documents

@[simp] theorem stores_deleteChunks {db : Database} {ids : List String} {kbId id : String} :
    (db.deleteChunks ids kbId).stores kbId id = (db.stores kbId id && decide (id ∉ ids)) := by
  rw [Bool.eq_iff_iff]
  simp only [stores, deleteChunks, List.any_eq_true, List.mem_filter, Bool.and_eq_true,
    decide_eq_true_eq]
  constructor
  · rintro ⟨chunk, ⟨stored, kept⟩, inKb, rfl⟩
    exact ⟨⟨chunk, stored, inKb, rfl⟩, fun listed => kept ⟨inKb, listed⟩⟩
  · rintro ⟨⟨chunk, stored, inKb, rfl⟩, notListed⟩
    exact ⟨chunk, ⟨stored, fun gone => notListed gone.2⟩, inKb, rfl⟩

end Database

end RagFlow.Documents

/-!
# Queueing the parse tasks of a document

`queue_tasks` replaces the tasks of a document.  A new task takes over the chunks of the first
previous task with its first page and its digest, if that one is complete; the chunks of the
other previous tasks are deleted.
-/

namespace RagFlow.Documents

open RagFlow.Lib

/-- What a new task is made of, besides the defaults of `new_task`. -/
structure ParseTask where
  fromPage : Nat
  digest : String
  createTime : Nat
  deriving DecidableEq

def ParseTask.newTask (parse : ParseTask) (docId : String) : Task where
  docId := docId
  fromPage := parse.fromPage
  digest := parse.digest
  createTime := parse.createTime
  progress := 0
  chunkIds := ""

def Task.key (task : Task) : Nat × String := (task.fromPage, task.digest)

def ParseTask.key (parse : ParseTask) : Nat × String := (parse.fromPage, parse.digest)

def Task.ids (task : Task) : List String := PyString.split task.chunkIds

def reusePrevTaskChunks (task : Task) : List Task → Task × List Task × Nat
  | [] => (task, [], 0)
  | prevTask :: rest =>
    if prevTask.key = task.key then
      if prevTask.progress < 1 ∨ prevTask.chunkIds = "" then (task, prevTask :: rest, 0)
      else
        ({ task with chunkIds := prevTask.chunkIds, progress := 1 },
          { prevTask with chunkIds := "" } :: rest, prevTask.ids.length)
    else
      let (task, rest, reused) := reusePrevTaskChunks task rest
      (task, prevTask :: rest, reused)

/-- `for task in parse_task_array: ck_num += reuse_prev_task_chunks(…)`. -/
def reuseAll : List Task → List Task → List Task × List Task × Nat
  | [], prevTasks => ([], prevTasks, 0)
  | task :: rest, prevTasks =>
    let (task, prevTasks, reused) := reusePrevTaskChunks task prevTasks
    let (rest, prevTasks, ckNum) := reuseAll rest prevTasks
    (task :: rest, prevTasks, reused + ckNum)

/-- An empty `parse_task_array` makes the bulk insertion fail, before `begin2parse`. -/
def queueTasks (db : Database) (doc : Document) (parseTaskArray : List ParseTask) : Database :=
  let prevTasks := db.getTasks doc.id
  let (tasks, prevTasks, ckNum) :=
    reuseAll (parseTaskArray.map fun parse => parse.newTask doc.id) prevTasks
  let db := db.deleteTasks doc.id
  let db := db.deleteChunks (prevTasks.flatMap Task.ids) doc.kbId
  let db := db.updateDocument doc.id fun doc => { doc with chunkNum := ckNum }
  if parseTaskArray = [] then db
  else
    let db := { db with tasks := db.tasks ++ tasks }
    db.updateDocument doc.id fun doc => { doc with run := .running }

def TakenOver (keys before : List (Nat × String)) (task : Task) : Prop :=
  task.key ∈ keys ∧ task.key ∉ before ∧ 1 ≤ task.progress

instance (keys before : List (Nat × String)) (task : Task) :
    Decidable (TakenOver keys before task) :=
  inferInstanceAs (Decidable (_ ∧ _ ∧ _))

/-- The previous tasks that are taken over, `before` being the keys of earlier ones. -/
def takenOver (keys : List (Nat × String)) : List (Nat × String) → List Task → List Task
  | _, [] => []
  | before, task :: rest =>
    if TakenOver keys before task then task :: takenOver keys (task.key :: before) rest
    else takenOver keys (task.key :: before) rest

def leftOver (keys : List (Nat × String)) : List (Nat × String) → List Task → List Task
  | _, [] => []
  | before, task :: rest =>
    if TakenOver keys before task then leftOver keys (task.key :: before) rest
    else task :: leftOver keys (task.key :: before) rest

def cleared (keys : List (Nat × String)) : List (Nat × String) → List Task → List Task
  | _, [] => []
  | before, task :: rest =>
    (if TakenOver keys before task then { task with chunkIds := "" } else task) ::
      cleared keys (task.key :: before) rest

theorem ids_cleared (keys before : List (Nat × String)) (prevTasks : List Task) :
    (cleared keys before prevTasks).flatMap Task.ids =
      (leftOver keys before prevTasks).flatMap Task.ids := by
  induction prevTasks generalizing before with
  | nil => rfl
  | cons task rest ih =>
    rw [cleared, leftOver]
    by_cases taken : TakenOver keys before task <;>
      simp [taken, ih, Task.ids]

theorem takenOver_congr {keys keys' before : List (Nat × String)}
    (same : ∀ key, key ∉ before → (key ∈ keys ↔ key ∈ keys')) (task : Task) :
    TakenOver keys before task ↔ TakenOver keys' before task := by
  unfold TakenOver
  constructor
  · rintro ⟨wanted, first, complete⟩
    exact ⟨(same _ first).mp wanted, first, complete⟩
  · rintro ⟨wanted, first, complete⟩
    exact ⟨(same _ first).mpr wanted, first, complete⟩

theorem cleared_congr {keys keys' before : List (Nat × String)}
    (same : ∀ key, key ∉ before → (key ∈ keys ↔ key ∈ keys')) (prevTasks : List Task) :
    cleared keys before prevTasks = cleared keys' before prevTasks ∧
      takenOver keys before prevTasks = takenOver keys' before prevTasks := by
  induction prevTasks generalizing before with
  | nil => exact ⟨rfl, rfl⟩
  | cons task rest ih =>
    have later : ∀ key, key ∉ task.key :: before → (key ∈ keys ↔ key ∈ keys') :=
      fun key missing => same key fun present => missing (List.mem_cons_of_mem _ present)
    obtain ⟨clearedEq, takenEq⟩ := ih later
    simp only [cleared, takenOver, clearedEq, takenEq, takenOver_congr same task]
    exact ⟨trivial, trivial⟩

theorem reusePrevTaskChunks_cleared {task : Task} (unstarted : task.chunkIds = "")
    (keys : List (Nat × String)) {before : List (Nat × String)} (first : task.key ∉ before)
    (prevTasks : List Task) :
    let reused := reusePrevTaskChunks task (cleared keys before prevTasks)
    reused.2.1 = cleared (keys ++ [task.key]) before prevTasks ∧
      reused.2.2 = reused.1.ids.length ∧
      ((takenOver (keys ++ [task.key]) before prevTasks).flatMap Task.ids).Perm
        ((takenOver keys before prevTasks).flatMap Task.ids ++ reused.1.ids) ∧
      (reused.1.ids ≠ [] → reused.1.progress = 1) ∧ reused.1.docId = task.docId := by
  have noIds : task.ids = [] := by simp [Task.ids, unstarted]
  have grown : ∀ key, key ∈ keys ++ [task.key] ↔ key ∈ keys ∨ key = task.key := by simp
  induction prevTasks generalizing before with
  | nil => simp [cleared, takenOver, reusePrevTaskChunks, noIds]
  | cons prevTask rest ih =>
    by_cases hit : prevTask.key = task.key
    · -- The search stops here; later tasks with this key are not the first ones.
      have later : ∀ key, key ∉ prevTask.key :: before →
          (key ∈ keys ++ [task.key] ↔ key ∈ keys) := by
        intro key missing
        have other : key ≠ task.key := fun same => missing (by simp [same, hit])
        simp [grown, other]
      have restSame := cleared_congr later rest
      have hitCleared : (if TakenOver keys before prevTask then { prevTask with chunkIds := "" }
          else prevTask).key = task.key := by
        split_ifs <;> exact hit
      simp only [cleared, takenOver, reusePrevTaskChunks, if_pos hitCleared, restSame]
      by_cases complete : 1 ≤ prevTask.progress
      · have taken : TakenOver (keys ++ [task.key]) before prevTask :=
          ⟨by simp [hit], hit ▸ first, complete⟩
        by_cases earlier : task.key ∈ keys
        · have already : TakenOver keys before prevTask := ⟨hit ▸ earlier, hit ▸ first, complete⟩
          simp [taken, already, noIds]
        · have notYet : ¬ TakenOver keys before prevTask := fun already =>
            earlier (hit ▸ already.1)
          by_cases empty : prevTask.chunkIds = ""
          · have same : { prevTask with chunkIds := "" } = prevTask := by rw [← empty]
            have noPrevIds : prevTask.ids = [] := by simp [Task.ids, empty]
            simp [taken, notYet, empty, noIds, noPrevIds, same]
          · have running : ¬ prevTask.progress < 1 := not_lt.mpr complete
            simp only [taken, notYet, empty, running, if_true, if_false, or_self]
            refine ⟨trivial, rfl, ?_, fun _ => trivial, trivial⟩
            rw [List.flatMap_cons]
            exact List.perm_append_comm
      · have notTaken : ∀ keys, ¬ TakenOver keys before prevTask := fun _ taken =>
          complete taken.2.2
        have running : prevTask.progress < 1 := not_le.mp complete
        simp [notTaken, running, noIds]
    · have missing : task.key ∉ prevTask.key :: before := by
        simp [first, Ne.symm hit]
      obtain ⟨prevEq, lengthEq, idsPerm, done, sameDoc⟩ := ih missing
      have sameTaken : TakenOver (keys ++ [task.key]) before prevTask ↔
          TakenOver keys before prevTask := by
        simp [TakenOver, hit]
      have missCleared : (if TakenOver keys before prevTask then { prevTask with chunkIds := "" }
          else prevTask).key ≠ task.key := by
        split_ifs <;> exact hit
      simp only [cleared, takenOver, reusePrevTaskChunks, if_neg missCleared, sameTaken]
      refine ⟨by rw [prevEq], lengthEq, ?_, done, sameDoc⟩
      split_ifs
      · rw [List.flatMap_cons, List.flatMap_cons, List.append_assoc]
        exact idsPerm.append_left _
      · exact idsPerm

theorem ids_nil_cleared (before : List (Nat × String)) (prevTasks : List Task) :
    cleared [] before prevTasks = prevTasks ∧ takenOver [] before prevTasks = [] := by
  induction prevTasks generalizing before with
  | nil => exact ⟨rfl, rfl⟩
  | cons task rest ih =>
    obtain ⟨clearedEq, takenEq⟩ := ih (task.key :: before)
    simp [cleared, takenOver, TakenOver, clearedEq, takenEq]

theorem reuseAll_spec (docId : String) (keys : List (Nat × String)) (parses : List ParseTask)
    (prevTasks : List Task) :
    let result := reuseAll (parses.map fun parse => parse.newTask docId) (cleared keys [] prevTasks)
    result.2.1 = cleared (keys ++ parses.map ParseTask.key) [] prevTasks ∧
      result.2.2 = (result.1.flatMap Task.ids).length ∧
      ((takenOver (keys ++ parses.map ParseTask.key) [] prevTasks).flatMap Task.ids).Perm
        ((takenOver keys [] prevTasks).flatMap Task.ids ++ result.1.flatMap Task.ids) ∧
      (∀ task ∈ result.1, task.ids ≠ [] → task.progress = 1) ∧
      ∀ task ∈ result.1, task.docId = docId := by
  induction parses generalizing keys with
  | nil => simp [reuseAll]
  | cons parse parses ih =>
    obtain ⟨prevEq, lengthEq, idsPerm, done, sameDoc⟩ :=
      reusePrevTaskChunks_cleared (show (parse.newTask docId).chunkIds = "" from rfl) keys
        List.not_mem_nil prevTasks
    have rest := ih (keys ++ [parse.key])
    have sameKey : (parse.newTask docId).key = parse.key := rfl
    rw [sameKey] at prevEq idsPerm
    simp only [List.map_cons, reuseAll, prevEq]
    rw [List.append_assoc] at rest
    obtain ⟨restPrev, restLength, restPerm, restDone, restDoc⟩ := rest
    refine ⟨restPrev, ?_, ?_, ?_, ?_⟩
    · rw [List.flatMap_cons, List.length_append, lengthEq, restLength]
    · rw [List.flatMap_cons, ← List.append_assoc]
      exact restPerm.trans (idsPerm.append_right _)
    · rintro task membership
      rcases List.mem_cons.mp membership with rfl | later
      · exact done
      · exact restDone task later
    · rintro task membership
      rcases List.mem_cons.mp membership with rfl | later
      · exact sameDoc
      · exact restDoc task later

theorem mem_ids_iff (keys before : List (Nat × String)) (prevTasks : List Task) (id : String) :
    id ∈ prevTasks.flatMap Task.ids ↔ id ∈ (takenOver keys before prevTasks).flatMap Task.ids ∨
      id ∈ (leftOver keys before prevTasks).flatMap Task.ids := by
  induction prevTasks generalizing before with
  | nil => simp [takenOver, leftOver]
  | cons task rest ih =>
    rw [takenOver, leftOver, List.flatMap_cons, List.mem_append, ih]
    split_ifs
    · rw [List.flatMap_cons, List.mem_append, or_assoc]
    · rw [List.flatMap_cons, List.mem_append, or_left_comm]

section Effect

variable (db : Database) (doc : Document) (parses : List ParseTask)

def reusedIds : List String :=
  (takenOver (parses.map ParseTask.key) [] (db.getTasks doc.id)).flatMap Task.ids

def leftIds : List String :=
  (leftOver (parses.map ParseTask.key) [] (db.getTasks doc.id)).flatMap Task.ids

/-- What `queue_tasks` does to the row of the document. -/
def requeued (stored : Document) : Document :=
  { stored with
    chunkNum := (reusedIds db doc parses).length
    run := if parses = [] then stored.run else .running }

theorem queueTasks_eq : ∃ tasks : List Task,
    (tasks.flatMap Task.ids).Perm (reusedIds db doc parses) ∧
    (∀ task ∈ tasks, task.docId = doc.id ∧ (task.ids ≠ [] → task.progress = 1)) ∧
    queueTasks db doc parses =
      { (db.deleteTasks doc.id).deleteChunks (leftIds db doc parses) doc.kbId with
        tasks := (db.tasks.filter fun task => task.docId ≠ doc.id) ++ tasks
        documents := Table.modify Document.id doc.id (requeued db doc parses) db.documents } := by
  have nothing := ids_nil_cleared [] (db.getTasks doc.id)
  obtain ⟨prevEq, lengthEq, idsPerm, done, sameDoc⟩ :=
    reuseAll_spec doc.id [] parses (db.getTasks doc.id)
  rw [nothing.1] at prevEq lengthEq idsPerm done sameDoc
  rw [nothing.2, List.flatMap_nil, List.nil_append, List.nil_append] at idsPerm
  refine ⟨(reuseAll (parses.map fun parse => parse.newTask doc.id) (db.getTasks doc.id)).1,
    idsPerm.symm, fun task membership => ⟨sameDoc task membership, done task membership⟩, ?_⟩
  have count := lengthEq.trans idsPerm.length_eq.symm
  have left := ids_cleared (parses.map ParseTask.key) [] (db.getTasks doc.id)
  simp only [queueTasks, prevEq, count, List.nil_append, left]
  by_cases empty : parses = []
  · subst empty
    have row : requeued db doc [] =
        fun stored => { stored with chunkNum := ((reusedIds db doc []).length : Int) } := by
      funext stored
      simp [requeued]
    rw [row, if_pos rfl]
    simp only [Database.updateDocument, Database.deleteChunks, Database.deleteTasks, List.map_nil,
      reuseAll, List.append_nil]
    rfl
  · have row : requeued db doc parses = (fun stored => { stored with run := .running }) ∘
        fun stored => { stored with chunkNum := ((reusedIds db doc parses).length : Int) } := by
      funext stored
      simp [requeued, empty]
    rw [row, if_neg empty, ← Table.modify_modify]
    · rfl
    · exact fun _ => rfl

end Effect

def Kept (after : Database) (doc : Document) (id : String) : Prop :=
  after.stores doc.kbId id ∧
    ∃ task ∈ after.tasks, task.docId = doc.id ∧ id ∈ task.ids ∧ task.progress = 1

def Dropped (after : Database) (doc : Document) (id : String) : Prop :=
  after.stores doc.kbId id = false ∧ ∀ task ∈ after.tasks, task.docId = doc.id → id ∉ task.ids

instance (after : Database) (doc : Document) (id : String) : Decidable (Kept after doc id) :=
  inferInstanceAs (Decidable (_ ∧ _))

instance (after : Database) (doc : Document) (id : String) : Decidable (Dropped after doc id) :=
  inferInstanceAs (Decidable (_ ∧ _))

/-- Each chunk of the previous tasks is kept or dropped, and the document counts those that are
kept, each once. -/
structure Conserved (prevTasks : List Task) (after : Database) (doc : Document) : Prop where
  each : ∀ id ∈ prevTasks.flatMap Task.ids, Kept after doc id ∨ Dropped after doc id
  count : ∀ stored ∈ after.document? doc.id, stored.chunkNum =
    ((prevTasks.flatMap Task.ids).filter fun id => Kept after doc id).dedup.length

/-- The chunks that are taken over are stored, no two of them are the same, and no previous task
that is left over has one of them. -/
structure Reusable (db : Database) (doc : Document) (parses : List ParseTask) : Prop where
  distinct : (reusedIds db doc parses).Nodup
  stored : ∀ id ∈ reusedIds db doc parses, db.stores doc.kbId id
  unshared : ∀ id ∈ reusedIds db doc parses, id ∉ leftIds db doc parses

theorem kept_iff (db : Database) (doc : Document) (parses : List ParseTask) (id : String) :
    (Kept (queueTasks db doc parses) doc id ↔ id ∈ reusedIds db doc parses ∧
      db.stores doc.kbId id ∧ id ∉ leftIds db doc parses) ∧
    (Dropped (queueTasks db doc parses) doc id ↔ id ∉ reusedIds db doc parses ∧
      (db.stores doc.kbId id → id ∈ leftIds db doc parses)) := by
  obtain ⟨tasks, idsPerm, complete, after⟩ := queueTasks_eq db doc parses
  have stores : (queueTasks db doc parses).stores doc.kbId id =
      (db.stores doc.kbId id && decide (id ∉ leftIds db doc parses)) := by
    rw [after]
    exact Database.stores_deleteChunks
  have listed : id ∈ reusedIds db doc parses ↔ ∃ task ∈ tasks, id ∈ task.ids := by
    rw [← idsPerm.mem_iff, List.mem_flatMap]
  have tasksEq : (queueTasks db doc parses).tasks =
      (db.tasks.filter fun task => task.docId ≠ doc.id) ++ tasks := by rw [after]
  have lists : ∀ task, task ∈ (queueTasks db doc parses).tasks ∧ task.docId = doc.id ↔
      task ∈ tasks := by
    intro task
    rw [tasksEq, List.mem_append, List.mem_filter]
    constructor
    · rintro ⟨old | new, sameDoc⟩
      · simp [sameDoc] at old
      · exact new
    · exact fun new => ⟨.inr new, (complete task new).1⟩
  unfold Kept Dropped
  rw [stores, listed]
  constructor
  · constructor
    · rintro ⟨isStored, task, membership, sameDoc, isListed, -⟩
      refine ⟨⟨task, (lists task).mp ⟨membership, sameDoc⟩, isListed⟩, ?_⟩
      simpa using isStored
    · rintro ⟨⟨task, isNew, isListed⟩, isStored⟩
      obtain ⟨membership, sameDoc⟩ := (lists task).mpr isNew
      refine ⟨by simpa using isStored, task, membership, sameDoc, isListed, ?_⟩
      exact (complete task isNew).2 (List.ne_nil_of_mem isListed)
  · constructor
    · rintro ⟨notStored, notListed⟩
      refine ⟨?_, by simpa using notStored⟩
      rintro ⟨task, isNew, isListed⟩
      obtain ⟨membership, sameDoc⟩ := (lists task).mpr isNew
      exact notListed task membership sameDoc isListed
    · rintro ⟨notTaken, notStored⟩
      refine ⟨by simpa using notStored, fun task membership sameDoc isListed => notTaken ?_⟩
      exact ⟨task, (lists task).mp ⟨membership, sameDoc⟩, isListed⟩

/-- `queue_tasks` conserves the chunks of the previous tasks exactly if those it takes over are
stored, distinct and not shared with a task that is left over. -/
theorem conserved_iff {db : Database} {doc row : Document} (parses : List ParseTask)
    (found : db.document? doc.id = some row) :
    Conserved (db.getTasks doc.id) (queueTasks db doc parses) doc ↔ Reusable db doc parses := by
  have reusedSubset : ∀ id ∈ reusedIds db doc parses, id ∈ (db.getTasks doc.id).flatMap Task.ids :=
    fun id taken => (mem_ids_iff _ [] _ id).mpr (.inl taken)
  have row : ∃ stored, (queueTasks db doc parses).document? doc.id = some stored ∧
      stored.chunkNum = (reusedIds db doc parses).length := by
    obtain ⟨tasks, -, -, after⟩ := queueTasks_eq db doc parses
    have moved : (Table.modify Document.id doc.id (requeued db doc parses) db.documents).find?
        (fun row => row.id = doc.id) = some (requeued db doc parses row) := by
      rw [Table.find?_modify]
      · rw [show db.documents.find? _ = some row from found, Option.map_some]
      · exact fun _ => rfl
    refine ⟨requeued db doc parses row, ?_, rfl⟩
    rw [after]
    exact moved
  obtain ⟨stored, isRow, counted⟩ := row
  have keptAre : (∀ id ∈ reusedIds db doc parses, Kept (queueTasks db doc parses) doc id) →
      ((db.getTasks doc.id).flatMap Task.ids |>.filter
        fun id => Kept (queueTasks db doc parses) doc id).dedup.length =
          (reusedIds db doc parses).dedup.length := by
    intro allKept
    refine List.Perm.length_eq ((List.perm_ext_iff_of_nodup (List.nodup_dedup _)
      (List.nodup_dedup _)).mpr fun id => ?_)
    rw [List.mem_dedup, List.mem_dedup, List.mem_filter, decide_eq_true_eq]
    constructor
    · exact fun kept => ((kept_iff db doc parses id).1.mp kept.2).1
    · exact fun taken => ⟨reusedSubset id taken, allKept id taken⟩
  constructor
  · intro conserved
    have allKept : ∀ id ∈ reusedIds db doc parses, Kept (queueTasks db doc parses) doc id := by
      intro id taken
      rcases conserved.each id (reusedSubset id taken) with kept | dropped
      · exact kept
      · exact absurd taken ((kept_iff db doc parses id).2.mp dropped).1
    have count := conserved.count stored isRow
    rw [counted, keptAre allKept] at count
    refine ⟨?_, fun id taken => ?_, fun id taken => ?_⟩
    · rw [← List.dedup_eq_self]
      exact (List.dedup_sublist _).eq_of_length (by exact_mod_cast count.symm)
    · exact ((kept_iff db doc parses id).1.mp (allKept id taken)).2.1
    · exact ((kept_iff db doc parses id).1.mp (allKept id taken)).2.2
  · intro reusable
    have allKept : ∀ id ∈ reusedIds db doc parses, Kept (queueTasks db doc parses) doc id :=
      fun id taken => (kept_iff db doc parses id).1.mpr
        ⟨taken, reusable.stored id taken, reusable.unshared id taken⟩
    refine ⟨fun id membership => ?_, fun stored' isRow' => ?_⟩
    · by_cases taken : id ∈ reusedIds db doc parses
      · exact .inl (allKept id taken)
      · refine .inr ((kept_iff db doc parses id).2.mpr ⟨taken, fun _ => ?_⟩)
        exact ((mem_ids_iff _ [] _ id).mp membership).resolve_left taken
    · obtain rfl : stored = stored' := by simpa [isRow] using isRow'
      rw [counted, keptAre allKept, List.dedup_eq_self.mpr reusable.distinct]

def halfParsedDoc : Document := ⟨"doc", "kb", "", .fail, 2, 0⟩

def halfParsed (firstIds secondIds : String) : Database where
  knowledgebases := [⟨"kb", 1, 2, 0⟩]
  documents := [halfParsedDoc]
  tasks := [⟨"doc", 0, "x", 0, 1, firstIds⟩, ⟨"doc", 12, "y", 1, 1 / 2, secondIds⟩]
  chunks := [⟨"a", "doc", "kb"⟩, ⟨"b", "doc", "kb"⟩]

theorem conserved_of_ownChunks :
    Conserved ((halfParsed "a" "b").getTasks halfParsedDoc.id)
      (queueTasks (halfParsed "a" "b") halfParsedDoc [⟨0, "x", 2⟩, ⟨12, "y", 3⟩])
      halfParsedDoc := by
  have found : (halfParsed "a" "b").document? halfParsedDoc.id = some halfParsedDoc := by decide
  refine (conserved_iff [⟨0, "x", 2⟩, ⟨12, "y", 3⟩] found).mpr ⟨?_, ?_, ?_⟩ <;> decide +kernel

/-- Both tasks have produced the chunk `b`: it goes with the second one, and the first new task
lists it nevertheless. -/
theorem not_conserved_of_sharedChunk :
    ¬ Conserved ((halfParsed "a b" "b").getTasks halfParsedDoc.id)
      (queueTasks (halfParsed "a b" "b") halfParsedDoc [⟨0, "x", 2⟩, ⟨12, "y", 3⟩])
      halfParsedDoc := by
  intro conserved
  exact absurd (conserved.each "b") (by decide +kernel)

end RagFlow.Documents
