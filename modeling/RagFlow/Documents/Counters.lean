import RagFlow.Documents.QueueTasks
import RagFlow.Lib.Runs

/-!
# Counters of a knowledge base

Documents and knowledge bases both count chunks and tokens.  Workers move the two counters
together; requests that start a document over, and `queue_tasks`, also write the counters of the
document alone.
-/

namespace RagFlow.Documents

open RagFlow.Lib

namespace Database

def knowledgebase? (db : Database) (kbId : String) : Option Knowledgebase :=
  db.knowledgebases.find? fun kb => kb.id = kbId

end Database

def Knowledgebase.add (chunkNum tokenNum : Int) (kb : Knowledgebase) : Knowledgebase :=
  { kb with chunkNum := kb.chunkNum + chunkNum, tokenNum := kb.tokenNum + tokenNum }

def Document.add (chunkNum tokenNum : Int) (doc : Document) : Document :=
  { doc with chunkNum := doc.chunkNum + chunkNum, tokenNum := doc.tokenNum + tokenNum }

/-- `save` fails when the id is taken. -/
def insertDocument (db : Database) (id kbId pipelineId : String) : Database :=
  if (db.document? id).isSome then db
  else
    let doc : Document := ⟨id, kbId, pipelineId, .unstart, 0, 0⟩
    let saved := { db with documents := db.documents ++ [doc] }
    saved.updateKnowledgebase kbId fun kb => { kb with docNum := kb.docNum + 1 }

/-- Both counters in one transaction; without the document or the knowledge base it fails. -/
def incrementChunkNum (db : Database) (docId kbId : String) (tokenNum chunkNum : Int) : Database :=
  match db.document? docId with
  | none => db
  | some doc =>
    if doc.kbId = kbId ∧ (db.knowledgebase? kbId).isSome then
      (db.updateDocument docId (Document.add chunkNum tokenNum)).updateKnowledgebase kbId
        (Knowledgebase.add chunkNum tokenNum)
    else db

def decrementChunkNum (db : Database) (docId kbId : String) (tokenNum chunkNum : Int) : Database :=
  match db.document? docId with
  | none => db
  | some doc =>
    if doc.kbId = kbId ∧ (db.knowledgebase? kbId).isSome then
      (db.updateDocument docId (Document.add (-chunkNum) (-tokenNum))).updateKnowledgebase kbId
        (Knowledgebase.add (-chunkNum) (-tokenNum))
    else db

def deleteDocumentAndUpdateKbCounts (db : Database) (docId : String) : Database :=
  match db.document? docId with
  | none => db
  | some doc =>
    let deleted := { db with documents := Table.delete Document.id docId db.documents }
    deleted.updateKnowledgebase doc.kbId fun kb =>
      { kb.add (-doc.chunkNum) (-doc.tokenNum) with docNum := kb.docNum - 1 }

def removeDocument (db : Database) (doc : Document) : Database :=
  ((deleteDocumentAndUpdateKbCounts db doc.id).deleteTasks doc.id).deleteChunksOf doc.id doc.kbId

def clearChunkNumWhenRerun (db : Database) (docId : String) : Database :=
  match db.document? docId with
  | none => db
  | some doc =>
    db.updateKnowledgebase doc.kbId (Knowledgebase.add (-doc.chunkNum) (-doc.tokenNum))

def queueDataflow (db : Database) (doc : Document) (now : Nat) : Database :=
  let db := (db.deleteTasks doc.id).updateDocument doc.id fun doc => { doc with run := .running }
  { db with tasks := db.tasks ++ [⟨doc.id, 0, "", now, 0, ""⟩] }

def runDocument (db : Database) (doc : Document) (parses : List ParseTask) (now : Nat) : Database :=
  if doc.pipelineId = "" then queueTasks db doc parses else queueDataflow db doc now

def writeInfo (run : TaskStatus) (startOver : Bool) (doc : Document) : Document :=
  if startOver then { doc with run := run, chunkNum := 0, tokenNum := 0 }
  else { doc with run := run }

/-- What the requests write before they queue a document: the counters of the knowledge base, the
row, and the deletion of tasks and chunks. -/
def prepare (db : Database) (doc : Document) (run : TaskStatus) (startOver clear delete : Bool) :
    Database :=
  let db := if clear then clearChunkNumWhenRerun db doc.id else db
  let db := db.updateDocument doc.id (writeInfo run startOver)
  if delete then (db.deleteTasks doc.id).deleteChunksOf doc.id doc.kbId else db

/-- What the ingest request does for one document.  Without a result it returns an error. -/
def ingest (db : Database) (docId : String) (run : TaskStatus) (delete : Bool)
    (parses : List ParseTask) (now : Nat) : Option Database :=
  match db.document? docId with
  | none => none
  | some doc =>
    if (db.knowledgebase? doc.kbId).isNone then none
    else if run = .cancel ∧ doc.run ≠ .running ∧ doc.run ≠ .cancel ∧
        ∀ task ∈ db.getTasks docId, 1 ≤ task.progress then none
    else
      let rerunWithDelete := decide (run = .running) && delete
      let db := prepare db doc run rerunWithDelete (rerunWithDelete && doc.run = .done) delete
      some (if run = .running then runDocument db doc parses now else db)

/-- `_run_sync` of the ingest request: one document after the other, up to the first error.  What
the parser finds in a document comes with its id. -/
def runSync (db : Database) (run : TaskStatus) (delete : Bool) :
    List (String × List ParseTask × Nat) → Database
  | [] => db
  | (docId, parses, now) :: rest =>
    match ingest db docId run delete parses now with
    | none => db
    | some db => runSync db run delete rest

/-- What `parse_documents` does for one document of the dataset. -/
def parseDocument (db : Database) (datasetId docId : String) (parses : List ParseTask) (now : Nat) :
    Database :=
  match db.document? docId with
  | none => db
  | some doc =>
    if doc.kbId ≠ datasetId ∨ (db.knowledgebase? datasetId).isNone then db
    else
      let startOver := decide (doc.run = .done)
      runDocument (prepare db doc .running startOver startOver true) doc parses now

inductive Move where
  | insert (id kbId pipelineId : String)
  | ingest (docId : String) (run : TaskStatus) (delete : Bool) (parses : List ParseTask) (now : Nat)
  | parse (datasetId docId : String) (parses : List ParseTask) (now : Nat)
  | queue (docId : String) (parses : List ParseTask)
  | increment (docId kbId : String) (tokenNum chunkNum : Int)
  | decrement (docId kbId : String) (tokenNum chunkNum : Int)
  | remove (docId : String)
  | work (tasks : List Task) (chunks : List Chunk)
  | sync (docId : String) (run : TaskStatus)

def step (db : Database) : Move → Database
  | .insert id kbId pipelineId => insertDocument db id kbId pipelineId
  | .ingest docId run delete parses now => (ingest db docId run delete parses now).getD db
  | .parse datasetId docId parses now => parseDocument db datasetId docId parses now
  | .queue docId parses =>
    match db.document? docId with
    | none => db
    | some doc => if (db.knowledgebase? doc.kbId).isSome then queueTasks db doc parses else db
  | .increment docId kbId tokenNum chunkNum => incrementChunkNum db docId kbId tokenNum chunkNum
  | .decrement docId kbId tokenNum chunkNum => decrementChunkNum db docId kbId tokenNum chunkNum
  | .remove docId =>
    match db.document? docId with
    | none => db
    | some doc => removeDocument db doc
  | .work tasks chunks => { db with tasks := tasks, chunks := chunks }
  | .sync docId run => db.updateDocument docId fun doc => { doc with run := run }

def emptyBases (kbIds : List String) : Database where
  knowledgebases := kbIds.map fun id => ⟨id, 0, 0, 0⟩
  documents := []
  tasks := []
  chunks := []

/-- The counters of each knowledge base are those of its documents. -/
structure Consistent (kbs : List Knowledgebase) (docs : List Document) : Prop where
  docNum : ∀ kb ∈ kbs, kb.docNum = (docs.filter fun doc => doc.kbId = kb.id).length
  chunkNum : ∀ kb ∈ kbs,
    kb.chunkNum = Table.total (fun doc => doc.kbId = kb.id) Document.chunkNum docs
  tokenNum : ∀ kb ∈ kbs,
    kb.tokenNum = Table.total (fun doc => doc.kbId = kb.id) Document.tokenNum docs

def Balanced (db : Database) : Move → Prop
  | .ingest docId run delete parses _ => ∀ doc ∈ db.document? docId,
      (db.knowledgebase? doc.kbId).isSome → run = .running →
        if delete then doc.run = .done ∨ doc.chunkNum = 0 ∧ doc.tokenNum = 0
        else doc.pipelineId ≠ "" ∨ doc.chunkNum = (reusedIds db doc parses).length
  | .parse datasetId docId _ _ => ∀ doc ∈ db.document? docId,
      doc.kbId = datasetId → (db.knowledgebase? datasetId).isSome →
        doc.run = .done ∨ doc.pipelineId ≠ "" ∨ doc.chunkNum = 0
  | .queue docId parses => ∀ doc ∈ db.document? docId,
      (db.knowledgebase? doc.kbId).isSome → doc.chunkNum = (reusedIds db doc parses).length
  | _ => True

section Updates

variable {kbs : List Knowledgebase} {docs : List Document}

theorem add_zero_eq (kb : Knowledgebase) : kb.add 0 0 = kb := by
  simp [Knowledgebase.add]

theorem modify_add_zero (kbId : String) :
    Table.modify Knowledgebase.id kbId (Knowledgebase.add 0 0) kbs = kbs := by
  rw [Table.modify]
  refine (List.map_congr_left fun kb _ => ?_).trans (List.map_id kbs)
  simp [add_zero_eq]

theorem consistent_modify_iff (consistent : Consistent kbs docs)
    (unique : (docs.map Document.id).Nodup) {doc : Document} (stored : doc ∈ docs)
    {change : Document → Document} (sameKb : ∀ doc, (change doc).kbId = doc.kbId)
    (chunkNum tokenNum : Int) :
    Consistent (Table.modify Knowledgebase.id doc.kbId (Knowledgebase.add chunkNum tokenNum) kbs)
        (Table.modify Document.id doc.id change docs) ↔
      (doc.kbId ∈ kbs.map Knowledgebase.id → (change doc).chunkNum = doc.chunkNum + chunkNum ∧
        (change doc).tokenNum = doc.tokenNum + tokenNum) := by
  have documents : ∀ kbId : String,
      ((Table.modify Document.id doc.id change docs).filter fun doc => doc.kbId = kbId).length =
        (docs.filter fun doc => doc.kbId = kbId).length := by
    intro kbId
    rw [Table.modify, List.filter_map, List.length_map]
    congr 1
    apply List.filter_congr
    intro row _
    by_cases hit : row.id = doc.id <;> simp [hit, sameKb]
  have totals : ∀ (column : Document → Int) (kbId : String),
      Table.total (fun doc => doc.kbId = kbId) column
          (Table.modify Document.id doc.id change docs) =
        Table.total (fun doc => doc.kbId = kbId) column docs +
          if doc.kbId = kbId then column (change doc) - column doc else 0 := by
    intro column kbId
    refine (Table.total_modify (fun row => by rw [sameKb]) unique stored rfl).trans ?_
    by_cases here : doc.kbId = kbId <;> simp [here]
  have rows : ∀ kb, kb ∈ Table.modify Knowledgebase.id doc.kbId
      (Knowledgebase.add chunkNum tokenNum) kbs ↔
      ∃ old ∈ kbs, kb = if old.id = doc.kbId then old.add chunkNum tokenNum else old := by
    intro kb
    simp only [Table.modify, List.mem_map, eq_comm]
  constructor
  · rintro after known
    obtain ⟨kb, isKb, same⟩ := List.mem_map.mp known
    have row := (rows (kb.add chunkNum tokenNum)).mpr ⟨kb, isKb, by rw [if_pos same]⟩
    have chunks := after.chunkNum _ row
    have tokens := after.tokenNum _ row
    have chunksBefore := consistent.chunkNum kb isKb
    have tokensBefore := consistent.tokenNum kb isKb
    simp only [Knowledgebase.add, same] at chunks tokens chunksBefore tokensBefore
    rw [totals, if_pos rfl] at chunks tokens
    constructor <;> omega
  · intro gained
    refine ⟨fun kb isRow => ?_, fun kb isRow => ?_, fun kb isRow => ?_⟩ <;>
      obtain ⟨old, isKb, rfl⟩ := (rows kb).mp isRow <;> by_cases here : old.id = doc.kbId
    · rw [if_pos here, documents]
      exact consistent.docNum old isKb
    · rw [if_neg here, documents]
      exact consistent.docNum old isKb
    · have chunks := (gained (here ▸ List.mem_map_of_mem isKb)).1
      have before := consistent.chunkNum old isKb
      rw [if_pos here, totals]
      change old.chunkNum + chunkNum = Table.total (fun doc => doc.kbId = old.id) _ docs +
        if doc.kbId = old.id then _ else _
      rw [if_pos here.symm]
      omega
    · rw [if_neg here, totals, if_neg (Ne.symm here), add_zero]
      exact consistent.chunkNum old isKb
    · have tokens := (gained (here ▸ List.mem_map_of_mem isKb)).2
      have before := consistent.tokenNum old isKb
      rw [if_pos here, totals]
      change old.tokenNum + tokenNum = Table.total (fun doc => doc.kbId = old.id) _ docs +
        if doc.kbId = old.id then _ else _
      rw [if_pos here.symm]
      omega
    · rw [if_neg here, totals, if_neg (Ne.symm here), add_zero]
      exact consistent.tokenNum old isKb

theorem consistent_modify_document_iff (consistent : Consistent kbs docs)
    (unique : (docs.map Document.id).Nodup) {doc : Document} (stored : doc ∈ docs)
    {change : Document → Document} (sameKb : ∀ doc, (change doc).kbId = doc.kbId) :
    Consistent kbs (Table.modify Document.id doc.id change docs) ↔
      (doc.kbId ∈ kbs.map Knowledgebase.id → (change doc).chunkNum = doc.chunkNum ∧
        (change doc).tokenNum = doc.tokenNum) := by
  have both := consistent_modify_iff consistent unique stored sameKb 0 0
  rwa [modify_add_zero, add_zero, add_zero] at both

theorem consistent_insert (consistent : Consistent kbs docs) (id kbId pipelineId : String) :
    Consistent
      (Table.modify Knowledgebase.id kbId (fun kb => { kb with docNum := kb.docNum + 1 }) kbs)
      (docs ++ [⟨id, kbId, pipelineId, .unstart, 0, 0⟩]) := by
  have totals : ∀ (column : Document → Int) (base : String),
      column ⟨id, kbId, pipelineId, .unstart, 0, 0⟩ = 0 →
        Table.total (fun doc => doc.kbId = base) column
          (docs ++ [⟨id, kbId, pipelineId, .unstart, 0, 0⟩]) =
          Table.total (fun doc => doc.kbId = base) column docs := by
    intro column base blank
    rw [Table.total_append, Table.total_cons, blank]
    simp [Table.total]
  refine ⟨fun kb isRow => ?_, fun kb isRow => ?_, fun kb isRow => ?_⟩ <;>
    obtain ⟨old, isKb, rfl⟩ := List.mem_map.mp isRow <;> by_cases here : old.id = kbId
  · simp [here, consistent.docNum old isKb]
  · simp [here, Ne.symm here, consistent.docNum old isKb]
  · simp only [if_pos here, totals, consistent.chunkNum old isKb]
  · simp only [if_neg here, totals, consistent.chunkNum old isKb]
  · simp only [if_pos here, totals, consistent.tokenNum old isKb]
  · simp only [if_neg here, totals, consistent.tokenNum old isKb]

theorem consistent_delete (consistent : Consistent kbs docs)
    (unique : (docs.map Document.id).Nodup) {doc : Document} (stored : doc ∈ docs) :
    Consistent (Table.modify Knowledgebase.id doc.kbId (fun kb =>
        { kb.add (-doc.chunkNum) (-doc.tokenNum) with docNum := kb.docNum - 1 }) kbs)
      (Table.delete Document.id doc.id docs) := by
  have totals : ∀ (column : Document → Int) (kbId : String),
      Table.total (fun doc => doc.kbId = kbId) column (Table.delete Document.id doc.id docs) =
        Table.total (fun doc => doc.kbId = kbId) column docs -
          if doc.kbId = kbId then column doc else 0 := by
    intro column kbId
    apply (Table.total_delete unique stored rfl).trans
    by_cases here : doc.kbId = kbId <;> simp [here]
  have counts : ∀ kbId (docs : List Document),
      ((docs.filter fun doc => doc.kbId = kbId).length : Int) =
      Table.total (fun doc => doc.kbId = kbId) (fun _ => 1) docs := by
    intro kbId docs
    simp [Table.total]
  refine ⟨fun kb isRow => ?_, fun kb isRow => ?_, fun kb isRow => ?_⟩ <;>
    obtain ⟨old, isKb, rfl⟩ := List.mem_map.mp isRow <;> by_cases here : old.id = doc.kbId
  · have before := consistent.docNum old isKb
    rw [counts] at before ⊢
    simp only [if_pos here, totals, Knowledgebase.add, if_pos here.symm, before]
  · have before := consistent.docNum old isKb
    rw [counts] at before ⊢
    simp only [if_neg here, totals, if_neg (Ne.symm here), before, sub_zero]
  · simp only [if_pos here, totals, Knowledgebase.add, if_pos here.symm,
      consistent.chunkNum old isKb]
    omega
  · simp only [if_neg here, totals, if_neg (Ne.symm here), consistent.chunkNum old isKb, sub_zero]
  · simp only [if_pos here, totals, Knowledgebase.add, if_pos here.symm,
      consistent.tokenNum old isKb]
    omega
  · simp only [if_neg here, totals, if_neg (Ne.symm here), consistent.tokenNum old isKb, sub_zero]

end Updates

/-- The row of a document changes, in the end with these counters, and its knowledge base is
added to. -/
structure Rewritten (db next : Database) (doc : Document) (chunkNum tokenNum : Int)
    (kbChunkNum kbTokenNum : Int) : Prop where
  bases : next.knowledgebases = Table.modify Knowledgebase.id doc.kbId
    (Knowledgebase.add kbChunkNum kbTokenNum) db.knowledgebases
  documents : ∃ change : Document → Document, (∀ row, (change row).id = row.id) ∧
    (∀ row, (change row).kbId = row.kbId) ∧
    (change doc).chunkNum = chunkNum ∧ (change doc).tokenNum = tokenNum ∧
    next.documents = Table.modify Document.id doc.id change db.documents

theorem Rewritten.consistent_iff {db next : Database} {doc : Document}
    {chunkNum tokenNum kbChunkNum kbTokenNum : Int}
    (rewritten : Rewritten db next doc chunkNum tokenNum kbChunkNum kbTokenNum)
    (consistent : Consistent db.knowledgebases db.documents)
    (unique : (db.documents.map Document.id).Nodup) (stored : doc ∈ db.documents) :
    Consistent next.knowledgebases next.documents ↔
      ((db.knowledgebase? doc.kbId).isSome → chunkNum = doc.chunkNum + kbChunkNum ∧
        tokenNum = doc.tokenNum + kbTokenNum) := by
  obtain ⟨change, -, sameKb, chunks, tokens, documents⟩ := rewritten.documents
  rw [rewritten.bases, documents, consistent_modify_iff consistent unique stored sameKb, chunks,
    tokens]
  have known : doc.kbId ∈ db.knowledgebases.map Knowledgebase.id ↔
      (db.knowledgebase? doc.kbId).isSome := by
    simp [Database.knowledgebase?]
  rw [known]

theorem Rewritten.ids {db next : Database} {doc : Document}
    {chunkNum tokenNum kbChunkNum kbTokenNum : Int}
    (rewritten : Rewritten db next doc chunkNum tokenNum kbChunkNum kbTokenNum) :
    next.documents.map Document.id = db.documents.map Document.id := by
  obtain ⟨change, sameId, -, -, -, documents⟩ := rewritten.documents
  rw [documents, Table.map_key_modify sameId]

theorem queueTasks_rewritten (db : Database) (doc : Document) (parses : List ParseTask) :
    Rewritten db (queueTasks db doc parses) doc (reusedIds db doc parses).length doc.tokenNum
      0 0 := by
  obtain ⟨tasks, -, -, after⟩ := queueTasks_eq db doc parses
  refine ⟨?_, requeued db doc parses, fun _ => rfl, fun _ => rfl, rfl, rfl, ?_⟩
  · rw [after, modify_add_zero]
    rfl
  · rw [after]

theorem runDocument_rewritten (db : Database) (doc : Document) (parses : List ParseTask)
    (now : Nat) :
    (runDocument db doc parses now).knowledgebases = db.knowledgebases ∧
      ∃ change : Document → Document, (∀ row, (change row).id = row.id) ∧
        (∀ row, (change row).kbId = row.kbId) ∧
        (∀ row, (change row).chunkNum = if doc.pipelineId = "" then
          ((reusedIds db doc parses).length : Int) else row.chunkNum) ∧
        (∀ row, (change row).tokenNum = row.tokenNum) ∧
        (runDocument db doc parses now).documents =
          Table.modify Document.id doc.id change db.documents := by
  unfold runDocument
  split_ifs with plain
  · obtain ⟨tasks, -, -, after⟩ := queueTasks_eq db doc parses
    rw [after]
    exact ⟨rfl, requeued db doc parses, fun _ => rfl, fun _ => rfl, fun _ => rfl, fun _ => rfl, rfl⟩
  · exact ⟨rfl, fun row => { row with run := .running }, fun _ => rfl, fun _ => rfl, fun _ => rfl,
      fun _ => rfl, rfl⟩

theorem Rewritten.runDocument {db next : Database} {doc : Document}
    {chunkNum tokenNum kbChunkNum kbTokenNum : Int}
    (rewritten : Rewritten db next doc chunkNum tokenNum kbChunkNum kbTokenNum)
    (parses : List ParseTask) (now : Nat) :
    Rewritten db (runDocument next doc parses now) doc
      (if doc.pipelineId = "" then ((reusedIds next doc parses).length : Int) else chunkNum)
      tokenNum kbChunkNum kbTokenNum := by
  obtain ⟨change, sameId, sameKb, chunks, tokens, documents⟩ := rewritten.documents
  obtain ⟨bases, again, sameId', sameKb', chunks', tokens', documents'⟩ :=
    runDocument_rewritten next doc parses now
  refine ⟨bases.trans rewritten.bases, again ∘ change, fun row => ?_, fun row => ?_, ?_, ?_, ?_⟩
  · exact (sameId' _).trans (sameId row)
  · exact (sameKb' _).trans (sameKb row)
  · exact (chunks' _).trans (by rw [chunks])
  · exact (tokens' _).trans tokens
  · rw [documents', documents, Table.modify_modify sameId]

theorem prepare_rewritten {db : Database} {doc : Document}
    (found : db.document? doc.id = some doc) (run : TaskStatus) (startOver clear delete : Bool) :
    Rewritten db (prepare db doc run startOver clear delete) doc
      (if startOver then 0 else doc.chunkNum) (if startOver then 0 else doc.tokenNum)
      (if clear then -doc.chunkNum else 0) (if clear then -doc.tokenNum else 0) := by
  refine ⟨?_, writeInfo run startOver, ?_, ?_, ?_, ?_, ?_⟩
  · cases clear <;> cases delete <;>
      simp [prepare, clearChunkNumWhenRerun, found, modify_add_zero, Database.updateKnowledgebase,
        Database.updateDocument, Database.deleteTasks, Database.deleteChunksOf]
  · intro row
    cases startOver <;> rfl
  · intro row
    cases startOver <;> rfl
  · cases startOver <;> rfl
  · cases startOver <;> rfl
  · cases clear <;> cases delete <;>
      simp [prepare, clearChunkNumWhenRerun, found, Database.updateKnowledgebase,
        Database.updateDocument, Database.deleteTasks, Database.deleteChunksOf]

theorem reusedIds_prepare {db : Database} {doc : Document}
    (found : db.document? doc.id = some doc) (run : TaskStatus) (startOver clear delete : Bool)
    (parses : List ParseTask) :
    reusedIds (prepare db doc run startOver clear delete) doc parses =
      if delete then [] else reusedIds db doc parses := by
  have tasks : (prepare db doc run startOver clear delete).tasks =
      if delete then db.tasks.filter fun task => task.docId ≠ doc.id else db.tasks := by
    cases clear <;> cases delete <;>
      simp [prepare, clearChunkNumWhenRerun, found, Database.updateKnowledgebase,
        Database.updateDocument, Database.deleteTasks, Database.deleteChunksOf]
  unfold reusedIds Database.getTasks
  rw [tasks]
  cases delete with
  | true => simp [List.filter_filter, takenOver]
  | false => rfl

def Distinct (db : Database) : Prop := (db.documents.map Document.id).Nodup

def Keeps (db next : Database) (balanced : Prop) : Prop :=
  next.documents.map Document.id = db.documents.map Document.id ∧
    (Consistent db.knowledgebases db.documents →
      (Consistent next.knowledgebases next.documents ↔ balanced))

theorem ingest_keeps {db next : Database} (unique : Distinct db) {docId : String} {run : TaskStatus}
    {delete : Bool} {parses : List ParseTask} {now : Nat}
    (result : ingest db docId run delete parses now = some next) :
    Keeps db next (Balanced db (.ingest docId run delete parses now)) := by
  unfold ingest at result
  cases found : db.document? docId with
  | none => simp [found] at result
  | some doc =>
    obtain ⟨stored, rfl⟩ := Database.document?_eq_some found
    simp only [found] at result
    split_ifs at result with unknown refused running
    · obtain rfl := Option.some.inj result
      subst running
      have prepared := (prepare_rewritten found .running
        (decide (TaskStatus.running = .running) && delete)
        (decide (TaskStatus.running = .running) && delete && decide (doc.run = .done))
        delete).runDocument parses now
      refine ⟨prepared.ids, fun consistent =>
        (prepared.consistent_iff consistent unique stored).trans ?_⟩
      rw [reusedIds_prepare found]
      simp only [Balanced, found, Option.mem_def, Option.some.injEq, forall_eq', true_implies]
      apply imp_congr_right
      intro known
      cases delete with
      | true =>
        by_cases done : doc.run = .done <;> by_cases plain : doc.pipelineId = "" <;>
          simp [done, plain, eq_comm]
      | false => by_cases plain : doc.pipelineId = "" <;> simp [plain, eq_comm]
    · obtain rfl := Option.some.inj result
      have prepared := prepare_rewritten found run (decide (run = .running) && delete)
        (decide (run = .running) && delete && decide (doc.run = .done)) delete
      refine ⟨prepared.ids, fun consistent =>
        (prepared.consistent_iff consistent unique stored).trans ?_⟩
      apply iff_of_true (fun known => by simp [running])
      intro row same known isRunning
      exact absurd isRunning running

theorem parse_keeps {db : Database} (unique : Distinct db) (datasetId docId : String)
    (parses : List ParseTask) (now : Nat) :
    Keeps db (parseDocument db datasetId docId parses now)
      (Balanced db (.parse datasetId docId parses now)) := by
  unfold parseDocument
  cases found : db.document? docId with
  | none => exact ⟨rfl, fun consistent =>
    iff_of_true consistent fun doc same => by simp [found] at same⟩
  | some doc =>
    obtain ⟨stored, rfl⟩ := Database.document?_eq_some found
    dsimp only
    split_ifs with foreign
    · refine ⟨rfl, fun consistent => iff_of_true consistent fun row same inKb known => ?_⟩
      obtain rfl : doc = row := by simpa [found] using same
      simp [inKb, Option.isSome_iff_ne_none.mp known] at foreign
    · have prepared := (prepare_rewritten found .running (decide (doc.run = .done))
        (decide (doc.run = .done)) true).runDocument parses now
      refine ⟨prepared.ids, fun consistent =>
        (prepared.consistent_iff consistent unique stored).trans ?_⟩
      rw [reusedIds_prepare found]
      have inKb : doc.kbId = datasetId := by
        by_contra differs
        exact foreign (.inl differs)
      simp only [Balanced, found, Option.mem_def, Option.some.injEq, forall_eq', inKb,
        true_implies]
      apply imp_congr_right
      intro known
      by_cases done : doc.run = .done <;> by_cases plain : doc.pipelineId = "" <;>
        simp [done, plain, eq_comm]

theorem consistent_add {db : Database} (consistent : Consistent db.knowledgebases db.documents)
    (unique : Distinct db) {docId : String} {doc : Document}
    (found : db.document? docId = some doc) (chunkNum tokenNum : Int) :
    Consistent (Table.modify Knowledgebase.id doc.kbId (Knowledgebase.add chunkNum tokenNum)
        db.knowledgebases)
      (Table.modify Document.id docId (Document.add chunkNum tokenNum) db.documents) := by
  obtain ⟨stored, rfl⟩ := Database.document?_eq_some found
  refine (consistent_modify_iff consistent unique stored (fun _ => ?_) chunkNum tokenNum).mpr
    fun _ => ⟨rfl, rfl⟩
  rfl

theorem queue_keeps {db : Database} (unique : Distinct db) (docId : String)
    (parses : List ParseTask) :
    Keeps db (step db (.queue docId parses)) (Balanced db (.queue docId parses)) := by
  unfold step Balanced
  cases found : db.document? docId with
  | none => exact ⟨by simp [found], fun consistent => by simpa [found] using consistent⟩
  | some doc =>
    obtain ⟨stored, rfl⟩ := Database.document?_eq_some found
    simp only [found, Option.mem_def, Option.some.injEq, forall_eq']
    split_ifs with known
    · have queued := queueTasks_rewritten db doc parses
      refine ⟨queued.ids, fun consistent =>
        (queued.consistent_iff consistent unique stored).trans ?_⟩
      apply imp_congr_right
      intro _
      simp [eq_comm]
    · exact ⟨rfl, fun consistent => iff_of_true consistent fun isKnown => absurd isKnown known⟩

theorem keeps_of_consistent {db next : Database} {balanced : Prop} (holds : balanced)
    (ids : next.documents.map Document.id = db.documents.map Document.id)
    (consistent : Consistent db.knowledgebases db.documents →
      Consistent next.knowledgebases next.documents) : Keeps db next balanced :=
  ⟨ids, fun before => iff_of_true (consistent before) holds⟩

theorem add_keeps {db : Database} (unique : Distinct db) (docId kbId : String)
    (tokenNum chunkNum : Int) :
    Keeps db (incrementChunkNum db docId kbId tokenNum chunkNum) True ∧
      Keeps db (decrementChunkNum db docId kbId tokenNum chunkNum) True := by
  have added : ∀ (doc : Document), db.document? docId = some doc → ∀ chunkNum tokenNum : Int,
      Keeps db ((db.updateDocument docId (Document.add chunkNum tokenNum)).updateKnowledgebase
        doc.kbId (Knowledgebase.add chunkNum tokenNum)) True := by
    intro doc found chunkNum tokenNum
    refine keeps_of_consistent trivial ?_ fun consistent =>
      consistent_add consistent unique found _ _
    change (Table.modify Document.id docId (Document.add chunkNum tokenNum) _).map Document.id = _
    rw [Table.map_key_modify]
    exact fun _ => rfl
  unfold incrementChunkNum decrementChunkNum
  cases found : db.document? docId with
  | none => exact ⟨keeps_of_consistent trivial rfl id, keeps_of_consistent trivial rfl id⟩
  | some doc =>
    dsimp only
    split_ifs with known
    · obtain ⟨rfl, -⟩ := known
      exact ⟨added doc found _ _, added doc found _ _⟩
    · exact ⟨keeps_of_consistent trivial rfl id, keeps_of_consistent trivial rfl id⟩

theorem step_spec (db : Database) (move : Move) (unique : Distinct db) :
    Distinct (step db move) ∧ (Consistent db.knowledgebases db.documents →
      (Consistent (step db move).knowledgebases (step db move).documents ↔ Balanced db move)) := by
  have ofKeeps : ∀ {next : Database} {balanced : Prop}, Keeps db next balanced →
      Distinct next ∧ (Consistent db.knowledgebases db.documents →
        (Consistent next.knowledgebases next.documents ↔ balanced)) := by
    rintro next balanced ⟨ids, kept⟩
    exact ⟨by rw [Distinct, ids]; exact unique, kept⟩
  cases move with
  | insert id kbId pipelineId =>
    unfold step insertDocument
    dsimp only
    split_ifs with taken
    · exact ⟨unique, fun consistent => iff_of_true consistent trivial⟩
    · refine ⟨?_, fun consistent => iff_of_true (consistent_insert consistent _ _ _) trivial⟩
      have isNew : id ∉ db.documents.map Document.id := by
        simpa [Database.document?] using taken
      change ((db.documents ++ [_]).map Document.id).Nodup
      rw [List.map_append]
      apply unique.append (List.nodup_singleton _)
      intro other old new
      obtain rfl : other = id := List.mem_singleton.mp new
      exact isNew old
  | ingest docId run delete parses now =>
    unfold step
    dsimp only
    cases result : ingest db docId run delete parses now with
    | some next => exact ofKeeps (ingest_keeps unique result)
    | none =>
      refine ⟨unique, fun consistent => iff_of_true consistent fun doc same known running => ?_⟩
      have found : db.document? docId = some doc := same
      simp [ingest, found, Option.isSome_iff_ne_none.mp known, running] at result
  | parse datasetId docId parses now =>
    exact ofKeeps (parse_keeps unique datasetId docId parses now)
  | queue docId parses => exact ofKeeps (queue_keeps unique docId parses)
  | increment docId kbId tokenNum chunkNum =>
    exact ofKeeps (add_keeps unique docId kbId tokenNum chunkNum).1
  | decrement docId kbId tokenNum chunkNum =>
    exact ofKeeps (add_keeps unique docId kbId tokenNum chunkNum).2
  | remove docId =>
    unfold step removeDocument deleteDocumentAndUpdateKbCounts
    cases found : db.document? docId with
    | none => exact ⟨by simpa [found] using unique, by simp [found, Balanced]⟩
    | some doc =>
      obtain ⟨stored, rfl⟩ := Database.document?_eq_some found
      simp only [found]
      refine ⟨?_, fun consistent =>
        iff_of_true (consistent_delete consistent unique stored) trivial⟩
      exact unique.sublist (List.filter_sublist.map _)
  | work tasks chunks => exact ⟨unique, fun consistent => iff_of_true consistent trivial⟩
  | sync docId run =>
    have sameIds : (step db (.sync docId run)).documents.map Document.id =
        db.documents.map Document.id := by
      change (Table.modify Document.id docId (fun doc => { doc with run := run }) _).map _ = _
      rw [Table.map_key_modify]
      exact fun _ => rfl
    refine ofKeeps (keeps_of_consistent trivial sameIds fun consistent => ?_)
    cases found : db.document? docId with
    | none =>
      have missing : docId ∉ db.documents.map Document.id := by
        simpa [Database.document?] using found
      change Consistent _ (Table.modify _ _ _ _)
      rwa [Table.modify_of_not_mem missing]
    | some doc =>
      obtain ⟨stored, rfl⟩ := Database.document?_eq_some found
      refine (consistent_modify_document_iff consistent unique stored fun _ => ?_).mpr
        fun _ => ⟨?_, ?_⟩ <;> rfl

theorem distinct_emptyBases (kbIds : List String) : Distinct (emptyBases kbIds) := List.nodup_nil

/-- The counters agree after every operation of a history if and only if every request in it is
balanced. -/
theorem countersAgree_iff (kbIds : List String) (moves : List Move) :
    (∀ before, before <+: moves →
      Consistent (Runs.run step (emptyBases kbIds) before).knowledgebases
        (Runs.run step (emptyBases kbIds) before).documents) ↔
      Runs.Along step Balanced (emptyBases kbIds) moves := by
  refine Runs.always_iff_along Distinct (fun db => Consistent db.knowledgebases db.documents)
    (distinct_emptyBases kbIds) (fun db move unique => (step_spec db move unique).1) ?_
    (fun db move unique => (step_spec db move unique).2) moves
  refine ⟨fun kb isKb => ?_, fun kb isKb => ?_, fun kb isKb => ?_⟩ <;>
    obtain ⟨id, -, rfl⟩ := List.mem_map.mp isKb <;> rfl

/-- A document that failed with five chunks is started over: the knowledge base still counts
them. -/
theorem not_consistent_of_failedRerun :
    let db := Runs.run step (emptyBases ["kb"]) [.insert "doc" "kb" "", .increment "doc" "kb" 10 5,
      .sync "doc" .fail, .ingest "doc" .running true [⟨0, "x", 1⟩] 1]
    ¬ Consistent db.knowledgebases db.documents := by
  intro db consistent
  have isKb : ⟨"kb", 1, 5, 10⟩ ∈ db.knowledgebases := by decide +kernel
  exact absurd (consistent.chunkNum _ isKb) (by decide +kernel)

end RagFlow.Documents
