import Mathlib.Data.List.Basic
import Mathlib.Data.List.TakeWhile
import RagFlow.Lib.Runs
import RagFlow.Lib.Table

/-!
# Blob storage sync

A sync run of a blob storage connector lists the bucket, passes over the objects whose fingerprint
is the stored `content_hash`, downloads the others and hands them in batches to `upload_document`,
which writes `content_hash`; what it reports as changed is then queued for parsing.  A reindex run
downloads everything.
-/

namespace RagFlow.Sync.Blob

open Lib

variable {Version Body Hash : Type}

inductive BlobType
  | s3
  | r2
  | googleCloudStorage
  | ociStorage
  | s3Compatible

def BlobType.value : BlobType → String
  | s3 => "s3"
  | r2 => "r2"
  | googleCloudStorage => "google_cloud_storage"
  | ociStorage => "oci_storage"
  | s3Compatible => "s3_compatible"

structure Object (Version : Type) where
  key : String
  version : Version

structure Connector (Version Body Hash : Type) where
  connectorId : String
  isUuid : connectorId.length = 32 ∧ ':' ∉ connectorId.toList
  bucketType : BlobType
  bucketName : String
  autoParse : Bool
  /-- The ids of the documents of other knowledge bases. -/
  elsewhere : List Hash
  body : Version → Body
  /-- The ETag of a listing. -/
  etag : Version → Option String
  /-- `xxhash.xxh128` of a text -/
  hash128 : String → Hash
  hashBody : Body → Hash
  /-- What is stored for a new document with this key: PDFs are repaired first. -/
  repaired : String → Body → Body

structure Row (Body Hash : Type) where
  id : Hash
  contentHash : Option Hash
  body : Body
  deriving DecidableEq

structure Document (Body Hash : Type) where
  id : String
  body : Body
  fingerprint : Option Hash

/-- How far `upload_document` gets with a file. -/
inductive Upload
  | rejected
  /-- Fails when the body is stored and the row is not written. -/
  | stored
  /-- Fails when the row is written, before the file is reported. -/
  | inserted
  | complete
  deriving DecidableEq

structure Env (Body : Type) where
  download : String → Option Body
  upload : String → Upload
  runs : String → Bool

structure State (Version Body Hash : Type) where
  bucket : List (Object Version)
  /-- The documents of this connector in the knowledge base. -/
  rows : List (Row Body Hash)
  /-- The documents queued for parsing, with the bodies they had then. -/
  scheduled : List (Hash × Body)

section Code

variable [DecidableEq Hash] (connector : Connector Version Body Hash) (env : Env Body)

def normalizeEtag (rawEtag : Option String) : Option Hash :=
  match rawEtag with
  | none | some "" => none
  | some text =>
    let stripped := ((text.toList.dropWhile (· = '"')).reverse.dropWhile (· = '"')).reverse
    some (connector.hash128 (String.ofList stripped))

def fingerprint (object : Object Version) : Option Hash :=
  normalizeEtag connector (connector.etag object.version)

/-- The key of an object's record in `list_keys`, also the id of its `Document`. -/
def recordKey (object : Object Version) : String :=
  connector.bucketType.value ++ ":" ++ connector.bucketName ++ ":" ++ object.key

/-- The id that `_run_sync_task_logic` gives to a document. -/
def docId (id : String) : Hash :=
  connector.hash128 (connector.connectorId ++ ":" ++ id)

def collectBlobObjects (bucket : List (Object Version)) : List (Object Version) :=
  bucket.filter fun object => object.key.toList.getLast? ≠ some '/'

def buildDocumentFromObj (object : Object Version) : Option (Document Body Hash) :=
  (env.download (recordKey connector object)).map fun body =>
    ⟨recordKey connector object, body, fingerprint connector object⟩

/-- `list_id_content_hash_map_by_kb_and_source_type`, looked up at an id. -/
def contentHashOf (rows : List (Row Body Hash)) (id : Hash) : Option Hash :=
  (rows.find? fun row => row.id = id).bind Row.contentHash

/-- The generator looks the stored hash up under the hash of the record's key. -/
def bypassed (rows : List (Row Body Hash)) (object : Object Version) : Bool :=
  match fingerprint connector object,
    contentHashOf rows (connector.hash128 (recordKey connector object)) with
  | some current, some stored => current = stored
  | _, _ => false

def batchSize : ℕ := 2

/-- `_fingerprint_filtered_generator`, with the batch collected so far. -/
def fingerprintFiltered (rows : List (Row Body Hash)) (batch : List (Document Body Hash)) :
    List (Object Version) → List (List (Document Body Hash))
  | [] => if batch.isEmpty then [] else [batch]
  | object :: objects =>
    if bypassed connector rows object then fingerprintFiltered rows batch objects
    else
      match buildDocumentFromObj connector env object with
      | none => fingerprintFiltered rows batch objects
      | some document =>
        if batchSize ≤ (batch ++ [document]).length then
          (batch ++ [document]) :: fingerprintFiltered rows [] objects
        else fingerprintFiltered rows (batch ++ [document]) objects

def fetched (rows : List (Row Body Hash)) (objects : List (Object Version)) : List String :=
  (objects.filter fun object => !bypassed connector rows object).map (recordKey connector)

/-- `_yield_blob_objects`, with the batch collected so far. -/
def yieldBlobObjects (batch : List (Document Body Hash)) :
    List (Object Version) → List (List (Document Body Hash))
  | [] => if batch.isEmpty then [] else [batch]
  | object :: objects =>
    match buildDocumentFromObj connector env object with
    | none => yieldBlobObjects batch objects
    | some document =>
      if (batch ++ [document]).length = batchSize then
        (batch ++ [document]) :: yieldBlobObjects [] objects
      else yieldBlobObjects (batch ++ [document]) objects

/-- `content_hash` of an uploaded document: the fingerprint that the connector supplies, if any. -/
def newHash (document : Document Body Hash) : Hash :=
  document.fingerprint.getD (connector.hashBody document.body)

abbrev Uploaded (Body Hash : Type) := List (Row Body Hash) × List (String × Body)

/-- One turn of the loop in `upload_document`. -/
def uploadDocument (uploaded : Uploaded Body Hash) (document : Document Body Hash) :
    Uploaded Body Hash :=
  let (rows, files) := uploaded
  let id := docId connector document.id
  if id ∈ connector.elsewhere then uploaded
  else
    match rows.find? fun row => row.id = id with
    | some row =>
      match env.upload document.id with
      | .rejected => uploaded
      | .stored =>
        (Table.modify Row.id id (fun row => { row with body := document.body }) rows, files)
      | .inserted | .complete =>
        let hash := newHash connector document
        (Table.modify Row.id id (fun row => ⟨row.id, some hash, document.body⟩) rows,
          if row.contentHash = some hash then files else files ++ [(document.id, document.body)])
    | none =>
      let body := connector.repaired document.id document.body
      let hash := document.fingerprint.getD (connector.hashBody body)
      match env.upload document.id with
      | .rejected | .stored => uploaded
      | .inserted => (rows ++ [⟨id, some hash, body⟩], files)
      | .complete => (rows ++ [⟨id, some hash, body⟩], files ++ [(document.id, body)])

/-- The documents that `duplicate_and_parse` queues: the first failure leaves the loop. -/
def queued (files : List (String × Body)) : List (Hash × Body) :=
  if connector.autoParse then
    (files.takeWhile fun file => env.runs file.1).map fun file => (docId connector file.1, file.2)
  else []

def duplicateAndParse (state : State Version Body Hash) (batch : List (Document Body Hash)) :
    State Version Body Hash :=
  let (rows, files) := batch.foldl (uploadDocument connector env) (state.rows, [])
  { state with rows, scheduled := state.scheduled ++ queued connector env files }

/-- `_run_sync_task_logic` over the batches; a batch that fails is passed over. -/
def ingest (state : State Version Body Hash) (batches : List (List (Document Body Hash))) :
    State Version Body Hash :=
  batches.foldl (duplicateAndParse connector env) state

inductive Move (Version Body : Type)
  | put (object : Object Version)
  | delete (key : String)
  | sync (env : Env Body)
  | reindex (env : Env Body)

def step (state : State Version Body Hash) : Move Version Body → State Version Body Hash
  | .put object => { state with bucket := Table.upsert Object.key state.bucket object }
  | .delete key => { state with bucket := Table.delete Object.key key state.bucket }
  | .sync env =>
    ingest connector env state
      (fingerprintFiltered connector env state.rows [] (collectBlobObjects state.bucket))
  | .reindex env =>
    ingest connector env state
      (yieldBlobObjects connector env [] (collectBlobObjects state.bucket))

end Code

def linked : State Version Body Hash where
  bucket := []
  rows := []
  scheduled := []

variable (connector : Connector Version Body Hash)

def HasBody (object : Object Version) (body : Body) : Prop :=
  body = connector.body object.version ∨
    body = connector.repaired (recordKey connector object) (connector.body object.version)

def Unchanged (rows : List (Row Body Hash)) (object : Object Version) : Prop :=
  ∃ row ∈ rows, row.id = docId connector (recordKey connector object) ∧
    row.contentHash = fingerprint connector object ∧ row.contentHash ≠ none

def Parsed (state : State Version Body Hash) : Prop :=
  ∀ object ∈ state.bucket, Unchanged connector state.rows object →
    ∃ body, HasBody connector object body ∧
      (docId connector (recordKey connector object), body) ∈ state.scheduled

structure SyncsRight [DecidableEq Hash] (state : State Version Body Hash)
    (move : Move Version Body) : Prop where
  refines : ∀ env, move = .sync env →
    (step connector state move).rows.map (fun row => (row.id, row.body)) =
      (step connector state (.reindex env)).rows.map fun row => (row.id, row.body)
  fetches : ∀ env, move = .sync env → ∀ object ∈ collectBlobObjects state.bucket,
    recordKey connector object ∈ fetched connector state.rows (collectBlobObjects state.bucket) ↔
      ¬Unchanged connector state.rows object
  parsed : Parsed connector (step connector state move)

/-- What is written for an object is the listed version, and it is queued. -/
def Delivered (env : Env Body) (bucket : List (Object Version)) : Prop :=
  ∀ object ∈ collectBlobObjects bucket, ∀ body,
    env.download (recordKey connector object) = some body →
    (env.upload (recordKey connector object) = .inserted ∨
      env.upload (recordKey connector object) = .complete) →
    body = connector.body object.version ∧ connector.autoParse = true ∧
      env.upload (recordKey connector object) = .complete ∧
      env.runs (recordKey connector object) = true

def Fresh (state : State Version Body Hash) : Move Version Body → Prop
  | .put _ | .delete _ => True
  | .sync env => Delivered connector env state.bucket ∧
      ∀ object ∈ collectBlobObjects state.bucket, ¬Unchanged connector state.rows object
  | .reindex env => Delivered connector env state.bucket

end RagFlow.Sync.Blob

/-!
# Blob storage sync against full reload

No stored hash is found under the hash of a record's key, so a sync run downloads every object, like
a reindex run.
-/

namespace RagFlow.Sync.Blob

open Lib

variable {Version Body Hash : Type} (connector : Connector Version Body Hash)

def WrittenFor (object : Object Version) (hash : Hash) : Prop :=
  fingerprint connector object = some hash ∨
    ∃ body, HasBody connector object body ∧ hash = connector.hashBody body

/-- Neither the hash of a text nor a version's fingerprint is that of another. -/
structure CollisionFree : Prop where
  hash128 : Function.Injective connector.hash128
  content : ∀ object other hash, fingerprint connector object = some hash →
    WrittenFor connector other hash →
    connector.body object.version = connector.body other.version

def Traced (scheduled : List (Hash × Body)) (row : Row Body Hash) : Prop :=
  ∃ object hash body, row.id = docId connector (recordKey connector object) ∧
    row.contentHash = some hash ∧ WrittenFor connector object hash ∧
    HasBody connector object body ∧ (row.id, body) ∈ scheduled

def Sound (state : State Version Body Hash) : Prop :=
  ∀ row ∈ state.rows, Traced connector state.scheduled row

variable {connector} {scheduled : List (Hash × Body)} {row : Row Body Hash}

theorem Traced.mono (traced : Traced connector scheduled row) {more : List (Hash × Body)}
    (subset : scheduled ⊆ more) : Traced connector more row := by
  obtain ⟨object, hash, body, sameId, sameHash, written, hasBody, queued⟩ := traced
  exact ⟨object, hash, body, sameId, sameHash, written, hasBody, subset queued⟩

theorem docId_inj (collisionFree : CollisionFree connector) {first second : String}
    (same : docId connector first = docId connector second) : first = second := by
  have sameText := congrArg String.toList (collisionFree.hash128 same)
  simp only [String.toList_append, List.append_cancel_left_eq] at sameText
  exact String.toList_inj.mp sameText

section Lookup

theorem colon_notMem_value (type : BlobType) : ':' ∉ type.value.toList := by
  cases type <;> decide

theorem length_value (type : BlobType) : type.value.length ≠ 32 := by
  cases type <;> decide

theorem takeWhile_colon {start rest : List Char} (noColon : ':' ∉ start) :
    (start ++ ':' :: rest).takeWhile (· ≠ ':') = start := by
  have kept : ∀ char ∈ start, decide (char ≠ ':') = true := by
    intro char member
    apply decide_eq_true
    rintro rfl
    exact noColon member
  rw [List.takeWhile_append_of_pos kept]
  simp

theorem recordKey_ne (object : Object Version) (id : String) :
    recordKey connector object ≠ connector.connectorId ++ ":" ++ id := by
  intro same
  have sameText := congrArg String.toList same
  have colon : (":" : String).toList = [':'] := by decide
  simp only [recordKey, String.toList_append, colon, List.append_assoc, List.cons_append,
    List.nil_append] at sameText
  have sameStart := congrArg (List.takeWhile (· ≠ ':')) sameText
  rw [takeWhile_colon (colon_notMem_value _), takeWhile_colon connector.isUuid.2] at sameStart
  apply length_value connector.bucketType
  rw [String.toList_inj.mp sameStart, connector.isUuid.1]

variable [DecidableEq Hash]

theorem bypassed_eq_false (collisionFree : CollisionFree connector) {rows : List (Row Body Hash)}
    (traced : ∀ row ∈ rows, Traced connector scheduled row) (object : Object Version) :
    bypassed connector rows object = false := by
  have missing : (rows.find? fun row =>
      row.id = connector.hash128 (recordKey connector object)) = none := by
    apply List.find?_eq_none.mpr
    intro row stored sameId
    obtain ⟨other, _, _, rowId, _⟩ := traced row stored
    have sameHash := (of_decide_eq_true sameId).symm.trans rowId
    exact recordKey_ne object _ (collisionFree.hash128 sameHash)
  unfold bypassed contentHashOf
  rw [missing]
  cases fingerprint connector object <;> simp

theorem fingerprintFiltered_eq (env : Env Body) {rows : List (Row Body Hash)}
    (never : ∀ object, bypassed connector rows object = false) (objects : List (Object Version)) :
    ∀ batch, batch.length < batchSize →
      fingerprintFiltered connector env rows batch objects =
        yieldBlobObjects connector env batch objects := by
  induction objects with
  | nil => exact fun batch short => rfl
  | cons object objects ih =>
    intro batch short
    unfold fingerprintFiltered yieldBlobObjects
    simp only [never object, Bool.false_eq_true, if_false]
    cases built : buildDocumentFromObj connector env object with
    | none => exact ih batch short
    | some document =>
      have length : (batch ++ [document]).length = batch.length + 1 := by simp
      have empty : ([] : List (Document Body Hash)).length < batchSize := by
        simp [batchSize]
      by_cases full : (batch ++ [document]).length = batchSize
      · have reached : batchSize ≤ (batch ++ [document]).length := Nat.le_of_eq full.symm
        simp only [if_pos full, if_pos reached]
        rw [ih [] empty]
      · have unreached : ¬batchSize ≤ (batch ++ [document]).length := by omega
        simp only [if_neg full, if_neg unreached]
        apply ih
        omega

omit [DecidableEq Hash] in
theorem mem_yieldBlobObjects {env : Env Body} {objects : List (Object Version)}
    {document : Document Body Hash} :
    ∀ {batch}, (∃ yielded ∈ yieldBlobObjects connector env batch objects, document ∈ yielded) →
      document ∈ batch ∨
        ∃ object ∈ objects, buildDocumentFromObj connector env object = some document := by
  induction objects with
  | nil =>
    rintro batch ⟨yielded, member, inBatch⟩
    unfold yieldBlobObjects at member
    by_cases empty : batch.isEmpty
    · simp [empty] at member
    · simp only [empty, Bool.false_eq_true, if_false, List.mem_singleton] at member
      exact .inl (member ▸ inBatch)
  | cons object objects ih =>
    rintro batch ⟨yielded, member, inBatch⟩
    have later : (∃ other ∈ objects, buildDocumentFromObj connector env other = some document) →
        ∃ other ∈ object :: objects,
          buildDocumentFromObj connector env other = some document := by
      rintro ⟨other, listed, built⟩
      exact ⟨other, List.mem_cons_of_mem _ listed, built⟩
    unfold yieldBlobObjects at member
    cases built : buildDocumentFromObj connector env object with
    | none =>
      rw [built] at member
      exact (ih ⟨yielded, member, inBatch⟩).imp id later
    | some next =>
      have last : document ∈ batch ++ [next] → document ∈ batch ∨ ∃ other ∈ object :: objects,
          buildDocumentFromObj connector env other = some document := by
        intro inNext
        rcases List.mem_append.mp inNext with old | new
        · exact .inl old
        · rw [List.mem_singleton.mp new]
          exact .inr ⟨object, List.mem_cons_self, built⟩
      simp only [built] at member
      by_cases full : (batch ++ [next]).length = batchSize
      · simp only [if_pos full, List.mem_cons] at member
        rcases member with rfl | rest
        · exact last inBatch
        · have found := ih ⟨yielded, rest, inBatch⟩
          exact .inr (later (found.resolve_left List.not_mem_nil))
      · simp only [if_neg full] at member
        rcases ih ⟨yielded, member, inBatch⟩ with inNext | found
        · exact last inNext
        · exact .inr (later found)

end Lookup

section Ingestion

variable {env : Env Body} {uploaded : Uploaded Body Hash} {object : Object Version}
  {document : Document Body Hash}

variable (connector) in
def entry (file : String × Body) : Hash × Body :=
  (docId connector file.1, file.2)

variable (connector env scheduled) in
/-- Within a batch: all rows are traced once the reported files are queued, and they will be. -/
structure UploadSound (uploaded : Uploaded Body Hash) : Prop where
  traced : ∀ row ∈ uploaded.1, Traced connector (scheduled ++ uploaded.2.map (entry connector)) row
  runs : ∀ file ∈ uploaded.2, connector.autoParse = true ∧ env.runs file.1 = true

theorem UploadSound.append (sound : UploadSound connector scheduled env uploaded)
    {rows : List (Row Body Hash)} {file : String × Body}
    (rowsTraced : ∀ row ∈ rows, row ∈ uploaded.1 ∨
      Traced connector (scheduled ++ (uploaded.2 ++ [file]).map (entry connector)) row)
    (fileRuns : connector.autoParse = true ∧ env.runs file.1 = true) :
    UploadSound connector scheduled env (rows, uploaded.2 ++ [file]) := by
  constructor
  · intro row stored
    rcases rowsTraced row stored with old | new
    · apply (sound.traced row old).mono
      rw [List.map_append, ← List.append_assoc]
      exact List.subset_append_left _ _
    · exact new
  · intro other member
    rcases List.mem_append.mp member with old | new
    · exact sound.runs other old
    · rwa [List.mem_singleton.mp new]

theorem traced_of_file {hash : Hash} {body stored : Body}
    (written : WrittenFor connector object hash) (hasBody : HasBody connector object body)
    (files : List (String × Body)) :
    Traced connector (scheduled ++
        (files ++ [(recordKey connector object, body)]).map (entry connector))
      ⟨docId connector (recordKey connector object), some hash, stored⟩ := by
  refine ⟨object, hash, body, by simp, by simp, written, hasBody, ?_⟩
  simp [entry]

theorem writtenFor_getD {body : Body} (hasBody : HasBody connector object body) :
    WrittenFor connector object
      ((fingerprint connector object).getD (connector.hashBody body)) := by
  cases tagged : fingerprint connector object with
  | none => exact .inr ⟨body, hasBody, by simp⟩
  | some hash => exact .inl (by simpa using tagged)

variable [DecidableEq Hash]

theorem traced_modify {rows : List (Row Body Hash)} {id : Hash} {change : Row Body Hash →
    Row Body Hash} (traced : ∀ row ∈ rows, Traced connector scheduled row)
    (changed : ∀ row ∈ rows, row.id = id → Traced connector scheduled (change row)) :
    ∀ row ∈ Table.modify Row.id id change rows, Traced connector scheduled row := by
  intro row stored
  obtain ⟨old, member, rfl⟩ := List.mem_map.mp stored
  by_cases hit : old.id = id
  · rw [if_pos hit]
    exact changed old member hit
  · rw [if_neg hit]
    exact traced old member

theorem uploadSound_uploadDocument (sound : UploadSound connector scheduled env uploaded)
    (built : buildDocumentFromObj connector env object = some document)
    (delivered : env.upload (recordKey connector object) = .inserted ∨
        env.upload (recordKey connector object) = .complete →
      document.body = connector.body object.version ∧ connector.autoParse = true ∧
        env.upload (recordKey connector object) = .complete ∧
        env.runs (recordKey connector object) = true) :
    UploadSound connector scheduled env (uploadDocument connector env uploaded document) := by
  obtain ⟨body, downloaded, rfl⟩ := Option.map_eq_some_iff.mp built
  obtain ⟨rows, files⟩ := uploaded
  unfold uploadDocument
  by_cases foreign : docId connector (recordKey connector object) ∈ connector.elsewhere
  · simpa only [if_pos foreign] using sound
  simp only [if_neg foreign]
  cases found : rows.find? fun row => row.id = docId connector (recordKey connector object) with
  | none =>
    cases upload : env.upload (recordKey connector object) with
    | rejected => exact sound
    | stored => exact sound
    | inserted => exact absurd (delivered (.inl upload)).2.2.1 (by simp [upload])
    | complete =>
      obtain ⟨rfl, autoParse, -, runs⟩ := delivered (.inr upload)
      have hasBody : HasBody connector object (connector.repaired (recordKey connector object)
          (connector.body object.version)) := .inr rfl
      refine sound.append ?_ ⟨autoParse, runs⟩
      intro row stored
      rcases List.mem_append.mp stored with old | new
      · exact .inl old
      · rw [List.mem_singleton.mp new]
        exact .inr (traced_of_file (writtenFor_getD hasBody) hasBody files)
  | some row =>
    have stored : row ∈ rows := List.mem_of_find?_eq_some found
    have sameId : row.id = docId connector (recordKey connector object) := by
      simpa using List.find?_some found
    cases upload : env.upload (recordKey connector object) with
    | rejected => exact sound
    | stored =>
      refine ⟨traced_modify sound.traced ?_, sound.runs⟩
      -- The trace of a row does not depend on the stored body.
      intro other member _
      exact sound.traced other member
    | inserted => exact absurd (delivered (.inl upload)).2.2.1 (by simp [upload])
    | complete =>
      obtain ⟨rfl, autoParse, -, runs⟩ := delivered (.inr upload)
      have hasBody : HasBody connector object (connector.body object.version) := .inl rfl
      by_cases sameHash : row.contentHash = some (newHash connector
          ⟨recordKey connector object, connector.body object.version,
            fingerprint connector object⟩)
      · simp only [if_pos sameHash]
        refine ⟨traced_modify sound.traced ?_, sound.runs⟩
        intro other _ otherId
        obtain ⟨source, hash, body, id, rest⟩ := sound.traced row stored
        rw [sameId, ← otherId] at id
        refine ⟨source, hash, body, id, ?_⟩
        rw [sameId, ← otherId, sameHash] at rest
        exact rest
      · simp only [if_neg sameHash]
        have fileTraced : UploadSound connector scheduled env
            (rows, files ++ [(recordKey connector object, connector.body object.version)]) :=
          sound.append (fun other member => .inl member) ⟨autoParse, runs⟩
        refine ⟨traced_modify fileTraced.traced ?_, fileTraced.runs⟩
        intro other _ otherId
        rw [otherId]
        exact traced_of_file (writtenFor_getD hasBody) hasBody files

omit [DecidableEq Hash] in
theorem queued_eq {files : List (String × Body)}
    (runs : ∀ file ∈ files, connector.autoParse = true ∧ env.runs file.1 = true) :
    queued connector env files = files.map (entry connector) := by
  unfold queued
  have all : files.takeWhile (fun file => env.runs file.1) = files :=
    List.takeWhile_eq_self_iff.mpr fun file member => (runs file member).2
  by_cases autoParse : connector.autoParse = true
  · rw [if_pos autoParse, all]
    exact List.map_congr_left fun file _ => by simp [entry]
  · cases files with
    | nil => simp [autoParse]
    | cons file files => exact absurd (runs file List.mem_cons_self).1 autoParse

variable {state : State Version Body Hash}

def Listed (connector : Connector Version Body Hash) (env : Env Body)
    (bucket : List (Object Version)) (document : Document Body Hash) : Prop :=
  ∃ object ∈ collectBlobObjects bucket, buildDocumentFromObj connector env object = some document

theorem sound_duplicateAndParse (sound : Sound connector state) {bucket : List (Object Version)}
    (delivered : Delivered connector env bucket) {batch : List (Document Body Hash)}
    (listed : ∀ document ∈ batch, Listed connector env bucket document) :
    Sound connector (duplicateAndParse connector env state batch) := by
  have uploads : ∀ (batch : List (Document Body Hash)) (uploaded : Uploaded Body Hash),
      (∀ document ∈ batch, Listed connector env bucket document) →
      UploadSound connector state.scheduled env uploaded →
      UploadSound connector state.scheduled env
        (batch.foldl (uploadDocument connector env) uploaded) := by
    intro batch
    induction batch with
    | nil => exact fun uploaded _ sound => sound
    | cons document batch ih =>
      intro uploaded listed sound
      obtain ⟨object, inBucket, built⟩ := listed document List.mem_cons_self
      apply ih _ fun other member => listed other (List.mem_cons_of_mem _ member)
      apply uploadSound_uploadDocument sound built
      obtain ⟨body, downloaded, rfl⟩ := Option.map_eq_some_iff.mp built
      exact delivered object inBucket body downloaded
  have initially : UploadSound connector state.scheduled env (state.rows, []) := by
    refine ⟨fun row stored => ?_, by simp⟩
    simpa using sound row stored
  have finally_ := uploads batch (state.rows, []) listed initially
  intro row stored
  have traced := finally_.traced row stored
  rw [← queued_eq finally_.runs] at traced
  exact traced

theorem sound_ingest (sound : Sound connector state) {bucket : List (Object Version)}
    (delivered : Delivered connector env bucket) {batches : List (List (Document Body Hash))}
    (listed : ∀ batch ∈ batches, ∀ document ∈ batch, Listed connector env bucket document) :
    Sound connector (ingest connector env state batches) := by
  unfold ingest
  induction batches generalizing state with
  | nil => exact sound
  | cons batch batches ih =>
    rw [List.forall_mem_cons] at listed
    exact ih (sound_duplicateAndParse sound delivered listed.1) listed.2

end Ingestion

section Runs

variable [DecidableEq Hash] {state : State Version Body Hash} {move : Move Version Body}

omit [DecidableEq Hash] in
theorem listed_yieldBlobObjects {env : Env Body} {bucket : List (Object Version)} :
    ∀ batch ∈ yieldBlobObjects connector env [] (collectBlobObjects bucket),
      ∀ document ∈ batch, Listed connector env bucket document := by
  intro batch yielded document member
  exact (mem_yieldBlobObjects ⟨batch, yielded, member⟩).resolve_left List.not_mem_nil

theorem step_sync (collisionFree : CollisionFree connector) (sound : Sound connector state)
    (env : Env Body) : step connector state (.sync env) = step connector state (.reindex env) := by
  simp only [step]
  rw [fingerprintFiltered_eq env (bypassed_eq_false collisionFree sound)]
  simp [batchSize]

theorem sound_step (collisionFree : CollisionFree connector) (fresh : Fresh connector state move)
    (sound : Sound connector state) : Sound connector (step connector state move) := by
  cases move with
  | put object => exact sound
  | delete key => exact sound
  | sync env =>
    rw [step_sync collisionFree sound]
    exact sound_ingest sound fresh.1 listed_yieldBlobObjects
  | reindex env => exact sound_ingest sound fresh listed_yieldBlobObjects

omit [DecidableEq Hash] in
theorem parsed_of_sound (collisionFree : CollisionFree connector) (sound : Sound connector state) :
    Parsed connector state := by
  rintro object - ⟨row, stored, sameId, sameHash, tagged⟩
  obtain ⟨other, hash, body, otherId, otherHash, written, hasBody, queued⟩ := sound row stored
  have sameKey : recordKey connector object = recordKey connector other :=
    docId_inj collisionFree (sameId.symm.trans otherId)
  have sameBody : connector.body object.version = connector.body other.version :=
    collisionFree.content object other hash (sameHash.symm.trans otherHash) written
  refine ⟨body, ?_, sameId ▸ queued⟩
  unfold HasBody
  rwa [sameBody, sameKey]

theorem fetches_iff (collisionFree : CollisionFree connector) (sound : Sound connector state) :
    (∀ object ∈ collectBlobObjects state.bucket,
      recordKey connector object ∈
          fetched connector state.rows (collectBlobObjects state.bucket) ↔
        ¬Unchanged connector state.rows object) ↔
      ∀ object ∈ collectBlobObjects state.bucket, ¬Unchanged connector state.rows object := by
  have all : ∀ object ∈ collectBlobObjects state.bucket,
      recordKey connector object ∈
        fetched connector state.rows (collectBlobObjects state.bucket) := by
    intro object listed
    apply List.mem_map_of_mem
    rw [List.mem_filter, bypassed_eq_false collisionFree sound]
    exact ⟨listed, by simp⟩
  constructor
  · exact fun exactly object listed => (exactly object listed).mp (all object listed)
  · exact fun changed object listed => iff_of_true (all object listed) (changed object listed)

/-- Along the runs that list no unchanged object and queue what they write, a sync run leaves what
a reindex run leaves, downloads exactly what has changed, and what is stored was queued. -/
theorem syncsRight_along (collisionFree : CollisionFree connector)
    (moves : List (Move Version Body))
    (fresh : Runs.Along (step connector) (Fresh connector) linked moves) :
    Runs.Along (step connector) (SyncsRight connector) linked moves := by
  have initially : Sound connector linked := by
    intro row stored
    cases stored
  refine Runs.along_of_invariant initially ?_ ?_ fresh
  · exact fun state move freshMove sound => sound_step collisionFree freshMove sound
  · intro state move freshMove sound
    constructor
    · rintro env rfl
      rw [step_sync collisionFree sound]
    · rintro env rfl
      exact (fetches_iff collisionFree sound).mpr freshMove.2
    · exact parsed_of_sound collisionFree (sound_step collisionFree freshMove sound)

end Runs

def notes : Connector Bool Bool String where
  connectorId := "0123456789abcdef0123456789abcdef"
  isUuid := by decide
  bucketType := .s3
  bucketName := "notes"
  autoParse := true
  elsewhere := []
  body version := version
  etag version := some (if version then "\"e1\"" else "\"e0\"")
  hash128 text := text
  hashBody body := if body then "b1" else "b0"
  repaired _ body := body

def calm (body : Bool) : Env Bool where
  download _ := some body
  upload _ := .complete
  runs _ := true

theorem fingerprint_notes (object : Object Bool) :
    fingerprint notes object = some (if object.version then "e1" else "e0") := by
  obtain ⟨key, version⟩ := object
  change normalizeEtag notes (notes.etag version) = some (if version then "e1" else "e0")
  cases version <;> decide

theorem collisionFree_notes : CollisionFree notes where
  hash128 _ _ same := same
  content := by
    rintro ⟨_, current⟩ ⟨_, written⟩ hash tagged (other | ⟨body, -, rfl⟩)
    · rw [fingerprint_notes] at tagged other
      have same := tagged.trans other.symm
      revert same
      cases current <;> cases written <;> simp [notes]
    · rw [fingerprint_notes] at tagged
      cases current <;> cases body <;> simp_all [notes]

def draft : Object Bool := ⟨"a", false⟩

def final : Object Bool := ⟨"a", true⟩

theorem delivered_calm (object : Object Bool) :
    Delivered notes (calm object.version) [object] := by
  intro listed member body downloaded _
  obtain rfl := List.mem_singleton.mp (List.mem_of_mem_filter member)
  obtain rfl := Option.some.inj downloaded
  simp [notes, calm]

theorem unchanged_iff_notes {rows : List (Row Bool String)} {object : Object Bool} :
    Unchanged notes rows object ↔
      ∃ row ∈ rows, row.id = docId notes (recordKey notes object) ∧
        row.contentHash = fingerprint notes object ∧ row.contentHash ≠ none := Iff.rfl

theorem syncsRight_draft_final :
    Runs.Along (step notes) (SyncsRight notes) linked
      [.put draft, .sync (calm false), .put final, .sync (calm true)] := by
  apply syncsRight_along collisionFree_notes
  refine Runs.along_cons.mpr ⟨trivial, Runs.along_cons.mpr ⟨⟨delivered_calm draft, ?_⟩,
    Runs.along_cons.mpr ⟨trivial, Runs.along_cons.mpr ⟨⟨delivered_calm final, ?_⟩,
      Runs.along_nil⟩⟩⟩⟩
  · simp only [unchanged_iff_notes]
    decide
  · simp only [unchanged_iff_notes]
    decide

/-- The second run downloads the object again. -/
theorem not_syncsRight :
    ¬Runs.Along (step notes) (SyncsRight notes) linked
      [.put draft, .sync (calm false), .sync (calm false)] := by
  intro right
  have again := right [.put draft, .sync (calm false)] (.sync (calm false)) [] (by simp)
  have listed : draft ∈ [draft] := List.mem_singleton_self draft
  have changed := (again.fetches (calm false) (by simp) draft listed).mp (by decide)
  apply changed
  rw [unchanged_iff_notes]
  decide

end RagFlow.Sync.Blob
