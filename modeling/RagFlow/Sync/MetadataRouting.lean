import Mathlib.Data.List.Induction
import Mathlib.Data.List.Infix
import Mathlib.Logic.Function.Basic
import RagFlow.Files.FreeNames

/-!
# The metadata of ingested documents

`duplicate_and_parse` uploads a batch of connector documents and looks the metadata of what was
uploaded up by file name.
-/

namespace RagFlow.Sync.Connector

open Names

variable {Blob Entry : Type}

/-- A document of the connector; a missing fingerprint and missing metadata are empty. -/
structure Record (Blob Entry : Type) where
  id : Text
  semantic_identifier : Text
  extension : Text
  blob : Blob
  fingerprint : Text
  metadata : List Entry

def Record.filename (record : Record Blob Entry) : Text :=
  record.semantic_identifier ++
    if record.extension <:+: record.semantic_identifier then [] else record.extension

/-- What the services raise for a record, if anything. -/
structure Answers where
  health : Option Text
  /-- The type of the file, the storage or the database, before the row of the document changes. -/
  save : Option Text
  link : Option Text

structure Document where
  id : Text
  kb_id : Text
  name : Text
  content_hash : Text

structure Base (Blob : Type) where
  id : Text
  xxh128 : Blob → Text
  /-- `read_potential_broken_pdf` for the name of a PDF; other bytes stay. -/
  repair : Text → Blob → Blob

def get_by_id (documents : List Document) (doc_id : Text) : Option Document :=
  documents.find? (·.id = doc_id)

def query (documents : List Document) (kb_id name : Text) : Bool :=
  documents.any fun doc => doc.name = name && doc.kb_id = kb_id

structure Uploaded (Blob Entry : Type) where
  doc : Document
  source : Record Blob Entry

structure Upload (Blob Entry : Type) where
  documents : List Document
  err : List Text
  files : List (Uploaded Blob Entry)

def Upload.failed (upload : Upload Blob Entry) (file : Record Blob Entry) (message : Text) :
    Upload Blob Entry :=
  { upload with err := upload.err ++ [file.filename ++ ": ".toList ++ message] }

def collision : Text :=
  "Existing document id collision with another knowledge base; skipping update.".toList

def contentHash (kb : Base Blob) (file : Record Blob Entry) (blob : Blob) : Text :=
  if file.fingerprint = [] then kb.xxh128 blob else file.fingerprint

def update_file (kb : Base Blob) (upload : Upload Blob Entry) (file : Record Blob Entry)
    (answers : Answers) (doc : Document) : Upload Blob Entry :=
  if doc.kb_id ≠ kb.id then upload.failed file collision
  else
    match answers.save with
    | some raised => upload.failed file raised
    | none =>
      let new_hash := contentHash kb file file.blob
      let updated := { doc with content_hash := new_hash }
      { upload with
        documents := upload.documents.map fun row =>
          if row.id = doc.id then updated else row
        files :=
          if new_hash ≠ doc.content_hash then upload.files ++ [⟨updated, file⟩] else upload.files }

def insert_file (kb : Base Blob) (upload : Upload Blob Entry) (file : Record Blob Entry)
    (answers : Answers) : Upload Blob Entry :=
  match answers.health with
  | some raised => upload.failed file raised
  | none =>
    match duplicate_name (query upload.documents kb.id) file.filename with
    | .error raised => upload.failed file raised
    | .ok filename =>
      match answers.save with
      | some raised => upload.failed file raised
      | none =>
        let content_hash := contentHash kb file (kb.repair filename file.blob)
        let doc : Document := ⟨file.id, kb.id, filename, content_hash⟩
        let inserted := { upload with documents := upload.documents ++ [doc] }
        match answers.link with
        | some raised => inserted.failed file raised
        | none => { inserted with files := upload.files ++ [⟨doc, file⟩] }

def upload_file (kb : Base Blob) (upload : Upload Blob Entry) (file : Record Blob Entry × Answers) :
    Upload Blob Entry :=
  match get_by_id upload.documents file.1.id with
  | some doc => update_file kb upload file.1 file.2 doc
  | none => insert_file kb upload file.1 file.2

def upload_document (kb : Base Blob) (documents : List Document)
    (file_objs : List (Record Blob Entry × Answers)) : Upload Blob Entry :=
  file_objs.foldl (upload_file kb) ⟨documents, [], []⟩

def metadata_map (docs : List (Record Blob Entry)) : Text → Option (List Entry) :=
  docs.foldl (fun map d =>
    if d.metadata = [] then map else Function.update map d.filename (some d.metadata)) fun _ => none

abbrev Metadata (Entry : Type) := Text → Option (List Entry)

def attach (map : Text → Option (List Entry)) (stored : Metadata Entry)
    (file : Uploaded Blob Entry) : Metadata Entry :=
  match map file.doc.name with
  | some metadata => Function.update stored file.doc.id (some metadata)
  | none => stored

/-- The errors and the ids, and the stored metadata. -/
def duplicate_and_parse (kb : Base Blob) (documents : List Document) (stored : Metadata Entry)
    (docs : List (Record Blob Entry × Answers)) : Option (List Text × List Text) × Metadata Entry :=
  if docs.isEmpty then (none, stored)
  else
    let upload := upload_document kb documents docs
    (some (upload.err, upload.files.map (·.doc.id)),
      upload.files.foldl (attach (metadata_map (docs.map Prod.fst))) stored)

def Record.carried (record : Record Blob Entry) : Option (List Entry) :=
  if record.metadata = [] then none else some record.metadata

def LastUpload (files : List (Uploaded Blob Entry)) (file : Uploaded Blob Entry) : Prop :=
  ∃ earlier later, files = earlier ++ file :: later ∧ ∀ other ∈ later, other.doc.id ≠ file.doc.id

/-- Every uploaded document gets the metadata of its own record, if that has any, and nothing else
is stored. -/
structure AttachesOwn (kb : Base Blob) (documents : List Document)
    (docs : List (Record Blob Entry × Answers)) : Prop where
  own : ∀ stored file, LastUpload (upload_document kb documents docs).files file →
    (duplicate_and_parse kb documents stored docs).2 file.doc.id =
      file.source.carried.or (stored file.doc.id)
  others : ∀ stored id, (∀ file ∈ (upload_document kb documents docs).files, file.doc.id ≠ id) →
    (duplicate_and_parse kb documents stored docs).2 id = stored id

def carriedUnder (docs : List (Record Blob Entry)) (name : Text) : Option (List Entry) :=
  ((docs.filter fun record => record.filename = name ∧ record.metadata ≠ []).getLast?).map
    (·.metadata)

theorem metadata_map_apply (docs : List (Record Blob Entry)) (name : Text) :
    metadata_map docs name = carriedUnder docs name := by
  induction docs using List.reverseRecOn with
  | nil => rfl
  | append_singleton docs record ih =>
    rw [metadata_map, List.foldl_concat, ← metadata_map, carriedUnder, List.filter_append]
    by_cases isEmpty : record.metadata = []
    · simp [isEmpty, ih, carriedUnder]
    · by_cases isNamed : record.filename = name
      · simp [isEmpty, isNamed]
      · simp [isEmpty, isNamed, Function.update_of_ne (Ne.symm isNamed), ih, carriedUnder]

def nameOf (documents : List Document) (id : Text) : Option Text :=
  (get_by_id documents id).map (·.name)

theorem id_of_get_by_id {documents : List Document} {id : Text} {doc : Document}
    (isFound : get_by_id documents id = some doc) : doc.id = id := by
  have found := List.find?_some isFound
  exact of_decide_eq_true found

theorem nameOf_append {documents : List Document} {id name : Text} (doc : Document)
    (isNamed : nameOf documents id = some name) :
    nameOf (documents ++ [doc]) id = some name := by
  obtain ⟨found, isFound, isName⟩ := Option.map_eq_some_iff.mp isNamed
  rw [get_by_id] at isFound
  rw [nameOf, get_by_id, List.find?_append, isFound, Option.some_or, Option.map_some, isName]

theorem nameOf_append_self {documents : List Document} {doc : Document}
    (isNew : get_by_id documents doc.id = none) :
    nameOf (documents ++ [doc]) doc.id = some doc.name := by
  rw [get_by_id] at isNew
  simp [nameOf, get_by_id, isNew]

theorem nameOf_update {documents : List Document} {doc updated : Document}
    (isFound : get_by_id documents doc.id = some doc) (sameId : updated.id = doc.id)
    (sameName : updated.name = doc.name) (id : Text) :
    nameOf (documents.map fun row => if row.id = doc.id then updated else row) id =
      nameOf documents id := by
  have kept : ((fun row : Document => decide (row.id = id)) ∘
      fun row => if row.id = doc.id then updated else row) = fun row => decide (row.id = id) := by
    funext row
    by_cases isDoc : row.id = doc.id
    · simp [isDoc, sameId]
    · simp [isDoc]
  rw [nameOf, get_by_id, List.find?_map, kept, nameOf]
  by_cases isDoc : id = doc.id
  · rw [isDoc, ← get_by_id, isFound]
    simp [sameName]
  · cases found : get_by_id documents id with
    | none =>
      rw [get_by_id] at found
      rw [found]
      rfl
    | some other =>
      have isOther : other.id = id := id_of_get_by_id found
      rw [get_by_id] at found
      rw [found, Option.map_some, Option.map_some, if_neg (isOther ▸ isDoc)]
      rfl

theorem upload_file_spec (kb : Base Blob) (upload : Upload Blob Entry)
    (file : Record Blob Entry × Answers) :
    (∀ id name, nameOf upload.documents id = some name →
      nameOf (upload_file kb upload file).documents id = some name) ∧
    ((upload_file kb upload file).files = upload.files ∨ ∃ uploaded : Uploaded Blob Entry,
      (upload_file kb upload file).files = upload.files ++ [uploaded] ∧
      nameOf (upload_file kb upload file).documents uploaded.doc.id = some uploaded.doc.name) := by
  rw [upload_file]
  cases isFound : get_by_id upload.documents file.1.id with
  | some doc =>
    simp only [update_file]
    have isDoc : doc.id = file.1.id := id_of_get_by_id isFound
    rw [← isDoc] at isFound
    split
    · exact ⟨fun _ _ isNamed => isNamed, .inl rfl⟩
    · split
      · exact ⟨fun _ _ isNamed => isNamed, .inl rfl⟩
      · have kept := @nameOf_update _ doc { doc with content_hash := contentHash kb file.1 file.1.blob }
          isFound rfl rfl
        refine ⟨fun id name isNamed => (kept id).trans isNamed, ?_⟩
        dsimp only
        split
        · refine .inr ⟨_, rfl, (kept doc.id).trans ?_⟩
          rw [nameOf, isFound]
          rfl
        · exact .inl rfl
  | none =>
    simp only [insert_file]
    split
    · exact ⟨fun _ _ isNamed => isNamed, .inl rfl⟩
    · split
      · exact ⟨fun _ _ isNamed => isNamed, .inl rfl⟩
      · split
        · exact ⟨fun _ _ isNamed => isNamed, .inl rfl⟩
        · split
          · exact ⟨fun _ _ isNamed => nameOf_append _ isNamed, .inl rfl⟩
          · exact ⟨fun _ _ isNamed => nameOf_append _ isNamed,
              .inr ⟨_, rfl, nameOf_append_self isFound⟩⟩

theorem nameOf_of_mem_files (kb : Base Blob) (documents : List Document)
    (docs : List (Record Blob Entry × Answers)) :
    ∀ file ∈ (upload_document kb documents docs).files,
      nameOf (upload_document kb documents docs).documents file.doc.id = some file.doc.name := by
  induction docs using List.reverseRecOn with
  | nil => exact List.forall_mem_nil _
  | append_singleton docs record ih =>
    rw [upload_document, List.foldl_concat, ← upload_document]
    obtain ⟨kept, same | ⟨uploaded, files, isNamed⟩⟩ :=
      upload_file_spec kb (upload_document kb documents docs) record
    · rw [same]
      exact fun file isMem => kept _ _ (ih file isMem)
    · rw [files]
      intro file isMem
      rcases List.mem_append.mp isMem with isMem | isMem
      · exact kept _ _ (ih file isMem)
      · obtain rfl := List.mem_singleton.mp isMem
        exact isNamed

theorem attached_of_forall_ne {map : Text → Option (List Entry)} {files : List (Uploaded Blob Entry)}
    {id : Text} (others : ∀ file ∈ files, file.doc.id ≠ id) (stored : Metadata Entry) :
    files.foldl (attach map) stored id = stored id := by
  induction files generalizing stored with
  | nil => rfl
  | cons file files ih =>
    obtain ⟨isOther, later⟩ := List.forall_mem_cons.mp others
    rw [List.foldl_cons, ih later, attach]
    cases map file.doc.name with
    | none => rfl
    | some metadata => exact Function.update_of_ne (Ne.symm isOther) _ _

theorem attached_apply {map : Text → Option (List Entry)} {files : List (Uploaded Blob Entry)}
    {id name : Text} (named : ∀ file ∈ files, file.doc.id = id → file.doc.name = name)
    (isUploaded : ∃ file ∈ files, file.doc.id = id) (stored : Metadata Entry) :
    files.foldl (attach map) stored id = (map name).or (stored id) := by
  induction files generalizing stored with
  | nil => obtain ⟨_, isMem, _⟩ := isUploaded; cases isMem
  | cons file files ih =>
    obtain ⟨isNamed, later⟩ := List.forall_mem_cons.mp named
    have first : file.doc.id = id → attach map stored file id = (map name).or (stored id) := by
      rintro rfl
      rw [attach, isNamed rfl]
      cases map name with
      | none => rfl
      | some metadata => exact Function.update_self _ _ _
    have skipped : file.doc.id ≠ id → attach map stored file id = stored id :=
      fun isOther => by
      simpa using @attached_of_forall_ne _ _ map [file] id (by simpa using isOther) stored
    rw [List.foldl_cons]
    by_cases again : ∃ other ∈ files, other.doc.id = id
    · rw [ih later again]
      by_cases isFirst : file.doc.id = id
      · rw [first isFirst]
        cases map name <;> rfl
      · rw [skipped isFirst]
    · have none : ∀ other ∈ files, other.doc.id ≠ id := fun other isMem isOther =>
        again ⟨other, isMem, isOther⟩
      have isFirst : file.doc.id = id := by
        obtain ⟨other, isMem, isOther⟩ := isUploaded
        rcases List.mem_cons.mp isMem with rfl | isMem
        · exact isOther
        · exact absurd isOther (none other isMem)
      rw [attached_of_forall_ne none, first isFirst]

theorem stored_after (kb : Base Blob) (documents : List Document) (stored : Metadata Entry)
    (docs : List (Record Blob Entry × Answers)) :
    (duplicate_and_parse kb documents stored docs).2 = (upload_document kb documents docs).files.foldl
      (attach (metadata_map (docs.map Prod.fst))) stored := by
  cases docs with
  | nil => rfl
  | cons record docs => rfl

def plainBase : Base Unit := ⟨"kb".toList, fun () => "hash".toList, fun _ blob => blob⟩

def namesake (id : Text) (metadata : List ℕ) : Record Unit ℕ × Answers :=
  (⟨id, "a".toList, ".txt".toList, (), [], metadata⟩, ⟨none, none, none⟩)

def namesakes : List (Record Unit ℕ × Answers) :=
  [namesake "first".toList [1], namesake "second".toList [2]]

end RagFlow.Sync.Connector
