import RagFlow.Files.Tree

/-!
# Deleting files

`delete_files` of the API server and `DeleteFiles` of the Go server.  A folder is deleted after its
entries; with a file go its object, its links and the documents that are linked to it.  The API
server goes on after an error and collects the errors, the Go server ends at the first one.
-/

namespace RagFlow.Files

open Lib

abbrev Progress (Blob : Type) := State Blob × List String

variable {Blob : Type} (server : Server)

section Documents

def getDocument (documents : List Document) (id : ℕ) : Option Document :=
  documents.find? fun document => document.id = id

/-- `get_tenant_id`: the tenant of a document whose dataset is not deleted. -/
def getTenantId (datasets : List Dataset) (document : Document) : Option String :=
  ((datasets.find? fun dataset => dataset.id = document.datasetId && dataset.isValid).map
    Dataset.tenantId).filter fun tenantId => tenantId ≠ ""

/-- The index in the chunk store: `index_name` of the API server, and the name that
`deleteDocumentFromEngine` builds. -/
def indexName (tenantId : String) (datasetId : ℕ) : String :=
  match server with
  | .python => "ragflow_" ++ tenantId
  | .go => "ragflow_" ++ tenantId ++ "_" ++ toString datasetId

def deleteChunks (chunks : List Chunk) (index : String) (document : Document) : List Chunk :=
  chunks.filter fun chunk =>
    !(chunk.index = index && chunk.datasetId = document.datasetId && chunk.docId = document.id)

def deleteDocumentAndUpdateKbCounts (state : State Blob) (document : Document) : State Blob :=
  { state with
    documents := state.documents.filter fun other => other.id ≠ document.id
    datasets := state.datasets.map fun dataset =>
      if dataset.id = document.datasetId then
        { dataset with
          tokenNum := dataset.tokenNum - document.tokenNum
          chunkNum := dataset.chunkNum - document.chunkNum
          docNum := dataset.docNum - 1 }
      else dataset }

def removeDocument (state : State Blob) (document : Document) (tenantId : String) : State Blob :=
  let state := deleteDocumentAndUpdateKbCounts state document
  { state with chunks :=
      deleteChunks state.chunks (indexName .python tenantId document.datasetId) document }

def deleteInform (fileId : ℕ) (progress : Progress Blob) (docId : ℕ) : Progress Blob :=
  match server with
  | .python =>
    match getDocument progress.1.documents docId with
    | none =>
      (progress.1, progress.2 ++ [s!"Document not found for file {fileId}: {docId}"])
    | some document =>
      match getTenantId progress.1.datasets document with
      | none => (progress.1, progress.2 ++ [s!"Tenant not found for document {docId}"])
      | some tenantId => (removeDocument progress.1 document tenantId, progress.2)
  | .go =>
    match getDocument progress.1.documents docId with
    | none => progress
    | some document =>
      let chunks :=
        match getTenantId progress.1.datasets document with
        | none => progress.1.chunks
        | some tenantId =>
          deleteChunks progress.1.chunks (indexName .go tenantId document.datasetId) document
      ({ progress.1 with
          chunks
          documents := progress.1.documents.filter fun other => other.id ≠ docId },
        progress.2)

end Documents

def informs (links : List (ℕ × ℕ)) (fileId : ℕ) : List ℕ :=
  (links.filter fun link => link.1 = fileId).map Prod.snd

def deleteSingleFile (progress : Progress Blob) (file : File) : Progress Blob :=
  let objects :=
    if file.location = "" then progress.1.objects else progress.1.objects.erase file.address
  let result := (informs progress.1.links file.id).foldl (deleteInform server file.id)
    ({ progress.1 with objects }, progress.2)
  ({ result.1 with
      links := result.1.links.filter fun link => link.1 ≠ file.id
      files := deleteById file.id result.1.files }, result.2)

def removeFolder (removesBuckets : Bool) (state : State Blob) (folder : File) : State Blob :=
  { state with
    files := deleteById folder.id state.files
    objects :=
      if server = .python ∧ removesBuckets then
        state.objects.filterKeys fun address => address.1 ≠ folder.id
      else state.objects }

/-- `_delete_folder_recursive` and `deleteFolderRecursive`; `none` when the recursion does not come
to an end within the fuel. -/
def deleteFolderRecursive (removesBuckets : Bool) :
    ℕ → Progress Blob → File → Option (Progress Blob)
  | 0, _, _ => none
  | fuel + 1, progress, folder => do
    let result ← (listAllFilesByParentId progress.1.files folder.id).foldlM
      (fun progress file =>
        if file.isFolder then deleteFolderRecursive removesBuckets fuel progress file
        else some (deleteSingleFile server progress file))
      progress
    some (removeFolder server removesBuckets result.1 folder, result.2)

def deleteEntry (removesBuckets : Bool) (fuel : ℕ) (progress : Progress Blob) (file : File) :
    Option (Progress Blob) :=
  if file.isFolder then deleteFolderRecursive server removesBuckets fuel progress file
  else some (deleteSingleFile server progress file)

/-- The loop of `delete_files` of the API server. -/
def deleteFile (removesBuckets : Bool) (user : User) (fuel : ℕ) (progress : Progress Blob)
    (id : ℕ) : Option (Progress Blob) :=
  match getById progress.1.files id with
  | none => some (progress.1, progress.2 ++ [s!"File or Folder not found: {id}"])
  | some file =>
    if file.tenantId = "" then
      some (progress.1, progress.2 ++ [s!"Tenant not found for file {id}"])
    else if checkFileTeamPermission .python user progress.1 file = false then
      some (progress.1, progress.2 ++ [s!"No authorization for file {id}"])
    else if file.fromDataset then some progress
    else deleteEntry .python removesBuckets fuel progress file

/-- `delete_files` of the API server: it succeeds if there are no errors. -/
def deleteFiles (removesBuckets : Bool) (user : User) (fuel : ℕ) (state : State Blob)
    (fileIds : List ℕ) : Option (Progress Blob) :=
  fileIds.foldlM (deleteFile removesBuckets user fuel) (state, [])

/-- `DeleteFiles` of the Go server: it succeeds if there is no error. -/
def deleteFilesGo (user : User) (fuel : ℕ) :
    State Blob → List ℕ → Option (State Blob × Option String)
  | state, [] => some (state, none)
  | state, id :: ids =>
    match getById state.files id with
    | none => some (state, some "File or Folder not found!")
    | some file =>
      if file.tenantId = "" then some (state, some "Tenant not found!")
      else if file.parentId = file.id then some (state, some "Root folder cannot be deleted.")
      else if checkFileTeamPermission .go user state file = false then
        some (state, some "No authorization.")
      else if file.fromDataset then deleteFilesGo user fuel state ids
      else do
        let result ← deleteEntry .go false fuel (state, []) file
        deleteFilesGo user fuel result.1 ids

end RagFlow.Files

/-!
# What deleting removes

On both servers an entry is deleted with everything below it and nothing else, and the recursion
comes to an end.
-/

namespace RagFlow.Files

open Lib ParentTree

variable {Blob : Type} {server : Server} {removesBuckets : Bool}

section Frames

theorem deleteInform_frame (fileId : ℕ) (progress : Progress Blob) (docId : ℕ) :
    (deleteInform server fileId progress docId).1.files = progress.1.files ∧
      (deleteInform server fileId progress docId).1.links = progress.1.links := by
  unfold deleteInform
  cases server with
  | python =>
    cases getDocument progress.1.documents docId with
    | none => exact ⟨rfl, rfl⟩
    | some document =>
      dsimp only
      cases getTenantId progress.1.datasets document <;> exact ⟨rfl, rfl⟩
  | go => cases getDocument progress.1.documents docId <;> exact ⟨rfl, rfl⟩

theorem foldl_deleteInform {fileId : ℕ} (Kept : State Blob → Prop)
    (step : ∀ progress docId, Kept progress.1 →
      Kept (deleteInform server fileId progress docId).1) :
    ∀ (docIds : List ℕ) (progress : Progress Blob), Kept progress.1 →
      Kept (docIds.foldl (deleteInform server fileId) progress).1
  | [], _, kept => kept
  | docId :: docIds, progress, kept =>
    foldl_deleteInform Kept step docIds _ (step progress docId kept)

@[simp] theorem deleteSingleFile_files (progress : Progress Blob) (file : File) :
    (deleteSingleFile server progress file).1.files = deleteById file.id progress.1.files := by
  apply congrArg (deleteById file.id)
  refine foldl_deleteInform (fun state => state.files = progress.1.files) ?_ _ _ rfl
  exact fun _ _ kept => (deleteInform_frame _ _ _).1.trans kept

@[simp] theorem deleteSingleFile_links (progress : Progress Blob) (file : File) :
    (deleteSingleFile server progress file).1.links =
      progress.1.links.filter fun link => link.1 ≠ file.id := by
  apply congrArg (List.filter _)
  refine foldl_deleteInform (fun state => state.links = progress.1.links) ?_ _ _ rfl
  exact fun _ _ kept => (deleteInform_frame _ _ _).2.trans kept

end Frames

section Trees

variable {root : File}

theorem foldlM_removed {delete : Progress Blob → File → Option (Progress Blob)} {bound : ℕ}
    (step : ∀ progress file, Rooted shape progress.1.files root → file ∈ progress.1.files →
      (∀ path id, Below progress.1.files file.id path id → path.length < bound) →
      ∃ result, delete progress file = some result ∧
        Removed shape progress.1.files file.id result.1.files) :
    ∀ (entries : List File) (progress : Progress Blob), Rooted shape progress.1.files root →
      (∀ entry ∈ entries, entry ∈ progress.1.files ∧ entry.id ≠ root.id ∧
        ∀ path id, Below progress.1.files entry.id path id → path.length < bound) →
      entries.Pairwise (fun entry other =>
        ¬ ∃ path, Below progress.1.files entry.id path other.id) →
      ∃ result, entries.foldlM delete progress = some result ∧
        result.1.files.Sublist progress.1.files ∧
        ∀ file, file ∈ result.1.files ↔ file ∈ progress.1.files ∧
          ∀ entry ∈ entries, ¬ ∃ path, Below progress.1.files entry.id path file.id
  | [], progress, _, _, _ => ⟨progress, rfl, List.Sublist.refl _, fun file => by simp⟩
  | entry :: entries, progress, rooted, each, apart => by
    obtain ⟨apartFirst, apartRest⟩ := List.pairwise_cons.mp apart
    obtain ⟨stored, notRoot, bounded⟩ := each entry List.mem_cons_self
    obtain ⟨next, ran, removed⟩ := step progress entry rooted stored bounded
    have nextRooted := rooted.of_removed removed notRoot
    have lift : ∀ {top path id}, Below next.1.files top path id →
        Below progress.1.files top path id := fun below => below.mono removed.sublist.subset
    obtain ⟨result, ranRest, sublist, mem_iff⟩ := foldlM_removed step entries next nextRooted
      (fun other member =>
        have ⟨otherStored, otherNotRoot, otherBounded⟩ :=
          each other (List.mem_cons_of_mem _ member)
        ⟨(removed.mem_iff other).mpr ⟨otherStored, apartFirst other member⟩, otherNotRoot,
          fun path id below => otherBounded path id (lift below)⟩)
      (apartRest.imp fun apart ⟨path, below⟩ => apart ⟨path, lift below⟩)
    refine ⟨result, ?_, sublist.trans removed.sublist, fun file => ?_⟩
    · rw [List.foldlM_cons, ran]
      exact ranRest
    · rw [mem_iff, removed.mem_iff, List.forall_mem_cons, and_assoc]
      apply and_congr_right
      intro member
      apply and_congr_right
      intro notBelow
      have stays := (removed.mem_iff file).mpr ⟨member, notBelow⟩
      apply forall₂_congr
      intro other _
      apply not_congr
      apply exists_congr
      intro path
      exact ⟨lift, fun below =>
        rooted.below_of_part nextRooted removed.sublist below file stays rfl⟩

theorem eq_of_fileId {files : List File} (unique : (files.map File.id).Nodup) {file other : File}
    (member : file ∈ files) (otherMember : other ∈ files) (same : file.id = other.id) :
    file = other :=
  List.inj_on_of_nodup_map unique member otherMember same

theorem below_child {files : List File} {folder entry : File} (isFolder : folder.isFolder = true)
    (stored : folder ∈ files) (member : entry ∈ files) (isChild : entry.parentId = folder.id)
    (proper : entry.id ≠ folder.id) : Below files folder.id [entry.name] entry.id :=
  ParentTree.Below.step isFolder stored member isChild proper

theorem not_below_sibling {files : List File} (rooted : Rooted shape files root)
    {folder entry other : File} (stored : folder ∈ files) (isFolder : folder.isFolder = true)
    (entryStored : entry ∈ files) (entryChild : entry.parentId = folder.id)
    (entryProper : entry.id ≠ folder.id) (otherStored : other ∈ files)
    (otherChild : other.parentId = folder.id) (different : entry ≠ other) :
    ¬ ∃ path, Below files entry.id path other.id := by
  rintro ⟨path, below⟩
  rcases below.cases_last with ⟨_, same⟩ | ⟨upper, branch, node, _, same, above, _, _, member,
    isChild, _⟩
  · exact different (eq_of_fileId rooted.unique entryStored otherStored same.symm)
  · obtain rfl := eq_of_fileId rooted.unique otherStored member same
    rw [← isChild] at above
    change Below files entry.id upper other.parentId at above
    rw [otherChild] at above
    have down := below_child isFolder stored entryStored entryChild entryProper
    exact List.cons_ne_nil _ _ (rooted.eq_nil_of_cycle stored (down.trans above))

theorem removed_plain {files : List File} (unique : (files.map File.id).Nodup) {file : File}
    (stored : file ∈ files) (plain : file.isFolder = false) :
    Removed shape files file.id (deleteById file.id files) := by
  refine ⟨List.filter_sublist, fun other => ?_⟩
  rw [mem_deleteById]
  apply and_congr_right
  intro member
  apply not_congr
  constructor
  · exact fun same => ⟨[], same ▸ .refl⟩
  · rintro ⟨path, below⟩
    rcases below.cases_first with ⟨_, same⟩ | ⟨branch, _, _, _, isTop, isBranch, branchStored, _⟩
    · exact same
    · obtain rfl := eq_of_fileId unique branchStored stored isTop
      exact absurd (isBranch.symm.trans plain) nofun

theorem removed_folder {files rest entries : List File} {folder : File} (stored : folder ∈ files)
    (isFolder : folder.isFolder = true)
    (isEntry : ∀ entry, entry ∈ entries ↔
      entry ∈ files ∧ entry.parentId = folder.id ∧ entry.id ≠ folder.id)
    (sublist : rest.Sublist files)
    (mem_iff : ∀ file, file ∈ rest ↔
      file ∈ files ∧ ∀ entry ∈ entries, ¬ ∃ path, Below files entry.id path file.id) :
    Removed shape files folder.id (deleteById folder.id rest) := by
  refine ⟨List.filter_sublist.trans sublist, fun other => ?_⟩
  rw [mem_deleteById, mem_iff, and_assoc]
  apply and_congr_right
  intro member
  constructor
  · rintro ⟨apart, different⟩ ⟨path, below⟩
    rcases below.cases_first with ⟨_, same⟩ | ⟨_, entry, rest, _, _, _, _, entryStored, isChild,
      proper, lower⟩
    · exact different same
    · exact apart entry ((isEntry entry).mpr ⟨entryStored, isChild, proper⟩) ⟨rest, lower⟩
  · intro apart
    refine ⟨fun entry entryMember ⟨path, below⟩ => apart ?_, fun same => apart ?_⟩
    · obtain ⟨entryStored, isChild, proper⟩ := (isEntry entry).mp entryMember
      have down := below_child isFolder stored entryStored isChild proper
      exact ⟨_, down.trans below⟩
    · exact ⟨[], same ▸ .refl⟩

theorem deleteEntry_removed (server : Server) (removesBuckets : Bool) {fuel : ℕ}
    (progress : Progress Blob) (file : File) (rooted : Rooted shape progress.1.files root)
    (stored : file ∈ progress.1.files)
    (bounded : ∀ path id, Below progress.1.files file.id path id → path.length < fuel) :
    ∃ result, deleteEntry server removesBuckets fuel progress file = some result ∧
      Removed shape progress.1.files file.id result.1.files := by
  induction fuel generalizing progress file with
  | zero => exact absurd (bounded [] file.id .refl) (Nat.not_lt_zero _)
  | succ fuel ih =>
    unfold deleteEntry
    by_cases isFolder : file.isFolder = true
    · rw [if_pos isFolder, deleteFolderRecursive]
      have children : ∀ entry ∈ listAllFilesByParentId progress.1.files file.id,
          entry ∈ progress.1.files ∧ entry.id ≠ root.id ∧ ∀ path id,
            Below progress.1.files entry.id path id → path.length < fuel := by
        intro entry member
        obtain ⟨entryStored, isChild, proper⟩ := mem_listAllFilesByParentId.mp member
        have down := below_child isFolder stored entryStored isChild proper
        refine ⟨entryStored, fun isRoot => ?_, fun path id below => ?_⟩
        · rw [isRoot] at down
          exact List.cons_ne_nil _ _ (rooted.eq_nil_of_root down).1
        · have longer := bounded _ _ (down.trans below)
          simp only [List.singleton_append, List.length_cons] at longer
          exact Nat.lt_of_succ_lt_succ longer
      have nodup : (listAllFilesByParentId progress.1.files file.id).Nodup :=
        (rooted.unique.of_map _).sublist List.filter_sublist
      have apart : (listAllFilesByParentId progress.1.files file.id).Pairwise fun entry other =>
          ¬ ∃ path, Below progress.1.files entry.id path other.id := by
        apply (List.Pairwise.and_mem.mp nodup).imp
        rintro entry other ⟨entryMember, otherMember, different⟩
        obtain ⟨entryStored, entryChild, proper⟩ := mem_listAllFilesByParentId.mp entryMember
        obtain ⟨otherStored, otherChild, _⟩ := mem_listAllFilesByParentId.mp otherMember
        exact not_below_sibling rooted stored isFolder entryStored entryChild proper otherStored
          otherChild different
      obtain ⟨result, ran, sublist, mem_iff⟩ := foldlM_removed ih _ progress
        rooted children apart
      unfold deleteEntry at ran
      refine ⟨(removeFolder server removesBuckets result.1 file, result.2), ?_, ?_⟩
      · rw [ran]
        rfl
      · exact removed_folder stored isFolder (fun entry => mem_listAllFilesByParentId) sublist
          mem_iff
    · rw [if_neg isFolder]
      refine ⟨_, rfl, ?_⟩
      rw [deleteSingleFile_files]
      exact removed_plain rooted.unique stored (Bool.not_eq_true _ ▸ isFolder)

end Trees

section Recursion

theorem deleteEntry_alike {first second : Server} {firstBuckets secondBuckets : Bool}
    {files : List File} (Alike : Progress Blob → Progress Blob → Prop) (Clear : File → Prop)
    (within : ∀ progress other, Alike progress other →
      progress.1.files = other.1.files ∧ progress.1.files ⊆ files)
    (single : ∀ progress other, ∀ file ∈ files, file.isFolder = false → Clear file →
      Alike progress other → Alike (deleteSingleFile first progress file)
        (deleteSingleFile second other file))
    (folder : ∀ progress other, ∀ folder ∈ files, folder.isFolder = true → Alike progress other →
      Alike (removeFolder first firstBuckets progress.1 folder, progress.2)
        (removeFolder second secondBuckets other.1 folder, other.2)) :
    ∀ (fuel : ℕ) (progress other : Progress Blob), ∀ file ∈ files,
      (∀ inner ∈ files, inner.isFolder = false → (∃ path, Below files file.id path inner.id) →
        Clear inner) →
      Alike progress other → ∀ result, deleteEntry first firstBuckets fuel progress file =
        some result →
      ∃ otherResult, deleteEntry second secondBuckets fuel other file = some otherResult ∧
        Alike result otherResult := by
  intro fuel
  induction fuel with
  | zero =>
    intro progress other file stored clear alike result ran
    unfold deleteEntry at ran ⊢
    by_cases isFolder : file.isFolder = true
    · rw [if_pos isFolder] at ran
      exact nomatch ran
    · rw [if_neg isFolder, Option.some.injEq] at ran
      rw [if_neg isFolder]
      have plain := Bool.not_eq_true _ ▸ isFolder
      have isClear := clear file stored plain ⟨[], .refl⟩
      exact ⟨_, rfl, ran ▸ single progress other file stored plain isClear alike⟩
  | succ fuel ih =>
    intro progress other file stored clear alike result ran
    unfold deleteEntry at ran ⊢
    by_cases isFolder : file.isFolder = true
    · rw [if_pos isFolder, deleteFolderRecursive] at ran ⊢
      obtain ⟨after, looped, finished⟩ := Option.bind_eq_some_iff.mp ran
      obtain rfl := Option.some.inj finished
      have children : ∀ entry ∈ listAllFilesByParentId progress.1.files file.id,
          entry ∈ files ∧ ∀ inner ∈ files, inner.isFolder = false →
            (∃ path, Below files entry.id path inner.id) → Clear inner := by
        intro entry member
        obtain ⟨entryStored, isChild, proper⟩ := mem_listAllFilesByParentId.mp member
        have entryWithin := (within progress other alike).2 entryStored
        refine ⟨entryWithin, fun inner innerStored plain ⟨path, below⟩ => ?_⟩
        have down := below_child isFolder stored entryWithin isChild proper
        exact clear inner innerStored plain ⟨_, down.trans below⟩
      suffices loop : ∃ otherAfter, (listAllFilesByParentId other.1.files file.id).foldlM
          (deleteEntry second secondBuckets fuel) other = some otherAfter ∧
            Alike after otherAfter by
        obtain ⟨otherAfter, otherLooped, afterAlike⟩ := loop
        refine ⟨_, ?_, folder after otherAfter file stored isFolder afterAlike⟩
        unfold deleteEntry at otherLooped
        rw [otherLooped]
        rfl
      rw [← (within progress other alike).1]
      clear ran finished
      revert children looped alike
      generalize listAllFilesByParentId progress.1.files file.id = entries
      intro alike looped children
      induction entries generalizing progress other with
      | nil => exact ⟨other, rfl, Option.some.inj looped ▸ alike⟩
      | cons entry entries loopHypothesis =>
        rw [List.foldlM_cons] at looped
        obtain ⟨next, ranFirst, rest⟩ := Option.bind_eq_some_iff.mp looped
        obtain ⟨entryStored, entryClear⟩ := children entry List.mem_cons_self
        obtain ⟨otherNext, otherFirst, nextAlike⟩ :=
          ih progress other entry entryStored entryClear alike next ranFirst
        rw [List.foldlM_cons, otherFirst]
        exact loopHypothesis next otherNext nextAlike rest fun later member =>
          children later (List.mem_cons_of_mem _ member)
    · rw [if_neg isFolder, Option.some.injEq] at ran
      rw [if_neg isFolder]
      have plain := Bool.not_eq_true _ ▸ isFolder
      have isClear := clear file stored plain ⟨[], .refl⟩
      exact ⟨_, rfl, ran ▸ single progress other file stored plain isClear alike⟩

theorem deleteEntry_keeps (Kept : State Blob → Prop) {files : List File}
    (within : ∀ state, Kept state → state.files ⊆ files)
    (single : ∀ progress, ∀ file ∈ files, file.isFolder = false → Kept progress.1 →
      Kept (deleteSingleFile server progress file).1)
    (folder : ∀ state, ∀ folder ∈ files, folder.isFolder = true → Kept state →
      Kept (removeFolder server removesBuckets state folder))
    {fuel : ℕ} {progress : Progress Blob} {file : File} (stored : file ∈ files)
    (kept : Kept progress.1) {result : Progress Blob}
    (ran : deleteEntry server removesBuckets fuel progress file = some result) :
    Kept result.1 := by
  have alike := deleteEntry_alike
    (fun progress other => progress = other ∧ Kept progress.1) (fun _ => True)
    (fun progress other ⟨same, kept⟩ => ⟨by rw [same], within progress.1 kept⟩)
    (fun progress other file stored plain _ ⟨same, kept⟩ =>
      ⟨by rw [same], single progress file stored plain kept⟩)
    (fun progress other file stored isFolder ⟨same, kept⟩ =>
      ⟨by rw [same], folder progress.1 file stored isFolder kept⟩)
    fuel progress progress file stored (fun _ _ _ _ => trivial) ⟨rfl, kept⟩ result ran
  obtain ⟨_, _, _, keptAfter⟩ := alike
  exact keptAfter

end Recursion

end RagFlow.Files
