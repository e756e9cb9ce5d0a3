import RagFlow.Files.DeleteTree

/-!
# Deleting files on the two servers

The Go server deletes the rows of linked documents without updating the counters of their
datasets, and looks for their chunks in an index that nothing is stored in.  The two servers leave
the same state behind exactly when no file that is deleted has a document.
-/

namespace RagFlow.Files

open Lib ParentTree

variable {Blob : Type}

/-- The tables that the two servers are compared in, with the counters in the rows of datasets. -/
structure SameTables (state other : State Blob) : Prop where
  files : state.files = other.files
  links : state.links = other.links
  documents : state.documents = other.documents
  datasets : state.datasets = other.datasets
  chunks : state.chunks = other.chunks

def IsDeleted (files : List File) (fileIds : List ℕ) (file : File) : Prop :=
  ∃ top ∈ files, top.id ∈ fileIds ∧ top.fromDataset = false ∧
    ∃ path, Below files top.id path file.id

def HasNoDocument (state : State Blob) (file : File) : Prop :=
  ∀ docId ∈ informs state.links file.id, getDocument state.documents docId = none

def NoDocumentDeleted (state : State Blob) (fileIds : List ℕ) : Prop :=
  ∀ file ∈ state.files, file.isFolder = false → IsDeleted state.files fileIds file →
    HasNoDocument state file

theorem mem_informs {links : List (ℕ × ℕ)} {fileId docId : ℕ} :
    docId ∈ informs links fileId ↔ (fileId, docId) ∈ links := by
  simp [informs]

theorem getDocument_eq_none {documents : List Document} {id : ℕ} :
    getDocument documents id = none ↔ ∀ document ∈ documents, document.id ≠ id := by
  simp [getDocument]

section WithoutDocuments

theorem deleteSingleFile_of_hasNoDocument (server : Server) {progress : Progress Blob}
    {file : File} (clear : HasNoDocument progress.1 file) :
    SameTables (deleteSingleFile server progress file).1
      { progress.1 with
        files := deleteById file.id progress.1.files
        links := progress.1.links.filter fun link => link.1 ≠ file.id } := by
  have loop : ∀ (docIds : List ℕ) (inner : Progress Blob),
      (∀ docId ∈ docIds, getDocument inner.1.documents docId = none) →
      (docIds.foldl (deleteInform server file.id) inner).1 = inner.1 := by
    intro docIds
    induction docIds with
    | nil => exact fun _ _ => rfl
    | cons docId docIds ih =>
      intro inner missing
      have same : (deleteInform server file.id inner docId).1 = inner.1 := by
        unfold deleteInform
        rw [missing docId List.mem_cons_self]
        cases server <;> rfl
      rw [List.foldl_cons, ih, same]
      rw [same]
      exact fun other member => missing other (List.mem_cons_of_mem _ member)
  unfold deleteSingleFile
  dsimp only
  rw [loop (informs progress.1.links file.id) _ (by exact clear)]
  exact ⟨rfl, rfl, rfl, rfl, rfl⟩

/-- The two servers have deleted the same files, and no document. -/
structure Alike (state : State Blob) (python go : State Blob) : Prop where
  same : SameTables python go
  files : python.files ⊆ state.files
  links : python.links ⊆ state.links
  documents : python.documents = state.documents

theorem Alike.hasNoDocument {state python go : State Blob} (alike : Alike state python go)
    {file : File} (clear : HasNoDocument state file) :
    HasNoDocument python file ∧ HasNoDocument go file := by
  have onPython : HasNoDocument python file := by
    intro docId member
    rw [alike.documents]
    exact clear docId (mem_informs.mpr (alike.links (mem_informs.mp member)))
  refine ⟨onPython, ?_⟩
  unfold HasNoDocument
  rw [← alike.same.links, ← alike.same.documents]
  exact onPython

theorem Alike.deleteSingleFile {state : State Blob} {python go : Progress Blob} {file : File}
    (clear : HasNoDocument state file) (alike : Alike state python.1 go.1) :
    Alike state (deleteSingleFile .python python file).1 (deleteSingleFile .go go file).1 := by
  obtain ⟨pythonClear, goClear⟩ := alike.hasNoDocument clear
  have onPython := deleteSingleFile_of_hasNoDocument .python pythonClear
  have onGo := deleteSingleFile_of_hasNoDocument .go goClear
  obtain ⟨files, links, documents, datasets, chunks⟩ := alike.same
  refine ⟨⟨?_, ?_, ?_, ?_, ?_⟩, ?_, ?_, onPython.documents.trans alike.documents⟩
  · rw [onPython.files, onGo.files, files]
  · rw [onPython.links, onGo.links, links]
  · exact (onPython.documents.trans documents).trans onGo.documents.symm
  · exact (onPython.datasets.trans datasets).trans onGo.datasets.symm
  · exact (onPython.chunks.trans chunks).trans onGo.chunks.symm
  · rw [onPython.files]
    exact List.Subset.trans List.filter_sublist.subset alike.files
  · rw [onPython.links]
    exact List.Subset.trans List.filter_sublist.subset alike.links

theorem Alike.removeFolder {state python go : State Blob} {removesBuckets goBuckets : Bool}
    {folder : File} (alike : Alike state python go) :
    Alike state (removeFolder .python removesBuckets python folder)
      (removeFolder .go goBuckets go folder) where
  same := ⟨congrArg (deleteById folder.id) alike.same.files, alike.same.links,
    alike.same.documents, alike.same.datasets, alike.same.chunks⟩
  files := List.Subset.trans List.filter_sublist.subset alike.files
  links := alike.links
  documents := alike.documents

end WithoutDocuments

section Go

/-- What the Go server keeps: the counters; a document that a file was linked to is gone with the
link, and the links are gone with the file. -/
structure GoKept (initial state : State Blob) : Prop where
  files : state.files ⊆ initial.files
  datasets : state.datasets = initial.datasets
  documents : ∀ link ∈ initial.links, link ∈ state.links ∨
    getDocument state.documents link.2 = none
  unlinked : ∀ file ∈ initial.files, file.isFolder = false → file ∈ state.files ∨
    ∀ link ∈ state.links, link.1 ≠ file.id

theorem deleteInform_go (fileId : ℕ) (progress : Progress Blob) (docId : ℕ) :
    (deleteInform .go fileId progress docId).1.datasets = progress.1.datasets ∧
      (deleteInform .go fileId progress docId).1.documents ⊆ progress.1.documents ∧
      getDocument (deleteInform .go fileId progress docId).1.documents docId = none := by
  unfold deleteInform
  cases found : getDocument progress.1.documents docId with
  | none => exact ⟨rfl, List.Subset.refl _, found⟩
  | some document =>
    refine ⟨rfl, List.filter_sublist.subset, getDocument_eq_none.mpr fun other member => ?_⟩
    simpa using (List.mem_filter.mp member).2

theorem foldl_deleteInform_go (fileId : ℕ) (docIds : List ℕ) (progress : Progress Blob) :
    (docIds.foldl (deleteInform .go fileId) progress).1.datasets = progress.1.datasets ∧
      (docIds.foldl (deleteInform .go fileId) progress).1.documents ⊆ progress.1.documents ∧
      ∀ docId ∈ docIds,
        getDocument (docIds.foldl (deleteInform .go fileId) progress).1.documents docId = none := by
  induction docIds generalizing progress with
  | nil => exact ⟨rfl, List.Subset.refl _, fun _ member => nomatch member⟩
  | cons docId docIds ih =>
    obtain ⟨datasets, documents, gone⟩ := deleteInform_go fileId progress docId
    obtain ⟨laterDatasets, laterDocuments, laterGone⟩ :=
      ih (deleteInform .go fileId progress docId)
    rw [List.foldl_cons]
    refine ⟨laterDatasets.trans datasets, List.Subset.trans laterDocuments documents,
      List.forall_mem_cons.mpr ⟨?_, laterGone⟩⟩
    exact getDocument_eq_none.mpr fun other member =>
      getDocument_eq_none.mp gone other (laterDocuments member)

theorem GoKept.deleteSingleFile {initial : State Blob} {progress : Progress Blob} {file : File}
    (kept : GoKept initial progress.1) : GoKept initial (deleteSingleFile .go progress file).1 := by
  obtain ⟨datasets, documents, gone⟩ := foldl_deleteInform_go file.id
    (informs progress.1.links file.id)
    ({ progress.1 with objects :=
        if file.location = "" then progress.1.objects else progress.1.objects.erase file.address },
      progress.2)
  refine ⟨?_, datasets.trans kept.datasets, fun link member => ?_, fun other member plain => ?_⟩
  · rw [deleteSingleFile_files]
    exact List.Subset.trans List.filter_sublist.subset kept.files
  · rw [deleteSingleFile_links]
    rcases kept.documents link member with present | absent
    · by_cases hit : link.1 = file.id
      · exact .inr (gone link.2 (mem_informs.mpr (hit ▸ present)))
      · exact .inl (List.mem_filter.mpr ⟨present, by simpa using hit⟩)
    · exact .inr (getDocument_eq_none.mpr fun document stored =>
        getDocument_eq_none.mp absent document (documents stored))
  · rw [deleteSingleFile_files, deleteSingleFile_links]
    by_cases hit : other.id = file.id
    · right
      intro link present
      rw [hit]
      simpa using (List.mem_filter.mp present).2
    · rcases kept.unlinked other member plain with present | unlinked
      · exact .inl (mem_deleteById.mpr ⟨present, hit⟩)
      · exact .inr fun link present => unlinked link (List.mem_of_mem_filter present)

theorem GoKept.removeFolder {initial state : State Blob}
    (unique : (initial.files.map File.id).Nodup) {removesBuckets : Bool} {folder : File}
    (stored : folder ∈ initial.files) (isFolder : folder.isFolder = true)
    (kept : GoKept initial state) :
    GoKept initial (removeFolder .go removesBuckets state folder) where
  files := List.Subset.trans List.filter_sublist.subset kept.files
  datasets := kept.datasets
  documents := kept.documents
  unlinked := by
    intro other member plain
    apply (kept.unlinked other member plain).imp_left
    intro present
    refine mem_deleteById.mpr ⟨present, fun same => ?_⟩
    obtain rfl := eq_of_fileId unique member stored same
    exact absurd (isFolder.symm.trans plain) nofun

end Go

section Python

def docNums (datasets : List Dataset) : ℤ :=
  datasets.foldr (fun dataset total => dataset.docNum + total) 0

def PythonKept (initial state : State Blob) : Prop :=
  docNums state.datasets ≤ docNums initial.datasets ∧
    (state.documents = initial.documents ∨ docNums state.datasets < docNums initial.datasets)

theorem docNums_map_lt {change : Dataset → Dataset} {id : ℕ}
    (falls : ∀ dataset, dataset.id = id → (change dataset).docNum < dataset.docNum)
    (stays : ∀ dataset, dataset.id ≠ id → (change dataset).docNum = dataset.docNum)
    {datasets : List Dataset} (stored : ∃ dataset ∈ datasets, dataset.id = id) :
    docNums (datasets.map change) < docNums datasets := by
  have total : ∀ datasets : List Dataset, docNums (datasets.map change) ≤ docNums datasets := by
    intro datasets
    induction datasets with
    | nil => exact Int.le_refl _
    | cons first rest ih =>
      have lower : (change first).docNum ≤ first.docNum := by
        by_cases hit : first.id = id
        · exact Int.le_of_lt (falls first hit)
        · exact Int.le_of_eq (stays first hit)
      exact Int.add_le_add lower ih
  induction datasets with
  | nil =>
    obtain ⟨_, impossible, _⟩ := stored
    exact absurd impossible List.not_mem_nil
  | cons first rest ih =>
    by_cases hit : first.id = id
    · exact Int.add_lt_add_of_lt_of_le (falls first hit) (total rest)
    · obtain ⟨dataset, member, same⟩ := stored
      have later : dataset ∈ rest := (List.mem_cons.mp member).resolve_left fun isFirst =>
        hit (isFirst ▸ same)
      exact Int.add_lt_add_of_le_of_lt (Int.le_of_eq (stays first hit))
        (ih ⟨dataset, later, same⟩)

theorem docNums_removeDocument {state : State Blob} {document : Document} {tenantId : String}
    (found : getTenantId state.datasets document = some tenantId) :
    docNums (removeDocument state document tenantId).datasets < docNums state.datasets := by
  unfold getTenantId at found
  obtain ⟨dataset, isDataset, _⟩ := Option.map_eq_some_iff.mp (Option.filter_eq_some_iff.mp found).1
  have stored := List.mem_of_find?_eq_some isDataset
  have matching := List.find?_some isDataset
  simp only [Bool.and_eq_true, decide_eq_true_eq] at matching
  apply docNums_map_lt _ _ ⟨dataset, stored, matching.1⟩
  · intro other hit
    rw [if_pos hit]
    exact Int.sub_lt_self _ Int.one_pos
  · intro other different
    rw [if_neg different]

theorem PythonKept.deleteInform {initial : State Blob} {fileId : ℕ} (progress : Progress Blob)
    (docId : ℕ) (kept : PythonKept initial progress.1) :
    PythonKept initial (deleteInform .python fileId progress docId).1 := by
  unfold Files.deleteInform
  cases getDocument progress.1.documents docId with
  | none => exact kept
  | some document =>
    dsimp only
    cases found : getTenantId progress.1.datasets document with
    | none => exact kept
    | some tenantId =>
      have less := docNums_removeDocument found
      exact ⟨Int.le_trans (Int.le_of_lt less) kept.1, .inr (Int.lt_of_lt_of_le less kept.1)⟩

theorem PythonKept.deleteSingleFile {initial : State Blob} {progress : Progress Blob} {file : File}
    (kept : PythonKept initial progress.1) :
    PythonKept initial (deleteSingleFile .python progress file).1 :=
  foldl_deleteInform (PythonKept initial) (fun _ _ kept => PythonKept.deleteInform _ _ kept)
    (informs progress.1.links file.id) _ kept

theorem PythonKept.deleteFile {initial : State Blob} {removesBuckets : Bool} {user : User}
    {fuel : ℕ} {progress result : Progress Blob} {id : ℕ} (kept : PythonKept initial progress.1)
    (ran : deleteFile removesBuckets user fuel progress id = some result) :
    PythonKept initial result.1 := by
  unfold Files.deleteFile at ran
  cases found : getById progress.1.files id with
  | none =>
    simp only [found, Option.some.injEq] at ran
    exact ran ▸ kept
  | some file =>
    simp only [found] at ran
    by_cases noTenant : file.tenantId = ""
    · rw [if_pos noTenant, Option.some.injEq] at ran
      exact ran ▸ kept
    rw [if_neg noTenant] at ran
    by_cases refused : checkFileTeamPermission .python user progress.1 file = false
    · rw [if_pos refused, Option.some.injEq] at ran
      exact ran ▸ kept
    rw [if_neg refused] at ran
    by_cases fromDataset : file.fromDataset = true
    · rw [if_pos fromDataset, Option.some.injEq] at ran
      exact ran ▸ kept
    rw [if_neg fromDataset] at ran
    have both := deleteEntry_keeps
      (fun state => state.files ⊆ progress.1.files ∧ PythonKept initial state)
      (fun _ kept => kept.1)
      (fun inner other _ _ kept => ⟨by
        rw [deleteSingleFile_files]
        exact List.Subset.trans List.filter_sublist.subset kept.1, kept.2.deleteSingleFile⟩)
      (fun _ _ _ _ kept =>
        ⟨List.Subset.trans List.filter_sublist.subset kept.1, kept.2⟩)
      (getById_eq_some found).1 ⟨List.Subset.refl _, kept⟩ ran
    exact both.2

theorem PythonKept.foldlM {initial : State Blob} {removesBuckets : Bool} {user : User} {fuel : ℕ} :
    ∀ {ids : List ℕ} {progress result : Progress Blob}, PythonKept initial progress.1 →
      ids.foldlM (Files.deleteFile removesBuckets user fuel) progress = some result →
      PythonKept initial result.1
  | [], _, _, kept, ran => Option.some.inj ran ▸ kept
  | id :: ids, progress, result, kept, ran => by
    rw [List.foldlM_cons] at ran
    obtain ⟨next, first, rest⟩ := Option.bind_eq_some_iff.mp ran
    exact PythonKept.foldlM (kept.deleteFile first) rest

end Python

section Runs

theorem SameTables.permitted {python go : State Blob} {user : User} {file : File}
    (same : SameTables python go) (permitted : checkFileTeamPermission .go user go file = true) :
    checkFileTeamPermission .python user python file = true := by
  unfold checkFileTeamPermission at permitted ⊢
  rw [same.links, same.documents, same.datasets]
  simp only [Bool.or_eq_true, List.any_eq_true, Bool.and_eq_true] at permitted ⊢
  apply permitted.imp_right
  rintro ⟨link, linked, isFile, document, stored, isDocument, dataset, datasetStored,
    ⟨isDataset, _⟩, access⟩
  exact ⟨link, linked, isFile, document, stored, isDocument, dataset, datasetStored,
    ⟨isDataset, .inl rfl⟩, access⟩

variable {user : User} {fuel : ℕ} {root : File}

def WithinFuel (fuel : ℕ) (files : List File) : Prop :=
  ∀ file ∈ files, ∀ path id, Below files file.id path id → path.length < fuel

theorem WithinFuel.subset {files rest : List File} (within : WithinFuel fuel files)
    (subset : rest ⊆ files) : WithinFuel fuel rest :=
  fun file member path id below => within file (subset member) path id (below.mono subset)

theorem deleteFilesGo_cons {state final : State Blob} {id : ℕ} {ids : List ℕ}
    (ran : deleteFilesGo user fuel state (id :: ids) = some (final, none)) :
    ∃ file, getById state.files id = some file ∧ file.tenantId ≠ "" ∧ file.parentId ≠ file.id ∧
      checkFileTeamPermission .go user state file = true ∧
      ∃ next, deleteFilesGo user fuel next ids = some (final, none) ∧
        ((file.fromDataset = true ∧ next = state) ∨
          (file.fromDataset = false ∧
            ∃ errors, deleteEntry .go false fuel (state, []) file = some (next, errors))) := by
  rw [deleteFilesGo] at ran
  cases found : getById state.files id with
  | none => simp [found] at ran
  | some file =>
    simp only [found] at ran
    by_cases noTenant : file.tenantId = ""
    · simp [if_pos noTenant] at ran
    rw [if_neg noTenant] at ran
    by_cases isRoot : file.parentId = file.id
    · simp [if_pos isRoot] at ran
    rw [if_neg isRoot] at ran
    by_cases refused : checkFileTeamPermission .go user state file = false
    · simp [if_pos refused] at ran
    rw [if_neg refused] at ran
    refine ⟨file, rfl, noTenant, isRoot, Bool.not_eq_false _ ▸ refused, ?_⟩
    by_cases fromDataset : file.fromDataset = true
    · rw [if_pos fromDataset] at ran
      exact ⟨state, ran, .inl ⟨fromDataset, rfl⟩⟩
    · rw [if_neg fromDataset] at ran
      obtain ⟨result, deleted, rest⟩ := Option.bind_eq_some_iff.mp ran
      exact ⟨result.1, rest, .inr ⟨Bool.not_eq_true _ ▸ fromDataset, result.2, deleted⟩⟩

theorem ne_root_of_parent {files : List File} (rooted : Rooted shape files root) {file : File}
    (stored : file ∈ files) (notRoot : file.parentId ≠ file.id) : file.id ≠ root.id := by
  intro same
  obtain rfl := eq_of_id rooted.unique stored rooted.stored same
  exact notRoot rooted.isRoot

/-- The Go server deletes what is requested, and keeps what it keeps. -/
theorem deleteFilesGo_removes {initial final : State Blob} :
    ∀ {ids : List ℕ} {state : State Blob}, Rooted shape state.files root →
      WithinFuel fuel state.files → Rooted shape initial.files root → GoKept initial state →
      deleteFilesGo user fuel state ids = some (final, none) →
      GoKept initial final ∧ final.files ⊆ state.files ∧
        ∀ file ∈ state.files, IsDeleted state.files ids file → file ∉ final.files
  | [], state, _, _, _, kept, ran => by
    obtain rfl : state = final := congrArg Prod.fst (Option.some.inj ran)
    refine ⟨kept, List.Subset.refl _, ?_⟩
    rintro _ _ ⟨_, _, requested, _⟩
    exact nomatch requested
  | id :: ids, state, rooted, within, initially, kept, ran => by
    obtain ⟨file, found, _, notRoot, _, next, rest, step⟩ := deleteFilesGo_cons ran
    rcases step with ⟨fromDataset, rfl⟩ | ⟨own, errors, deleted⟩
    · obtain ⟨keptFinal, subset, gone⟩ := deleteFilesGo_removes rooted within initially kept rest
      refine ⟨keptFinal, subset, fun other member isDeleted => gone other member ?_⟩
      obtain ⟨top, stored, requested, own, below⟩ := isDeleted
      rcases List.mem_cons.mp requested with same | later
      · have isTop : top = file := eq_of_fileId rooted.unique stored
          (getById_eq_some found).1 (same.trans (getById_eq_some found).2.symm)
        exact absurd (isTop ▸ own) (by simp [fromDataset])
      · exact ⟨top, stored, later, own, below⟩
    · obtain ⟨stored, sameId⟩ := getById_eq_some found
      have fileNotRoot := ne_root_of_parent rooted stored notRoot
      obtain ⟨result, deletedAgain, removed⟩ := deleteEntry_removed .go false
        (state, []) file rooted stored (within file stored)
      obtain rfl := Option.some.inj (deletedAgain.symm.trans deleted)
      have nextRooted := rooted.of_removed removed fileNotRoot
      have nextKept := deleteEntry_keeps (GoKept initial) (fun _ kept => kept.files)
        (fun _ _ _ _ kept => kept.deleteSingleFile)
        (fun _ _ stored isFolder kept => kept.removeFolder initially.unique stored isFolder)
        (kept.files stored) kept deleted
      obtain ⟨keptFinal, subset, gone⟩ := deleteFilesGo_removes nextRooted
        (within.subset removed.sublist.subset) initially nextKept rest
      refine ⟨keptFinal, List.Subset.trans subset removed.sublist.subset, ?_⟩
      rintro other member ⟨top, topStored, requested, own, path, below⟩ remains
      have stays := subset remains
      have part := rooted.below_of_part nextRooted removed.sublist below other stays rfl
      have topStays : top ∈ next.files := by
        rcases part.cases_first with ⟨_, same⟩ | ⟨branch, _, _, _, same, _, branchStays, _⟩
        · exact eq_of_fileId rooted.unique topStored member same.symm ▸ stays
        · exact eq_of_fileId rooted.unique topStored
            (removed.sublist.subset branchStays) same.symm ▸ branchStays
      rcases List.mem_cons.mp requested with same | later
      · obtain rfl : top = file := eq_of_fileId rooted.unique topStored stored
          (same.trans sameId.symm)
        exact ((removed.mem_iff other).mp stays).2 ⟨path, below⟩
      · exact gone other stays ⟨top, topStays, later, own, path, part⟩ remains

theorem deleteFiles_alike {initial final : State Blob} {removesBuckets : Bool} :
    ∀ {ids : List ℕ} {python : Progress Blob} {go : State Blob},
      NoDocumentDeleted initial ids → Alike initial python.1 go →
      deleteFilesGo user fuel go ids = some (final, none) →
      ∃ result, ids.foldlM (deleteFile removesBuckets user fuel) python = some result ∧
        SameTables result.1 final
  | [], python, go, _, alike, ran => by
    obtain rfl : go = final := congrArg Prod.fst (Option.some.inj ran)
    exact ⟨python, rfl, alike.same⟩
  | id :: ids, python, go, clear, alike, ran => by
    obtain ⟨file, found, hasTenant, _, permitted, next, rest, step⟩ := deleteFilesGo_cons ran
    have clearRest : NoDocumentDeleted initial ids := by
      rintro other member plain ⟨top, stored, requested, below⟩
      exact clear other member plain ⟨top, stored, List.mem_cons_of_mem _ requested, below⟩
    have found' : getById python.1.files id = some file := by
      rw [alike.same.files]
      exact found
    have permitted' : checkFileTeamPermission .python user python.1 file = true :=
      alike.same.permitted permitted
    have start : deleteFile removesBuckets user fuel python id =
        if file.fromDataset then some python
        else deleteEntry .python removesBuckets fuel python file := by
      unfold deleteFile
      rw [found']
      dsimp only
      rw [if_neg hasTenant, permitted', if_neg (by decide)]
    rw [List.foldlM_cons, start]
    rcases step with ⟨fromDataset, rfl⟩ | ⟨own, errors, deleted⟩
    · rw [if_pos fromDataset]
      exact deleteFiles_alike clearRest alike rest
    · obtain ⟨stored, sameId⟩ := getById_eq_some found'
      have clearBelow : ∀ inner ∈ initial.files, inner.isFolder = false →
          (∃ path, Below initial.files file.id path inner.id) → HasNoDocument initial inner :=
        fun inner member plain below => clear inner member plain
          ⟨file, alike.files stored, sameId ▸ List.mem_cons_self, own, below⟩
      obtain ⟨otherNext, deletedAlike, nextAlike⟩ := deleteEntry_alike
        (fun go python => Alike initial python.1 go.1) (HasNoDocument initial)
        (fun _ _ alike => ⟨alike.same.files.symm, alike.same.files ▸ alike.files⟩)
        (fun _ _ _ _ _ clear alike => alike.deleteSingleFile clear)
        (fun _ _ _ _ _ alike => alike.removeFolder)
        fuel (go, []) python file (alike.files stored) clearBelow alike (next, errors) deleted
      rw [if_neg (by simp [own]), deletedAlike]
      exact deleteFiles_alike clearRest nextAlike rest

theorem deleteFilesGo_isSome :
    ∀ {ids : List ℕ} {state : State Blob}, Rooted shape state.files root →
      WithinFuel fuel state.files → ∃ result, deleteFilesGo user fuel state ids = some result
  | [], state, _, _ => ⟨(state, none), rfl⟩
  | id :: ids, state, rooted, within => by
    rw [deleteFilesGo]
    cases found : getById state.files id with
    | none => exact ⟨_, rfl⟩
    | some file =>
      dsimp only
      by_cases noTenant : file.tenantId = ""
      · exact ⟨_, if_pos noTenant⟩
      rw [if_neg noTenant]
      by_cases isRoot : file.parentId = file.id
      · exact ⟨_, if_pos isRoot⟩
      rw [if_neg isRoot]
      by_cases refused : checkFileTeamPermission .go user state file = false
      · exact ⟨_, if_pos refused⟩
      rw [if_neg refused]
      by_cases fromDataset : file.fromDataset = true
      · rw [if_pos fromDataset]
        exact deleteFilesGo_isSome rooted within
      rw [if_neg fromDataset]
      have stored := (getById_eq_some found).1
      obtain ⟨result, deleted, removed⟩ := deleteEntry_removed .go false
        (state, []) file rooted stored (within file stored)
      rw [deleted]
      exact deleteFilesGo_isSome
        (rooted.of_removed removed (ne_root_of_parent rooted stored isRoot))
        (within.subset removed.sublist.subset)

theorem deleteFiles_isSome {removesBuckets : Bool} :
    ∀ {ids : List ℕ} {progress : Progress Blob},
      (Rooted shape progress.1.files root ∨ progress.1.files = []) →
      WithinFuel fuel progress.1.files →
      ∃ result, ids.foldlM (deleteFile removesBuckets user fuel) progress = some result
  | [], progress, _, _ => ⟨progress, rfl⟩
  | id :: ids, progress, rooted, within => by
    suffices step : ∃ next : Progress Blob,
        deleteFile removesBuckets user fuel progress id = some next ∧
          (Rooted shape next.1.files root ∨ next.1.files = []) ∧
          next.1.files ⊆ progress.1.files by
      obtain ⟨next, ran, nextRooted, subset⟩ := step
      rw [List.foldlM_cons, ran]
      exact deleteFiles_isSome nextRooted (within.subset subset)
    unfold deleteFile
    cases found : getById progress.1.files id with
    | none => exact ⟨_, rfl, rooted, List.Subset.refl _⟩
    | some file =>
      dsimp only
      by_cases noTenant : file.tenantId = ""
      · exact ⟨_, if_pos noTenant, rooted, List.Subset.refl _⟩
      rw [if_neg noTenant]
      by_cases refused : checkFileTeamPermission .python user progress.1 file = false
      · exact ⟨_, if_pos refused, rooted, List.Subset.refl _⟩
      rw [if_neg refused]
      by_cases fromDataset : file.fromDataset = true
      · exact ⟨_, if_pos fromDataset, rooted, List.Subset.refl _⟩
      rw [if_neg fromDataset]
      have stored := (getById_eq_some found).1
      rcases rooted with rooted | empty
      · obtain ⟨result, deleted, removed⟩ := deleteEntry_removed .python removesBuckets
          progress file rooted stored (within file stored)
        refine ⟨result, deleted, ?_, removed.sublist.subset⟩
        by_cases isRoot : file.id = root.id
        · right
          apply List.eq_nil_iff_forall_not_mem.mpr
          intro other stays
          obtain ⟨member, apart⟩ := (removed.mem_iff other).mp stays
          exact apart (isRoot ▸ rooted.reached other member)
        · exact .inl (rooted.of_removed removed isRoot)
      · rw [empty] at stored
        exact nomatch stored

end Runs

def owner : User where
  id := "tenant"
  joined := fun _ => false

def rootFolder : File where
  id := 1
  parentId := 1
  tenantId := "tenant"
  isFolder := true
  name := "/"
  location := ""
  fromDataset := false

def reportFile : File where
  id := 2
  parentId := 1
  tenantId := "tenant"
  isFolder := false
  name := "report.pdf"
  location := "report.pdf"
  fromDataset := false

def linkedState : State Unit where
  files := [rootFolder, reportFile]
  objects := Dict.empty
  links := [(2, 7)]
  documents := [⟨7, 5, "report.pdf", 3, 100⟩]
  datasets := [⟨5, "tenant", false, true, 1, 3, 100⟩]
  chunks := [⟨"ragflow_tenant", 5, 7⟩]
  nextId := 8

theorem rooted_linkedState : Rooted shape linkedState.files rootFolder where
  unique := by decide
  stored := by decide
  isBranch := rfl
  isRoot := rfl
  reached := by
    intro file member
    rcases List.mem_cons.mp member with rfl | later
    · exact ⟨[], .refl⟩
    · obtain rfl := List.mem_singleton.mp later
      have down : Below linkedState.files rootFolder.id [reportFile.name] reportFile.id :=
        below_child rfl (by decide) (by decide) rfl (by decide)
      exact ⟨_, down⟩

end RagFlow.Files
