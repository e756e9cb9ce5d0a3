import RagFlow.Lib.Dict
import RagFlow.Lib.FreshName
import RagFlow.Lib.ParentTree

/-!
# Files of a tenant

The file manager keeps a table of files and folders, an object store with one bucket for each
folder, and links from files to the documents of datasets.
-/

namespace RagFlow.Files

open Lib

structure File where
  id : ℕ
  parentId : ℕ
  tenantId : String
  /-- The type is `folder`. -/
  isFolder : Bool
  name : String
  location : String
  /-- The source type is `knowledgebase`. -/
  fromDataset : Bool
  deriving DecidableEq, Repr

structure Document where
  id : ℕ
  datasetId : ℕ
  name : String
  chunkNum : ℤ
  tokenNum : ℤ
  deriving DecidableEq, Repr

structure Dataset where
  id : ℕ
  tenantId : String
  isTeam : Bool
  isValid : Bool
  docNum : ℤ
  chunkNum : ℤ
  tokenNum : ℤ
  deriving DecidableEq, Repr

structure Chunk where
  index : String
  datasetId : ℕ
  docId : ℕ
  deriving DecidableEq, Repr

abbrev Address := ℕ × String

structure State (Blob : Type) where
  files : List File
  objects : Dict Address Blob
  /-- `file2document`: the id of a file and of a document -/
  links : List (ℕ × ℕ)
  documents : List Document
  datasets : List Dataset
  chunks : List Chunk
  nextId : ℕ
  deriving DecidableEq

inductive Server
  | python
  | go
  deriving DecidableEq, Repr

structure User where
  id : String
  joined : String → Bool

abbrev shape : ParentTree.Shape File ℕ String where
  id := File.id
  parent := File.parentId
  name := File.name
  isBranch := File.isFolder

abbrev Below (files : List File) (top : ℕ) (path : List String) (id : ℕ) : Prop :=
  ParentTree.Below shape files top path id

def File.address (file : File) : Address :=
  (file.parentId, file.location)

section Tables

def getById (files : List File) (id : ℕ) : Option File :=
  files.find? fun file => file.id = id

def getByIds (files : List File) (ids : List ℕ) : List File :=
  files.filter fun file => ids.contains file.id

def listAllFilesByParentId (files : List File) (parentId : ℕ) : List File :=
  files.filter fun file => file.parentId = parentId && file.id ≠ parentId

def updateById (id : ℕ) (change : File → File) (files : List File) : List File :=
  files.map fun file => if file.id = id then change file else file

def deleteById (id : ℕ) (files : List File) : List File :=
  files.filter fun file => file.id ≠ id

def updateDocument (id : ℕ) (change : Document → Document) (documents : List Document) :
    List Document :=
  documents.map fun document => if document.id = id then change document else document

def checkKbTeamPermission (user : User) (dataset : Dataset) : Bool :=
  dataset.tenantId = user.id || (dataset.isTeam && user.joined dataset.tenantId)

/-- `check_file_team_permission`: the file is the user's own, or in a dataset of the user.  The Go
server leaves out deleted datasets. -/
def checkFileTeamPermission {Blob : Type} (server : Server) (user : User) (state : State Blob)
    (file : File) : Bool :=
  file.tenantId = user.id ||
    state.links.any fun link => link.1 = file.id && state.documents.any fun document =>
      document.id = link.2 && state.datasets.any fun dataset =>
        dataset.id = document.datasetId && (server = .python || dataset.isValid) &&
          checkKbTeamPermission user dataset

theorem getById_eq_some {files : List File} {id : ℕ} {file : File}
    (found : getById files id = some file) : file ∈ files ∧ file.id = id :=
  ⟨List.mem_of_find?_eq_some found, by simpa using List.find?_some found⟩

theorem mem_listAllFilesByParentId {files : List File} {parentId : ℕ} {file : File} :
    file ∈ listAllFilesByParentId files parentId ↔
      file ∈ files ∧ file.parentId = parentId ∧ file.id ≠ parentId := by
  simp [listAllFilesByParentId]

theorem mem_deleteById {files : List File} {id : ℕ} {file : File} :
    file ∈ deleteById id files ↔ file ∈ files ∧ file.id ≠ id := by
  simp [deleteById]

theorem mem_updateById {files : List File} {id : ℕ} {change : File → File} {file : File} :
    file ∈ updateById id change files ↔
      (file ∈ files ∧ file.id ≠ id) ∨ ∃ old ∈ files, old.id = id ∧ change old = file := by
  unfold updateById
  rw [List.mem_map]
  constructor
  · rintro ⟨old, stored, rfl⟩
    by_cases hit : old.id = id
    · rw [if_pos hit]
      exact .inr ⟨old, stored, hit, rfl⟩
    · rw [if_neg hit]
      exact .inl ⟨stored, hit⟩
  · rintro (⟨stored, other⟩ | ⟨old, stored, hit, rfl⟩)
    · exact ⟨file, stored, if_neg other⟩
    · exact ⟨old, stored, if_pos hit⟩

theorem ids_updateById {id : ℕ} {change : File → File} (same : ∀ file, (change file).id = file.id)
    (files : List File) : (updateById id change files).map File.id = files.map File.id := by
  unfold updateById
  rw [List.map_map]
  apply List.map_congr_left
  intro file _
  by_cases hit : file.id = id <;> simp [hit, same]

end Tables

section Objects

variable {Blob : Type}

def objExist (objects : Dict Address Blob) (bucket : ℕ) (name : String) : Bool :=
  (objects.get? (bucket, name)).isSome

/-- `while obj_exist(bucket, location): location += "_"` -/
def freeLocation (objects : Dict Address Blob) (bucket : ℕ) (name : String) : String :=
  firstFree (objExist objects bucket) (fun location => location ++ "_")
    (objects.items.length + 1) name

theorem length_iterate_append (name : String) (index : ℕ) :
    ((fun location => location ++ "_")^[index] name).length = name.length + index := by
  induction index with
  | zero => simp
  | succ index ih =>
    rw [Function.iterate_succ_apply', String.length_append, ih]
    exact Nat.add_assoc _ _ _

theorem freeLocation_free (objects : Dict Address Blob) (bucket : ℕ) (name : String) :
    objects.get? (bucket, freeLocation objects bucket name) = none := by
  have distinct : Function.Injective fun index =>
      (fun location => location ++ "_")^[index] name := by
    intro first second same
    have lengths := congrArg String.length same
    simp only [length_iterate_append] at lengths
    omega
  have all : ∀ other, objExist objects bucket other = true →
      other ∈ objects.items.map fun item => item.1.2 := by
    intro other exist
    obtain ⟨blob, found⟩ := Option.isSome_iff_exists.mp exist
    exact List.mem_map.mpr ⟨((bucket, other), blob), Dict.mem_items.mpr found, rfl⟩
  have enough : (objects.items.map fun item => item.1.2).length < objects.items.length + 1 := by
    simp
  have free := firstFree_free distinct all enough
  rw [freeLocation, ← Option.not_isSome_iff_eq_none]
  exact Bool.eq_false_iff.mp free

def put (objects : Dict Address Blob) (address : Address) (blob : Blob) : Dict Address Blob :=
  objects.upsert address fun _ => blob

@[simp] theorem get?_put (objects : Dict Address Blob) (address other : Address) (blob : Blob) :
    (put objects address blob).get? other = if other = address then some blob
      else objects.get? other := by
  simp [put]

/-- `STORAGE_IMPL.move`: a copy and a removal.  It does not raise, and returns whether it moved the
object; `copies` is whether the copy of an object goes through. -/
def moveObject (copies : Address → Bool) (objects : Dict Address Blob)
    (source target : Address) : Dict Address Blob × Bool :=
  match objects.get? source with
  | some blob =>
    if copies source then ((put objects target blob).erase source, true) else (objects, false)
  | none => (objects, false)

theorem get?_moveObject {copies : Address → Bool} {objects : Dict Address Blob}
    {source target : Address} {blob : Blob} (stored : objects.get? source = some blob)
    (goes : copies source = true) (other : Address) :
    (moveObject copies objects source target).1.get? other =
      if other = source then none
      else if other = target then some blob else objects.get? other := by
  unfold moveObject
  simp only [stored, goes, if_true]
  rw [Dict.get?_erase, get?_put]

end Objects

end RagFlow.Files
