import RagFlow.Files.DeleteAgreement
import RagFlow.Files.MoveConserves

/-!
# Deleting frees storage

`DeleteFiles` of the Go server leaves a tree, and the objects of just those files that are still
there.
-/

namespace RagFlow.Files

open Lib ParentTree

variable {Blob : Type} {initial : State Blob} {root : File}

/-- A file has its object as long as its row is there. -/
structure Frees (initial state : State Blob) : Prop where
  files : state.files ⊆ initial.files
  objects : ∀ file ∈ initial.files, file.isFolder = false → file.location ≠ "" →
    state.objects.get? file.address =
      if file ∈ state.files then initial.objects.get? file.address else none

theorem deleteSingleFile_objects (progress : Progress Blob) (file : File) :
    (deleteSingleFile .go progress file).1.objects =
      if file.location = "" then progress.1.objects else progress.1.objects.erase file.address := by
  refine foldl_deleteInform (fun state => state.objects = _) (fun progress docId same => ?_) _ _ rfl
  rw [← same, deleteInform]
  cases getDocument progress.1.documents docId <;> rfl

theorem Frees.deleteSingleFile (wellFormed : WellFormed initial root) {progress : Progress Blob}
    {file : File} (stored : file ∈ initial.files) (plain : file.isFolder = false)
    (frees : Frees initial progress.1) : Frees initial (deleteSingleFile .go progress file).1 := by
  refine ⟨?_, fun other member otherPlain located => ?_⟩
  · rw [deleteSingleFile_files]
    exact List.Subset.trans List.filter_sublist.subset frees.files
  have before := frees.objects other member otherPlain located
  rw [deleteSingleFile_objects, deleteSingleFile_files]
  by_cases same : other = file
  · subst same
    rw [if_neg located, Dict.get?_erase, if_pos rfl]
    exact (if_neg fun stays => (mem_deleteById.mp stays).2 rfl).symm
  have stays : other ∈ deleteById file.id progress.1.files ↔ other ∈ progress.1.files := by
    rw [mem_deleteById]
    exact and_iff_left fun sameId =>
      same (eq_of_fileId wellFormed.rooted.unique member stored sameId)
  rw [if_congr stays rfl rfl, ← before]
  split
  · rfl
  · rw [Dict.get?_erase]
    split
    case isFalse => rfl
    case isTrue sameAddress =>
      -- Two files at one address have no object.
      have missing : initial.objects.get? other.address = none := by
        rw [← Option.not_isSome_iff_eq_none]
        exact fun present =>
          same (wellFormed.apart other member file stored otherPlain plain present sameAddress)
      rw [before, missing, ite_self]

theorem Frees.removeFolder (wellFormed : WellFormed initial root) {state : State Blob}
    {removesBuckets : Bool} {folder : File} (stored : folder ∈ initial.files)
    (isFolder : folder.isFolder = true) (frees : Frees initial state) :
    Frees initial (removeFolder .go removesBuckets state folder) where
  files := List.Subset.trans List.filter_sublist.subset frees.files
  objects := by
    intro file member plain located
    have kept : (Files.removeFolder .go removesBuckets state folder).objects = state.objects := by
      simp [Files.removeFolder]
    rw [kept, frees.objects file member plain located]
    refine if_congr (Iff.trans (and_iff_left fun same => ?_).symm mem_deleteById.symm) rfl rfl
    obtain rfl := eq_of_fileId wellFormed.rooted.unique member stored same
    exact absurd (isFolder.symm.trans plain) nofun

theorem frees_deleteFilesGo (wellFormed : WellFormed initial root) {user : User} {fuel : ℕ}
    (within : WithinFuel fuel initial.files) :
    ∀ (ids : List ℕ) (state : State Blob), Rooted shape state.files root → Frees initial state →
      ∃ final error, deleteFilesGo user fuel state ids = some (final, error) ∧
        Rooted shape final.files root ∧ Frees initial final
  | [], state, rooted, frees => ⟨state, none, rfl, rooted, frees⟩
  | id :: ids, state, rooted, frees => by
    have ends (error : Option String) : ∃ final error', some (state, error) = some (final, error') ∧
        Rooted shape final.files root ∧ Frees initial final :=
      ⟨state, error, rfl, rooted, frees⟩
    rw [deleteFilesGo]
    cases found : getById state.files id with
    | none => exact ends _
    | some file =>
      dsimp only
      split_ifs with noTenant isRoot refused fromDataset
      · exact ends _
      · exact ends _
      · exact ends _
      · exact frees_deleteFilesGo wellFormed within ids state rooted frees
      · have stored := (getById_eq_some found).1
        have bounded := within.subset frees.files file stored
        obtain ⟨result, deleted, removed⟩ := deleteEntry_removed .go false
          (state, []) file rooted stored bounded
        have next := deleteEntry_keeps (Frees initial) (fun _ frees => frees.files)
          (fun _ _ stored plain frees => frees.deleteSingleFile wellFormed stored plain)
          (fun _ _ stored isFolder frees => frees.removeFolder wellFormed stored isFolder)
          (frees.files stored) frees deleted
        rw [deleted]
        exact frees_deleteFilesGo wellFormed within ids _
          (rooted.of_removed removed (ne_root_of_parent rooted stored isRoot)) next

/-- Whatever is requested, and also where the request ends with an error. -/
theorem deleteFilesGo_frees (user : User) (state : State Blob) (root : File)
    (wellFormed : WellFormed state root) (fileIds : List ℕ) :
    ∃ bound, ∀ fuel ≥ bound, ∃ final error,
      deleteFilesGo user fuel state fileIds = some (final, error) ∧
        Rooted shape final.files root ∧ Frees state final := by
  obtain ⟨bound, bounded⟩ := wellFormed.rooted.exists_bound_below
  refine ⟨bound, fun fuel enough => ?_⟩
  have within : WithinFuel fuel state.files := fun file member path id below =>
    (bounded file member path id below).trans_le enough
  exact frees_deleteFilesGo wellFormed within fileIds state wellFormed.rooted
    ⟨List.Subset.refl _, fun file member _ _ => (if_pos member).symm⟩

theorem deleteFilesGo_frees_docs : ∃ bound, ∀ fuel ≥ bound, ∃ final error,
    deleteFilesGo owner fuel treeState [2, 9] = some (final, error) ∧
      Rooted shape final.files treeRoot ∧ Frees treeState final :=
  deleteFilesGo_frees owner treeState treeRoot wellFormed_treeState [2, 9]

end RagFlow.Files
