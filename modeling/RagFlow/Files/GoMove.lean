import RagFlow.Files.MoveConserves

/-!
# Moving files on the Go server

The Go server does not look for the destination below the sources, and gives errors after a part
of the entries has been moved.  Under the conditions of `Plan.Clear`, or where nothing is moved
before the error, a request comes to an end and conserves the tree, or leaves it as it was.
-/

namespace RagFlow.Files

open Lib ParentTree

variable {Blob : Type} {context : Context} {root : File}

/-- The first entry that is moved at all cannot be: a folder that is in the destination already, or
a file whose object is not there or cannot be copied. -/
def Plan.FailsFirst (context : Context) (plan : Plan Blob) : Prop :=
  ∃ before source after, plan.sources = before ++ source :: after ∧
    (∀ earlier ∈ before, plan.newName = none ∧ earlier.isFolder = false ∧
      earlier.parentId = plan.dest.id) ∧
    if source.isFolder then
      (queryFiles context plan.initial.files (plan.newName.getD source.name) plan.dest.id).head? =
        some source
    else
      source.parentId ≠ plan.dest.id ∧ (source.location = "" ∨
        (moveObject context.copies plan.initial.objects source.address
          (plan.dest.id, freeLocation plan.initial.objects plan.dest.id
            (plan.newName.getD source.name))).2 = false)

section Failures

variable {plan : Plan Blob}

theorem moveFile_same (state : State Blob) {source : File} {dest : File}
    (inDest : source.parentId = dest.id) :
    moveFile context state source dest none = (state, none) := by
  unfold moveFile
  dsimp only
  rw [if_pos inDest.symm]
  have same : updateById source.id (fun file => { file with name := none.getD file.name })
      state.files = state.files := by
    unfold updateById
    refine (List.map_congr_left fun file _ => ?_).trans (List.map_id _)
    exact ite_self _
  rw [same]
  rfl

theorem Plan.FailsFirst.unchanged (isGo : context.server = .go)
    (fails : plan.FailsFirst context) (fuel : ℕ) :
    ∃ error, moveAll (fun state file =>
        moveEntryRecursive context (fuel + 1) state file plan.dest plan.newName)
      plan.sources plan.initial = some (plan.initial, some error) := by
  obtain ⟨before, source, after, split, stay, fails⟩ := fails
  rw [split]
  clear split
  induction before with
  | cons earlier before ih =>
    obtain ⟨unnamed, plain, inDest⟩ := stay earlier List.mem_cons_self
    obtain ⟨error, ran⟩ := ih fun other member =>
      stay other (List.mem_cons_of_mem _ member)
    refine ⟨error, ?_⟩
    rw [List.cons_append, moveAll, moveEntryRecursive, if_neg (by simp [plain]), unnamed,
      moveFile_same _ inDest]
    rw [unnamed] at ran
    exact ran
  | nil =>
    rw [List.nil_append, moveAll, moveEntryRecursive]
    by_cases isFolder : source.isFolder = true
    · rw [if_pos isFolder] at fails ⊢
      have found : targetFolder context plan.initial source plan.dest
          (plan.newName.getD source.name) = (plan.initial, source) := by
        unfold targetFolder
        cases matching : queryFiles context plan.initial.files
            (plan.newName.getD source.name) plan.dest.id with
        | nil =>
          rw [matching] at fails
          exact absurd fails (Option.some_ne_none _).symm
        | cons existing rest =>
          rw [matching] at fails
          rw [Option.some.inj fails]
      rw [found]
      dsimp only
      rw [if_pos ⟨isGo, rfl⟩]
      exact ⟨_, rfl⟩
    · rw [if_neg isFolder] at fails ⊢
      obtain ⟨elsewhere, fails⟩ := fails
      unfold moveFile
      dsimp only
      rw [if_neg (Ne.symm elsewhere)]
      by_cases empty : source.location = ""
      · rw [if_pos ⟨isGo, empty⟩]
        exact ⟨_, rfl⟩
      · rw [if_neg fun both => empty both.2, if_pos ⟨isGo, fails.resolve_left empty⟩]
        exact ⟨_, rfl⟩

end Failures

section Descent

/-- A folder whose only entry is an empty folder. -/
structure Nested (state : State Blob) (upper lower : File) : Prop where
  upperFolder : upper.isFolder = true
  lowerFolder : lower.isFolder = true
  stored : upper ∈ state.files
  different : lower.id ≠ upper.id
  only : listAllFilesByParentId state.files upper.id = [lower]
  empty : ∀ file ∈ state.files, file.parentId ≠ lower.id
  fresh : ∀ file ∈ state.files, file.id < state.nextId ∧ file.parentId < state.nextId

theorem moveEntryRecursive_descends :
    ∀ (fuel : ℕ) (state : State Blob) (upper lower : File) (override : Option String),
      Nested state upper lower →
      moveEntryRecursive context fuel state upper lower override = none
  | 0, _, _, _, _, _ => rfl
  | fuel + 1, state, upper, lower, override, nested => by
    obtain ⟨upperFolder, lowerFolder, stored, different, only, empty, fresh⟩ := nested
    have lowerStored : lower ∈ state.files := by
      have member : lower ∈ listAllFilesByParentId state.files upper.id :=
        only ▸ List.mem_cons_self
      exact (mem_listAllFilesByParentId.mp member).1
    let new : File :=
      { id := state.nextId, parentId := lower.id, tenantId := upper.tenantId, isFolder := true,
        name := override.getD upper.name, location := "", fromDataset := false }
    let made : State Blob :=
      { state with files := state.files ++ [new], nextId := state.nextId + 1 }
    have found : targetFolder context state upper lower (override.getD upper.name) =
        (made, new) := by
      have noMatch : queryFiles context state.files (override.getD upper.name) lower.id = [] := by
        apply List.filter_eq_nil_iff.mpr
        intro file member
        simp [empty file member]
      unfold targetFolder
      rw [noMatch]
    have newNotUpper : new.id ≠ upper.id := (fresh upper stored).1.ne'
    have onlyLower : listAllFilesByParentId made.files upper.id = [lower] := by
      unfold listAllFilesByParentId at only ⊢
      rw [List.filter_append, only]
      simp [new, different]
    have onlyNew : listAllFilesByParentId made.files lower.id = [new] := by
      have nothing : state.files.filter
          (fun file => file.parentId = lower.id && file.id ≠ lower.id) = [] := by
        apply List.filter_eq_nil_iff.mpr
        intro file member
        simp [empty file member]
      unfold listAllFilesByParentId
      rw [List.filter_append, nothing]
      simp [new, (fresh lower lowerStored).1.ne']
    have nested : Nested made lower new := by
      refine ⟨lowerFolder, rfl, List.mem_append_left _ lowerStored,
        (fresh lower lowerStored).1.ne', onlyNew, fun file member => ?_, fun file member => ?_⟩
      · rcases List.mem_append.mp member with old | isNew
        · exact (fresh file old).2.ne
        · obtain rfl := List.mem_singleton.mp isNew
          exact (fresh lower lowerStored).1.ne
      · rcases List.mem_append.mp member with old | isNew
        · exact ⟨Nat.lt_succ_of_lt (fresh file old).1, Nat.lt_succ_of_lt (fresh file old).2⟩
        · obtain rfl := List.mem_singleton.mp isNew
          exact ⟨Nat.lt_succ_self _, Nat.lt_succ_of_lt (fresh lower lowerStored).1⟩
    have further := moveEntryRecursive_descends fuel made lower new none nested
    rw [moveEntryRecursive, if_pos upperFolder, found]
    dsimp only
    rw [if_neg fun both => newNotUpper both.2, onlyLower, moveAll, further]
    rfl

end Descent

def draftsFolder : File :=
  { treeRoot with id := 3, parentId := 2, name := "drafts" }

def nestedState : State String where
  files := [treeRoot, docsFolder, draftsFolder]
  objects := Dict.empty
  links := []
  documents := []
  datasets := []
  chunks := []
  nextId := 4

end RagFlow.Files
