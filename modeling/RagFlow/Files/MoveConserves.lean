import RagFlow.Files.Moving

/-!
# The recursion of a move

An entry that waits is moved, with everything below it that waits, to its target path; what was
settled before stays as it is.
-/

namespace RagFlow.Files

open Lib ParentTree

variable {Blob : Type} {context : Context} {plan : Plan Blob} {root : File}

structure Ready (context : Context) (plan : Plan Blob) (root : File) : Prop where
  wellFormed : WellFormed plan.initial root
  destStored : plan.dest ∈ plan.initial.files
  clear : plan.Clear context

@[simp] theorem renameInformed_files (state : State Blob) (fileId : ℕ)
    (override : Option String) : (renameInformed state fileId override).files = state.files := by
  unfold renameInformed
  split <;> rfl

theorem Moving.renameInformed {pending : List File} {state : State Blob}
    (moving : Moving plan pending state) (fileId : ℕ) (override : Option String) :
    Moving plan pending (renameInformed state fileId override) := by
  unfold Files.renameInformed
  split
  · exact ⟨moving.unique, moving.fresh, moving.later, moving.waits, moving.moved, moving.kept,
      moving.others, moving.blobs, moving.apart, moving.names⟩
  · exact moving

section Entries

variable (ready : Ready context plan root)
include ready

theorem targetFolder_settled {pending : List File} {state : State Blob}
    (moving : Moving plan pending state) (source : File) {folder : File} {name : String}
    {path : List String} (folderSettled : folder ∈ settled pending state.files)
    (isFolder : folder.isFolder = true)
    (reached : Below (settled pending state.files) plan.dest.id path folder.id)
    (target : plan.Target true (path ++ [name]))
    (notRoot : folder.parentId = folder.id → name ≠ folder.name) :
    ∃ next result, targetFolder context state source folder name = (next, result) ∧
      Moving plan pending next ∧
      settled pending state.files ⊆ settled pending next.files ∧
      result ∈ settled pending next.files ∧ result.isFolder = true ∧
      Below (settled pending next.files) plan.dest.id (path ++ [name]) result.id := by
  obtain ⟨wellFormed, destStored, clear⟩ := ready
  have named : ∀ file ∈ state.files, file.name = name ∨ (context.server = .go ∧ name = "") →
      file.name = name := by
    rintro file - (same | ⟨isGo, rfl⟩)
    · exact same
    · exact absurd (List.mem_append_right path List.mem_cons_self) (clear.named isGo _ target)
  unfold targetFolder
  cases found : queryFiles context state.files name folder.id with
  | cons existing rest =>
    have member : existing ∈ queryFiles context state.files name folder.id :=
      found ▸ List.mem_cons_self
    simp only [queryFiles, List.mem_filter, Bool.and_eq_true, Bool.or_eq_true,
      decide_eq_true_eq] at member
    obtain ⟨stored, matching, isChild⟩ := member
    obtain rfl := named existing stored matching
    have proper : existing.id ≠ folder.id := by
      intro same
      obtain rfl := eq_of_fileId moving.unique stored (mem_settled.mp folderSettled).1 same
      exact notRoot isChild rfl
    have good : existing ∉ pending ∧ existing.isFolder = true := by
      rcases moving.of_child wellFormed destStored clear.stays folderSettled isFolder reached
        stored isChild proper with ⟨initially, before, waits⟩ | ⟨notWaits, ⟨isFolder, _⟩ |
          ⟨_, origin, originInitially, _, plain, clash⟩⟩
      · obtain ⟨existingFolder, unmoved⟩ := clear.merges _ target existing initially before
        exact ⟨fun waits => (moving.moved existing waits).2 unmoved, existingFolder⟩
      · exact ⟨notWaits, isFolder⟩
      · exact absurd ⟨origin, originInitially, plain, clash⟩ (clear.kinds _ target)
    have existingSettled := mem_settled.mpr ⟨stored, good.1⟩
    exact ⟨state, existing, rfl, moving, List.Subset.refl _, existingSettled, good.2,
      .child reached isFolder folderSettled existingSettled isChild proper⟩
  | nil =>
    have free : ∀ file ∈ state.files, file.name = name → file.parentId ≠ folder.id := by
      intro file stored same isChild
      have member : file ∈ queryFiles context state.files name folder.id := by
        simp [queryFiles, stored, same, isChild]
      rw [found] at member
      exact nomatch member
    let new : File :=
      { id := state.nextId, parentId := folder.id, tenantId := source.tenantId,
        isFolder := true, name, location := "", fromDataset := false }
    obtain ⟨inserted, subset, newSettled, below⟩ :=
      moving.insert new folderSettled isFolder reached rfl rfl rfl target free
    exact ⟨_, _, rfl, inserted, subset, newSettled, rfl, below⟩

theorem moveFile_settled {pending : List File} {state : State Blob}
    (moving : Moving plan pending state) {file folder : File} {override : Option String}
    {path : List String} (folderSettled : folder ∈ settled pending state.files)
    (isFolder : folder.isFolder = true)
    (reached : Below (settled pending state.files) plan.dest.id path folder.id)
    (waits : file ∈ pending) (plain : file.isFolder = false)
    (target : plan.TargetOf file (path ++ [override.getD file.name]))
    (own : file.parentId = plan.dest.id → folder.id = plan.dest.id) :
    ∃ next, moveFile context state file folder override = (next, none) ∧
      Moving plan (deleteById file.id pending) next ∧
      settled pending state.files ⊆ settled (deleteById file.id pending) next.files ∧
      Below (settled (deleteById file.id pending) next.files) plan.dest.id
        (path ++ [override.getD file.name]) file.id := by
  obtain ⟨wellFormed, destStored, clear⟩ := ready
  obtain ⟨initially, isMoved⟩ := moving.moved file waits
  unfold moveFile
  dsimp only
  by_cases same : folder.id = file.parentId
  · rw [if_pos same]
    obtain ⟨placed, subset, below⟩ := moving.place wellFormed destStored clear
      (fun row => { row with name := override.getD row.name }) folderSettled isFolder
      reached waits plain (fun _ => rfl) rfl plain same.symm target (.inl ⟨rfl, rfl⟩)
    refine ⟨_, rfl, placed.renameInformed _ _, ?_⟩
    rw [renameInformed_files]
    exact ⟨subset, below⟩
  · rw [if_neg same]
    obtain ⟨⟨blob, stored⟩, copies, located⟩ :=
      (clear.copies file initially plain isMoved).resolve_left fun inDest =>
        same ((own inDest.2).trans inDest.2.symm)
    have found : state.objects.get? file.address = some blob := by
      obtain ⟨row, rowStored, rowId, _, rowFound⟩ := moving.blobs file initially plain
      exact eq_of_fileId moving.unique rowStored (moving.waits waits) rowId ▸ rowFound blob stored
    have moves : (moveObject context.copies state.objects file.address
        (folder.id, freeLocation state.objects folder.id (override.getD file.name))).2 = true := by
      simp [moveObject, found, copies]
    rw [if_neg fun both => located both.1 both.2, moves, if_neg (by simp)]
    obtain ⟨placed, subset, below⟩ := moving.place wellFormed destStored clear
      (fun row => { row with
        parentId := folder.id, name := override.getD row.name
        location := freeLocation state.objects folder.id (override.getD file.name) })
      folderSettled isFolder reached waits plain (fun _ => rfl) rfl plain rfl target
      (.inr ⟨blob, stored, freeLocation_free _ _ _, get?_moveObject found copies⟩)
    refine ⟨_, rfl, placed.renameInformed _ _, ?_⟩
    rw [renameInformed_files]
    exact ⟨subset, below⟩

end Entries

section Recursion

/-- An entry can be moved into a folder at a path below the destination. -/
structure Movable (plan : Plan Blob) (pending : List File) (fuel : ℕ) (override : Option String)
    (folder : File) (path : List String) (entry : File) : Prop where
  waits : entry ∈ pending
  notRoot : path = [] → folder.parentId = folder.id → entry.isFolder = true →
    override.getD entry.name ≠ folder.name
  own : entry.parentId = plan.dest.id → folder.id = plan.dest.id
  bounded : ∀ lower id, Below pending entry.id lower id → lower.length < fuel

def LeadsTo (plan : Plan Blob) (pending : List File) (override : Option String)
    (path : List String) (entry : File) (inner : File) : Prop :=
  ∀ lower, Below pending entry.id lower inner.id →
    plan.TargetOf inner (path ++ override.getD entry.name :: lower)

structure Moved (plan : Plan Blob) (pending rest : List File) (state next : State Blob) : Prop where
  moving : Moving plan rest next
  grows : settled pending state.files ⊆ settled rest next.files

theorem moveAll_moved (move : State Blob → File → Option (Outcome Blob)) {fuel : ℕ}
    {override : Option String} {folder : File} {path : List String}
    (unique : (plan.initial.files.map File.id).Nodup)
    (step : ∀ (pending : List File) (state : State Blob) (entry : File),
      pending.Sublist plan.initial.files → Moving plan pending state →
      folder ∈ settled pending state.files →
      Below (settled pending state.files) plan.dest.id path folder.id →
      Movable plan pending fuel override folder path entry →
      (∀ inner ∈ pending, LeadsTo plan pending override path entry inner) →
      ∃ next rest, move state entry = some (next, none) ∧ Removed shape pending entry.id rest ∧
        Moved plan pending rest state next) :
    ∀ (entries : List File) (pending : List File) (state : State Blob),
      pending.Sublist plan.initial.files → Moving plan pending state →
      folder ∈ settled pending state.files →
      Below (settled pending state.files) plan.dest.id path folder.id →
      (∀ entry ∈ entries, Movable plan pending fuel override folder path entry) →
      entries.Pairwise (fun entry other => ¬ ∃ path, Below pending entry.id path other.id) →
      (∀ before entry after, entries = before ++ entry :: after → ∀ inner ∈ pending,
        (∀ earlier ∈ before, ¬ ∃ path, Below pending earlier.id path inner.id) →
        LeadsTo plan pending override path entry inner) →
      ∃ next rest, moveAll move entries state = some (next, none) ∧ rest.Sublist pending ∧
        (∀ inner, inner ∈ rest ↔
          inner ∈ pending ∧ ∀ entry ∈ entries, ¬ ∃ path, Below pending entry.id path inner.id) ∧
        Moved plan pending rest state next
  | [], pending, state, _, moving, _, _, _, _, _ =>
    ⟨state, pending, rfl, List.Sublist.refl _, fun _ => by simp, moving, List.Subset.refl _⟩
  | entry :: entries, pending, state, sublist, moving, folderSettled, reached, movable, apart,
      leads => by
      obtain ⟨apartFirst, apartRest⟩ := List.pairwise_cons.mp apart
      obtain ⟨next, rest, ran, removed, moved⟩ := step pending state entry sublist moving
        folderSettled reached (movable entry List.mem_cons_self)
        (fun inner member => leads [] entry entries rfl inner member nofun)
      have lift : ∀ {top path id}, Below rest top path id → Below pending top path id :=
        fun below => below.mono removed.sublist.subset
      have uniquePending : (pending.map File.id).Nodup := unique.sublist (sublist.map _)
      have lower : ∀ {top path inner}, inner ∈ rest → Below pending top path inner.id →
          Below rest top path inner.id := fun stays below =>
        removed.below uniquePending below _ stays rfl
      obtain ⟨final, left, ranRest, leftSublist, mem_iff, movedRest⟩ := moveAll_moved move unique
        step entries rest next (removed.sublist.trans sublist) moved.moving
        (moved.grows folderSettled) (reached.mono moved.grows)
        (fun other member =>
          have ⟨waits, notRoot, own, bounded⟩ := movable other (List.mem_cons_of_mem _ member)
          ⟨(removed.mem_iff other).mpr ⟨waits, apartFirst other member⟩, notRoot, own,
            fun path id below => bounded path id (lift below)⟩)
        (apartRest.imp fun apart ⟨path, below⟩ => apart ⟨path, lift below⟩)
        (fun before other after split inner stays notEarlier path below => by
          obtain ⟨member, notFirst⟩ := (removed.mem_iff inner).mp stays
          refine leads (entry :: before) other after (by rw [split]; rfl) inner member ?_ path
            (lift below)
          exact List.forall_mem_cons.mpr ⟨notFirst, fun earlier isEarlier ⟨path, above⟩ =>
            notEarlier earlier isEarlier ⟨path, lower stays above⟩⟩)
      refine ⟨final, left, ?_, leftSublist.trans removed.sublist, fun inner => ?_,
        movedRest.moving, List.Subset.trans moved.grows movedRest.grows⟩
      · rw [moveAll, ran]
        exact ranRest
      · rw [mem_iff, removed.mem_iff, List.forall_mem_cons, and_assoc]
        apply and_congr_right
        intro member
        apply and_congr_right
        intro notFirst
        have stays := (removed.mem_iff inner).mpr ⟨member, notFirst⟩
        apply forall₂_congr
        intro other _
        apply not_congr
        apply exists_congr
        intro path
        exact ⟨lift, lower stays⟩

theorem moveEntryRecursive_moved (ready : Ready context plan root) {fuel : ℕ}
    {override : Option String} {folder entry : File} {path : List String} {pending : List File}
    {state : State Blob} (sublist : pending.Sublist plan.initial.files)
    (moving : Moving plan pending state) (folderSettled : folder ∈ settled pending state.files)
    (folderFolder : folder.isFolder = true)
    (reached : Below (settled pending state.files) plan.dest.id path folder.id)
    (movable : Movable plan pending fuel override folder path entry)
    (leads : ∀ inner ∈ pending, LeadsTo plan pending override path entry inner) :
    ∃ next rest, moveEntryRecursive context fuel state entry folder override = some (next, none) ∧
      Removed shape pending entry.id rest ∧ Moved plan pending rest state next := by
  obtain ⟨wellFormed, destStored, clear⟩ := ready
  induction fuel generalizing override folder entry path pending state with
  | zero => exact absurd (movable.bounded [] entry.id .refl) (Nat.not_lt_zero _)
  | succ fuel ih =>
    obtain ⟨waits, notRoot, own, bounded⟩ := movable
    obtain ⟨initially, isMoved⟩ := moving.moved entry waits
    have unique : (pending.map File.id).Nodup := wellFormed.rooted.unique.sublist (sublist.map _)
    have target := leads entry waits [] .refl
    rw [moveEntryRecursive]
    by_cases isFolder : entry.isFolder = true
    · rw [if_pos isFolder]
      have notSame : folder.parentId = folder.id → override.getD entry.name ≠ folder.name := by
        intro isRoot
        rcases reached.cases_last with ⟨empty, _⟩ | ⟨_, branch, node, _, same, _, _, _, member,
          isChild, proper⟩
        · exact notRoot empty isRoot isFolder
        · obtain rfl := eq_of_fileId moving.unique (mem_settled.mp folderSettled).1
            (mem_settled.mp member).1 same
          exact absurd (isRoot.symm.trans isChild) proper
      obtain ⟨made, result, found, madeMoving, madeGrows, resultSettled, resultFolder,
        resultReached⟩ := targetFolder_settled ⟨wellFormed, destStored, clear⟩
          moving entry folderSettled folderFolder reached ⟨entry, initially, isFolder, target⟩
          notSame
      have notItself : result.id ≠ entry.id := fun same =>
        (mem_settled.mp resultSettled).2 (eq_of_fileId madeMoving.unique
          (mem_settled.mp resultSettled).1 (madeMoving.waits waits) same ▸ waits)
      have isEntry : ∀ child, child ∈ listAllFilesByParentId made.files entry.id ↔
          child ∈ pending ∧ child.parentId = entry.id ∧ child.id ≠ entry.id := by
        intro child
        rw [mem_listAllFilesByParentId]
        constructor
        · rintro ⟨stored, isChild, proper⟩
          exact ⟨madeMoving.waits_of_child wellFormed destStored clear.stays waits stored isChild
            proper, isChild, proper⟩
        · rintro ⟨childWaits, isChild, proper⟩
          exact ⟨madeMoving.waits childWaits, isChild, proper⟩
      have down : ∀ {child}, child ∈ listAllFilesByParentId made.files entry.id →
          Below pending entry.id [child.name] child.id := by
        intro child member
        obtain ⟨childWaits, isChild, proper⟩ := (isEntry child).mp member
        exact below_child isFolder waits childWaits isChild proper
      have children : ∀ child ∈ listAllFilesByParentId made.files entry.id,
          Movable plan pending fuel none result (path ++ [override.getD entry.name]) child := by
        intro child member
        obtain ⟨childWaits, isChild, proper⟩ := (isEntry child).mp member
        refine ⟨childWaits, fun empty => ?_, fun inDest => ?_, fun lower id below => ?_⟩
        · exact absurd empty (List.append_ne_nil_of_right_ne_nil _ (List.cons_ne_nil _ _))
        · have isDest := eq_of_fileId wellFormed.rooted.unique initially destStored
            (isChild.symm.trans inDest)
          exact absurd (isDest ▸ clear.stays) isMoved
        · have longer := bounded _ _ ((down member).trans below)
          simp only [List.singleton_append, List.length_cons] at longer
          exact Nat.lt_of_succ_lt_succ longer
      have nodup : (listAllFilesByParentId made.files entry.id).Nodup :=
        (madeMoving.unique.of_map _).sublist List.filter_sublist
      have apart : (listAllFilesByParentId made.files entry.id).Pairwise fun child other =>
          ¬ ∃ path, Below pending child.id path other.id := by
        apply (List.Pairwise.and_mem.mp nodup).imp
        rintro child other ⟨member, otherMember, different⟩ ⟨path, below⟩
        obtain ⟨childWaits, isChild, proper⟩ := (isEntry child).mp member
        obtain ⟨otherWaits, otherIsChild, _⟩ := (isEntry other).mp otherMember
        exact not_below_sibling wellFormed.rooted initially isFolder
          (moving.moved child childWaits).1 isChild proper (moving.moved other otherWaits).1
          otherIsChild different ⟨path, below.mono sublist.subset⟩
      obtain ⟨final, left, ran, leftSublist, mem_iff, moved⟩ := moveAll_moved
        (fun state file => moveEntryRecursive context fuel state file result none)
        wellFormed.rooted.unique
        (fun pending state child sublist moving settled reached movable leads =>
          ih sublist moving settled resultFolder reached movable leads)
        _ pending made sublist madeMoving resultSettled resultReached children apart
        (fun before child after split inner member _ lower below => by
          have isChild : child ∈ listAllFilesByParentId made.files entry.id := by
            rw [split]
            exact List.mem_append_right _ List.mem_cons_self
          have further := leads inner member _ ((down isChild).trans below)
          rw [List.append_assoc]
          exact further)
      have entryLeft : entry ∈ left := by
        refine (mem_iff entry).mpr ⟨waits, fun child member ⟨lower, below⟩ => ?_⟩
        have cycle := ((down member).trans below).mono sublist.subset
        exact List.cons_ne_nil _ _ (wellFormed.rooted.eq_nil_of_cycle initially cycle)
      obtain ⟨deleted, deletedGrows⟩ := moved.moving.delete entryLeft isFolder
      refine ⟨_, deleteById entry.id left, ?_,
        removed_folder waits isFolder isEntry leftSublist mem_iff, deleted, ?_⟩
      · rw [found]
        dsimp only
        rw [if_neg fun both => notItself both.2, ran]
        rfl
      · exact List.Subset.trans madeGrows (List.Subset.trans moved.grows deletedGrows)
    · rw [if_neg isFolder]
      have plain := Bool.not_eq_true _ ▸ isFolder
      obtain ⟨next, ran, placed, grows, _⟩ := moveFile_settled
        ⟨wellFormed, destStored, clear⟩ moving folderSettled folderFolder reached waits plain
        target own
      exact ⟨next, _, congrArg some ran, removed_plain unique waits plain, placed, grows⟩

end Recursion

end RagFlow.Files

/-!
# A move conserves the tree

Under the conditions of `Plan.Fits` a move succeeds, no file is lost or doubled, the moved files lie
at their paths below the destination, and every file keeps its blob.
-/

namespace RagFlow.Files

open Lib ParentTree

variable {Blob : Type} {context : Context} {plan : Plan Blob} {root : File}

/-- What a move leaves behind: every file once, reached from the root, with its blob; the moved
files at their target paths; the other entries unchanged. -/
structure Conserves (plan : Plan Blob) (root : File) (final : State Blob) : Prop where
  unique : (final.files.map File.id).Nodup
  files : ∀ file ∈ plan.initial.files, file.isFolder = false →
    ∃ row ∈ final.files, row.id = file.id ∧ row.isFolder = false ∧
      (∃ path, Below final.files root.id path row.id) ∧
      ∀ blob, plan.Stored file blob → final.objects.get? row.address = some blob
  moved : ∀ file ∈ plan.initial.files, file.isFolder = false → ¬ plan.Unmoved file →
    ∃ target, plan.TargetOf file target ∧ Below final.files plan.dest.id target file.id
  unmoved : ∀ file ∈ plan.initial.files, plan.Unmoved file → file ∈ final.files

section Start

open Classical in
noncomputable def Plan.pending (plan : Plan Blob) : List File :=
  plan.initial.files.filter fun file => ¬ plan.Unmoved file

theorem Plan.mem_pending {file : File} :
    file ∈ plan.pending ↔ file ∈ plan.initial.files ∧ ¬ plan.Unmoved file := by
  simp [Plan.pending]

theorem Plan.below_pending (wellFormed : WellFormed plan.initial root) {source : File}
    (member : source ∈ plan.sources) {id : ℕ} {path : List String}
    (below : Below plan.initial.files source.id path id) :
    ∀ file ∈ plan.initial.files, file.id = id → Below plan.pending source.id path id := by
  induction below with
  | refl => exact fun _ _ _ => .refl
  | @child path branch node upper isBranch stored nodeStored isChild proper ih =>
    intro file fileStored same
    obtain rfl := eq_of_fileId wellFormed.rooted.unique fileStored nodeStored same
    have lower := upper.trans (below_child isBranch stored nodeStored isChild proper)
    have branchMoved : branch ∈ plan.pending :=
      Plan.mem_pending.mpr ⟨stored, fun apart => apart source member ⟨_, upper⟩⟩
    have fileMoved : file ∈ plan.pending :=
      Plan.mem_pending.mpr ⟨nodeStored, fun apart => apart source member ⟨_, lower⟩⟩
    exact .child (ih branch stored rfl) isBranch branchMoved fileMoved isChild
      proper

theorem Plan.moving_initial (wellFormed : WellFormed plan.initial root) :
    Moving plan plan.pending plan.initial := by
  have unique := wellFormed.rooted.unique
  constructor
  · exact unique
  · exact wellFormed.fresh
  · exact Nat.le_refl _
  · exact fun file member => (Plan.mem_pending.mp member).1
  · exact fun file member => Plan.mem_pending.mp member
  · exact fun file initially _ => initially
  · intro file initially
    by_cases unmoved : plan.Unmoved file
    · exact .inr (.inl ⟨initially, unmoved⟩)
    · exact .inl (Plan.mem_pending.mpr ⟨initially, unmoved⟩)
  · exact fun file initially plain => ⟨file, initially, rfl, plain, fun blob stored => stored⟩
  · intro file initially other otherInitially plain otherPlain blob otherBlob isStored _ row member
      otherRow otherMember same otherSame address
    obtain rfl := eq_of_fileId unique member initially same
    obtain rfl := eq_of_fileId unique otherMember otherInitially otherSame
    exact wellFormed.apart row member otherRow otherMember plain otherPlain
      (Option.isSome_of_mem isStored) address
  · intro strict file member other otherMember
    exact strict.names file (mem_settled.mp member).1 other (mem_settled.mp otherMember).1

end Start

section Finish

theorem Moving.conserves (wellFormed : WellFormed plan.initial root)
    (destStored : plan.dest ∈ plan.initial.files) (stays : plan.Unmoved plan.dest)
    {final : State Blob} (moving : Moving plan [] final) : Conserves plan root final := by
  have all : settled [] final.files = final.files := by simp [settled]
  have rooted := all ▸ moving.rooted wellFormed destStored stays
  refine ⟨moving.unique, fun file initially plain => ?_, fun file initially plain isMoved => ?_,
    moving.kept⟩
  · obtain ⟨row, stored, same, rowPlain, found⟩ := moving.blobs file initially plain
    exact ⟨row, stored, same, rowPlain, rooted.reached row stored, found⟩
  · obtain ⟨row, stored, same, rowPlain, _⟩ := moving.blobs file initially plain
    rcases moving.others row stored with waits | ⟨rowInitially, unmoved⟩ | ⟨target, below, origin⟩
    · exact absurd waits List.not_mem_nil
    · obtain rfl := eq_of_fileId wellFormed.rooted.unique rowInitially initially same
      exact absurd unmoved isMoved
    · rcases origin with ⟨isFolder, _⟩ | ⟨_, source, sourceInitially, sourceId, _, targetOf⟩
      · simp [isFolder] at rowPlain
      · obtain rfl := eq_of_fileId wellFormed.rooted.unique sourceInitially initially
          (sourceId.trans same)
        rw [all, same] at below
        exact ⟨target, targetOf, below⟩

theorem moveAll_conserves (ready : Ready context plan root)
    (sourcesStored : ∀ source ∈ plan.sources, source ∈ plan.initial.files) :
    ∃ bound, ∀ fuel ≥ bound, ∃ final,
      moveAll (fun state file => moveEntryRecursive context fuel state file plan.dest plan.newName)
        plan.sources plan.initial = some (final, none) ∧ Moving plan [] final := by
  obtain ⟨wellFormed, destStored, clear⟩ := ready
  obtain ⟨bound, bounded⟩ := wellFormed.rooted.exists_bound_below
  refine ⟨bound, fun fuel enough => ?_⟩
  have moving : Moving plan plan.pending plan.initial := Plan.moving_initial wellFormed
  have sublist : plan.pending.Sublist plan.initial.files := List.filter_sublist
  have waits : ∀ source ∈ plan.sources, source ∈ plan.pending := fun source member =>
    Plan.mem_pending.mpr ⟨sourcesStored source member, fun apart =>
      apart source member ⟨[], .refl⟩⟩
  have movable : ∀ source ∈ plan.sources,
      Movable plan plan.pending fuel plan.newName plan.dest [] source := by
    intro source member
    refine ⟨waits source member, fun _ isRoot isFolder => ?_, fun _ => rfl, fun path id below => ?_⟩
    · exact clear.rootName isRoot source member isFolder
    · exact (bounded source (sourcesStored source member) path id
        (below.mono sublist.subset)).trans_le enough
  obtain ⟨final, rest, ran, _, mem_iff, moved⟩ := moveAll_moved
    (fun state file => moveEntryRecursive context fuel state file plan.dest plan.newName)
    wellFormed.rooted.unique
    (fun pending state entry sublist moving settled reached movable leads =>
      moveEntryRecursive_moved ⟨wellFormed, destStored, clear⟩ sublist moving settled
        clear.isFolder reached movable leads)
    plan.sources plan.pending plan.initial sublist moving
    (moving.settled_of_unmoved destStored clear.stays) .refl movable
    (clear.ordered.imp fun apart ⟨path, below⟩ => apart ⟨path, below.mono sublist.subset⟩)
    (fun before source after split inner member notEarlier path below =>
      ⟨before, source, after, path, split, fun earlier isEarlier ⟨upper, above⟩ =>
        notEarlier earlier isEarlier ⟨upper, Plan.below_pending wellFormed
          (split ▸ List.mem_append_left _ isEarlier) above inner (Plan.mem_pending.mp member).1
          rfl⟩,
        below.mono sublist.subset, rfl⟩)
  have nothing : rest = [] := by
    apply List.eq_nil_iff_forall_not_mem.mpr
    intro inner member
    obtain ⟨isPending, notBelow⟩ := (mem_iff inner).mp member
    obtain ⟨initially, isMoved⟩ := Plan.mem_pending.mp isPending
    apply isMoved
    intro source sourceMember ⟨path, below⟩
    exact notBelow source sourceMember
      ⟨path, Plan.below_pending wellFormed sourceMember below inner initially rfl⟩
  exact ⟨final, ran, nothing ▸ moved.moving⟩

end Finish

section Requests

def planOf (state : State Blob) (request : MoveRequest) (dest : File) : Plan Blob where
  initial := state
  sources := getByIds state.files request.srcFileIds
  dest := dest
  newName := request.newName

theorem mem_getAllParentFolders {files : List File} (unique : (files.map File.id).Nodup)
    {upper : File} (stored : upper ∈ files) :
    ∀ {fuel id : ℕ} {path : List String} {ancestors : List File},
      getAllParentFolders files fuel id = some ancestors → Below files upper.id path id →
      ∃ ancestor ∈ ancestors, ancestor.id = upper.id
  | 0, _, _, _, found, _ => nomatch found
  | fuel + 1, id, path, ancestors, found, below => by
    rw [getAllParentFolders] at found
    obtain ⟨file, isFile, rest⟩ := Option.bind_eq_some_iff.mp found
    obtain ⟨fileStored, fileId⟩ := getById_eq_some isFile
    rcases below.cases_last with ⟨_, same⟩ | ⟨_, branch, node, _, same, above, _, _, member,
      isChild, proper⟩
    · have isMember : file ∈ ancestors := by
        by_cases loop : file.parentId = file.id
        · rw [if_pos loop, Option.some.injEq] at rest
          exact rest ▸ List.mem_cons_self
        · rw [if_neg loop] at rest
          obtain ⟨_, _, isList⟩ := Option.bind_eq_some_iff.mp rest
          exact Option.some.inj isList ▸ List.mem_cons_self
      exact ⟨file, isMember, fileId.trans same⟩
    · obtain rfl := eq_of_fileId unique fileStored member (fileId.trans same)
      have isParent : file.parentId = branch.id := isChild
      rw [if_neg fun loop => proper (loop.symm.trans isParent)] at rest
      obtain ⟨further, found, isList⟩ := Option.bind_eq_some_iff.mp rest
      rw [isParent] at found
      obtain ⟨ancestor, isAncestor, sameId⟩ := mem_getAllParentFolders unique stored found above
      exact ⟨ancestor, Option.some.inj isList ▸ List.mem_cons_of_mem _ isAncestor, sameId⟩

theorem checkAncestors_of_checkMove {state : State Blob} {request : MoveRequest} {dest : File}
    (isPython : context.server = .python)
    (isDest : request.destFileId.bind (getById state.files) = some dest)
    (accepted : checkMove context state request = none) :
    checkAncestors state.files (getByIds state.files request.srcFileIds) dest = none := by
  unfold checkMove at accepted
  dsimp only at accepted
  by_cases empty : getByIds state.files request.srcFileIds = []
  · rw [if_pos empty] at accepted
    exact nomatch accepted
  rw [if_neg empty] at accepted
  cases refused : request.srcFileIds.findSome? (checkSource context state) with
  | some error =>
    rw [refused] at accepted
    exact nomatch accepted
  | none =>
    rw [refused, isDest, isPython] at accepted
    dsimp only at accepted
    rw [if_neg (by simp), if_neg (by simp)] at accepted
    by_cases many : request.newName.isSome = true ∧ request.srcFileIds.length > 1
    · rw [if_pos many] at accepted
      exact nomatch accepted
    rw [if_neg many] at accepted
    exact (Option.or_eq_none_iff.mp accepted).2

theorem stays_of_checkAncestors {state : State Blob} {request : MoveRequest} {dest : File}
    (unique : (state.files.map File.id).Nodup) (destStored : dest ∈ state.files)
    (isFolder : dest.isFolder = true)
    (accepted : checkAncestors state.files (getByIds state.files request.srcFileIds) dest = none) :
    (planOf state request dest).Unmoved dest := by
  unfold checkAncestors at accepted
  rintro source member ⟨path, below⟩
  have sourceStored : source ∈ state.files := List.mem_of_mem_filter member
  have sourceFolder : source.isFolder = true := by
    rcases below.cases_first with ⟨_, same⟩ | ⟨branch, _, _, _, same, isBranch, stored, _⟩
    · exact eq_of_fileId unique destStored sourceStored same ▸ isFolder
    · exact eq_of_fileId unique stored sourceStored same ▸ isBranch
  by_cases itself : ((getByIds state.files request.srcFileIds).any fun file =>
      file.isFolder && file.id = dest.id) = true
  · rw [if_pos itself] at accepted
    exact nomatch accepted
  rw [if_neg itself] at accepted
  cases found : getAllParentFolders state.files (state.files.length + 1) dest.id with
  | none =>
    rw [found] at accepted
    exact nomatch accepted
  | some ancestors =>
    rw [found] at accepted
    dsimp only at accepted
    obtain ⟨ancestor, isAncestor, same⟩ :=
      mem_getAllParentFolders unique sourceStored found below
    rw [if_pos] at accepted
    · exact nomatch accepted
    · refine List.any_eq_true.mpr ⟨source, member, ?_⟩
      rw [sourceFolder, Bool.true_and]
      exact List.any_eq_true.mpr ⟨ancestor, isAncestor, decide_eq_true same⟩

theorem moveFiles_of_checkMove {state : State Blob} {request : MoveRequest} {dest : File}
    (isDest : request.destFileId.bind (getById state.files) = some dest)
    (accepted : checkMove context state request = none) (fuel : ℕ) :
    moveFiles context fuel state request =
      moveAll (fun state file => moveEntryRecursive context fuel state file dest request.newName)
        (getByIds state.files request.srcFileIds) state := by
  unfold moveFiles
  rw [accepted, isDest]

theorem moveFiles_conserves {state : State Blob} {request : MoveRequest} {dest : File}
    (wellFormed : WellFormed state root)
    (isDest : request.destFileId.bind (getById state.files) = some dest)
    (accepted : checkMove context state request = none)
    (clear : (planOf state request dest).Clear context) :
    ∃ bound, ∀ fuel ≥ bound, ∃ final, moveFiles context fuel state request = some (final, none) ∧
      Conserves (planOf state request dest) root final := by
  have destStored : dest ∈ state.files := by
    obtain ⟨_, _, found⟩ := Option.bind_eq_some_iff.mp isDest
    exact (getById_eq_some found).1
  obtain ⟨bound, moves⟩ := moveAll_conserves ⟨wellFormed, destStored, clear⟩
    (fun source member => List.mem_of_mem_filter member)
  refine ⟨bound, fun fuel enough => ?_⟩
  obtain ⟨final, ran, moving⟩ := moves fuel enough
  rw [moveFiles_of_checkMove isDest accepted]
  exact ⟨final, ran, moving.conserves wellFormed destStored clear.stays⟩

end Requests

def serverOf (server : Server) : Context where
  server := server
  user := { id := "tenant", joined := fun _ => false }
  suffix := fun _ => ".txt"
  copies := fun _ => true

def treeRoot : File where
  id := 1
  parentId := 1
  tenantId := "tenant"
  isFolder := true
  name := "/"
  location := ""
  fromDataset := false

def docsFolder : File :=
  { treeRoot with id := 2, name := "docs" }

def noteFile : File :=
  { treeRoot with
    id := 3, parentId := 2, isFolder := false, name := "note.txt", location := "note.txt" }

def archiveFolder : File :=
  { treeRoot with id := 4, name := "archive" }

def treeState : State String where
  files := [treeRoot, docsFolder, noteFile, archiveFolder]
  objects := put Dict.empty (2, "note.txt") "a note"
  links := []
  documents := []
  datasets := []
  chunks := []
  nextId := 5

theorem mem_treeState {file : File} (member : file ∈ treeState.files) :
    file = treeRoot ∨ file = docsFolder ∨ file = noteFile ∨ file = archiveFolder := by
  simpa [treeState] using member

theorem wellFormed_treeState : WellFormed treeState treeRoot where
  rooted := by
    refine ⟨by decide, by decide, rfl, rfl, fun file member => ?_⟩
    have docs : Below treeState.files treeRoot.id [docsFolder.name] docsFolder.id :=
      below_child rfl (by decide) (by decide) rfl (by decide)
    have note : Below treeState.files docsFolder.id [noteFile.name] noteFile.id :=
      below_child rfl (by decide) (by decide) rfl (by decide)
    have archive : Below treeState.files treeRoot.id [archiveFolder.name] archiveFolder.id :=
      below_child rfl (by decide) (by decide) rfl (by decide)
    rcases mem_treeState member with rfl | rfl | rfl | rfl
    · exact ⟨_, .refl⟩
    · exact ⟨_, docs⟩
    · exact ⟨_, docs.trans note⟩
    · exact ⟨_, archive⟩
  fresh := by decide
  apart := by decide

theorem below_docsFolder {path : List String} {id : ℕ} (below : Below treeState.files 2 path id) :
    (path = [] ∧ id = 2) ∨ (path = ["note.txt"] ∧ id = 3) := by
  induction below with
  | refl => exact .inl ⟨rfl, rfl⟩
  | child upper isBranch stored member isChild proper ih =>
    rcases mem_treeState member with rfl | rfl | rfl | rfl
    · exact absurd isChild.symm proper.symm
    · rcases ih with ⟨_, isTop⟩ | ⟨_, isNote⟩
      · exact absurd (isChild.trans isTop) (by decide)
      · exact absurd (isChild.trans isNote) (by decide)
    · rcases ih with ⟨rfl, isTop⟩ | ⟨_, isNote⟩
      · exact .inr ⟨rfl, rfl⟩
      · exact absurd (isChild.trans isNote) (by decide)
    · rcases ih with ⟨_, isTop⟩ | ⟨_, isNote⟩
      · exact absurd (isChild.trans isTop) (by decide)
      · exact absurd (isChild.trans isNote) (by decide)

theorem fits_treeState (server : Server) :
    (planOf treeState ⟨[2], some 4, none⟩ archiveFolder).Fits (serverOf server) := by
  have targetOf : ∀ {file target},
      (planOf treeState ⟨[2], some 4, none⟩ archiveFolder).TargetOf file target →
      (target = ["docs"] ∧ file.id = 2) ∨ (target = ["docs", "note.txt"] ∧ file.id = 3) := by
    rintro file target ⟨before, source, after, path, split, _, below, rfl⟩
    have member : source ∈ (planOf treeState ⟨[2], some 4, none⟩ archiveFolder).sources :=
      split ▸ List.mem_append_right _ List.mem_cons_self
    change source ∈ [docsFolder] at member
    obtain rfl := List.mem_singleton.mp member
    rcases below_docsFolder below with ⟨rfl, same⟩ | ⟨rfl, same⟩
    · exact .inl ⟨rfl, same⟩
    · exact .inr ⟨rfl, same⟩
  have folders : ∀ {target},
      (planOf treeState ⟨[2], some 4, none⟩ archiveFolder).Target true target →
      target = ["docs"] := by
    rintro target ⟨file, member, isFolder, target⟩
    rcases targetOf target with ⟨same, _⟩ | ⟨_, isNote⟩
    · exact same
    · rcases mem_treeState member with rfl | rfl | rfl | rfl
      all_goals first | exact absurd isNote (by decide) | exact nomatch isFolder
  constructor
  · rfl
  · exact List.pairwise_singleton _ _
  · intro target isTarget entry member below
    obtain rfl := folders isTarget
    rcases below.cases_first with ⟨impossible, _⟩ | ⟨_, node, _, _, _, _, _, stored, isChild, _⟩
    · exact nomatch impossible
    · rcases mem_treeState stored with rfl | rfl | rfl | rfl
      all_goals exact absurd isChild (by decide)
  · rintro target isTarget ⟨file, member, plain, fileTarget⟩
    obtain rfl := folders isTarget
    rcases targetOf fileTarget with ⟨_, isDocs⟩ | ⟨impossible, _⟩
    · rcases mem_treeState member with rfl | rfl | rfl | rfl
      all_goals first | exact absurd isDocs (by decide) | exact nomatch plain
    · exact absurd impossible (by decide)
  · exact fun isRoot => absurd isRoot (by decide)
  · intro file member plain _
    rcases mem_treeState member with rfl | rfl | rfl | rfl
    · exact nomatch plain
    · exact nomatch plain
    · exact .inr ⟨⟨"a note", rfl⟩, rfl, fun _ => by decide⟩
    · exact nomatch plain
  · intro _ target isTarget
    rw [folders isTarget]
    decide

end RagFlow.Files
