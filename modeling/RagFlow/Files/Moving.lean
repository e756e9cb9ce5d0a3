import RagFlow.Files.DeleteTree
import RagFlow.Files.Tree

/-!
# Moving files

`move_files` of the API server and `MoveFiles` of the Go server.  A folder is moved by moving its
entries into a folder of its name at the destination, which is made if there is none, and deleting
it; a file is moved by moving its object and updating its row.
-/

namespace RagFlow.Files

open Lib

structure Context where
  server : Server
  user : User
  /-- The suffix of a file name, in lower case. -/
  suffix : String → String
  /-- Whether the copy of an object goes through. -/
  copies : Address → Bool

structure MoveRequest where
  srcFileIds : List ℕ
  destFileId : Option ℕ
  newName : Option String
  deriving DecidableEq, Repr

abbrev Outcome (Blob : Type) := State Blob × Option String

variable {Blob : Type} (context : Context)

/-- `FileService.query(name, parent_id)`; the Go query leaves out an empty name. -/
def queryFiles (files : List File) (name : String) (parentId : ℕ) : List File :=
  files.filter fun file =>
    (file.name = name || (context.server = .go && name = "")) && file.parentId = parentId

def targetFolder (state : State Blob) (source dest : File) (name : String) :
    State Blob × File :=
  match queryFiles context state.files name dest.id with
  | existing :: _ => (state, existing)
  | [] =>
    let folder : File :=
      { id := state.nextId, parentId := dest.id, tenantId := source.tenantId, isFolder := true,
        name, location := "", fromDataset := false }
    ({ state with files := state.files ++ [folder], nextId := state.nextId + 1 }, folder)

def renameInformed (state : State Blob) (fileId : ℕ) (overrideName : Option String) :
    State Blob :=
  match overrideName, state.links.find? fun link => link.1 = fileId with
  | some name, some link =>
    { state with documents :=
        updateDocument link.2 (fun document => { document with name }) state.documents }
  | _, _ => state

/-- The part of `_move_entry_recursive` for an entry that is no folder.  The Go server also checks
the location and the result of the object store. -/
def moveFile (state : State Blob) (source dest : File) (overrideName : Option String) :
    Outcome Blob :=
  let name := overrideName.getD source.name
  if dest.id = source.parentId then
    let files := updateById source.id
      (fun file => { file with name := overrideName.getD file.name }) state.files
    (renameInformed { state with files } source.id overrideName, none)
  else
    let location := freeLocation state.objects dest.id name
    if context.server = .go ∧ source.location = "" then (state, some "file location is empty")
    else
      let result := moveObject context.copies state.objects source.address (dest.id, location)
      if context.server = .go ∧ result.2 = false then
        (state, some "move file failed at storage layer")
      else
        let files := updateById source.id
          (fun file =>
            { file with parentId := dest.id, name := overrideName.getD file.name, location })
          state.files
        (renameInformed { state with objects := result.1, files } source.id overrideName, none)

/-- Move entries in turn; an error ends the loop. -/
def moveAll (move : State Blob → File → Option (Outcome Blob)) :
    List File → State Blob → Option (Outcome Blob)
  | [], state => some (state, none)
  | file :: files, state => do
    let (state, error) ← move state file
    match error with
    | some error => some (state, some error)
    | none => moveAll move files state

/-- `_move_entry_recursive` and `moveEntryRecursive`; `none` when the recursion does not come to an
end within the fuel. -/
def moveEntryRecursive : ℕ → State Blob → File → File → Option String → Option (Outcome Blob)
  | 0, _, _, _, _ => none
  | fuel + 1, state, source, dest, overrideName =>
    let name := overrideName.getD source.name
    if source.isFolder then
      let (state, folder) := targetFolder context state source dest name
      -- Only the Go server sees that a folder is merged with itself.
      if context.server = .go ∧ folder.id = source.id then
        some (state, some "cannot move folder into itself")
      else do
        let (state, error) ← moveAll
          (fun state file => moveEntryRecursive fuel state file folder none)
          (listAllFilesByParentId state.files source.id) state
        match error with
        | some error => some (state, some error)
        | none => some ({ state with files := deleteById source.id state.files }, none)
    else some (moveFile context state source dest overrideName)

/-- `get_all_parent_folders`; `none` when a parent is missing or there is no end. -/
def getAllParentFolders (files : List File) : ℕ → ℕ → Option (List File)
  | 0, _ => none
  | fuel + 1, id => do
    let file ← getById files id
    if file.parentId = file.id then some [file]
    else
      let upper ← getAllParentFolders files fuel file.parentId
      some (file :: upper)

def checkNewName (files : List File) (source : File) (dest : Option File) (newName : String) :
    Option String :=
  if source.isFolder = false ∧ context.suffix newName ≠ context.suffix source.name then
    some "The extension of file can't be changed"
  else
    let parentId := (dest.map File.id).getD source.parentId
    if (queryFiles context files newName parentId).any fun file => file.name = newName then
      some "Duplicated file name in the same folder."
    else none

/-- The checks of `move_files` on the destination: neither a source folder nor below one. -/
def checkAncestors (files sources : List File) (dest : File) : Option String :=
  if sources.any fun file => file.isFolder && file.id = dest.id then
    some "Cannot move a folder to itself."
  else
    match getAllParentFolders files (files.length + 1) dest.id with
    | none => some "Internal server error"
    | some ancestors =>
      if sources.any fun file => file.isFolder && ancestors.any fun upper => upper.id = file.id
      then some "Cannot move a folder into its own subfolder."
      else none

/-- The check of `MoveFiles` without a new name: other entries of the name at the destination. -/
def checkDuplicates (files sources : List File) (dest : File) : Option String :=
  if sources.any fun file =>
      (queryFiles context files file.name dest.id).any fun other => other.id ≠ file.id then
    some "Duplicated file name in the same folder."
  else none

def checkSource (state : State Blob) (id : ℕ) : Option String :=
  match getById state.files id with
  | none => some "File or folder not found!"
  | some file =>
    if file.tenantId = "" then some "Tenant not found!"
    else if checkFileTeamPermission context.server context.user state file then none
    else some "No authorization."

/-- The checks of a request; `none` when it is accepted. -/
def checkMove (state : State Blob) (request : MoveRequest) : Option String :=
  let files := state.files
  let sources := getByIds files request.srcFileIds
  if sources = [] then some "Source files not found!"
  else if let some error := request.srcFileIds.findSome? (checkSource context state) then
    some error
  else
    let dest := request.destFileId.bind (getById files)
    if request.destFileId.isSome ∧ dest.isNone then some "Parent folder not found!"
    else if context.server = .go ∧
        dest.any fun dest => !checkFileTeamPermission .go context.user state dest then
      some "No authorization to write to destination folder."
    else if request.newName.isSome ∧ request.srcFileIds.length > 1 then
      some "new_name can only be used with a single file"
    else
      let named :=
        match request.newName, request.srcFileIds.head?.bind (getById files) with
        | some newName, some source => checkNewName context files source dest newName
        | _, _ => none
      named.or <|
        match context.server, dest with
        | .python, some dest => checkAncestors files sources dest
        | .go, some dest =>
          if request.newName = none then checkDuplicates context files sources dest else none
        | _, none =>
          if request.newName = none then some "new_name is required for rename" else none

def moveFiles (fuel : ℕ) (state : State Blob) (request : MoveRequest) : Option (Outcome Blob) :=
  match checkMove context state request with
  | some error => some (state, some error)
  | none =>
    let sources := getByIds state.files request.srcFileIds
    match request.destFileId.bind (getById state.files) with
    | some dest =>
      moveAll
        (fun state file => moveEntryRecursive context fuel state file dest request.newName)
        sources state
    | none =>
      match sources.head?, request.newName with
      | some file, some newName =>
        let files := updateById file.id (fun file => { file with name := newName })
          state.files
        some (renameInformed { state with files } file.id newName, none)
      | _, _ => some (state, none)

end RagFlow.Files

/-!
# The tree while files are moved

Entries that are moved wait in the table until they are settled at their target path below the
destination.  The rows that do not wait form a tree at any time.
-/

namespace RagFlow.Files

open Lib ParentTree

variable {Blob : Type}

structure Plan (Blob : Type) where
  initial : State Blob
  sources : List File
  dest : File
  newName : Option String

namespace Plan

variable (plan : Plan Blob)

def Apart (sources : List File) (file : File) : Prop :=
  ∀ source ∈ sources, ¬ ∃ path, Below plan.initial.files source.id path file.id

def Unmoved (file : File) : Prop :=
  plan.Apart plan.sources file

def TargetOf (file : File) (target : List String) : Prop :=
  ∃ before source after path, plan.sources = before ++ source :: after ∧ plan.Apart before file ∧
    Below plan.initial.files source.id path file.id ∧
    target = plan.newName.getD source.name :: path

def Target (isFolder : Bool) (target : List String) : Prop :=
  ∃ file ∈ plan.initial.files, file.isFolder = isFolder ∧ plan.TargetOf file target

def Stored (file : File) (blob : Blob) : Prop :=
  plan.initial.objects.get? file.address = some blob

end Plan

/-- A well-formed state: the files are a tree, ids are fresh, and no two files share a blob. -/
structure WellFormed (state : State Blob) (root : File) : Prop where
  rooted : Rooted shape state.files root
  fresh : ∀ file ∈ state.files, file.id < state.nextId
  apart : ∀ file ∈ state.files, ∀ other ∈ state.files, file.isFolder = false →
    other.isFolder = false → (state.objects.get? file.address).isSome →
    file.address = other.address → file = other

/-- The conditions under which a move goes well, if the destination is not moved itself. -/
structure Plan.Fits (context : Context) (plan : Plan Blob) : Prop where
  /-- The destination is a folder. -/
  isFolder : plan.dest.isFolder = true
  /-- No source is below one that is moved before it. -/
  ordered : plan.sources.Pairwise fun earlier later =>
    ¬ ∃ path, Below plan.initial.files earlier.id path later.id
  /-- What a folder is merged with is a folder that is not moved. -/
  merges : ∀ target, plan.Target true target → ∀ entry ∈ plan.initial.files,
    Below plan.initial.files plan.dest.id target entry.id →
    entry.isFolder = true ∧ plan.Unmoved entry
  /-- No folder and file are moved to one path. -/
  kinds : ∀ target, plan.Target true target → ¬ plan.Target false target
  /-- A folder that is moved into the root does not have the name of the root. -/
  rootName : plan.dest.parentId = plan.dest.id → ∀ source ∈ plan.sources,
    source.isFolder = true → plan.newName.getD source.name ≠ plan.dest.name
  /-- Of a file that leaves its folder, the object is there and can be copied. -/
  copies : ∀ file ∈ plan.initial.files, file.isFolder = false → ¬ plan.Unmoved file →
    (file ∈ plan.sources ∧ file.parentId = plan.dest.id) ∨
      ((∃ blob, plan.Stored file blob) ∧ context.copies file.address = true ∧
        (context.server = .go → file.location ≠ ""))
  /-- The Go server takes an empty name for any name. -/
  named : context.server = .go → ∀ target, plan.Target true target → "" ∉ target

/-- The conditions under which a move goes well. -/
structure Plan.Clear (context : Context) (plan : Plan Blob) : Prop
    extends Plan.Fits context plan where
  /-- The destination is neither among the sources nor below one. -/
  stays : plan.Unmoved plan.dest

def settled (pending files : List File) : List File :=
  files.filter fun file => file ∉ pending

@[simp] theorem mem_settled {pending files : List File} {file : File} :
    file ∈ settled pending files ↔ file ∈ files ∧ file ∉ pending := by
  simp [settled]

/-- A row is at a target path: a file at its own, or a new folder. -/
def Plan.Placed (plan : Plan Blob) (rows : List File) (file : File) : Prop :=
  ∃ target, Below rows plan.dest.id target file.id ∧
    ((file.isFolder = true ∧ plan.initial.nextId ≤ file.id ∧ plan.Target true target) ∨
      (file.isFolder = false ∧ ∃ origin ∈ plan.initial.files, origin.id = file.id ∧
        origin.isFolder = false ∧ plan.TargetOf origin target))

/-- No clash of names: names are unique in each folder, and no file is moved to the path of another
entry. -/
structure Plan.Strict (plan : Plan Blob) : Prop where
  names : ∀ file ∈ plan.initial.files, ∀ other ∈ plan.initial.files,
    file.parentId = other.parentId → file.name = other.name → file.id ≠ file.parentId →
    other.id ≠ other.parentId → file = other
  free : ∀ file ∈ plan.initial.files, file.isFolder = false → ∀ target,
    plan.TargetOf file target → ∀ entry ∈ plan.initial.files, plan.Unmoved entry →
    ¬ Below plan.initial.files plan.dest.id target entry.id
  single : ∀ file ∈ plan.initial.files, ∀ other ∈ plan.initial.files, file.isFolder = false →
    other.isFolder = false → ∀ target, plan.TargetOf file target → plan.TargetOf other target →
    file = other

/-- The state while some entries wait. -/
structure Moving (plan : Plan Blob) (pending : List File) (state : State Blob) : Prop where
  unique : (state.files.map File.id).Nodup
  fresh : ∀ file ∈ state.files, file.id < state.nextId
  later : plan.initial.nextId ≤ state.nextId
  waits : pending ⊆ state.files
  moved : ∀ file ∈ pending, file ∈ plan.initial.files ∧ ¬ plan.Unmoved file
  kept : ∀ file ∈ plan.initial.files, plan.Unmoved file → file ∈ state.files
  others : ∀ file ∈ state.files, file ∈ pending ∨
    (file ∈ plan.initial.files ∧ plan.Unmoved file) ∨
    plan.Placed (settled pending state.files) file
  blobs : ∀ file ∈ plan.initial.files, file.isFolder = false → ∃ row ∈ state.files,
    row.id = file.id ∧ row.isFolder = false ∧
      ∀ blob, plan.Stored file blob → state.objects.get? row.address = some blob
  apart : ∀ file ∈ plan.initial.files, ∀ other ∈ plan.initial.files, file.isFolder = false →
    other.isFolder = false → ∀ blob otherBlob, plan.Stored file blob →
    plan.Stored other otherBlob → ∀ row ∈ state.files, ∀ otherRow ∈ state.files,
    row.id = file.id → otherRow.id = other.id → row.address = otherRow.address → file = other
  names : plan.Strict → ∀ file ∈ settled pending state.files,
    ∀ other ∈ settled pending state.files, file.parentId = other.parentId →
    file.name = other.name → file.id ≠ file.parentId → other.id ≠ other.parentId → file = other

section Tree

variable {plan : Plan Blob} {root : File}

theorem Plan.Apart.above {sources : List File} {file upper : File} {path : List String}
    (apart : plan.Apart sources file) (below : Below plan.initial.files upper.id path file.id) :
    plan.Apart sources upper :=
  fun source member ⟨_, above⟩ => apart source member ⟨_, above.trans below⟩

theorem Plan.unmoved_root (wellFormed : WellFormed plan.initial root)
    (destStored : plan.dest ∈ plan.initial.files) (stays : plan.Unmoved plan.dest) :
    plan.Unmoved root := by
  obtain ⟨path, reached⟩ := wellFormed.rooted.reached plan.dest destStored
  exact Plan.Apart.above stays reached

namespace Moving

variable {pending : List File} {state : State Blob} (moving : Moving plan pending state)
include moving

theorem settled_of_unmoved {file : File} (stored : file ∈ plan.initial.files)
    (stays : plan.Unmoved file) : file ∈ settled pending state.files :=
  mem_settled.mpr ⟨moving.kept file stored stays, fun waits => (moving.moved file waits).2 stays⟩

theorem unique_settled : ((settled pending state.files).map File.id).Nodup :=
  moving.unique.sublist (List.filter_sublist.map _)

theorem below_of_initial (wellFormed : WellFormed plan.initial root) {top id : ℕ}
    {path : List String} (below : Below plan.initial.files top path id) :
    ∀ file ∈ plan.initial.files, file.id = id → plan.Unmoved file →
      Below (settled pending state.files) top path id := by
  induction below with
  | refl => exact fun _ _ _ _ => .refl
  | @child path branch node upper isBranch stored member isChild proper ih =>
    intro file fileStored same stays
    obtain rfl := eq_of_fileId wellFormed.rooted.unique fileStored member same
    have branchStays : plan.Unmoved branch := Plan.Apart.above stays
      (below_child isBranch stored member isChild proper)
    exact .child (ih branch stored rfl branchStays) isBranch
      (moving.settled_of_unmoved stored branchStays) (moving.settled_of_unmoved member stays)
      isChild proper

theorem rooted (wellFormed : WellFormed plan.initial root)
    (destStored : plan.dest ∈ plan.initial.files) (stays : plan.Unmoved plan.dest) :
    Rooted shape (settled pending state.files) root where
  unique := moving.unique_settled
  stored := moving.settled_of_unmoved wellFormed.rooted.stored
    (Plan.unmoved_root wellFormed destStored stays)
  isBranch := wellFormed.rooted.isBranch
  isRoot := wellFormed.rooted.isRoot
  reached := by
    intro file member
    obtain ⟨stored, notWaits⟩ := mem_settled.mp member
    rcases moving.others file stored with waits | ⟨initially, unmoved⟩ | ⟨target, below, _⟩
    · exact absurd waits notWaits
    · obtain ⟨path, reached⟩ := wellFormed.rooted.reached file initially
      exact ⟨path, moving.below_of_initial wellFormed reached file initially rfl unmoved⟩
    · obtain ⟨path, reached⟩ := wellFormed.rooted.reached plan.dest destStored
      have above := moving.below_of_initial wellFormed reached plan.dest destStored rfl stays
      exact ⟨_, above.trans below⟩

theorem initial_of_child (wellFormed : WellFormed plan.initial root) {folder file : File}
    (folderSettled : folder ∈ settled pending state.files) (isFolder : folder.isFolder = true)
    (initially : file ∈ plan.initial.files) (isChild : file.parentId = folder.id) :
    folder ∈ plan.initial.files ∧ plan.Unmoved folder := by
  obtain ⟨folderStored, notWaits⟩ := mem_settled.mp folderSettled
  rcases moving.others folder folderStored with waits | unmoved | ⟨_, _, ⟨_, isNew, _⟩ | ⟨plain, _⟩⟩
  · exact absurd waits notWaits
  · exact unmoved
  · have old : folder.id < plan.initial.nextId := by
      by_cases loop : file.id = file.parentId
      · exact (loop.trans isChild) ▸ wellFormed.fresh file initially
      · obtain ⟨branch, branchStored, _, isParent⟩ :=
          wellFormed.rooted.branch_of_child initially loop
        have isBranch : branch.id = folder.id := isParent.trans isChild
        exact isBranch ▸ wellFormed.fresh branch branchStored
    exact absurd old (Nat.not_lt.mpr isNew)
  · exact absurd (isFolder.symm.trans plain) nofun

theorem initial_of_below (wellFormed : WellFormed plan.initial root) {top id : ℕ}
    {path : List String} (below : Below (settled pending state.files) top path id) :
    ∀ file ∈ plan.initial.files, file ∈ state.files → file.id = id →
      Below plan.initial.files top path id := by
  induction below with
  | refl => exact fun _ _ _ _ => .refl
  | @child path branch node upper isBranch stored member isChild proper ih =>
    intro file initially fileStored same
    obtain rfl := eq_of_fileId moving.unique fileStored (mem_settled.mp member).1 same
    obtain ⟨branchInitially, _⟩ :=
      moving.initial_of_child wellFormed stored isBranch initially isChild
    exact .child (ih branch branchInitially (mem_settled.mp stored).1 rfl)
      isBranch branchInitially initially isChild proper

theorem waits_of_child (wellFormed : WellFormed plan.initial root)
    (destStored : plan.dest ∈ plan.initial.files) (stays : plan.Unmoved plan.dest)
    {folder file : File} (waits : folder ∈ pending) (stored : file ∈ state.files)
    (isChild : file.parentId = folder.id) (proper : file.id ≠ folder.id) : file ∈ pending := by
  have ofInitial : file ∈ plan.initial.files → ¬ plan.Unmoved file := by
    intro initially unmoved
    obtain ⟨folderInitially, folderMoved⟩ := moving.moved folder waits
    obtain ⟨branch, branchStored, isBranch, isParent⟩ := wellFormed.rooted.branch_of_child initially
      (fun loop => proper (loop.trans isChild))
    obtain rfl := eq_of_fileId wellFormed.rooted.unique branchStored folderInitially
      (isParent.trans isChild)
    exact folderMoved (Plan.Apart.above unmoved
      (below_child isBranch branchStored initially isChild proper))
  rcases moving.others file stored with waitsToo | ⟨initially, unmoved⟩ | ⟨_, below, _⟩
  · exact waitsToo
  · exact absurd unmoved (ofInitial initially)
  · rcases below.cases_last with ⟨_, isDest⟩ | ⟨_, branch, node, _, same, _, _, branchStored,
      member, nodeChild, _⟩
    · obtain rfl := eq_of_fileId moving.unique stored (moving.kept _ destStored stays) isDest
      exact absurd stays (ofInitial destStored)
    · obtain rfl := eq_of_fileId moving.unique stored (mem_settled.mp member).1 same
      obtain rfl := eq_of_fileId moving.unique (mem_settled.mp branchStored).1
        (moving.waits waits) (nodeChild.symm.trans isChild)
      exact absurd waits (mem_settled.mp branchStored).2

theorem of_child (wellFormed : WellFormed plan.initial root)
    (destStored : plan.dest ∈ plan.initial.files) (stays : plan.Unmoved plan.dest)
    {folder file : File} {path : List String} (folderSettled : folder ∈ settled pending state.files)
    (isFolder : folder.isFolder = true)
    (reached : Below (settled pending state.files) plan.dest.id path folder.id)
    (stored : file ∈ state.files) (isChild : file.parentId = folder.id)
    (proper : file.id ≠ folder.id) :
    (file ∈ plan.initial.files ∧
        Below plan.initial.files plan.dest.id (path ++ [file.name]) file.id ∧
        (file ∈ pending ∨ plan.Unmoved file)) ∨
      (file ∉ pending ∧ ((file.isFolder = true ∧ plan.Target true (path ++ [file.name])) ∨
        (file.isFolder = false ∧ ∃ origin ∈ plan.initial.files, origin.id = file.id ∧
          origin.isFolder = false ∧ plan.TargetOf origin (path ++ [file.name])))) := by
  have ofInitial : file ∈ plan.initial.files →
      Below plan.initial.files plan.dest.id (path ++ [file.name]) file.id := by
    intro initially
    obtain ⟨folderInitially, _⟩ :=
      moving.initial_of_child wellFormed folderSettled isFolder initially isChild
    have above := moving.initial_of_below wellFormed reached folder folderInitially
      (mem_settled.mp folderSettled).1 rfl
    exact .child above isFolder folderInitially initially isChild proper
  by_cases waits : file ∈ pending
  · have initially := (moving.moved file waits).1
    exact .inl ⟨initially, ofInitial initially, .inl waits⟩
  rcases moving.others file stored with still | ⟨initially, unmoved⟩ | ⟨target, below, origin⟩
  · exact absurd still waits
  · exact .inl ⟨initially, ofInitial initially, .inr unmoved⟩
  · have here : Below (settled pending state.files) plan.dest.id (path ++ [file.name]) file.id :=
      .child reached isFolder folderSettled (mem_settled.mpr ⟨stored, waits⟩) isChild proper
    obtain rfl := (moving.rooted wellFormed destStored stays).path_unique
      (moving.settled_of_unmoved destStored stays) below here
    exact .inr ⟨waits, origin.imp_left fun ⟨isFolder, _, target⟩ => ⟨isFolder, target⟩⟩

end Moving

end Tree

section Steps

variable {plan : Plan Blob} {root : File} {context : Context} {pending : List File}
  {state : State Blob}

theorem Plan.Placed.mono {rows more : List File} {file : File} (placed : plan.Placed rows file)
    (subset : rows ⊆ more) : plan.Placed more file := by
  obtain ⟨target, below, origin⟩ := placed
  exact ⟨target, below.mono subset, origin⟩

theorem Moving.insert (moving : Moving plan pending state) (new : File) {folder : File}
    {path : List String} (folderSettled : folder ∈ settled pending state.files)
    (isFolder : folder.isFolder = true)
    (reached : Below (settled pending state.files) plan.dest.id path folder.id)
    (isNew : new.id = state.nextId) (newFolder : new.isFolder = true)
    (isChild : new.parentId = folder.id) (target : plan.Target true (path ++ [new.name]))
    (free : ∀ file ∈ state.files, file.name = new.name → file.parentId ≠ folder.id) :
    Moving plan pending
        { state with files := state.files ++ [new], nextId := state.nextId + 1 } ∧
      settled pending state.files ⊆ settled pending (state.files ++ [new]) ∧
      new ∈ settled pending (state.files ++ [new]) ∧
      Below (settled pending (state.files ++ [new])) plan.dest.id (path ++ [new.name]) new.id := by
  have ofOld : ∀ file ∈ state.files, file.id ≠ new.id := fun file member same =>
    absurd (isNew ▸ same ▸ moving.fresh file member) (Nat.lt_irrefl _)
  have notWaits : new ∉ pending := fun waits => ofOld new (moving.waits waits) rfl
  have subset : settled pending state.files ⊆ settled pending (state.files ++ [new]) := by
    intro file member
    obtain ⟨stored, settledFile⟩ := mem_settled.mp member
    exact mem_settled.mpr ⟨List.mem_append_left _ stored, settledFile⟩
  have newSettled : new ∈ settled pending (state.files ++ [new]) :=
    mem_settled.mpr ⟨List.mem_append_right _ List.mem_cons_self, notWaits⟩
  have proper : new.id ≠ folder.id := fun same =>
    ofOld folder (mem_settled.mp folderSettled).1 same.symm
  have below : Below (settled pending (state.files ++ [new])) plan.dest.id (path ++ [new.name])
      new.id :=
    .child (reached.mono subset) isFolder (subset folderSettled) newSettled isChild proper
  have cases_mem : ∀ {file}, file ∈ state.files ++ [new] → file ∈ state.files ∨ file = new :=
    fun member => (List.mem_append.mp member).imp_right List.mem_singleton.mp
  refine ⟨?_, subset, newSettled, below⟩
  constructor
  · rw [List.map_append, List.nodup_append]
    refine ⟨moving.unique, List.nodup_singleton _, ?_⟩
    intro id member other isOther same
    obtain ⟨file, stored, rfl⟩ := List.mem_map.mp member
    exact ofOld file stored (same.trans (List.mem_singleton.mp isOther))
  · intro file member
    rcases cases_mem member with stored | rfl
    · exact Nat.lt_succ_of_lt (moving.fresh file stored)
    · exact isNew ▸ Nat.lt_succ_self _
  · exact Nat.le_succ_of_le moving.later
  · exact fun file waits => List.mem_append_left _ (moving.waits waits)
  · exact moving.moved
  · exact fun file initially stays => List.mem_append_left _ (moving.kept file initially stays)
  · intro file member
    rcases cases_mem member with stored | rfl
    · exact (moving.others file stored).imp_right fun other => other.imp_right fun placed =>
        placed.mono subset
    · exact .inr (.inr ⟨_, below, .inl ⟨newFolder, isNew ▸ moving.later, target⟩⟩)
  · intro file initially plain
    obtain ⟨row, stored, same, rowPlain, blob⟩ := moving.blobs file initially plain
    exact ⟨row, List.mem_append_left _ stored, same, rowPlain, blob⟩
  · intro file initially other otherInitially plain otherPlain blob otherBlob isStored otherStored
      row member otherRow otherMember same otherSame address
    have old : ∀ {row file : File}, file ∈ plan.initial.files → file.isFolder = false →
        row ∈ state.files ++ [new] → row.id = file.id → row ∈ state.files := by
      intro row file initially plain member same
      rcases cases_mem member with stored | rfl
      · exact stored
      · obtain ⟨old, oldStored, sameId, _⟩ := moving.blobs file initially plain
        exact absurd (sameId.trans same.symm) (ofOld old oldStored)
    exact moving.apart file initially other otherInitially plain otherPlain blob otherBlob isStored
      otherStored row (old initially plain member same) otherRow
      (old otherInitially otherPlain otherMember otherSame) same otherSame address
  · intro strict file member other otherMember sameParent sameName fileProper otherProper
    have split : ∀ {file}, file ∈ settled pending (state.files ++ [new]) →
        file ∈ settled pending state.files ∨ file = new := by
      intro file member
      obtain ⟨stored, notWaits⟩ := mem_settled.mp member
      exact (cases_mem stored).imp_left fun old => mem_settled.mpr ⟨old, notWaits⟩
    rcases split member with old | rfl
    · rcases split otherMember with otherOld | rfl
      · exact moving.names strict file old other otherOld sameParent sameName fileProper otherProper
      · exact absurd (sameParent.trans isChild) (free file (mem_settled.mp old).1 sameName)
    · rcases split otherMember with otherOld | rfl
      · exact absurd (sameParent.symm.trans isChild)
          (free other (mem_settled.mp otherOld).1 sameName.symm)
      · rfl

theorem Moving.delete (moving : Moving plan pending state) {folder : File}
    (waits : folder ∈ pending) (isFolder : folder.isFolder = true) :
    Moving plan (deleteById folder.id pending)
        { state with files := deleteById folder.id state.files } ∧
      settled pending state.files ⊆
        settled (deleteById folder.id pending) (deleteById folder.id state.files) := by
  have subset : settled pending state.files ⊆
      settled (deleteById folder.id pending) (deleteById folder.id state.files) := by
    intro file member
    obtain ⟨stored, notWaits⟩ := mem_settled.mp member
    have other : file.id ≠ folder.id := fun same =>
      notWaits (eq_of_fileId moving.unique stored (moving.waits waits) same ▸ waits)
    exact mem_settled.mpr ⟨mem_deleteById.mpr ⟨stored, other⟩,
      fun still => notWaits (mem_deleteById.mp still).1⟩
  have back : settled (deleteById folder.id pending) (deleteById folder.id state.files) ⊆
      settled pending state.files := by
    intro file member
    obtain ⟨stored, notWaits⟩ := mem_settled.mp member
    obtain ⟨stored, other⟩ := mem_deleteById.mp stored
    exact mem_settled.mpr ⟨stored, fun still => notWaits (mem_deleteById.mpr ⟨still, other⟩)⟩
  refine ⟨?_, subset⟩
  constructor
  · exact moving.unique.sublist (List.filter_sublist.map _)
  · exact fun file member => moving.fresh file (mem_deleteById.mp member).1
  · exact moving.later
  · intro file member
    obtain ⟨still, other⟩ := mem_deleteById.mp member
    exact mem_deleteById.mpr ⟨moving.waits still, other⟩
  · exact fun file member => moving.moved file (mem_deleteById.mp member).1
  · intro file initially stays
    refine mem_deleteById.mpr ⟨moving.kept file initially stays, fun same => ?_⟩
    obtain rfl := eq_of_fileId moving.unique (moving.kept file initially stays)
      (moving.waits waits) same
    exact (moving.moved _ waits).2 stays
  · intro file member
    obtain ⟨stored, other⟩ := mem_deleteById.mp member
    rcases moving.others file stored with still | unmoved | placed
    · exact .inl (mem_deleteById.mpr ⟨still, other⟩)
    · exact .inr (.inl unmoved)
    · exact .inr (.inr (placed.mono subset))
  · intro file initially plain
    obtain ⟨row, stored, same, rowPlain, blob⟩ := moving.blobs file initially plain
    refine ⟨row, mem_deleteById.mpr ⟨stored, fun hit => ?_⟩, same, rowPlain, blob⟩
    obtain rfl := eq_of_fileId moving.unique stored (moving.waits waits) hit
    exact absurd (isFolder.symm.trans rowPlain) nofun
  · intro file initially other otherInitially plain otherPlain blob otherBlob isStored otherStored
      row member otherRow otherMember
    exact moving.apart file initially other otherInitially plain otherPlain blob otherBlob isStored
      otherStored row (mem_deleteById.mp member).1 otherRow (mem_deleteById.mp otherMember).1
  · exact fun strict file member other otherMember =>
      moving.names strict file (back member) other (back otherMember)

/-- How the objects change when a file is placed: not at all, or the object of the file is moved to
a free address. -/
def ObjectMoved (plan : Plan Blob) (before after : Dict Address Blob) (file row : File) : Prop :=
  (after = before ∧ row.address = file.address) ∨
    ∃ blob, plan.Stored file blob ∧ before.get? row.address = none ∧ ∀ address, after.get? address =
      if address = file.address then none
      else if address = row.address then some blob else before.get? address

theorem Moving.place (wellFormed : WellFormed plan.initial root)
    (destStored : plan.dest ∈ plan.initial.files) (clear : plan.Clear context)
    (moving : Moving plan pending state) (change : File → File) {folder file row : File}
    {path : List String} {objects : Dict Address Blob}
    (folderSettled : folder ∈ settled pending state.files) (isFolder : folder.isFolder = true)
    (reached : Below (settled pending state.files) plan.dest.id path folder.id)
    (waits : file ∈ pending) (plain : file.isFolder = false)
    (sameIds : ∀ other, (change other).id = other.id) (isRow : change file = row)
    (rowPlain : row.isFolder = false) (isChild : row.parentId = folder.id)
    (target : plan.TargetOf file (path ++ [row.name]))
    (object : ObjectMoved plan state.objects objects file row) :
    Moving plan (deleteById file.id pending)
        { state with files := updateById file.id change state.files, objects } ∧
      settled pending state.files ⊆
        settled (deleteById file.id pending) (updateById file.id change state.files) ∧
      Below (settled (deleteById file.id pending) (updateById file.id change state.files))
        plan.dest.id (path ++ [row.name]) file.id := by
  obtain ⟨initially, isMoved⟩ := moving.moved file waits
  have fileStored := moving.waits waits
  have sameId : row.id = file.id := isRow ▸ sameIds file
  have cases_mem : ∀ {other}, other ∈ updateById file.id change state.files →
      (other ∈ state.files ∧ other.id ≠ file.id) ∨ other = row := by
    intro other member
    rcases mem_updateById.mp member with old | ⟨old, stored, same, rfl⟩
    · exact .inl old
    · exact .inr (eq_of_fileId moving.unique stored fileStored same ▸ isRow)
  have rowStored : row ∈ updateById file.id change state.files :=
    mem_updateById.mpr (.inr ⟨file, fileStored, rfl, isRow⟩)
  have keep : ∀ {other}, other ∈ state.files → other.id ≠ file.id →
      other ∈ updateById file.id change state.files :=
    fun stored different => mem_updateById.mpr (.inl ⟨stored, different⟩)
  have notFile : ∀ {other}, other ∈ settled pending state.files → other.id ≠ file.id := by
    intro other member same
    obtain ⟨stored, notWaits⟩ := mem_settled.mp member
    exact notWaits (eq_of_fileId moving.unique stored fileStored same ▸ waits)
  have subset : settled pending state.files ⊆
      settled (deleteById file.id pending) (updateById file.id change state.files) := by
    intro other member
    obtain ⟨stored, notWaits⟩ := mem_settled.mp member
    exact mem_settled.mpr ⟨keep stored (notFile member),
      fun still => notWaits (mem_deleteById.mp still).1⟩
  have rowSettled : row ∈
      settled (deleteById file.id pending) (updateById file.id change state.files) :=
    mem_settled.mpr ⟨rowStored, fun still => (mem_deleteById.mp still).2 sameId⟩
  have split : ∀ {other}, other ∈
      settled (deleteById file.id pending) (updateById file.id change state.files) →
      other ∈ settled pending state.files ∨ other = row := by
    intro other member
    obtain ⟨stored, notWaits⟩ := mem_settled.mp member
    refine (cases_mem stored).imp_left fun ⟨old, different⟩ => ?_
    exact mem_settled.mpr ⟨old, fun still => notWaits (mem_deleteById.mpr ⟨still, different⟩)⟩
  have below : Below (settled (deleteById file.id pending) (updateById file.id change state.files))
      plan.dest.id (path ++ [row.name]) row.id :=
    .child (reached.mono subset) isFolder (subset folderSettled) rowSettled isChild
      fun same => notFile folderSettled (same.symm.trans sameId)
  have rowOf : ∀ {other old}, other ∈ plan.initial.files →
      old ∈ updateById file.id change state.files → old.id = other.id →
      (other = file ∧ old = row) ∨ (other ≠ file ∧ old ∈ state.files) := by
    intro other old otherInitially member same
    rcases cases_mem member with ⟨stored, different⟩ | rfl
    · exact .inr ⟨fun hit => different (hit ▸ same), stored⟩
    · exact .inl ⟨eq_of_fileId wellFormed.rooted.unique otherInitially initially
        (same.symm.trans sameId), rfl⟩
  have fileFound : ∀ {blob}, plan.Stored file blob →
      state.objects.get? file.address = some blob := by
    intro blob stored
    obtain ⟨old, oldStored, same, _, found⟩ := moving.blobs file initially plain
    exact eq_of_fileId moving.unique oldStored fileStored same ▸ found blob stored
  -- Other files keep their blobs, at other addresses than the placed one.
  have elsewhere : ∀ {other old blob}, other ∈ plan.initial.files → other.isFolder = false →
      plan.Stored other blob → old ∈ state.files → old.id = other.id → other ≠ file →
      state.objects.get? old.address = some blob →
      objects.get? old.address = some blob ∧
        ∀ fileBlob, plan.Stored file fileBlob → old.address ≠ row.address := by
    intro other old blob otherInitially otherPlain stored oldStored same different found
    have notOld : ∀ fileBlob, plan.Stored file fileBlob → old.address ≠ file.address :=
      fun fileBlob fileBlobStored clash => different
        (moving.apart other otherInitially file initially otherPlain plain blob fileBlob stored
          fileBlobStored old oldStored file fileStored same rfl clash)
    rcases object with ⟨rfl, sameAddress⟩ | ⟨fileBlob, fileBlobStored, free, moved⟩
    · exact ⟨found, sameAddress ▸ notOld⟩
    · have notNew : old.address ≠ row.address := fun clash => by
        rw [clash, free] at found
        exact nomatch found
      rw [moved, if_neg (notOld fileBlob fileBlobStored), if_neg notNew]
      exact ⟨found, fun _ _ => notNew⟩
  refine ⟨?_, subset, sameId ▸ below⟩
  constructor
  · change ((updateById file.id change state.files).map File.id).Nodup
    rw [ids_updateById sameIds]
    exact moving.unique
  · intro other member
    rcases cases_mem member with ⟨old, _⟩ | rfl
    · exact moving.fresh other old
    · exact sameId ▸ moving.fresh file fileStored
  · exact moving.later
  · intro other member
    obtain ⟨still, different⟩ := mem_deleteById.mp member
    exact keep (moving.waits still) different
  · exact fun other member => moving.moved other (mem_deleteById.mp member).1
  · intro other otherInitially stays
    exact keep (moving.kept other otherInitially stays)
      (notFile (moving.settled_of_unmoved otherInitially stays))
  · intro other member
    rcases cases_mem member with ⟨old, different⟩ | rfl
    · rcases moving.others other old with still | unmoved | placed
      · exact .inl (mem_deleteById.mpr ⟨still, different⟩)
      · exact .inr (.inl unmoved)
      · exact .inr (.inr (placed.mono subset))
    · exact .inr (.inr ⟨_, below, .inr ⟨rowPlain, file, initially, sameId.symm, plain, target⟩⟩)
  · intro other otherInitially otherPlain
    obtain ⟨old, oldStored, same, oldPlain, found⟩ := moving.blobs other otherInitially otherPlain
    by_cases isFile : other = file
    · subst isFile
      refine ⟨row, rowStored, sameId, rowPlain, fun blob stored => ?_⟩
      rcases object with ⟨rfl, sameAddress⟩ | ⟨fileBlob, fileBlobStored, free, moved⟩
      · exact sameAddress ▸ fileFound stored
      · have different : row.address ≠ other.address := fun clash => by
          rw [clash, fileFound stored] at free
          exact nomatch free
        change objects.get? row.address = some blob
        rw [moved, if_neg different, if_pos rfl]
        exact fileBlobStored.symm.trans stored
    · have notHit : old.id ≠ file.id := fun hit => isFile
        (eq_of_fileId wellFormed.rooted.unique otherInitially initially (same.symm.trans hit))
      exact ⟨old, keep oldStored notHit, same, oldPlain, fun blob stored =>
        (elsewhere otherInitially otherPlain stored oldStored same isFile (found blob stored)).1⟩
  · intro one oneInitially other otherInitially onePlain otherPlain blob otherBlob oneStored
      otherStored oneRow oneMember otherRow otherMember oneSame otherSame address
    have foundAt : ∀ {some row blob}, some ∈ plan.initial.files → some.isFolder = false →
        plan.Stored some blob → row ∈ state.files → row.id = some.id →
        state.objects.get? row.address = .some blob := by
      intro some row blob initially plain stored member same
      obtain ⟨again, againStored, againSame, _, found⟩ := moving.blobs some initially plain
      exact eq_of_fileId moving.unique againStored member (againSame.trans same.symm) ▸
        found blob stored
    rcases rowOf oneInitially oneMember oneSame with ⟨rfl, rfl⟩ | ⟨oneNot, oneOld⟩
    · rcases rowOf otherInitially otherMember otherSame with ⟨rfl, rfl⟩ | ⟨otherNot, otherOld⟩
      · rfl
      · exact absurd address.symm ((elsewhere otherInitially otherPlain otherStored otherOld
          otherSame otherNot (foundAt otherInitially otherPlain otherStored otherOld otherSame)).2
            blob oneStored)
    · rcases rowOf otherInitially otherMember otherSame with ⟨rfl, rfl⟩ | ⟨otherNot, otherOld⟩
      · exact absurd address ((elsewhere oneInitially onePlain oneStored oneOld
          oneSame oneNot (foundAt oneInitially onePlain oneStored oneOld oneSame)).2
            otherBlob otherStored)
      · exact moving.apart one oneInitially other otherInitially onePlain otherPlain blob otherBlob
          oneStored otherStored oneRow oneOld otherRow otherOld oneSame otherSame address
  · intro strict one oneMember other otherMember sameParent sameName oneProper otherProper
    have noClash : ∀ {old}, old ∈ settled pending state.files → old.parentId = row.parentId →
        old.name = row.name → old.id ≠ old.parentId → False := by
      intro old member sameParent sameName proper
      have oldChild := sameParent.trans isChild
      rcases moving.of_child wellFormed destStored clear.stays folderSettled isFolder reached
        (mem_settled.mp member).1 oldChild (oldChild ▸ proper) with
        ⟨oldInitially, at_target, still | unmoved⟩ | ⟨_, ⟨_, folderTarget⟩ | ⟨_, origin,
          originInitially, originId, originPlain, originTarget⟩⟩
      · exact (mem_settled.mp member).2 still
      · exact strict.free file initially plain _ target old oldInitially unmoved
          (sameName ▸ at_target)
      · exact clear.kinds _ (sameName ▸ folderTarget) ⟨file, initially, plain, target⟩
      · have isFile := strict.single origin originInitially file initially originPlain plain _
          originTarget (sameName.symm ▸ target)
        exact notFile member (originId.symm.trans (congrArg File.id isFile))
    rcases split oneMember with old | rfl
    · rcases split otherMember with otherOld | rfl
      · exact moving.names strict one old other otherOld sameParent sameName oneProper otherProper
      · exact (noClash old sameParent sameName oneProper).elim
    · rcases split otherMember with otherOld | rfl
      · exact (noClash otherOld sameParent.symm sameName.symm otherProper).elim
      · rfl

end Steps

end RagFlow.Files
