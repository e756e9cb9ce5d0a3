import RagFlow.Files.FreeNames
import RagFlow.Files.Tree

/-!
# Uploading files

`upload_file` of the API server and `UploadFile` of the Go server, for one file.  The name of the
file can be a path; folders of it that are missing are made.
-/

namespace RagFlow.Files.Uploading

open Lib Names

variable {Blob : Type}

inductive Failure
  | error (message : String)
  | crash
  deriving DecidableEq

abbrev Outcome (Blob : Type) := State Blob × Except Failure File

def getByPfIdName (files : List File) (id : ℕ) (name : Text) : Option File :=
  files.find? fun file => file.parentId = id && file.name = String.ofList name

/-- The ids that `get_id_list_by_id` adds for the names from `count` on. -/
def getIdListById (files : List File) : ℕ → List Text → List ℕ
  | _, [] => []
  | id, name :: names =>
    match getByPfIdName files id name with
    | some file => file.id :: getIdListById files file.id names
    | none => []

/-- `create_folder` for the names from `count` on, without the last; the folder that it ends in. -/
def createFolder (tenantId : String) : State Blob → ℕ → List Text → State Blob × ℕ
  | state, folder, [] => (state, folder)
  | state, folder, name :: names =>
    let made : File :=
      { id := state.nextId, parentId := folder, tenantId, isFolder := true,
        name := String.ofList name, location := "", fromDataset := false }
    createFolder tenantId { state with files := state.files ++ [made], nextId := state.nextId + 1 }
      made.id names

def taken (files : List File) (folder : ℕ) (name : Text) : Bool :=
  (getByPfIdName files folder name).isSome

def insertFile (tenantId : String) (state : State Blob) (folder : ℕ) (last name : Text)
    (blob : Blob) : State Blob × File :=
  let location := freeLocation state.objects folder (String.ofList last)
  let file : File :=
    { id := state.nextId, parentId := folder, tenantId, isFolder := false,
      name := String.ofList name, location, fromDataset := false }
  ({ state with
      files := state.files ++ [file]
      objects := put state.objects (folder, location) blob
      nextId := state.nextId + 1 }, file)

def uploadFile (tenantId : String) (state : State Blob) (pfId : ℕ) (filename : Text)
    (blob : Blob) : Outcome Blob :=
  match getById state.files pfId with
  | none => (state, .error (.error "Can't find this folder!"))
  | some pfFolder =>
    let names :=
      if filename = [] then [pfFolder.name.toList, filename] else ('/' :: filename).splitOn '/'
    let ids := pfId :: getIdListById state.files pfId (names.drop 1)
    let position := if names.length ≠ ids.length then ids.length - 1 else ids.length - 2
    match ids[position]?.bind (getById state.files) with
    | none => (state, .error (.error "Folder not found!"))
    | some file =>
      let made := createFolder tenantId state file.id (names.dropLast.drop ids.length)
      let last := names.getLast?.getD []
      match duplicate_name (taken made.1.files made.2) last with
      | .error raised => (made.1, .error (.error (String.ofList raised)))
      | .ok name =>
        let inserted := insertFile tenantId made.1 made.2 last name blob
        (inserted.1, .ok inserted.2)

def parseFilePath (filename : Text) : List Text :=
  let filename := match filename with
    | '/' :: filename => filename
    | filename => filename
  (filename.splitOn '/').filter (· ≠ [])

def uploadFileGo (tenantId : String) (state : State Blob) (parentId : ℕ) (filename : Text)
    (blob : Blob) : Outcome Blob :=
  match getById state.files parentId with
  | none => (state, .error (.error "Can't find this folder!"))
  | some _ =>
    if filename = [] then (state, .error (.error "No file selected!"))
    else
      let names := parseFilePath filename
      let ids := parentId :: getIdListById state.files parentId (names.drop 1)
      let index : ℤ := if names.length ≠ ids.length - 1 then ids.length - 1 else ids.length - 2
      if index < 0 then (state, .error .crash)
      else
        match ids[index.toNat]?.bind (getById state.files) with
        | none => (state, .error (.error "Folder not found!"))
        | some file =>
          let made := createFolder tenantId state file.id (names.dropLast.drop ids.length)
          match names.getLast? with
          | none => (made.1, .error .crash)
          | some last =>
            let name := getUniqueFilename (taken made.1.files made.2) made.1.files.length last
            let inserted := insertFile tenantId made.1 made.2 last name blob
            (inserted.1, .ok inserted.2)

/-- The servers store the file with the same name in the same folder and make the same folders. -/
def Agree (tenantId : String) (state : State Blob) (folder : ℕ) (filename : Text) (blob : Blob) :
    Prop :=
  ∃ next file, uploadFile tenantId state folder filename blob = (next, .ok file) ∧
    uploadFileGo tenantId state folder filename blob = (next, .ok file)

/-- All parts of the path are one name, and all but the last are there. -/
def Repeats (files : List File) (folder : ℕ) (filename : Text) : Prop :=
  ∃ name depth, name ≠ [] ∧ filename.splitOn '/' = List.replicate (depth + 1) name ∧
    (getIdListById files folder (List.replicate (depth + 1) name)).length = depth

theorem length_getIdListById_le (files : List File) (id : ℕ) (names : List Text) :
    (getIdListById files id names).length ≤ names.length := by
  induction names generalizing id with
  | nil => exact Nat.le_refl 0
  | cons name names ih =>
    rw [getIdListById]
    split
    · exact Nat.succ_le_succ (ih _)
    · exact Nat.zero_le _

theorem taken_iff_lt (files : List File) {id node depth : ℕ} {name : Text} {names : List Text}
    (isNode : (id :: getIdListById files id names)[depth]? = some node)
    (isNext : names[depth]? = some name) :
    taken files node name = true ↔ depth < (getIdListById files id names).length := by
  induction names generalizing id depth with
  | nil => simp at isNext
  | cons first names ih =>
    rw [getIdListById] at isNode ⊢
    cases depth with
    | zero =>
      obtain rfl : id = node := by simpa using isNode
      obtain rfl : first = name := by simpa using isNext
      rw [taken]
      cases getByPfIdName files id first <;> simp
    | succ depth =>
      cases found : getByPfIdName files id first with
      | none => simp [found] at isNode
      | some file =>
        simp only [found, List.getElem?_cons_succ] at isNode isNext ⊢
        rw [ih isNode isNext, List.length_cons, Nat.add_lt_add_iff_right]

section Trees

variable {files : List File} {root folder : File} (rooted : ParentTree.Rooted shape files root)
  (isSlash : root.name = "/")
include rooted

theorem getById_of_mem {file : File} (isMem : file ∈ files) : getById files file.id = some file := by
  have isThere : (files.find? fun other => other.id = file.id).isSome :=
    List.find?_isSome.mpr ⟨file, isMem, by simp⟩
  obtain ⟨other, isOther⟩ := Option.isSome_iff_exists.mp isThere
  obtain ⟨otherMem, sameId⟩ := getById_eq_some isOther
  rw [getById, isOther, ParentTree.eq_of_id rooted.unique otherMem isMem sameId]

include isSlash

theorem below_getByPfIdName (isMem : folder ∈ files) {name : Text} (plain : '/' ∉ name)
    {file : File} (isFound : getByPfIdName files folder.id name = some file) :
    file ∈ files ∧ Below files folder.id [String.ofList name] file.id := by
  have isMemFile := List.mem_of_find?_eq_some isFound
  have isChild := List.find?_some isFound
  simp only [Bool.and_eq_true, decide_eq_true_eq] at isChild
  obtain ⟨path, reached⟩ := rooted.reached file isMemFile
  refine ⟨isMemFile, ?_⟩
  rcases reached.cases_last with ⟨-, isRoot⟩ | ⟨_, branch, node, -, sameId, -, isBranch, isStored,
    isNode, child, proper⟩
  · have same := ParentTree.eq_of_id rooted.unique isMemFile rooted.stored isRoot
    refine absurd ?_ plain
    have named : String.ofList name = "/" := by rw [← isChild.2, same, isSlash]
    rw [← String.toList_ofList (l := name), named]
    decide
  · have isNode' := ParentTree.eq_of_id rooted.unique isNode isMemFile sameId.symm
    subst isNode'
    have isBranch' := ParentTree.eq_of_id rooted.unique isStored isMem (child.symm.trans isChild.1)
    subst isBranch'
    have step := ParentTree.Below.step isBranch isStored isNode child proper
    rw [← isChild.2]
    exact step

theorem below_getIdListById {names : List Text} (plain : ∀ name ∈ names, '/' ∉ name)
    (isMem : folder ∈ files) {depth : ℕ}
    (isReached : depth ≤ (getIdListById files folder.id names).length) :
    ∃ file ∈ files, (folder.id :: getIdListById files folder.id names)[depth]? = some file.id ∧
      Below files folder.id ((names.take depth).map String.ofList) file.id := by
  induction names generalizing folder depth with
  | nil =>
    obtain rfl : depth = 0 := Nat.le_zero.mp isReached
    exact ⟨folder, isMem, rfl, .refl⟩
  | cons name names ih =>
    obtain ⟨isPlain, plainLater⟩ := List.forall_mem_cons.mp plain
    cases depth with
    | zero => exact ⟨folder, isMem, rfl, .refl⟩
    | succ depth =>
      rw [getIdListById] at isReached ⊢
      cases found : getByPfIdName files folder.id name with
      | none => simp [found] at isReached
      | some child =>
        obtain ⟨isChild, below⟩ := below_getByPfIdName rooted isSlash isMem isPlain found
        simp only [found, List.length_cons, Nat.add_le_add_iff_right] at isReached ⊢
        obtain ⟨file, isFile, isNode, belowChild⟩ := ih plainLater isChild isReached
        refine ⟨file, isFile, isNode, ?_⟩
        rw [List.take_succ_cons, List.map_cons, ← List.singleton_append]
        exact below.trans belowChild

end Trees

theorem not_mem_of_mem_splitOn {filename part : Text} (isPart : part ∈ filename.splitOn '/') :
    '/' ∉ part := by
  induction filename generalizing part with
  | nil =>
    rw [List.splitOn_nil, List.mem_singleton] at isPart
    exact isPart ▸ List.not_mem_nil
  | cons char filename ih =>
    rw [List.splitOn_cons_eq_if_modifyHead] at isPart
    split at isPart
    · rcases List.mem_cons.mp isPart with rfl | isPart
      · exact List.not_mem_nil
      · exact ih isPart
    · rename_i isOther
      obtain ⟨first, parts, isSplit⟩ :=
        List.exists_cons_of_ne_nil (List.splitOn_ne_nil '/' filename)
      rw [isSplit] at isPart ih
      rcases List.mem_cons.mp isPart with rfl | isPart
      · have isPlain := ih List.mem_cons_self
        have isNoSlash : '/' ≠ char := by
          rintro rfl
          exact isOther (by decide)
        exact fun isMem => (List.mem_cons.mp isMem).elim isNoSlash isPlain
      · exact ih (List.mem_cons_of_mem _ isPart)

theorem parseFilePath_eq (filename : Text) :
    parseFilePath filename = (filename.splitOn '/').filter (· ≠ []) := by
  unfold parseFilePath
  dsimp only
  split
  · rw [List.splitOn_cons_eq_if_modifyHead, if_pos (by decide),
      List.filter_cons_of_neg (by simp)]
  · rfl

theorem createFolder_spec (tenantId : String) (state : State Blob) (id : ℕ) (names : List Text) :
    ∃ rows : List File, (createFolder tenantId state id names).1.files = state.files ++ rows ∧
      rows.length = names.length ∧
      ∀ file : File, file.parentId = (createFolder tenantId state id names).2 →
        (rows ++ [file]).head?.map (·.parentId) = some id := by
  induction names generalizing state id with
  | nil =>
    refine ⟨[], (List.append_nil _).symm, rfl, fun file isIn => ?_⟩
    exact congrArg some isIn
  | cons name names ih =>
    let made : File :=
      { id := state.nextId, parentId := id, tenantId, isFolder := true,
        name := String.ofList name, location := "", fromDataset := false }
    obtain ⟨rows, files, length, -⟩ := ih
      { state with files := state.files ++ [made], nextId := state.nextId + 1 } made.id
    refine ⟨made :: rows, ?_, congrArg (· + 1) length, fun _ _ => rfl⟩
    rw [createFolder, files, List.append_assoc]
    rfl

theorem eq_replicate_of_take {first : Text} {rest : List Text}
    (shifted : (first :: rest).take rest.length = rest) :
    rest = List.replicate rest.length first := by
  induction rest generalizing first with
  | nil => rfl
  | cons second rest ih =>
    rw [List.length_cons, List.take_succ_cons] at shifted
    obtain ⟨rfl, later⟩ := List.cons.inj shifted
    rw [List.length_cons, List.replicate_succ, ← ih later]

theorem getIdListById_take (files : List File) (id : ℕ) (names more : List Text) :
    getIdListById files id names = (getIdListById files id (names ++ more)).take names.length := by
  induction names generalizing id with
  | nil => rfl
  | cons name names ih =>
    rw [List.cons_append, getIdListById, getIdListById]
    split
    · rw [List.length_cons, List.take_succ_cons, ← ih]
    · rfl

section Resolving

variable {state : State Blob} {root folder : File} {filename : Text}
  (rooted : ParentTree.Rooted shape state.files root) (isSlash : root.name = "/")
  (isMem : folder ∈ state.files)
include rooted isSlash isMem

theorem uploadFile_eq (tenantId : String) (blob : Blob) (nonempty : filename ≠ [])
    {parts : List Text} (split : filename.splitOn '/' = parts) {found : ℕ}
    (walked : (getIdListById state.files folder.id parts).length = found) :
    ∃ file ∈ state.files,
      (folder.id :: getIdListById state.files folder.id parts)[min found (parts.length - 1)]? =
        some file.id ∧
      Below state.files folder.id ((parts.take (min found (parts.length - 1))).map String.ofList)
        file.id ∧
      uploadFile tenantId state folder.id filename blob =
        let made := createFolder tenantId state file.id (parts.dropLast.drop found)
        let last := parts.getLast?.getD []
        match duplicate_name (taken made.1.files made.2) last with
        | .error raised => (made.1, .error (.error (String.ofList raised)))
        | .ok name =>
          let inserted := insertFile tenantId made.1 made.2 last name blob
          (inserted.1, .ok inserted.2) := by
  have isSome : parts ≠ [] := split ▸ List.splitOn_ne_nil _ _
  have plain : ∀ part ∈ parts, '/' ∉ part := fun part isPart =>
    not_mem_of_mem_splitOn (split ▸ isPart)
  have bound : found ≤ parts.length := walked ▸ length_getIdListById_le _ _ _
  have parted : ('/' :: filename).splitOn '/' = [] :: parts := by
    rw [List.splitOn_cons_eq_if_modifyHead, if_pos (by decide), split]
  have isReached : min found (parts.length - 1) ≤
      (getIdListById state.files folder.id parts).length := walked ▸ min_le_left _ _
  obtain ⟨file, isFile, isNode, below⟩ := below_getIdListById rooted isSlash plain isMem isReached
  refine ⟨file, isFile, isNode, below, ?_⟩
  have positive := List.length_pos_iff.mpr isSome
  have position : (if parts.length + 1 ≠ found + 1 then found + 1 - 1 else found + 1 - 2) =
      min found (parts.length - 1) := by
    split <;> omega
  rw [uploadFile, getById_of_mem rooted isMem]
  simp only [if_neg nonempty, parted, List.drop_succ_cons, List.drop_zero, List.length_cons, walked,
    position, isNode, Option.bind_some, getById_of_mem rooted isFile,
    List.dropLast_cons_of_ne_nil isSome, List.getLast?_cons_of_ne_nil isSome]

theorem uploadFileGo_eq (tenantId : String) (blob : Blob) {first : Text} {rest : List Text}
    (parsed : parseFilePath filename = first :: rest) {found : ℕ}
    (walked : (getIdListById state.files folder.id rest).length = found) :
    ∃ file ∈ state.files,
      (folder.id :: getIdListById state.files folder.id rest)[found]? = some file.id ∧
      Below state.files folder.id ((rest.take found).map String.ofList) file.id ∧
      uploadFileGo tenantId state folder.id filename blob =
        let made := createFolder tenantId state file.id (rest.dropLast.drop found)
        let last := (first :: rest).getLast (List.cons_ne_nil _ _)
        let name := getUniqueFilename (taken made.1.files made.2) made.1.files.length last
        let inserted := insertFile tenantId made.1 made.2 last name blob
        (inserted.1, .ok inserted.2) := by
  have plain : ∀ part ∈ rest, '/' ∉ part := by
    intro part isPart
    have isParsed : part ∈ parseFilePath filename := parsed ▸ List.mem_cons_of_mem _ isPart
    rw [parseFilePath_eq] at isParsed
    exact not_mem_of_mem_splitOn (List.mem_of_mem_filter isParsed)
  have bound : found ≤ rest.length := walked ▸ length_getIdListById_le _ _ _
  have nonempty : filename ≠ [] := by
    rintro rfl
    cases parsed
  obtain ⟨file, isFile, isNode, below⟩ :=
    below_getIdListById rooted isSlash plain isMem (le_of_eq walked.symm)
  refine ⟨file, isFile, isNode, below, ?_⟩
  have missing : ((first :: rest).dropLast).drop (found + 1) = rest.dropLast.drop found := by
    cases rest with
    | nil => simp
    | cons second rest => rfl
  have isOther : rest.length + 1 ≠ found + 1 - 1 := by omega
  rw [uploadFileGo, getById_of_mem rooted isMem]
  simp only [if_neg nonempty, parsed, List.drop_one, List.tail_cons, List.length_cons, walked,
    if_pos isOther, missing, List.getLast?_eq_some_getLast (List.cons_ne_nil first rest)]
  rw [if_neg (by omega)]
  simp [isNode, getById_of_mem rooted isFile]

theorem repeats_of_agree {tenantId : String} {blob : Blob}
    (agree : Agree tenantId state folder.id filename blob) :
    Repeats state.files folder.id filename := by
  obtain ⟨next, file, python, go⟩ := agree
  have nonempty : filename ≠ [] := by
    rintro rfl
    simp [uploadFileGo, getById_of_mem rooted isMem] at go
  cases parsed : parseFilePath filename with
  | nil => simp [uploadFileGo, getById_of_mem rooted isMem, nonempty, parsed, getIdListById] at go
  | cons first rest =>
    generalize split : filename.splitOn '/' = parts
    obtain ⟨node, -, isNode, below, isPython⟩ := uploadFile_eq rooted isSlash isMem tenantId blob
      nonempty split rfl
    obtain ⟨nodeGo, -, -, belowGo, isGo⟩ := uploadFileGo_eq rooted isSlash isMem tenantId blob
      parsed rfl
    have bound := length_getIdListById_le state.files folder.id parts
    have boundGo := length_getIdListById_le state.files folder.id rest
    generalize walked : (getIdListById state.files folder.id parts).length = found at *
    generalize walkedGo : (getIdListById state.files folder.id rest).length = foundGo at *
    have filtered := parseFilePath_eq filename
    rw [parsed, split] at filtered
    have isFirst : first ∈ parts.filter (· ≠ []) := filtered ▸ List.mem_cons_self
    have firstMem := List.mem_of_mem_filter isFirst
    have plain : '/' ∉ first := not_mem_of_mem_splitOn (split ▸ firstMem)
    have isNamed : first ≠ [] := by simpa using (List.mem_filter.mp isFirst).2
    have fewer : rest.length + 1 ≤ parts.length := by
      have lengths := congrArg List.length filtered
      rw [List.length_cons] at lengths
      exact lengths ▸ List.length_filter_le _ _
    rw [isPython] at python
    rw [isGo] at go
    cases renamed : duplicate_name
        (taken (createFolder tenantId state node.id (parts.dropLast.drop found)).1.files
          (createFolder tenantId state node.id (parts.dropLast.drop found)).2)
        (parts.getLast?.getD []) with
    | error raised => simp [renamed] at python
    | ok name =>
      simp only [renamed, Prod.mk.injEq, Except.ok.injEq] at python go
      obtain ⟨isNext, isFile⟩ := python
      obtain ⟨isNextGo, isFileGo⟩ := go
      obtain ⟨rows, files, length, above⟩ :=
        createFolder_spec tenantId state node.id (parts.dropLast.drop found)
      obtain ⟨rowsGo, filesGo, lengthGo, aboveGo⟩ :=
        createFolder_spec tenantId state nodeGo.id (rest.dropLast.drop foundGo)
      -- the same rows were added, so they begin in the same node
      have sameRows : rows ++ [file] = rowsGo ++ [file] := by
        have whole := congrArg (·.files) (isNext.trans isNextGo.symm)
        simp only [insertFile] at whole isFile isFileGo
        rw [isFile, isFileGo, files, filesGo, List.append_assoc, List.append_assoc] at whole
        exact List.append_cancel_left whole
      have sameNode : node.id = nodeGo.id := by
        have head := above file (by rw [← isFile]; rfl)
        rw [sameRows, aboveGo file (by rw [← isFileGo]; rfl)] at head
        exact (Option.some.inj head).symm
      have samePath := rooted.path_unique isMem (sameNode ▸ below) belowGo
      have sameParts : parts.take (min found (parts.length - 1)) = rest.take foundGo :=
        List.map_injective_iff.mpr (fun _ _ => String.ofList_inj.mp) samePath
      have depths := congrArg List.length sameParts
      have counts := congrArg List.length (List.append_cancel_right sameRows)
      rw [length, lengthGo] at counts
      simp only [List.length_take, List.length_drop, List.length_dropLast] at depths counts
      have all : rest.length + 1 = parts.length ∧ rest.length ≤ found ∧ foundGo = rest.length := by
        omega
      obtain ⟨sameLength, isDeep, rfl⟩ := all
      have whole : parts = first :: rest := by
        refine (List.filter_sublist.eq_of_length ?_).symm.trans filtered.symm
        rw [← filtered, List.length_cons, sameLength]
      subst whole
      rw [List.length_cons, Nat.add_sub_cancel, min_eq_right isDeep, List.take_length] at sameParts
      have alike : first :: rest = List.replicate (rest.length + 1) first := by
        rw [List.replicate_succ, ← eq_replicate_of_take sameParts]
      have isDone : (first :: rest).dropLast.drop found = [] :=
        List.drop_eq_nil_of_le (by simpa using isDeep)
      have isDoneGo : rest.dropLast.drop rest.length = [] := List.drop_eq_nil_of_le (by simp)
      have last : (first :: rest).getLast? = some first := by
        rw [alike, List.getLast?_replicate, if_neg (Nat.succ_ne_zero _)]
      have lastGo : (first :: rest).getLast (List.cons_ne_nil _ _) = first :=
        Option.some.inj ((List.getLast?_eq_some_getLast _).symm.trans last)
      have isFree : taken state.files node.id first = false := by
        by_contra isTaken
        rw [isDone, last, createFolder, Option.getD_some] at renamed
        have differ := duplicate_name_ne plain isNamed (by simpa using isTaken)
          renamed state.files.length
        have names := congrArg (·.name) (isFile.trans isFileGo.symm)
        simp only [isDoneGo, lastGo, createFolder, insertFile, ← sameNode] at names
        exact differ (String.ofList_inj.mp names)
      have position : min found ((first :: rest).length - 1) = rest.length := by
        rw [List.length_cons, Nat.add_sub_cancel, min_eq_right isDeep]
      have isLast : (first :: rest)[rest.length]? = some first := by
        rw [alike, List.getElem?_replicate, if_pos (Nat.lt_succ_self _)]
      rw [position] at isNode
      have goesOn := taken_iff_lt state.files isNode isLast
      rw [isFree, walked] at goesOn
      refine ⟨first, rest.length, isNamed, split.trans alike, ?_⟩
      rw [← alike, walked]
      have notBeyond : ¬ rest.length < found := fun isBeyond =>
        Bool.false_ne_true (goesOn.mpr isBeyond)
      exact Nat.le_antisymm (Nat.le_of_not_lt notBeyond) isDeep

theorem agree_of_repeats (tenantId : String) (blob : Blob)
    (repeats : Repeats state.files folder.id filename) :
    Agree tenantId state folder.id filename blob := by
  obtain ⟨name, depth, isNamed, split, walked⟩ := repeats
  have nonempty : filename ≠ [] := by
    rintro rfl
    rw [List.splitOn_nil, List.replicate_succ] at split
    exact isNamed (List.cons.inj split).1.symm
  have parsed : parseFilePath filename = name :: List.replicate depth name := by
    rw [parseFilePath_eq, split, List.filter_eq_self.mpr, List.replicate_succ]
    intro part isPart
    rw [List.eq_of_mem_replicate isPart]
    simpa using isNamed
  have sameWalk : getIdListById state.files folder.id (List.replicate depth name) =
      getIdListById state.files folder.id (List.replicate (depth + 1) name) := by
    rw [getIdListById_take _ _ _ [name], ← List.replicate_succ', List.length_replicate,
      List.take_of_length_le (le_of_eq walked)]
  obtain ⟨node, -, isNode, -, isPython⟩ := uploadFile_eq rooted isSlash isMem tenantId blob
    nonempty split walked
  obtain ⟨nodeGo, -, isNodeGo, -, isGo⟩ := uploadFileGo_eq rooted isSlash isMem tenantId blob
    parsed (sameWalk ▸ walked)
  rw [List.length_replicate, Nat.add_sub_cancel, min_self] at isNode
  rw [sameWalk, isNode] at isNodeGo
  have sameNode := Option.some.inj isNodeGo
  have isLast : (List.replicate (depth + 1) name)[depth]? = some name := by
    rw [List.getElem?_replicate, if_pos (Nat.lt_succ_self _)]
  have isFree : taken state.files node.id name = false := by
    have goesOn := taken_iff_lt state.files isNode isLast
    rw [walked] at goesOn
    exact Bool.eq_false_iff.mpr fun isTaken => Nat.lt_irrefl _ (goesOn.mp isTaken)
  have isDone : (List.replicate (depth + 1) name).dropLast.drop depth = [] :=
    List.drop_eq_nil_of_le (by simp)
  have isDoneGo : (List.replicate depth name).dropLast.drop depth = [] :=
    List.drop_eq_nil_of_le (by simp)
  have last : (List.replicate (depth + 1) name).getLast? = some name := by
    rw [List.getLast?_replicate, if_neg (Nat.succ_ne_zero _)]
  have lastGo : (name :: List.replicate depth name).getLast (List.cons_ne_nil _ _) = name := by
    rw [← Option.some_inj, ← List.getLast?_eq_some_getLast, ← List.replicate_succ, last]
  have kept : getUniqueFilename (taken state.files node.id) state.files.length name = name := by
    rw [getUniqueFilename, isFree]
    rfl
  let inserted := insertFile tenantId state node.id name name blob
  refine ⟨inserted.1, inserted.2, isPython.trans ?_, isGo.trans ?_⟩
  · simp only [isDone, last, createFolder, Option.getD_some, duplicate_name_of_free isFree]
    rfl
  · simp only [isDoneGo, lastGo, createFolder, ← sameNode, kept]
    rfl

/-- When the servers agree on an upload. -/
theorem uploadsAgree_iff (tenantId : String) (blob : Blob) :
    Agree tenantId state folder.id filename blob ↔ Repeats state.files folder.id filename :=
  ⟨repeats_of_agree rooted isSlash isMem, agree_of_repeats rooted isSlash isMem tenantId blob⟩

end Resolving

def onlyRoot : File where
  id := 1
  parentId := 1
  tenantId := "tenant"
  isFolder := true
  name := "/"
  location := ""
  fromDataset := false

def emptyState : State Unit where
  files := [onlyRoot]
  objects := Dict.empty
  links := []
  documents := []
  datasets := []
  chunks := []
  nextId := 2

theorem rooted_emptyState : ParentTree.Rooted shape emptyState.files onlyRoot where
  unique := by decide
  stored := by decide
  isBranch := rfl
  isRoot := rfl
  reached := by
    intro file member
    obtain rfl := List.mem_singleton.mp member
    exact ⟨[], .refl⟩

theorem agree_emptyState :
    Agree "tenant" emptyState 1 "report.pdf".toList () ↔
      Repeats emptyState.files 1 "report.pdf".toList :=
  uploadsAgree_iff rooted_emptyState rfl (List.mem_singleton_self onlyRoot) "tenant" ()

/-- The Go server leaves the folder out, and fails on a path without a name. -/
theorem not_agree_emptyState :
    ¬ Agree "tenant" emptyState 1 "docs/report.pdf".toList () ∧
      uploadFileGo "tenant" emptyState 1 "/".toList () = (emptyState, .error .crash) := by
  refine ⟨fun agree => ?_, rfl⟩
  obtain ⟨name, depth, -, split, -⟩ :=
    repeats_of_agree rooted_emptyState rfl (List.mem_singleton_self onlyRoot) agree
  have each : ∀ part ∈ "docs/report.pdf".toList.splitOn '/', part = name := fun part isPart =>
    List.eq_of_mem_replicate (split ▸ isPart)
  have isFirst := each "docs".toList (by decide)
  have isLast := each "report.pdf".toList (by decide)
  exact absurd (isFirst.trans isLast.symm) (by decide)

end RagFlow.Files.Uploading
