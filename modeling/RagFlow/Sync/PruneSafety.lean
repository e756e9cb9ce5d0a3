import Mathlib.Data.List.Dedup
import RagFlow.Lib.Paging
import RagFlow.Lib.Runs

/-!
# Pruning

A prune task takes a snapshot of the files at the source, lists the stored documents, and deletes
those that are not in the snapshot, while a sync task of the same connector ingests what it has
polled.  Each snapshot, listing, ingestion and deletion is one step.
-/

namespace RagFlow.Sync

open Lib

variable {File DocId : Type} [DecidableEq File] [DecidableEq DocId]

structure Document (DocId : Type) where
  id : DocId
  kbId : String
  sourceType : String
deriving DecidableEq, Repr

structure Target (File DocId : Type) where
  kbId : String
  sourceType : String
  /-- `hash128(f"{connector_id}:{file.id}")` -/
  docId : File → DocId

/-- How a pass over `retrieve_all_slim_docs_perm_sync` ends. -/
inductive Ending
  | complete
  | typeError
  | failure
deriving DecidableEq, Repr

structure Attempt (File : Type) where
  files : List File
  ending : Ending

inductive PrunePhase (File DocId : Type)
  | idle
  | listing (fileList : List File)
  /-- Has the stale documents, and the batches still to be deleted. -/
  | deleting (stale : List DocId) (batches : List (List DocId))

structure PruneState (File DocId : Type) where
  source : List File
  rows : List (Document DocId)
  /-- The batches that the sync task has polled. -/
  polled : List (List File)
  prune : PrunePhase File DocId
  /-- The removed count that was reported last. -/
  reported : Option Nat
  /-- Was the document absent from the source at some moment since it was last ingested? -/
  absentSince : DocId → Bool
  /-- The documents ingested since the snapshot. -/
  ingestedSince : List DocId

inductive PruneMove (File DocId : Type)
  | publish (file : File)
  | remove (file : File)
  | poll (batches : List (List File))
  | ingest
  | snapshot (first second : Attempt File)
  | list
  /-- `FileService.delete_docs` of the next batch, which fails for some documents. -/
  | deleteBatch (failed : List DocId)
  | recount

/-- `_collect_prune_snapshot`: a second pass without arguments follows a `TypeError`. -/
def collectPruneSnapshot (first second : Attempt File) : Except Unit (Option (List File)) :=
  match first.ending with
  | .complete => .ok (some first.files)
  | .failure => .ok none
  | .typeError =>
    match second.ending with
    | .complete => .ok (some (first.files ++ second.files))
    | _ => .error ()

variable (target : Target File DocId)

def listDocHeaders (rows : List (Document DocId)) : List (Document DocId) :=
  rows.filter fun row => row.kbId = target.kbId ∧ row.sourceType = target.sourceType

/-- `upload_document` of one file, and whether it is ingested. -/
def uploadDocument (rows : List (Document DocId)) (id : DocId) : List (Document DocId) × Bool :=
  match rows.find? fun row => row.id = id with
  | some row => (rows, row.kbId = target.kbId)
  | none => (rows ++ [⟨id, target.kbId, target.sourceType⟩], true)

/-- `upload_document` of a batch, and the documents that are ingested. -/
def uploadDocuments : List (Document DocId) → List DocId → List (Document DocId) × List DocId
  | rows, [] => (rows, [])
  | rows, id :: ids =>
    let (rows, ingested) := uploadDocument target rows id
    let (rows, others) := uploadDocuments rows ids
    (rows, if ingested then id :: others else others)

def atSource (source : List File) (id : DocId) : Bool :=
  source.any fun file => target.docId file = id

def observe (ingested : List DocId) (state : PruneState File DocId) : PruneState File DocId :=
  { state with
    absentSince := fun id =>
      state.absentSince id && id ∉ ingested || !atSource target state.source id
    ingestedSince := state.ingestedSince ++ ingested }

def Attempt.possible (attempt : Attempt File) (source : List File) : Bool :=
  attempt.ending ≠ .complete || (attempt.files ⊆ source ∧ source ⊆ attempt.files)

def listStale (fileList : List File) (state : PruneState File DocId) : PruneState File DocId :=
  let retained := fileList.map target.docId
  let stale := ((listDocHeaders target state.rows).map Document.id).filter fun id => id ∉ retained
  if stale = [] then { state with prune := .idle, reported := some 0 }
  else { state with prune := .deleting stale (Paging.batches 100 stale) }

def removedCount (stale : List DocId) (rows : List (Document DocId)) : Nat :=
  let remaining := ((listDocHeaders target rows).map Document.id).filter fun id => id ∈ stale
  stale.dedup.length - remaining.dedup.length

def pruneStep (state : PruneState File DocId) : PruneMove File DocId → PruneState File DocId
  | .publish file => observe target [] { state with source := file :: state.source }
  | .remove file =>
    observe target [] { state with source := state.source.filter fun other => other ≠ file }
  | .poll batches =>
    if batches.flatten ⊆ state.source then { state with polled := batches } else state
  | .ingest =>
    match state.polled with
    | [] => state
    | batch :: polled =>
      let (rows, ingested) := uploadDocuments target state.rows (batch.map target.docId)
      observe target ingested { state with rows := rows, polled := polled }
  | .snapshot first second =>
    match state.prune with
    | .idle =>
      if first.possible state.source && second.possible state.source then
        match collectPruneSnapshot first second with
        | .ok (some fileList) =>
          { state with prune := .listing fileList, ingestedSince := [] }
        | .ok none => state
        | .error _ => state
      else state
    | _ => state
  | .list =>
    match state.prune with
    | .listing fileList => listStale target fileList state
    | _ => state
  | .deleteBatch failed =>
    match state.prune with
    | .deleting stale (batch :: batches) =>
      { state with
        rows := state.rows.filter fun row => ¬(row.id ∈ batch ∧ row.id ∉ failed)
        prune := .deleting stale batches }
    | _ => state
  | .recount =>
    match state.prune with
    | .deleting stale [] =>
      { state with
        prune := .idle
        reported := some (removedCount target stale state.rows) }
    | _ => state

structure Inventory (File DocId : Type) where
  source : List File
  rows : List (Document DocId)
  nodup : (rows.map Document.id).Nodup

def Inventory.state (inventory : Inventory File DocId) : PruneState File DocId where
  source := inventory.source
  rows := inventory.rows
  polled := []
  prune := .idle
  reported := none
  absentSince id := !atSource target inventory.source id
  ingestedSince := []

def gone (stale : List DocId) (rows : List (Document DocId)) : List DocId :=
  stale.dedup.filter fun id => id ∉ rows.map Document.id

/-- What a move should do: the documents it deletes are those of the connector in the knowledge base
that were absent from the source since they were ingested; a snapshot that fails ends the task; the
count that is reported is that of the documents that are gone. -/
structure PrunesRight (state : PruneState File DocId) (move : PruneMove File DocId) : Prop where
  deleted : ∀ row ∈ state.rows, row ∉ (pruneStep target state move).rows →
    (row.kbId = target.kbId ∧ row.sourceType = target.sourceType) ∧
      state.absentSince row.id = true
  failed : ∀ first second, move = .snapshot first second →
    (∀ fileList, collectPruneSnapshot first second ≠ .ok (some fileList)) →
      pruneStep target state move = state
  counted : ∀ stale, state.prune = .deleting stale [] → move = .recount →
    (pruneStep target state move).reported = some (gone stale state.rows).length

def Unpolled (state : PruneState File DocId) : PruneMove File DocId → Prop
  | .deleteBatch failed =>
    match state.prune with
    | .deleting _ (batch :: _) => ∀ row ∈ state.rows, row.id ∈ batch → row.id ∉ failed →
        row.id ∈ state.ingestedSince → state.absentSince row.id = true
    | _ => True
  | _ => True

end RagFlow.Sync

/-!
# What pruning deletes

What is not in the snapshot was absent from the source when it was taken.  So a document that is
deleted was absent since it was ingested, unless it was ingested after the snapshot.
-/

namespace RagFlow.Sync

open Lib

variable {File DocId : Type} [DecidableEq DocId] {target : Target File DocId}

def Target.Owns (target : Target File DocId) (row : Document DocId) : Prop :=
  row.kbId = target.kbId ∧ row.sourceType = target.sourceType

omit [DecidableEq DocId] in
theorem mem_listDocHeaders {rows : List (Document DocId)} {row : Document DocId} :
    row ∈ listDocHeaders target rows ↔ row ∈ rows ∧ target.Owns row := by
  rw [listDocHeaders, List.mem_filter, decide_eq_true_iff]
  rfl

section Upload

variable {rows : List (Document DocId)} {row : Document DocId} {id : DocId}

theorem uploadDocument_cases (target : Target File DocId) (rows : List (Document DocId))
    (id : DocId) :
    (uploadDocument target rows id).1 = rows ∨
      (uploadDocument target rows id).1 = rows ++ [⟨id, target.kbId, target.sourceType⟩] ∧
        id ∉ rows.map Document.id := by
  rw [uploadDocument]
  cases found : rows.find? fun row => row.id = id with
  | some row => exact .inl rfl
  | none =>
    refine .inr ⟨rfl, fun stored => ?_⟩
    obtain ⟨row, inRows, same⟩ := List.mem_map.mp stored
    exact List.find?_eq_none.mp found row inRows (decide_eq_true same)

theorem nodup_uploadDocument (nodup : (rows.map Document.id).Nodup) (id : DocId) :
    ((uploadDocument target rows id).1.map Document.id).Nodup := by
  rcases uploadDocument_cases target rows id with same | ⟨added, fresh⟩
  · rw [same]
    exact nodup
  · rw [added, List.map_append]
    apply List.Nodup.append nodup (List.nodup_singleton id)
    intro other stored single
    exact fresh (List.mem_singleton.mp single ▸ stored)

theorem mem_uploadDocument_of_mem (stored : row ∈ rows) :
    row ∈ (uploadDocument target rows id).1 := by
  rcases uploadDocument_cases target rows id with same | ⟨added, -⟩
  · rw [same]
    exact stored
  · rw [added]
    exact List.mem_append_left _ stored

theorem mem_uploadDocument (stored : row ∈ (uploadDocument target rows id).1) :
    row ∈ rows ∨ target.Owns row := by
  rcases uploadDocument_cases target rows id with same | ⟨added, -⟩
  · exact .inl (same ▸ stored)
  · rw [added] at stored
    rcases List.mem_append.mp stored with before | new
    · exact .inl before
    · obtain rfl := List.mem_singleton.mp new
      exact .inr ⟨rfl, rfl⟩

theorem nodup_uploadDocuments (nodup : (rows.map Document.id).Nodup) (ids : List DocId) :
    ((uploadDocuments target rows ids).1.map Document.id).Nodup := by
  induction ids generalizing rows with
  | nil => exact nodup
  | cons id ids ih => exact ih (nodup_uploadDocument nodup id)

theorem mem_uploadDocuments_of_mem (stored : row ∈ rows) (ids : List DocId) :
    row ∈ (uploadDocuments target rows ids).1 := by
  induction ids generalizing rows with
  | nil => exact stored
  | cons id ids ih => exact ih (mem_uploadDocument_of_mem stored)

theorem mem_uploadDocuments {ids : List DocId} (stored : row ∈ (uploadDocuments target rows ids).1) :
    row ∈ rows ∨ target.Owns row := by
  induction ids generalizing rows with
  | nil => exact .inl stored
  | cons id ids ih =>
    rcases ih stored with before | owned
    · exact mem_uploadDocument before
    · exact .inr owned

end Upload

/-- What the phase of the prune task says about the documents. -/
def PhaseSound (target : Target File DocId) (state : PruneState File DocId) : Prop :=
  match state.prune with
  | .idle => True
  | .listing fileList => ∀ id, id ∉ fileList.map target.docId → id ∉ state.ingestedSince →
      state.absentSince id = true
  | .deleting stale batches =>
    (∀ id ∈ stale, id ∉ state.ingestedSince → state.absentSince id = true) ∧
    (∀ row ∈ state.rows, row.id ∈ stale → target.Owns row) ∧
    ∀ batch ∈ batches, ∀ id ∈ batch, id ∈ stale

structure InventorySound (target : Target File DocId) (state : PruneState File DocId) : Prop where
  nodup : (state.rows.map Document.id).Nodup
  absent : ∀ id, atSource target state.source id = false → state.absentSince id = true
  phase : PhaseSound target state

theorem sound_state (inventory : Inventory File DocId) :
    InventorySound target (inventory.state target) where
  nodup := inventory.nodup
  absent id absent := by
    have isAbsent : atSource target inventory.source id = false := absent
    simp [Inventory.state, isAbsent]
  phase := trivial

variable {state : PruneState File DocId}

theorem sound_observe (sound : InventorySound target state) {source : List File}
    {rows : List (Document DocId)} {polled : List (List File)} (ingested : List DocId)
    (nodup : (rows.map Document.id).Nodup)
    (origin : ∀ row ∈ rows, row ∈ state.rows ∨ target.Owns row) :
    InventorySound target (observe target ingested
      { state with source := source, rows := rows, polled := polled }) := by
  have kept : ∀ id, id ∉ state.ingestedSince ++ ingested →
      (id ∉ state.ingestedSince → state.absentSince id = true) →
      (state.absentSince id && id ∉ ingested || !atSource target source id) = true := by
    intro id notIngested before
    rw [List.mem_append, not_or] at notIngested
    simp [before notIngested.1, notIngested.2]
  have phase := sound.phase
  constructor
  · exact nodup
  · intro id absent
    have isAbsent : atSource target source id = false := absent
    simp [observe, isAbsent]
  · rw [PhaseSound, observe]
    rw [PhaseSound] at phase
    dsimp only
    cases current : state.prune with
    | idle => trivial
    | listing fileList =>
      rw [current] at phase
      exact fun id unknown notIngested => kept id notIngested (phase id unknown)
    | deleting stale batches =>
      rw [current] at phase
      obtain ⟨absent, owned, within⟩ := phase
      refine ⟨fun id isStale notIngested => kept id notIngested (absent id isStale), ?_, within⟩
      intro row stored isStale
      rcases origin row stored with before | owns
      · exact owned row before isStale
      · exact owns

variable [DecidableEq File]

omit [DecidableEq DocId] in
theorem mem_collectPruneSnapshot {first second : Attempt File} {fileList source : List File}
    (possible : (first.possible source && second.possible source) = true)
    (collected : collectPruneSnapshot first second = .ok (some fileList)) :
    source ⊆ fileList := by
  obtain ⟨firstPossible, secondPossible⟩ := Bool.and_eq_true_iff.mp possible
  rw [collectPruneSnapshot] at collected
  cases firstEnding : first.ending with
  | complete =>
    rw [firstEnding] at collected
    cases collected
    have whole : first.files ⊆ source ∧ source ⊆ first.files := by
      simpa [Attempt.possible, firstEnding] using firstPossible
    exact whole.2
  | failure =>
    rw [firstEnding] at collected
    cases collected
  | typeError =>
    rw [firstEnding] at collected
    cases secondEnding : second.ending with
    | complete =>
      rw [secondEnding] at collected
      cases collected
      have whole : second.files ⊆ source ∧ source ⊆ second.files := by
        simpa [Attempt.possible, secondEnding] using secondPossible
      exact List.Subset.trans whole.2 (List.subset_append_right _ _)
    | typeError =>
      rw [secondEnding] at collected
      cases collected
    | failure =>
      rw [secondEnding] at collected
      cases collected

theorem sound_snapshot (sound : InventorySound target state) (first second : Attempt File) :
    InventorySound target (pruneStep target state (.snapshot first second)) := by
  rw [pruneStep]
  cases idle : state.prune with
  | listing fileList => exact sound
  | deleting stale batches => exact sound
  | idle =>
    dsimp only
    by_cases possible : (first.possible state.source && second.possible state.source) = true
    · rw [if_pos possible]
      cases collected : collectPruneSnapshot first second with
      | error failure => exact sound
      | ok result =>
        cases result with
        | none => exact sound
        | some fileList =>
          refine ⟨sound.nodup, sound.absent, fun id unknown _ => sound.absent id ?_⟩
          rw [atSource, List.any_eq_false]
          intro file present same
          apply unknown
          have listed := mem_collectPruneSnapshot possible collected present
          exact List.mem_map.mpr ⟨file, listed, of_decide_eq_true same⟩
    · rw [if_neg possible]
      exact sound

omit [DecidableEq File] in
theorem sound_listStale (sound : InventorySound target state) {fileList : List File}
    (current : state.prune = .listing fileList) :
    InventorySound target (listStale target fileList state) := by
  have phase := sound.phase
  rw [PhaseSound, current] at phase
  rw [listStale]
  split_ifs
  · exact ⟨sound.nodup, sound.absent, trivial⟩
  · refine ⟨sound.nodup, sound.absent, ?_, ?_, ?_⟩
    · intro id isStale notIngested
      exact phase id (of_decide_eq_true (List.mem_filter.mp isStale).2) notIngested
    · intro row stored isStale
      obtain ⟨other, listed, same⟩ := List.mem_map.mp (List.mem_filter.mp isStale).1
      obtain ⟨inRows, owned⟩ := mem_listDocHeaders.mp listed
      exact List.inj_on_of_nodup_map sound.nodup inRows stored same ▸ owned
    · intro batch inBatches id inBatch
      have inStale := List.mem_flatten_of_mem inBatches inBatch
      rwa [Paging.flatten_batches (by decide)] at inStale

theorem sound_deleteBatch (sound : InventorySound target state) (failed : List DocId) :
    InventorySound target (pruneStep target state (.deleteBatch failed)) := by
  have phase := sound.phase
  rw [PhaseSound] at phase
  rw [pruneStep]
  cases current : state.prune with
  | idle => exact sound
  | listing fileList => exact sound
  | deleting stale batches =>
    rw [current] at phase
    cases batches with
    | nil => exact sound
    | cons batch batches =>
      obtain ⟨absent, owned, within⟩ := phase
      refine ⟨?_, sound.absent, absent, ?_, ?_⟩
      · exact sound.nodup.sublist (List.Sublist.map _ List.filter_sublist)
      · exact fun row stored => owned row (List.mem_filter.mp stored).1
      · exact fun other later => within other (List.mem_cons_of_mem batch later)

theorem sound_pruneStep (sound : InventorySound target state) (move : PruneMove File DocId) :
    InventorySound target (pruneStep target state move) := by
  cases move with
  | publish file => exact sound_observe sound [] sound.nodup fun _ stored => .inl stored
  | remove file => exact sound_observe sound [] sound.nodup fun _ stored => .inl stored
  | poll batches =>
    rw [pruneStep]
    split_ifs
    · exact ⟨sound.nodup, sound.absent, sound.phase⟩
    · exact sound
  | ingest =>
    rw [pruneStep]
    cases state.polled with
    | nil => exact sound
    | cons batch polled =>
      apply sound_observe sound
      · exact nodup_uploadDocuments sound.nodup _
      · exact fun row stored => mem_uploadDocuments stored
  | snapshot first second => exact sound_snapshot sound first second
  | list =>
    rw [pruneStep]
    cases current : state.prune with
    | idle => exact sound
    | listing fileList => exact sound_listStale sound current
    | deleting stale batches => exact sound
  | deleteBatch failed => exact sound_deleteBatch sound failed
  | recount =>
    rw [pruneStep]
    cases current : state.prune with
    | idle => exact sound
    | listing fileList => exact sound
    | deleting stale batches =>
      cases batches with
      | nil => exact ⟨sound.nodup, sound.absent, trivial⟩
      | cons batch batches => exact sound

omit [DecidableEq File] in
theorem removedCount_eq {stale : List DocId}
    (owned : ∀ row ∈ state.rows, row.id ∈ stale → target.Owns row) :
    removedCount target stale state.rows = (gone stale state.rows).length := by
  have same : (((listDocHeaders target state.rows).map Document.id).filter
      fun id => id ∈ stale).dedup.Perm
        (stale.dedup.filter fun id => id ∈ state.rows.map Document.id) := by
    apply (List.perm_ext_iff_of_nodup (List.nodup_dedup _)
      ((List.nodup_dedup stale).filter _)).mpr
    intro id
    simp only [List.mem_dedup, List.mem_filter, List.mem_map, decide_eq_true_iff]
    constructor
    · rintro ⟨⟨row, listed, rfl⟩, isStale⟩
      exact ⟨isStale, row, (mem_listDocHeaders.mp listed).1, rfl⟩
    · rintro ⟨isStale, row, stored, rfl⟩
      exact ⟨⟨row, mem_listDocHeaders.mpr ⟨stored, owned row stored isStale⟩, rfl⟩, isStale⟩
  have parts := List.length_eq_length_filter_add (l := stale.dedup)
    (fun id => decide (id ∈ state.rows.map Document.id))
  have lengths := same.length_eq
  rw [removedCount, gone]
  simp only [decide_not] at parts ⊢
  omega

theorem stays_pruneStep {row : Document DocId} (stored : row ∈ state.rows)
    {move : PruneMove File DocId} (keeps : ∀ failed, move ≠ .deleteBatch failed) :
    row ∈ (pruneStep target state move).rows := by
  cases move with
  | publish file => exact stored
  | remove file => exact stored
  | poll batches =>
    rw [pruneStep]
    split_ifs <;> exact stored
  | ingest =>
    rw [pruneStep]
    cases state.polled with
    | nil => exact stored
    | cons batch polled => exact mem_uploadDocuments_of_mem stored _
  | snapshot first second =>
    rw [pruneStep]
    cases state.prune with
    | idle =>
      dsimp only
      split_ifs
      · cases collectPruneSnapshot first second with
        | error failure => exact stored
        | ok result => cases result <;> exact stored
      · exact stored
    | _ => exact stored
  | list =>
    rw [pruneStep]
    cases state.prune with
    | listing fileList =>
      dsimp only
      rw [listStale]
      split_ifs <;> exact stored
    | _ => exact stored
  | deleteBatch failed => exact absurd rfl (keeps failed)
  | recount =>
    rw [pruneStep]
    cases state.prune with
    | deleting stale batches => cases batches <;> exact stored
    | _ => exact stored

theorem deleted_deleteBatch (sound : InventorySound target state) {failed : List DocId}
    (unpolled : Unpolled state (.deleteBatch failed)) {row : Document DocId}
    (stored : row ∈ state.rows) (removed : row ∉ (pruneStep target state (.deleteBatch failed)).rows) :
    target.Owns row ∧ state.absentSince row.id = true := by
  have phase := sound.phase
  rw [PhaseSound] at phase
  rw [Unpolled] at unpolled
  cases current : state.prune with
  | idle =>
    simp only [pruneStep, current] at removed
    exact absurd stored removed
  | listing fileList =>
    simp only [pruneStep, current] at removed
    exact absurd stored removed
  | deleting stale batches =>
    rw [current] at phase
    obtain ⟨absent, owned, within⟩ := phase
    cases batches with
    | nil =>
      simp only [pruneStep, current] at removed
      exact absurd stored removed
    | cons batch batches =>
      have taken : row.id ∈ batch ∧ row.id ∉ failed := by
        by_contra keeps
        apply removed
        simp only [pruneStep, current, List.mem_filter, decide_eq_true_iff]
        exact ⟨stored, keeps⟩
      obtain ⟨inBatch, notFailed⟩ := taken
      have isStale := within batch List.mem_cons_self row.id inBatch
      refine ⟨owned row stored isStale, ?_⟩
      by_cases ingested : row.id ∈ state.ingestedSince
      · rw [current] at unpolled
        exact unpolled row stored inBatch notFailed ingested
      · exact absent row.id isStale ingested

theorem prunesRight_iff (sound : InventorySound target state) (move : PruneMove File DocId) :
    PrunesRight target state move ↔ Unpolled state move := by
  constructor
  · intro right
    cases move with
    | deleteBatch failed =>
      rw [Unpolled]
      cases current : state.prune with
      | idle => trivial
      | listing fileList => trivial
      | deleting stale batches =>
        cases batches with
        | nil => trivial
        | cons batch batches =>
          intro row stored inBatch notFailed _
          refine (right.deleted row stored fun kept => ?_).2
          simp only [pruneStep, current, List.mem_filter, decide_eq_true_iff] at kept
          exact kept.2 ⟨inBatch, notFailed⟩
    | _ => trivial
  · intro unpolled
    constructor
    · intro row stored removed
      by_cases deletes : ∃ failed, move = .deleteBatch failed
      · obtain ⟨failed, rfl⟩ := deletes
        exact deleted_deleteBatch sound unpolled stored removed
      · exact absurd (stays_pruneStep stored fun failed same => deletes ⟨failed, same⟩) removed
    · rintro first second rfl fails
      rw [pruneStep]
      cases state.prune with
      | idle =>
        dsimp only
        split_ifs
        · cases collected : collectPruneSnapshot first second with
          | error failure => rfl
          | ok result =>
            cases result with
            | none => rfl
            | some fileList => exact absurd collected (fails fileList)
        · rfl
      | _ => rfl
    · rintro stale current rfl
      have phase := sound.phase
      rw [PhaseSound, current] at phase
      simp only [pruneStep, current, removedCount_eq phase.2.1]

/-- The claims of a prune hold along exactly the runs in which no document that it deletes was
ingested after the snapshot and stayed at the source. -/
theorem prunesRight_along_iff (target : Target File DocId) (inventory : Inventory File DocId)
    (moves : List (PruneMove File DocId)) :
    Runs.Along (pruneStep target) (PrunesRight target) (inventory.state target) moves ↔
      Runs.Along (pruneStep target) Unpolled (inventory.state target) moves := by
  apply Runs.along_congr (sound_state inventory)
  · exact fun state move sound => sound_pruneStep sound move
  · exact fun state move sound => prunesRight_iff sound move

def sameNumbers : Target Nat Nat where
  kbId := "kb"
  sourceType := "s3/connector"
  docId file := file

def oneFile : Inventory Nat Nat where
  source := [1]
  rows := [⟨1, "kb", "s3/connector"⟩]
  nodup := by decide

/-- A file that is published and ingested between the snapshot and the listing is deleted. -/
theorem not_prunesRight :
    ¬Runs.Along (pruneStep sameNumbers) (PrunesRight sameNumbers) (oneFile.state sameNumbers)
      [.snapshot ⟨[1], .complete⟩ ⟨[], .failure⟩, .publish 2, .poll [[2]], .ingest, .list,
        .deleteBatch []] := by
  intro right
  have deletion := right [.snapshot ⟨[1], .complete⟩ ⟨[], .failure⟩, .publish 2, .poll [[2]],
    .ingest, .list] (.deleteBatch []) [] rfl
  have absent := (deletion.deleted ⟨2, "kb", "s3/connector"⟩ (by decide) (by decide)).2
  exact absurd absent (by decide)

end RagFlow.Sync
