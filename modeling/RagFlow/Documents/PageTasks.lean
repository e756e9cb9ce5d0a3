import RagFlow.Documents.QueueTasks
import RagFlow.Documents.TaskProgress
import RagFlow.Lib.Paging
import RagFlow.Lib.Runs

/-!
# The page ranges of the parse tasks

`queue_tasks` cuts the configured page ranges of a PDF file into tasks of at most `page_size`
pages.  Once the tasks are queued, workers report progress, and `_sync_progress` derives the
status of the document from its tasks.
-/

namespace RagFlow.Documents

open RagFlow.Lib Paging

def MAXIMUM_PAGE_NUMBER : Nat := 100000

def MAXIMUM_TASK_PAGE_NUMBER : Nat := MAXIMUM_PAGE_NUMBER * 1000

/-- The fields that `queue_tasks` reads, with `parser_id`; a missing one is `none`. -/
structure ParserConfig where
  parserId : String
  layoutRecognize : Option String
  taskPageSize : Option Nat
  tocExtraction : Bool
  pages : Option (List (Int × Int))

def ParserConfig.pageSize (config : ParserConfig) : Nat :=
  if config.parserId ∈ ["one", "knowledge_graph"] ∨
      config.layoutRecognize.getD "DeepDOC" ≠ "DeepDOC" ∨ config.tocExtraction then
    MAXIMUM_TASK_PAGE_NUMBER
  else
    match config.taskPageSize with
    | some (size + 1) => size + 1
    | _ => if config.parserId = "paper" then 22 else 12

def ParserConfig.pageRanges (config : ParserConfig) : List (Int × Int) :=
  match config.pages with
  | some (range :: ranges) => range :: ranges
  | _ => [(1, MAXIMUM_PAGE_NUMBER)]

def clip (pages : Nat) (range : Int × Int) : Nat × Nat :=
  ((range.1 - 1).toNat, (min (range.2 - 1) pages).toNat)

inductive Contents where
  | pdf (pages : Option Nat)
  | table (rowNumber : Nat)
  | other

/-- `from_page` and `to_page` of the tasks. -/
def taskPages (config : ParserConfig) : Contents → List (Nat × Nat)
  | .pdf pages =>
    config.pageRanges.flatMap fun range =>
      cuts config.pageSize (clip (pages.getD 0) range).1 (clip (pages.getD 0) range).2
  | .table rowNumber => cuts 3000 0 rowNumber
  | .other => [(0, MAXIMUM_TASK_PAGE_NUMBER)]

def parseTaskArray (digest : Nat × Nat → String) (now : Nat) (pages : List (Nat × Nat)) :
    List ParseTask :=
  pages.zipIdx.map fun (interval, index) => ⟨interval.1, digest interval, now + index⟩

theorem pageSize_pos (config : ParserConfig) : 0 < config.pageSize := by
  unfold ParserConfig.pageSize
  split_ifs
  · decide
  · split
    · exact Nat.succ_pos _
    · decide
  · split
    · exact Nat.succ_pos _
    · decide

/-- What `_sync_progress` makes of the progress of the tasks, of which there are some. -/
def statusOf (tsks : List Task) : TaskStatus :=
  let finished := tsks.all fun task => ¬ (0 ≤ task.progress ∧ task.progress < 1)
  let bad := tsks.any fun task => task.progress = -1
  if finished && bad then .fail else if finished then .done else .running

/-- A document without tasks is skipped. -/
def syncProgress (db : Database) (docId : String) : Database :=
  match db.tasks.filter fun task => task.docId = docId with
  | [] => db
  | tsks =>
    match db.document? docId with
    | none => db
    | some doc =>
      if doc.run = .cancel then db
      else db.updateDocument docId fun doc => { doc with run := statusOf tsks }

/-- `TaskService.update_progress` on the task in a position of the table. -/
def reportProgress (db : Database) (position : Nat) (prog : ℚ) : Database :=
  { db with
    tasks := db.tasks.modify position fun task =>
      { task with progress := TaskProgress.setProgress task.progress prog } }

inductive ProgressMove where
  | report (position : Nat) (prog : ℚ)
  | sync
  | cancel

def progressStep (docId : String) (db : Database) : ProgressMove → Database
  | .report position prog => reportProgress db position prog
  | .sync => syncProgress db docId
  | .cancel => db.updateDocument docId fun doc => { doc with run := .cancel }

def TaskStatus.Final (run : TaskStatus) : Prop := run ∈ [.done, .fail, .cancel]

instance (run : TaskStatus) : Decidable run.Final := inferInstanceAs (Decidable (run ∈ _))

def CanFinish (docId : String) (db : Database) : Prop :=
  ∃ moves, ProgressMove.cancel ∉ moves ∧
    ∀ doc ∈ (Runs.run (progressStep docId) db moves).document? docId, doc.run.Final

def HasTasks (docId : String) (db : Database) : Prop := docId ∈ db.tasks.map Task.docId

instance (docId : String) (db : Database) : Decidable (HasTasks docId db) :=
  inferInstanceAs (Decidable (docId ∈ _))

theorem hasTasks_iff {docId : String} {db : Database} :
    HasTasks docId db ↔ (db.tasks.filter fun task => task.docId = docId) ≠ [] := by
  simp [HasTasks, List.filter_eq_nil_iff]

theorem docIds_report (db : Database) (position : Nat) (prog : ℚ) :
    (reportProgress db position prog).tasks.map Task.docId = db.tasks.map Task.docId := by
  apply List.ext_getElem (by simp [reportProgress])
  intro index _ _
  simp only [reportProgress, List.getElem_map, List.getElem_modify]
  split_ifs <;> rfl

theorem tasks_sync (db : Database) (docId : String) : (syncProgress db docId).tasks = db.tasks := by
  unfold syncProgress
  split
  · rfl
  · split
    · rfl
    · split_ifs <;> rfl

theorem hasTasks_step (docId : String) (db : Database) (move : ProgressMove) :
    HasTasks docId (progressStep docId db move) ↔ HasTasks docId db := by
  cases move with
  | report position prog => simp only [HasTasks, progressStep, docIds_report]
  | sync => simp only [HasTasks, progressStep, tasks_sync]
  | cancel => rfl

theorem documents_step {docId : String} {db : Database} (untasked : ¬ HasTasks docId db)
    {move : ProgressMove} (notCancel : move ≠ .cancel) :
    (progressStep docId db move).documents = db.documents := by
  cases move with
  | report position prog => rfl
  | sync =>
    rw [hasTasks_iff, not_not] at untasked
    simp only [progressStep, syncProgress, untasked]
  | cancel => exact absurd rfl notCancel

def completions (count : Nat) : List ProgressMove :=
  (List.range count).map fun position => .report position 1

theorem run_completions (docId : String) (db : Database) (count : Nat) :
    let completed := Runs.run (progressStep docId) db (completions count)
    completed.documents = db.documents ∧
      completed.tasks.map Task.docId = db.tasks.map Task.docId ∧
      ∀ position < count, ∀ task ∈ completed.tasks[position]?, task.progress = 1 := by
  induction count with
  | zero => exact ⟨rfl, rfl, fun _ impossible => absurd impossible (Nat.not_lt_zero _)⟩
  | succ count ih =>
    obtain ⟨documents, docIds, complete⟩ := ih
    have next : completions (count + 1) = completions count ++ [.report count 1] := by
      simp [completions, List.range_succ]
    rw [next, Runs.run_concat]
    refine ⟨documents, (docIds_report _ count 1).trans docIds, ?_⟩
    intro position below task isTask
    simp only [progressStep, reportProgress, List.getElem?_modify, Option.map_eq_map,
      Option.mem_def, Option.map_eq_some_iff] at isTask
    obtain ⟨before, isBefore, rfl⟩ := isTask
    by_cases here : count = position
    · simp [here, TaskProgress.setProgress]
    · simp only [if_neg here]
      exact complete position (by omega) before isBefore

theorem statusOf_complete {tsks : List Task} (complete : ∀ task ∈ tsks, task.progress = 1) :
    statusOf tsks = .done := by
  have finished : (tsks.all fun task =>
      decide (¬ (0 ≤ task.progress ∧ task.progress < 1))) = true := by
    simp only [List.all_eq_true, decide_eq_true_eq]
    intro task isTask
    rw [complete task isTask]
    norm_num
  have sound : (tsks.any fun task => decide (task.progress = -1)) = false := by
    simp only [List.any_eq_false, decide_eq_true_eq]
    intro task isTask
    rw [complete task isTask]
    norm_num
  simp only [statusOf, finished, sound]
  rfl

theorem final_sync {docId : String} {db : Database} (tasked : HasTasks docId db)
    (complete : ∀ task ∈ db.tasks, task.progress = 1) :
    ∀ doc ∈ (syncProgress db docId).document? docId, doc.run.Final := by
  intro doc isDoc
  rw [hasTasks_iff] at tasked
  have done : statusOf (db.tasks.filter fun task => task.docId = docId) = .done :=
    statusOf_complete fun task isTask => complete task (List.mem_filter.mp isTask).1
  unfold syncProgress at isDoc
  split at isDoc
  · next empty => exact absurd empty tasked
  · next nonempty =>
    split at isDoc
    · next missing => simp [missing] at isDoc
    · next stored found =>
      rw [done] at isDoc
      split_ifs at isDoc with cancelled
      · obtain rfl : stored = doc := Option.some.inj (found.symm.trans isDoc)
        simp [TaskStatus.Final, cancelled]
      · have written : ∀ doc : Document, { doc with run := TaskStatus.done }.id = doc.id :=
          fun _ => rfl
        rw [Database.document?_updateDocument written, found] at isDoc
        obtain rfl := Option.some.inj isDoc
        simp [TaskStatus.Final]

theorem canFinish_iff {docId : String} {db : Database} :
    CanFinish docId db ↔ HasTasks docId db ∨ ∀ doc ∈ db.document? docId, doc.run.Final := by
  constructor
  · rintro ⟨moves, noCancel, finishes⟩
    apply or_iff_not_imp_left.mpr
    intro untasked
    have along : Runs.Along (progressStep docId) (fun _ move => move ≠ .cancel) db moves := by
      rintro before move after rfl rfl
      exact noCancel (by simp)
    have kept : ¬ HasTasks docId (Runs.run (progressStep docId) db moves) ∧
        (Runs.run (progressStep docId) db moves).documents = db.documents := by
      refine @Runs.invariant_along _ _ _ _ _ (fun state => ¬ HasTasks docId state ∧
        state.documents = db.documents) ⟨untasked, rfl⟩ ?_ _ along
      intro state move notCancel kept
      exact ⟨mt (hasTasks_step docId state move).mp kept.1,
        (documents_step kept.1 notCancel).trans kept.2⟩
    simpa only [Database.document?, kept.2] using finishes
  · rintro (tasked | final)
    · obtain ⟨documents, docIds, complete⟩ := run_completions docId db db.tasks.length
      refine ⟨completions db.tasks.length ++ [.sync], by simp [completions], ?_⟩
      rw [Runs.run_concat]
      apply final_sync (by rwa [HasTasks, docIds])
      intro task isTask
      obtain ⟨position, below, rfl⟩ := List.getElem_of_mem isTask
      have sameLength := congrArg List.length docIds
      rw [List.length_map, List.length_map] at sameLength
      exact complete position (sameLength ▸ below) _ (List.getElem?_eq_getElem below)
    · exact ⟨[], List.not_mem_nil, final⟩

def Selects (range : Int × Int) (page : Nat) : Prop :=
  range.1 ≤ page + 1 ∧ (page + 1 : Int) < range.2

instance (range : Int × Int) (page : Nat) : Decidable (Selects range page) :=
  inferInstanceAs (Decidable (_ ∧ _))

/-- The tasks share out the selected pages that exist. -/
structure Covering (ranges : List (Int × Int)) (pages : Nat) (tasks : List (Nat × Nat)) :
    Prop where
  nonempty : ∀ task ∈ tasks, task.1 < task.2
  apart : tasks.Pairwise Apart
  selected : ∀ page, (∃ task ∈ tasks, Within task page) ↔
    page < pages ∧ ∃ range ∈ ranges, Selects range page

/-- No two ranges select the same existing page, and some existing page is selected. -/
structure Separate (ranges : List (Int × Int)) (pages : Nat) : Prop where
  apart : ranges.Pairwise fun first second =>
    ∀ page < pages, Selects first page → ¬ Selects second page
  some : ∃ page < pages, ∃ range ∈ ranges, Selects range page

theorem within_clip {pages : Nat} {range : Int × Int} {page : Nat} :
    Within (clip pages range) page ↔ page < pages ∧ Selects range page := by
  unfold Within clip Selects
  omega

section TaskPages

variable {config : ParserConfig} {pages : Option Nat}

theorem nonempty_taskPages : ∀ task ∈ taskPages config (.pdf pages), task.1 < task.2 := by
  intro task isTask
  obtain ⟨range, _, isPiece⟩ := List.mem_flatMap.mp isTask
  exact cuts_nonempty (pageSize_pos config) isPiece

theorem within_taskPages (page : Nat) :
    (∃ task ∈ taskPages config (.pdf pages), Within task page) ↔
      page < pages.getD 0 ∧ ∃ range ∈ config.pageRanges, Selects range page := by
  have pieces : ∀ range : Int × Int,
      (∃ task ∈ cuts config.pageSize (clip (pages.getD 0) range).1 (clip (pages.getD 0) range).2,
        Within task page) ↔ page < pages.getD 0 ∧ Selects range page := fun range =>
    (within_cuts_iff (pageSize_pos config)).trans within_clip
  simp only [taskPages, List.mem_flatMap]
  constructor
  · rintro ⟨task, ⟨range, isRange, isPiece⟩, within⟩
    obtain ⟨exists_, selects⟩ := (pieces range).mp ⟨task, isPiece, within⟩
    exact ⟨exists_, range, isRange, selects⟩
  · rintro ⟨exists_, range, isRange, selects⟩
    obtain ⟨task, isPiece, within⟩ := (pieces range).mpr ⟨exists_, selects⟩
    exact ⟨task, ⟨range, isRange, isPiece⟩, within⟩

theorem apart_taskPages : (taskPages config (.pdf pages)).Pairwise Apart ↔
    config.pageRanges.Pairwise fun first second =>
      ∀ page < pages.getD 0, Selects first page → ¬ Selects second page := by
  rw [taskPages, List.pairwise_flatMap, and_iff_right fun _ _ => cuts_apart]
  apply List.Pairwise.iff
  intro first second
  rw [cuts_apart_iff (pageSize_pos config)]
  constructor
  · intro apart page exists_ inFirst inSecond
    exact apart page (within_clip.mpr ⟨exists_, inFirst⟩) (within_clip.mpr ⟨exists_, inSecond⟩)
  · intro apart page inFirst inSecond
    obtain ⟨exists_, inFirst⟩ := within_clip.mp inFirst
    exact apart page exists_ inFirst (within_clip.mp inSecond).2

theorem covering_taskPages_iff :
    Covering config.pageRanges (pages.getD 0) (taskPages config (.pdf pages)) ∧
        taskPages config (.pdf pages) ≠ [] ↔
      Separate config.pageRanges (pages.getD 0) := by
  constructor
  · rintro ⟨covering, created⟩
    obtain ⟨task, isTask⟩ := List.exists_mem_of_ne_nil _ created
    have within : Within task task.1 := ⟨le_rfl, covering.nonempty task isTask⟩
    exact ⟨apart_taskPages.mp covering.apart,
      task.1, (covering.selected task.1).mp ⟨task, isTask, within⟩⟩
  · rintro ⟨apart, page, exists_, range, isRange, selects⟩
    obtain ⟨task, isTask, _⟩ :=
      (within_taskPages page).mpr ⟨exists_, range, isRange, selects⟩
    exact ⟨⟨nonempty_taskPages, apart_taskPages.mpr apart, within_taskPages⟩,
      List.ne_nil_of_mem isTask⟩

end TaskPages

/-- `queue_tasks` with the tasks that it creates. -/
def queueContents (db : Database) (doc : Document) (config : ParserConfig) (contents : Contents)
    (digest : Nat × Nat → String) (now : Nat) : Database :=
  queueTasks db doc (parseTaskArray digest now (taskPages config contents))

theorem docId_reusePrevTaskChunks (task : Task) (prevTasks : List Task) :
    (reusePrevTaskChunks task prevTasks).1.docId = task.docId := by
  induction prevTasks with
  | nil => rfl
  | cons prevTask rest ih =>
    rw [reusePrevTaskChunks]
    split_ifs
    · rfl
    · rfl
    · exact ih

theorem docIds_reuseAll (tasks prevTasks : List Task) :
    (reuseAll tasks prevTasks).1.map Task.docId = tasks.map Task.docId := by
  induction tasks generalizing prevTasks with
  | nil => rfl
  | cons task rest ih =>
    simp only [reuseAll, List.map_cons, ih, docId_reusePrevTaskChunks]

theorem hasTasks_queueTasks (db : Database) (doc : Document) {parses : List ParseTask}
    (created : parses ≠ []) : HasTasks doc.id (queueTasks db doc parses) := by
  obtain ⟨parse, rest, rfl⟩ := List.exists_cons_of_ne_nil created
  have stored := docIds_reuseAll ((parse :: rest).map fun parse => parse.newTask doc.id)
    (db.getTasks doc.id)
  simp only [HasTasks, queueTasks, if_neg created, Database.updateDocument, List.map_append,
    List.mem_append, stored]
  exact .inr (by simp [ParseTask.newTask])

/-- The tasks of a PDF file share out the selected pages, there is one, and whatever the workers
and the synchroniser do, the document can reach a final status. -/
structure QueuesPages (db : Database) (doc : Document) (config : ParserConfig)
    (pages : Option Nat) (digest : Nat × Nat → String) (now : Nat) : Prop where
  covering : Covering config.pageRanges (pages.getD 0) (taskPages config (.pdf pages))
  created : taskPages config (.pdf pages) ≠ []
  finishes : ∀ moves, CanFinish doc.id
    (Runs.run (progressStep doc.id) (queueContents db doc config (.pdf pages) digest now) moves)

/-- The tasks of a PDF file are as they should be exactly if no two ranges select the same page
and some page is selected. -/
theorem queuesPages_iff (db : Database) (doc : Document) (config : ParserConfig)
    (pages : Option Nat) (digest : Nat × Nat → String) (now : Nat) :
    QueuesPages db doc config pages digest now ↔
      Separate config.pageRanges (pages.getD 0) := by
  constructor
  · rintro ⟨covering, created, -⟩
    exact covering_taskPages_iff.mp ⟨covering, created⟩
  · intro separate
    obtain ⟨covering, created⟩ := covering_taskPages_iff.mpr separate
    refine ⟨covering, created, fun moves => canFinish_iff.mpr (.inl ?_)⟩
    have parses : parseTaskArray digest now (taskPages config (.pdf pages)) ≠ [] := by
      simpa [parseTaskArray, List.zipIdx_eq_nil_iff] using created
    exact Runs.invariant_run (hasTasks_queueTasks db doc parses)
      (fun state move tasked => (hasTasks_step doc.id state move).mpr tasked) moves

/-- A PDF file that cannot be opened gets no task, and the document that the request has set
running stays so; with overlapping ranges a page is parsed twice. -/
theorem not_queuesPages_brokenFile :
    let doc : Document := ⟨"d", "kb", "", .running, 0, 0⟩
    let db : Database := ⟨[], [doc], [], []⟩
    let config : ParserConfig := ⟨"naive", none, none, false, none⟩
    let overlapping := { config with pages := some [(1, 11), (6, 21)] }
    ¬ QueuesPages db doc config none (fun _ => "") 0 ∧
      ¬ CanFinish "d" (queueContents db doc config (.pdf none) (fun _ => "") 0) ∧
      ¬ QueuesPages db doc overlapping (some 30) (fun _ => "") 0 := by
  intro doc db config overlapping
  refine ⟨fun queues => queues.created (by decide), fun finishes => ?_, fun queues => ?_⟩
  · rcases canFinish_iff.mp finishes with tasked | final
    · exact absurd tasked (by decide)
    · exact absurd (final doc (by decide)) (by decide)
  · have apart := queues.covering.apart
    have same : taskPages overlapping (.pdf (some 30)) = [(0, 10), (5, 17), (17, 20)] := by decide
    rw [same] at apart
    exact (List.pairwise_cons.mp apart).1 (5, 17) (by decide) 5 (by decide) (by decide)

end RagFlow.Documents
