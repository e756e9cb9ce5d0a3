import Mathlib
import RagFlow.Lib.Runs

/-!
# Progress of a task

`TaskService.update_progress` reads the task, takes a lock, appends its message to the log that
it has read, and writes the progress under a condition on the stored one.  The calls of several
workers interleave; a call is its read step and, later, its locked write step.
-/

namespace RagFlow.Documents.TaskProgress

open RagFlow.Lib

/-- `for i in range(len_text)`: what follows the first line break from which the text is short
enough. -/
def afterHeader (maxLength : Int) : List Char → Option (List Char)
  | [] => none
  | char :: rest =>
    if char = '\n' ∧ (rest.length + 1 : Int) ≤ maxLength then some rest
    else afterHeader maxLength rest

def trimHeaderByLines (text : String) (maxLength : Int) : String :=
  if (text.toList.length : Int) ≤ maxLength then text
  else
    match afterHeader maxLength text.toList with
    | some rest => String.ofList rest
    | none => text

/-- `task.progress_msg + "\n" + info["progress_msg"]`, trimmed. -/
def appendMessage (maxLength : Int) (log message : String) : String :=
  trimHeaderByLines (log ++ "\n" ++ message) maxLength

def logOf (maxLength : Int) (log : String) (messages : List String) : String :=
  messages.foldl (appendMessage maxLength) log

theorem logOf_concat (maxLength : Int) (log : String) (messages : List String) (message : String) :
    logOf maxLength log (messages ++ [message]) =
      appendMessage maxLength (logOf maxLength log messages) message := by
  simp [logOf]

/-- The argument of `update_progress`; a key that is missing is `none`. -/
structure Info where
  progressMsg : Option String
  progress : Option ℚ
  deriving DecidableEq

structure Task where
  progressMsg : String
  progress : ℚ
  deriving DecidableEq

structure Call where
  task : Task
  info : Info
  deriving DecidableEq

/-- `written` and `history` are for the statements only: the messages in the order in which they
were appended, and the values the progress had. -/
structure State where
  task : Task
  inFlight : List Call
  written : List String
  history : List ℚ
  deriving DecidableEq

inductive Move where
  | read (info : Info)
  | write (index : Nat)

def started (task : Task) : State where
  task := task
  inFlight := []
  written := []
  history := [task.progress]

def setProgress (stored prog : ℚ) : ℚ :=
  if prog ≥ 1 ∨ (stored ≠ -1 ∧ (prog = -1 ∨ prog > stored)) then prog else stored

/-- The locked part: the message goes to the log the call has read, the progress is compared
with the stored one.  `info["progress_msg"]` raises an error when the key is missing. -/
def Call.write (maxLength : Int) (call : Call) (stored : Task) : Task :=
  match call.info.progressMsg with
  | none => stored
  | some message =>
    { progressMsg :=
        if message = "" then stored.progressMsg
        else appendMessage maxLength call.task.progressMsg message
      progress := (call.info.progress.map (setProgress stored.progress)).getD stored.progress }

def Info.appended (info : Info) : List String :=
  info.progressMsg.toList.filter fun message => message ≠ ""

def step (maxLength : Int) (state : State) : Move → State
  | .read info =>
    { state with inFlight := state.inFlight ++ [{ task := state.task, info := info }] }
  | .write index =>
    match state.inFlight[index]? with
    | none => state
    | some call =>
      let task := call.write maxLength state.task
      { task := task
        inFlight := state.inFlight.eraseIdx index
        written := state.written ++ call.info.appended
        history := state.history ++ [task.progress] }

def Steady (earlier later : ℚ) : Prop :=
  (earlier = -1 → later = -1 ∨ 1 ≤ later) ∧ (earlier ≠ -1 → later = -1 ∨ earlier ≤ later)

/-- The log is that of all messages appended so far, and the progress was steady throughout. -/
structure Kept (maxLength : Int) (log : String) (state : State) : Prop where
  messages : state.task.progressMsg = logOf maxLength log state.written
  progress : state.history.IsChain Steady

/-- A call that writes: the log it has read and the present one agree in what trimming leaves of
them, and when it completes the task the recorded progress is not above the reported one. -/
structure Uncrossed (maxLength : Int) (call : Call) (stored : Task) : Prop where
  log : ∀ message ∈ call.info.appended,
    appendMessage maxLength call.task.progressMsg message =
      appendMessage maxLength stored.progressMsg message
  progress : call.info.progressMsg.isSome → ∀ prog ∈ call.info.progress, 1 ≤ prog →
    stored.progress = -1 ∨ stored.progress ≤ prog

def Orderly (maxLength : Int) (state : State) : Move → Prop
  | .read _ => True
  | .write index => ∀ call ∈ state.inFlight[index]?, Uncrossed maxLength call state.task

theorem steady_setProgress {stored prog : ℚ} :
    Steady stored (setProgress stored prog) ↔
      (1 ≤ prog → stored = -1 ∨ stored ≤ prog) := by
  unfold Steady setProgress
  split_ifs with updated
  · by_cases failed : stored = -1
    · have done : 1 ≤ prog := by
        rcases updated with done | ⟨running, -⟩
        · exact done
        · exact absurd failed running
      simp [failed, done]
    · simp only [failed, false_implies, true_and, ne_eq, not_false_eq_true, true_implies, false_or]
      constructor
      · rintro (aborted | later) done
        · linarith
        · exact later
      · intro later
        rcases updated with done | ⟨-, aborted | more⟩
        · exact .inr (later done)
        · exact .inl aborted
        · exact .inr more.le
  · refine iff_of_true ⟨fun failed => .inl failed, fun _ => .inr le_rfl⟩ fun done => ?_
    exact absurd (.inl done) updated

def Tracked (state : State) : Prop := state.history.getLast? = some state.task.progress

theorem tracked_step (maxLength : Int) (state : State) (move : Move) (tracked : Tracked state) :
    Tracked (step maxLength state move) := by
  cases move with
  | read info => exact tracked
  | write index =>
    unfold step
    dsimp only
    split
    · exact tracked
    · simp [Tracked]

theorem tracked_started (task : Task) : Tracked (started task) := rfl

theorem write_messages {maxLength : Int} {log : String} {written : List String} {stored : Task}
    (kept : stored.progressMsg = logOf maxLength log written) (call : Call) :
    (call.write maxLength stored).progressMsg =
        logOf maxLength log (written ++ call.info.appended) ↔
      ∀ message ∈ call.info.appended, appendMessage maxLength call.task.progressMsg message =
        appendMessage maxLength stored.progressMsg message := by
  unfold Call.write Info.appended
  cases call.info.progressMsg with
  | none => simp [kept]
  | some message =>
    by_cases blank : message = ""
    · simp [blank, kept]
    · simp [blank, logOf_concat, kept]

theorem write_progress {maxLength : Int} {stored : Task} (call : Call) :
    Steady stored.progress (call.write maxLength stored).progress ↔
      (call.info.progressMsg.isSome → ∀ prog ∈ call.info.progress, 1 ≤ prog →
        stored.progress = -1 ∨ stored.progress ≤ prog) := by
  have unchanged : Steady stored.progress stored.progress :=
    ⟨fun failed => .inl failed, fun _ => .inr le_rfl⟩
  unfold Call.write
  cases call.info.progressMsg with
  | none => simpa using unchanged
  | some message =>
    cases call.info.progress with
    | none => simpa using unchanged
    | some prog => simpa using steady_setProgress

theorem kept_step {maxLength : Int} {log : String} (state : State) (move : Move)
    (tracked : Tracked state) (kept : Kept maxLength log state) :
    Kept maxLength log (step maxLength state move) ↔ Orderly maxLength state move := by
  cases move with
  | read info => exact iff_of_true ⟨kept.messages, kept.progress⟩ trivial
  | write index =>
    unfold step Orderly
    dsimp only
    split
    · next missing => simp [missing, kept]
    · next call found =>
        have chain :
            (state.history ++ [(call.write maxLength state.task).progress]).IsChain Steady ↔
            Steady state.task.progress (call.write maxLength state.task).progress := by
          rw [List.isChain_append]
          simp [kept.progress, show state.history.getLast? = _ from tracked]
        rw [found]
        constructor
        · rintro ⟨messages, progress⟩ call' same
          obtain rfl := Option.some.inj same
          exact ⟨(write_messages kept.messages call).mp messages,
            (write_progress call).mp (chain.mp progress)⟩
        · intro orderly
          obtain ⟨messages, progress⟩ := orderly call rfl
          exact ⟨(write_messages kept.messages call).mpr messages,
            chain.mpr ((write_progress call).mpr progress)⟩

/-- In every interleaving of the calls, log and progress are kept throughout if and only if no
write crosses another one. -/
theorem alwaysKept_iff (maxLength : Int) (task : Task) (moves : List Move) :
    (∀ before, before <+: moves → Kept maxLength task.progressMsg
      (Runs.run (step maxLength) (started task) before)) ↔
      Runs.Along (step maxLength) (Orderly maxLength) (started task) moves := by
  refine Runs.always_iff_along Tracked (Kept maxLength task.progressMsg)
    (tracked_started task) (tracked_step maxLength) ?_ kept_step moves
  exact ⟨rfl, List.isChain_singleton _⟩

/-- Two calls read the task before either writes: the message of the first is lost, although the
log is far from full. -/
theorem not_kept_of_crossedWrites :
    ¬ Kept 3000 "" (Runs.run (step 3000) (started ⟨"", 0⟩)
      [.read ⟨some "a", none⟩, .read ⟨some "b", none⟩, .write 0, .write 0]) := by
  intro kept
  exact absurd kept.messages (by decide +kernel)

end RagFlow.Documents.TaskProgress
