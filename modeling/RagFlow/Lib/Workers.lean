import Mathlib.Data.List.Basic

/-!
# Workers on shared state

Each worker has a program, the statements that it has still to execute.  A turn executes the first
statement of one worker as one atomic step on the shared state; the statement decides what is left
of the program.
-/

namespace RagFlow.Lib

universe u v

structure Workers (Shared : Type u) (Statement : Type v) where
  shared : Shared
  programs : List (List Statement)

namespace Workers

variable {Shared : Type u} {Statement : Type v}

def spawn (program : List Statement) (workers : Workers Shared Statement) :
    Workers Shared Statement :=
  { workers with programs := workers.programs ++ [program] }

/-- The turn of one worker.  `run` takes a statement and the rest of its program. -/
def exec (run : Shared → Statement → List Statement → Shared × List Statement) (index : ℕ)
    (workers : Workers Shared Statement) : Workers Shared Statement :=
  match workers.programs[index]? with
  | some (statement :: rest) =>
    let (shared, program) := run workers.shared statement rest
    ⟨shared, workers.programs.set index program⟩
  | _ => workers

def current? (index : ℕ) (workers : Workers Shared Statement) : Option Statement :=
  workers.programs[index]?.bind List.head?

def Pending (workers : Workers Shared Statement) (statement : Statement) : Prop :=
  ∃ program ∈ workers.programs, statement ∈ program

def countPending (kind : Statement → Bool) (workers : Workers Shared Statement) : ℕ :=
  workers.programs.flatten.countP kind

variable {run : Shared → Statement → List Statement → Shared × List Statement} {index : ℕ}
  {workers : Workers Shared Statement}

theorem exec_cases (run : Shared → Statement → List Statement → Shared × List Statement)
    (index : ℕ) (workers : Workers Shared Statement) :
    exec run index workers = workers ∨ ∃ statement rest,
      workers.current? index = some statement ∧
      workers.programs[index]? = some (statement :: rest) ∧
      exec run index workers = ⟨(run workers.shared statement rest).1,
        workers.programs.set index (run workers.shared statement rest).2⟩ := by
  unfold exec current?
  cases found : workers.programs[index]? with
  | none => exact .inl (by simp)
  | some program =>
    cases program with
    | nil => exact .inl (by simp)
    | cons statement rest => exact .inr ⟨statement, rest, by simp, by simp, by simp⟩

theorem pending_of_getElem? {program : List Statement} {statement : Statement}
    (found : workers.programs[index]? = some program) (member : statement ∈ program) :
    workers.Pending statement :=
  ⟨program, List.mem_of_getElem? found, member⟩

theorem pending_set {shared : Shared} {program : List Statement} {statement : Statement}
    (pending : Pending ⟨shared, workers.programs.set index program⟩ statement) :
    workers.Pending statement ∨ statement ∈ program := by
  obtain ⟨other, member, inOther⟩ := pending
  rcases List.mem_or_eq_of_mem_set member with old | rfl
  · exact .inl ⟨other, old, inOther⟩
  · exact .inr inOther

theorem pending_spawn {program : List Statement} {statement : Statement} :
    (workers.spawn program).Pending statement ↔
      workers.Pending statement ∨ statement ∈ program := by
  simp only [Pending, spawn, List.mem_append, List.mem_singleton, or_and_right, exists_or,
    exists_eq_left]

theorem countPending_spawn (kind : Statement → Bool) (program : List Statement) :
    (workers.spawn program).countPending kind =
      workers.countPending kind + program.countP kind := by
  simp [countPending, spawn]

theorem countPending_set (kind : Statement → Bool) {shared : Shared} {old : List Statement}
    (found : workers.programs[index]? = some old) (program : List Statement) :
    countPending kind ⟨shared, workers.programs.set index program⟩ + old.countP kind =
      workers.countPending kind + program.countP kind := by
  obtain ⟨before, programs⟩ := workers
  unfold countPending
  simp only at found ⊢
  induction programs generalizing index with
  | nil => simp at found
  | cons first programs ih =>
    cases index with
    | zero =>
      obtain rfl : first = old := by simpa using found
      simp only [List.set_cons_zero, List.flatten_cons, List.countP_append]
      omega
    | succ index =>
      have later := ih (by simpa using found)
      simp only [List.set_cons_succ, List.flatten_cons, List.countP_append]
      omega

theorem countPending_eq_zero {kind : Statement → Bool} :
    workers.countPending kind = 0 ↔
      ∀ statement, workers.Pending statement → kind statement = false := by
  simp only [countPending, List.countP_eq_zero, List.mem_flatten, Pending, Bool.not_eq_true]

end Workers

end RagFlow.Lib
