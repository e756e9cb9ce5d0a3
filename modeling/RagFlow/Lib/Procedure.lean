import Mathlib.Data.List.Basic

/-!
# Procedures that leave a trace

What a procedure did, step by step, and how it ended: control went on to its end, it returned
early or it raised.  Procedures are put one after the other, and a loop is the sequence of its
rounds.
-/

namespace RagFlow.Lib.Procedure

universe u v

inductive Outcome
  | done
  | returned
  | raised
deriving DecidableEq, Repr

structure Run (Event : Type u) where
  trace : List Event
  outcome : Outcome
deriving DecidableEq, Repr

variable {Event : Type u} {Round : Type v}

namespace Run

def pass : Run Event := ⟨[], .done⟩

/-- `return`. -/
def stop : Run Event := ⟨[], .returned⟩

def raise : Run Event := ⟨[], .raised⟩

def perform (events : List Event) : Run Event := ⟨events, .done⟩

def andThen (first next : Run Event) : Run Event :=
  match first.outcome with
  | .done => ⟨first.trace ++ next.trace, next.outcome⟩
  | _ => first

def sequence : List (Run Event) → Run Event
  | [] => pass
  | first :: rest => first.andThen (sequence rest)

def called (run : Run Event) : Run Event :=
  ⟨run.trace, if run.outcome = .raised then .raised else .done⟩

/-- `try: … finally: …`. -/
def ensuring (run : Run Event) (events : List Event) : Run Event :=
  ⟨run.trace ++ events, run.outcome⟩

@[simp] theorem called_trace (run : Run Event) : run.called.trace = run.trace := rfl
@[simp] theorem ensuring_trace (run : Run Event) (events : List Event) :
    (run.ensuring events).trace = run.trace ++ events := rfl
@[simp] theorem ensuring_outcome (run : Run Event) (events : List Event) :
    (run.ensuring events).outcome = run.outcome := rfl
@[simp] theorem pass_trace : (pass : Run Event).trace = [] := rfl
@[simp] theorem pass_outcome : (pass : Run Event).outcome = .done := rfl
@[simp] theorem stop_trace : (stop : Run Event).trace = [] := rfl
@[simp] theorem stop_outcome : (stop : Run Event).outcome = .returned := rfl
@[simp] theorem raise_trace : (raise : Run Event).trace = [] := rfl
@[simp] theorem raise_outcome : (raise : Run Event).outcome = .raised := rfl
@[simp] theorem perform_trace (events : List Event) : (perform events).trace = events := rfl
@[simp] theorem perform_outcome (events : List Event) : (perform events).outcome = .done := rfl
@[simp] theorem sequence_nil : sequence [] = (pass : Run Event) := rfl
@[simp] theorem sequence_cons (first : Run Event) (rest : List (Run Event)) :
    sequence (first :: rest) = first.andThen (sequence rest) := rfl

variable {first next : Run Event}

theorem andThen_done (ended : first.outcome = .done) :
    first.andThen next = ⟨first.trace ++ next.trace, next.outcome⟩ := by
  rw [andThen, ended]

theorem andThen_of_not_done (ended : first.outcome ≠ .done) : first.andThen next = first := by
  rw [andThen]
  split
  · next isDone => exact absurd isDone ended
  · rfl

@[simp] theorem pass_andThen : pass.andThen next = next := rfl
@[simp] theorem stop_andThen : stop.andThen next = stop := rfl
@[simp] theorem raise_andThen : raise.andThen next = raise := rfl

@[simp] theorem andThen_pass : first.andThen pass = first := by
  by_cases ended : first.outcome = .done
  · rw [andThen_done ended, pass_trace, List.append_nil, pass_outcome, ← ended]
  · exact andThen_of_not_done ended

@[simp] theorem perform_andThen (events : List Event) :
    (perform events).andThen next = ⟨events ++ next.trace, next.outcome⟩ := rfl

@[simp] theorem done_andThen (events : List Event) :
    (mk events .done).andThen next = ⟨events ++ next.trace, next.outcome⟩ := rfl

@[simp] theorem returned_andThen (events : List Event) :
    (mk events .returned).andThen next = ⟨events, .returned⟩ := rfl

@[simp] theorem raised_andThen (events : List Event) :
    (mk events .raised).andThen next = ⟨events, .raised⟩ := rfl

@[simp] theorem andThen_outcome_done :
    (first.andThen next).outcome = .done ↔ first.outcome = .done ∧ next.outcome = .done := by
  by_cases ended : first.outcome = .done
  · simp [andThen_done ended, ended]
  · simp [andThen_of_not_done ended, ended]

theorem andThen_assoc (last : Run Event) :
    (first.andThen next).andThen last = first.andThen (next.andThen last) := by
  by_cases ended : first.outcome = .done
  · by_cases nextEnded : next.outcome = .done
    · simp [andThen, ended, nextEnded]
    · rw [andThen_of_not_done nextEnded, andThen_of_not_done]
      simp [nextEnded]
  · rw [andThen_of_not_done ended, andThen_of_not_done ended, andThen_of_not_done ended]

theorem andThen_trace_of_silent (silent : next.trace = []) :
    (first.andThen next).trace = first.trace := by
  by_cases ended : first.outcome = .done
  · rw [andThen_done ended, silent, List.append_nil]
  · rw [andThen_of_not_done ended]

theorem silent_andThen_trace (silent : first.trace = []) :
    (first.andThen next).trace = if first.outcome = .done then next.trace else [] := by
  by_cases ended : first.outcome = .done
  · rw [andThen_done ended, silent, List.nil_append, if_pos ended]
  · rw [andThen_of_not_done ended, silent, if_neg ended]

theorem mem_andThen {event : Event} (member : event ∈ (first.andThen next).trace) :
    event ∈ first.trace ∨ event ∈ next.trace := by
  by_cases ended : first.outcome = .done
  · rw [andThen_done ended] at member
    exact List.mem_append.mp member
  · rw [andThen_of_not_done ended] at member
    exact .inl member

theorem mem_sequence {event : Event} {runs : List (Run Event)}
    (member : event ∈ (sequence runs).trace) : ∃ run ∈ runs, event ∈ run.trace := by
  induction runs with
  | nil => cases member
  | cons first rest ih =>
    rcases mem_andThen member with early | late
    · exact ⟨first, List.mem_cons_self, early⟩
    · obtain ⟨run, inRest, here⟩ := ih late
      exact ⟨run, List.mem_cons_of_mem first inRest, here⟩

theorem sequence_done_iff {runs : List (Run Event)} :
    (sequence runs).outcome = .done ↔ ∀ run ∈ runs, run.outcome = .done := by
  induction runs with
  | nil => simp
  | cons first rest ih => simp [ih]

theorem sequence_trace_of_done {runs : List (Run Event)}
    (ended : ∀ run ∈ runs, run.outcome = .done) :
    (sequence runs).trace = runs.flatMap trace := by
  induction runs with
  | nil => rfl
  | cons first rest ih =>
    rw [List.forall_mem_cons] at ended
    rw [sequence_cons, andThen_done ended.1, List.flatMap_cons, ih ended.2]

theorem sequence_breaks_off {runs : List (Run Event)}
    (broken : (sequence runs).outcome ≠ .done) :
    ∃ before run after, runs = before ++ run :: after ∧
      (∀ earlier ∈ before, earlier.outcome = .done) ∧
      run.outcome ≠ .done ∧ (sequence runs).outcome = run.outcome ∧
      (sequence runs).trace = before.flatMap trace ++ run.trace := by
  induction runs with
  | nil => exact absurd rfl broken
  | cons first rest ih =>
    by_cases ended : first.outcome = .done
    · rw [sequence_cons, andThen_done ended] at broken
      obtain ⟨before, run, after, split, all, stops, outcome, trace⟩ := ih broken
      refine ⟨first :: before, run, after, by rw [split, List.cons_append], ?_, stops, ?_, ?_⟩
      · exact List.forall_mem_cons.mpr ⟨ended, all⟩
      · rw [sequence_cons, andThen_done ended, outcome]
      · rw [sequence_cons, andThen_done ended, trace, List.flatMap_cons, List.append_assoc]
    · refine ⟨[], first, rest, rfl, by simp, ended, ?_, ?_⟩
      · rw [sequence_cons, andThen_of_not_done ended]
      · rw [sequence_cons, andThen_of_not_done ended, List.flatMap_nil, List.nil_append]

end Run

end RagFlow.Lib.Procedure
