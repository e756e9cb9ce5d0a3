import Mathlib.Data.List.Induction

/-!
# Runs of a state machine

A run applies one move after the other.  Properties of all states of a run follow from
what one move preserves, if need be only along the runs whose moves meet a condition.
-/

namespace RagFlow.Lib.Runs

universe u v

variable {State : Type u} {Move : Type v}

def run (step : State → Move → State) (start : State) (moves : List Move) : State :=
  moves.foldl step start

def Along (step : State → Move → State) (condition : State → Move → Prop) (start : State)
    (moves : List Move) : Prop :=
  ∀ before move after, moves = before ++ move :: after → condition (run step start before) move

variable {step : State → Move → State} {condition : State → Move → Prop} {start : State}

@[simp] theorem run_nil : run step start [] = start := rfl

theorem run_concat (moves : List Move) (move : Move) :
    run step start (moves ++ [move]) = step (run step start moves) move := by
  simp [run]

theorem along_nil : Along step condition start [] := by
  intro before move after split
  simp at split

theorem along_concat {moves : List Move} {move : Move} :
    Along step condition start (moves ++ [move]) ↔
      Along step condition start moves ∧ condition (run step start moves) move := by
  constructor
  · intro along
    refine ⟨fun before other after split => ?_, along moves move [] rfl⟩
    exact along before other (after ++ [move]) (by simp [split])
  · rintro ⟨along, last⟩ before other after split
    rcases List.eq_nil_or_concat after with rfl | ⟨rest, final, rfl⟩
    · obtain ⟨rfl, sameMove⟩ := List.append_inj' split rfl
      exact List.head_eq_of_cons_eq sameMove ▸ last
    · rw [List.concat_eq_append, ← List.cons_append, ← List.append_assoc] at split
      exact along before other rest (List.append_inj' split rfl).1

theorem along_cons {move : Move} {moves : List Move} :
    Along step condition start (move :: moves) ↔
      condition start move ∧ Along step condition (step start move) moves := by
  constructor
  · intro along
    exact ⟨along [] move moves rfl, fun before other after split =>
      along (move :: before) other after (by rw [split, List.cons_append])⟩
  · rintro ⟨first, along⟩ before other after split
    cases before with
    | nil => exact List.head_eq_of_cons_eq split ▸ first
    | cons earlier before =>
      obtain rfl := List.head_eq_of_cons_eq split
      exact along before other after (List.tail_eq_of_cons_eq split)

instance decidableAlong [∀ state move, Decidable (condition state move)] :
    (start : State) → (moves : List Move) → Decidable (Along step condition start moves)
  | _, [] => isTrue along_nil
  | start, move :: moves =>
    haveI := decidableAlong (step start move) moves
    decidable_of_iff' _ along_cons

theorem along_and {other : State → Move → Prop} {moves : List Move} :
    Along step (fun state move => condition state move ∧ other state move) start moves ↔
      Along step condition start moves ∧ Along step other start moves := by
  constructor
  · intro along
    exact ⟨fun before move after split => (along before move after split).1,
      fun before move after split => (along before move after split).2⟩
  · rintro ⟨first, second⟩ before move after split
    exact ⟨first before move after split, second before move after split⟩

theorem invariant_run {invariant : State → Prop} (initially : invariant start)
    (preserved : ∀ state move, invariant state → invariant (step state move))
    (moves : List Move) : invariant (run step start moves) := by
  induction moves using List.reverseRecOn with
  | nil => exact initially
  | append_singleton moves move ih =>
    rw [run_concat]
    exact preserved _ move ih

theorem along_congr {other : State → Move → Prop} {invariant : State → Prop}
    (initially : invariant start)
    (preserved : ∀ state move, invariant state → invariant (step state move))
    (agree : ∀ state move, invariant state → (condition state move ↔ other state move))
    {moves : List Move} : Along step condition start moves ↔ Along step other start moves := by
  constructor
  · intro along before move after split
    exact (agree _ move (invariant_run initially preserved before)).mp
      (along before move after split)
  · intro along before move after split
    exact (agree _ move (invariant_run initially preserved before)).mpr
      (along before move after split)

theorem invariant_along {invariant : State → Prop} (initially : invariant start)
    (preserved : ∀ state move, condition state move → invariant state → invariant (step state move))
    {moves : List Move} (along : Along step condition start moves) :
    invariant (run step start moves) := by
  induction moves using List.reverseRecOn with
  | nil => exact initially
  | append_singleton moves move ih =>
    obtain ⟨earlier, last⟩ := along_concat.mp along
    rw [run_concat]
    exact preserved _ move last (ih earlier)

theorem along_of_invariant {other : State → Move → Prop} {invariant : State → Prop}
    (initially : invariant start)
    (preserved : ∀ state move, condition state move → invariant state → invariant (step state move))
    (follows : ∀ state move, condition state move → invariant state → other state move)
    {moves : List Move} (along : Along step condition start moves) :
    Along step other start moves := by
  intro before move after split
  have earlier : Along step condition start before := by
    intro first next rest parts
    apply along first next (rest ++ move :: after)
    rw [split, parts, List.append_assoc, List.cons_append]
  exact follows _ move (along before move after split)
    (invariant_along initially preserved earlier)

theorem iff_along (invariant property : State → Prop) (initially : invariant start)
    (preserved : ∀ state move, invariant state → invariant (step state move))
    (holds : property start)
    (exact_step : ∀ state move, invariant state →
      (property (step state move) ↔ property state ∧ condition state move))
    (moves : List Move) :
    property (run step start moves) ↔ Along step condition start moves := by
  induction moves using List.reverseRecOn with
  | nil => exact iff_of_true holds along_nil
  | append_singleton moves move ih =>
    rw [run_concat, along_concat, exact_step _ move (invariant_run initially preserved moves),
      ih]

theorem always_iff_along_possible {possible : State → Move → Prop}
    (invariant property : State → Prop) (initially : invariant start)
    (preserved : ∀ state move, possible state move → invariant state → invariant (step state move))
    (holds : property start)
    (exact_step : ∀ state move, possible state move → invariant state → property state →
      (property (step state move) ↔ condition state move))
    (moves : List Move) (all_possible : Along step possible start moves) :
    (∀ before, before <+: moves → property (run step start before)) ↔
      Along step condition start moves := by
  induction moves using List.reverseRecOn with
  | nil => simpa [along_nil] using holds
  | append_singleton moves move ih =>
    obtain ⟨earlier_possible, last_possible⟩ := along_concat.mp all_possible
    have reached := invariant_along initially preserved earlier_possible
    rw [along_concat, ← ih earlier_possible]
    constructor
    · intro always
      have earlier : ∀ before, before <+: moves → property (run step start before) :=
        fun before isPrefix => always before (isPrefix.trans (List.prefix_append moves [move]))
      have last := always _ List.prefix_rfl
      rw [run_concat] at last
      exact ⟨earlier, (exact_step _ move last_possible reached
        (earlier moves List.prefix_rfl)).mp last⟩
    · rintro ⟨earlier, last⟩ before isPrefix
      rcases List.prefix_concat_iff.mp isPrefix with rfl | shorter
      · rw [run_concat]
        exact (exact_step _ move last_possible reached (earlier moves List.prefix_rfl)).mpr last
      · exact earlier before shorter

theorem always_iff_along (invariant property : State → Prop) (initially : invariant start)
    (preserved : ∀ state move, invariant state → invariant (step state move))
    (holds : property start)
    (exact_step : ∀ state move, invariant state → property state →
      (property (step state move) ↔ condition state move))
    (moves : List Move) :
    (∀ before, before <+: moves → property (run step start before)) ↔
      Along step condition start moves := by
  have all_possible : Along step (fun _ _ => True) start moves := fun _ _ _ _ => trivial
  exact always_iff_along_possible invariant property initially
    (fun state move _ => preserved state move) holds (fun state move _ => exact_step state move)
    moves all_possible

end RagFlow.Lib.Runs
