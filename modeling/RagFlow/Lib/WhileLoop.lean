import Mathlib.Logic.Relation

/-!
# Loops with a guard

The body of a loop may go on, break or raise an error.  A measure that gets smaller bounds how
often it runs, and the loop ends without an error exactly when no state it reaches raises one.
-/

namespace RagFlow.Lib.WhileLoop

universe u v

variable {State : Type u} {Error : Type v} (guard : State → Bool)
  (body : State → Except Error (Option State))

def loop : Nat → State → Option (Except Error State)
  | 0, _ => none
  | fuel + 1, state =>
    if guard state then
      match body state with
      | .error error => some (.error error)
      | .ok none => some (.ok state)
      | .ok (some next) => loop fuel next
    else some (.ok state)

def Next (state next : State) : Prop := guard state = true ∧ body state = .ok (some next)

abbrev Reached (start state : State) : Prop :=
  Relation.ReflTransGen (Next guard body) start state

variable {guard body}

theorem loop_succ_of_next {state next : State} (isNext : Next guard body state next) (fuel : Nat) :
    loop guard body (fuel + 1) state = loop guard body fuel next := by
  rw [loop, if_pos isNext.1, isNext.2]

theorem reached_of_loop {fuel : Nat} {start final : State}
    (ends : loop guard body fuel start = some (.ok final)) :
    Reached guard body start final ∧ (guard final = true → body final = .ok none) := by
  induction fuel generalizing start with
  | zero => cases ends
  | succ fuel ih =>
    rw [loop] at ends
    by_cases isOn : guard start = true
    · rw [if_pos isOn] at ends
      cases result : body start with
      | error error =>
        rw [result] at ends
        cases ends
      | ok step =>
        rw [result] at ends
        cases step with
        | none =>
          cases ends
          exact ⟨.refl, fun _ => result⟩
        | some next =>
          obtain ⟨reached, breaks⟩ := ih ends
          exact ⟨.head ⟨isOn, result⟩ reached, breaks⟩
    · rw [if_neg isOn] at ends
      cases ends
      exact ⟨.refl, fun guarded => absurd guarded isOn⟩

theorem invariant_of_reached {invariant : State → Prop} {start state : State}
    (holds : invariant start)
    (preserved : ∀ state next, invariant state → Next guard body state next → invariant next)
    (reached : Reached guard body start state) : invariant state := by
  induction reached with
  | refl => exact holds
  | tail _ isNext ih => exact preserved _ _ ih isNext

theorem ok_of_loop {fuel : Nat} {start final state : State}
    (ends : loop guard body fuel start = some (.ok final))
    (reached : Reached guard body start state) (isOn : guard state = true) :
    ∃ step, body state = .ok step := by
  induction reached using Relation.ReflTransGen.head_induction_on generalizing fuel with
  | refl =>
    cases fuel with
    | zero => cases ends
    | succ fuel =>
      rw [loop, if_pos isOn] at ends
      cases result : body state with
      | error error =>
        rw [result] at ends
        cases ends
      | ok step => exact ⟨step, rfl⟩
  | head isNext _ ih =>
    cases fuel with
    | zero => cases ends
    | succ fuel =>
      rw [loop_succ_of_next isNext] at ends
      exact ih ends

theorem exists_loop {measure : State → Nat} {invariant : State → Prop}
    (preserved : ∀ state next, invariant state → Next guard body state next → invariant next)
    (decreases : ∀ state next, invariant state → Next guard body state next →
      measure next < measure state) {fuel : Nat} {start : State} (holds : invariant start)
    (enough : measure start < fuel) : ∃ result, loop guard body fuel start = some result := by
  induction fuel generalizing start with
  | zero => exact absurd enough (Nat.not_lt_zero _)
  | succ fuel ih =>
    by_cases isOn : guard start = true
    · cases result : body start with
      | error error => exact ⟨.error error, by rw [loop, if_pos isOn, result]⟩
      | ok step =>
        cases step with
        | none => exact ⟨.ok start, by rw [loop, if_pos isOn, result]⟩
        | some next =>
          have isNext : Next guard body start next := ⟨isOn, result⟩
          rw [loop_succ_of_next isNext]
          apply ih (preserved _ _ holds isNext)
          exact Nat.lt_of_lt_of_le (decreases _ _ holds isNext) (Nat.le_of_lt_succ enough)
    · exact ⟨.ok start, by rw [loop, if_neg isOn]⟩

theorem exists_loop_ok_iff {measure : State → Nat} {invariant : State → Prop}
    (preserved : ∀ state next, invariant state → Next guard body state next → invariant next)
    (decreases : ∀ state next, invariant state → Next guard body state next →
      measure next < measure state) {start : State} (holds : invariant start) :
    (∃ fuel final, loop guard body fuel start = some (.ok final)) ↔
      ∀ state, Reached guard body start state → guard state = true →
        ∃ step, body state = .ok step := by
  constructor
  · rintro ⟨fuel, final, ends⟩ state reached isOn
    exact ok_of_loop ends reached isOn
  · intro noError
    suffices runs : ∀ fuel state, Reached guard body start state → measure state < fuel →
        ∃ final, loop guard body fuel state = some (.ok final) from
      ⟨measure start + 1, runs _ start .refl (Nat.lt_succ_self _)⟩
    intro fuel
    induction fuel with
    | zero => exact fun state _ less => absurd less (Nat.not_lt_zero _)
    | succ fuel ih =>
      intro state reached less
      by_cases isOn : guard state = true
      · obtain ⟨step, result⟩ := noError state reached isOn
        cases step with
        | none => exact ⟨state, by rw [loop, if_pos isOn, result]⟩
        | some next =>
          have isNext : Next guard body state next := ⟨isOn, result⟩
          rw [loop_succ_of_next isNext]
          apply ih next (reached.tail isNext)
          have isInvariant := invariant_of_reached holds preserved reached
          exact Nat.lt_of_lt_of_le (decreases _ _ isInvariant isNext) (Nat.le_of_lt_succ less)
      · exact ⟨state, by rw [loop, if_neg isOn]⟩

end RagFlow.Lib.WhileLoop
