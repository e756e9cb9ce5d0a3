import Mathlib.Data.List.Basic

/-!
# Bisection without monotonicity

A bisection narrows an interval to the place where a test changes from true to false.  Where the
test is not monotone it still ends at a place that all its probes agree with, and there is only
one such place.
-/

namespace RagFlow.Lib.Bisection

def midpoint (left stop : Nat) : Nat := (left + stop - 1) / 2

/-- The least number of `[left, stop)` that the search leaves above it. -/
def bisect (found : Nat → Bool) (left stop : Nat) : Nat :=
  if left < stop then
    if found (midpoint left stop) then
      bisect found (midpoint left stop + 1) stop
    else
      bisect found left (midpoint left stop)
  else
    left
termination_by stop - left
decreasing_by all_goals simp only [midpoint]; omega

/-- Where a search that ends at `target` looks. -/
def probes (target left stop : Nat) : List Nat :=
  if left < stop then
    midpoint left stop ::
      if midpoint left stop < target then
        probes target (midpoint left stop + 1) stop
      else
        probes target left (midpoint left stop)
  else
    []
termination_by stop - left
decreasing_by all_goals simp only [midpoint]; omega

theorem midpoint_within {left stop : Nat} (lt : left < stop) :
    left ≤ midpoint left stop ∧ midpoint left stop < stop := by
  simp only [midpoint]
  omega

theorem bisect_within (found : Nat → Bool) {left stop : Nat} (le : left ≤ stop) :
    left ≤ bisect found left stop ∧ bisect found left stop ≤ stop := by
  fun_induction bisect found left stop with
  | case1 left stop lt _ ih =>
    have within := midpoint_within lt
    have := ih (by omega)
    omega
  | case2 left stop lt _ ih =>
    have within := midpoint_within lt
    have := ih (by omega)
    omega
  | case3 left stop _ => exact ⟨Nat.le_refl _, le⟩

theorem found_bisect (found : Nat → Bool) {left stop : Nat} (le : left ≤ stop)
    (lt : bisect found left stop < stop) : found (bisect found left stop) = false := by
  fun_induction bisect found left stop with
  | case1 left stop isOpen _ ih => exact ih (midpoint_within isOpen).2 lt
  | case2 left stop isOpen isLow ih =>
    have le : left ≤ midpoint left stop := (midpoint_within isOpen).1
    rcases Nat.lt_or_eq_of_le (bisect_within found le).2 with lt | same
    · exact ih le lt
    · rw [same]
      exact Bool.not_eq_true _ ▸ isLow
  | case3 left stop notLt => omega

theorem found_pred_bisect (found : Nat → Bool) {left stop : Nat} (le : left ≤ stop)
    (lt : left < bisect found left stop) : found (bisect found left stop - 1) = true := by
  fun_induction bisect found left stop with
  | case1 left stop isOpen isHigh ih =>
    have within := midpoint_within isOpen
    rcases Nat.lt_or_eq_of_le (bisect_within found within.2).1 with lt | same
    · exact ih within.2 lt
    · rw [← same]
      exact isHigh
  | case2 left stop isOpen _ ih => exact ih (midpoint_within isOpen).1 lt
  | case3 left stop _ => omega

theorem probes_eq {target left stop : Nat} (lt : left < stop) :
    probes target left stop = midpoint left stop ::
      if midpoint left stop < target then probes target (midpoint left stop + 1) stop
      else probes target left (midpoint left stop) := by
  rw [probes, if_pos lt]

theorem bisect_eq_iff (found : Nat → Bool) {left stop target : Nat} (le : left ≤ stop) :
    bisect found left stop = target ↔ left ≤ target ∧ target ≤ stop ∧
      ∀ probe ∈ probes target left stop, found probe = true ↔ probe < target := by
  fun_induction bisect found left stop with
  | case1 left stop lt isHigh ih =>
    have within := midpoint_within lt
    rw [ih (by omega), probes_eq lt]
    constructor
    · rintro ⟨lower, upper, agree⟩
      apply And.intro (by omega) (And.intro upper _)
      rw [if_pos (by omega)]
      exact List.forall_mem_cons.mpr ⟨⟨fun _ => by omega, fun _ => isHigh⟩, agree⟩
    · rintro ⟨_, upper, agree⟩
      obtain ⟨first, later⟩ := List.forall_mem_cons.mp agree
      have lower := first.mp isHigh
      rw [if_pos lower] at later
      exact ⟨lower, upper, later⟩
  | case2 left stop lt isLow ih =>
    have within := midpoint_within lt
    rw [ih (by omega), probes_eq lt]
    constructor
    · rintro ⟨lower, upper, agree⟩
      apply And.intro lower (And.intro (by omega) _)
      rw [if_neg (by omega)]
      exact List.forall_mem_cons.mpr
        ⟨⟨fun isHigh => absurd isHigh isLow, fun _ => by omega⟩, agree⟩
    · rintro ⟨lower, _, agree⟩
      obtain ⟨first, later⟩ := List.forall_mem_cons.mp agree
      have upper : ¬ midpoint left stop < target := fun below => isLow (first.mpr below)
      rw [if_neg upper] at later
      exact ⟨lower, by omega, later⟩
  | case3 left stop notLt =>
    rw [probes, if_neg notLt]
    constructor
    · rintro rfl
      exact ⟨Nat.le_refl _, le, by simp⟩
    · rintro ⟨lower, upper, _⟩
      omega

end RagFlow.Lib.Bisection
