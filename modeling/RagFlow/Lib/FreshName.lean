import Mathlib.Data.List.Nodup
import Mathlib.Data.List.Perm.Subperm
import Mathlib.Logic.Function.Iterate

/-!
# Fresh names

A name is changed again and again until it is not taken.  Finitely many names are taken and the
changed names are all different, so this ends with a free one.
-/

namespace RagFlow.Lib

universe u

variable {Name : Type u}

def firstFree (taken : Name → Bool) (change : Name → Name) : ℕ → Name → Name
  | 0, name => name
  | retries + 1, name => if taken name then firstFree taken change retries (change name) else name

theorem exists_iterate_of_taken {taken : Name → Bool} {change : Name → Name} :
    ∀ (retries : ℕ) (name : Name), taken (firstFree taken change retries name) = true →
      ∀ index < retries, taken (change^[index] name) = true
  | 0, _, _ => fun _ impossible => nomatch impossible
  | retries + 1, name, stuck => by
    intro index within
    unfold firstFree at stuck
    by_cases here : taken name = true
    · rw [if_pos here] at stuck
      cases index with
      | zero => exact here
      | succ index =>
        rw [Function.iterate_succ_apply]
        exact exists_iterate_of_taken retries _ stuck index (Nat.lt_of_succ_lt_succ within)
    · rw [if_neg here] at stuck
      exact absurd stuck here

theorem firstFree_free {taken : Name → Bool} {change : Name → Name} {name : Name}
    (distinct : Function.Injective fun index => change^[index] name) {names : List Name}
    (all : ∀ other, taken other = true → other ∈ names) {retries : ℕ}
    (enough : names.length < retries) : taken (firstFree taken change retries name) = false := by
  by_contra stuck
  have hits := exists_iterate_of_taken retries name (Bool.not_eq_false _ ▸ stuck)
  have nodup : ((List.range retries).map fun index => change^[index] name).Nodup :=
    List.nodup_range.map distinct
  have subset : ((List.range retries).map fun index => change^[index] name) ⊆ names := by
    intro other member
    obtain ⟨index, within, rfl⟩ := List.mem_map.mp member
    exact all _ (hits index (List.mem_range.mp within))
  have length := (List.subperm_of_subset nodup subset).length_le
  rw [List.length_map, List.length_range] at length
  omega

end RagFlow.Lib
