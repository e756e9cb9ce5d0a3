import Mathlib.Data.List.Basic

/-!
# Boolean queries

A query combines conditions on one object by clauses that all have to match, clauses that must not
match, and clauses of which a minimum number should match.
-/

namespace RagFlow.Lib

universe u

inductive BoolQuery (Leaf : Type u) where
  | leaf (condition : Leaf)
  | bool (filter must mustNot should : List (BoolQuery Leaf)) (minimumShouldMatch : Nat)

namespace BoolQuery

variable {Leaf : Type u}

mutual

def eval (holds : Leaf → Bool) : BoolQuery Leaf → Bool
  | .leaf condition => holds condition
  | .bool filter must mustNot should minimumShouldMatch =>
    (evalEach holds filter).all id && (evalEach holds must).all id &&
      !(evalEach holds mustNot).any id &&
      decide (minimumShouldMatch ≤ (evalEach holds should).count true)

def evalEach (holds : Leaf → Bool) : List (BoolQuery Leaf) → List Bool
  | [] => []
  | query :: rest => eval holds query :: evalEach holds rest

end

mutual

def leaves : BoolQuery Leaf → List Leaf
  | .leaf condition => [condition]
  | .bool filter must mustNot should _ =>
    leavesOf filter ++ leavesOf must ++ leavesOf mustNot ++ leavesOf should

def leavesOf : List (BoolQuery Leaf) → List Leaf
  | [] => []
  | query :: rest => leaves query ++ leavesOf rest

end

variable {holds : Leaf → Bool}

theorem evalEach_eq_map (queries : List (BoolQuery Leaf)) :
    evalEach holds queries = queries.map (eval holds) := by
  induction queries with
  | nil => rfl
  | cons query rest ih => simp [evalEach, ih]

theorem leavesOf_eq_flatMap (queries : List (BoolQuery Leaf)) :
    leavesOf queries = queries.flatMap leaves := by
  induction queries with
  | nil => rfl
  | cons query rest ih => simp [leavesOf, ih]

@[simp] theorem eval_leaf (condition : Leaf) : eval holds (.leaf condition) = holds condition := by
  simp [eval]

@[simp] theorem leaves_leaf (condition : Leaf) : leaves (.leaf condition) = [condition] := by
  simp [leaves]

@[simp] theorem leaves_bool (filter must mustNot should : List (BoolQuery Leaf)) (minimum : Nat) :
    leaves (.bool filter must mustNot should minimum) =
      (filter ++ must ++ mustNot ++ should).flatMap leaves := by
  simp [leaves, leavesOf_eq_flatMap]

@[simp] theorem eval_bool_zero (filter must mustNot : List (BoolQuery Leaf)) :
    eval holds (.bool filter must mustNot [] 0) = true ↔
      (∀ query ∈ filter, eval holds query = true) ∧ (∀ query ∈ must, eval holds query = true) ∧
        ∀ query ∈ mustNot, eval holds query = false := by
  simp [eval, evalEach_eq_map, and_assoc]

@[simp] theorem eval_should (should : List (BoolQuery Leaf)) :
    eval holds (.bool [] [] [] should 1) = true ↔ ∃ query ∈ should, eval holds query = true := by
  simp [eval, evalEach_eq_map, Nat.one_le_iff_ne_zero, List.count_eq_zero]

end BoolQuery

end RagFlow.Lib
