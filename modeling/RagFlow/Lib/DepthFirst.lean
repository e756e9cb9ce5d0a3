import Mathlib.Logic.Relation
import Mathlib.Data.List.Nodup

/-!
# Depth-first searches

A search along the successors of vertices that remembers the keys of the vertices it has been at.
It tells whether the goal is a proper descendant of the vertex where it starts.
-/

namespace RagFlow.Lib.DepthFirst

universe u v

variable {Vertex : Type u} {Key : Type v}

section Search

variable [DecidableEq Key] (key : Vertex → Key) (next : Vertex → List Vertex) (goal : Key)

def findsAmong (search : Vertex → List Key → Option (Bool × List Key)) :
    List Vertex → List Key → Option (Bool × List Key)
  | [], visited => some (false, visited)
  | vertex :: rest, visited =>
    if key vertex = goal then some (true, visited)
    else
      match search vertex visited with
      | some (false, visited) => findsAmong search rest visited
      | found => found

/-- Whether the goal is found, and what has been visited; `none` when the search is deeper than
the fuel. -/
def finds : Nat → Vertex → List Key → Option (Bool × List Key)
  | 0, _, _ => none
  | fuel + 1, vertex, visited =>
    if key vertex ∈ visited then some (false, visited)
    else findsAmong key goal (finds fuel) (next vertex) (key vertex :: visited)

end Search

variable {key : Vertex → Key} {next : Vertex → List Vertex} {goal : Key}
  {edge : Key → Key → Prop}

theorem transGen_of_finds [DecidableEq Key]
    (leads : ∀ vertex, ∀ other ∈ next vertex, edge (key vertex) (key other))
    {fuel : Nat} {vertex : Vertex} {visited after : List Key}
    (found : finds key next goal fuel vertex visited = some (true, after)) :
    Relation.TransGen edge (key vertex) goal := by
  induction fuel generalizing vertex visited after with
  | zero => simp [finds] at found
  | succ fuel ih =>
    unfold finds at found
    by_cases known : key vertex ∈ visited
    · simp [known] at found
    · rw [if_neg known] at found
      suffices among : ∀ vertices visited, (∀ other ∈ vertices, edge (key vertex) (key other)) →
          findsAmong key goal (finds key next goal fuel) vertices visited = some (true, after) →
          Relation.TransGen edge (key vertex) goal from
        among (next vertex) _ (leads vertex) found
      intro vertices
      induction vertices with
      | nil =>
        intro visited _ found
        simp [findsAmong] at found
      | cons other rest restHypothesis =>
        intro visited edges found
        rw [List.forall_mem_cons] at edges
        unfold findsAmong at found
        by_cases isGoal : key other = goal
        · exact isGoal ▸ Relation.TransGen.single edges.1
        · rw [if_neg isGoal] at found
          cases searched : finds key next goal fuel other visited with
          | none => simp [searched] at found
          | some result =>
            obtain ⟨isFound, later⟩ := result
            cases isFound with
            | true => exact Relation.TransGen.head edges.1 (ih searched)
            | false =>
              simp only [searched] at found
              exact restHypothesis later edges.2 found

/-- What a search has visited since, with all its successors, none of them the goal. -/
structure Explored (edge : Key → Key → Prop) (goal : Key) (visited after : List Key) : Prop where
  kept : visited ⊆ after
  closed : ∀ x ∈ after, x ∉ visited → ∀ y, edge x y → y ∈ after ∧ y ≠ goal

theorem Explored.refl (visited : List Key) : Explored edge goal visited visited :=
  ⟨List.Subset.refl visited, fun _ member fresh => absurd member fresh⟩

theorem Explored.trans {first second third : List Key}
    (before : Explored edge goal first second) (later : Explored edge goal second third) :
    Explored edge goal first third := by
  refine ⟨List.Subset.trans before.kept later.kept, fun x member fresh y isEdge => ?_⟩
  by_cases early : x ∈ second
  · obtain ⟨inSecond, other⟩ := before.closed x early fresh y isEdge
    exact ⟨later.kept inSecond, other⟩
  · exact later.closed x member early y isEdge

theorem Explored.of_cons {vertex : Key} {visited after : List Key}
    (explored : Explored edge goal (vertex :: visited) after)
    (successors : ∀ y, edge vertex y → y ∈ after ∧ y ≠ goal) :
    Explored edge goal visited after := by
  refine ⟨fun x member => explored.kept (List.mem_cons_of_mem _ member), ?_⟩
  intro x member fresh y isEdge
  by_cases itself : x = vertex
  · exact successors y (itself ▸ isEdge)
  · refine explored.closed x member ?_ y isEdge
    simp [itself, fresh]

section Searches

variable [DecidableEq Key]

theorem explored_of_finds
    (leads : ∀ vertex y, edge (key vertex) y → ∃ other ∈ next vertex, key other = y)
    {fuel : Nat} {vertex : Vertex} {visited after : List Key}
    (missed : finds key next goal fuel vertex visited = some (false, after)) :
    Explored edge goal visited after ∧ key vertex ∈ after := by
  induction fuel generalizing vertex visited after with
  | zero => simp [finds] at missed
  | succ fuel ih =>
    unfold finds at missed
    by_cases known : key vertex ∈ visited
    · simp only [known, if_true, Option.some.injEq, Prod.mk.injEq, true_and] at missed
      subst missed
      exact ⟨.refl visited, known⟩
    · rw [if_neg known] at missed
      suffices among : ∀ vertices visited,
          findsAmong key goal (finds key next goal fuel) vertices visited = some (false, after) →
          Explored edge goal visited after ∧
            ∀ other ∈ vertices, key other ∈ after ∧ key other ≠ goal by
        obtain ⟨explored, successors⟩ := among (next vertex) _ missed
        refine ⟨explored.of_cons fun y isEdge => ?_, explored.kept List.mem_cons_self⟩
        obtain ⟨other, member, rfl⟩ := leads vertex y isEdge
        exact successors other member
      intro vertices
      induction vertices with
      | nil =>
        intro visited missed
        obtain rfl : visited = after := by simpa [findsAmong] using missed
        exact ⟨.refl visited, by simp⟩
      | cons other rest restHypothesis =>
        intro visited missed
        unfold findsAmong at missed
        by_cases isGoal : key other = goal
        · simp [isGoal] at missed
        · rw [if_neg isGoal] at missed
          cases searched : finds key next goal fuel other visited with
          | none => simp [searched] at missed
          | some result =>
            obtain ⟨isFound, later⟩ := result
            cases isFound with
            | true => simp [searched] at missed
            | false =>
              simp only [searched] at missed
              obtain ⟨before, present⟩ := ih searched
              obtain ⟨explored, successors⟩ := restHypothesis later missed
              refine ⟨before.trans explored, ?_⟩
              rw [List.forall_mem_cons]
              exact ⟨⟨explored.kept present, isGoal⟩, successors⟩

theorem not_transGen_of_finds
    (leads : ∀ vertex y, edge (key vertex) y → ∃ other ∈ next vertex, key other = y)
    {fuel : Nat} {vertex : Vertex} {after : List Key}
    (missed : finds key next goal fuel vertex [] = some (false, after)) :
    ¬ Relation.TransGen edge (key vertex) goal := by
  obtain ⟨explored, present⟩ := explored_of_finds leads missed
  intro path
  have visited : ∀ last, Relation.TransGen edge (key vertex) last → last ∈ after ∧ last ≠ goal := by
    intro last path
    induction path with
    | single isEdge => exact explored.closed _ present List.not_mem_nil _ isEdge
    | tail _ isEdge ih =>
      exact explored.closed _ ih.1 List.not_mem_nil _ isEdge
  exact (visited goal path).2 rfl

def unvisited (keys visited : List Key) : Nat := keys.countP fun x => x ∉ visited

theorem unvisited_mono {keys visited after : List Key} (kept : visited ⊆ after) :
    unvisited keys after ≤ unvisited keys visited := by
  apply List.countP_mono_left
  intro x _ fresh
  simp only [decide_eq_true_eq] at fresh ⊢
  exact fun member => fresh (kept member)

theorem unvisited_cons_lt {keys visited : List Key} {x : Key} (present : x ∈ keys)
    (fresh : x ∉ visited) : unvisited keys (x :: visited) < unvisited keys visited := by
  induction keys with
  | nil => simp at present
  | cons head rest ih =>
    have restMono : unvisited rest (x :: visited) ≤ unvisited rest visited :=
      unvisited_mono fun _ member => List.mem_cons_of_mem _ member
    simp only [unvisited, List.countP_cons] at ih restMono ⊢
    by_cases same : x = head
    · subst same
      rw [if_neg (by simp), if_pos (by simpa using fresh)]
      exact Nat.lt_succ_of_le restMono
    · have inRest : x ∈ rest := by
        rcases List.mem_cons.mp present with rfl | inRest
        · contradiction
        · exact inRest
      have fewer := ih inRest
      by_cases known : head ∈ visited
      · rw [if_neg (by simp [known]), if_neg (by simp [known])]
        exact fewer
      · rw [if_pos (by simp [known, Ne.symm same]), if_pos (by simp [known])]
        exact Nat.succ_lt_succ fewer

theorem finds_isSome {keys : List Key}
    (leads : ∀ vertex y, edge (key vertex) y → ∃ other ∈ next vertex, key other = y)
    (among : ∀ vertex, ∀ other ∈ next vertex, key other ∈ keys)
    {fuel : Nat} {vertex : Vertex} (present : key vertex ∈ keys) {visited : List Key}
    (enough : unvisited keys visited < fuel) :
    (finds key next goal fuel vertex visited).isSome := by
  induction fuel generalizing vertex visited with
  | zero => omega
  | succ fuel ih =>
    unfold finds
    by_cases known : key vertex ∈ visited
    · simp [known]
    · rw [if_neg known]
      have fewer := unvisited_cons_lt present known
      have enoughLeft : unvisited keys (key vertex :: visited) < fuel := by omega
      suffices loop : ∀ vertices visited, (∀ other ∈ vertices, key other ∈ keys) →
          unvisited keys visited < fuel →
          (findsAmong key goal (finds key next goal fuel) vertices visited).isSome from
        loop (next vertex) _ (among vertex) enoughLeft
      intro vertices
      induction vertices with
      | nil => simp [findsAmong]
      | cons other rest restHypothesis =>
        intro visited inKeys enough
        rw [List.forall_mem_cons] at inKeys
        unfold findsAmong
        by_cases isGoal : key other = goal
        · simp [isGoal]
        · rw [if_neg isGoal]
          obtain ⟨result, searched⟩ :=
            Option.isSome_iff_exists.mp (ih inKeys.1 enough)
          obtain ⟨isFound, later⟩ := result
          cases isFound with
          | true => simp [searched]
          | false =>
            simp only [searched]
            have kept := (explored_of_finds leads searched).1.kept
            exact restHypothesis later inKeys.2 (Nat.lt_of_le_of_lt (unvisited_mono kept) enough)

end Searches

end RagFlow.Lib.DepthFirst
