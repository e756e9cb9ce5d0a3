import Mathlib.Data.Finset.Card
import Mathlib.Data.Finite.Prod
import Mathlib.Order.WellFounded
import Mathlib.Logic.Relation
import Mathlib.Data.Fintype.EquivFin
import Mathlib.Order.RelClasses
import Mathlib.Data.Set.Finite.List

/-!
# Descents along a list of edges

How deep a recursion from a vertex to its successors goes.  When it ends at all, it ends within
one level more than there are edges, and it ends at every vertex of a graph without cycles.
-/

namespace RagFlow.Lib.Descent

universe u

variable {Vertex : Type u}

def EndsWithin (edges : List (Vertex × Vertex)) : Nat → Vertex → Prop
  | 0, _ => False
  | depth + 1, vertex => ∀ next, (vertex, next) ∈ edges → EndsWithin edges depth next

variable {edges : List (Vertex × Vertex)}

theorem EndsWithin.succ {depth : Nat} {vertex : Vertex} (ends : EndsWithin edges depth vertex) :
    EndsWithin edges (depth + 1) vertex := by
  induction depth generalizing vertex with
  | zero => exact ends.elim
  | succ depth ih =>
    exact fun next edge => ih (ends next edge)

theorem EndsWithin.mono {depth deeper : Nat} (le : depth ≤ deeper) {vertex : Vertex}
    (ends : EndsWithin edges depth vertex) : EndsWithin edges deeper vertex := by
  induction deeper, le using Nat.le_induction with
  | base => exact ends
  | succ _ _ ih => exact ih.succ

theorem exists_edges_of_exact [DecidableEq Vertex] {depth : Nat} {vertex : Vertex}
    (ends : EndsWithin edges (depth + 1) vertex) (tight : ¬ EndsWithin edges depth vertex) :
    ∃ passed : Finset (Vertex × Vertex), passed ⊆ edges.toFinset ∧ passed.card = depth ∧
      ∀ edge ∈ passed, EndsWithin edges (depth + 1) edge.1 := by
  induction depth generalizing vertex with
  | zero => exact ⟨∅, by simp⟩
  | succ depth ih =>
    simp only [EndsWithin, not_forall] at tight
    obtain ⟨next, edge, deep⟩ := tight
    obtain ⟨passed, ofEdges, card, sources⟩ := ih (ends next edge) deep
    have fresh : (vertex, next) ∉ passed := by
      intro member
      exact deep (sources _ member next edge)
    refine ⟨insert (vertex, next) passed, ?_, ?_, ?_⟩
    · exact Finset.insert_subset (List.mem_toFinset.mpr edge) ofEdges
    · rw [Finset.card_insert_of_notMem fresh, card]
    · intro other member
      rcases Finset.mem_insert.mp member with rfl | member
      · exact ends
      · exact (sources other member).succ

theorem EndsWithin.of_ends {depth : Nat} {vertex : Vertex} (ends : EndsWithin edges depth vertex) :
    EndsWithin edges (edges.length + 1) vertex := by
  classical
  induction depth with
  | zero => exact ends.elim
  | succ depth ih =>
    by_cases tight : EndsWithin edges depth vertex
    · exact ih tight
    · obtain ⟨passed, ofEdges, card, _⟩ := exists_edges_of_exact ends tight
      have bounded : depth ≤ edges.length := by
        calc depth = passed.card := card.symm
          _ ≤ edges.toFinset.card := Finset.card_le_card ofEdges
          _ ≤ edges.length := List.toFinset_card_le edges
      exact ends.mono (Nat.succ_le_succ bounded)

theorem exists_common_depth (targets : List Vertex)
    (ends : ∀ next ∈ targets, ∃ depth, EndsWithin edges depth next) :
    ∃ depth, ∀ next ∈ targets, EndsWithin edges depth next := by
  induction targets with
  | nil => exact ⟨0, by simp⟩
  | cons head rest ih =>
    obtain ⟨headDepth, headEnds⟩ := ends head List.mem_cons_self
    obtain ⟨restDepth, restEnds⟩ := ih fun next member =>
      ends next (List.mem_cons_of_mem head member)
    refine ⟨max headDepth restDepth, fun next member => ?_⟩
    rcases List.mem_cons.mp member with rfl | inRest
    · exact headEnds.mono (le_max_left _ _)
    · exact (restEnds next inRest).mono (le_max_right _ _)

theorem exists_endsWithin_of_successors {vertex : Vertex}
    (ends : ∀ next, (vertex, next) ∈ edges → ∃ depth, EndsWithin edges depth next) :
    ∃ depth, EndsWithin edges depth vertex := by
  classical
  obtain ⟨depth, all⟩ := exists_common_depth
    ((edges.filter fun edge => edge.1 = vertex).map Prod.snd) (by
      rintro _ member
      obtain ⟨⟨source, next⟩, selected, rfl⟩ := List.mem_map.mp member
      obtain ⟨edge, same⟩ := List.mem_filter.mp selected
      obtain rfl : source = vertex := of_decide_eq_true same
      exact ends next edge)
  refine ⟨depth + 1, fun next edge => all next ?_⟩
  exact List.mem_map.mpr ⟨(vertex, next), by simp [edge], rfl⟩

theorem endsWithin_of_acyclic
    (acyclic : ∀ vertex, ¬ Relation.TransGen (fun x y => (x, y) ∈ edges) vertex vertex)
    (vertex : Vertex) : EndsWithin edges (edges.length + 1) vertex := by
  let below : {x // x ∈ edges.map Prod.snd} → {x // x ∈ edges.map Prod.snd} → Prop :=
    fun x y => Relation.TransGen (fun x y => (x, y) ∈ edges) y.1 x.1
  have : Finite {x // x ∈ edges.map Prod.snd} := List.finite_toSet _
  have : IsTrans _ below := ⟨fun _ _ _ first second => second.trans first⟩
  have : Std.Irrefl below := ⟨fun x => acyclic x.1⟩
  have wellFounded : WellFounded below := Finite.wellFounded_of_trans_of_irrefl below
  have ended : ∀ target : {x // x ∈ edges.map Prod.snd},
      ∃ depth, EndsWithin edges depth target.1 := by
    intro target
    induction target using wellFounded.induction with
    | _ target ih =>
      apply exists_endsWithin_of_successors
      intro next edge
      exact ih ⟨next, List.mem_map_of_mem edge⟩ (Relation.TransGen.single edge)
  obtain ⟨depth, ends⟩ : ∃ depth, EndsWithin edges depth vertex :=
    exists_endsWithin_of_successors fun next edge => ended ⟨next, List.mem_map_of_mem edge⟩
  exact ends.of_ends

theorem acyclic_of_rank (rank : Vertex → Nat) (rises : ∀ edge ∈ edges, rank edge.1 < rank edge.2)
    (vertex : Vertex) : ¬ Relation.TransGen (fun x y => (x, y) ∈ edges) vertex vertex := by
  intro cycle
  have rises_along : ∀ last, Relation.TransGen (fun x y => (x, y) ∈ edges) vertex last →
      rank vertex < rank last := by
    intro last path
    induction path with
    | single edge => exact rises _ edge
    | tail _ edge ih => exact ih.trans (rises _ edge)
  exact (rises_along vertex cycle).false

section OneMore

variable {link : Vertex → Vertex → Prop} {source target : Vertex}

theorem transGen_or_through {first last : Vertex}
    (path : Relation.TransGen (fun x y => link x y ∨ x = source ∧ y = target) first last) :
    Relation.TransGen link first last ∨
      Relation.ReflTransGen link first source ∧ Relation.ReflTransGen link target last := by
  induction path with
  | single edge =>
    rcases edge with edge | ⟨rfl, rfl⟩
    · exact Or.inl (Relation.TransGen.single edge)
    · exact Or.inr ⟨.refl, .refl⟩
  | tail _ edge ih =>
    rcases edge with edge | ⟨rfl, rfl⟩
    · rcases ih with path | ⟨before, after⟩
      · exact Or.inl (path.tail edge)
      · exact Or.inr ⟨before, after.tail edge⟩
    · rcases ih with path | ⟨before, _⟩
      · exact Or.inr ⟨path.to_reflTransGen, .refl⟩
      · exact Or.inr ⟨before, .refl⟩

theorem acyclic_or_edge_iff (acyclic : ∀ vertex, ¬ Relation.TransGen link vertex vertex) :
    (∀ vertex, ¬ Relation.TransGen (fun x y => link x y ∨ x = source ∧ y = target) vertex vertex) ↔
      ¬ Relation.ReflTransGen link target source := by
  constructor
  · intro acyclicAfter back
    have kept : Relation.ReflTransGen (fun x y => link x y ∨ x = source ∧ y = target)
        target source :=
      Relation.ReflTransGen.mono (fun _ _ edge => Or.inl edge) _ _ back
    exact acyclicAfter source (Relation.TransGen.head' (Or.inr ⟨rfl, rfl⟩) kept)
  · intro noWayBack vertex cycle
    rcases transGen_or_through cycle with path | ⟨before, after⟩
    · exact acyclic vertex path
    · exact noWayBack (after.trans before)

end OneMore

end RagFlow.Lib.Descent
