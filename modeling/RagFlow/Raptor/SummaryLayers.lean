import Mathlib.Algebra.Order.Ring.Rat
import Mathlib.Algebra.Ring.Nat
import Mathlib.Data.List.Basic
import Mathlib.Data.List.Chain

/-!
# Layers of summaries

A builder starts from the chunks that have a text and an embedding and puts layers of summaries
behind them.  The boundaries of the layers are intervals of the list that it returns.
-/

namespace RagFlow.Raptor

structure Chunk where
  text : String
  embedding : List ℚ
  deriving DecidableEq

def Chunk.complete (chunk : Chunk) : Bool := chunk.text ≠ "" && !chunk.embedding.isEmpty

abbrev Bounds := List (Nat × Nat)

def boundsFrom : Nat → List Nat → Bounds
  | _, [] => []
  | start, size :: sizes => (start, start + size) :: boundsFrom (start + size) sizes

theorem boundsFrom_append (start : Nat) (sizes : List Nat) (size : Nat) :
    boundsFrom start (sizes ++ [size]) =
      boundsFrom start sizes ++ [(start + sizes.sum, start + sizes.sum + size)] := by
  induction sizes generalizing start with
  | nil => rfl
  | cons first sizes ih =>
    rw [List.cons_append, boundsFrom, boundsFrom, ih, List.sum_cons,
      Nat.add_assoc]
    rfl

/-- The chunks that were kept, with the layers of summaries behind them. -/
structure Layered (kept : List Chunk) (groups : List (List Chunk)) (chunks : List Chunk)
    (layers : Bounds) : Prop where
  chunks_eq : chunks = kept ++ groups.flatten
  layers_eq : layers = boundsFrom 0 (kept.length :: groups.map List.length)

namespace Layered

variable {kept chunks : List Chunk} {groups : List (List Chunk)} {layers : Bounds}

theorem start (kept : List Chunk) : Layered kept [] kept [(0, kept.length)] :=
  ⟨(List.append_nil kept).symm, by simp [boundsFrom]⟩

theorem length_eq (layered : Layered kept groups chunks layers) :
    (kept.length :: groups.map List.length).sum = chunks.length := by
  rw [layered.chunks_eq, List.sum_cons, List.length_append, List.length_flatten]

theorem append (layered : Layered kept groups chunks layers) (group : List Chunk) :
    Layered kept (groups ++ [group]) (chunks ++ group)
      (layers ++ [(chunks.length, chunks.length + group.length)]) where
  chunks_eq := by
    rw [layered.chunks_eq, List.flatten_append, List.flatten_singleton, List.append_assoc]
  layers_eq := by
    have same := layered.length_eq
    rw [List.map_append, List.map_singleton, ← List.cons_append, boundsFrom_append, same,
      Nat.zero_add, layered.layers_eq]

end Layered

end RagFlow.Raptor
