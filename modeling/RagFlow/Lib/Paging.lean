import Mathlib.Data.List.Basic
import Mathlib.Data.List.Perm.Basic
import Mathlib.Data.List.Range
import Mathlib.Data.Nat.Basic
import Mathlib.Tactic.Ring

/-!
# Reading fixed-size pages through larger blocks

A reader numbers pages of `size` entries, while its source only hands out blocks of `width`
entries.  When `size` divides `width`, no page straddles two blocks, and the pages read one
after the other are the blocks read one after the other.
-/

namespace RagFlow.Lib.Paging

universe u v

variable {Alpha : Type u} {Beta : Type v}

/-- The entries from position `start` on, at most `size` of them. -/
def slice (values : List Alpha) (start size : Nat) : List Alpha :=
  (values.drop start).take size

@[simp]
theorem slice_nil (start size : Nat) : slice ([] : List Alpha) start size = [] := by
  simp [slice]

theorem slice_length_le (values : List Alpha) (start size : Nat) :
    (slice values start size).length ≤ size := by
  simp [slice]

theorem map_slice (f : Alpha → Beta) (values : List Alpha) (start size : Nat) :
    (slice values start size).map f = slice (values.map f) start size := by
  simp [slice, List.map_take, List.map_drop]

theorem take_append_slice (values : List Alpha) (start size : Nat) :
    values.take start ++ slice values start size = values.take (start + size) := by
  rw [slice, List.take_add]

theorem flatMap_slice (values : List Alpha) (size count : Nat) :
    (List.range count).flatMap (fun index => slice values (index * size) size) =
      values.take (count * size) := by
  induction count with
  | zero => simp
  | succ count ih =>
    rw [List.range_succ, List.flatMap_append, ih, List.flatMap_singleton,
      take_append_slice, Nat.succ_mul]

/-- The list cut into batches of `size` entries. -/
def batches (size : Nat) (values : List Alpha) : List (List Alpha) :=
  (List.range ((values.length + size - 1) / size)).map fun index => slice values (index * size) size

theorem flatten_batches {size : Nat} (positive : 0 < size) (values : List Alpha) :
    (batches size values).flatten = values := by
  have covered : values.length ≤ (values.length + size - 1) / size * size := by
    have division := Nat.div_add_mod (values.length + size - 1) size
    have remainder := Nat.mod_lt (values.length + size - 1) positive
    rw [Nat.mul_comm] at division
    omega
  rw [batches, ← List.flatMap_def, flatMap_slice, List.take_of_length_le covered]

/-- Page `index` of `size` entries, cut out of the block its offset lies in. -/
def pageThrough (block : Nat → List Alpha) (width size index : Nat) : List Alpha :=
  slice (block (index * size / width)) (index * size % width) size

theorem map_pageThrough (f : Alpha → Beta) (block : Nat → List Alpha) (width size index : Nat) :
    (pageThrough block width size index).map f =
      pageThrough (fun index => (block index).map f) width size index :=
  map_slice f _ _ _

theorem advance {width size : Nat} (divides : size ∣ width) (positive : 0 < width)
    (index : Nat) :
    (index * size % width + size < width ∧
      (index + 1) * size / width = index * size / width ∧
      (index + 1) * size % width = index * size % width + size) ∨
    (index * size % width + size = width ∧
      (index + 1) * size / width = index * size / width + 1 ∧
      (index + 1) * size % width = 0) := by
  have aligned : size ∣ index * size % width :=
    (Nat.dvd_mod_iff divides).mpr (Nat.dvd_mul_left size index)
  have below : index * size % width < width := Nat.mod_lt _ positive
  -- Both the offset in the block and the width are whole numbers of pages.
  have fits : index * size % width + size ≤ width := by
    obtain ⟨pages, pagesEq⟩ := aligned
    obtain ⟨total, totalEq⟩ := divides
    have fewer : pages < total := by
      rw [pagesEq, totalEq] at below
      exact Nat.lt_of_mul_lt_mul_left below
    calc index * size % width + size = size * (pages + 1) := by rw [pagesEq]; ring
      _ ≤ size * total := Nat.mul_le_mul_left size fewer
      _ = width := totalEq.symm
  have split : (index + 1) * size =
      width * (index * size / width) + (index * size % width + size) := by
    have division := Nat.div_add_mod (index * size) width
    rw [Nat.succ_mul]
    omega
  rcases Nat.lt_or_eq_of_le fits with inside | boundary
  · left
    refine ⟨inside, ?_, ?_⟩
    · rw [split, Nat.mul_add_div positive, Nat.div_eq_of_lt inside, Nat.add_zero]
    · rw [split, Nat.mul_add_mod, Nat.mod_eq_of_lt inside]
  · right
    refine ⟨boundary, ?_, ?_⟩
    · rw [split, boundary, Nat.mul_add_div positive, Nat.div_self positive]
    · rw [split, boundary, Nat.mul_add_mod, Nat.mod_self]

theorem flatMap_pageThrough {block : Nat → List Alpha} {width size : Nat}
    (divides : size ∣ width) (positive : 0 < width)
    (bounded : ∀ index, (block index).length ≤ width) (count : Nat) :
    (List.range count).flatMap (pageThrough block width size) =
      (List.range (count * size / width)).flatMap block ++
        (block (count * size / width)).take (count * size % width) := by
  induction count with
  | zero => simp
  | succ count ih =>
    rw [List.range_succ, List.flatMap_append, ih, List.flatMap_singleton,
      pageThrough, List.append_assoc, take_append_slice]
    rcases advance divides positive count with
      ⟨_, sameBlock, offset⟩ | ⟨full, nextBlock, offset⟩
    · rw [sameBlock, offset]
    · rw [nextBlock, offset, full, List.take_of_length_le (bounded _), List.range_succ,
        List.flatMap_append, List.flatMap_singleton, List.take_zero, List.append_nil]

theorem flatMap_blocks_perm {keep : Alpha → Bool} {process : List Alpha → List Alpha}
    (processed : ∀ values, (process values).Perm (values.filter keep))
    (values : List Alpha) (width count : Nat) :
    ((List.range count).flatMap fun index => process (slice values (index * width) width)).Perm
      ((values.take (count * width)).filter keep) := by
  rw [← flatMap_slice values width count, List.filter_flatMap]
  exact List.Perm.flatMap_left _ fun index _ => processed _

theorem flatMap_pageThrough_perm {keep : Alpha → Bool} {process : List Alpha → List Alpha}
    (processed : ∀ values, (process values).Perm (values.filter keep))
    {width size : Nat} (divides : size ∣ width) (positive : 0 < width)
    (values : List Alpha) {count : Nat} (covered : values.length ≤ count * size) :
    ((List.range count).flatMap
        (pageThrough (fun index => process (slice values (index * width) width)) width size)).Perm
      (values.filter keep) := by
  have shorter : ∀ part, (process part).length ≤ part.length := fun part =>
    (processed part).length_eq ▸ List.length_filter_le keep part
  rw [flatMap_pageThrough divides positive
    (fun index => (shorter _).trans (slice_length_le _ _ _))]
  have division := Nat.div_add_mod (count * size) width
  have remainder : count * size % width < width := Nat.mod_lt _ positive
  have tail : (process (slice values (count * size / width * width) width)).length ≤
      count * size % width := by
    refine (shorter _).trans ?_
    rw [slice, List.length_take, List.length_drop]
    rw [Nat.mul_comm] at division
    omega
  rw [List.take_of_length_le tail]
  have whole := flatMap_blocks_perm processed values width (count * size / width + 1)
  rw [List.range_succ, List.flatMap_append, List.flatMap_singleton,
    List.take_of_length_le (by rw [Nat.mul_comm] at division; rw [Nat.succ_mul]; omega)] at whole
  exact whole

def Within (interval : Nat × Nat) (position : Nat) : Prop :=
  interval.1 ≤ position ∧ position < interval.2

instance (interval : Nat × Nat) (position : Nat) : Decidable (Within interval position) :=
  inferInstanceAs (Decidable (_ ∧ _))

def Apart (first second : Nat × Nat) : Prop :=
  ∀ position, Within first position → ¬ Within second position

/-- The interval cut into pieces of `size` positions. -/
def cuts (size start stop : Nat) : List (Nat × Nat) :=
  (List.range ((stop - start + size - 1) / size)).map fun index =>
    (start + index * size, min (start + index * size + size) stop)

section Cuts

variable {size start stop : Nat}

theorem mem_cuts (positive : 0 < size) {piece : Nat × Nat} :
    piece ∈ cuts size start stop ↔ ∃ index, start + index * size < stop ∧
      piece = (start + index * size, min (start + index * size + size) stop) := by
  rw [cuts, List.mem_map]
  constructor
  · rintro ⟨index, inRange, rfl⟩
    rw [List.mem_range, Nat.lt_div_iff_mul_lt positive] at inRange
    exact ⟨index, by omega, rfl⟩
  · rintro ⟨index, before, rfl⟩
    refine ⟨index, ?_, rfl⟩
    rw [List.mem_range, Nat.lt_div_iff_mul_lt positive]
    omega

theorem cuts_nonempty (positive : 0 < size) {piece : Nat × Nat}
    (isPiece : piece ∈ cuts size start stop) : piece.1 < piece.2 := by
  obtain ⟨index, before, rfl⟩ := (mem_cuts positive).mp isPiece
  exact lt_min (by omega) before

theorem within_cuts_iff (positive : 0 < size) {position : Nat} :
    (∃ piece ∈ cuts size start stop, Within piece position) ↔ Within (start, stop) position := by
  constructor
  · rintro ⟨piece, isPiece, below, above⟩
    obtain ⟨index, before, rfl⟩ := (mem_cuts positive).mp isPiece
    exact ⟨by omega, lt_of_lt_of_le above (min_le_right _ _)⟩
  · rintro ⟨below, above⟩
    have division := Nat.div_add_mod (position - start) size
    have remainder := Nat.mod_lt (position - start) positive
    rw [Nat.mul_comm] at division
    refine ⟨_, (mem_cuts positive).mpr ⟨(position - start) / size, by omega, rfl⟩, ?_, ?_⟩
    · change start + (position - start) / size * size ≤ position
      omega
    · exact lt_min (by omega) above

theorem cuts_apart : (cuts size start stop).Pairwise Apart := by
  rw [cuts, List.pairwise_map]
  refine List.pairwise_lt_range.imp fun {first second} earlier position inFirst inSecond => ?_
  have ends : position < start + first * size + size := lt_of_lt_of_le inFirst.2 (min_le_left _ _)
  have starts : start + second * size ≤ position := inSecond.1
  have next : (first + 1) * size ≤ second * size := Nat.mul_le_mul_right size earlier
  rw [Nat.succ_mul] at next
  omega

theorem cuts_apart_iff (positive : 0 < size) {otherStart otherStop : Nat} :
    (∀ piece ∈ cuts size start stop, ∀ other ∈ cuts size otherStart otherStop,
      Apart piece other) ↔ Apart (start, stop) (otherStart, otherStop) := by
  constructor
  · intro apart position inFirst inSecond
    obtain ⟨piece, isPiece, inPiece⟩ := (within_cuts_iff positive).mpr inFirst
    obtain ⟨other, isOther, inOther⟩ := (within_cuts_iff positive).mpr inSecond
    exact apart piece isPiece other isOther position inPiece inOther
  · intro apart piece isPiece other isOther position inPiece inOther
    exact apart position ((within_cuts_iff positive).mp ⟨piece, isPiece, inPiece⟩)
      ((within_cuts_iff positive).mp ⟨other, isOther, inOther⟩)

end Cuts

end RagFlow.Lib.Paging
