import Mathlib.Algebra.BigOperators.Group.List.Basic
import Mathlib.Data.List.Nodup
import Mathlib.Tactic.Abel

/-!
# Tables

The rows of a table with a primary key.  `UPDATE … WHERE key = k` changes the row with that key
and keeps the others; what it does to the sum of a column over a group of rows follows.
-/

namespace RagFlow.Lib.Table

universe u v w

variable {Row : Type u} {Key : Type v} [DecidableEq Key]

/-- `UPDATE … WHERE key = k`. -/
def modify (key : Row → Key) (k : Key) (change : Row → Row) (rows : List Row) : List Row :=
  rows.map fun row => if key row = k then change row else row

/-- `DELETE … WHERE key = k`. -/
def delete (key : Row → Key) (k : Key) (rows : List Row) : List Row :=
  rows.filter fun row => key row ≠ k

variable {key : Row → Key} {k : Key} {change : Row → Row}

theorem map_key_modify (same : ∀ row, key (change row) = key row) (rows : List Row) :
    (modify key k change rows).map key = rows.map key := by
  rw [modify, List.map_map]
  apply List.map_congr_left
  intro row _
  by_cases hit : key row = k <;> simp [hit, same]

theorem modify_modify (same : ∀ row, key (change row) = key row) (again : Row → Row)
    (rows : List Row) :
    modify key k again (modify key k change rows) = modify key k (again ∘ change) rows := by
  rw [modify, modify, modify, List.map_map]
  apply List.map_congr_left
  intro row _
  by_cases hit : key row = k <;> simp [hit, same]

theorem modify_of_not_mem {rows : List Row} (missing : k ∉ rows.map key) :
    modify key k change rows = rows := by
  refine (List.map_congr_left fun row stored => ?_).trans (List.map_id rows)
  exact if_neg fun hit => missing (List.mem_map.mpr ⟨row, stored, hit⟩)

theorem find?_modify (same : ∀ row, key (change row) = key row) (rows : List Row) :
    (modify key k change rows).find? (fun row => key row = k) =
      (rows.find? fun row => key row = k).map change := by
  rw [modify, List.find?_map]
  have test : ((fun row => decide (key row = k)) ∘ fun row =>
      if key row = k then change row else row) = fun row => decide (key row = k) := by
    funext row
    by_cases hit : key row = k <;> simp [hit, same]
  rw [test]
  cases found : rows.find? fun row => decide (key row = k) with
  | none => rfl
  | some row =>
    have hit : key row = k := by simpa using List.find?_some found
    simp [hit]

section Upserts

def upsert (key : Row → Key) (rows : List Row) (row : Row) : List Row :=
  rows.filter (fun other => key other ≠ key row) ++ [row]

def upsertAll (key : Row → Key) (new : List Row) (rows : List Row) : List Row :=
  new.foldl (upsert key) rows

theorem mem_upsert {rows : List Row} {row other : Row} :
    other ∈ upsert key rows row ↔ (other ∈ rows ∧ key other ≠ key row) ∨ other = row := by
  simp [upsert]

@[simp] theorem upsertAll_nil (rows : List Row) : upsertAll key [] rows = rows := rfl

theorem upsertAll_append (first second rows : List Row) :
    upsertAll key (first ++ second) rows = upsertAll key second (upsertAll key first rows) :=
  List.foldl_append

theorem mem_upsertAll_of_kept {new rows : List Row} {row : Row} (stored : row ∈ rows)
    (kept : key row ∉ new.map key) : row ∈ upsertAll key new rows := by
  induction new generalizing rows with
  | nil => exact stored
  | cons first new ih =>
    rw [List.map_cons, List.mem_cons, not_or] at kept
    apply ih _ kept.2
    exact mem_upsert.mpr (.inl ⟨stored, kept.1⟩)

theorem mem_upsertAll_cases {new rows : List Row} {row : Row}
    (stored : row ∈ upsertAll key new rows) :
    row ∈ new ∨ (row ∈ rows ∧ key row ∉ new.map key) := by
  induction new generalizing rows with
  | nil => exact .inr ⟨stored, List.not_mem_nil⟩
  | cons first new ih =>
    rcases ih stored with written | ⟨before, kept⟩
    · exact .inl (List.mem_cons_of_mem first written)
    · rcases mem_upsert.mp before with ⟨earlier, differs⟩ | rfl
      · exact .inr ⟨earlier, by simp [differs, kept]⟩
      · exact .inl List.mem_cons_self

theorem exists_written_of_mem {new rows : List Row} {row : Row} (written : row ∈ new) :
    ∃ last ∈ new, key last = key row ∧ last ∈ upsertAll key new rows := by
  induction new generalizing rows row with
  | nil => cases written
  | cons first new ih =>
    by_cases again : key row ∈ new.map key
    · obtain ⟨later, inNew, same⟩ := List.mem_map.mp again
      obtain ⟨last, lastNew, lastKey, stored⟩ :=
        @ih (upsert key rows first) _ inNew
      exact ⟨last, List.mem_cons_of_mem first lastNew, lastKey.trans same, stored⟩
    · obtain rfl : row = first := by
        rcases List.mem_cons.mp written with same | later
        · exact same
        · exact absurd (List.mem_map_of_mem later) again
      have put : row ∈ upsert key rows row := mem_upsert.mpr (.inr rfl)
      refine ⟨row, List.mem_cons_self, rfl, ?_⟩
      exact @mem_upsertAll_of_kept _ _ _ key new _ _ put again

theorem upsertAll_of_fresh {new rows : List Row} (unique : (new.map key).Nodup)
    (fresh : ∀ row ∈ new, key row ∉ rows.map key) : upsertAll key new rows = rows ++ new := by
  induction new generalizing rows with
  | nil => simp
  | cons first new ih =>
    rw [List.map_cons, List.nodup_cons] at unique
    have appended : upsert key rows first = rows ++ [first] := by
      rw [upsert, List.filter_eq_self.mpr]
      intro other stored
      have differs : key other ≠ key first := fun same =>
        fresh first List.mem_cons_self (List.mem_map.mpr ⟨other, stored, same⟩)
      simpa using differs
    have later : ∀ row ∈ new, key row ∉ (rows ++ [first]).map key := by
      intro row inNew
      rw [List.map_append, List.mem_append, not_or]
      refine ⟨fresh row (List.mem_cons_of_mem first inNew), fun same => unique.1 ?_⟩
      rw [List.map_singleton, List.mem_singleton] at same
      exact same ▸ List.mem_map_of_mem inNew
    calc upsertAll key (first :: new) rows
        = upsertAll key new (upsert key rows first) := rfl
      _ = rows ++ [first] ++ new := by rw [appended, ih unique.2 later]
      _ = rows ++ first :: new := by simp

end Upserts

section Sums

variable {Value : Type w} [AddCommGroup Value]

def total (group : Row → Bool) (column : Row → Value) (rows : List Row) : Value :=
  ((rows.filter group).map column).sum

variable {group : Row → Bool} {column : Row → Value}

theorem total_cons (row : Row) (rows : List Row) :
    total group column (row :: rows) =
      (if group row then column row else 0) + total group column rows := by
  by_cases inGroup : group row <;> simp [total, inGroup]

theorem total_append (first second : List Row) :
    total group column (first ++ second) =
      total group column first + total group column second := by
  simp [total]

omit [DecidableEq Key] in
theorem key_cases {first row : Row} {rows : List Row} (unique : key first ∉ rows.map key)
    (stored : row ∈ first :: rows) (hit : key row = k) :
    key first = k ∧ row = first ∨ key first ≠ k ∧ row ∈ rows := by
  rcases List.mem_cons.mp stored with rfl | later
  · exact .inl ⟨hit, rfl⟩
  · exact .inr ⟨fun same => unique (List.mem_map.mpr ⟨row, later, hit.trans same.symm⟩), later⟩

theorem total_modify (sameGroup : ∀ row, group (change row) = group row) {rows : List Row}
    (unique : (rows.map key).Nodup) {row : Row} (stored : row ∈ rows) (hit : key row = k) :
    total group column (modify key k change rows) =
      total group column rows + if group row then column (change row) - column row else 0 := by
  induction rows with
  | nil => cases stored
  | cons first rows ih =>
    rw [List.map_cons, List.nodup_cons] at unique
    rcases key_cases unique.1 stored hit with ⟨here, rfl⟩ | ⟨apart, later⟩
    · have rest : modify key k change rows = rows := modify_of_not_mem (here ▸ unique.1)
      rw [modify] at rest ⊢
      rw [List.map_cons, rest, total_cons, total_cons, if_pos here, sameGroup]
      by_cases inGroup : group row <;> simp [inGroup]
      abel
    · have rest := ih unique.2 later
      rw [modify] at rest ⊢
      rw [List.map_cons, total_cons, total_cons, if_neg apart, rest, add_assoc]

theorem total_delete {rows : List Row} (unique : (rows.map key).Nodup) {row : Row}
    (stored : row ∈ rows) (hit : key row = k) :
    total group column (delete key k rows) =
      total group column rows - if group row then column row else 0 := by
  induction rows with
  | nil => cases stored
  | cons first rows ih =>
    rw [List.map_cons, List.nodup_cons] at unique
    rcases key_cases unique.1 stored hit with ⟨here, rfl⟩ | ⟨apart, later⟩
    · have rest : delete key k rows = rows := List.filter_eq_self.mpr fun other later => by
        have differs : key other ≠ k := fun same =>
          unique.1 (List.mem_map.mpr ⟨other, later, same.trans here.symm⟩)
        simpa using differs
      rw [delete] at rest ⊢
      rw [List.filter_cons_of_neg (by simp [here]), rest, total_cons]
      abel
    · have rest := ih unique.2 later
      rw [delete] at rest ⊢
      rw [List.filter_cons_of_pos (by simp [apart]), total_cons, total_cons, rest]
      abel

end Sums

end RagFlow.Lib.Table
