import Mathlib.Data.List.Sort
import Mathlib.Logic.Relation
import Mathlib.Order.Bounds.Basic

/-!
# The first gap in a list of numbers

Where numbers in ascending order first fail to follow each other, for any successor that is not
smaller than its number.
-/

namespace RagFlow.Lib.FirstGap

universe u

variable {Value : Type u} [LinearOrder Value] (addOne : Value → Value)

def firstGap : List Value → Option Value
  | [] => none
  | [last] => some (addOne last)
  | first :: next :: rest =>
    if addOne first = next then firstGap (next :: rest) else some (addOne first)

/-- A number comes once, its successor is another one and there is nothing in between. -/
structure Continues (values : List Value) (value : Value) : Prop where
  once : values.count value = 1
  grows : value < addOne value
  next : addOne value ∈ values
  between : ∀ other ∈ values, value < other → addOne value ≤ other

def Follows (values : List Value) (value next : Value) : Prop :=
  Continues addOne values value ∧ next = addOne value

def Runs (values : List Value) (last : Value) : Prop :=
  ∃ least, IsLeast { value | value ∈ values } least ∧
    Relation.ReflTransGen (Follows addOne values) least last

structure EndsRun (values : List Value) (last : Value) : Prop where
  runs : Runs addOne values last
  stops : ¬ Continues addOne values last

variable {addOne} {values other : List Value}

theorem Runs.mem {last : Value} (runs : Runs addOne values last) : last ∈ values := by
  obtain ⟨least, isLeast, follows⟩ := runs
  induction follows with
  | refl => exact isLeast.1
  | tail _ step _ => exact step.2 ▸ step.1.next

theorem EndsRun.unique {first second : Value} (ends : EndsRun addOne values first)
    (endsToo : EndsRun addOne values second) : first = second := by
  obtain ⟨least, isLeast, follows⟩ := ends.runs
  obtain ⟨leastToo, isLeastToo, followsToo⟩ := endsToo.runs
  obtain rfl := isLeast.unique isLeastToo
  have deterministic : Relator.RightUnique (Follows addOne values) := fun _ _ _ step stepToo =>
    step.2.trans stepToo.2.symm
  have stuck : ∀ {last final}, EndsRun addOne values last →
      Relation.ReflTransGen (Follows addOne values) last final → last = final := by
    intro last final ends path
    rcases Relation.ReflTransGen.cases_head path with same | ⟨_, step, _⟩
    · exact same
    · exact absurd step.1 ends.stops
  rcases Relation.ReflTransGen.total_of_right_unique deterministic follows followsToo with
    path | path
  · exact stuck ends path
  · exact (stuck endsToo path).symm

theorem Continues.of_perm {value : Value} (perm : values.Perm other)
    (continues : Continues addOne values value) : Continues addOne other value where
  once := perm.count_eq value ▸ continues.once
  grows := continues.grows
  next := perm.subset continues.next
  between otherValue member := continues.between otherValue (perm.symm.subset member)

theorem Runs.of_perm {last : Value} (perm : values.Perm other) (runs : Runs addOne values last) :
    Runs addOne other last := by
  obtain ⟨least, isLeast, follows⟩ := runs
  refine ⟨least, ⟨perm.subset isLeast.1, fun value member => ?_⟩, ?_⟩
  · exact isLeast.2 (perm.symm.subset member)
  · exact Relation.ReflTransGen.mono (fun _ _ step => ⟨step.1.of_perm perm, step.2⟩) _ _ follows

theorem EndsRun.of_perm {last : Value} (perm : values.Perm other)
    (ends : EndsRun addOne values last) : EndsRun addOne other last :=
  ⟨ends.runs.of_perm perm, fun continues => ends.stops (continues.of_perm perm.symm)⟩

theorem Runs.next {last : Value} (runs : Runs addOne values last)
    (continues : Continues addOne values last) : Runs addOne values (addOne last) := by
  obtain ⟨least, isLeast, follows⟩ := runs
  exact ⟨least, isLeast, follows.tail ⟨continues, rfl⟩⟩

theorem continues_iff (grows : ∀ value : Value, value ≤ addOne value) {value : Value}
    (member : value ∈ values) (next : addOne value ∈ values) :
    Continues addOne values value ↔
      ¬(addOne value = value ∨
        1 < values.countP fun other => value ≤ other ∧ other < addOne value) := by
  constructor
  · rintro continues (stuck | crowded)
    · exact absurd continues.grows (by simp [stuck])
    · have itself : (values.countP fun other => value ≤ other ∧ other < addOne value) =
          values.count value := by
        apply List.countP_congr
        intro other isOther
        simp only [decide_eq_true_eq, beq_iff_eq]
        constructor
        · rintro ⟨le, lt⟩
          by_contra different
          have greater := lt_of_le_of_ne le (Ne.symm different)
          exact absurd (continues.between other isOther greater) (not_le_of_gt lt)
        · rintro rfl
          exact ⟨le_refl _, continues.grows⟩
      rw [itself, continues.once] at crowded
      exact absurd crowded (lt_irrefl _)
  · intro alone
    rw [not_or, not_lt, List.countP_eq_length_filter] at alone
    have lt : value < addOne value := lt_of_le_of_ne (grows value) (Ne.symm alone.1)
    have kept : value ∈ values.filter fun other => value ≤ other ∧ other < addOne value :=
      List.mem_filter.mpr ⟨member, by simpa using lt⟩
    have only : (values.filter fun other => value ≤ other ∧ other < addOne value) = [value] := by
      cases filtered : values.filter fun other => value ≤ other ∧ other < addOne value with
      | nil =>
        rw [filtered] at kept
        exact absurd kept List.not_mem_nil
      | cons first rest =>
        rw [filtered] at kept alone
        have noRest : rest = [] := List.length_eq_zero_iff.mp (by simpa using alone.2)
        subst noRest
        rw [List.mem_singleton.mp kept]
    refine ⟨?_, lt, next, fun other isOther greater => ?_⟩
    · have counted : (values.filter fun other => value ≤ other ∧ other < addOne value).count value =
          values.count value := List.count_filter (by simpa using lt)
      rw [← counted, only, List.count_singleton_self]
    · by_contra less
      have isKept : other ∈ values.filter fun other => value ≤ other ∧ other < addOne value :=
        List.mem_filter.mpr ⟨isOther, by simpa using ⟨greater.le, not_le.mp less⟩⟩
      rw [only, List.mem_singleton] at isKept
      exact absurd greater (by simp [isKept])

theorem continues_of_split {before rest : List Value} {first next : Value}
    (smaller : ∀ value ∈ before, value < first) (lt : first < next)
    (follows : addOne first = next) (greater : ∀ value ∈ rest, next ≤ value) :
    Continues addOne (before ++ first :: next :: rest) first where
  once := by
    have notBefore : first ∉ before := fun member => (smaller first member).false
    have notRest : first ∉ next :: rest := by
      rw [List.mem_cons, not_or]
      exact ⟨lt.ne, fun member => absurd (greater first member) (not_le_of_gt lt)⟩
    rw [List.count_append, List.count_eq_zero.mpr notBefore, List.count_cons_self,
      List.count_eq_zero.mpr notRest]
  grows := follows.symm ▸ lt
  next := follows.symm ▸ by simp
  between value member isGreater := by
    rw [follows]
    rcases List.mem_append.mp member with early | late
    · exact absurd isGreater (not_lt_of_ge (smaller value early).le)
    · rcases List.mem_cons.mp late with rfl | later
      · exact absurd isGreater (lt_irrefl _)
      · rcases List.mem_cons.mp later with rfl | later
        · exact le_refl _
        · exact greater value later

theorem firstGap_of_runs (grows : ∀ value : Value, value ≤ addOne value) {before rest : List Value}
    {first : Value} (sorted : (before ++ first :: rest).Pairwise (· ≤ ·))
    (runs : Runs addOne (before ++ first :: rest) first)
    (smaller : (∀ value ∈ before, value < first) ∨ addOne first = first) :
    ∃ last, EndsRun addOne (before ++ first :: rest) last ∧
      firstGap addOne (first :: rest) = some (addOne last) := by
  induction rest generalizing before first with
  | nil =>
    refine ⟨first, ⟨runs, fun continues => ?_⟩, rfl⟩
    rcases List.mem_append.mp continues.next with early | late
    · have le := (List.pairwise_append.mp sorted).2.2 _ early first List.mem_cons_self
      exact absurd continues.grows (not_lt_of_ge le)
    · exact absurd continues.grows (by simp [List.mem_singleton.mp late])
  | cons next rest ih =>
    have sortedRest := (List.pairwise_append.mp sorted).2.1
    have leRest : ∀ value ∈ next :: rest, first ≤ value := (List.pairwise_cons.mp sortedRest).1
    have nextLe : ∀ value ∈ rest, next ≤ value :=
      (List.pairwise_cons.mp (List.pairwise_cons.mp sortedRest).2).1
    have regroup : before ++ first :: next :: rest = before ++ [first] ++ next :: rest := by simp
    have beforeLe : ∀ value ∈ before, value ≤ first := fun value member =>
      (List.pairwise_append.mp sorted).2.2 value member first List.mem_cons_self
    by_cases follows : addOne first = next
    · rw [firstGap, if_pos follows]
      by_cases stuck : addOne first = first
      · have same : next = first := follows.symm.trans stuck
        rw [same] at regroup sorted runs ⊢
        rw [regroup] at sorted runs ⊢
        exact ih sorted runs (Or.inr stuck)
      · have lt : first < next := follows ▸ lt_of_le_of_ne (grows first) (Ne.symm stuck)
        have beforeLt : ∀ value ∈ before, value < first := by
          rcases smaller with smaller | isStuck
          · exact smaller
          · exact absurd isStuck stuck
        have continues : Continues addOne (before ++ first :: next :: rest) first :=
          continues_of_split beforeLt lt follows nextLe
        have runsNext : Runs addOne (before ++ first :: next :: rest) next :=
          follows ▸ runs.next continues
        rw [regroup] at sorted runsNext ⊢
        refine ih sorted runsNext (Or.inl fun value member => ?_)
        rcases List.mem_append.mp member with early | isFirst
        · exact (beforeLt value early).trans lt
        · exact List.mem_singleton.mp isFirst ▸ lt
    · rw [firstGap, if_neg follows]
      refine ⟨first, ⟨runs, fun continues => follows ?_⟩, rfl⟩
      have inRest : addOne first ∈ next :: rest := by
        rcases List.mem_append.mp continues.next with early | late
        · exact absurd continues.grows (not_lt_of_ge (beforeLe _ early))
        · rcases List.mem_cons.mp late with same | later
          · exact absurd continues.grows (by simp [same])
          · exact later
      have nextGreater : first < next := by
        apply lt_of_le_of_ne (leRest next List.mem_cons_self)
        intro same
        have twice := continues.once
        rw [List.count_append, List.count_cons_self, ← same, List.count_cons_self] at twice
        omega
      have le := continues.between next (by simp) nextGreater
      rcases List.mem_cons.mp inRest with same | later
      · exact same
      · exact le_antisymm le (nextLe _ later)

theorem firstGap_eq (grows : ∀ value : Value, value ≤ addOne value)
    (sorted : values.Pairwise (· ≤ ·)) (nonempty : values ≠ []) :
    ∃ last, EndsRun addOne values last ∧ firstGap addOne values = some (addOne last) := by
  obtain ⟨first, rest, rfl⟩ := List.exists_cons_of_ne_nil nonempty
  have isLeast : IsLeast { value | value ∈ first :: rest } first := by
    refine ⟨List.mem_cons_self, fun value member => ?_⟩
    rcases List.mem_cons.mp member with rfl | later
    · exact le_refl _
    · exact (List.pairwise_cons.mp sorted).1 value later
  exact @firstGap_of_runs _ _ _ grows [] rest first sorted ⟨first, isLeast, .refl⟩ (Or.inl (by simp))

end RagFlow.Lib.FirstGap
