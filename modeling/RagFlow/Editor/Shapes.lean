import Mathlib
import RagFlow.Editor.AddNode

/-!
# Whole graphs

What the graph of the editor has to be like, on the ids, operators and parents of its nodes, and
when adding a block of nodes or removing some keeps it so.
-/

namespace RagFlow.Editor

def Operator.isGroup (label : Operator) : Bool :=
  label = .iteration ∨ label = .loop

def Operator.isStart (label : Operator) : Bool :=
  label = .iterationStart ∨ label = .loopStart

structure Shape where
  id : String
  label : Operator
  parentId : Option String
  deriving DecidableEq

def Shape.isStartOf (shape : Shape) (group : String) : Bool :=
  shape.label.isStart ∧ shape.parentId = some group

theorem Shape.isStartOf_iff {shape : Shape} {group : String} :
    shape.isStartOf group ↔ shape.label.isStart ∧ shape.parentId = some group := by
  simp [isStartOf]

def Node.shape (node : Node) : Shape where
  id := node.id
  label := node.label
  parentId := node.parentId

def ids (shapes : List Shape) : List String := shapes.map Shape.id

/-- Distinct ids, edges and parents that exist, and one start node in every group. -/
structure Whole (shapes : List Shape) (edges : List Edge) : Prop where
  distinct : (ids shapes).Nodup
  ends_exist : ∀ edge ∈ edges, edge.source ∈ ids shapes ∧ edge.target ∈ ids shapes
  parents_exist : ∀ shape ∈ shapes, ∀ parent ∈ shape.parentId, parent ∈ ids shapes
  one_start : ∀ group ∈ shapes, group.label.isGroup →
    shapes.countP (fun shape => shape.isStartOf group.id) = 1

section Whole

variable {shapes added : List Shape} {edges : List Edge}

@[simp] theorem ids_append : ids (shapes ++ added) = ids shapes ++ ids added :=
  List.map_append

theorem mem_ids_of_mem {shape : Shape} (member : shape ∈ shapes) : shape.id ∈ ids shapes :=
  List.mem_map_of_mem member

theorem ids_filter (gone : List String) :
    ids (shapes.filter fun shape => shape.id ∉ gone) = (ids shapes).filter fun id => id ∉ gone := by
  simp only [ids, List.filter_map]
  rfl

theorem Whole.appendEdge (whole : Whole shapes edges) {connection : Edge}
    (source : connection.source ∈ ids shapes) (target : connection.target ∈ ids shapes) :
    Whole shapes (appendEdge edges connection) := by
  refine ⟨whole.distinct, fun edge member => ?_, whole.parents_exist, whole.one_start⟩
  unfold Editor.appendEdge at member
  by_cases present : connection ∈ edges
  · rw [if_pos present] at member
    exact whole.ends_exist edge member
  · rw [if_neg present] at member
    rcases List.mem_append.mp member with old | new
    · exact whole.ends_exist edge old
    · obtain rfl := List.mem_singleton.mp new
      exact ⟨source, target⟩

theorem Whole.of_edges_subset (whole : Whole shapes edges) {fewer : List Edge}
    (subset : fewer ⊆ edges) : Whole shapes fewer :=
  ⟨whole.distinct, fun edge member => whole.ends_exist edge (subset member), whole.parents_exist,
    whole.one_start⟩

theorem whole_append_iff (whole : Whole shapes edges) (distinct : (ids (shapes ++ added)).Nodup)
    (parents : ∀ shape ∈ added, ∀ parent ∈ shape.parentId, parent ∈ ids (shapes ++ added)) :
    Whole (shapes ++ added) edges ↔
      (∀ group ∈ shapes, group.label.isGroup → ∀ shape ∈ added, ¬ shape.isStartOf group.id) ∧
        ∀ group ∈ added, group.label.isGroup →
          added.countP (fun shape => shape.isStartOf group.id) = 1 := by
  have noneBefore : ∀ group ∈ added, shapes.countP (fun shape => shape.isStartOf group.id) = 0 := by
    intro group member
    apply List.countP_eq_zero.mpr
    intro shape old start
    have parent := whole.parents_exist shape old group.id (Shape.isStartOf_iff.mp start).2
    rw [ids_append] at distinct
    exact List.disjoint_of_nodup_append distinct parent (mem_ids_of_mem member)
  constructor
  · intro after
    refine ⟨fun group member isGroup => ?_, fun group member isGroup => ?_⟩
    · have count := after.one_start group (List.mem_append_left added member) isGroup
      rw [List.countP_append, whole.one_start group member isGroup] at count
      exact List.countP_eq_zero.mp (Nat.add_left_cancel (count.trans (Nat.add_zero 1).symm))
    · have count := after.one_start group (List.mem_append_right shapes member) isGroup
      rwa [List.countP_append, noneBefore group member, Nat.zero_add] at count
  · rintro ⟨old, new⟩
    refine ⟨distinct, fun edge member => ?_, fun shape member parent isParent => ?_,
      fun group member isGroup => ?_⟩
    · simp [whole.ends_exist edge member]
    · rcases List.mem_append.mp member with inShapes | inAdded
      · simp [whole.parents_exist shape inShapes parent isParent]
      · exact parents shape inAdded parent isParent
    · rw [List.countP_append]
      rcases List.mem_append.mp member with inShapes | inAdded
      · rw [whole.one_start group inShapes isGroup,
          List.countP_eq_zero.mpr (old group inShapes isGroup)]
      · rw [noneBefore group inAdded, new group inAdded isGroup]

theorem whole_append_singleton_iff {shape : Shape} (whole : Whole shapes edges)
    (fresh : shape.id ∉ ids shapes) (parent : ∀ id ∈ shape.parentId, id ∈ ids shapes) :
    Whole (shapes ++ [shape]) edges ↔
      ¬ shape.label.isGroup ∧
        ∀ group ∈ shapes, group.label.isGroup → ¬ shape.isStartOf group.id := by
  have notItself : ¬ shape.isStartOf shape.id := by
    intro start
    exact fresh (parent shape.id (Shape.isStartOf_iff.mp start).2)
  rw [whole_append_iff whole]
  · simp [notItself, and_comm]
  · rw [ids_append]
    exact List.Nodup.append whole.distinct (List.nodup_singleton _)
      (by simpa [ids] using fresh)
  · intro other member id isParent
    obtain rfl := List.mem_singleton.mp member
    simp [parent id isParent]

theorem whole_append_group {group start : Shape} (whole : Whole shapes edges)
    (freshGroup : group.id ∉ ids shapes) (freshStart : start.id ∉ ids shapes)
    (different : group.id ≠ start.id) (isGroup : group.label.isGroup)
    (isStart : start.label.isStart) (startParent : start.parentId = some group.id)
    (parent : ∀ id ∈ group.parentId, id ∈ ids shapes) :
    Whole (shapes ++ [group, start]) edges := by
  have groupNoStart : group.label.isStart = false := by
    cases label : group.label <;> simp_all [Operator.isGroup, Operator.isStart]
  have startNoGroup : start.label.isGroup = false := by
    cases label : start.label <;> simp_all [Operator.isGroup, Operator.isStart]
  rw [whole_append_iff whole]
  · constructor
    · intro old member _ shape isNew
      rcases List.mem_pair.mp isNew with rfl | rfl
      · simp [Shape.isStartOf, groupNoStart]
      · intro start
        have same := startParent.symm.trans (Shape.isStartOf_iff.mp start).2
        exact freshGroup (Option.some.inj same ▸ mem_ids_of_mem member)
    · intro other isNew isGroup
      rcases List.mem_pair.mp isNew with rfl | rfl
      · simp [Shape.isStartOf, groupNoStart, isStart, startParent]
      · simp [startNoGroup] at isGroup
  · rw [ids_append]
    apply List.Nodup.append whole.distinct
    · simpa [ids] using different
    · intro id old new
      rcases List.mem_pair.mp new with rfl | rfl
      · exact freshGroup old
      · exact freshStart old
  · intro shape isNew id isParent
    rcases List.mem_pair.mp isNew with rfl | rfl
    · simp [parent id isParent]
    · obtain rfl : group.id = id := Option.some.inj (startParent.symm.trans isParent)
      simp [ids]

theorem whole_filter_iff (whole : Whole shapes edges) (gone : List String) {kept : List Edge}
    {edgeGone : Edge → Prop} (mem_kept : ∀ edge, edge ∈ kept ↔ edge ∈ edges ∧ ¬ edgeGone edge) :
    Whole (shapes.filter fun shape => shape.id ∉ gone) kept ↔
      (∀ edge ∈ edges, edge.source ∈ gone ∨ edge.target ∈ gone → edgeGone edge) ∧
      (∀ shape ∈ shapes, shape.id ∉ gone → ∀ parent ∈ shape.parentId, parent ∉ gone) ∧
      (∀ shape ∈ shapes, shape.id ∈ gone → ∀ group ∈ shapes, group.label.isGroup →
        shape.isStartOf group.id → group.id ∈ gone) := by
  have startOf : ∀ group ∈ shapes, group.label.isGroup → ∃ start,
      shapes.filter (fun shape => shape.isStartOf group.id) = [start] := by
    intro group member isGroup
    have count := whole.one_start group member isGroup
    rw [List.countP_eq_length_filter] at count
    exact List.length_eq_one_iff.mp count
  have countAfter : ∀ group start,
      shapes.filter (fun shape => shape.isStartOf group) = [start] →
      (shapes.filter fun shape => shape.id ∉ gone).countP (fun shape => shape.isStartOf group) =
        if start.id ∈ gone then 0 else 1 := by
    intro group start only
    rw [List.countP_eq_length_filter, List.filter_filter]
    have swapped : (shapes.filter fun shape => shape.isStartOf group && decide (shape.id ∉ gone)) =
        (shapes.filter fun shape => shape.isStartOf group).filter fun shape => shape.id ∉ gone := by
      rw [List.filter_filter]
      apply List.filter_congr
      intro shape _
      exact Bool.and_comm _ _
    rw [swapped, only]
    by_cases lost : start.id ∈ gone <;> simp [lost]
  constructor
  · intro after
    refine ⟨fun edge member touched => ?_, fun shape member stays parent isParent isGone => ?_,
      fun shape member isGone group groupMember isGroup start => ?_⟩
    · by_contra stays
      obtain ⟨source, target⟩ := after.ends_exist edge ((mem_kept edge).mpr ⟨member, stays⟩)
      rw [ids_filter] at source target
      rcases touched with sourceGone | targetGone
      · simpa [sourceGone] using (List.mem_filter.mp source).2
      · simpa [targetGone] using (List.mem_filter.mp target).2
    · have exists_parent := after.parents_exist shape
        (List.mem_filter.mpr ⟨member, by simpa using stays⟩) parent isParent
      rw [ids_filter] at exists_parent
      simpa [isGone] using (List.mem_filter.mp exists_parent).2
    · by_contra stays
      obtain ⟨first, only⟩ := startOf group groupMember isGroup
      have isFirst : shape = first := by
        apply List.mem_singleton.mp
        rw [← only]
        exact List.mem_filter.mpr ⟨member, start⟩
      have count := after.one_start group
        (List.mem_filter.mpr ⟨groupMember, by simpa using stays⟩) isGroup
      rw [countAfter group.id first only, ← isFirst, if_pos isGone] at count
      contradiction
  · rintro ⟨edgesGo, parentsStay, startsStay⟩
    refine ⟨?_, fun edge member => ?_, fun shape member parent isParent => ?_,
      fun group member isGroup => ?_⟩
    · rw [ids_filter]
      exact whole.distinct.filter _
    · obtain ⟨member, stays⟩ := (mem_kept edge).mp member
      have apart := not_or.mp (mt (edgesGo edge member) stays)
      obtain ⟨source, target⟩ := whole.ends_exist edge member
      rw [ids_filter]
      exact ⟨List.mem_filter.mpr ⟨source, by simpa using apart.1⟩,
        List.mem_filter.mpr ⟨target, by simpa using apart.2⟩⟩
    · obtain ⟨member, stays⟩ := List.mem_filter.mp member
      rw [ids_filter]
      apply List.mem_filter.mpr
      refine ⟨whole.parents_exist shape member parent isParent, ?_⟩
      simpa using parentsStay shape member (by simpa using stays) parent isParent
    · obtain ⟨member, stays⟩ := List.mem_filter.mp member
      obtain ⟨start, only⟩ := startOf group member isGroup
      have isStart : start ∈ shapes.filter fun shape => shape.isStartOf group.id := by
        rw [only]
        exact List.mem_singleton_self start
      obtain ⟨startMember, isStart⟩ := List.mem_filter.mp isStart
      have startStays : start.id ∉ gone := by
        intro lost
        have := startsStay start startMember lost group member isGroup isStart
        simp [this] at stays
      rw [countAfter group.id start only, if_neg startStays]

end Whole

end RagFlow.Editor
