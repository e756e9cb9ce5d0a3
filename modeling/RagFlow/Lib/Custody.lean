import Mathlib.Data.List.Perm.Subperm

/-!
# Items and the places that hold them

Each item that has entered is held once, in one place, until it is gone.  The rules say how an item
enters, moves from place to place and is released; the places are lists, up to their order.
-/

namespace RagFlow.Lib

universe u v

variable {Place : Type u} {Item : Type v} {held after : Place → List Item}
  {entered : List Item} {gone goneAfter : Item → Prop}

/-- Every item that has entered is held by exactly one place, or gone. -/
structure Custody (held : Place → List Item) (entered : List Item) (gone : Item → Prop) :
    Prop where
  nodup : ∀ place, (held place).Nodup
  one : ∀ place other item, item ∈ held place → item ∈ held other → place = other
  known : ∀ place, ∀ item ∈ held place, item ∈ entered
  covered : ∀ item ∈ entered, (∃ place, item ∈ held place) ∨ gone item

def Settled (held : Place → List Item) (item : Item) (place : Place) : Prop :=
  ∀ other, item ∈ held other → other = place

namespace Custody

theorem empty : Custody (fun _ : Place => ([] : List Item)) [] gone where
  nodup _ := List.nodup_nil
  one _ _ _ isMem := absurd isMem List.not_mem_nil
  known _ _ isMem := absurd isMem List.not_mem_nil
  covered _ isMem := absurd isMem List.not_mem_nil

theorem keep (custody : Custody held entered gone)
    (same : ∀ place, (after place).Perm (held place))
    (stillGone : ∀ item, gone item → goneAfter item) : Custody after entered goneAfter where
  nodup place := (same place).nodup_iff.mpr (custody.nodup place)
  one place other item isMem isMemOther :=
    custody.one place other item ((same place).mem_iff.mp isMem)
      ((same other).mem_iff.mp isMemOther)
  known place item isMem := custody.known place item ((same place).mem_iff.mp isMem)
  covered item isMem := by
    cases custody.covered item isMem with
    | inl isHeld =>
      obtain ⟨place, isHeld⟩ := isHeld
      exact .inl ⟨place, (same place).mem_iff.mpr isHeld⟩
    | inr isGone => exact .inr (stillGone item isGone)

theorem enter (custody : Custody held entered gone) {place : Place} {item : Item}
    (fresh : item ∉ entered) (enters : (after place).Perm (item :: held place))
    (same : ∀ other, other ≠ place → (after other).Perm (held other)) :
    Custody after (entered ++ [item]) gone := by
  have mem_iff (other : Place) (found : Item) :
      found ∈ after other ↔ found ∈ held other ∨ found = item ∧ other = place := by
    by_cases isPlace : other = place
    · subst isPlace
      rw [enters.mem_iff, List.mem_cons]
      tauto
    · rw [(same other isPlace).mem_iff]
      tauto
  have notHeld (other : Place) : item ∉ held other :=
    fun isHeld => fresh (custody.known other item isHeld)
  refine ⟨?_, ?_, ?_, ?_⟩
  · intro other
    by_cases isPlace : other = place
    · subst isPlace
      exact enters.nodup_iff.mpr (List.nodup_cons.mpr ⟨notHeld other, custody.nodup other⟩)
    · exact (same other isPlace).nodup_iff.mpr (custody.nodup other)
  · intro first second found isMem isMemSecond
    rw [mem_iff] at isMem isMemSecond
    obtain isMem | ⟨rfl, rfl⟩ := isMem
    · obtain isMemSecond | ⟨rfl, -⟩ := isMemSecond
      · exact custody.one first second found isMem isMemSecond
      · exact absurd isMem (notHeld first)
    · obtain isMemSecond | ⟨-, rfl⟩ := isMemSecond
      · exact absurd isMemSecond (notHeld second)
      · rfl
  · intro other found isMem
    rw [mem_iff] at isMem
    obtain isMem | ⟨rfl, -⟩ := isMem
    · exact List.mem_append_left _ (custody.known other found isMem)
    · exact List.mem_append_right _ (List.mem_singleton_self found)
  · intro found isMem
    cases List.mem_append.mp isMem with
    | inl earlier =>
      cases custody.covered found earlier with
      | inl isHeld =>
        obtain ⟨other, isHeld⟩ := isHeld
        exact .inl ⟨other, (mem_iff other found).mpr (.inl isHeld)⟩
      | inr isGone => exact .inr isGone
    | inr new =>
      have isItem := List.mem_singleton.mp new
      exact .inl ⟨place, (mem_iff place found).mpr (.inr ⟨isItem, rfl⟩)⟩

theorem mem_moved (custody : Custody held entered gone) {source target : Place} {item : Item}
    (apart : source ≠ target) (leaves : (held source).Perm (item :: after source))
    (arrives : (after target).Perm (item :: held target))
    (same : ∀ other, other ≠ source → other ≠ target → (after other).Perm (held other))
    (other : Place) (found : Item) :
    found ∈ after other ↔ found ≠ item ∧ found ∈ held other ∨ found = item ∧ other = target := by
  have isHeld : item ∈ held source := leaves.mem_iff.mpr (List.mem_cons_self ..)
  have notHeld : other ≠ source → item ∉ held other := fun isOther isMem =>
    isOther (custody.one other source item isMem isHeld)
  by_cases isSource : other = source
  · subst isSource
    have absent : item ∉ after other := by
      have nodup := leaves.nodup_iff.mp (custody.nodup other)
      exact (List.nodup_cons.mp nodup).1
    rw [leaves.mem_iff, List.mem_cons]
    constructor
    · intro isMem
      exact .inl ⟨fun isItem => absent (isItem ▸ isMem), .inr isMem⟩
    · rintro (⟨isOther, isItem | isMem⟩ | ⟨-, isTarget⟩)
      · exact absurd isItem isOther
      · exact isMem
      · exact absurd isTarget apart
  · by_cases isTarget : other = target
    · subst isTarget
      rw [arrives.mem_iff, List.mem_cons]
      by_cases isItem : found = item
      · simp [isItem]
      · simp [isItem]
    · rw [(same other isSource isTarget).mem_iff]
      have absent := notHeld isSource
      constructor
      · intro isMem
        exact .inl ⟨fun isItem => absent (isItem ▸ isMem), isMem⟩
      · rintro (⟨-, isMem⟩ | ⟨-, isTarget'⟩)
        · exact isMem
        · exact absurd isTarget' isTarget

theorem move (custody : Custody held entered gone) {source target : Place} {item : Item}
    (apart : source ≠ target) (leaves : (held source).Perm (item :: after source))
    (arrives : (after target).Perm (item :: held target))
    (same : ∀ other, other ≠ source → other ≠ target → (after other).Perm (held other)) :
    Custody after entered gone := by
  have mem_iff := custody.mem_moved apart leaves arrives same
  have isHeld : item ∈ held source := leaves.mem_iff.mpr (List.mem_cons_self ..)
  refine ⟨?_, ?_, ?_, ?_⟩
  · intro other
    by_cases isSource : other = source
    · subst isSource
      exact (List.nodup_cons.mp (leaves.nodup_iff.mp (custody.nodup other))).2
    · by_cases isTarget : other = target
      · subst isTarget
        have absent : item ∉ held other := fun isMem =>
          isSource (custody.one other source item isMem isHeld)
        exact arrives.nodup_iff.mpr (List.nodup_cons.mpr ⟨absent, custody.nodup other⟩)
      · exact (same other isSource isTarget).nodup_iff.mpr (custody.nodup other)
  · intro first second found isMem isMemSecond
    rw [mem_iff] at isMem isMemSecond
    obtain ⟨isOther, isMem⟩ | ⟨isItem, rfl⟩ := isMem
    · obtain ⟨-, isMemSecond⟩ | ⟨isItem, -⟩ := isMemSecond
      · exact custody.one first second found isMem isMemSecond
      · exact absurd isItem isOther
    · obtain ⟨isOther, -⟩ | ⟨-, isTarget⟩ := isMemSecond
      · exact absurd isItem isOther
      · exact isTarget.symm
  · intro other found isMem
    rw [mem_iff] at isMem
    obtain ⟨-, isMem⟩ | ⟨rfl, -⟩ := isMem
    · exact custody.known other found isMem
    · exact custody.known source found isHeld
  · intro found isMem
    by_cases isItem : found = item
    · exact .inl ⟨target, (mem_iff target found).mpr (.inr ⟨isItem, rfl⟩)⟩
    · cases custody.covered found isMem with
      | inl isHeldFound =>
        obtain ⟨other, isHeldFound⟩ := isHeldFound
        exact .inl ⟨other, (mem_iff other found).mpr (.inl ⟨isItem, isHeldFound⟩)⟩
      | inr isGone => exact .inr isGone

theorem release (custody : Custody held entered gone)
    (kept : ∀ place, (after place).Sublist (held place))
    (released : ∀ place, ∀ item ∈ held place, item ∉ after place → gone item) :
    Custody after entered gone where
  nodup place := (custody.nodup place).sublist (kept place)
  one place other item isMem isMemOther :=
    custody.one place other item ((kept place).subset isMem) ((kept other).subset isMemOther)
  known place item isMem := custody.known place item ((kept place).subset isMem)
  covered item isMem := by
    cases custody.covered item isMem with
    | inl isHeld =>
      obtain ⟨place, isHeld⟩ := isHeld
      by_cases isKept : item ∈ after place
      · exact .inl ⟨place, isKept⟩
      · exact .inr (released place item isHeld isKept)
    | inr isGone => exact .inr isGone

end Custody

namespace Settled

variable {settled : Item} {home : Place}

theorem of_subset (isSettled : Settled held settled home)
    (kept : ∀ place, after place ⊆ held place) : Settled after settled home :=
  fun other isMem => isSettled other (kept other isMem)

theorem enter (isSettled : Settled held settled home) {place : Place} {item : Item}
    (isOther : settled ≠ item) (enters : (after place).Perm (item :: held place))
    (same : ∀ other, other ≠ place → (after other).Perm (held other)) :
    Settled after settled home := by
  intro other isMem
  by_cases isPlace : other = place
  · subst isPlace
    cases List.mem_cons.mp (enters.mem_iff.mp isMem) with
    | inl isItem => exact absurd isItem isOther
    | inr isHeld => exact isSettled other isHeld
  · exact isSettled other ((same other isPlace).mem_iff.mp isMem)

theorem move (isSettled : Settled held settled home) (custody : Custody held entered gone)
    {source target : Place} {item : Item} (isAway : source ≠ home) (apart : source ≠ target)
    (leaves : (held source).Perm (item :: after source))
    (arrives : (after target).Perm (item :: held target))
    (same : ∀ other, other ≠ source → other ≠ target → (after other).Perm (held other)) :
    Settled after settled home := by
  intro other isMem
  rw [custody.mem_moved apart leaves arrives same] at isMem
  obtain ⟨-, isHeld⟩ | ⟨rfl, -⟩ := isMem
  · exact isSettled other isHeld
  · exact absurd (isSettled source (leaves.mem_iff.mpr (List.mem_cons_self ..))) isAway

end Settled

end RagFlow.Lib
