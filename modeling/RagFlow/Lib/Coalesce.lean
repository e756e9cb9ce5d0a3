import Mathlib.Data.List.Basic

/-!
# Neighbours coalesced

A pass over a list looks at two neighbours at a time: it goes on to the second, drops one of them,
or merges them and looks at the merged item and its neighbour next.
-/

namespace RagFlow.Lib.Coalesce

universe u v

variable {Item : Type u} {View : Type v} {Part : Type v}

inductive Choice
  | keep
  | dropFirst
  | dropSecond
  | merge
  deriving DecidableEq

structure Pass (Item : Type u) where
  choose : Item → Item → Choice
  merge : Item → Item → Item

namespace Pass

variable (pass : Pass Item)

def runFrom (item : Item) : List Item → List Item
  | [] => [item]
  | next :: rest =>
    match pass.choose item next with
    | .keep => item :: runFrom next rest
    | .dropFirst => runFrom next rest
    | .dropSecond => runFrom item rest
    | .merge => runFrom (pass.merge item next) rest

def run : List Item → List Item
  | [] => []
  | item :: rest => pass.runFrom item rest

def MergesFrom (related : Item → Item → Prop) (item : Item) : List Item → Prop
  | [] => True
  | next :: rest =>
    match pass.choose item next with
    | .keep | .dropFirst => MergesFrom related next rest
    | .dropSecond => MergesFrom related item rest
    | .merge => related item next ∧ MergesFrom related (pass.merge item next) rest

def Merges (related : Item → Item → Prop) : List Item → Prop
  | [] => True
  | item :: rest => pass.MergesFrom related item rest

variable {pass} {holds : Item → Prop} {related : Item → Item → Prop} {item : Item}
  {items rest : List Item}

theorem map_run {other : Pass View} (view : Item → View)
    (sameChoice : ∀ a b, other.choose (view a) (view b) = pass.choose a b)
    (sameMerge : ∀ a b, view (pass.merge a b) = other.merge (view a) (view b))
    (items : List Item) : (pass.run items).map view = other.run (items.map view) := by
  have from_ (rest : List Item) : ∀ item, (pass.runFrom item rest).map view =
      other.runFrom (view item) (rest.map view) := by
    induction rest with
    | nil => exact fun item => rfl
    | cons next rest ih =>
      intro item
      rw [List.map_cons, runFrom, runFrom, sameChoice]
      cases pass.choose item next with
      | keep => exact congrArg (view item :: ·) (ih next)
      | dropFirst => exact ih next
      | dropSecond => exact ih item
      | merge => exact (ih _).trans (congrArg (other.runFrom · _) (sameMerge item next))
  cases items with
  | nil => rfl
  | cons item rest => exact from_ rest item

theorem forall_mem_run (all : ∀ item ∈ items, holds item) (merges : pass.Merges related items)
    (preserved : ∀ a b, holds a → holds b → related a b → pass.choose a b = .merge →
      holds (pass.merge a b)) : ∀ item ∈ pass.run items, holds item := by
  have from_ (rest : List Item) : (∀ item ∈ rest, holds item) → ∀ item, holds item →
      pass.MergesFrom related item rest → ∀ result ∈ pass.runFrom item rest, holds result := by
    induction rest with
    | nil => simp +contextual [runFrom]
    | cons next rest ih =>
      intro all item here merges
      obtain ⟨nextHolds, all⟩ := List.forall_mem_cons.mp all
      rw [MergesFrom] at merges
      rw [runFrom]
      cases chosen : pass.choose item next with
      | keep =>
        rw [chosen] at merges
        exact List.forall_mem_cons.mpr ⟨here, ih all next nextHolds merges⟩
      | dropFirst =>
        rw [chosen] at merges
        exact ih all next nextHolds merges
      | dropSecond =>
        rw [chosen] at merges
        exact ih all item here merges
      | merge =>
        rw [chosen] at merges
        exact ih all _ (preserved item next here nextHolds merges.1 chosen) merges.2
  cases items with
  | nil => simp [run]
  | cons item rest =>
    obtain ⟨here, all⟩ := List.forall_mem_cons.mp all
    exact from_ rest all item here merges

theorem merges_of_forall (always : ∀ a b, related a b) (items : List Item) :
    pass.Merges related items := by
  have from_ (rest : List Item) : ∀ item, pass.MergesFrom related item rest := by
    induction rest with
    | nil => exact fun _ => trivial
    | cons next rest ih =>
      intro item
      rw [MergesFrom]
      cases pass.choose item next with
      | keep => exact ih next
      | dropFirst => exact ih next
      | dropSecond => exact ih item
      | merge => exact ⟨always item next, ih _⟩
  cases items with
  | nil => trivial
  | cons item rest => exact from_ rest item

/-- The parts of a pass that drops only items without parts and joins those of merged items. -/
structure Joins (pass : Pass Item) (holds : Item → Prop) (parts : Item → List Part) : Prop where
  merged : ∀ a b, parts (pass.merge a b) = parts a ++ parts b
  first : ∀ a b, holds a → holds b → pass.choose a b = .dropFirst → parts a = []
  second : ∀ a b, holds a → holds b → pass.choose a b = .dropSecond → parts b = []
  preserved : ∀ a b, holds a → holds b → pass.choose a b = .merge → holds (pass.merge a b)

variable {parts : Item → List Part}

theorem Joins.flatMap_run (joins : Joins pass holds parts) (all : ∀ item ∈ items, holds item) :
    (pass.run items).flatMap parts = items.flatMap parts := by
  have from_ (rest : List Item) : (∀ item ∈ rest, holds item) → ∀ item, holds item →
      (pass.runFrom item rest).flatMap parts = parts item ++ rest.flatMap parts := by
    induction rest with
    | nil => simp [runFrom]
    | cons next rest ih =>
      intro all item here
      obtain ⟨nextHolds, all⟩ := List.forall_mem_cons.mp all
      rw [runFrom, List.flatMap_cons]
      cases chosen : pass.choose item next with
      | keep => exact (List.flatMap_cons ..).trans (congrArg _ (ih all next nextHolds))
      | dropFirst =>
        rw [joins.first item next here nextHolds chosen, List.nil_append]
        exact ih all next nextHolds
      | dropSecond =>
        rw [joins.second item next here nextHolds chosen, List.nil_append]
        exact ih all item here
      | merge =>
        rw [← List.append_assoc, ← joins.merged]
        exact ih all _ (joins.preserved item next here nextHolds chosen)
  cases items with
  | nil => rfl
  | cons item rest =>
    obtain ⟨here, all⟩ := List.forall_mem_cons.mp all
    exact from_ rest all item here

theorem Joins.forall_mem_run (joins : Joins pass holds parts) (all : ∀ item ∈ items, holds item) :
    ∀ item ∈ pass.run items, holds item :=
  Pass.forall_mem_run all (merges_of_forall (fun _ _ => trivial) items)
    fun a b here there (_ : True) => joins.preserved a b here there

theorem Joins.exists_mem_runFrom (joins : Joins pass holds parts)
    (all : ∀ item ∈ rest, holds item) (here : holds item) (filled : parts item ≠ []) :
    ∃ result ∈ pass.runFrom item rest, parts item ⊆ parts result := by
  induction rest generalizing item with
  | nil => exact ⟨item, List.mem_singleton_self item, List.Subset.refl _⟩
  | cons next rest ih =>
    obtain ⟨nextHolds, all⟩ := List.forall_mem_cons.mp all
    rw [runFrom]
    cases chosen : pass.choose item next with
    | keep => exact ⟨item, List.mem_cons_self, List.Subset.refl _⟩
    | dropFirst => exact absurd (joins.first item next here nextHolds chosen) filled
    | dropSecond => exact ih all here filled
    | merge =>
      have bigger : parts item ⊆ parts (pass.merge item next) := by
        rw [joins.merged]
        exact List.subset_append_left ..
      obtain ⟨result, isResult, subset⟩ := ih all
        (joins.preserved item next here nextHolds chosen)
        fun isEmpty => filled (List.subset_nil.mp (isEmpty ▸ bigger))
      exact ⟨result, isResult, List.Subset.trans bigger subset⟩

theorem merges_map_iff {other : Pass View} {relatedView : View → View → Prop} (view : Item → View)
    (sameChoice : ∀ a b, other.choose (view a) (view b) = pass.choose a b)
    (sameMerge : ∀ a b, view (pass.merge a b) = other.merge (view a) (view b))
    (items : List Item) : other.Merges relatedView (items.map view) ↔
      pass.Merges (fun a b => relatedView (view a) (view b)) items := by
  have from_ (rest : List Item) : ∀ item, other.MergesFrom relatedView (view item) (rest.map view) ↔
      pass.MergesFrom (fun a b => relatedView (view a) (view b)) item rest := by
    induction rest with
    | nil => exact fun _ => Iff.rfl
    | cons next rest ih =>
      intro item
      rw [List.map_cons, MergesFrom, MergesFrom, sameChoice]
      cases pass.choose item next with
      | keep => exact ih next
      | dropFirst => exact ih next
      | dropSecond => exact ih item
      | merge => exact and_congr_right fun _ => (sameMerge item next) ▸ ih _
  cases items with
  | nil => exact Iff.rfl
  | cons item rest => exact from_ rest item

theorem Joins.merges_of_good {tidy good : Item → Prop} (joins : Joins pass holds parts)
    (preserved : ∀ a b, tidy a → tidy b → related a b → tidy (pass.merge a b))
    (mixed : ∀ a b, holds a → holds b → tidy a → tidy b → pass.choose a b = .merge →
      ¬ related a b → parts (pass.merge a b) ≠ [] ∧
        ∀ result, parts (pass.merge a b) ⊆ parts result → ¬ good result)
    (all : ∀ item ∈ items, holds item ∧ tidy item) (goods : ∀ result ∈ pass.run items, good result) :
    pass.Merges related items := by
  have from_ (rest : List Item) : (∀ item ∈ rest, holds item ∧ tidy item) → ∀ item,
      holds item → tidy item → (∀ result ∈ pass.runFrom item rest, good result) →
        pass.MergesFrom related item rest := by
    induction rest with
    | nil => exact fun _ _ _ _ _ => trivial
    | cons next rest ih =>
      intro all item here isTidy goods
      obtain ⟨⟨nextHolds, nextTidy⟩, all⟩ := List.forall_mem_cons.mp all
      rw [MergesFrom]
      rw [runFrom] at goods
      cases chosen : pass.choose item next with
      | keep =>
        rw [chosen] at goods
        exact ih all next nextHolds nextTidy (List.forall_mem_cons.mp goods).2
      | dropFirst =>
        rw [chosen] at goods
        exact ih all next nextHolds nextTidy goods
      | dropSecond =>
        rw [chosen] at goods
        exact ih all item here isTidy goods
      | merge =>
        rw [chosen] at goods
        have mergedHolds := joins.preserved item next here nextHolds chosen
        have isRelated : related item next := by
          by_contra unrelated
          obtain ⟨filled, notGood⟩ := mixed item next here nextHolds isTidy nextTidy chosen unrelated
          obtain ⟨result, isResult, subset⟩ :=
            joins.exists_mem_runFrom (fun item isItem => (all item isItem).1) mergedHolds filled
          exact notGood result subset (goods result isResult)
        exact ⟨isRelated, ih all _ mergedHolds (preserved item next isTidy nextTidy isRelated) goods⟩
  cases items with
  | nil => trivial
  | cons item rest =>
    obtain ⟨⟨here, isTidy⟩, all⟩ := List.forall_mem_cons.mp all
    exact from_ rest all item here isTidy goods

end Pass

end RagFlow.Lib.Coalesce
