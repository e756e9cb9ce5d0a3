import Mathlib.Data.List.Induction
import RagFlow.Lib.Dict

/-!
# Items grouped by a key

Items that have a key are collected under it, in the order in which they come; others have none.
-/

namespace RagFlow.Lib.Grouping

universe u v

variable {Item : Type u} {Key : Type v} [DecidableEq Key] (key : Item → Option Key)

def members (items : List Item) (name : Key) : List Item :=
  items.filter fun item => key item = some name

def addItem (groups : Dict Key (List Item)) (item : Item) : Dict Key (List Item) :=
  match key item with
  | none => groups
  | some name => groups.upsert name fun group => group.getD [] ++ [item]

def group (items : List Item) : Dict Key (List Item) := items.foldl (addItem key) Dict.empty

variable {key} {items : List Item}

theorem members_append (first second : List Item) (name : Key) :
    members key (first ++ second) name = members key first name ++ members key second name :=
  List.filter_append _ _

theorem mem_members {item : Item} {name : Key} :
    item ∈ members key items name ↔ item ∈ items ∧ key item = some name := by
  simp [members]

theorem get?_group (items : List Item) (name : Key) :
    (group key items).get? name =
      if members key items name = [] then none else some (members key items name) := by
  induction items using List.reverseRecOn with
  | nil => rfl
  | append_singleton items item ih =>
    rw [group, List.foldl_append, ← group, List.foldl_cons, List.foldl_nil, addItem,
      members_append]
    cases isKey : key item with
    | none => simp [members, isKey, ih]
    | some other =>
      by_cases same : name = other
      · subst same
        have alone : members key [item] name = [item] := by simp [members, isKey]
        dsimp only
        rw [Dict.get?_upsert, if_pos rfl, ih, alone,
          if_neg (List.append_ne_nil_of_right_ne_nil _ (List.cons_ne_nil item []))]
        split_ifs with isEmpty
        · rw [isEmpty]
          rfl
        · rfl
      · have notHere : members key [item] name = [] := by
          simp [members, isKey, Ne.symm same]
        dsimp only
        rw [Dict.get?_upsert, if_neg same, ih, notHere, List.append_nil]

theorem mem_keys_group {name : Key} :
    name ∈ (group key items).keys ↔ ∃ item ∈ items, key item = some name := by
  have nonempty : members key items name ≠ [] ↔ ∃ item ∈ items, key item = some name := by
    simp [members, List.filter_eq_nil_iff]
  rw [← nonempty, Dict.mem_keys, get?_group]
  split_ifs with isEmpty <;> simp [isEmpty]

theorem mem_items_group {entry : Key × List Item} (isEntry : entry ∈ (group key items).items) :
    entry.2 = members key items entry.1 := by
  have found : (group key items).get? entry.1 = some entry.2 := Dict.mem_items.mp isEntry
  rw [get?_group] at found
  split_ifs at found
  exact (Option.some.inj found).symm

theorem perm_members (items : List Item) {names : List Key} (distinct : names.Nodup) :
    (items.filter fun item => ∃ name ∈ names, key item = some name).Perm
      (names.flatMap (members key items)) := by
  induction names with
  | nil => simp
  | cons name names ih =>
    obtain ⟨fresh, distinct⟩ := List.nodup_cons.mp distinct
    have split := List.filter_append_perm (fun item => decide (key item = some name))
      (items.filter fun item => ∃ other ∈ name :: names, key item = some other)
    have here : (items.filter fun item => decide (∃ other ∈ name :: names,
        key item = some other)).filter (fun item => decide (key item = some name)) =
        members key items name := by
      rw [List.filter_filter]
      apply List.filter_congr
      intro item _
      by_cases same : key item = some name <;> simp [same]
    have later : (items.filter fun item => decide (∃ other ∈ name :: names,
        key item = some other)).filter (fun item => !decide (key item = some name)) =
        items.filter fun item => decide (∃ other ∈ names, key item = some other) := by
      rw [List.filter_filter]
      apply List.filter_congr
      intro item _
      by_cases same : key item = some name
      · simpa [same] using fresh
      · simp [same]
    rw [here, later] at split
    exact split.symm.trans ((ih distinct).append_left _)

theorem group_congr {other : Item → Option Key} (same : ∀ item ∈ items, key item = other item) :
    group key items = group other items := by
  induction items using List.reverseRecOn with
  | nil => rfl
  | append_singleton items item ih =>
    have before := ih fun item isItem =>
      same item (List.mem_append_left _ isItem)
    rw [group, group, List.foldl_append, List.foldl_append, ← group, ← group, before,
      List.foldl_cons, List.foldl_cons, addItem, addItem, same item (by simp)]
    rfl

theorem perm_group (key : Item → Option Key) (items : List Item) :
    items.Perm (items.filter (fun item => key item = none) ++
      (group key items).items.flatMap Prod.snd) := by
  have groups : (group key items).items.flatMap Prod.snd =
      (group key items).keys.flatMap (members key items) := by
    rw [Dict.keys, List.flatMap_map]
    exact List.flatMap_congr fun entry isEntry => mem_items_group isEntry
  have named : items.filter (fun item => !decide (key item = none)) =
      items.filter fun item => ∃ name ∈ (group key items).keys, key item = some name := by
    apply List.filter_congr
    intro item isItem
    cases isKey : key item with
    | none => simp
    | some name => simpa using mem_keys_group.mpr ⟨item, isItem, isKey⟩
  have split := List.filter_append_perm (fun item => decide (key item = none)) items
  rw [named] at split
  rw [groups]
  exact split.symm.trans ((perm_members items (group key items).keys_nodup).append_left _)

end RagFlow.Lib.Grouping
