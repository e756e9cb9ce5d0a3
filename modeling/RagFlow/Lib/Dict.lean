import Mathlib.Data.List.Nodup
import Mathlib.Data.List.Perm.Basic

/-!
# Dictionaries in insertion order

A dictionary lists its entries in the order their keys were first inserted; writing to a key
it already has leaves the key in its place.  Each operation comes with the lookup and the
keys of its result.
-/

namespace RagFlow.Lib

universe u v w

structure Dict (Key : Type u) (Value : Type v) where
  items : List (Key × Value)
  nodup : (items.map Prod.fst).Nodup
  deriving DecidableEq

namespace Dict

variable {Key : Type u} {Value : Type v} {Other : Type w}

def keys (dict : Dict Key Value) : List Key :=
  dict.items.map Prod.fst

theorem keys_nodup (dict : Dict Key Value) : dict.keys.Nodup :=
  dict.nodup

def empty : Dict Key Value where
  items := []
  nodup := List.nodup_nil

@[simp] theorem keys_empty : (empty : Dict Key Value).keys = [] := rfl

def mapValues (change : Key → Value → Other) (dict : Dict Key Value) : Dict Key Other where
  items := dict.items.map fun item => (item.1, change item.1 item.2)
  nodup := by
    have sameKeys : (dict.items.map fun item => (item.1, change item.1 item.2)).map Prod.fst =
        dict.items.map Prod.fst := by
      rw [List.map_map]
      rfl
    rw [sameKeys]
    exact dict.nodup

@[simp] theorem keys_mapValues (change : Key → Value → Other) (dict : Dict Key Value) :
    (dict.mapValues change).keys = dict.keys := by
  simp [keys, mapValues, Function.comp_def]

def filterKeys (keep : Key → Bool) (dict : Dict Key Value) : Dict Key Value where
  items := dict.items.filter fun item => keep item.1
  nodup := dict.nodup.sublist (List.filter_sublist.map Prod.fst)

@[simp] theorem keys_filterKeys (keep : Key → Bool) (dict : Dict Key Value) :
    (dict.filterKeys keep).keys = dict.keys.filter keep := by
  simp [keys, filterKeys, List.filter_map, Function.comp_def]

variable [DecidableEq Key]

def get? (dict : Dict Key Value) (key : Key) : Option Value :=
  (dict.items.find? fun item => item.1 = key).map Prod.snd

theorem mem_items {dict : Dict Key Value} {key : Key} {value : Value} :
    (key, value) ∈ dict.items ↔ dict.get? key = some value := by
  constructor
  · intro membership
    rw [get?, Option.map_eq_some_iff]
    cases found : dict.items.find? fun item => item.1 = key with
    | none =>
      have absent := List.find?_eq_none.mp found _ membership
      simp at absent
    | some item =>
      have sameKey : item.1 = key := by simpa using List.find?_some found
      -- Two entries with one key are one entry.
      have sameItem := List.inj_on_of_nodup_map dict.nodup (List.mem_of_find?_eq_some found)
        membership sameKey
      exact ⟨item, rfl, by rw [sameItem]⟩
  · intro lookup
    rw [get?, Option.map_eq_some_iff] at lookup
    obtain ⟨item, found, rfl⟩ := lookup
    have sameKey : item.1 = key := by simpa using List.find?_some found
    exact sameKey ▸ List.mem_of_find?_eq_some found

theorem mem_keys {dict : Dict Key Value} {key : Key} :
    key ∈ dict.keys ↔ ∃ value, dict.get? key = some value := by
  simp only [keys, List.mem_map, ← mem_items, Prod.exists, exists_and_right, exists_eq_right]

theorem get?_eq_none {dict : Dict Key Value} {key : Key} :
    dict.get? key = none ↔ key ∉ dict.keys := by
  rw [mem_keys, Option.eq_none_iff_forall_not_mem, not_exists]
  rfl

theorem mem_keys_of_get? {dict : Dict Key Value} {key : Key} {value : Value}
    (lookup : dict.get? key = some value) : key ∈ dict.keys :=
  mem_keys.mpr ⟨value, lookup⟩

theorem items_perm {first second : Dict Key Value}
    (sameLookup : ∀ key, first.get? key = second.get? key) :
    first.items.Perm second.items := by
  refine (List.perm_ext_iff_of_nodup first.nodup.of_map second.nodup.of_map).mpr ?_
  rintro ⟨key, value⟩
  rw [mem_items, mem_items, sameLookup]

theorem exists_last {dict : Dict Key Value} {item : Key × Value} (isItem : item ∈ dict.items) :
    ∃ other : Dict Key Value, (∀ key, other.get? key = dict.get? key) ∧
      ∃ before, other.items = before ++ [item] := by
  obtain ⟨before, after, isSplit⟩ := List.append_of_mem isItem
  have perm : (before ++ after ++ [item]).Perm dict.items := by
    rw [isSplit, List.append_assoc]
    exact (@List.perm_append_comm _ after _).append_left before
  refine ⟨⟨before ++ after ++ [item], ((perm.map Prod.fst).nodup_iff).mpr dict.nodup⟩, ?_, _, rfl⟩
  intro key
  ext value
  rw [← mem_items, ← mem_items]
  exact perm.mem_iff

@[simp] theorem get?_empty (key : Key) : (empty : Dict Key Value).get? key = none := rfl

@[simp] theorem get?_mapValues (change : Key → Value → Other) (dict : Dict Key Value)
    (key : Key) : (dict.mapValues change).get? key = (dict.get? key).map (change key) := by
  ext value
  rw [← mem_items, mapValues, List.mem_map, Option.map_eq_some_iff]
  constructor
  · rintro ⟨⟨key', old⟩, membership, sameItem⟩
    obtain ⟨rfl, rfl⟩ := Prod.mk.inj sameItem
    exact ⟨old, mem_items.mp membership, rfl⟩
  · rintro ⟨old, lookup, rfl⟩
    exact ⟨(key, old), mem_items.mpr lookup, rfl⟩

@[simp] theorem get?_filterKeys (keep : Key → Bool) (dict : Dict Key Value) (key : Key) :
    (dict.filterKeys keep).get? key = if keep key then dict.get? key else none := by
  ext value
  rw [← mem_items, filterKeys, List.mem_filter, mem_items]
  by_cases kept : keep key <;> simp [kept]

def erase (dict : Dict Key Value) (key : Key) : Dict Key Value :=
  dict.filterKeys (fun other => other ≠ key)

@[simp] theorem get?_erase (dict : Dict Key Value) (key other : Key) :
    (dict.erase key).get? other = if other = key then none else dict.get? other := by
  by_cases same : other = key <;> simp [erase, same]

theorem mem_keys_erase {dict : Dict Key Value} {key other : Key} :
    other ∈ (dict.erase key).keys ↔ other ∈ dict.keys ∧ other ≠ key := by
  simp [erase]

theorem erase_eq_self {dict : Dict Key Value} {key : Key} (missing : dict.get? key = none) :
    dict.erase key = dict := by
  have kept : dict.items.filter (fun item => decide (item.1 ≠ key)) = dict.items := by
    refine List.filter_eq_self.mpr fun item isMem => decide_eq_true fun same => ?_
    have isKey : key ∈ dict.keys := same ▸ List.mem_map_of_mem isMem
    exact get?_eq_none.mp missing isKey
  cases dict
  simpa [erase, filterKeys] using kept

def modify (dict : Dict Key Value) (key : Key) (change : Value → Value) : Dict Key Value :=
  dict.mapValues fun other value => if other = key then change value else value

@[simp] theorem keys_modify (dict : Dict Key Value) (key : Key) (change : Value → Value) :
    (dict.modify key change).keys = dict.keys := by
  simp [modify]

theorem get?_modify (dict : Dict Key Value) (key other : Key) (change : Value → Value) :
    (dict.modify key change).get? other =
      if other = key then (dict.get? other).map change else dict.get? other := by
  rw [modify, get?_mapValues]
  split_ifs with same
  · rfl
  · cases dict.get? other <;> rfl

/-- Write what `write` makes of the present value of a key, or of its absence. -/
def upsert (dict : Dict Key Value) (key : Key) (write : Option Value → Value) :
    Dict Key Value :=
  if present : key ∈ dict.keys then
    dict.mapValues fun other value => if other = key then write (some value) else value
  else
    { items := dict.items ++ [(key, write none)]
      nodup := by
        rw [List.map_append, List.map_singleton]
        exact dict.nodup.append (List.nodup_singleton key) (by simpa [keys] using present) }

@[simp] theorem get?_upsert (dict : Dict Key Value) (key other : Key)
    (write : Option Value → Value) :
    (dict.upsert key write).get? other =
      if other = key then some (write (dict.get? key)) else dict.get? other := by
  by_cases present : key ∈ dict.keys
  · obtain ⟨value, lookup⟩ := mem_keys.mp present
    rw [upsert, dif_pos present, get?_mapValues]
    by_cases same : other = key
    · simp [same, lookup]
    · simp [same]
  · have missing := get?_eq_none.mpr present
    rw [upsert, dif_neg present]
    ext value
    rw [← mem_items, List.mem_append, mem_items, List.mem_singleton, Prod.mk.injEq]
    by_cases same : other = key
    · simp [same, missing, eq_comm]
    · simp [same]

theorem upsert_eq_self {dict : Dict Key Value} {key : Key} {value : Value}
    {write : Option Value → Value} (found : dict.get? key = some value)
    (same : write (some value) = value) : dict.upsert key write = dict := by
  rw [upsert, dif_pos (mem_keys_of_get? found)]
  have sameItems : dict.items.map (fun item =>
      (item.1, if item.1 = key then write (some item.2) else item.2)) = dict.items := by
    refine (List.map_congr_left fun item member => ?_).trans (List.map_id dict.items)
    by_cases isKey : item.1 = key
    · have lookup := mem_items.mp (show (item.1, item.2) ∈ dict.items from member)
      obtain rfl : value = item.2 := Option.some.inj (found.symm.trans (isKey ▸ lookup))
      simp [isKey, same, Prod.ext_iff]
    · simp [isKey]
  cases dict
  simpa [mapValues] using sameItems

theorem keys_upsert (dict : Dict Key Value) (key : Key) (write : Option Value → Value) :
    (dict.upsert key write).keys =
      if key ∈ dict.keys then dict.keys else dict.keys ++ [key] := by
  by_cases present : key ∈ dict.keys
  · rw [upsert, dif_pos present, keys_mapValues, if_pos present]
  · rw [upsert, dif_neg present, if_neg present]
    simp [keys]

theorem mem_keys_upsert {dict : Dict Key Value} {key other : Key}
    {write : Option Value → Value} :
    other ∈ (dict.upsert key write).keys ↔ other = key ∨ other ∈ dict.keys := by
  rw [keys_upsert]
  split
  · rename_i present
    exact ⟨Or.inr, fun either => either.elim (fun same => same ▸ present) id⟩
  · rw [List.mem_append, List.mem_singleton, or_comm]

theorem get?_foldl_upsert (keyOf : Other → Key) (write : Other → Option Value → Value)
    (entries : List Other) (dict : Dict Key Value) (key : Key) :
    (entries.foldl (fun dict entry => dict.upsert (keyOf entry) (write entry)) dict).get? key =
      (entries.filter fun entry => keyOf entry = key).foldl
        (fun value entry => some (write entry value)) (dict.get? key) := by
  induction entries generalizing dict with
  | nil => rfl
  | cons entry entries ih =>
    rw [List.foldl_cons, ih, get?_upsert]
    by_cases same : keyOf entry = key
    · simp [same]
    · simp [same, Ne.symm same]

def absorbed (absorb : Value → Value → Value) (value : Value) : Option Value → Value
  | none => value
  | some old => absorb old value

theorem absorbed_overwrite (value : Value) (old : Option Value) :
    absorbed (fun _ new => new) value old = value := by
  cases old <;> rfl

def merge (absorb : Value → Value → Value) (dict added : Dict Key Value) : Dict Key Value :=
  added.items.foldl (fun dict item => dict.upsert item.1 (absorbed absorb item.2)) dict

section Merge

variable (absorb : Value → Value → Value)

theorem get?_foldl_upsert_of_nodup (write : Other → Option Value → Value)
    (entries : List (Key × Other)) (distinct : (entries.map Prod.fst).Nodup)
    (dict : Dict Key Value) (key : Key) :
    (entries.foldl (fun dict item => dict.upsert item.1 (write item.2)) dict).get? key =
      match entries.find? fun item => item.1 = key with
      | none => dict.get? key
      | some item => some (write item.2 (dict.get? key)) := by
  induction entries generalizing dict with
  | nil => rfl
  | cons item entries ih =>
    rw [List.map_cons, List.nodup_cons] at distinct
    rw [List.foldl_cons, ih distinct.2, List.find?_cons]
    by_cases same : item.1 = key
    · -- The key does not occur again, so the value written now stays.
      have notLater : entries.find? (fun item => item.1 = key) = none := by
        refine List.find?_eq_none.mpr fun other membership => ?_
        rw [decide_eq_true_eq, ← same]
        exact fun sameKey => distinct.1 (sameKey ▸ List.mem_map_of_mem membership)
      simp [notLater, same]
    · have untouched : (dict.upsert item.1 (write item.2)).get? key = dict.get? key := by
        rw [get?_upsert, if_neg (Ne.symm same)]
      simp only [untouched, same, decide_false]

theorem get?_merge (dict added : Dict Key Value) (key : Key) :
    (dict.merge absorb added).get? key =
      match added.get? key with
      | none => dict.get? key
      | some value => some (absorbed absorb value (dict.get? key)) := by
  have lookup : added.get? key =
      (added.items.find? fun item => item.1 = key).map Prod.snd := rfl
  rw [merge, get?_foldl_upsert_of_nodup (absorbed absorb) added.items added.nodup, lookup]
  cases added.items.find? fun item => item.1 = key <;> rfl

theorem mem_keys_merge {dict added : Dict Key Value} {key : Key} :
    key ∈ (dict.merge absorb added).keys ↔ key ∈ dict.keys ∨ key ∈ added.keys := by
  simp only [mem_keys, get?_merge]
  cases added.get? key <;> simp

theorem items_foldl_upsert_of_fresh (write : Other → Option Value → Value)
    (entries : List (Key × Other)) {dict : Dict Key Value}
    (distinct : (entries.map Prod.fst).Nodup)
    (fresh : ∀ key ∈ entries.map Prod.fst, key ∉ dict.keys) :
    (entries.foldl (fun dict item => dict.upsert item.1 (write item.2)) dict).items =
      dict.items ++ entries.map fun item => (item.1, write item.2 none) := by
  induction entries generalizing dict with
  | nil => simp
  | cons item entries ih =>
    rw [List.map_cons, List.nodup_cons] at distinct
    have newKey : item.1 ∉ dict.keys := fresh item.1 (by simp)
    rw [List.foldl_cons, ih distinct.2]
    · rw [upsert, dif_neg newKey]
      simp
    · intro key membership
      rw [keys_upsert, if_neg newKey, List.mem_append, List.mem_singleton]
      rintro (known | rfl)
      · exact fresh key (by simp [membership]) known
      · exact distinct.1 membership

theorem items_merge_of_disjoint {dict added : Dict Key Value}
    (disjoint : ∀ key ∈ added.keys, key ∉ dict.keys) :
    (dict.merge absorb added).items = dict.items ++ added.items := by
  rw [merge, items_foldl_upsert_of_fresh (absorbed absorb) added.items added.nodup disjoint]
  simp [absorbed]

end Merge

end Dict

end RagFlow.Lib
