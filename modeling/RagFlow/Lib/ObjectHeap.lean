import RagFlow.Lib.Dict

/-!
# A heap of mutable objects

Values are immutable or refer to a list, a dictionary or an object with attributes.  An address is a
place in the heap; new objects are allocated at its end.
-/

namespace RagFlow.Lib.ObjectHeap

universe u

inductive Value (Atom : Type u) where
  | atom (value : Atom)
  | ref (address : Nat)

inductive Cell (Atom : Type u) where
  | list (items : List (Value Atom))
  | dict (fields : Dict String (Value Atom))
  | object (attributes : Dict String (Value Atom))

abbrev Heap (Atom : Type u) := List (Cell Atom)

variable {Atom : Type u}

def Cell.members : Cell Atom → List (Value Atom)
  | .list items => items
  | .dict fields => fields.items.map Prod.snd
  | .object attributes => attributes.items.map Prod.snd

def dictAt (heap : Heap Atom) (address : Nat) : Option (Dict String (Value Atom)) :=
  match heap[address]? with
  | some (.dict fields) => some fields
  | _ => none

/-- `heap[address][key] = value` for a dictionary. -/
def write (heap : Heap Atom) (address : Nat) (key : String) (value : Value Atom) : Heap Atom :=
  match dictAt heap address with
  | some fields => heap.set address (.dict (fields.upsert key fun _ => value))
  | none => heap

inductive Holds (heap : Heap Atom) (address : Nat) : Value Atom → Prop
  | here : Holds heap address (.ref address)
  | within {place : Nat} {cell : Cell Atom} {member : Value Atom} :
      heap[place]? = some cell → member ∈ cell.members → Holds heap address member →
        Holds heap address (.ref place)

def Value.Within (heap : Heap Atom) : Value Atom → Prop
  | .atom _ => True
  | .ref address => address < heap.length

def Closed (heap : Heap Atom) : Prop :=
  ∀ cell ∈ heap, ∀ member ∈ cell.members, member.Within heap

def Chain (heap : Heap Atom) (last : Value Atom) : List String → Value Atom → Prop
  | [], value => value = last
  | key :: keys, value => ∃ address fields next, value = .ref address ∧
      dictAt heap address = some fields ∧ fields.get? key = some next ∧
      (∀ other, other ≠ key → fields.get? other = none) ∧ Chain heap last keys next

variable {heap : Heap Atom} {address other : Nat} {key : String} {value : Value Atom}
  {fields : Dict String (Value Atom)}

theorem dictAt_eq_some_iff :
    dictAt heap address = some fields ↔ heap[address]? = some (.dict fields) := by
  unfold dictAt
  cases cell : heap[address]? with
  | none => simp
  | some object => cases object <;> simp

theorem mem_members_of_get? (found : fields.get? key = some value) :
    value ∈ (Cell.dict fields).members :=
  List.mem_map.mpr ⟨(key, value), Dict.mem_items.mpr found, rfl⟩

@[simp] theorem length_write : (write heap address key value).length = heap.length := by
  unfold write
  cases dictAt heap address <;> simp

theorem getElem?_write_of_ne (different : other ≠ address) :
    (write heap address key value)[other]? = heap[other]? := by
  unfold write
  cases dictAt heap address with
  | none => rfl
  | some fields => exact List.getElem?_set_ne (Ne.symm different)

theorem getElem?_write (isDict : dictAt heap address = some fields) :
    (write heap address key value)[address]? = some (.dict (fields.upsert key fun _ => value)) := by
  have found := dictAt_eq_some_iff.mp isDict
  have bound := (List.getElem?_eq_some_iff.mp found).1
  simp only [write, isDict]
  rw [List.getElem?_set_self bound]

theorem dictAt_congr {changed : Heap Atom} (same : changed[address]? = heap[address]?) :
    dictAt changed address = dictAt heap address := by
  rw [dictAt, dictAt, same]

theorem Closed.within (closed : Closed heap) {cell : Cell Atom} (found : heap[address]? = some cell)
    (member : value ∈ cell.members) : value.Within heap :=
  closed cell (List.mem_of_getElem? found) value member

theorem Holds.lt (closed : Closed heap) (within : value.Within heap)
    (holds : Holds heap address value) : address < heap.length := by
  induction holds with
  | here => exact within
  | within found member _ ih =>
    exact ih (closed.within found member)

end RagFlow.Lib.ObjectHeap
