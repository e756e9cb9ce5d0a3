import Mathlib.Data.List.Infix
import RagFlow.Lib.Json
import RagFlow.Lib.ObjectHeap

/-!
# Variables of the canvas

An expression names a global variable or, behind the component, an output with a dotted path into
it.  The getter follows the path through dictionaries, lists, JSON texts and attributes; the setter
makes every step of it a dictionary.  Outputs may share their objects.  Keys of dictionaries are
texts.
-/

namespace RagFlow.Agent.Variables

open RagFlow.Lib RagFlow.Lib.ObjectHeap

def stripChar (char : Char) (text : List Char) : List Char :=
  ((text.dropWhile (· = char)).reverse.dropWhile (· = char)).reverse

def stripExpression (exp : String) : List Char :=
  stripChar '}' (stripChar '{' (stripChar ' ' (stripChar '}' (stripChar '{' exp.toList))))

def splitChar (char : Char) : List Char → List (List Char)
  | [] => [[]]
  | first :: rest =>
    if first = char then [] :: splitChar char rest
    else (splitChar char rest).modifyHead (first :: ·)

inductive Expression where
  | global (name : String)
  | output (cpn_id root_key : String) (rest : List String)
  deriving DecidableEq

/-- Unpacking fails unless there is exactly one `@`. -/
def parseExpression (exp : String) : Option Expression :=
  let text := stripExpression exp
  if '@' ∉ text then some (.global (String.ofList text))
  else
    match splitChar '@' text with
    | [cpn_id, var_nm] =>
      let root_key := var_nm.takeWhile (· ≠ '.')
      let rest := (var_nm.dropWhile (· ≠ '.')).drop 1
      some (.output (String.ofList cpn_id) (String.ofList root_key)
        (if rest = [] then [] else (splitChar '.' rest).map String.ofList))
    | _ => none

/-- Values that cannot be changed; methods and the like are objects of the interpreter. -/
inductive Atom where
  | none
  | bool (value : Bool)
  | number (literal : String)
  | text (value : String)
  | native (id : Nat)

structure Interpreter where
  loads : String → Option Json
  int : String → Option Int
  getattr : Atom → String → Atom
  isZero : String → Bool

structure Canvas where
  heap : Heap Atom
  globals : Dict String (Value Atom)
  components : Dict String (Dict String (Value Atom))

/-- What the getter has in hand: a value, a part of a JSON text that was loaded, or a new dictionary
of all outputs. -/
inductive Reading where
  | value (value : Value Atom)
  | parsed (json : Json)
  | outputs (outputs : Dict String (Value Atom))

namespace Reading

def none : Reading := .value (.atom .none)

end Reading

section Access

variable (python : Interpreter)

/-- `items[index]`, which counts from the end below zero. -/
def getItem {α : Type} (items : List α) (index : Int) : Option α :=
  if 0 ≤ index then items[index.toNat]?
  else if -index ≤ items.length then items[(items.length - index.natAbs)]? else Option.none

def stepJson (json : Json) (key : String) : Reading :=
  match json with
  | .object fields => (Fields.get fields key).elim Reading.none .parsed
  | .array items => ((python.int key).bind (getItem items)).elim Reading.none .parsed
  | .null => .value (.atom (python.getattr .none key))
  | .bool value => .value (.atom (python.getattr (.bool value) key))
  | .number literal => .value (.atom (python.getattr (.number literal) key))
  | .string text => .value (.atom (python.getattr (.text text) key))

def stepText (text key : String) : Reading :=
  match python.loads text with
  | Option.none => Reading.none
  | some json => stepJson python json key

/-- One round of the loop in `get_variable_param_value`. -/
def step (heap : Heap Atom) (cur : Reading) (key : String) : Reading :=
  match cur with
  | .value (.atom .none) | .parsed .null => Reading.none
  | .value (.atom (.text text)) | .parsed (.string text) => stepText python text key
  | .value (.atom atom) => .value (.atom (python.getattr atom key))
  | .parsed json => stepJson python json key
  | .outputs outputs => (outputs.get? key).elim Reading.none .value
  | .value (.ref address) =>
    match heap[address]? with
    | some (.dict fields) => (fields.get? key).elim Reading.none .value
    | some (.list items) => ((python.int key).bind (getItem items)).elim Reading.none .value
    | some (.object attributes) => (attributes.get? key).elim Reading.none .value
    | Option.none => Reading.none

def get_variable_param_value (heap : Heap Atom) (obj : Reading) (path : List String) : Reading :=
  path.foldl (step python heap) obj

/-- `cpn.output(key)`; without a name it makes a dictionary of all outputs. -/
def output (outputs : Dict String (Value Atom)) (key : String) : Reading :=
  if key = "" then .outputs outputs else .value ((outputs.get? key).getD (.atom (.text "")))

/-- A variable or a component that is not there raises. -/
def get_variable_value (canvas : Canvas) : Expression → Option Reading
  | .global name => (canvas.globals.get? name).map .value
  | .output cpn_id root_key rest =>
    (canvas.components.get? cpn_id).map fun outputs =>
      get_variable_param_value python canvas.heap (output outputs root_key) rest

def falsy (heap : Heap Atom) : Value Atom → Bool
  | .atom .none => true
  | .atom (.bool value) => !value
  | .atom (.number literal) => python.isZero literal
  | .atom (.text text) => text = ""
  | .atom (.native _) => false
  | .ref address =>
    match heap[address]? with
    | some (.dict fields) => fields.items.isEmpty
    | some (.list items) => items.isEmpty
    | _ => false

end Access

def subDict (heap : Heap Atom) (cur : Nat) (key : String) : Option Nat :=
  match (dictAt heap cur).bind fun fields => fields.get? key with
  | some (.ref next) => if (dictAt heap next).isSome then some next else none
  | _ => none

/-- The loop of `set_variable_param_value` from a dictionary on; a path has at least one key. -/
def set_variable_param_value (heap : Heap Atom) (cur : Nat) (value : Value Atom) :
    List String → Heap Atom
  | [] => heap
  | [key] => write heap cur key value
  | key :: keys =>
    match subDict heap cur key with
    | some next => set_variable_param_value heap next value keys
    | none =>
      set_variable_param_value (write (heap ++ [.dict .empty]) cur key (.ref heap.length))
        heap.length value keys

namespace Canvas

def setOutput (canvas : Canvas) (cpn_id key : String) (value : Value Atom) : Canvas :=
  { canvas with
    components := canvas.components.upsert cpn_id fun outputs =>
      (outputs.getD .empty).upsert key fun _ => value }

def alloc (canvas : Canvas) (cell : Cell Atom) : Canvas :=
  { canvas with heap := canvas.heap ++ [cell] }

/-- The dictionary at the root of a path: the output if it is one, a new one if it is falsy, and of
all outputs if it has no name.  Other values do not support item assignment. -/
def rootDict (python : Interpreter) (canvas : Canvas) (outputs : Dict String (Value Atom))
    (root_key : String) : Option (Canvas × Nat) :=
  match output outputs root_key with
  | .outputs outputs => some (canvas.alloc (.dict outputs), canvas.heap.length)
  | .value root =>
    if falsy python canvas.heap root then some (canvas.alloc (.dict .empty), canvas.heap.length)
    else
      match root with
      | .ref address => if (dictAt canvas.heap address).isSome then some (canvas, address) else none
      | .atom _ => none
  | .parsed _ => none

end Canvas

def set_variable_value (python : Interpreter) (canvas : Canvas) (value : Value Atom) :
    Expression → Option Canvas
  | .global name => some { canvas with globals := canvas.globals.upsert name fun _ => value }
  | .output cpn_id root_key rest =>
    match canvas.components.get? cpn_id with
    | none => none
    | some outputs =>
      if rest = [] then some (canvas.setOutput cpn_id root_key value)
      else
        (canvas.rootDict python outputs root_key).map fun root =>
          { root.1.setOutput cpn_id root_key (.ref root.2) with
            heap := set_variable_param_value root.1.heap root.2 value rest }

end RagFlow.Agent.Variables

/-!
# Paths into variables

What the getter meets along a path, and the one place where the setter writes: a key of the last
dictionary that it finds, with a chain of new dictionaries behind it.
-/

namespace RagFlow.Agent.Variables

open RagFlow.Lib RagFlow.Lib.ObjectHeap

namespace Reading

def Holds (heap : Heap Atom) (address : Nat) : Reading → Prop
  | .value held => ObjectHeap.Holds heap address held
  | .parsed _ => False
  | .outputs all => ∃ key held, all.get? key = some held ∧ ObjectHeap.Holds heap address held

def Within (heap : Heap Atom) : Reading → Prop
  | .value held => held.Within heap
  | .parsed _ => True
  | .outputs all => ∀ key held, all.get? key = some held → held.Within heap

end Reading

structure Place where
  address : Nat
  before : List String
  key : String
  rest : List String

def place (heap : Heap Atom) (cur : Nat) : List String → Place
  | [] => { address := cur, before := [], key := "", rest := [] }
  | [key] => { address := cur, before := [], key := key, rest := [] }
  | key :: keys =>
    match subDict heap cur key with
    | some next =>
      let found := place heap next keys
      { found with before := key :: found.before }
    | none => { address := cur, before := [], key := key, rest := keys }

def Place.old (heap : Heap Atom) (place : Place) : Option (Value Atom) :=
  (dictAt heap place.address).bind fun fields => fields.get? place.key

variable {python : Interpreter} {heap changed : Heap Atom} {path rest : List String}

@[simp] theorem walk_nil (heap : Heap Atom) (reading : Reading) :
    get_variable_param_value python heap reading [] = reading := rfl

@[simp] theorem walk_cons (heap : Heap Atom) (reading : Reading) (key : String)
    (path : List String) : get_variable_param_value python heap reading (key :: path) =
      get_variable_param_value python heap (step python heap reading key) path := rfl

theorem walk_append (heap : Heap Atom) (reading : Reading) (path rest : List String) :
    get_variable_param_value python heap reading (path ++ rest) =
      get_variable_param_value python heap (get_variable_param_value python heap reading path)
        rest :=
  List.foldl_append

@[simp] theorem walk_none (heap : Heap Atom) (path : List String) :
    get_variable_param_value python heap Reading.none path = Reading.none := by
  induction path with
  | nil => rfl
  | cons key path ih => exact ih

theorem step_dict {address : Nat} {fields : Dict String (Value Atom)}
    (isDict : dictAt heap address = some fields) (key : String) :
    step python heap (.value (.ref address)) key =
      (fields.get? key).elim Reading.none .value := by
  simp only [step, dictAt_eq_some_iff.mp isDict]

theorem step_congr {reading : Reading} {key : String}
    (same : ∀ address, reading = .value (.ref address) → changed[address]? = heap[address]?) :
    step python changed reading key = step python heap reading key := by
  cases reading with
  | parsed json => cases json <;> rfl
  | outputs outputs => rfl
  | value value =>
    cases value with
    | atom atom => cases atom <;> rfl
    | ref address => simp only [step, same address rfl]

theorem walk_congr {reading : Reading}
    (same : ∀ before key after, path = before ++ key :: after →
      step python changed (get_variable_param_value python heap reading before) key =
        step python heap (get_variable_param_value python heap reading before) key) :
    get_variable_param_value python changed reading path =
      get_variable_param_value python heap reading path := by
  induction path generalizing reading with
  | nil => rfl
  | cons key path ih =>
    have first := same [] key path rfl
    rw [walk_nil] at first
    rw [walk_cons, walk_cons, first]
    apply ih
    intro before next after split
    exact same (key :: before) next after (by rw [split]; rfl)

theorem mem_of_getItem {α : Type} {items : List α} {index : Int} {item : α}
    (found : getItem items index = some item) : item ∈ items := by
  unfold getItem at found
  split_ifs at found
  · exact List.mem_of_getElem? found
  · exact List.mem_of_getElem? found

inductive StepsTo (heap : Heap Atom) : Reading → Reading → Prop
  | atom (reading : Reading) (atom : Atom) : StepsTo heap reading (.value (.atom atom))
  | parsed (reading : Reading) (json : Json) : StepsTo heap reading (.parsed json)
  | member {address : Nat} {cell : Cell Atom} {member : Value Atom} :
      heap[address]? = some cell → member ∈ cell.members →
        StepsTo heap (.value (.ref address)) (.value member)
  | output {outputs : Dict String (Value Atom)} {key : String} {member : Value Atom} :
      outputs.get? key = some member → StepsTo heap (.outputs outputs) (.value member)

theorem stepsTo_elim {α : Type} {reading : Reading} {make : α → Reading} (found : Option α)
    (leads : ∀ item, found = some item → StepsTo heap reading (make item)) :
    StepsTo heap reading (found.elim Reading.none make) := by
  cases found with
  | none => exact .atom reading .none
  | some item => exact leads item rfl

theorem stepJson_stepsTo (reading : Reading) (json : Json) (key : String) :
    StepsTo heap reading (stepJson python json key) := by
  cases json with
  | object fields => exact stepsTo_elim _ fun item _ => .parsed reading item
  | array items => exact stepsTo_elim _ fun item _ => .parsed reading item
  | null | bool | number | string => exact .atom reading _

theorem stepText_stepsTo (reading : Reading) (text key : String) :
    StepsTo heap reading (stepText python text key) := by
  unfold stepText
  cases python.loads text with
  | none => exact .atom reading .none
  | some json => exact stepJson_stepsTo reading json key

theorem stepCell_stepsTo {address : Nat} (key : String) :
    StepsTo heap (.value (.ref address)) (step python heap (.value (.ref address)) key) := by
  simp only [step]
  cases isCell : heap[address]? with
  | none => exact .atom _ .none
  | some cell =>
    cases cell with
    | dict fields =>
      exact stepsTo_elim _ fun member found => .member isCell (mem_members_of_get? found)
    | object attributes =>
      refine stepsTo_elim _ fun member found => .member isCell ?_
      exact List.mem_map.mpr ⟨(key, member), Dict.mem_items.mpr found, rfl⟩
    | list items =>
      refine stepsTo_elim _ fun member found => .member isCell ?_
      obtain ⟨index, _, isItem⟩ := Option.bind_eq_some_iff.mp found
      exact mem_of_getItem isItem

theorem step_stepsTo (heap : Heap Atom) (reading : Reading) (key : String) :
    StepsTo heap reading (step python heap reading key) := by
  cases reading with
  | parsed json =>
    cases json with
    | null => exact .atom _ .none
    | string text => exact stepText_stepsTo _ text key
    | bool value => exact stepJson_stepsTo _ (.bool value) key
    | number literal => exact stepJson_stepsTo _ (.number literal) key
    | array items => exact stepJson_stepsTo _ (.array items) key
    | object fields => exact @stepJson_stepsTo python heap _ (.object fields) key
  | outputs outputs => exact stepsTo_elim _ fun member found => .output found
  | value value =>
    cases value with
    | ref address => exact stepCell_stepsTo key
    | atom atom =>
      cases atom with
      | none => exact .atom _ .none
      | text text => exact stepText_stepsTo _ text key
      | bool | number | native => exact .atom _ _

theorem not_holds_atom {address : Nat} {atom : Atom} :
    ¬ ObjectHeap.Holds heap address (.atom atom) := by
  intro holds
  cases holds

theorem StepsTo.holds {reading next : Reading} {address : Nat} (leads : StepsTo heap reading next)
    (holds : next.Holds heap address) : reading.Holds heap address := by
  cases leads with
  | atom atom => exact absurd holds not_holds_atom
  | parsed json => exact absurd holds id
  | member isCell member => exact .within isCell member holds
  | output found => exact ⟨_, _, found, holds⟩

theorem StepsTo.within {reading next : Reading} (leads : StepsTo heap reading next)
    (closed : ObjectHeap.Closed heap) (within : reading.Within heap) : next.Within heap := by
  cases leads with
  | atom atom => trivial
  | parsed json => trivial
  | member isCell member => exact closed.within isCell member
  | output found => exact within _ _ found

theorem holds_of_walk {reading : Reading} {address : Nat}
    (holds : (get_variable_param_value python heap reading path).Holds heap address) :
    reading.Holds heap address := by
  induction path generalizing reading with
  | nil => exact holds
  | cons key path ih =>
    exact (step_stepsTo heap reading key).holds (ih holds)

theorem within_walk {reading : Reading} (closed : ObjectHeap.Closed heap)
    (within : reading.Within heap) :
    (get_variable_param_value python heap reading path).Within heap := by
  induction path generalizing reading with
  | nil => exact within
  | cons key path ih =>
    exact ih ((step_stepsTo heap reading key).within closed within)

theorem Reading.Holds.lt {reading : Reading} {address : Nat} (closed : ObjectHeap.Closed heap)
    (within : reading.Within heap) (holds : reading.Holds heap address) :
    address < heap.length := by
  cases reading with
  | value value => exact ObjectHeap.Holds.lt closed within holds
  | parsed json => exact absurd holds id
  | outputs outputs =>
    obtain ⟨key, value, found, holds⟩ := holds
    exact ObjectHeap.Holds.lt closed (within key value found) holds

theorem walk_chain {last value : Value Atom} (chain : Chain heap last path value) :
    get_variable_param_value python heap (.value value) path = .value last := by
  induction path generalizing value with
  | nil => exact congrArg Reading.value chain
  | cons key path ih =>
    obtain ⟨address, fields, next, rfl, isDict, found, -, chain⟩ := chain
    rw [walk_cons, step_dict isDict, found]
    exact ih chain

theorem walk_chain_apart {last value : Value Atom} {other : List String}
    (chain : Chain heap last path value) (apart : ¬ other <+: path) (beside : ¬ path <+: other) :
    get_variable_param_value python heap (.value value) other = Reading.none := by
  induction path generalizing value other with
  | nil => exact absurd List.nil_prefix beside
  | cons key path ih =>
    obtain ⟨address, fields, next, rfl, isDict, found, only, chain⟩ := chain
    cases other with
    | nil => exact absurd List.nil_prefix apart
    | cons otherKey other =>
      rw [walk_cons, step_dict isDict]
      by_cases same : otherKey = key
      · subst same
        rw [found]
        simp only [List.cons_prefix_cons, true_and] at apart beside
        exact ih chain apart beside
      · rw [only otherKey same]
        exact walk_none heap other

/-- All objects are kept but one. -/
structure ChangesOnly (before after : Heap Atom) (address : Nat) : Prop where
  others : ∀ other, other < before.length → other ≠ address → after[other]? = before[other]?
  le : before.length ≤ after.length

theorem changesOnly_write {address : Nat} {key : String} {value : Value Atom} :
    ChangesOnly heap (write heap address key value) address where
  others _ _ different := getElem?_write_of_ne different
  le := by rw [length_write]

theorem dictAt_append {address : Nat} {cell : Cell Atom} (bound : address < heap.length) :
    dictAt (heap ++ [cell]) address = dictAt heap address :=
  dictAt_congr (List.getElem?_append_left bound)

theorem dictAt_new : dictAt (heap ++ [.dict .empty]) heap.length = some .empty :=
  dictAt_eq_some_iff.mpr (by simp)

theorem lt_of_dictAt {address : Nat} {fields : Dict String (Value Atom)}
    (isDict : dictAt heap address = some fields) : address < heap.length :=
  (List.getElem?_eq_some_iff.mp (dictAt_eq_some_iff.mp isDict)).1

def newDict (heap : Heap Atom) (cur : Nat) (key : String) : Heap Atom :=
  write (heap ++ [.dict .empty]) cur key (.ref heap.length)

theorem set_of_subDict_none {cur : Nat} {value : Value Atom} {key next : String}
    {keys : List String} (missing : subDict heap cur key = none) :
    set_variable_param_value heap cur value (key :: next :: keys) =
      set_variable_param_value (newDict heap cur key) heap.length value (next :: keys) := by
  rw [set_variable_param_value]
  · simp [missing, newDict]
  · simp

theorem newDict_spec {cur : Nat} {key : String} {fields : Dict String (Value Atom)}
    (isDict : dictAt heap cur = some fields) :
    dictAt (newDict heap cur key) heap.length = some .empty ∧
      (newDict heap cur key)[cur]? =
        some (.dict (fields.upsert key fun _ => .ref heap.length)) ∧
      ChangesOnly heap (newDict heap cur key) cur := by
  have bound := lt_of_dictAt isDict
  refine ⟨?_, getElem?_write ((dictAt_append bound).trans isDict), fun other inside different => ?_,
    ?_⟩
  · exact (dictAt_congr (getElem?_write_of_ne bound.ne')).trans dictAt_new
  · exact (getElem?_write_of_ne different).trans (List.getElem?_append_left inside)
  · simp [newDict]

theorem chain_set {cur : Nat} {value : Value Atom} {keys : List String}
    (isEmpty : dictAt heap cur = some .empty) (nonempty : keys ≠ []) :
    Chain (set_variable_param_value heap cur value keys) value keys (.ref cur) ∧
      ChangesOnly heap (set_variable_param_value heap cur value keys) cur := by
  induction keys generalizing heap cur with
  | nil => exact absurd rfl nonempty
  | cons key keys ih =>
    cases keys with
    | nil =>
      refine ⟨⟨cur, Dict.empty.upsert key fun _ => value, value, rfl,
        dictAt_eq_some_iff.mpr (getElem?_write isEmpty), by simp, ?_, rfl⟩, changesOnly_write⟩
      intro other different
      simp [different]
    | cons next keys =>
      have missing : subDict heap cur key = none := by simp [subDict, isEmpty]
      obtain ⟨isNew, written, keeps⟩ := @newDict_spec heap cur key .empty isEmpty
      obtain ⟨chain, keepsLater⟩ := ih isNew (by simp)
      rw [set_of_subDict_none missing]
      have bound := lt_of_dictAt isEmpty
      have still := keepsLater.others cur (Nat.lt_of_lt_of_le bound keeps.le) bound.ne
      refine ⟨⟨cur, _, .ref heap.length, rfl, dictAt_eq_some_iff.mpr (still.trans written),
        by simp, ?_, chain⟩, fun other inside different => ?_, keeps.le.trans keepsLater.le⟩
      · intro other different
        simp [different]
      · rw [keepsLater.others other (Nat.lt_of_lt_of_le inside keeps.le) inside.ne,
          keeps.others other inside different]

/-- What the loop does: it walks to a dictionary and writes one key there, with a chain to the
value. -/
structure Writes (before after : Heap Atom) (place : Place) (value written : Value Atom)
    (fields : Dict String (Value Atom)) : Prop where
  isDict : dictAt before place.address = some fields
  changed : after[place.address]? = some (.dict (fields.upsert place.key fun _ => written))
  keeps : ChangesOnly before after place.address
  chain : Chain after value place.rest written
  isNew : place.rest ≠ [] → ∃ address, written = .ref address ∧ before.length ≤ address

theorem subDict_eq_some {cur next : Nat} {key : String} (found : subDict heap cur key = some next) :
    ∃ fields sub, dictAt heap cur = some fields ∧ fields.get? key = some (.ref next) ∧
      dictAt heap next = some sub := by
  unfold subDict at found
  split at found
  · rename_i address lookup
    split_ifs at found with isDict
    obtain rfl : address = next := Option.some.inj found
    obtain ⟨fields, isFields, isRef⟩ := Option.bind_eq_some_iff.mp lookup
    obtain ⟨sub, isSub⟩ := Option.isSome_iff_exists.mp isDict
    exact ⟨fields, sub, isFields, isRef, isSub⟩
  · contradiction

theorem set_of_subDict_some {cur next : Nat} {value : Value Atom} {key second : String}
    {keys : List String} (found : subDict heap cur key = some next) :
    set_variable_param_value heap cur value (key :: second :: keys) =
      set_variable_param_value heap next value (second :: keys) := by
  rw [set_variable_param_value]
  · simp [found]
  · simp

theorem place_of_subDict_some {cur next : Nat} {key second : String} {keys : List String}
    (found : subDict heap cur key = some next) :
    place heap cur (key :: second :: keys) =
      { place heap next (second :: keys) with
        before := key :: (place heap next (second :: keys)).before } := by
  rw [place]
  · simp [found]
  · simp

theorem place_of_subDict_none {cur : Nat} {key second : String} {keys : List String}
    (missing : subDict heap cur key = none) :
    place heap cur (key :: second :: keys) =
      { address := cur, before := [], key := key, rest := second :: keys } := by
  rw [place]
  · simp [missing]
  · simp

theorem set_writes {cur : Nat} {value : Value Atom} {keys : List String}
    {root : Dict String (Value Atom)} (isRoot : dictAt heap cur = some root)
    (nonempty : keys ≠ []) :
    ∃ written fields, Writes heap (set_variable_param_value heap cur value keys)
      (place heap cur keys) value written fields := by
  induction keys generalizing cur root with
  | nil => exact absurd rfl nonempty
  | cons key keys ih =>
    cases keys with
    | nil =>
      exact ⟨value, root, isRoot, getElem?_write isRoot, changesOnly_write, rfl,
        fun absent => absurd rfl absent⟩
    | cons second keys =>
      cases found : subDict heap cur key with
      | none =>
        obtain ⟨isNew, written, keeps⟩ := @newDict_spec heap cur key root isRoot
        have bound := lt_of_dictAt isRoot
        obtain ⟨chain, keepsLater⟩ :=
          @chain_set _ heap.length value (second :: keys) isNew (by simp)
        have still := keepsLater.others cur (Nat.lt_of_lt_of_le bound keeps.le) bound.ne
        rw [set_of_subDict_none found, place_of_subDict_none found]
        refine ⟨.ref heap.length, root, isRoot, still.trans written,
          ⟨fun other inside different => ?_, keeps.le.trans keepsLater.le⟩, chain,
          fun _ => ⟨heap.length, rfl, Nat.le_refl _⟩⟩
        rw [keepsLater.others other (Nat.lt_of_lt_of_le inside keeps.le) inside.ne,
          keeps.others other inside different]
      | some next =>
        obtain ⟨fields, sub, isFields, isRef, isSub⟩ := subDict_eq_some found
        obtain ⟨written, last, writes⟩ := ih isSub (by simp)
        rw [set_of_subDict_some found, place_of_subDict_some found]
        exact ⟨written, last, writes.isDict, writes.changed, writes.keeps, writes.chain,
          writes.isNew⟩

theorem place_keys {cur : Nat} {keys : List String} (nonempty : keys ≠ []) :
    keys = (place heap cur keys).before ++
      (place heap cur keys).key :: (place heap cur keys).rest := by
  induction keys generalizing cur with
  | nil => exact absurd rfl nonempty
  | cons key keys ih =>
    cases keys with
    | nil => rfl
    | cons second keys =>
      cases found : subDict heap cur key with
      | none => rw [place_of_subDict_none found]; rfl
      | some next =>
        rw [place_of_subDict_some found, List.cons_append]
        exact congrArg (key :: ·) (ih (by simp))

theorem walk_place {cur : Nat} {keys : List String} :
    get_variable_param_value python heap (.value (.ref cur)) (place heap cur keys).before =
      .value (.ref (place heap cur keys).address) := by
  induction keys generalizing cur with
  | nil => rfl
  | cons key keys ih =>
    cases keys with
    | nil => rfl
    | cons second keys =>
      cases found : subDict heap cur key with
      | none => rw [place_of_subDict_none found]; rfl
      | some next =>
        obtain ⟨fields, _, isFields, isRef, _⟩ := subDict_eq_some found
        rw [place_of_subDict_some found, walk_cons, step_dict isFields, isRef]
        exact ih

end RagFlow.Agent.Variables
