import Mathlib
import RagFlow.Lib.Json

/-!
# JSON split into chunks

`_json_split` goes through a document and puts what fits into the current chunk, under its path;
what does not fit is taken apart.
-/

namespace RagFlow.Chunking.JsonSplitter

open RagFlow.Lib

abbrev keys (fields : Fields) : List String := fields.map Prod.fst

section Dictionaries

/-- `d[key] = value` -/
def assign : Fields → String → Json → Fields
  | [], key, value => [(key, value)]
  | (name, old) :: rest, key, value =>
    if name = key then (name, value) :: rest else (name, old) :: assign rest key value

/-- The loop over `path[:-1]`, and `d[path[-1]] = value`.  Something else than a dictionary on the way
raises. -/
def setIn (d : Fields) : List String → String → Json → Option Fields
  | [], last, value => some (assign d last value)
  | key :: path, last, value =>
    match d.get key with
    | none => (setIn [] path last value).map fun inner => d ++ [(key, .object inner)]
    | some (.object inner) =>
      (setIn inner path last value).map fun inner => assign d key (.object inner)
    | some _ => none

/-- An empty path raises. -/
def setNestedDict (d : Fields) (path : List String) (value : Json) : Option Fields :=
  path.getLast?.bind fun last => setIn d path.dropLast last value

mutual

def listToDict : Json → Json
  | .object fields => .object (fieldsToDict fields)
  | .array items => .object (itemsToDict 0 items)
  | data => data

def fieldsToDict : Fields → Fields
  | [] => []
  | (key, value) :: rest => (key, listToDict value) :: fieldsToDict rest

def itemsToDict (index : Nat) : List Json → Fields
  | [] => []
  | item :: rest => (toString index, listToDict item) :: itemsToDict (index + 1) rest

end

end Dictionaries

/-- `chunks`, which always has a last one. -/
structure Chunks where
  closed : List Fields
  last : Fields

def Chunks.all (chunks : Chunks) : List Fields := chunks.closed ++ [chunks.last]

structure Splitter where
  /-- `json.dumps` without escapes -/
  dumps : Json → String
  maxChunkSize : Int
  minChunkSize : Int

namespace Splitter

variable (splitter : Splitter)

def jsonSize (data : Fields) : Nat := (splitter.dumps (.object data)).length

def set (path : List String) (value : Json) (chunks : Chunks) : Option Chunks :=
  (setNestedDict chunks.last path value).map fun last => { chunks with last }

/-- `chunks.append({})` if the last chunk is big enough -/
def startNew (chunks : Chunks) : Chunks :=
  if splitter.minChunkSize ≤ splitter.jsonSize chunks.last then ⟨chunks.all, []⟩ else chunks

mutual

def jsonSplit (path : List String) (chunks : Chunks) : Json → Option Chunks
  | .object fields => splitFields path chunks fields
  | data => set path data chunks

def splitFields (path : List String) (chunks : Chunks) : Fields → Option Chunks
  | [] => some chunks
  | (key, value) :: rest =>
    (if splitter.jsonSize [(key, value)] <
        splitter.maxChunkSize - splitter.jsonSize chunks.last then
      set (path ++ [key]) value chunks
    else
      jsonSplit (path ++ [key]) (splitter.startNew chunks) value).bind fun chunks =>
        splitFields path chunks rest

end

def splitJson (data : Json) (convertLists : Bool) : Option (List Fields) :=
  (splitter.jsonSplit [] ⟨[], []⟩ (if convertLists then listToDict data else data)).map
    fun chunks => if chunks.last = [] then chunks.closed else chunks.all

end Splitter

mutual

/-- What is not an object, in order, with the keys on the way to it. -/
def leaves (path : List String) : Json → List (List String × Json)
  | .object fields => leavesIn path fields
  | data => [(path, data)]

def leavesIn (path : List String) : Fields → List (List String × Json)
  | [] => []
  | (key, value) :: rest => leaves (path ++ [key]) value ++ leavesIn path rest

end

mutual

/-- No object has a key twice. -/
def Distinct : Json → Prop
  | .object fields => (keys fields).Nodup ∧ DistinctFields fields
  | .array items => DistinctItems items
  | _ => True

def DistinctFields : Fields → Prop
  | [] => True
  | (_, value) :: rest => Distinct value ∧ DistinctFields rest

def DistinctItems : List Json → Prop
  | [] => True
  | item :: rest => Distinct item ∧ DistinctItems rest

end

section Setting

@[simp] theorem leavesIn_append (path : List String) (first second : Fields) :
    leavesIn path (first ++ second) = leavesIn path first ++ leavesIn path second := by
  induction first with
  | nil => rfl
  | cons field rest ih => rw [List.cons_append, leavesIn, leavesIn, ih, List.append_assoc]

theorem assign_new {fields : Fields} {key : String} (isNew : key ∉ keys fields) (value : Json) :
    assign fields key value = fields ++ [(key, value)] := by
  induction fields with
  | nil => rfl
  | cons field rest ih =>
    obtain ⟨differs, isNew⟩ := List.ne_and_not_mem_of_not_mem_cons isNew
    rw [assign, if_neg (Ne.symm differs), ih isNew, List.cons_append]

theorem assign_last {before : Fields} {key : String} (isNew : key ∉ keys before)
    (old value : Json) :
    assign (before ++ [(key, old)]) key value = before ++ [(key, value)] := by
  induction before with
  | nil => simp [assign]
  | cons field rest ih =>
    obtain ⟨differs, isNew⟩ := List.ne_and_not_mem_of_not_mem_cons isNew
    rw [List.cons_append, assign, if_neg (Ne.symm differs), ih isNew, List.cons_append]

theorem get_append {before : Fields} {key : String} (isNew : key ∉ keys before) (after : Fields) :
    Fields.get (before ++ after) key = Fields.get after key := by
  induction before with
  | nil => rfl
  | cons field rest ih =>
    obtain ⟨differs, isNew⟩ := List.ne_and_not_mem_of_not_mem_cons isNew
    rw [List.cons_append, Fields.get, if_neg (Ne.symm differs), ih isNew]

/-- Along the path the last entries lead to where the key is new. -/
def Fresh (fields : Fields) : List String → String → Prop
  | [], last => last ∉ keys fields
  | key :: path, last => key ∉ keys fields ∨ ∃ before inner,
      fields = before ++ [(key, .object inner)] ∧ key ∉ keys before ∧ Fresh inner path last

theorem fresh_nil (path : List String) (last : String) : Fresh [] path last := by
  cases path with
  | nil => exact List.not_mem_nil
  | cons key path => exact .inl List.not_mem_nil

theorem Fresh.below {fields : Fields} {path : List String} {last : String}
    (fresh : Fresh fields path last) (other : String) : Fresh fields (path ++ [last]) other := by
  induction path generalizing fields with
  | nil => exact .inl fresh
  | cons key path ih =>
    rcases fresh with isNew | ⟨before, inner, same, isNew, fresh⟩
    · exact .inl isNew
    · exact .inr ⟨before, inner, same, isNew, ih fresh⟩

theorem fresh_entered {before inner : Fields} {key last : String} {path : List String}
    (isNew : key ∉ keys before) :
    Fresh (before ++ [(key, .object inner)]) (key :: path) last ↔ Fresh inner path last := by
  constructor
  · rintro (absent | ⟨others, found, same, _, fresh⟩)
    · exact absurd (by simp) absent
    · obtain ⟨rfl, entry⟩ := List.append_inj' same rfl
      cases entry
      exact fresh
  · exact fun fresh => .inr ⟨before, inner, rfl, isNew, fresh⟩

/-- A path that goes another way than this key, where the shared keys end. -/
def Beside (path shared : List String) (last : String) : Prop :=
  ∃ key rest, path = shared ++ key :: rest ∧ key ≠ last

theorem Beside.append {path shared : List String} {last : String}
    (beside : Beside path shared last) (more : List String) :
    Beside (path ++ more) shared last := by
  obtain ⟨key, rest, rfl, differs⟩ := beside
  exact ⟨key, rest ++ more, by simp, differs⟩

theorem setIn_spec (last : String) (value : Json) {path : List String} :
    ∀ {fields : Fields}, Fresh fields path last → ∃ next, setIn fields path last value = some next ∧
      (∀ top, leavesIn top next = leavesIn top fields ++ leaves (top ++ path ++ [last]) value) ∧
      ∀ shared other, Fresh fields shared other → Beside (path ++ [last]) shared other →
        Fresh next shared other := by
  induction path with
  | nil =>
    intro fields fresh
    refine ⟨fields ++ [(last, value)], ?_, ?_, ?_⟩
    · rw [setIn, assign_new fresh]
    · intro top
      simp [leavesIn]
    · rintro shared other freshOther ⟨key, rest, isPath, differs⟩
      cases shared with
      | nil =>
        obtain ⟨rfl, rfl⟩ := List.cons_eq_cons.mp isPath
        simpa [Fresh, differs.symm] using freshOther
      | cons => simp at isPath
  | cons key path ih =>
    -- A new key is as good as one with an empty dictionary.
    suffices entered : ∀ before inner, key ∉ keys before → Fresh inner path last →
        ∃ changed, setIn inner path last value = some changed ∧
          (∀ top, leavesIn top (before ++ [(key, .object changed)]) =
            leavesIn top (before ++ [(key, .object inner)]) ++
              leaves (top ++ key :: path ++ [last]) value) ∧
          ∀ shared other, Fresh (before ++ [(key, .object inner)]) shared other →
            Beside (key :: path ++ [last]) shared other →
              Fresh (before ++ [(key, .object changed)]) shared other by
      rintro fields (isNew | ⟨before, inner, rfl, isNew, fresh⟩)
      · obtain ⟨changed, isChanged, isLeaves, keeps⟩ := entered fields [] isNew (fresh_nil path last)
        refine ⟨_, ?_, fun top => (isLeaves top).trans ?_, fun shared other fresh beside => ?_⟩
        · have absent : fields.get key = none := by simpa using get_append isNew []
          rw [setIn, absent, isChanged]
          rfl
        · simp [leavesIn, leaves]
        · apply keeps shared other _ beside
          obtain ⟨next, rest, isPath, differs⟩ := beside
          cases shared with
          | nil =>
            obtain ⟨rfl, -⟩ := List.cons_eq_cons.mp isPath
            simpa [Fresh, differs.symm] using fresh
          | cons head shared =>
            obtain ⟨rfl, -⟩ := List.cons_eq_cons.mp isPath
            exact (fresh_entered isNew).mpr (fresh_nil shared other)
      · obtain ⟨changed, isChanged, isLeaves, keeps⟩ := entered before inner isNew fresh
        refine ⟨_, ?_, isLeaves, keeps⟩
        rw [setIn, get_append isNew]
        simp only [Fields.get, if_true, isChanged, assign_last isNew, Option.map_some]
    intro before inner isNew fresh
    obtain ⟨changed, isChanged, isLeaves, keeps⟩ := ih fresh
    refine ⟨changed, isChanged, fun top => ?_, fun shared other freshOther beside => ?_⟩
    · simp [leavesIn, leaves, isLeaves]
    · obtain ⟨next, rest, isPath, differs⟩ := beside
      cases shared with
      | nil => simpa [Fresh] using freshOther
      | cons head shared =>
        obtain ⟨rfl, isRest⟩ := List.cons_eq_cons.mp isPath
        exact (fresh_entered isNew).mpr
          (keeps shared other ((fresh_entered isNew).mp freshOther) ⟨next, rest, isRest, differs⟩)

end Setting

section Splitting

variable {splitter : Splitter}

def Chunks.leaves (chunks : Chunks) : List (List String × Json) :=
  chunks.all.flatMap (leavesIn [])

/-- The chunks got these leaves, and still take what the paths are beside. -/
structure Extends (chunks next : Chunks) (paths : List (List String))
    (added : List (List String × Json)) : Prop where
  leaves : next.leaves = chunks.leaves ++ added
  fresh : ∀ shared last, Fresh chunks.last shared last →
    (∀ path ∈ paths, Beside path shared last) → Fresh next.last shared last

theorem extends_set {chunks : Chunks} {path : List String} {key : String}
    (fresh : Fresh chunks.last path key) (value : Json) :
    ∃ next, Splitter.set (path ++ [key]) value chunks = some next ∧
      Extends chunks next [path ++ [key]] (leaves (path ++ [key]) value) := by
  obtain ⟨last, isSet, isLeaves, keeps⟩ := setIn_spec key value fresh
  refine ⟨{ chunks with last }, ?_, ?_, ?_⟩
  · simp [Splitter.set, setNestedDict, isSet]
  · simp [Chunks.leaves, Chunks.all, isLeaves]
  · exact fun shared other freshOther beside =>
      keeps shared other freshOther (beside _ List.mem_cons_self)

theorem startNew_spec (chunks : Chunks) : (splitter.startNew chunks).leaves = chunks.leaves ∧
    ∀ path key, Fresh chunks.last path key → Fresh (splitter.startNew chunks).last path key := by
  unfold Splitter.startNew
  split
  · exact ⟨by simp [Chunks.leaves, Chunks.all, leavesIn], fun path key _ => fresh_nil path key⟩
  · exact ⟨rfl, fun _ _ => id⟩

mutual

theorem jsonSplit_spec {path : List String} {key : String} {chunks : Chunks} (data : Json)
    (distinct : Distinct data) (fresh : Fresh chunks.last path key) :
    ∃ next, splitter.jsonSplit (path ++ [key]) chunks data = some next ∧
      Extends chunks next [path ++ [key]] (leaves (path ++ [key]) data) := by
  cases data with
  | object fields =>
    obtain ⟨next, isSplit, isNext⟩ := splitFields_spec fields distinct.1 distinct.2
      fun other _ => fresh.below other
    rw [Splitter.jsonSplit, leaves]
    refine ⟨next, isSplit, isNext.leaves, fun shared last freshLast beside => ?_⟩
    apply isNext.fresh shared last freshLast
    intro inner member
    obtain ⟨other, _, rfl⟩ := List.mem_map.mp member
    exact (beside _ List.mem_cons_self).append [other]
  | null => exact extends_set fresh _
  | bool value => exact extends_set fresh _
  | number literal => exact extends_set fresh _
  | string text => exact extends_set fresh _
  | array items => exact extends_set fresh _

theorem splitFields_spec {path : List String} {chunks : Chunks} (fields : Fields)
    (nodup : (keys fields).Nodup) (distinct : DistinctFields fields)
    (fresh : ∀ key ∈ keys fields, Fresh chunks.last path key) :
    ∃ next, splitter.splitFields path chunks fields = some next ∧
      Extends chunks next ((keys fields).map fun key => path ++ [key]) (leavesIn path fields) := by
  cases fields with
  | nil => exact ⟨chunks, rfl, by simp [leavesIn], fun _ _ fresh _ => fresh⟩
  | cons field rest =>
    obtain ⟨key, value⟩ := field
    obtain ⟨isNew, nodup⟩ := List.nodup_cons.mp nodup
    have freshKey := fresh key List.mem_cons_self
    obtain ⟨middle, isMiddle, toMiddle⟩ : ∃ middle,
        (if splitter.jsonSize [(key, value)] <
            splitter.maxChunkSize - splitter.jsonSize chunks.last then
          Splitter.set (path ++ [key]) value chunks
        else
          splitter.jsonSplit (path ++ [key]) (splitter.startNew chunks) value) = some middle ∧
        Extends chunks middle [path ++ [key]] (leaves (path ++ [key]) value) := by
      split
      · exact extends_set freshKey value
      · obtain ⟨sameLeaves, stillFresh⟩ := @startNew_spec splitter chunks
        obtain ⟨middle, isMiddle, isNext⟩ :=
          jsonSplit_spec value distinct.1 (stillFresh _ _ freshKey)
        exact ⟨middle, isMiddle, sameLeaves ▸ isNext.leaves, fun shared last freshLast =>
          isNext.fresh shared last (stillFresh shared last freshLast)⟩
    obtain ⟨next, isNext, toNext⟩ := splitFields_spec rest nodup distinct.2 fun other member => by
      apply toMiddle.fresh _ _ (fresh other (List.mem_cons_of_mem _ member))
      intro inner isInner
      obtain rfl := List.mem_singleton.mp isInner
      exact ⟨key, [], rfl, fun same => isNew (same ▸ member)⟩
    refine ⟨next, ?_, ?_, fun shared last freshLast beside => ?_⟩
    · rw [Splitter.splitFields, isMiddle, Option.bind_some, isNext]
    · rw [toNext.leaves, toMiddle.leaves, leavesIn, List.append_assoc]
    · apply toNext.fresh shared last
      · apply toMiddle.fresh shared last freshLast
        intro inner isInner
        exact beside inner (List.mem_singleton.mp isInner ▸ List.mem_cons_self)
      · intro inner isInner
        exact beside inner (List.mem_cons_of_mem _ isInner)

end

end Splitting

section Preprocessing

theorem keys_fieldsToDict (fields : Fields) : keys (fieldsToDict fields) = keys fields := by
  induction fields with
  | nil => rfl
  | cons field rest ih =>
    rw [fieldsToDict]
    exact congrArg (field.1 :: ·) ih

theorem keys_itemsToDict (items : List Json) (index : Nat) :
    keys (itemsToDict index items) = (List.range' index items.length).map toString := by
  induction items generalizing index with
  | nil => rfl
  | cons item rest ih =>
    rw [itemsToDict, List.length_cons, List.range'_succ, List.map_cons]
    exact congrArg (toString index :: ·) (ih (index + 1))

mutual

theorem distinct_listToDict (data : Json) (distinct : Distinct data) :
    Distinct (listToDict data) := by
  cases data with
  | object fields =>
    exact ⟨keys_fieldsToDict fields ▸ distinct.1, distinct_fieldsToDict fields distinct.2⟩
  | array items =>
    refine ⟨?_, distinct_itemsToDict items 0 distinct⟩
    rw [keys_itemsToDict]
    exact (List.nodup_range' ..).map fun _ _ => Nat.repr_inj.mp
  | null => trivial
  | bool value => trivial
  | number literal => trivial
  | string text => trivial

theorem distinct_fieldsToDict (fields : Fields) (distinct : DistinctFields fields) :
    DistinctFields (fieldsToDict fields) := by
  cases fields with
  | nil => trivial
  | cons field rest =>
    exact ⟨distinct_listToDict field.2 distinct.1, distinct_fieldsToDict rest distinct.2⟩

theorem distinct_itemsToDict (items : List Json) (index : Nat) (distinct : DistinctItems items) :
    DistinctFields (itemsToDict index items) := by
  cases items with
  | nil => trivial
  | cons item rest =>
    exact ⟨distinct_listToDict item distinct.1, distinct_itemsToDict rest (index + 1) distinct.2⟩

end

end Preprocessing

/-- Whatever the sizes, an object or array is split without an exception, and its scalars are in the
chunks in order, each once and under its path. -/
theorem splitJson_conserves (splitter : Splitter) {data : Json} (distinct : Distinct data)
    {fields : Fields} (isContainer : listToDict data = .object fields) :
    ∃ chunks, splitter.splitJson data true = some chunks ∧
      chunks.flatMap (leavesIn []) = leaves [] (listToDict data) := by
  have distinctFields := distinct_listToDict data distinct
  rw [isContainer] at distinctFields
  have start : ∀ key ∈ keys fields, Fresh (⟨[], []⟩ : Chunks).last [] key :=
    fun key _ => fresh_nil [] key
  obtain ⟨next, isNext, isExtended⟩ :=
    splitFields_spec fields distinctFields.1 distinctFields.2 start
  rw [Splitter.splitJson, if_pos rfl, isContainer]
  refine ⟨_, by rw [Splitter.jsonSplit, isNext]; rfl, ?_⟩
  have conserved : next.leaves = leavesIn [] fields := isExtended.leaves
  rw [leaves, ← conserved]
  dsimp only
  split
  case isTrue isNil => simp [Chunks.leaves, Chunks.all, leavesIn, isNil]
  case isFalse => rfl

/-- An array in an object, with nothing fitting. -/
theorem splitJson_conserves_nested : ∃ chunks,
    (⟨fun _ => "", 0, 0⟩ : Splitter).splitJson
      (.object [("a", .array [.null, .object []]), ("b", .bool true)]) true = some chunks ∧
    chunks.flatMap (leavesIn []) = [(["a", "0"], .null), (["b"], .bool true)] :=
  splitJson_conserves _ (by simp [Distinct, DistinctFields, DistinctItems])
    (listToDict.eq_1 _)

end RagFlow.Chunking.JsonSplitter
