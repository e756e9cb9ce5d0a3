import Mathlib
import RagFlow.Editor.AddNode
import RagFlow.Lib.FirstGap

/-!
# Names of new nodes

A new node gets the name of its kind with the number behind the first gap in the numbers that such
names already have.  A copy of an Iteration has its children named one by one against the nodes
before the copy.
-/

namespace RagFlow.Editor

open RagFlow.Lib

/-- The numbers of JavaScript other than NaN: `Number(text)`, `+ 1` and what a template writes for a
number. -/
structure JsNumber where
  Value : Type
  order : LinearOrder Value
  number : String → Option Value
  addOne : Value → Value
  text : Value → String
  zero : Value
  number_text : ∀ value, number (text value) = some value
  le_addOne : ∀ value, value ≤ addOne value
  no_underscore : ∀ value, '_' ∉ (text value).toList

attribute [instance] JsNumber.order

section Names

variable (js : JsNumber)

def splitName (name : String) : String × String :=
  (String.ofList (name.toList.takeWhile fun char => char ≠ '_'),
    String.ofList (name.toList.reverse.takeWhile fun char => char ≠ '_').reverse)

def templateIndex (name temporaryName : String) : Option js.Value :=
  if temporaryName.toList.count '_' = 1 ∧ (splitName temporaryName).1 = name then
    js.number (splitName temporaryName).2
  else none

def templateIndices (name : String) (nodes : List Node) : List js.Value :=
  nodes.filterMap fun node => templateIndex js name node.name

def withIndex (name : String) (index : js.Value) : String := name ++ "_" ++ js.text index

def generateNodeNamesWithIncreasingIndex (name : String) (nodes : List Node) : String :=
  let templateNameList := (templateIndices js name nodes).insertionSort (· ≤ ·)
  withIndex js name ((FirstGap.firstGap js.addOne templateNameList).getD js.zero)

/-- The names that `duplicateNode` gives to the copy of a node and to the copies of its children. -/
def duplicateNames (state : RFState) (name : String) (node : Node) (index : Nat) : String :=
  match index with
  | 0 => generateNodeNamesWithIncreasingIndex js name state.nodes
  | index + 1 =>
    match (state.nodes.filter fun child => child.parentId = some node.id)[index]? with
    | none => ""
    | some child => generateNodeNamesWithIncreasingIndex js child.name state.nodes

def nodeNames (nodes : List Node) : List String := nodes.map Node.name

/-- A new name is taken.  The numbers of a name with an underscore are never found; those of another
name run from the least one to a number that is not alone before its successor, and there is a node
with the successor. -/
def Blocked (name : String) (nodes : List Node) : Prop :=
  if '_' ∈ name.toList then withIndex js name js.zero ∈ nodeNames nodes
  else
    ∃ last, FirstGap.Runs js.addOne (templateIndices js name nodes) last ∧
      (js.addOne last = last ∨ 1 < (templateIndices js name nodes).countP fun index =>
        last ≤ index ∧ index < js.addOne last) ∧
      withIndex js name (js.addOne last) ∈ nodeNames nodes

def KeepsNamesDistinct (state : RFState) (id name : String) (node : Node) (word : Nat → String) :
    Prop :=
  (nodeNames (duplicateNode state id word (duplicateNames js state name node)).nodes).Nodup

/-- The names of the copy and of the children are free, and no child has the name of its kind. -/
structure NamesFree (state : RFState) (name : String) (node : Node) : Prop where
  own : ¬ Blocked js name state.nodes
  children : node.label = .iteration → ∀ child ∈ state.nodes, child.parentId = some node.id →
    child.name ≠ name ∧ ¬ Blocked js child.name state.nodes

end Names

variable {js : JsNumber} {name : String} {nodes : List Node}

theorem toList_withIndex (name : String) (index : js.Value) :
    (withIndex js name index).toList = name.toList ++ '_' :: (js.text index).toList := by
  rw [withIndex, String.toList_append, String.toList_append, List.append_assoc]
  rfl

theorem takeWhile_ne {before after : List Char} (noUnderscore : '_' ∉ before) :
    (before ++ '_' :: after).takeWhile (fun char => char ≠ '_') = before := by
  rw [List.takeWhile_append_of_pos, List.takeWhile_cons_of_neg (by simp), List.append_nil]
  intro char member
  simpa using fun same : char = '_' => noUnderscore (same ▸ member)

theorem templateIndex_withIndex (noUnderscore : '_' ∉ name.toList) (index : js.Value) :
    templateIndex js name (withIndex js name index) = some index := by
  have once : (withIndex js name index).toList.count '_' = 1 := by
    rw [toList_withIndex, List.count_append, List.count_cons_self,
      List.count_eq_zero.mpr noUnderscore, List.count_eq_zero.mpr (js.no_underscore index)]
  have inText : '_' ∉ (js.text index).toList.reverse := by
    simpa using js.no_underscore index
  have reversed : (withIndex js name index).toList.reverse =
      (js.text index).toList.reverse ++ '_' :: name.toList.reverse := by
    simp [toList_withIndex]
  have split : splitName (withIndex js name index) = (name, js.text index) := by
    rw [splitName, reversed, toList_withIndex, takeWhile_ne noUnderscore, takeWhile_ne inText,
      List.reverse_reverse, String.ofList_toList, String.ofList_toList]
  rw [templateIndex, split, if_pos ⟨once, rfl⟩, js.number_text]

theorem templateIndex_of_underscore (underscore : '_' ∈ name.toList) (temporaryName : String) :
    templateIndex js name temporaryName = none := by
  rw [templateIndex, if_neg]
  rintro ⟨-, rfl⟩
  rw [splitName, String.toList_ofList] at underscore
  have other := List.all_eq_true.mp List.all_takeWhile '_' underscore
  simp at other

theorem mem_templateIndices (noUnderscore : '_' ∉ name.toList) {index : js.Value}
    (taken : withIndex js name index ∈ nodeNames nodes) :
    index ∈ templateIndices js name nodes := by
  obtain ⟨node, member, same⟩ := List.mem_map.mp taken
  exact List.mem_filterMap.mpr ⟨node, member, by rw [same, templateIndex_withIndex noUnderscore]⟩

theorem withIndex_inj {other : String} {index otherIndex : js.Value}
    (same : withIndex js name index = withIndex js other otherIndex) : name = other := by
  have sameChars := congrArg (List.reverse ∘ String.toList) same
  simp only [Function.comp_apply, toList_withIndex, List.reverse_append, List.reverse_cons,
    List.append_assoc, List.singleton_append] at sameChars
  have cut := congrArg (List.dropWhile fun char => char ≠ '_') sameChars
  have dropped : ∀ (index : js.Value) (chars : List Char),
      ((js.text index).toList.reverse ++ '_' :: chars).dropWhile (fun char => char ≠ '_') =
        '_' :: chars := by
    intro index chars
    rw [List.dropWhile_append_of_pos, List.dropWhile_cons_of_neg (by simp)]
    intro char member
    simpa using fun same : char = '_' =>
      js.no_underscore index (same ▸ List.mem_reverse.mp member)
  rw [dropped, dropped, List.cons.injEq] at cut
  exact String.toList_inj.mp (List.reverse_injective cut.2)

theorem mem_generated_iff :
    generateNodeNamesWithIncreasingIndex js name nodes ∈ nodeNames nodes ↔
      Blocked js name nodes := by
  have perm := List.perm_insertionSort (· ≤ ·) (templateIndices js name nodes)
  unfold generateNodeNamesWithIncreasingIndex Blocked
  by_cases underscore : '_' ∈ name.toList
  · have none_found : templateIndices js name nodes = [] := by
      apply List.filterMap_eq_nil_iff.mpr
      intro node _
      exact templateIndex_of_underscore underscore node.name
    simp [underscore, none_found, FirstGap.firstGap]
  rw [if_neg underscore]
  by_cases empty : templateIndices js name nodes = []
  · refine iff_of_false (fun taken => ?_) ?_
    · exact List.ne_nil_of_mem (mem_templateIndices underscore taken) empty
    · rintro ⟨last, runs, -⟩
      exact List.ne_nil_of_mem runs.mem empty
  · have nonempty : (templateIndices js name nodes).insertionSort (· ≤ ·) ≠ [] :=
      fun isEmpty => empty (List.nil_perm.mp (isEmpty ▸ perm))
    obtain ⟨last, endsSorted, found⟩ := FirstGap.firstGap_eq js.le_addOne
      (List.pairwise_insertionSort (· ≤ ·) _) nonempty
    have ends := endsSorted.of_perm perm
    simp only [found, Option.getD_some]
    constructor
    · intro taken
      refine ⟨last, ends.runs, ?_, taken⟩
      by_contra alone
      exact ends.stops ((FirstGap.continues_iff js.le_addOne ends.runs.mem
        (mem_templateIndices underscore taken)).mpr alone)
    · rintro ⟨other, runs, crowded, taken⟩
      have endsOther : FirstGap.EndsRun js.addOne (templateIndices js name nodes) other :=
        ⟨runs, fun continues => (FirstGap.continues_iff js.le_addOne runs.mem
          (mem_templateIndices underscore taken)).mp continues crowded⟩
      rwa [ends.unique endsOther]

theorem generated_inj {first second : String}
    (same : generateNodeNamesWithIncreasingIndex js first nodes =
      generateNodeNamesWithIncreasingIndex js second nodes) : first = second :=
  withIndex_inj same

section Copies

variable {state : RFState} {node : Node} {word : Nat → String}

def childrenOf (state : RFState) (node : Node) : List Node :=
  state.nodes.filter fun child => child.parentId = some node.id

theorem mem_childrenOf {child : Node} :
    child ∈ childrenOf state node ↔ child ∈ state.nodes ∧ child.parentId = some node.id := by
  simp [childrenOf]

theorem nodeNames_duplicateNode {id : String} (found : getNode state.nodes id = some node) :
    nodeNames (duplicateNode state id word (duplicateNames js state name node)).nodes =
      nodeNames state.nodes ++ generateNodeNamesWithIncreasingIndex js name state.nodes ::
        if node.label = .iteration then
          (childrenOf state node).map fun child =>
            generateNodeNamesWithIncreasingIndex js child.name state.nodes
        else [] := by
  unfold duplicateNode
  simp only [found]
  by_cases isIteration : node.label = .iteration
  · have named : ((childrenOf state node).mapIdx fun index child =>
        { child with
          id := nodeId child.label (word (index + 1))
          name := duplicateNames js state name node (index + 1)
          parentId := some (nodeId node.label (word 0)) }).map Node.name =
        (childrenOf state node).map fun child =>
          generateNodeNamesWithIncreasingIndex js child.name state.nodes := by
      apply List.ext_getElem?
      intro index
      simp only [List.getElem?_map, List.getElem?_mapIdx, Option.map_map]
      cases isChild : (childrenOf state node)[index]? with
      | none => rfl
      | some child =>
        simp only [childrenOf] at isChild
        simp [duplicateNames, isChild]
    rw [if_pos isIteration, if_pos isIteration, ← named]
    simp [duplicateIterationNode, nodeNames, childrenOf, duplicateNames]
  · rw [if_neg isIteration, if_neg isIteration]
    simp [addNode, nodeNames, duplicateNames]

theorem keepsNamesDistinct_iff {id : String} (found : getNode state.nodes id = some node)
    (distinct : (nodeNames state.nodes).Nodup) :
    KeepsNamesDistinct js state id name node word ↔ NamesFree js state name node := by
  rw [KeepsNamesDistinct, nodeNames_duplicateNode found]
  by_cases isIteration : node.label = .iteration
  · rw [if_pos isIteration, List.nodup_append, List.nodup_cons]
    have distinctChildren : ((childrenOf state node).map fun child =>
        generateNodeNamesWithIncreasingIndex js child.name state.nodes).Nodup := by
      have distinctNames : ((childrenOf state node).map Node.name).Nodup :=
        (List.filter_sublist.map Node.name).nodup distinct
      rw [← Function.comp_def
        (fun other => generateNodeNamesWithIncreasingIndex js other state.nodes) Node.name,
        ← List.map_map]
      exact distinctNames.map fun _ _ same => generated_inj same
    constructor
    · rintro ⟨-, ⟨notChild, -⟩, disjoint⟩
      refine ⟨fun blocked => ?_, fun _ child isNode isChild => ⟨fun sameName => ?_, ?_⟩⟩
      · exact disjoint _ (mem_generated_iff.mpr blocked) _ List.mem_cons_self rfl
      · exact notChild (List.mem_map.mpr
          ⟨child, mem_childrenOf.mpr ⟨isNode, isChild⟩, by rw [sameName]⟩)
      · intro blocked
        refine disjoint _ (mem_generated_iff.mpr blocked) _ (List.mem_cons_of_mem _ ?_) rfl
        exact List.mem_map.mpr ⟨child, mem_childrenOf.mpr ⟨isNode, isChild⟩, rfl⟩
    · intro free
      refine ⟨distinct, ⟨fun isChild => ?_, distinctChildren⟩, ?_⟩
      · obtain ⟨child, member, same⟩ := List.mem_map.mp isChild
        obtain ⟨isNode, isChild⟩ := mem_childrenOf.mp member
        exact (free.children isIteration child isNode isChild).1 (generated_inj same)
      · rintro taken isTaken _ isNew rfl
        rcases List.mem_cons.mp isNew with rfl | isChild
        · exact free.own (mem_generated_iff.mp isTaken)
        · obtain ⟨child, member, rfl⟩ := List.mem_map.mp isChild
          obtain ⟨isNode, isChild⟩ := mem_childrenOf.mp member
          exact (free.children isIteration child isNode isChild).2 (mem_generated_iff.mp isTaken)
  · rw [if_neg isIteration, List.nodup_append]
    constructor
    · rintro ⟨-, -, disjoint⟩
      refine ⟨fun blocked => ?_, fun iteration => absurd iteration isIteration⟩
      exact disjoint _ (mem_generated_iff.mpr blocked) _ List.mem_cons_self rfl
    · intro free
      refine ⟨distinct, List.nodup_singleton _, ?_⟩
      rintro taken isTaken _ isNew rfl
      rw [List.mem_singleton] at isNew
      exact free.own (mem_generated_iff.mp (isNew ▸ isTaken))

end Copies

/-- A generated name is free, and a copy keeps the names distinct, exactly where no name is
blocked. -/
theorem generatedNames_iff (js : JsNumber) :
    (∀ (nodes : List Node) (name : String),
      generateNodeNamesWithIncreasingIndex js name nodes ∉ nodeNames nodes ↔
        ¬ Blocked js name nodes) ∧
    ∀ (state : RFState) (id name : String) (node : Node) (word : Nat → String),
      getNode state.nodes id = some node → (nodeNames state.nodes).Nodup →
      (KeepsNamesDistinct js state id name node word ↔ NamesFree js state name node) :=
  ⟨fun _ _ => not_congr mem_generated_iff,
    fun _ _ _ _ _ found distinct => keepsNamesDistinct_iff found distinct⟩

def readNat (text : String) : Option Nat :=
  if text.toList.all Char.isDigit then some (Nat.ofDigitChars 10 text.toList 0) else none

theorem isDigit_of_mem_repr {value : Nat} {char : Char} (member : char ∈ (Nat.repr value).toList) :
    char.isDigit = true := by
  rw [Nat.toList_repr] at member
  exact Nat.isDigit_of_mem_toDigits (by decide) (by decide) member

theorem readNat_repr (value : Nat) : readNat (Nat.repr value) = some value := by
  rw [readNat, if_pos (List.all_eq_true.mpr fun _ member => isDigit_of_mem_repr member),
    Nat.toList_repr, Nat.ofDigitChars_ten_toDigits]

def naturals : JsNumber where
  Value := Nat
  order := inferInstance
  number := readNat
  addOne := Nat.succ
  text := Nat.repr
  zero := 0
  number_text := readNat_repr
  le_addOne := Nat.le_succ
  no_underscore _ member := absurd (isDigit_of_mem_repr member) (by decide)

def namedNode (id : String) (label : Operator) (parentId : Option String) (name : String) :
    Node where
  id := id
  label := label
  parentId := parentId
  name := name
  form := initialForm label

def group : RFState where
  nodes :=
    [namedNode "Iteration:A" .iteration none "Iteration_0",
      namedNode "Agent:B" .agent (some "Iteration:A") "Agent_0"]
  edges := []

def copiedGroup : RFState :=
  duplicateNode group "Iteration:A" (fun index => if index = 0 then "C" else "D")
    (duplicateNames naturals group "Iteration"
      (namedNode "Iteration:A" .iteration none "Iteration_0"))

theorem generatedNames_group :
    NamesFree naturals group "Iteration"
      (namedNode "Iteration:A" .iteration none "Iteration_0") := by
  have copied : nodeNames copiedGroup.nodes =
      ["Iteration_0", "Agent_0", "Iteration_1", "Agent_0_0"] := by decide +kernel
  have kept : KeepsNamesDistinct naturals group "Iteration:A" "Iteration"
      (namedNode "Iteration:A" .iteration none "Iteration_0")
      (fun index => if index = 0 then "C" else "D") := by
    rw [KeepsNamesDistinct, ← copiedGroup, copied]
    decide
  exact ((generatedNames_iff naturals).2 group "Iteration:A" "Iteration" _ _ rfl (by decide)).mp kept

/-- The second copy gives the Agent the name that it has in the first one. -/
theorem not_keepsNamesDistinct_copiedGroup :
    (nodeNames copiedGroup.nodes).Nodup ∧
      generateNodeNamesWithIncreasingIndex naturals "Agent_0" copiedGroup.nodes ∈
        nodeNames copiedGroup.nodes ∧
      ¬ KeepsNamesDistinct naturals copiedGroup "Iteration:A" "Iteration"
        (namedNode "Iteration:A" .iteration none "Iteration_0")
        (fun index => if index = 0 then "E" else "F") := by
  have names : nodeNames copiedGroup.nodes =
      ["Iteration_0", "Agent_0", "Iteration_1", "Agent_0_0"] := by decide +kernel
  have generated : generateNodeNamesWithIncreasingIndex naturals "Agent_0" copiedGroup.nodes =
      "Agent_0_0" := by decide +kernel
  have copied : nodeNames (duplicateNode copiedGroup "Iteration:A"
        (fun index => if index = 0 then "E" else "F")
        (duplicateNames naturals copiedGroup "Iteration"
          (namedNode "Iteration:A" .iteration none "Iteration_0"))).nodes =
      ["Iteration_0", "Agent_0", "Iteration_1", "Agent_0_0", "Iteration_2", "Agent_0_0"] := by
    decide +kernel
  rw [KeepsNamesDistinct, generated, names, copied]
  decide

end RagFlow.Editor
