import Mathlib.Data.List.Dedup
import RagFlow.Lib.Dict

/-!
# The in-memory metadata filter

`meta_filter` looks each condition up in the flattened metadata and joins the documents it finds
by the logic of the request.  How one condition is compared with the values of a key
(`filter_out`) is a parameter here.
-/

namespace RagFlow.Metadata

open RagFlow.Lib

abbrev DocId := String

abbrev V2Docs := List (String × List DocId)

abbrev Metas := Dict String V2Docs

structure Condition (Value : Type) where
  key : String
  op : String
  value : Value
  deriving DecidableEq

section MetaFilter

variable {Value : Type} (filterOut : V2Docs → String → Value → List DocId) (metas : Metas)

def conditionIds (condition : Condition Value) : List DocId :=
  match metas.get? condition.key with
  | none => []
  | some v2docs => filterOut v2docs condition.op condition.value

/-- The loop of `meta_filter` over `doc_ids`, a set that starts as `None`. -/
def metaFilterLoop (logic : String) : Option (List DocId) → List (Condition Value) → List DocId
  | docIds, [] => docIds.getD []
  | none, condition :: rest =>
    metaFilterLoop logic (some (conditionIds filterOut metas condition).dedup) rest
  | some docIds, condition :: rest =>
    if logic = "and" then
      let both := docIds ∩ conditionIds filterOut metas condition
      if both = [] then [] else metaFilterLoop logic (some both) rest
    else metaFilterLoop logic (some (docIds ∪ conditionIds filterOut metas condition)) rest

def metaFilter (filters : List (Condition Value)) (logic : String) : List DocId :=
  metaFilterLoop filterOut metas logic none filters

variable {filterOut metas}

@[simp] theorem metaFilter_nil (logic : String) : metaFilter filterOut metas [] logic = [] := rfl

theorem mem_metaFilterLoop_and {docIds : List DocId} {filters : List (Condition Value)}
    {doc : DocId} :
    doc ∈ metaFilterLoop filterOut metas "and" (some docIds) filters ↔
      doc ∈ docIds ∧ ∀ condition ∈ filters, doc ∈ conditionIds filterOut metas condition := by
  induction filters generalizing docIds with
  | nil => simp [metaFilterLoop]
  | cons condition rest ih =>
    simp only [metaFilterLoop, if_true]
    by_cases none_left : docIds ∩ conditionIds filterOut metas condition = []
    · have disjoint : ¬ (doc ∈ docIds ∧ doc ∈ conditionIds filterOut metas condition) := by
        rw [← List.mem_inter_iff, none_left]
        exact List.not_mem_nil
      simp only [none_left, if_true, List.not_mem_nil, List.forall_mem_cons, false_iff]
      exact fun selected => disjoint ⟨selected.1, selected.2.1⟩
    · simp [none_left, ih, and_assoc]

theorem mem_metaFilterLoop_or {logic : String} (other : logic ≠ "and") {docIds : List DocId}
    {filters : List (Condition Value)} {doc : DocId} :
    doc ∈ metaFilterLoop filterOut metas logic (some docIds) filters ↔
      doc ∈ docIds ∨ ∃ condition ∈ filters, doc ∈ conditionIds filterOut metas condition := by
  induction filters generalizing docIds with
  | nil => simp [metaFilterLoop]
  | cons condition rest ih =>
    simp [metaFilterLoop, other, ih, or_assoc]

theorem mem_metaFilter_and {filters : List (Condition Value)} (nonempty : filters ≠ [])
    {doc : DocId} :
    doc ∈ metaFilter filterOut metas filters "and" ↔
      ∀ condition ∈ filters, doc ∈ conditionIds filterOut metas condition := by
  cases filters with
  | nil => contradiction
  | cons condition rest => simp [metaFilter, metaFilterLoop, mem_metaFilterLoop_and]

theorem mem_metaFilter_or {logic : String} (other : logic ≠ "and")
    {filters : List (Condition Value)} {doc : DocId} :
    doc ∈ metaFilter filterOut metas filters logic ↔
      ∃ condition ∈ filters, doc ∈ conditionIds filterOut metas condition := by
  cases filters with
  | nil => simp
  | cons condition rest => simp [metaFilter, metaFilterLoop, mem_metaFilterLoop_or other]

end MetaFilter

end RagFlow.Metadata
