import RagFlow.Metadata.FilterOut

/-!
# The metadata filter of the Go server

The Go server reads the conditions of a request with `ParseAndConvert` and evaluates them with
`MetaFilter`, on the same flattened metadata as the Python `convert_conditions` and `meta_filter`.
-/

namespace RagFlow.Metadata

open RagFlow.Lib

/-- A `float64`, as comparisons see it. -/
inductive GoFloat where
  | finite (value : ℚ)
  | infinite (negative : Bool)
  | nan
  deriving DecidableEq

namespace GoFloat

def eq : GoFloat → GoFloat → Bool
  | finite left, finite right => left = right
  | infinite left, infinite right => left = right
  | _, _ => false

def lt : GoFloat → GoFloat → Bool
  | finite left, finite right => left < right
  | infinite negative, finite _ => negative
  | finite _, infinite negative => !negative
  | infinite left, infinite right => left && !right
  | _, _ => false

/-- The comparisons of `compareFloat`; with `nan` only `≠` holds. -/
def holds (left right : GoFloat) : Comparison → Bool
  | .equal => left.eq right
  | .notEqual => !left.eq right
  | .order .gt => right.lt left
  | .order .lt => left.lt right
  | .order .ge => right.lt left || left.eq right
  | .order .le => left.lt right || left.eq right

theorem holds_finite (left right : ℚ) (comparison : Comparison) :
    (finite left).holds (finite right) comparison = comparison.holds left right := by
  rcases comparison with _ | _ | order
  · simp [holds, eq, Comparison.holds]
  · simp [holds, eq, Comparison.holds]
  · cases order <;>
      simp [holds, eq, lt, Comparison.holds, OrderOp.holds, le_iff_lt_or_eq, eq_comm]

end GoFloat

/-- The parts of the Go library that are parameters: the results hold for all of them. -/
structure GoLibrary where
  lower : String → String
  /-- `strconv.ParseFloat`; `none` when it returns an error -/
  parseFloat : String → Option GoFloat
  /-- `strconv.FormatFloat` of the `float64` that a number of a request is decoded to -/
  formatFloat : Number → String

/-- A condition of a request; a field may be missing. -/
structure RawCondition (Value : Type) where
  name : Option String
  comparisonOperator : Option String
  value : Option Value

structure MetadataCondition (Value : Type) where
  logic : Option String
  conditions : List (RawCondition Value)

def opMapping (op : String) : String :=
  if op = "is" then "="
  else if op = "not is" then "≠"
  else if op = ">=" then "≥"
  else if op = "<=" then "≤"
  else if op = "!=" then "≠"
  else op

section Python

variable {Value : Type}

/-- One turn of `convert_conditions`; `none` when a field is missing, which raises. -/
def convertCondition (raw : RawCondition Value) : Option (Condition Value) := do
  let op ← raw.comparisonOperator
  let key ← raw.name
  let value ← raw.value
  some { key := key, op := opMapping op, value := value }

def convertConditions (metadataCondition : MetadataCondition Value) :
    Option (List (Condition Value)) :=
  metadataCondition.conditions.mapM convertCondition

/-- `meta_filter` of the converted conditions, as the endpoints call it. -/
def pythonFilter (filterOut : V2Docs → String → Value → List DocId) (metas : Metas)
    (metadataCondition : MetadataCondition Value) : Option (List DocId) :=
  (convertConditions metadataCondition).map fun filters =>
    metaFilter filterOut metas filters (metadataCondition.logic.getD "and")

end Python

namespace GoLibrary

def convertOperator (op : String) : String :=
  if op = "==" then "=" else opMapping op

/-- An empty or missing logic is `and`. -/
def logicOf (logic : Option String) : String :=
  if logic.getD "" = "" then "and" else logic.getD ""

variable {Object : Type}

structure MetaFilterInput (Object : Type) where
  conditions : List (Condition (PyValue Object))
  logic : String

/-- One turn of the loop of `ParseAndConvert`, which passes over conditions without a name. -/
def parseCondition (raw : RawCondition (PyValue Object)) : Option (Condition (PyValue Object)) :=
  if raw.name.getD "" = "" then none
  else some
    { key := raw.name.getD ""
      op := convertOperator (raw.comparisonOperator.getD "")
      value := raw.value.getD .none }

def parseAndConvert (metadataCondition : MetadataCondition (PyValue Object)) :
    Option (MetaFilterInput Object) :=
  let conditions := metadataCondition.conditions.filterMap parseCondition
  if conditions = [] then none
  else some { conditions := conditions, logic := logicOf metadataCondition.logic }

variable (go : GoLibrary)

def toString : PyValue Object → String
  | .scalar (.str text) => text
  | .scalar (.num number) => go.formatFloat number
  | .scalar (.bool truth) => if truth then "true" else "false"
  | _ => ""

/-- `compareFloat` and `compareString` know no other operators. -/
def compareFloat (left right : GoFloat) (operator : String) : Bool :=
  match comparisonOf operator with
  | some comparison => left.holds right comparison
  | none => false

def compareString (left right : String) (operator : String) : Bool :=
  match comparisonOf operator with
  | some comparison => comparison.holds left right
  | none => false

def compareValues (input value operator : String) : Bool :=
  if isDate Char.isDigit value then
    if isDate Char.isDigit input then compareString input value operator
    else operator = "≠"
  else
    match go.parseFloat input, go.parseFloat value with
    | some left, some right => compareFloat left right operator
    | _, _ => compareString (go.lower input) (go.lower value) operator

def matchValue (input operator : String) (value : PyValue Object) : Bool :=
  let text := go.toString value
  if operator = "empty" then input = ""
  else if operator = "not empty" then input ≠ ""
  else if operator = "contains" then (go.lower text).toList <:+: (go.lower input).toList
  else if operator = "not contains" then ¬ (go.lower text).toList <:+: (go.lower input).toList
  else if operator = "start with" then (go.lower text).toList <+: (go.lower input).toList
  else if operator = "end with" then (go.lower text).toList <:+ (go.lower input).toList
  else go.compareValues input text operator

/-- Whether `filterSet` keeps an input; nothing is kept when the value is no list. -/
def inSet (input operator : String) : PyValue Object → Bool
  | .list items =>
    if operator = "not in" then
      !items.any fun item => go.lower (go.toString item) = go.lower input
    else items.any fun item => go.toString item = input
  | _ => false

def filterSet (v2docs : V2Docs) (operator : String) (value : PyValue Object) : List DocId :=
  v2docs.flatMap fun bucket => if go.inSet bucket.1 operator value then bucket.2 else []

def filterOut (v2docs : V2Docs) (operator : String) (value : PyValue Object) : List DocId :=
  if operator = "in" ∨ operator = "not in" then go.filterSet v2docs operator value
  else v2docs.flatMap fun bucket => if go.matchValue bucket.1 operator value then bucket.2 else []

/-- The loop of `MetaFilter` over `docIDs`, which starts as `nil`. -/
def metaFilterLoop (metas : Metas) (logic : String) :
    Option (List DocId) → List (Condition (PyValue Object)) → List DocId
  | docIds, [] => docIds.getD []
  | docIds, condition :: rest =>
    match metas.get? condition.key with
    | none => if logic = "and" then [] else metaFilterLoop metas logic docIds rest
    | some v2docs =>
      let matched := go.filterOut v2docs condition.op condition.value
      match docIds with
      | none => metaFilterLoop metas logic (some matched.dedup) rest
      | some docIds =>
        if logic = "and" then
          let both := docIds ∩ matched
          if both = [] then [] else metaFilterLoop metas logic (some both) rest
        else metaFilterLoop metas logic (some (docIds ∪ matched)) rest

def metaFilter (metas : Metas) : Option (MetaFilterInput Object) → List DocId
  | none => []
  | some input => go.metaFilterLoop metas (logicOf (some input.logic)) none input.conditions

def filter (metas : Metas) (metadataCondition : MetadataCondition (PyValue Object)) : List DocId :=
  go.metaFilter metas (parseAndConvert metadataCondition)

variable {go} {metas : Metas}

theorem mem_metaFilterLoop_and {filters : List (Condition (PyValue Object))}
    {docIds : List DocId} {doc : DocId} :
    doc ∈ go.metaFilterLoop metas "and" (some docIds) filters ↔
      doc ∈ docIds ∧ ∀ condition ∈ filters, doc ∈ conditionIds go.filterOut metas condition := by
  induction filters generalizing docIds with
  | nil => simp [metaFilterLoop]
  | cons condition rest ih =>
    rw [List.forall_mem_cons]
    cases found : metas.get? condition.key with
    | none => simp [metaFilterLoop, conditionIds, found]
    | some v2docs =>
      have ids : conditionIds go.filterOut metas condition =
          go.filterOut v2docs condition.op condition.value := by
        simp [conditionIds, found]
      rw [ids]
      simp only [metaFilterLoop, found, if_true]
      by_cases none_left : docIds ∩ go.filterOut v2docs condition.op condition.value = []
      · have disjoint : ¬ (doc ∈ docIds ∧
            doc ∈ go.filterOut v2docs condition.op condition.value) := by
          rw [← List.mem_inter_iff, none_left]
          exact List.not_mem_nil
        simp only [none_left, if_true, List.not_mem_nil, false_iff]
        exact fun selected => disjoint ⟨selected.1, selected.2.1⟩
      · simp [none_left, ih, and_assoc]

theorem mem_metaFilterLoop_or {logic : String} (other : logic ≠ "and")
    {filters : List (Condition (PyValue Object))} {docIds : Option (List DocId)} {doc : DocId} :
    doc ∈ go.metaFilterLoop metas logic docIds filters ↔
      doc ∈ docIds.getD [] ∨
        ∃ condition ∈ filters, doc ∈ conditionIds go.filterOut metas condition := by
  induction filters generalizing docIds with
  | nil => simp [metaFilterLoop]
  | cons condition rest ih =>
    rw [List.exists_mem_cons_iff]
    cases found : metas.get? condition.key with
    | none => simp [metaFilterLoop, conditionIds, found, other, ih]
    | some v2docs =>
      cases docIds with
      | none => simp [metaFilterLoop, conditionIds, found, ih]
      | some docIds =>
        simp [metaFilterLoop, conditionIds, found, other, ih, or_assoc]

theorem mem_metaFilterLoop_none_and {filters : List (Condition (PyValue Object))}
    (nonempty : filters ≠ []) {doc : DocId} :
    doc ∈ go.metaFilterLoop metas "and" none filters ↔
      ∀ condition ∈ filters, doc ∈ conditionIds go.filterOut metas condition := by
  cases filters with
  | nil => contradiction
  | cons condition rest =>
    rw [List.forall_mem_cons]
    cases found : metas.get? condition.key with
    | none => simp [metaFilterLoop, conditionIds, found]
    | some v2docs =>
      simp [metaFilterLoop, conditionIds, found, mem_metaFilterLoop_and]

theorem mem_metaFilterLoop_iff {select : V2Docs → String → PyValue Object → List DocId}
    {logic : String} {filters : List (Condition (PyValue Object))} {doc : DocId}
    (same : ∀ condition ∈ filters,
      (doc ∈ conditionIds go.filterOut metas condition ↔
        doc ∈ conditionIds select metas condition)) :
    doc ∈ go.metaFilterLoop metas logic none filters ↔
      doc ∈ RagFlow.Metadata.metaFilter select metas filters logic := by
  by_cases isAnd : logic = "and"
  · subst isAnd
    by_cases empty : filters = []
    · subst empty
      simp [metaFilterLoop]
    · rw [mem_metaFilterLoop_none_and empty, mem_metaFilter_and empty]
      exact forall₂_congr same
  · rw [mem_metaFilterLoop_or isAnd, mem_metaFilter_or isAnd]
    simp only [Option.getD_none, List.not_mem_nil, false_or]
    constructor
    · rintro ⟨condition, member, selected⟩
      exact ⟨condition, member, (same condition member).mp selected⟩
    · rintro ⟨condition, member, selected⟩
      exact ⟨condition, member, (same condition member).mpr selected⟩

end GoLibrary

end RagFlow.Metadata
