import RagFlow.Lib.BoolQuery
import RagFlow.Lib.Wildcard
import RagFlow.Metadata.FilterOut

/-!
# Metadata filters as Elasticsearch queries

The translator of `metadata_es_filter` and the clauses it writes.  A field path is kept as its
parts.  The index holds a stored string twice: analysed, under the key itself, and as it is, in the
`.keyword` sub-field; other values are only found under the key.
-/

namespace RagFlow.Metadata

open RagFlow.Lib

inductive Field where
  | kbId
  | parent (key : String)
  | keyword (key : String)
  deriving DecidableEq

inductive Clause (Object : Type) where
  | fieldExists (field : Field)
  | term (field : Field) (value : PyValue Object) (caseInsensitive : Bool)
  | terms (field : Field) (values : List (PyValue Object))
  | range (field : Field) (op : OrderOp) (bound : PyValue Object)
  | startsWith (field : Field) (value : String) (caseInsensitive : Bool)
  | wildcard (field : Field) (pattern : List Char) (caseInsensitive : Bool)

abbrev Query (Object : Type) := BoolQuery (Clause Object)

inductive Term where
  | text (text : String)
  | num (value : ℚ)
  | bool (truth : Bool)
  deriving DecidableEq

structure Elasticsearch where
  /-- The terms an analysed text is indexed under. -/
  analyze : String → List String
  /-- A number of a query, as it is compared with the terms of a text. -/
  numberText : Number → String

def foldCase (caseInsensitive : Bool) (char : Char) : Char :=
  if caseInsensitive then char.toLower else char

def folded (caseInsensitive : Bool) (text : String) : List Char :=
  text.toList.map (foldCase caseInsensitive)

@[simp] theorem folded_false (text : String) : folded false text = text.toList := by
  have identity : foldCase false = id := rfl
  simp [folded, identity]

def Scalar.isStr : Scalar → Bool
  | .str _ => true
  | _ => false

def PyValue.isScalar {Object : Type} : PyValue Object → Bool
  | .scalar _ => true
  | _ => false

def PyValue.isStr {Object : Type} : PyValue Object → Bool
  | .scalar value => value.isStr
  | _ => false

def Document.stored (document : Document) : Field → List Scalar
  | .kbId => [.str document.kbId]
  | .parent key => document.values key
  | .keyword key => (document.values key).filter Scalar.isStr

namespace Elasticsearch

variable {Object : Type} (es : Elasticsearch)

def boolText (truth : Bool) : String := if truth then "true" else "false"

def analysedTerms : Scalar → List Term
  | .str text => (es.analyze text).map .text
  | .num number => [.num number.value]
  | .bool truth => [.bool truth]

/-- The terms of a stored value in the `.keyword` sub-field, which only strings have. -/
def keywordTerms : Scalar → List Term
  | .str text => [.text text]
  | _ => []

def termsOf (document : Document) : Field → List Term
  | .kbId => [.text document.kbId]
  | .parent key => (document.values key).flatMap es.analysedTerms
  | .keyword key => (document.values key).flatMap keywordTerms

def termMatches (caseInsensitive : Bool) : PyValue Object → Term → Bool
  | .scalar (.str text), .text term => folded caseInsensitive text = folded caseInsensitive term
  | .scalar (.num number), .num value => number.value = value
  | .scalar (.num number), .text term => es.numberText number = term
  | .scalar (.bool truth), .bool value => truth = value
  | .scalar (.bool truth), .text term => boolText truth = term
  | _, _ => false

def rangeMatches (op : OrderOp) : PyValue Object → Term → Bool
  | .scalar (.str text), .text term => op.holds term text
  | .scalar (.num number), .num value => op.holds value number.value
  | .scalar (.num number), .text term => op.holds term (es.numberText number)
  | .scalar (.bool truth), .bool value => op.holds value truth
  | .scalar (.bool truth), .text term => op.holds term (boolText truth)
  | _, _ => false

def textTerm (matched : String → Bool) : Term → Bool
  | .text term => matched term
  | _ => false

def holds (document : Document) : Clause Object → Bool
  | .fieldExists field => !(document.stored field).isEmpty
  | .term field value caseInsensitive =>
    (es.termsOf document field).any (es.termMatches caseInsensitive value)
  | .terms field values =>
    (es.termsOf document field).any fun term =>
      values.any fun value => es.termMatches false value term
  | .range field op bound => (es.termsOf document field).any (es.rangeMatches op bound)
  | .startsWith field value caseInsensitive =>
    (es.termsOf document field).any
      (textTerm fun term => folded caseInsensitive value <+: folded caseInsensitive term)
  | .wildcard field pattern caseInsensitive =>
    (es.termsOf document field).any
      (textTerm fun term =>
        Wildcard.matchText (foldCase caseInsensitive) pattern term.toList)

def accepts : Clause Object → Bool
  | .term _ value _ => value.isScalar
  | .terms _ values => values.all PyValue.isScalar
  | .range _ _ bound => bound.isScalar
  | _ => true

/-- The ids of the documents a query matches; `none` when the request fails. -/
def search (index : MetaIndex) (query : Query Object) : Option (List DocId) :=
  if query.leaves.all accepts then
    some ((index.documents.filter fun document =>
      query.eval (es.holds document)).map Document.id)
  else none

end Elasticsearch

def supportedOperators : List String :=
  ["=", "≠", ">", "<", "≥", "≤", "in", "not in", "contains", "not contains", "start with",
    "end with", "empty", "not empty"]

def rangeOps (op : String) : Option OrderOp :=
  if op = ">" then some .gt
  else if op = "<" then some .lt
  else if op = "≥" then some .ge
  else if op = "≤" then some .le
  else none

def multivalueUnsafeNegativeOps : List String := ["≠", "not in"]

inductive UnsupportedMetaFilter where
  | missingKey
  | unknownOperator (op : String)
  | noHandler (op : String)
  | noneValue
  | nonScalarValue
  | emptyText
  | emptyMembership
  | unknownLogic (logic : String)
  deriving DecidableEq

structure TranslatedFilter (Object : Type) where
  must : List (Query Object)
  mustNot : List (Query Object)

/-- More than one clause, or a negative one, is wrapped to survive an `or`. -/
def TranslatedFilter.toClauses {Object : Type} (filter : TranslatedFilter Object) :
    List (Query Object) :=
  if filter.must.isEmpty && filter.mustNot.isEmpty then []
  else if filter.mustNot.isEmpty then
    if filter.must.length = 1 then filter.must else [.bool [] filter.must [] [] 0]
  else [.bool [] filter.must filter.mustNot [] 0]

section Translator

variable {Object : Type} (python : Python Object)

/-! The value of a condition, coerced for its operator.  An object in a request is a
dictionary. -/

def coerceScalar : PyValue Object → Except UnsupportedMetaFilter (PyValue Object)
  | .none => .error .noneValue
  | .list _ => .error .nonScalarValue
  | .object _ => .error .nonScalarValue
  | value =>
    let s := PyString.strip (python.str value)
    if isDate python.isDecimal s then .ok (.scalar (.str s))
    else
      match python.literalEval s with
      | some (.scalar (.str text)) => .ok (.scalar (.str (python.lower text)))
      | some (.scalar parsed) => .ok (.scalar parsed)
      | _ => .ok (.scalar (.str (python.lower s)))

def coerceRangeValue : PyValue Object → Except UnsupportedMetaFilter (PyValue Object)
  | .none => .error .noneValue
  | value =>
    let s := PyString.strip (python.str value)
    if isDate python.isDecimal s then .ok (.scalar (.str s))
    else
      match python.literalEval s with
      | some (.scalar (.num number)) => .ok (.scalar (.num number))
      | some (.scalar (.bool truth)) => .ok (.scalar (.bool truth))
      | _ => .ok (.scalar (.str s))

def coerceString : PyValue Object → Except UnsupportedMetaFilter String
  | .none => .error .noneValue
  | .list _ => .error .nonScalarValue
  | .object _ => .error .nonScalarValue
  | value =>
    let s := python.str value
    if s = "" then .error .emptyText else .ok s

/-- `value.split(",")`, without blank parts. -/
def splitMembers (text : String) : List String :=
  ((text.toList.splitOn ',').map fun part => String.ofList (PyString.stripChars part)).filter
    fun part => part ≠ ""

def membersOf : PyValue Object → List (PyValue Object)
  | .list items => items
  | .tuple items => items
  | .scalar (.str text) =>
    match python.literalEval text with
    | some (.list items) => items
    | some (.tuple items) => items
    | _ => (splitMembers text).map fun part => .scalar (.str part)
  | value => [value]

def normalizeMember : PyValue Object → PyValue Object
  | .scalar (.str text) => .scalar (.str (PyString.strip (python.lower text)))
  | value => value

def csvOrList : PyValue Object → Except UnsupportedMetaFilter (List (PyValue Object))
  | .none => .error .noneValue
  | value =>
    let members := membersOf python value
    if members.isEmpty then .error .emptyMembership
    else .ok (members.map (normalizeMember python))

def termOrMatch (key : String) (value : PyValue Object) : Query Object :=
  if value.isStr then .leaf (.term (.keyword key) value true)
  else .leaf (.term (.parent key) value false)

def termsStringOrNumeric (key : String) (members : List (PyValue Object)) : Query Object :=
  if members.all fun member => !member.isStr then .leaf (.terms (.parent key) members)
  else .bool [] [] [] (members.map (termOrMatch key)) 1

def escapeWildcard (text : String) : List Char :=
  PyString.replace ['?'] ['\\', '?']
    (PyString.replace ['*'] ['\\', '*']
      (PyString.replace ['\\'] ['\\', '\\'] text.toList))

def wildcard (key : String) (pattern : List Char) : Query Object :=
  .leaf (.wildcard (.keyword key) pattern true)

def fieldExists (key : String) : Query Object := .leaf (.fieldExists (.parent key))

def blankTerm (key : String) : Query Object :=
  .leaf (.term (.keyword key) (.scalar Scalar.blank) false)

def translateEmpty (key : String) : TranslatedFilter Object where
  must := [.bool [] [] [] [.bool [] [] [fieldExists key] [] 0, blankTerm key] 1]
  mustNot := []

def translateNotEmpty (key : String) : TranslatedFilter Object where
  must := [fieldExists key]
  mustNot := [blankTerm key]

def translateEqual (key : String) (value : PyValue Object) :
    Except UnsupportedMetaFilter (TranslatedFilter Object) := do
  let coerced ← coerceScalar python value
  return { must := [termOrMatch key coerced], mustNot := [] }

def translateNotEqual (key : String) (value : PyValue Object) :
    Except UnsupportedMetaFilter (TranslatedFilter Object) := do
  let coerced ← coerceScalar python value
  return { must := [fieldExists key], mustNot := [termOrMatch key coerced] }

def translateRange (key : String) (op : OrderOp) (value : PyValue Object) :
    Except UnsupportedMetaFilter (TranslatedFilter Object) := do
  let coerced ← coerceRangeValue python value
  return { must := [fieldExists key, .leaf (.range (.parent key) op coerced)], mustNot := [] }

def translateIn (key : String) (value : PyValue Object) :
    Except UnsupportedMetaFilter (TranslatedFilter Object) := do
  let members ← csvOrList python value
  return { must := [termsStringOrNumeric key members], mustNot := [] }

def translateNotIn (key : String) (value : PyValue Object) :
    Except UnsupportedMetaFilter (TranslatedFilter Object) := do
  let members ← csvOrList python value
  return { must := [fieldExists key], mustNot := [termsStringOrNumeric key members] }

def translateContains (key : String) (value : PyValue Object) :
    Except UnsupportedMetaFilter (TranslatedFilter Object) := do
  let text ← coerceString python value
  return { must := [wildcard key ('*' :: (escapeWildcard text ++ ['*']))], mustNot := [] }

def translateNotContains (key : String) (value : PyValue Object) :
    Except UnsupportedMetaFilter (TranslatedFilter Object) := do
  let text ← coerceString python value
  return { must := [fieldExists key]
           mustNot := [wildcard key ('*' :: (escapeWildcard text ++ ['*']))] }

def translateStartWith (key : String) (value : PyValue Object) :
    Except UnsupportedMetaFilter (TranslatedFilter Object) := do
  let text ← coerceString python value
  return { must := [.leaf (.startsWith (.keyword key) text true)], mustNot := [] }

def translateEndWith (key : String) (value : PyValue Object) :
    Except UnsupportedMetaFilter (TranslatedFilter Object) := do
  let text ← coerceString python value
  return { must := [wildcard key ('*' :: escapeWildcard text)], mustNot := [] }

def translate (condition : Condition (PyValue Object)) :
    Except UnsupportedMetaFilter (TranslatedFilter Object) :=
  if condition.key = "" then .error .missingKey
  else if condition.op ∉ supportedOperators then .error (.unknownOperator condition.op)
  else if condition.op = "empty" then .ok (translateEmpty condition.key)
  else if condition.op = "not empty" then .ok (translateNotEmpty condition.key)
  else if condition.op = "=" then translateEqual python condition.key condition.value
  else if condition.op = "≠" then translateNotEqual python condition.key condition.value
  else
    match rangeOps condition.op with
    | some op => translateRange python condition.key op condition.value
    | none =>
      if condition.op = "in" then translateIn python condition.key condition.value
      else if condition.op = "not in" then translateNotIn python condition.key condition.value
      else if condition.op = "contains" then
        translateContains python condition.key condition.value
      else if condition.op = "not contains" then
        translateNotContains python condition.key condition.value
      else if condition.op = "start with" then
        translateStartWith python condition.key condition.value
      else if condition.op = "end with" then
        translateEndWith python condition.key condition.value
      else .error (.noHandler condition.op)

structure MetaFilterPushdownPlan (Object : Type) where
  logic : String
  translated : List (TranslatedFilter Object)

def MetaFilterPushdownPlan.toQuery (plan : MetaFilterPushdownPlan Object)
    (kbIds : List String) : Query Object :=
  let kbClause : Query Object :=
    .leaf (.terms .kbId (kbIds.map fun kbId => .scalar (.str kbId)))
  if plan.translated.isEmpty then .bool [kbClause] [] [] [] 0
  else
    let flatClauses := plan.translated.flatMap TranslatedFilter.toClauses
    let inner : Query Object :=
      if plan.logic = "or" then .bool [] [] [] flatClauses 1 else .bool [] flatClauses [] [] 0
    .bool [kbClause, inner] [] [] [] 0

def planPushdown (filters : List (Condition (PyValue Object))) (logic : String) :
    Except UnsupportedMetaFilter (MetaFilterPushdownPlan Object) := do
  if logic ≠ "and" ∧ logic ≠ "or" then .error (.unknownLogic logic)
  let translated ← filters.mapM (translate python)
  return { logic := logic, translated := translated }

def buildMetaFilterQuery (filters : List (Condition (PyValue Object))) (logic : String)
    (kbIds : List String) : Except UnsupportedMetaFilter (Query Object) := do
  let plan ← planPushdown python filters logic
  return plan.toQuery kbIds

def isPushdownSupported (filters : List (Condition (PyValue Object))) : Bool :=
  filters.all fun condition =>
    condition.op ∈ supportedOperators && condition.op ∉ multivalueUnsafeNegativeOps &&
      condition.key ≠ ""

/-- `filter_doc_ids_by_meta_pushdown`; `none` sends the caller to the in-memory filter. -/
def filterDocIdsByMetaPushdown (es : Elasticsearch) (index : MetaIndex) (kbIds : List String)
    (filters : List (Condition (PyValue Object))) (logic : String) : Option (List DocId) :=
  if kbIds = [] ∨ filters = [] then none
  else if isPushdownSupported filters then
    match buildMetaFilterQuery python filters logic kbIds with
    | .ok query => es.search index query
    | .error _ => none
  else none

end Translator

end RagFlow.Metadata
