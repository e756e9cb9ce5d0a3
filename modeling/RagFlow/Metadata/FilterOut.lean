import Mathlib.Algebra.Order.Ring.Unbundled.Rat
import Mathlib.Data.List.Infix
import Mathlib.Data.Rat.Defs
import Mathlib.Data.String.Basic
import RagFlow.Lib.Dict
import RagFlow.Lib.PyString
import RagFlow.Metadata.MetaFilter

/-!
# Metadata values

What documents store under their metadata keys, and what Python makes of these values and of the
values of conditions: their text, their order, and the literals it reads from a text.
-/

namespace RagFlow.Metadata

open RagFlow.Lib

/-- A number with the text Python writes for it. -/
structure Number where
  value : ℚ
  text : String
  text_ne : text ≠ ""
  deriving DecidableEq

inductive Scalar where
  | str (text : String)
  | num (number : Number)
  | bool (truth : Bool)
  deriving DecidableEq

abbrev Scalar.blank : Scalar := .str ""

/-- `str` of a stored value. -/
def Scalar.text : Scalar → String
  | .str text => text
  | .num number => number.text
  | .bool truth => if truth then "True" else "False"

@[simp] theorem Scalar.text_eq_empty {value : Scalar} : value.text = "" ↔ value = blank := by
  cases value with
  | str text => simp [Scalar.text]
  | num number => simp [Scalar.text, number.text_ne]
  | bool truth => cases truth <;> simp [Scalar.text]

def Scalar.number : Scalar → Option ℚ
  | .str _ => none
  | .num number => some number.value
  | .bool truth => some (if truth then 1 else 0)

inductive PyValue (Object : Type) where
  | scalar (value : Scalar)
  | none
  | list (items : List (PyValue Object))
  | tuple (items : List (PyValue Object))
  | object (object : Object)

inductive OrderOp where
  | gt | lt | ge | le
  deriving DecidableEq

def OrderOp.holds {Value : Type} [LinearOrder Value] (left right : Value) : OrderOp → Bool
  | .gt => right < left
  | .lt => left < right
  | .ge => right ≤ left
  | .le => left ≤ right

inductive Comparison where
  | equal | notEqual
  | order (op : OrderOp)
  deriving DecidableEq

def Comparison.holds {Value : Type} [LinearOrder Value] (left right : Value) : Comparison → Bool
  | .equal => left = right
  | .notEqual => left ≠ right
  | .order op => op.holds left right

/-- Values of different types are never equal, and ordering them is a `TypeError`. -/
def Comparison.mixed : Comparison → Option Bool
  | .equal => some false
  | .notEqual => some true
  | .order _ => none

/-- The parts of Python that are parameters: the results hold for all of them. -/
structure Python (Object : Type) where
  lower : String → String
  lower_lower : ∀ text, lower (lower text) = lower text
  lower_eq_empty : ∀ text, lower text = "" ↔ text = ""
  /-- `str.isdigit` of a character -/
  isDigit : Char → Bool
  /-- `\d` of a regular expression -/
  isDecimal : Char → Bool
  /-- `ast.literal_eval`; `none` when it raises -/
  literalEval : String → Option (PyValue Object)
  /-- `str` of a container -/
  repr : PyValue Object → String
  /-- Comparisons that involve a container or `None`; `none` when they raise. -/
  compareObjects : Comparison → PyValue Object → PyValue Object → Option Bool
  /-- `in`, for what is neither a string nor a list; `none` when it raises. -/
  isMember : String → PyValue Object → Option Bool

namespace Python

variable {Object : Type} (python : Python Object)

def str : PyValue Object → String
  | .scalar value => value.text
  | value => python.repr value

def compareScalars (comparison : Comparison) (left right : Scalar) : Option Bool :=
  match left, right with
  | .str left, .str right => some (comparison.holds left right)
  | left, right =>
    match left.number, right.number with
    | some left, some right => some (comparison.holds left right)
    | _, _ => comparison.mixed

/-- `==`, `!=` and the orders; `none` when they raise. -/
def compare (comparison : Comparison) : PyValue Object → PyValue Object → Option Bool
  | .scalar left, .scalar right => compareScalars comparison left right
  | left, right => python.compareObjects comparison left right

def lowerString : PyValue Object → PyValue Object
  | .scalar (.str text) => .scalar (.str (python.lower text))
  | value => value

@[simp] theorem str_scalar (value : Scalar) : python.str (.scalar value) = value.text := rfl

@[simp] theorem lowerString_lowerString (value : PyValue Object) :
    python.lowerString (python.lowerString value) = python.lowerString value := by
  rcases value with (text | number | truth) | _ | items | items | object <;>
    simp [lowerString, python.lower_lower]

end Python

inductive MetaValue where
  | single (value : Option Scalar)
  | list (values : List (Option Scalar))
  deriving DecidableEq

def MetaValue.scalars : MetaValue → List Scalar
  | .single value => value.toList
  | .list values => values.filterMap id

structure Document where
  id : String
  kbId : String
  metaFields : Dict String MetaValue

def Document.values (document : Document) (key : String) : List Scalar :=
  match document.metaFields.get? key with
  | none => []
  | some value => value.scalars

structure MetaIndex where
  documents : List Document
  nodup : (documents.map Document.id).Nodup

def MetaIndex.inKbs (index : MetaIndex) (kbIds : List String) : List Document :=
  index.documents.filter fun document => document.kbId ∈ kbIds

end RagFlow.Metadata

/-!
# Conditions on flattened metadata

The loop of `filter_out` assigns what it reads from the condition's value back to the variable, so a
comparison depends on the values compared before.
-/

namespace RagFlow.Metadata

open RagFlow.Lib

def addBucket (value : String) (doc : DocId) : V2Docs → V2Docs
  | [] => [(value, [doc])]
  | bucket :: rest =>
    if bucket.1 = value then (value, bucket.2 ++ [doc]) :: rest
    else bucket :: addBucket value doc rest

def addValues (doc : DocId) (values : List Scalar) (v2docs : V2Docs) : V2Docs :=
  values.foldl (fun v2docs value => addBucket value.text doc v2docs) v2docs

def addDocument (metas : Metas) (document : Document) : Metas :=
  document.metaFields.items.foldl (fun metas item =>
    metas.upsert item.1 fun v2docs =>
      addValues document.id item.2.scalars (v2docs.getD [])) metas

def getFlattedMetaByKbs (index : MetaIndex) (kbIds : List String) : Metas :=
  (index.inKbs kbIds).foldl addDocument Dict.empty

def buckets (metas : Metas) (key : String) : V2Docs := (metas.get? key).getD []

theorem buckets_addDocument (metas : Metas) (document : Document) (key : String) :
    buckets (addDocument metas document) key =
      addValues document.id (document.values key) (buckets metas key) := by
  have lookup : document.metaFields.get? key =
      (document.metaFields.items.find? fun item => item.1 = key).map Prod.snd := rfl
  have written := Dict.get?_foldl_upsert_of_nodup
    (fun (value : MetaValue) v2docs => addValues document.id value.scalars (v2docs.getD []))
    document.metaFields.items document.metaFields.nodup metas key
  unfold buckets addDocument Document.values
  rw [written, lookup]
  cases document.metaFields.items.find? fun item => item.1 = key with
  | none => rfl
  | some item => rfl

def Listed (v2docs : V2Docs) (value : String) (doc : DocId) : Prop :=
  ∃ bucket ∈ v2docs, bucket.1 = value ∧ doc ∈ bucket.2

theorem listed_addBucket {v2docs : V2Docs} {value other : String} {doc otherDoc : DocId} :
    Listed (addBucket value doc v2docs) other otherDoc ↔
      Listed v2docs other otherDoc ∨ other = value ∧ otherDoc = doc := by
  induction v2docs with
  | nil => simp [Listed, addBucket, eq_comm]
  | cons bucket rest ih =>
    simp only [Listed] at ih ⊢
    by_cases same : bucket.1 = value
    · simp only [addBucket, same, if_true, List.exists_mem_cons_iff, List.mem_append,
        List.mem_singleton]
      by_cases isOther : value = other
      · simp [isOther, or_right_comm]
      · simp [isOther, Ne.symm isOther]
    · simp only [addBucket, same, if_false, List.exists_mem_cons_iff, ih,
        or_assoc]

theorem keys_addBucket (value : String) (doc : DocId) (v2docs : V2Docs) :
    (addBucket value doc v2docs).map Prod.fst =
      if value ∈ v2docs.map Prod.fst then v2docs.map Prod.fst
      else v2docs.map Prod.fst ++ [value] := by
  induction v2docs with
  | nil => rfl
  | cons bucket rest ih =>
    by_cases same : bucket.1 = value
    · simp [addBucket, same]
    · by_cases later : value ∈ rest.map Prod.fst
      · simp only [addBucket, same, if_false, List.map_cons, ih, later, if_true,
          List.mem_cons, or_true]
      · simp only [addBucket, same, if_false, List.map_cons, ih, later,
          List.mem_cons, Ne.symm same, or_false, List.cons_append]

theorem keys_nodup_addBucket {value : String} {doc : DocId} {v2docs : V2Docs}
    (nodup : (v2docs.map Prod.fst).Nodup) :
    ((addBucket value doc v2docs).map Prod.fst).Nodup := by
  rw [keys_addBucket]
  by_cases present : value ∈ v2docs.map Prod.fst
  · rw [if_pos present]
    exact nodup
  · rw [if_neg present]
    exact nodup.append (List.nodup_singleton value) (by simpa using present)

theorem keys_nodup_addValues {doc : DocId} {values : List Scalar} {v2docs : V2Docs}
    (nodup : (v2docs.map Prod.fst).Nodup) :
    ((addValues doc values v2docs).map Prod.fst).Nodup := by
  induction values generalizing v2docs with
  | nil => exact nodup
  | cons value values ih => exact ih (keys_nodup_addBucket nodup)

theorem listed_addValues {doc otherDoc : DocId} {values : List Scalar} {v2docs : V2Docs}
    {other : String} :
    Listed (addValues doc values v2docs) other otherDoc ↔
      Listed v2docs other otherDoc ∨
        otherDoc = doc ∧ ∃ value ∈ values, value.text = other := by
  induction values generalizing v2docs with
  | nil => simp [addValues]
  | cons value values ih =>
    have step : addValues doc (value :: values) v2docs =
        addValues doc values (addBucket value.text doc v2docs) := rfl
    rw [step, ih, listed_addBucket]
    grind

theorem keys_nodup_buckets (documents : List Document) (metas : Metas) (key : String)
    (nodup : ((buckets metas key).map Prod.fst).Nodup) :
    ((buckets (documents.foldl addDocument metas) key).map Prod.fst).Nodup := by
  induction documents generalizing metas with
  | nil => exact nodup
  | cons document documents ih =>
    apply ih
    rw [buckets_addDocument]
    exact keys_nodup_addValues nodup

theorem listed_buckets (documents : List Document) (metas : Metas) {key value : String}
    {doc : DocId} :
    Listed (buckets (documents.foldl addDocument metas) key) value doc ↔
      Listed (buckets metas key) value doc ∨
        ∃ document ∈ documents, doc = document.id ∧
          ∃ stored ∈ document.values key, stored.text = value := by
  induction documents generalizing metas with
  | nil => simp
  | cons document documents ih =>
    rw [List.foldl_cons, ih, buckets_addDocument, listed_addValues]
    simp [or_assoc]

section FilterOut

variable {Object : Type} (python : Python Object)

/-- `YYYY-MM-DD` -/
def isDate (digit : Char → Bool) (text : String) : Bool :=
  match text.toList with
  | [y1, y2, y3, y4, '-', m1, m2, '-', d1, d2] => [y1, y2, y3, y4, m1, m2, d1, d2].all digit
  | _ => false

def comparisonOf (op : String) : Option Comparison :=
  if op = "=" then some .equal
  else if op = "≠" then some .notEqual
  else if op = ">" then some (.order .gt)
  else if op = "<" then some (.order .lt)
  else if op = "≥" then some (.order .ge)
  else if op = "≤" then some (.order .le)
  else none

/-- `ast.literal_eval` of the condition's value, which has to be a string. -/
def evaluated : PyValue Object → PyValue Object
  | .scalar (.str text) => (python.literalEval text).getD (.scalar (.str text))
  | value => value

def readLiterals (input : String) (value : PyValue Object) : PyValue Object × PyValue Object :=
  match python.literalEval input with
  | none => (.scalar (.str input), value)
  | some literal => (literal, evaluated python value)

/-- One turn of the loop for a comparison: whether the input matches, and what has become of the
condition's value. -/
def comparisonStep (comparison : Comparison) (input : String) (value : PyValue Object) :
    Bool × PyValue Object :=
  let inputStr := PyString.strip input
  let valueStr := PyString.strip (python.str value)
  if isDate python.isDigit valueStr then
    if isDate python.isDigit inputStr then
      (python.compare comparison (.scalar (.str inputStr)) (.scalar (.str valueStr)) = some true,
        .scalar (.str valueStr))
    else (false, value)
  else
    let literals := readLiterals python input value
    (python.compare comparison (python.lowerString literals.1) (python.lowerString literals.2) =
      some true, python.lowerString literals.2)

def normalizeStringValues : PyValue Object → PyValue Object
  | .list items => .list (items.map python.lowerString)
  | value => python.lowerString value

def isText (text : String) : PyValue Object → Bool
  | .scalar (.str other) => other = text
  | _ => false

/-- `input in value`; `none` when it raises. -/
def isIn (input : String) : PyValue Object → Option Bool
  | .scalar (.str text) => some (decide (input.toList <:+: text.toList))
  | .list items => some (items.any (isText input))
  | value => python.isMember input value

/-- `str(input).find(value) >= 0`; `none` when it raises. -/
def finds (input : String) : PyValue Object → Option Bool
  | .scalar (.str text) => some (decide (text.toList <:+: input.toList))
  | _ => none

/-- The operators that are no comparisons; an exception counts as no match. -/
def textMatches (op : String) (input : String) (value : PyValue Object) : Bool :=
  if op = "contains" then finds input value = some true
  else if op = "not contains" then finds input value = some false
  else if op = "in" then isIn python input value = some true
  else if op = "not in" then isIn python input value = some false
  else if op = "start with" then
    (python.lower (python.str value)).toList <+: (python.lower input).toList
  else if op = "end with" then
    (python.lower (python.str value)).toList <:+ (python.lower input).toList
  else if op = "empty" then input = ""
  else if op = "not empty" then input ≠ ""
  else false

def filterStep (op : String) (input : String) (value : PyValue Object) : Bool × PyValue Object :=
  match comparisonOf op with
  | some comparison => comparisonStep python comparison input value
  | none =>
    let value := normalizeStringValues python value
    (textMatches python op (python.lower input) value, value)

def filterOut : V2Docs → String → PyValue Object → List DocId
  | [], _, _ => []
  | bucket :: rest, op, value =>
    let step := filterStep python op bucket.1 value
    (if step.1 then bucket.2 else []) ++ filterOut rest op step.2

def valueAfter (op : String) (value : PyValue Object) (inputs : List String) : PyValue Object :=
  inputs.foldl (fun value input => (filterStep python op input value).2) value

def valueAt (v2docs : V2Docs) (op : String) (value : PyValue Object) (input : String) :
    PyValue Object :=
  valueAfter python op value ((v2docs.map Prod.fst).takeWhile fun other => other ≠ input)

variable {python}

theorem mem_filterOut {v2docs : V2Docs} {op : String} {value : PyValue Object} {doc : DocId}
    (nodup : (v2docs.map Prod.fst).Nodup) :
    doc ∈ filterOut python v2docs op value ↔
      ∃ input, Listed v2docs input doc ∧
        (filterStep python op input (valueAt python v2docs op value input)).1 = true := by
  induction v2docs generalizing value with
  | nil => simp [filterOut, Listed]
  | cons bucket rest ih =>
    rw [List.map_cons, List.nodup_cons] at nodup
    have first : valueAt python (bucket :: rest) op value bucket.1 = value := by
      simp [valueAt, valueAfter]
    have later : ∀ input, input ≠ bucket.1 →
        valueAt python (bucket :: rest) op value input =
          valueAt python rest op (filterStep python op bucket.1 value).2 input := by
      intro input other
      simp [valueAt, valueAfter, Ne.symm other]
    have distinct : ∀ input, Listed rest input doc → input ≠ bucket.1 := by
      rintro input ⟨other, member, rfl, _⟩ same
      exact nodup.1 (same ▸ List.mem_map_of_mem member)
    have here : doc ∈ (if (filterStep python op bucket.1 value).1 then bucket.2 else []) ↔
        doc ∈ bucket.2 ∧ (filterStep python op bucket.1 value).1 = true := by
      by_cases matched : (filterStep python op bucket.1 value).1 = true <;> simp [matched]
    simp only [filterOut, List.mem_append, here, ih nodup.2]
    constructor
    · rintro (⟨member, matched⟩ | ⟨input, listed, matched⟩)
      · exact ⟨bucket.1, ⟨bucket, List.mem_cons_self, rfl, member⟩, by rw [first]; exact matched⟩
      · have listed' : Listed (bucket :: rest) input doc := by
          obtain ⟨other, member, found⟩ := listed
          exact ⟨other, List.mem_cons_of_mem _ member, found⟩
        refine ⟨input, listed', ?_⟩
        rw [later input (distinct input listed)]
        exact matched
    · rintro ⟨input, ⟨other, member, rfl, isListed⟩, matched⟩
      rcases List.mem_cons.mp member with rfl | member
      · rw [first] at matched
        exact Or.inl ⟨isListed, matched⟩
      · have listed : Listed rest other.1 doc := ⟨other, member, rfl, isListed⟩
        rw [later other.1 (distinct _ listed)] at matched
        exact Or.inr ⟨other.1, listed, matched⟩

@[simp] theorem normalizeStringValues_idem (value : PyValue Object) :
    normalizeStringValues python (normalizeStringValues python value) =
      normalizeStringValues python value := by
  cases value with
  | scalar value =>
    cases value <;> simp [normalizeStringValues, Python.lowerString, python.lower_lower]
  | none => rfl
  | list items => simp [normalizeStringValues, Function.comp_def]
  | tuple items => rfl
  | object object => rfl

theorem filterStep_valueAfter {op : String} (text : comparisonOf op = none)
    (value : PyValue Object) (inputs : List String) (input : String) :
    (filterStep python op input (valueAfter python op value inputs)).1 =
      (filterStep python op input value).1 := by
  induction inputs generalizing value with
  | nil => rfl
  | cons first inputs ih =>
    have step : valueAfter python op value (first :: inputs) =
        valueAfter python op (filterStep python op first value).2 inputs := rfl
    rw [step, ih]
    simp [filterStep, text]

theorem mem_conditionIds {index : MetaIndex} {kbIds : List String}
    {condition : Condition (PyValue Object)} {doc : DocId} :
    doc ∈ conditionIds (filterOut python) (getFlattedMetaByKbs index kbIds) condition ↔
      ∃ document ∈ index.inKbs kbIds, doc = document.id ∧
        ∃ stored ∈ document.values condition.key,
          (filterStep python condition.op stored.text
            (valueAt python (buckets (getFlattedMetaByKbs index kbIds) condition.key) condition.op
              condition.value stored.text)).1 = true := by
  have isFilterOut :
      conditionIds (filterOut python) (getFlattedMetaByKbs index kbIds) condition =
        filterOut python (buckets (getFlattedMetaByKbs index kbIds) condition.key) condition.op
          condition.value := by
    unfold conditionIds buckets
    cases (getFlattedMetaByKbs index kbIds).get? condition.key <;> rfl
  have nodup : ((buckets (getFlattedMetaByKbs index kbIds) condition.key).map Prod.fst).Nodup :=
    keys_nodup_buckets (index.inKbs kbIds) Dict.empty condition.key (by simp [buckets])
  have listed : ∀ value, Listed (buckets (getFlattedMetaByKbs index kbIds) condition.key) value
      doc ↔ ∃ document ∈ index.inKbs kbIds, doc = document.id ∧
        ∃ stored ∈ document.values condition.key, stored.text = value := by
    intro value
    have unlisted : ¬ Listed (buckets Dict.empty condition.key) value doc := by
      simp [Listed, buckets]
    unfold getFlattedMetaByKbs
    rw [listed_buckets]
    simp only [unlisted, false_or]
  rw [isFilterOut, mem_filterOut nodup]
  simp only [listed]
  constructor
  · rintro ⟨_, ⟨document, member, isDoc, stored, isStored, rfl⟩, matched⟩
    exact ⟨document, member, isDoc, stored, isStored, matched⟩
  · rintro ⟨document, member, isDoc, stored, isStored, matched⟩
    exact ⟨_, ⟨document, member, isDoc, stored, isStored, rfl⟩, matched⟩

theorem eq_of_id_eq {index : MetaIndex} {kbIds : List String} {first second : Document}
    (firstMember : first ∈ index.inKbs kbIds) (secondMember : second ∈ index.inKbs kbIds)
    (sameId : first.id = second.id) : first = second :=
  List.inj_on_of_nodup_map index.nodup (List.mem_of_mem_filter firstMember)
    (List.mem_of_mem_filter secondMember) sameId

end FilterOut

end RagFlow.Metadata
