import Mathlib
import RagFlow.Metadata.Translation

/-!
# When the push-down agrees with the in-memory filter

A request is pushed down when all of its conditions can be translated.  It then has to select the
documents that `meta_filter` selects on the flattened metadata of the same index.
-/

namespace RagFlow.Metadata

open RagFlow.Lib

variable {Object : Type} (python : Python Object) (es : Elasticsearch) (index : MetaIndex)
  (kbIds : List String)

structure Supported (condition : Condition (PyValue Object)) : Prop where
  operator : condition.op ∈ supportedOperators
  safe : condition.op ∉ multivalueUnsafeNegativeOps
  hasKey : condition.key ≠ ""

/-- The condition is translated, and the search engine takes the translation. -/
structure Accepted (condition : Condition (PyValue Object)) : Prop extends
    Supported condition where
  translated : ∃ filter, translate python condition = .ok filter ∧
    ∀ clause ∈ filter.leaves, Elasticsearch.accepts clause = true

structure Pushed (filters : List (Condition (PyValue Object))) (logic : String) : Prop where
  hasKbs : kbIds ≠ []
  hasFilters : filters ≠ []
  known : logic = "and" ∨ logic = "or"
  accepted : ∀ condition ∈ filters, Accepted python condition

def Joined (logic : String) (filters : List (Condition (PyValue Object)))
    (holds : Condition (PyValue Object) → Prop) : Prop :=
  if logic = "or" then ∃ condition ∈ filters, holds condition
  else ∀ condition ∈ filters, holds condition

def Found (condition : Condition (PyValue Object)) (document : Document) : Prop :=
  ∃ operator ∈ operatorOf condition.op,
    FoundInIndex python es operator condition.value (document.values condition.key)

def reached (condition : Condition (PyValue Object)) : String → PyValue Object :=
  valueAt python (buckets (getFlattedMetaByKbs index kbIds) condition.key) condition.op
    condition.value

def Kept (condition : Condition (PyValue Object)) (document : Document) : Prop :=
  ∃ operator ∈ operatorOf condition.op,
    KeptInMemory python operator condition.value (reached python index kbIds condition)
      (document.values condition.key)

variable {python es index kbIds} {filters : List (Condition (PyValue Object))} {logic : String}

theorem Supported.exists_operator {condition : Condition (PyValue Object)}
    (supported : Supported condition) : ∃ operator : Operator, operator.name = condition.op :=
  (exists_operator_iff _).mpr ⟨supported.operator, supported.safe⟩

theorem Supported.selects_iff {condition : Condition (PyValue Object)}
    (supported : Supported condition) {filter : TranslatedFilter Object}
    (translated : translate python condition = .ok filter) :
    filter.must ≠ [] ∧ ∀ (es : Elasticsearch) (document : Document),
      filter.Selects (es.holds document) ↔ Found python es condition document := by
  obtain ⟨operator, named⟩ := supported.exists_operator
  rw [translate_eq python named supported.hasKey] at translated
  have isOperator : operatorOf condition.op = some operator := by
    rw [← named, operatorOf_name]
  simpa [Found, isOperator] using translateOperator_spec python translated

theorem planPushdown_eq_ok {plan : MetaFilterPushdownPlan Object} :
    planPushdown python filters logic = .ok plan ↔
      (logic = "and" ∨ logic = "or") ∧ plan.logic = logic ∧
        filters.map (translate python) = plan.translated.map .ok := by
  unfold planPushdown
  by_cases known : logic = "and" ∨ logic = "or"
  · have proceeds : ¬ (logic ≠ "and" ∧ logic ≠ "or") := by
      rintro ⟨notAnd, notOr⟩
      exact known.elim notAnd notOr
    rw [if_neg proceeds]
    apply Fallible.bind_eq_ok.trans
    simp only [Fallible.mapM_eq_ok_iff, known, true_and]
    constructor
    · rintro ⟨translated, each, rfl⟩
      exact ⟨rfl, each⟩
    · rintro ⟨rfl, each⟩
      exact ⟨plan.translated, each, rfl⟩
  · have refused : logic ≠ "and" ∧ logic ≠ "or" := not_or.mp known
    rw [if_pos refused]
    simp [known, bind, Except.bind]

theorem isPushdownSupported_iff :
    isPushdownSupported filters = true ↔ ∀ condition ∈ filters, Supported condition := by
  simp only [isPushdownSupported, List.all_eq_true, Bool.and_eq_true, decide_eq_true_eq]
  apply forall₂_congr
  intro condition _
  constructor
  · rintro ⟨⟨operator, safe⟩, hasKey⟩
    exact ⟨operator, safe, hasKey⟩
  · rintro ⟨operator, safe, hasKey⟩
    exact ⟨⟨operator, safe⟩, hasKey⟩

/-- The translated filters of a plan, one for each condition. -/
structure Planned (python : Python Object) (filters : List (Condition (PyValue Object)))
    (logic : String) (plan : MetaFilterPushdownPlan Object) : Prop where
  supported : ∀ condition ∈ filters, Supported condition
  sameLogic : plan.logic = logic
  known : logic = "and" ∨ logic = "or"
  each : filters.map (translate python) = plan.translated.map .ok
  nonempty : filters ≠ []

namespace Planned

variable {plan : MetaFilterPushdownPlan Object} (planned : Planned python filters logic plan)

include planned

theorem exists_filter {condition : Condition (PyValue Object)} (member : condition ∈ filters) :
    ∃ filter ∈ plan.translated, translate python condition = .ok filter := by
  have translated : translate python condition ∈ plan.translated.map .ok :=
    planned.each ▸ List.mem_map_of_mem member
  obtain ⟨filter, isFilter, same⟩ := List.mem_map.mp translated
  exact ⟨filter, isFilter, same.symm⟩

theorem exists_condition {filter : TranslatedFilter Object} (member : filter ∈ plan.translated) :
    ∃ condition ∈ filters, translate python condition = .ok filter := by
  have translated : Except.ok filter ∈ filters.map (translate python) :=
    planned.each ▸ List.mem_map_of_mem member
  exact List.mem_map.mp translated

theorem translated_ne_nil : plan.translated ≠ [] := by
  obtain ⟨condition, member⟩ := List.exists_mem_of_ne_nil filters planned.nonempty
  obtain ⟨filter, isFilter, _⟩ := planned.exists_filter member
  exact List.ne_nil_of_mem isFilter

theorem positive (filter : TranslatedFilter Object) (member : filter ∈ plan.translated) :
    filter.must ≠ [] := by
  obtain ⟨condition, isCondition, translated⟩ := planned.exists_condition member
  exact ((planned.supported condition isCondition).selects_iff translated).1

theorem selects_iff (es : Elasticsearch) (document : Document) :
    plan.Selects (es.holds document) ↔
      Joined logic filters fun condition => Found python es condition document := by
  have selects : ∀ condition ∈ filters, ∀ filter, translate python condition = .ok filter →
      (filter.Selects (es.holds document) ↔ Found python es condition document) :=
    fun condition member filter translated =>
      ((planned.supported condition member).selects_iff translated).2 es document
  unfold MetaFilterPushdownPlan.Selects Joined
  rw [planned.sameLogic]
  by_cases either : logic = "or"
  · rw [if_pos either, if_pos either]
    constructor
    · rintro ⟨filter, member, selected⟩
      obtain ⟨condition, isCondition, translated⟩ := planned.exists_condition member
      exact ⟨condition, isCondition, (selects _ isCondition _ translated).mp selected⟩
    · rintro ⟨condition, member, found⟩
      obtain ⟨filter, isFilter, translated⟩ := planned.exists_filter member
      exact ⟨filter, isFilter, (selects _ member _ translated).mpr found⟩
  · rw [if_neg either, if_neg either]
    constructor
    · intro selected condition member
      obtain ⟨filter, isFilter, translated⟩ := planned.exists_filter member
      exact (selects _ member _ translated).mp (selected filter isFilter)
    · intro found filter member
      obtain ⟨condition, isCondition, translated⟩ := planned.exists_condition member
      exact (selects _ isCondition _ translated).mpr (found condition isCondition)

theorem accepts_iff (kbIds : List String) :
    (plan.toQuery kbIds).leaves.all Elasticsearch.accepts = true ↔
      ∀ condition ∈ filters, Accepted python condition := by
  have kbAccepted : Elasticsearch.accepts
      (.terms .kbId (kbIds.map fun kbId => .scalar (.str kbId)) : Clause Object) = true := by
    simp [Elasticsearch.accepts, PyValue.isScalar]
  simp only [List.all_eq_true, MetaFilterPushdownPlan.mem_leaves_toQuery planned.translated_ne_nil
    planned.positive]
  constructor
  · intro all condition member
    obtain ⟨filter, isFilter, translated⟩ := planned.exists_filter member
    exact ⟨planned.supported condition member, filter, translated, fun clause isClause =>
      all clause (Or.inr ⟨filter, isFilter, isClause⟩)⟩
  · rintro accepted clause (rfl | ⟨filter, member, isClause⟩)
    · exact kbAccepted
    · obtain ⟨condition, isCondition, translated⟩ := planned.exists_condition member
      obtain ⟨_, isTranslation, all⟩ := (accepted condition isCondition).translated
      obtain rfl := Except.ok.inj (translated.symm.trans isTranslation)
      exact all clause isClause

theorem filterDocIds_eq (es : Elasticsearch) (index : MetaIndex) {kbIds : List String}
    (hasKbs : kbIds ≠ []) :
    filterDocIdsByMetaPushdown python es index kbIds filters logic =
      es.search index (plan.toQuery kbIds) := by
  have isPlan : planPushdown python filters logic = .ok plan :=
    planPushdown_eq_ok.mpr ⟨planned.known, planned.sameLogic, planned.each⟩
  have isQuery : buildMetaFilterQuery python filters logic kbIds = .ok (plan.toQuery kbIds) :=
    Fallible.bind_eq_ok.mpr ⟨plan, isPlan, rfl⟩
  simp [filterDocIdsByMetaPushdown, hasKbs, planned.nonempty,
    isPushdownSupported_iff.mpr planned.supported, isQuery]

theorem mem_search_iff {es : Elasticsearch} {index : MetaIndex} {kbIds : List String}
    {selected : List DocId} (searched : es.search index (plan.toQuery kbIds) = some selected)
    (doc : DocId) :
    doc ∈ selected ↔ ∃ document ∈ index.inKbs kbIds, doc = document.id ∧
      Joined logic filters fun condition => Found python es condition document := by
  have inKbs : ∀ document : Document,
      es.holds document (.terms .kbId (kbIds.map fun kbId => .scalar (.str kbId)) : Clause Object) =
        true ↔ document.kbId ∈ kbIds := by
    intro document
    simp [Elasticsearch.holds, Elasticsearch.termsOf, Elasticsearch.termMatches, String.toList_inj]
  unfold Elasticsearch.search at searched
  split at searched
  · obtain rfl := Option.some.inj searched
    simp only [List.mem_map, List.mem_filter, MetaFilterPushdownPlan.eval_toQuery
      planned.translated_ne_nil planned.positive, inKbs, planned.selects_iff, MetaIndex.inKbs,
      decide_eq_true_eq]
    constructor
    · rintro ⟨document, ⟨member, inKb, joined⟩, rfl⟩
      exact ⟨document, ⟨member, inKb⟩, rfl, joined⟩
    · rintro ⟨document, ⟨member, inKb⟩, rfl, joined⟩
      exact ⟨document, ⟨member, inKb, joined⟩, rfl⟩
  · contradiction

end Planned

theorem Pushed.exists_plan (pushed : Pushed python kbIds filters logic) :
    ∃ plan, Planned python filters logic plan := by
  have each : ∀ condition ∈ filters, ∃ filter, translate python condition = .ok filter := by
    intro condition member
    obtain ⟨filter, translated, _⟩ := (pushed.accepted condition member).translated
    exact ⟨filter, translated⟩
  obtain ⟨translated, isTranslated⟩ := Fallible.exists_map_ok each
  have supported : ∀ condition ∈ filters, Supported condition := fun condition member =>
    (pushed.accepted condition member).toSupported
  exact ⟨⟨logic, translated⟩, supported, rfl, pushed.known, isTranslated, pushed.hasFilters⟩

theorem exists_plan_of_eq_some {selected : List DocId}
    (answered : filterDocIdsByMetaPushdown python es index kbIds filters logic = some selected) :
    kbIds ≠ [] ∧ ∃ plan, Planned python filters logic plan := by
  unfold filterDocIdsByMetaPushdown at answered
  by_cases absent : kbIds = [] ∨ filters = []
  · rw [if_pos absent] at answered
    contradiction
  obtain ⟨hasKbs, hasFilters⟩ := not_or.mp absent
  by_cases supported : isPushdownSupported filters = true
  · rw [if_neg absent, if_pos supported] at answered
    cases isQuery : buildMetaFilterQuery python filters logic kbIds with
    | error reason => simp [isQuery] at answered
    | ok query =>
      obtain ⟨plan, isPlan, _⟩ := Fallible.bind_eq_ok.mp isQuery
      obtain ⟨known, sameLogic, each⟩ := planPushdown_eq_ok.mp isPlan
      exact ⟨hasKbs, plan, isPushdownSupported_iff.mp supported, sameLogic, known, each,
        hasFilters⟩
  · rw [if_neg absent, if_neg supported] at answered
    contradiction

theorem filterDocIds_isSome_iff :
    (filterDocIdsByMetaPushdown python es index kbIds filters logic).isSome = true ↔
      Pushed python kbIds filters logic := by
  constructor
  · intro isSome
    obtain ⟨selected, answered⟩ := Option.isSome_iff_exists.mp isSome
    obtain ⟨hasKbs, plan, planned⟩ := exists_plan_of_eq_some answered
    rw [planned.filterDocIds_eq es index hasKbs, Elasticsearch.search] at answered
    have accepted : (plan.toQuery kbIds).leaves.all Elasticsearch.accepts = true := by
      by_contra refused
      rw [if_neg refused] at answered
      contradiction
    exact ⟨hasKbs, planned.nonempty, planned.known, (planned.accepts_iff kbIds).mp accepted⟩
  · intro pushed
    obtain ⟨plan, planned⟩ := pushed.exists_plan
    rw [planned.filterDocIds_eq es index pushed.hasKbs, Elasticsearch.search,
      if_pos ((planned.accepts_iff kbIds).mpr pushed.accepted)]
    rfl

theorem mem_filterDocIds {selected : List DocId}
    (answered : filterDocIdsByMetaPushdown python es index kbIds filters logic = some selected)
    (doc : DocId) :
    doc ∈ selected ↔ ∃ document ∈ index.inKbs kbIds, doc = document.id ∧
      Joined logic filters fun condition => Found python es condition document := by
  obtain ⟨hasKbs, plan, planned⟩ := exists_plan_of_eq_some answered
  rw [planned.filterDocIds_eq es index hasKbs] at answered
  exact planned.mem_search_iff answered doc

theorem mem_conditionIds_iff {condition : Condition (PyValue Object)}
    (supported : Supported condition) (doc : DocId) :
    doc ∈ conditionIds (filterOut python) (getFlattedMetaByKbs index kbIds) condition ↔
      ∃ document ∈ index.inKbs kbIds, doc = document.id ∧
        Kept python index kbIds condition document := by
  obtain ⟨operator, named⟩ := supported.exists_operator
  have isOperator : operatorOf condition.op = some operator := by
    rw [← named, operatorOf_name]
  simp only [mem_conditionIds, ← named, exists_filterStep_iff]
  simp [Kept, reached, isOperator, named]

theorem mem_metaFilter_iff (supported : ∀ condition ∈ filters, Supported condition)
    (hasFilters : filters ≠ []) (known : logic = "and" ∨ logic = "or") (doc : DocId) :
    doc ∈ metaFilter (filterOut python) (getFlattedMetaByKbs index kbIds) filters logic ↔
      ∃ document ∈ index.inKbs kbIds, doc = document.id ∧
        Joined logic filters fun condition => Kept python index kbIds condition document := by
  have kept : ∀ condition ∈ filters,
      (doc ∈ conditionIds (filterOut python) (getFlattedMetaByKbs index kbIds) condition ↔
        ∃ document ∈ index.inKbs kbIds, doc = document.id ∧
          Kept python index kbIds condition document) :=
    fun condition member => mem_conditionIds_iff (supported condition member) doc
  rcases known with rfl | rfl
  · rw [mem_metaFilter_and hasFilters]
    simp only [Joined, String.reduceEq, if_false]
    constructor
    · intro all
      obtain ⟨condition, member⟩ := List.exists_mem_of_ne_nil filters hasFilters
      obtain ⟨document, inKbs, isDoc, _⟩ := (kept condition member).mp (all condition member)
      refine ⟨document, inKbs, isDoc, fun other otherMember => ?_⟩
      obtain ⟨second, inKbs', isDoc', keptBy⟩ := (kept other otherMember).mp (all other otherMember)
      -- The conditions keep the same document, since documents have different ids.
      exact eq_of_id_eq inKbs' inKbs (isDoc'.symm.trans isDoc) ▸ keptBy
    · rintro ⟨document, inKbs, isDoc, all⟩ condition member
      exact (kept condition member).mpr ⟨document, inKbs, isDoc, all condition member⟩
  · rw [mem_metaFilter_or (by decide)]
    simp only [Joined, if_true]
    constructor
    · rintro ⟨condition, member, isKept⟩
      obtain ⟨document, inKbs, isDoc, keptBy⟩ := (kept condition member).mp isKept
      exact ⟨document, inKbs, isDoc, condition, member, keptBy⟩
    · rintro ⟨document, inKbs, isDoc, condition, member, keptBy⟩
      exact ⟨condition, member, (kept condition member).mpr ⟨document, inKbs, isDoc, keptBy⟩⟩

/-- When both sides decide alike about a document with the given values. -/
def ExactOn (python : Python Object) (es : Elasticsearch) (operator : Operator)
    (value : PyValue Object) (reached : String → PyValue Object) (values : List Scalar) : Prop :=
  match operator with
  | .empty => values ≠ []
  | .notEmpty => Scalar.blank ∈ values → ∀ stored ∈ values, stored = Scalar.blank
  | .notContains => values ≠ [] →
      ((∃ stored ∈ values, MatchesIndexed python es .contains value stored) ↔
        (value.isStr = true → ∀ stored ∈ values, MatchesListed python .contains value stored))
  | .value op =>
    (∃ stored ∈ values, MatchesIndexed python es op value stored) ↔
      ∃ stored ∈ values, MatchesListed python op (op.compared value (reached stored.text)) stored

theorem exactOn_iff {operator : Operator} {value : PyValue Object}
    {reached : String → PyValue Object} {values : List Scalar} :
    ExactOn python es operator value reached values ↔
      (FoundInIndex python es operator value values ↔
        KeptInMemory python operator value reached values) := by
  cases operator with
  | empty =>
    by_cases missing : values = []
    · simp [ExactOn, FoundInIndex, KeptInMemory, missing]
    · simp [ExactOn, FoundInIndex, KeptInMemory, missing]
  | notEmpty =>
    by_cases missing : values = []
    · simp [ExactOn, FoundInIndex, KeptInMemory, missing]
    · obtain ⟨stored, member⟩ := List.exists_mem_of_ne_nil values missing
      simp only [ExactOn, FoundInIndex, KeptInMemory, ne_eq, missing, not_false_eq_true,
        true_and]
      grind
  | notContains =>
    by_cases missing : values = []
    · simp [ExactOn, FoundInIndex, KeptInMemory, missing]
    · simp only [ExactOn, FoundInIndex, KeptInMemory, ne_eq, missing, not_false_eq_true,
        true_and]
      grind
  | value op => rfl

/-- Both sides decide alike about a document by a condition. -/
def Exact (python : Python Object) (es : Elasticsearch) (index : MetaIndex) (kbIds : List String)
    (condition : Condition (PyValue Object)) (document : Document) : Prop :=
  ∀ operator ∈ operatorOf condition.op,
    ExactOn python es operator condition.value (reached python index kbIds condition)
      (document.values condition.key)

theorem Supported.exact_iff {condition : Condition (PyValue Object)}
    (supported : Supported condition) (document : Document) :
    Exact python es index kbIds condition document ↔
      (Found python es condition document ↔ Kept python index kbIds condition document) := by
  obtain ⟨operator, named⟩ := supported.exists_operator
  have isOperator : operatorOf condition.op = some operator := by
    rw [← named, operatorOf_name]
  simp [Exact, Found, Kept, isOperator, exactOn_iff]

/-- The other conditions decide about a document, and they do so on both sides. -/
def Hidden (python : Python Object) (es : Elasticsearch) (index : MetaIndex) (kbIds : List String)
    (filters : List (Condition (PyValue Object))) (logic : String) (document : Document) : Prop :=
  if logic = "or" then
    (∃ condition ∈ filters, Found python es condition document) ∧
      ∃ condition ∈ filters, Kept python index kbIds condition document
  else
    (∃ condition ∈ filters, ¬ Found python es condition document) ∧
      ∃ condition ∈ filters, ¬ Kept python index kbIds condition document

/-- What is pushed down selects the documents that the in-memory filter selects. -/
def Agrees (python : Python Object) (es : Elasticsearch) (index : MetaIndex) (kbIds : List String)
    (filters : List (Condition (PyValue Object))) (logic : String) : Prop :=
  ∀ selected ∈ filterDocIdsByMetaPushdown python es index kbIds filters logic, ∀ doc,
    doc ∈ selected ↔
      doc ∈ metaFilter (filterOut python) (getFlattedMetaByKbs index kbIds) filters logic

theorem joined_iff_joined (supported : ∀ condition ∈ filters, Supported condition)
    (document : Document) :
    (Joined logic filters (fun condition => Found python es condition document) ↔
        Joined logic filters fun condition => Kept python index kbIds condition document) ↔
      (∀ condition ∈ filters, Exact python es index kbIds condition document) ∨
        Hidden python es index kbIds filters logic document := by
  have exact_iff : ∀ condition ∈ filters, (Exact python es index kbIds condition document ↔
      (Found python es condition document ↔ Kept python index kbIds condition document)) :=
    fun condition member => (supported condition member).exact_iff document
  rw [forall₂_congr exact_iff]
  unfold Joined Hidden
  by_cases either : logic = "or"
  · simp only [either, if_true]
    grind
  · simp only [either, if_false]
    grind

/-- Python on ASCII, with no literals but the ones that look like none. -/
def asciiPython : Python Empty where
  lower text := String.ofList (text.toList.map Char.toLower)
  lower_lower text := by simp [Function.comp_def]
  lower_eq_empty text := by simp
  isDigit := Char.isDigit
  isDecimal := Char.isDigit
  literalEval _ := none
  repr _ := "None"
  compareObjects comparison _ _ := comparison.mixed
  isMember _ _ := none

def wordEngine : Elasticsearch where
  analyze text := [text]
  numberText number := number.text

def taggedIndex : MetaIndex where
  documents :=
    [{ id := "doc1", kbId := "kb"
       metaFields :=
        { items := [("tags", .list [some (.str "red"), some (.str "blue")])]
          nodup := by simp } }]
  nodup := by simp

def noAuthor : Condition (PyValue Empty) where
  key := "author"
  op := "empty"
  value := .none

def notRed : Condition (PyValue Empty) where
  key := "tags"
  op := "not contains"
  value := .scalar (.str "red")

end RagFlow.Metadata
