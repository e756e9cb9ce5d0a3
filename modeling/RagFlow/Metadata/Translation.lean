import RagFlow.Lib.Fallible
import RagFlow.Metadata.EsFilter

/-!
# What an operator selects

For each operator that is pushed down, what a document has to store for the translated clauses to
find it, and what it has to store for the loop over the flattened metadata to keep it.
-/

namespace RagFlow.Metadata

open RagFlow.Lib

variable {Object : Type}

inductive ValueOp where
  | equal
  | order (op : OrderOp)
  | isIn | contains | startWith | endWith
  deriving DecidableEq

inductive Operator where
  | empty | notEmpty | notContains
  | value (op : ValueOp)
  deriving DecidableEq

def OrderOp.name : OrderOp → String
  | .gt => ">"
  | .lt => "<"
  | .ge => "≥"
  | .le => "≤"

def ValueOp.name : ValueOp → String
  | .equal => "="
  | .order op => op.name
  | .isIn => "in"
  | .contains => "contains"
  | .startWith => "start with"
  | .endWith => "end with"

def Operator.name : Operator → String
  | .empty => "empty"
  | .notEmpty => "not empty"
  | .notContains => "not contains"
  | .value op => op.name

def operatorOf (op : String) : Option Operator :=
  if op = "empty" then some .empty
  else if op = "not empty" then some .notEmpty
  else if op = "not contains" then some .notContains
  else if op = "=" then some (.value .equal)
  else if op = "in" then some (.value .isIn)
  else if op = "contains" then some (.value .contains)
  else if op = "start with" then some (.value .startWith)
  else if op = "end with" then some (.value .endWith)
  else (rangeOps op).map fun op => .value (.order op)

@[simp] theorem operatorOf_name (operator : Operator) :
    operatorOf operator.name = some operator := by
  rcases operator with _ | _ | _ | (_ | op | _ | _ | _ | _)
  case value.order => cases op <;> rfl
  all_goals rfl

theorem exists_operator_iff (op : String) :
    (∃ operator : Operator, operator.name = op) ↔
      op ∈ supportedOperators ∧ op ∉ multivalueUnsafeNegativeOps := by
  constructor
  · rintro ⟨operator, rfl⟩
    rcases operator with _ | _ | _ | (_ | op | _ | _ | _ | _)
    case value.order => cases op <;> decide
    all_goals decide
  · simp only [supportedOperators, multivalueUnsafeNegativeOps, List.mem_cons, List.not_mem_nil,
      or_false, not_or]
    rintro ⟨supported, notEqual, notIn⟩
    rcases supported with rfl | rfl | rfl | rfl | rfl | rfl | rfl | rfl | rfl | rfl | rfl | rfl |
      rfl | rfl
    · exact ⟨.value .equal, rfl⟩
    · contradiction
    · exact ⟨.value (.order .gt), rfl⟩
    · exact ⟨.value (.order .lt), rfl⟩
    · exact ⟨.value (.order .ge), rfl⟩
    · exact ⟨.value (.order .le), rfl⟩
    · exact ⟨.value .isIn, rfl⟩
    · contradiction
    · exact ⟨.value .contains, rfl⟩
    · exact ⟨.notContains, rfl⟩
    · exact ⟨.value .startWith, rfl⟩
    · exact ⟨.value .endWith, rfl⟩
    · exact ⟨.empty, rfl⟩
    · exact ⟨.notEmpty, rfl⟩

namespace TranslatedFilter

variable {filter : TranslatedFilter Object} {holds : Clause Object → Bool}

def leaves (filter : TranslatedFilter Object) : List (Clause Object) :=
  (filter.must ++ filter.mustNot).flatMap BoolQuery.leaves

def Selects (holds : Clause Object → Bool) (filter : TranslatedFilter Object) : Prop :=
  (∀ query ∈ filter.must, query.eval holds = true) ∧
    ∀ query ∈ filter.mustNot, query.eval holds = false

def clause (filter : TranslatedFilter Object) : Query Object :=
  filter.toClauses.headD (.bool [] [] [] [] 0)

theorem clause_spec (positive : filter.must ≠ []) :
    filter.toClauses = [filter.clause] ∧ filter.clause.leaves = filter.leaves ∧
      ∀ holds, filter.clause.eval holds = true ↔ filter.Selects holds := by
  have nonempty : filter.must.isEmpty = false := by simpa using positive
  unfold clause toClauses leaves Selects
  by_cases negative : filter.mustNot = []
  · by_cases single : filter.must.length = 1
    · obtain ⟨query, isQuery⟩ := List.length_eq_one_iff.mp single
      simp [negative, isQuery]
    · simp [negative, nonempty, single]
  · have negative' : filter.mustNot.isEmpty = false := by simpa using negative
    simp [nonempty, negative']

end TranslatedFilter

namespace MetaFilterPushdownPlan

variable {plan : MetaFilterPushdownPlan Object}

def Selects (plan : MetaFilterPushdownPlan Object) (holds : Clause Object → Bool) : Prop :=
  if plan.logic = "or" then ∃ filter ∈ plan.translated, filter.Selects holds
  else ∀ filter ∈ plan.translated, filter.Selects holds

variable (nonempty : plan.translated ≠ [])
  (positive : ∀ filter ∈ plan.translated, filter.must ≠ [])

include positive in
theorem flatMap_toClauses :
    plan.translated.flatMap TranslatedFilter.toClauses =
      plan.translated.map TranslatedFilter.clause := by
  rw [List.map_eq_flatMap]
  apply List.flatMap_congr
  intro filter translated
  exact (TranslatedFilter.clause_spec (positive filter translated)).1

include nonempty positive in
theorem eval_toQuery (kbIds : List String) (holds : Clause Object → Bool) :
    (plan.toQuery kbIds).eval holds = true ↔
      holds (.terms .kbId (kbIds.map fun kbId => .scalar (.str kbId))) = true ∧
        plan.Selects holds := by
  have evaluated : ∀ filter ∈ plan.translated,
      (filter.clause.eval holds = true ↔ filter.Selects holds) := fun filter translated =>
    (TranslatedFilter.clause_spec (positive filter translated)).2.2 holds
  have translated : plan.translated.isEmpty = false := by simpa using nonempty
  unfold toQuery Selects
  rw [flatMap_toClauses positive]
  by_cases either : plan.logic = "or"
  · simp only [translated, Bool.false_eq_true, if_false, either, if_true, BoolQuery.eval_bool_zero,
      BoolQuery.eval_should, BoolQuery.eval_leaf, List.forall_mem_cons, List.not_mem_nil,
      List.mem_map, exists_exists_and_eq_and, false_implies, implies_true, and_true]
    exact and_congr_right fun _ => exists_congr fun filter => and_congr_right (evaluated filter)
  · simp only [translated, Bool.false_eq_true, if_false, either, BoolQuery.eval_bool_zero,
      BoolQuery.eval_leaf, List.forall_mem_cons, List.not_mem_nil, List.forall_mem_map,
      false_implies, implies_true, and_true, true_and]
    exact and_congr_right fun _ => forall₂_congr evaluated

include nonempty positive in
theorem mem_leaves_toQuery (kbIds : List String) (leaf : Clause Object) :
    leaf ∈ (plan.toQuery kbIds).leaves ↔
      leaf = .terms .kbId (kbIds.map fun kbId => .scalar (.str kbId)) ∨
        ∃ filter ∈ plan.translated, leaf ∈ filter.leaves := by
  have sameLeaves : ∀ filter ∈ plan.translated, filter.clause.leaves = filter.leaves :=
    fun filter translated => (TranslatedFilter.clause_spec (positive filter translated)).2.1
  have translated : plan.translated.isEmpty = false := by simpa using nonempty
  have joined : leaf ∈ (plan.translated.map TranslatedFilter.clause).flatMap BoolQuery.leaves ↔
      ∃ filter ∈ plan.translated, leaf ∈ filter.leaves := by
    rw [List.flatMap_map, List.flatMap_congr sameLeaves, List.mem_flatMap]
  unfold toQuery
  rw [flatMap_toClauses positive]
  by_cases either : plan.logic = "or"
  · simp [translated, either, ← joined]
  · simp [translated, either, ← joined]

end MetaFilterPushdownPlan

section Clauses

variable (python : Python Object) (es : Elasticsearch)

def EqualsIndexed (value : PyValue Object) (stored : Scalar) : Prop :=
  if value.isStr then
    ∃ text, stored = .str text ∧ Elasticsearch.termMatches es true value (.text text) = true
  else ∃ term ∈ es.analysedTerms stored, es.termMatches false value term = true

variable {es} {document : Document} {key : String}

@[simp] theorem eval_fieldExists :
    (fieldExists key : Query Object).eval (es.holds document) = true ↔
      document.values key ≠ [] := by
  simp [fieldExists, Elasticsearch.holds, Document.stored]

@[simp] theorem eval_fieldExists_eq_false :
    (fieldExists key : Query Object).eval (es.holds document) = false ↔
      document.values key = [] := by
  rw [← Bool.not_eq_true, eval_fieldExists, not_not]

theorem mem_termsOf_keyword {term : Term} :
    term ∈ es.termsOf document (.keyword key) ↔
      ∃ text, .str text ∈ document.values key ∧ term = .text text := by
  simp only [Elasticsearch.termsOf, List.mem_flatMap]
  constructor
  · rintro ⟨stored, member, isTerm⟩
    cases stored with
    | str text => exact ⟨text, member, by simpa [Elasticsearch.keywordTerms] using isTerm⟩
    | num number => simp [Elasticsearch.keywordTerms] at isTerm
    | bool truth => simp [Elasticsearch.keywordTerms] at isTerm
  · rintro ⟨text, member, rfl⟩
    exact ⟨.str text, member, by simp [Elasticsearch.keywordTerms]⟩

theorem any_termsOf_keyword {test : Term → Bool} :
    (es.termsOf document (.keyword key)).any test = true ↔
      ∃ text, .str text ∈ document.values key ∧ test (.text text) = true := by
  simp only [List.any_eq_true, mem_termsOf_keyword]
  constructor
  · rintro ⟨_, ⟨text, member, rfl⟩, matched⟩
    exact ⟨text, member, matched⟩
  · rintro ⟨text, member, matched⟩
    exact ⟨_, ⟨text, member, rfl⟩, matched⟩

theorem any_termsOf_parent {test : Term → Bool} :
    (es.termsOf document (.parent key)).any test = true ↔
      ∃ stored ∈ document.values key, ∃ term ∈ es.analysedTerms stored, test term = true := by
  simp only [List.any_eq_true, Elasticsearch.termsOf, List.mem_flatMap]
  constructor
  · rintro ⟨term, ⟨stored, member, isTerm⟩, matched⟩
    exact ⟨stored, member, term, isTerm, matched⟩
  · rintro ⟨stored, member, term, isTerm, matched⟩
    exact ⟨term, ⟨stored, member, isTerm⟩, matched⟩

@[simp] theorem eval_blankTerm :
    (blankTerm key : Query Object).eval (es.holds document) = true ↔
      Scalar.blank ∈ document.values key := by
  have isBlank : ∀ text,
      es.termMatches false (.scalar Scalar.blank : PyValue Object) (.text text) = true ↔
        text = "" := by
    intro text
    rw [Elasticsearch.termMatches, decide_eq_true_eq, eq_comm]
    simp [folded]
  simp only [blankTerm, BoolQuery.eval_leaf, Elasticsearch.holds, any_termsOf_keyword, isBlank]
  simp

@[simp] theorem eval_blankTerm_eq_false :
    (blankTerm key : Query Object).eval (es.holds document) = false ↔
      Scalar.blank ∉ document.values key := by
  rw [← Bool.not_eq_true, eval_blankTerm]

@[simp] theorem eval_termOrMatch {value : PyValue Object} :
    (termOrMatch key value).eval (es.holds document) = true ↔
      ∃ stored ∈ document.values key, EqualsIndexed es value stored := by
  unfold termOrMatch EqualsIndexed
  by_cases text : value.isStr = true
  · simp only [text, if_true, BoolQuery.eval_leaf, Elasticsearch.holds, any_termsOf_keyword]
    constructor
    · rintro ⟨other, member, matched⟩
      exact ⟨_, member, other, rfl, matched⟩
    · rintro ⟨_, member, other, rfl, matched⟩
      exact ⟨other, member, matched⟩
  · simp only [text, Bool.false_eq_true, if_false, BoolQuery.eval_leaf, Elasticsearch.holds,
      any_termsOf_parent]

@[simp] theorem eval_termsStringOrNumeric {members : List (PyValue Object)} :
    (termsStringOrNumeric key members).eval (es.holds document) = true ↔
      ∃ stored ∈ document.values key, ∃ member ∈ members, EqualsIndexed es member stored := by
  unfold termsStringOrNumeric
  by_cases numeric : (members.all fun member => !member.isStr) = true
  · have noText : ∀ member ∈ members, ¬ member.isStr = true := by
      simpa using numeric
    simp only [numeric, if_true, BoolQuery.eval_leaf, Elasticsearch.holds]
    rw [any_termsOf_parent]
    simp only [List.any_eq_true]
    constructor
    · rintro ⟨stored, isStored, term, isTerm, member, isMember, matched⟩
      refine ⟨stored, isStored, member, isMember, ?_⟩
      rw [EqualsIndexed, if_neg (noText member isMember)]
      exact ⟨term, isTerm, matched⟩
    · rintro ⟨stored, isStored, member, isMember, equal⟩
      rw [EqualsIndexed, if_neg (noText member isMember)] at equal
      obtain ⟨term, isTerm, matched⟩ := equal
      exact ⟨stored, isStored, term, isTerm, member, isMember, matched⟩
  · simp only [if_neg numeric, BoolQuery.eval_should, List.mem_map, exists_exists_and_eq_and,
      eval_termOrMatch]
    constructor
    · rintro ⟨member, isMember, stored, isStored, equal⟩
      exact ⟨stored, isStored, member, isMember, equal⟩
    · rintro ⟨stored, isStored, member, isMember, equal⟩
      exact ⟨member, isMember, stored, isStored, equal⟩

theorem escapeWildcard_eq (text : String) :
    escapeWildcard text = Wildcard.escape text.toList := by
  unfold escapeWildcard Wildcard.escape
  simp only [PyString.replace_singleton, List.flatMap_assoc]
  apply List.flatMap_congr
  intro char _
  by_cases backslash : char = '\\'
  · subst backslash
    decide
  by_cases star : char = '*'
  · subst star
    decide
  by_cases question : char = '?'
  · subst question
    decide
  simp [Wildcard.escapeChar, Wildcard.special, backslash, star, question]

theorem eval_wildcard {pattern : List Char} :
    (wildcard key pattern : Query Object).eval (es.holds document) = true ↔
      ∃ text, .str text ∈ document.values key ∧
        Wildcard.matchText (foldCase true) pattern text.toList = true := by
  simp only [wildcard, BoolQuery.eval_leaf, Elasticsearch.holds, any_termsOf_keyword,
    Elasticsearch.textTerm]

theorem eval_wildcard_contains {text : String} :
    (wildcard key ('*' :: (escapeWildcard text ++ ['*'])) : Query Object).eval
        (es.holds document) = true ↔
      ∃ stored ∈ document.values key,
        ∃ other, stored = .str other ∧ folded true text <:+: folded true other := by
  rw [eval_wildcard]
  simp only [escapeWildcard_eq, Wildcard.matchText_star_escape_star, folded]
  constructor
  · rintro ⟨other, member, infix_⟩
    exact ⟨_, member, other, rfl, infix_⟩
  · rintro ⟨_, member, other, rfl, infix_⟩
    exact ⟨other, member, infix_⟩

theorem eval_wildcard_endWith {text : String} :
    (wildcard key ('*' :: escapeWildcard text) : Query Object).eval (es.holds document) = true ↔
      ∃ stored ∈ document.values key,
        ∃ other, stored = .str other ∧ folded true text <:+ folded true other := by
  rw [eval_wildcard]
  simp only [escapeWildcard_eq, Wildcard.matchText_star_escape, folded]
  constructor
  · rintro ⟨other, member, ends⟩
    exact ⟨_, member, other, rfl, ends⟩
  · rintro ⟨_, member, other, rfl, ends⟩
    exact ⟨other, member, ends⟩

theorem holds_startsWith {text : String} :
    es.holds document (.startsWith (.keyword key) text true : Clause Object) = true ↔
      ∃ stored ∈ document.values key,
        ∃ other, stored = .str other ∧ folded true text <+: folded true other := by
  simp only [Elasticsearch.holds, any_termsOf_keyword, Elasticsearch.textTerm, decide_eq_true_eq]
  constructor
  · rintro ⟨other, member, starts⟩
    exact ⟨_, member, other, rfl, starts⟩
  · rintro ⟨_, member, other, rfl, starts⟩
    exact ⟨other, member, starts⟩

theorem holds_range {op : OrderOp} {bound : PyValue Object} :
    es.holds document (.range (.parent key) op bound) = true ↔
      ∃ stored ∈ document.values key,
        ∃ term ∈ es.analysedTerms stored, es.rangeMatches op bound term = true := by
  simp only [Elasticsearch.holds, any_termsOf_parent]

def MatchesIndexed (es : Elasticsearch) (op : ValueOp) (value : PyValue Object)
    (stored : Scalar) : Prop :=
  match op with
  | .equal => ∃ coerced, coerceScalar python value = .ok coerced ∧ EqualsIndexed es coerced stored
  | .order op => ∃ bound, coerceRangeValue python value = .ok bound ∧
      ∃ term ∈ es.analysedTerms stored, es.rangeMatches op bound term = true
  | .isIn => ∃ members, csvOrList python value = .ok members ∧
      ∃ member ∈ members, EqualsIndexed es member stored
  | .contains => ∃ text, stored = .str text ∧ folded true (python.str value) <:+: folded true text
  | .startWith => ∃ text, stored = .str text ∧ folded true (python.str value) <+: folded true text
  | .endWith => ∃ text, stored = .str text ∧ folded true (python.str value) <:+ folded true text

/-- What a document with the given values has to store for the query to find it. -/
def FoundInIndex (es : Elasticsearch) (operator : Operator) (value : PyValue Object)
    (values : List Scalar) : Prop :=
  match operator with
  | .empty => values = [] ∨ Scalar.blank ∈ values
  | .notEmpty => values ≠ [] ∧ Scalar.blank ∉ values
  | .notContains => values ≠ [] ∧
      ¬ ∃ stored ∈ values, MatchesIndexed python es .contains value stored
  | .value op => ∃ stored ∈ values, MatchesIndexed python es op value stored

def translateOperator (operator : Operator) (key : String) (value : PyValue Object) :
    Except UnsupportedMetaFilter (TranslatedFilter Object) :=
  match operator with
  | .empty => .ok (translateEmpty key)
  | .notEmpty => .ok (translateNotEmpty key)
  | .notContains => translateNotContains python key value
  | .value .equal => translateEqual python key value
  | .value (.order op) => translateRange python key op value
  | .value .isIn => translateIn python key value
  | .value .contains => translateContains python key value
  | .value .startWith => translateStartWith python key value
  | .value .endWith => translateEndWith python key value

theorem translate_eq {condition : Condition (PyValue Object)} {operator : Operator}
    (named : operator.name = condition.op) (hasKey : condition.key ≠ "") :
    translate python condition =
      translateOperator python operator condition.key condition.value := by
  obtain ⟨key, op, value⟩ := condition
  subst named
  have supported : operator.name ∈ supportedOperators :=
    ((exists_operator_iff _).mp ⟨operator, rfl⟩).1
  unfold translate
  rw [if_neg hasKey, if_neg (not_not.mpr supported)]
  rcases operator with _ | _ | _ | (_ | op | _ | _ | _ | _)
  case value.order => cases op <;> rfl
  all_goals rfl

theorem coerceString_eq_ok {value : PyValue Object} {text : String}
    (coerced : coerceString python value = .ok text) : text = python.str value := by
  have nonblank : ∀ s : String,
      (if s = "" then Except.error UnsupportedMetaFilter.emptyText else .ok s) = .ok text →
        text = s := by
    intro s isText
    split at isText
    · contradiction
    · exact (Except.ok.inj isText).symm
  cases value with
  | scalar value => exact nonblank _ coerced
  | none => contradiction
  | list items => contradiction
  | tuple items => exact nonblank _ coerced
  | object object => contradiction

theorem translateOperator_spec {operator : Operator} {value : PyValue Object}
    {filter : TranslatedFilter Object}
    (translated : translateOperator python operator key value = .ok filter) :
    filter.must ≠ [] ∧ ∀ (es : Elasticsearch) (document : Document),
      filter.Selects (es.holds document) ↔
        FoundInIndex python es operator value (document.values key) := by
  rcases operator with _ | _ | _ | (_ | op | _ | _ | _ | _)
  case empty =>
    obtain rfl := Except.ok.inj translated
    simp [TranslatedFilter.Selects, FoundInIndex, translateEmpty]
  case notEmpty =>
    obtain rfl := Except.ok.inj translated
    simp [TranslatedFilter.Selects, FoundInIndex, translateNotEmpty]
  case notContains =>
    obtain ⟨text, coerced, rfl⟩ := Fallible.bind_eq_ok.mp translated
    obtain rfl := coerceString_eq_ok python coerced
    simp [TranslatedFilter.Selects, FoundInIndex, MatchesIndexed, ← Bool.not_eq_true,
      eval_wildcard_contains]
  case value.equal =>
    obtain ⟨value, coerced, rfl⟩ := Fallible.bind_eq_ok.mp translated
    simp [TranslatedFilter.Selects, FoundInIndex, MatchesIndexed, coerced]
  case value.order =>
    obtain ⟨bound, coerced, rfl⟩ := Fallible.bind_eq_ok.mp translated
    refine ⟨by simp, fun es document => ?_⟩
    simp only [TranslatedFilter.Selects, FoundInIndex, MatchesIndexed, coerced, Except.ok.injEq,
      List.forall_mem_cons, eval_fieldExists, BoolQuery.eval_leaf, holds_range, List.not_mem_nil,
      false_implies, implies_true, and_true, exists_eq_left']
    refine ⟨fun found => found.2, fun found => ⟨?_, found⟩⟩
    obtain ⟨stored, member, _⟩ := found
    exact List.ne_nil_of_mem member
  case value.isIn =>
    obtain ⟨members, coerced, rfl⟩ := Fallible.bind_eq_ok.mp translated
    simp [TranslatedFilter.Selects, FoundInIndex, MatchesIndexed, coerced]
  case value.contains =>
    obtain ⟨text, coerced, rfl⟩ := Fallible.bind_eq_ok.mp translated
    obtain rfl := coerceString_eq_ok python coerced
    simp [TranslatedFilter.Selects, FoundInIndex, MatchesIndexed, eval_wildcard_contains]
  case value.startWith =>
    obtain ⟨text, coerced, rfl⟩ := Fallible.bind_eq_ok.mp translated
    obtain rfl := coerceString_eq_ok python coerced
    simp [TranslatedFilter.Selects, FoundInIndex, MatchesIndexed, holds_startsWith]
  case value.endWith =>
    obtain ⟨text, coerced, rfl⟩ := Fallible.bind_eq_ok.mp translated
    obtain rfl := coerceString_eq_ok python coerced
    simp [TranslatedFilter.Selects, FoundInIndex, MatchesIndexed, eval_wildcard_endWith]

end Clauses

section Listed

variable (python : Python Object)

def MatchesListed (op : ValueOp) (value : PyValue Object) (stored : Scalar) : Prop :=
  match op with
  | .equal => (comparisonStep python .equal stored.text value).1 = true
  | .order op => (comparisonStep python (.order op) stored.text value).1 = true
  | .isIn =>
    isIn python (python.lower stored.text) (normalizeStringValues python value) = some true
  | .contains => ∃ text, value = .scalar (.str text) ∧
      (python.lower text).toList <:+: (python.lower stored.text).toList
  | .startWith => (python.lower (python.str (normalizeStringValues python value))).toList <+:
      (python.lower stored.text).toList
  | .endWith => (python.lower (python.str (normalizeStringValues python value))).toList <:+
      (python.lower stored.text).toList

/-- What a stored value is compared with: only comparisons change the value as they go. -/
def ValueOp.compared (op : ValueOp) (value reached : PyValue Object) : PyValue Object :=
  match op with
  | .equal => reached
  | .order _ => reached
  | _ => value

/-- What a document with the given values has to store for the loop to keep it, `reached` being
what the value of the condition has become when a text is reached. -/
def KeptInMemory (operator : Operator) (value : PyValue Object) (reached : String → PyValue Object)
    (values : List Scalar) : Prop :=
  match operator with
  | .empty => Scalar.blank ∈ values
  | .notEmpty => ∃ stored ∈ values, stored ≠ Scalar.blank
  | .notContains => value.isStr = true ∧
      ∃ stored ∈ values, ¬ MatchesListed python .contains value stored
  | .value op => ∃ stored ∈ values,
      MatchesListed python op (op.compared value (reached stored.text)) stored

variable {python}

theorem comparisonOf_order (op : OrderOp) : comparisonOf op.name = some (.order op) := by
  cases op <;> rfl

theorem filterStep_value {op : ValueOp} {value : PyValue Object} {stored : Scalar} :
    (filterStep python op.name stored.text value).1 = true ↔
      MatchesListed python op value stored := by
  cases op with
  | equal => rfl
  | order op => simp only [filterStep, ValueOp.name, comparisonOf_order, MatchesListed]
  | isIn => simp [filterStep, ValueOp.name, comparisonOf, textMatches, MatchesListed]
  | contains =>
    rcases value with (text | number | truth) | _ | items | items | object <;>
      simp [filterStep, ValueOp.name, comparisonOf, textMatches, MatchesListed, finds,
        normalizeStringValues, Python.lowerString]
  | startWith =>
    simp [filterStep, ValueOp.name, comparisonOf, textMatches, MatchesListed, python.lower_lower]
  | endWith =>
    simp [filterStep, ValueOp.name, comparisonOf, textMatches, MatchesListed, python.lower_lower]

theorem filterStep_notContains {value : PyValue Object} {stored : Scalar} :
    (filterStep python "not contains" stored.text value).1 = true ↔
      value.isStr = true ∧ ¬ MatchesListed python .contains value stored := by
  rcases value with (text | number | truth) | _ | items | items | object <;>
    simp [filterStep, comparisonOf, textMatches, MatchesListed, finds, normalizeStringValues,
      Python.lowerString, PyValue.isStr, Scalar.isStr]

theorem filterStep_empty {value : PyValue Object} {stored : Scalar} :
    (filterStep python "empty" stored.text value).1 = true ↔ stored = Scalar.blank := by
  simp [filterStep, comparisonOf, textMatches, python.lower_eq_empty]

theorem filterStep_notEmpty {value : PyValue Object} {stored : Scalar} :
    (filterStep python "not empty" stored.text value).1 = true ↔ stored ≠ Scalar.blank := by
  simp [filterStep, comparisonOf, textMatches, python.lower_eq_empty]

theorem exists_filterStep_iff {operator : Operator} {value : PyValue Object} {v2docs : V2Docs}
    {values : List Scalar} :
    (∃ stored ∈ values, (filterStep python operator.name stored.text
        (valueAt python v2docs operator.name value stored.text)).1 = true) ↔
      KeptInMemory python operator value (valueAt python v2docs operator.name value) values := by
  have unchanged : ∀ {op : String}, comparisonOf op = none → ∀ input,
      (filterStep python op input (valueAt python v2docs op value input)).1 =
        (filterStep python op input value).1 := fun text input =>
    filterStep_valueAfter text value _ input
  rcases operator with _ | _ | _ | op
  case empty =>
    have text : comparisonOf "empty" = none := rfl
    simp only [Operator.name, unchanged text, filterStep_empty, KeptInMemory, exists_eq_right]
  case notEmpty =>
    have text : comparisonOf "not empty" = none := rfl
    simp only [Operator.name, unchanged text, filterStep_notEmpty, KeptInMemory]
  case notContains =>
    have text : comparisonOf "not contains" = none := rfl
    simp only [Operator.name, unchanged text, filterStep_notContains, KeptInMemory]
    constructor
    · rintro ⟨stored, member, isText, unmatched⟩
      exact ⟨isText, stored, member, unmatched⟩
    · rintro ⟨isText, stored, member, unmatched⟩
      exact ⟨stored, member, isText, unmatched⟩
  case value =>
    have compared : ∀ stored : Scalar,
        (filterStep python op.name stored.text
          (valueAt python v2docs op.name value stored.text)).1 = true ↔
        MatchesListed python op (op.compared value
          (valueAt python v2docs op.name value stored.text)) stored := by
      intro stored
      cases op with
      | equal => exact filterStep_value
      | order op => exact filterStep_value
      | isIn => rw [unchanged rfl, filterStep_value]; rfl
      | contains => rw [unchanged rfl, filterStep_value]; rfl
      | startWith => rw [unchanged rfl, filterStep_value]; rfl
      | endWith => rw [unchanged rfl, filterStep_value]; rfl
    simp only [Operator.name, compared, KeptInMemory]

end Listed

end RagFlow.Metadata
