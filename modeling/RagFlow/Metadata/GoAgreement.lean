import RagFlow.Lib.Fallible
import RagFlow.Metadata.GoFilter
import RagFlow.Metadata.Pushdown

/-!
# The Go filter against the Python filter

Where the two servers read the values of an index and of a request alike, they select the same
documents.
-/

namespace RagFlow.Metadata

open RagFlow.Lib

variable {Object : Type}

inductive Kind where
  | text | number | container | object
  deriving DecidableEq

def PyValue.kind : PyValue Object → Kind
  | .scalar (.str _) => .text
  | .scalar _ => .number
  | .object _ => .object
  | _ => .container

def Kind.unlike : Kind → Kind → Bool
  | .number, .object => false
  | .object, .number => false
  | left, right => left ≠ right

/-- What Python documents of the parameters. -/
structure Python.Documented (python : Python Object) : Prop where
  digit : ∀ char, Char.isDigit char = true → python.isDigit char = true
  unlike : ∀ comparison left right, left.kind.unlike right.kind = true →
    python.compareObjects comparison left right = comparison.mixed

section Compared

variable {python : Python Object}

@[simp] theorem kind_lowerString (value : PyValue Object) :
    (python.lowerString value).kind = value.kind := by
  rcases value with (text | number | truth) | _ | items | items | object <;> rfl

theorem compare_of_unlike (documented : python.Documented) {comparison : Comparison}
    {left right : PyValue Object} (unlike : left.kind.unlike right.kind = true) :
    python.compare comparison left right = comparison.mixed := by
  cases left with
  | scalar left =>
    cases right with
    | scalar right =>
      cases left <;> cases right <;> first | rfl | simp [PyValue.kind, Kind.unlike] at unlike
    | _ => exact documented.unlike comparison _ _ unlike
  | _ => exact documented.unlike comparison _ _ unlike

theorem exists_of_isDate {digit : Char → Bool} {text : String} (date : isDate digit text = true) :
    ∃ y1 y2 y3 y4 m1 m2 d1 d2, text.toList = [y1, y2, y3, y4, '-', m1, m2, '-', d1, d2] ∧
      ∀ char ∈ [y1, y2, y3, y4, m1, m2, d1, d2], digit char = true := by
  unfold isDate at date
  split at date
  · next y1 y2 y3 y4 m1 m2 d1 d2 chars =>
      exact ⟨y1, y2, y3, y4, m1, m2, d1, d2, chars, List.all_eq_true.mp date⟩
  · contradiction

theorem isSpace_of_isDigit {char : Char} (digit : Char.isDigit char = true) :
    PyString.isSpace char = false := by
  have bounds : 48 ≤ char.toNat ∧ char.toNat ≤ 57 := by
    simp only [Char.isDigit, Bool.and_eq_true, decide_eq_true_eq] at digit
    exact ⟨UInt32.le_iff_toNat_le.mp digit.1, UInt32.le_iff_toNat_le.mp digit.2⟩
  simp only [PyString.isSpace, Bool.or_eq_false_iff, Bool.and_eq_false_iff, decide_eq_false_iff_not]
  omega

theorem strip_of_isDate {text : String} (date : isDate Char.isDigit text = true) :
    PyString.strip text = text := by
  obtain ⟨y1, y2, y3, y4, m1, m2, d1, d2, chars, digits⟩ := exists_of_isDate date
  have dash : PyString.isSpace '-' = false := by decide
  apply PyString.strip_of_forall
  intro char member
  rw [chars] at member
  by_cases isDash : char = '-'
  · rw [isDash]
    exact dash
  · apply isSpace_of_isDigit
    apply digits
    simp only [List.mem_cons, isDash, false_or] at member ⊢
    exact member

theorem isDate_of_isDate (documented : python.Documented) {text : String}
    (date : isDate Char.isDigit text = true) :
    isDate python.isDigit (PyString.strip text) = true := by
  rw [strip_of_isDate date]
  obtain ⟨y1, y2, y3, y4, m1, m2, d1, d2, chars, digits⟩ := exists_of_isDate date
  simp only [isDate, chars, List.all_eq_true]
  exact fun char member => documented.digit char (digits char member)

end Compared

section Alike

variable (python : Python Object) (go : GoLibrary)

def GoLibrary.NotNumbers (input text : String) : Prop :=
  go.parseFloat input = none ∨ go.parseFloat text = none

def GoLibrary.Apart (comparison : Comparison) (input text : String) : Prop :=
  comparison.holds (go.lower input) (go.lower text) = decide (comparison.mixed = some true)

/-- `input` and the condition's `text` mean the same to Go as what Python reads from them, `left`
and `right`. -/
inductive ReadAlike (comparison : Comparison) (input text : String) :
    PyValue Object → PyValue Object → Prop
  | numbers {left right : Number} (input_eq : go.parseFloat input = some (.finite left.value))
      (text_eq : go.parseFloat text = some (.finite right.value)) :
      ReadAlike comparison input text (.scalar (.num left)) (.scalar (.num right))
  | truths {left right : Bool} (notNumbers : go.NotNumbers input text)
      (input_eq : go.lower input = if left then "true" else "false")
      (text_eq : go.lower text = if right then "true" else "false") :
      ReadAlike comparison input text (.scalar (.bool left)) (.scalar (.bool right))
  | texts {left right : String} (notNumbers : go.NotNumbers input text)
      (input_eq : go.lower input = python.lower left)
      (text_eq : go.lower text = python.lower right) :
      ReadAlike comparison input text (.scalar (.str left)) (.scalar (.str right))
  | unlike {left right : PyValue Object} (notNumbers : go.NotNumbers input text)
      (unlike : left.kind.unlike right.kind = true) (apart : go.Apart comparison input text) :
      ReadAlike comparison input text left right

/-- A comparison of `input` with the condition's `value`, of which Python's loop has made
`current`. -/
inductive ComparedAlike (comparison : Comparison) (value current : PyValue Object)
    (input : String) : Prop
  | dates (isString : current = .scalar (.str (go.toString value)))
      (valueDate : isDate Char.isDigit (go.toString value) = true)
      (inputDate : isDate Char.isDigit input = true)
  | date (isString : current = .scalar (.str (go.toString value)))
      (valueDate : isDate Char.isDigit (go.toString value) = true)
      (noDate : isDate python.isDigit (PyString.strip input) = false)
      (notUnequal : comparison ≠ .notEqual)
  | noDate (valueNoDate : isDate Char.isDigit (go.toString value) = false)
      (currentNoDate : isDate python.isDigit (PyString.strip (python.str current)) = false)
      (read : ReadAlike python go comparison input (go.toString value)
        (readLiterals python input current).1 (readLiterals python input current).2)

/-- `contains` raises for a value that is no string, and then nothing is selected. -/
def FoundAlike (op input : String) : PyValue Object → Prop
  | .scalar (.str text) => go.lower text = python.lower text ∧ go.lower input = python.lower input
  | value => (go.lower (go.toString value)).toList <:+: (go.lower input).toList ↔
      op = "not contains"

def BorderedAlike (input : String) (value : PyValue Object) : Prop :=
  go.lower (go.toString value) =
      python.lower (python.str (normalizeStringValues python value)) ∧
    go.lower input = python.lower input

/-- For `in`, Python does not tell texts apart by case and Go does; Go selects nothing when the
value is no list. -/
def ListedAlike (op input : String) : PyValue Object → Prop
  | .list items => ∀ item ∈ items,
      (isText (python.lower input) (python.lowerString item) = true ↔
        if op = "in" then go.toString item = input
        else go.lower (go.toString item) = go.lower input)
  | value => isIn python (python.lower input) (normalizeStringValues python value) ≠
      some (decide (op = "in"))

structure MatchedAlike (op input : String) (value : PyValue Object) : Prop where
  found : op = "contains" ∨ op = "not contains" → FoundAlike python go op input value
  bordered : op = "start with" ∨ op = "end with" → BorderedAlike python go input value
  listed : op = "in" ∨ op = "not in" → ListedAlike python go op input value

def InputAlike (op : String) (value current : PyValue Object) (input : String) : Prop :=
  match comparisonOf op with
  | some comparison => ComparedAlike python go comparison value current input
  | none => MatchedAlike python go op input value

/-- All values of a key, in the order in which Python compares them. -/
def InputsAlike (op : String) (value : PyValue Object) : PyValue Object → List String → Prop
  | _, [] => True
  | current, input :: rest =>
    InputAlike python go op value current input ∧
      InputsAlike op value (filterStep python op input current).2 rest

/-- The conditions of a request have all their fields, and the values of their keys are read
alike. -/
structure FiltersAlike (metas : Metas) (metadataCondition : MetadataCondition (PyValue Object)) :
    Prop where
  logic : metadataCondition.logic ≠ some ""
  fields : ∀ raw ∈ metadataCondition.conditions,
    (∃ name, raw.name = some name ∧ name ≠ "") ∧
      (∃ op, raw.comparisonOperator = some op ∧ op ≠ "==") ∧ ∃ value, raw.value = some value
  inputs : ∀ raw ∈ metadataCondition.conditions, ∀ condition,
    convertCondition raw = some condition → ∀ v2docs, metas.get? condition.key = some v2docs →
      InputsAlike python go condition.op condition.value condition.value (v2docs.map Prod.fst)

def FiltersAgree (metas : Metas) (metadataCondition : MetadataCondition (PyValue Object)) : Prop :=
  ∃ docIds, pythonFilter (filterOut python) metas metadataCondition = some docIds ∧
    ∀ doc, doc ∈ go.filter metas metadataCondition ↔ doc ∈ docIds

end Alike

section Input

variable {python : Python Object} {go : GoLibrary} {comparison : Comparison} {op input : String}
  {value current : PyValue Object}

theorem ne_of_comparisonOf {other : String} (isComparison : comparisonOf op = some comparison)
    (isText : comparisonOf other = none) : op ≠ other := by
  rintro rfl
  rw [isText] at isComparison
  contradiction

theorem matchValue_comparison (isComparison : comparisonOf op = some comparison) :
    go.matchValue input op value = go.compareValues input (go.toString value) op := by
  have notText : ∀ other, comparisonOf other = none → op ≠ other :=
    fun other isText => ne_of_comparisonOf isComparison isText
  simp [GoLibrary.matchValue, notText "empty" rfl, notText "not empty" rfl, notText "contains" rfl,
    notText "not contains" rfl, notText "start with" rfl, notText "end with" rfl]

theorem compareValues_of_notNumbers {text : String}
    (isComparison : comparisonOf op = some comparison)
    (noDate : isDate Char.isDigit text = false) (notNumbers : go.NotNumbers input text) :
    go.compareValues input text op = comparison.holds (go.lower input) (go.lower text) := by
  unfold GoLibrary.compareValues GoLibrary.compareString
  rw [noDate, isComparison]
  rcases notNumbers with noInput | noText
  · simp [noInput]
  · cases go.parseFloat input <;> simp [noText]

theorem holds_truths (comparison : Comparison) (left right : Bool) :
    comparison.holds (if left then (1 : ℚ) else 0) (if right then 1 else 0) =
      comparison.holds (if left then "true" else "false") (if right then "true" else "false") := by
  rcases comparison with _ | _ | order
  · cases left <;> cases right <;> decide
  · cases left <;> cases right <;> decide
  · cases order <;> cases left <;> cases right <;> decide

theorem compare_of_readAlike (documented : python.Documented)
    (isComparison : comparisonOf op = some comparison) {text : String}
    (noDate : isDate Char.isDigit text = false) {left right : PyValue Object}
    (alike : ReadAlike python go comparison input text left right) :
    decide (python.compare comparison (python.lowerString left) (python.lowerString right) =
      some true) = go.compareValues input text op := by
  cases alike with
  | @numbers left right input_eq text_eq =>
    have compared : go.compareValues input text op = comparison.holds left.value right.value := by
      unfold GoLibrary.compareValues GoLibrary.compareFloat
      rw [noDate, input_eq, text_eq, isComparison]
      exact GoFloat.holds_finite left.value right.value comparison
    rw [compared]
    simp [Python.lowerString, Python.compare, Python.compareScalars, Scalar.number]
  | @truths left right notNumbers input_eq text_eq =>
    rw [compareValues_of_notNumbers isComparison noDate notNumbers, input_eq, text_eq,
      ← holds_truths]
    simp [Python.lowerString, Python.compare, Python.compareScalars, Scalar.number]
  | @texts left right notNumbers input_eq text_eq =>
    rw [compareValues_of_notNumbers isComparison noDate notNumbers, input_eq, text_eq]
    simp [Python.lowerString, Python.compare, Python.compareScalars]
  | unlike notNumbers unlike apart =>
    have mixed : python.compare comparison (python.lowerString left)
        (python.lowerString right) = comparison.mixed := by
      apply compare_of_unlike documented
      rw [kind_lowerString, kind_lowerString]
      exact unlike
    rw [compareValues_of_notNumbers isComparison noDate notNumbers, mixed]
    exact apart.symm

theorem comparisonStep_of_alike (documented : python.Documented)
    (isComparison : comparisonOf op = some comparison)
    (alike : ComparedAlike python go comparison value current input) :
    (comparisonStep python comparison input current).1 = go.matchValue input op value := by
  rw [matchValue_comparison isComparison]
  cases alike with
  | dates isString valueDate inputDate =>
    subst isString
    have pythonInput := isDate_of_isDate documented inputDate
    have pythonValue := isDate_of_isDate documented valueDate
    rw [strip_of_isDate inputDate] at pythonInput
    rw [strip_of_isDate valueDate] at pythonValue
    simp [comparisonStep, GoLibrary.compareValues, GoLibrary.compareString, isComparison,
      valueDate, inputDate, Scalar.text, pythonInput, pythonValue, strip_of_isDate inputDate, strip_of_isDate valueDate,
      Python.compare, Python.compareScalars]
  | date isString valueDate noDate notUnequal =>
    subst isString
    have pythonValue := isDate_of_isDate documented valueDate
    have goNoDate : isDate Char.isDigit input = false := by
      by_contra goDate
      rw [isDate_of_isDate documented (Bool.not_eq_false _ ▸ goDate)] at noDate
      contradiction
    have notUnequalOp : op ≠ "≠" := by
      rintro rfl
      exact notUnequal (Option.some.inj isComparison).symm
    simp [comparisonStep, GoLibrary.compareValues, valueDate, Scalar.text, pythonValue, noDate,
      goNoDate, notUnequalOp]
  | noDate valueNoDate currentNoDate read =>
    rw [← compare_of_readAlike documented isComparison valueNoDate read]
    simp [comparisonStep, currentNoDate]

theorem normalizeStringValues_str (text : String) :
    normalizeStringValues python (.scalar (.str text)) = .scalar (.str (python.lower text)) := rfl

theorem textMatches_found (isFound : op = "contains" ∨ op = "not contains")
    (alike : FoundAlike python go op input value) :
    textMatches python op (python.lower input) (normalizeStringValues python value) =
      go.matchValue input op value := by
  by_cases isString : ∃ text, value = .scalar (.str text)
  · obtain ⟨text, rfl⟩ := isString
    obtain ⟨value_eq, input_eq⟩ := alike
    rcases isFound with rfl | rfl <;>
      simp [textMatches, GoLibrary.matchValue, finds, GoLibrary.toString,
        normalizeStringValues_str, value_eq, input_eq]
  · have raises : finds (python.lower input) (normalizeStringValues python value) = none := by
      rcases value with (text | number | truth) | _ | items | items | object
      · exact absurd ⟨text, rfl⟩ isString
      all_goals rfl
    have occurs : (go.lower (go.toString value)).toList <:+: (go.lower input).toList ↔
        op = "not contains" := by
      rcases value with (text | number | truth) | _ | items | items | object
      · exact absurd ⟨text, rfl⟩ isString
      all_goals exact alike
    rcases isFound with rfl | rfl <;> simp [textMatches, GoLibrary.matchValue, raises, occurs]

theorem textMatches_bordered (isBordered : op = "start with" ∨ op = "end with")
    (alike : BorderedAlike python go input value) :
    textMatches python op (python.lower input) (normalizeStringValues python value) =
      go.matchValue input op value := by
  obtain ⟨value_eq, input_eq⟩ := alike
  rcases isBordered with rfl | rfl <;>
    simp [textMatches, GoLibrary.matchValue, value_eq, input_eq, python.lower_lower]

theorem textMatches_listed (isListed : op = "in" ∨ op = "not in")
    (alike : ListedAlike python go op input value) :
    textMatches python op (python.lower input) (normalizeStringValues python value) =
      go.inSet input op value := by
  by_cases isList : ∃ items, value = .list items
  · obtain ⟨items, rfl⟩ := isList
    have listed : isIn python (python.lower input) (normalizeStringValues python (.list items)) =
        some (items.any fun item => if op = "in" then go.toString item = input
          else go.lower (go.toString item) = go.lower input) := by
      simp only [isIn, normalizeStringValues, List.any_map, Option.some.injEq]
      rw [Bool.eq_iff_iff, List.any_eq_true, List.any_eq_true]
      refine exists_congr fun item => and_congr_right fun member => ?_
      simpa using alike item member
    rcases isListed with rfl | rfl
    · have matched : textMatches python "in" (python.lower input)
          (normalizeStringValues python (.list items)) =
          items.any fun item => go.toString item = input := by
        simp only [textMatches, listed, if_true, Option.some.injEq, String.reduceEq, if_false,
          Bool.decide_eq_true]
      rw [matched]
      simp only [GoLibrary.inSet, String.reduceEq, if_false]
    · have matched : textMatches python "not in" (python.lower input)
          (normalizeStringValues python (.list items)) =
          !items.any fun item => go.lower (go.toString item) = go.lower input := by
        simp only [textMatches, listed, if_true, Option.some.injEq, String.reduceEq, if_false]
        cases items.any fun item => decide (go.lower (go.toString item) = go.lower input) <;> rfl
      rw [matched]
      simp only [GoLibrary.inSet, if_true]
  · have excluded : isIn python (python.lower input) (normalizeStringValues python value) ≠
        some (decide (op = "in")) := by
      rcases value with (text | number | truth) | _ | items | items | object
      case list => exact absurd ⟨items, rfl⟩ isList
      all_goals exact alike
    have notKept : go.inSet input op value = false := by
      rcases value with (text | number | truth) | _ | items | items | object
      case list => exact absurd ⟨items, rfl⟩ isList
      all_goals rfl
    rw [notKept]
    rcases isListed with rfl | rfl <;> simpa [textMatches] using excluded

def GoLibrary.keeps (go : GoLibrary) (input op : String) (value : PyValue Object) : Bool :=
  if op = "in" ∨ op = "not in" then go.inSet input op value else go.matchValue input op value

theorem GoLibrary.filterOut_eq_flatMap (v2docs : V2Docs) (op : String) (value : PyValue Object) :
    go.filterOut v2docs op value =
      v2docs.flatMap fun bucket => if go.keeps bucket.1 op value then bucket.2 else [] := by
  unfold GoLibrary.filterOut GoLibrary.filterSet GoLibrary.keeps
  by_cases isListed : op = "in" ∨ op = "not in"
  · simp only [if_pos isListed]
  · simp only [if_neg isListed]

theorem textMatches_other (notComparison : comparisonOf op = none)
    (notFound : ¬ (op = "contains" ∨ op = "not contains"))
    (notBordered : ¬ (op = "start with" ∨ op = "end with"))
    (notListed : ¬ (op = "in" ∨ op = "not in")) (other : PyValue Object) :
    textMatches python op (python.lower input) other = go.matchValue input op value := by
  rw [not_or] at notFound notBordered notListed
  by_cases isEmpty : op = "empty"
  · subst isEmpty
    simp [textMatches, GoLibrary.matchValue, python.lower_eq_empty]
  · by_cases isNotEmpty : op = "not empty"
    · subst isNotEmpty
      simp [textMatches, GoLibrary.matchValue, python.lower_eq_empty]
    · have notUnequal : op ≠ "≠" := by
        rintro rfl
        contradiction
      have unmatched : go.compareValues input (go.toString value) op = false := by
        unfold GoLibrary.compareValues GoLibrary.compareString GoLibrary.compareFloat
        simp only [notComparison, notUnequal, decide_false, ite_self]
        cases go.parseFloat input <;> cases go.parseFloat (go.toString value) <;> simp
      simp [textMatches, GoLibrary.matchValue, notFound, notBordered, notListed, isEmpty,
        isNotEmpty, unmatched]

theorem filterStep_of_alike (documented : python.Documented)
    (normal : comparisonOf op = none →
      normalizeStringValues python current = normalizeStringValues python value)
    (alike : InputAlike python go op value current input) :
    (filterStep python op input current).1 = go.keeps input op value := by
  unfold InputAlike at alike
  unfold filterStep GoLibrary.keeps
  cases isComparison : comparisonOf op with
  | some comparison =>
    have notListed : ¬ (op = "in" ∨ op = "not in") := by
      rintro (rfl | rfl) <;> contradiction
    rw [isComparison] at alike
    rw [if_neg notListed]
    exact comparisonStep_of_alike documented isComparison alike
  | none =>
    rw [isComparison] at alike
    rw [normal isComparison]
    by_cases isListed : op = "in" ∨ op = "not in"
    · rw [if_pos isListed]
      exact textMatches_listed isListed (alike.listed isListed)
    · rw [if_neg isListed]
      by_cases isFound : op = "contains" ∨ op = "not contains"
      · exact textMatches_found isFound (alike.found isFound)
      · by_cases isBordered : op = "start with" ∨ op = "end with"
        · exact textMatches_bordered isBordered (alike.bordered isBordered)
        · exact textMatches_other isComparison isFound isBordered isListed _

theorem mem_filterOut_of_alike (documented : python.Documented) {v2docs : V2Docs}
    (normal : comparisonOf op = none →
      normalizeStringValues python current = normalizeStringValues python value)
    (alike : InputsAlike python go op value current (v2docs.map Prod.fst)) {doc : DocId} :
    doc ∈ go.filterOut v2docs op value ↔ doc ∈ filterOut python v2docs op current := by
  rw [GoLibrary.filterOut_eq_flatMap]
  induction v2docs generalizing current with
  | nil => simp [filterOut]
  | cons bucket rest ih =>
    obtain ⟨first, later⟩ := alike
    have step := filterStep_of_alike documented normal first
    have normalNext : comparisonOf op = none →
        normalizeStringValues python (filterStep python op bucket.1 current).2 =
          normalizeStringValues python value := by
      intro notComparison
      rw [← normal notComparison]
      simp [filterStep, notComparison]
    rw [List.flatMap_cons, List.mem_append, ih normalNext later]
    simp only [filterOut, List.mem_append, step]

end Input

section Request

variable {python : Python Object} {go : GoLibrary} {metas : Metas}
  {metadataCondition : MetadataCondition (PyValue Object)}

theorem exists_convertCondition (alike : FiltersAlike python go metas metadataCondition)
    {raw : RawCondition (PyValue Object)} (member : raw ∈ metadataCondition.conditions) :
    ∃ condition, convertCondition raw = some condition ∧
      GoLibrary.parseCondition raw = some condition := by
  obtain ⟨⟨name, hasName, named⟩, ⟨op, hasOp, known⟩, value, hasValue⟩ := alike.fields raw member
  refine ⟨{ key := name, op := opMapping op, value := value }, ?_, ?_⟩
  · simp [convertCondition, hasName, hasOp, hasValue]
  · simp [GoLibrary.parseCondition, GoLibrary.convertOperator, hasName, named, hasOp, known,
      hasValue]

theorem exists_filters {raws : List (RawCondition (PyValue Object))}
    (converted : ∀ raw ∈ raws, ∃ condition, convertCondition raw = some condition ∧
      GoLibrary.parseCondition raw = some condition) :
    ∃ filters, raws.mapM convertCondition = some filters ∧
      raws.filterMap GoLibrary.parseCondition = filters ∧
      ∀ condition ∈ filters, ∃ raw ∈ raws, convertCondition raw = some condition := by
  induction raws with
  | nil => exact ⟨[], rfl, rfl, by simp⟩
  | cons raw raws ih =>
    rw [List.forall_mem_cons] at converted
    obtain ⟨condition, convert, parse⟩ := converted.1
    obtain ⟨filters, mapped, parsed, sources⟩ := ih converted.2
    refine ⟨condition :: filters, ?_, ?_, ?_⟩
    · simp [List.mapM_cons, convert, mapped]
    · rw [List.filterMap_cons_some parse, parsed]
    · rw [List.forall_mem_cons]
      refine ⟨⟨raw, List.mem_cons_self, convert⟩, ?_⟩
      intro other member
      obtain ⟨source, sourceMember, isSource⟩ := sources other member
      exact ⟨source, List.mem_cons_of_mem _ sourceMember, isSource⟩

theorem logicOf_eq (logic : Option String) (nonempty : logic ≠ some "") :
    GoLibrary.logicOf logic = logic.getD "and" ∧
      GoLibrary.logicOf (some (logic.getD "and")) = logic.getD "and" := by
  cases logic with
  | none => exact ⟨by decide, by decide⟩
  | some logic =>
    have notEmpty : logic ≠ "" := fun empty => nonempty (congrArg some empty)
    simp [GoLibrary.logicOf, notEmpty]

end Request

def numeral (text : String) : Option ℕ :=
  if text.toList ≠ [] ∧ text.toList.all Char.isDigit ∧ text.toList.head? ≠ some '0' then
    some (text.toList.foldl (fun value char => 10 * value + (char.toNat - 48)) 0)
  else none

theorem ne_of_numeral {text : String} {value : ℕ} (reads : numeral text = some value) :
    text ≠ "" := by
  rintro rfl
  contradiction

def numeralPython : Python Empty :=
  { asciiPython with
    literalEval text :=
      match reads : numeral text with
      | some value => some (.scalar (.num ⟨value, text, ne_of_numeral reads⟩))
      | none => none }

def numeralGo : GoLibrary where
  lower := asciiPython.lower
  parseFloat text := (numeral text).map fun value => .finite value
  formatFloat number := number.text

theorem documented_numeralPython : numeralPython.Documented where
  digit _ isDigit := isDigit
  unlike _ _ _ _ := rfl

def books : Metas where
  items :=
    [("year", [("2023", ["doc1"]), ("2024", ["doc2"])]),
      ("author", [("Li Si", ["doc1"]), ("Zhang San", ["doc2"])]),
      ("published", [("unknown", ["doc1"]), ("2024-03-01", ["doc2"])])]
  nodup := by decide

def recentBooks : MetadataCondition (PyValue Empty) where
  logic := some "and"
  conditions :=
    [{ name := some "year", comparisonOperator := some ">="
       value := some (.scalar (.num ⟨2024, "2024", by decide⟩)) },
      { name := some "author", comparisonOperator := some "contains"
        value := some (.scalar (.str "San")) },
      { name := some "published", comparisonOperator := some ">"
        value := some (.scalar (.str "2024-01-01")) }]

theorem filtersAlike_recentBooks : FiltersAlike numeralPython numeralGo books recentBooks where
  logic := by decide
  fields raw member := by
    simp only [recentBooks, List.mem_cons, List.not_mem_nil, or_false] at member
    rcases member with rfl | rfl | rfl
    · exact ⟨⟨"year", rfl, by decide⟩, ⟨">=", rfl, by decide⟩, _, rfl⟩
    · exact ⟨⟨"author", rfl, by decide⟩, ⟨"contains", rfl, by decide⟩, _, rfl⟩
    · exact ⟨⟨"published", rfl, by decide⟩, ⟨">", rfl, by decide⟩, _, rfl⟩
  inputs raw member condition converted v2docs found := by
    simp only [recentBooks, List.mem_cons, List.not_mem_nil, or_false] at member
    rcases member with rfl | rfl | rfl
    · obtain rfl := Option.some.inj converted
      obtain rfl := Option.some.inj found
      exact ⟨.noDate rfl rfl (.numbers rfl rfl), .noDate rfl rfl (.numbers rfl rfl), trivial⟩
    · obtain rfl := Option.some.inj converted
      obtain rfl := Option.some.inj found
      have matched : ∀ input, MatchedAlike numeralPython numeralGo "contains" input
          (.scalar (.str "San")) := fun input =>
        { found := fun _ => ⟨rfl, rfl⟩
          bordered := fun isBordered => absurd isBordered (by decide)
          listed := fun isListed => absurd isListed (by decide) }
      exact ⟨matched _, matched _, trivial⟩
    · obtain rfl := Option.some.inj converted
      obtain rfl := Option.some.inj found
      exact ⟨.date rfl rfl rfl (by decide), .dates rfl rfl rfl, trivial⟩

/-- Go takes a value that is no date for one that differs from a date; Python passes over it. -/
def otherDate : MetadataCondition (PyValue Empty) where
  logic := none
  conditions :=
    [{ name := some "published", comparisonOperator := some "not is"
       value := some (.scalar (.str "2024-03-01")) }]

end RagFlow.Metadata
