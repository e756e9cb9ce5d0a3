import RagFlow.Metadata.GoAgreement

/-!
# The order of the values

Which conditions `filter_out` decides for each value of a key as if it were the only one, in
whatever order the values come.
-/

namespace RagFlow.Metadata

open RagFlow.Lib

structure FlatMetas where
  metas : Metas
  distinct : ∀ key, ((buckets metas key).map Prod.fst).Nodup

def Reordered (first second : FlatMetas) : Prop :=
  ∀ key, (buckets first.metas key).Perm (buckets second.metas key)

section Operands

variable {Object : Type} (python : Python Object)

def readsAsDate (value : PyValue Object) : Bool :=
  isDate python.isDigit (PyString.strip (python.str value))

/-- What a comparison compares; nothing where only the condition's value is a date. -/
def compared (input : String) (value : PyValue Object) : Option (PyValue Object × PyValue Object) :=
  if readsAsDate python value then
    if isDate python.isDigit (PyString.strip input) then
      some (.scalar (.str (PyString.strip input)),
        .scalar (.str (PyString.strip (python.str value))))
    else none
  else
    some (python.lowerString (readLiterals python input value).1,
      python.lowerString (readLiterals python input value).2)

def operands (op : String) (input : String) (value : PyValue Object) :
    Option (PyValue Object × PyValue Object) :=
  match comparisonOf op with
  | some _ => compared python input value
  | none => some (.scalar (.str (python.lower input)), normalizeStringValues python value)

def isLiteral (input : String) : Bool := (python.literalEval input).isSome

def read (value : PyValue Object) : PyValue Object :=
  python.lowerString (evaluated python value)

/-- What keeps the decisions about the values of a key apart.  A comparison with anything but a date
rewrites the condition's value: next to a literal it is read as one, else put in lower case. -/
structure Settled (op : String) (value : PyValue Object) (inputs : List String) : Prop where
  literals : (comparisonOf op).isSome → readsAsDate python value = false →
    (∃ x ∈ inputs, ∃ y ∈ inputs, x ≠ y ∧ isLiteral python x ∧ isLiteral python y) →
    readsAsDate python (read python value) = false ∧
      read python (read python value) = read python value
  mixed : (comparisonOf op).isSome → readsAsDate python value = false →
    (∃ x ∈ inputs, isLiteral python x) → (∃ y ∈ inputs, isLiteral python y = false) →
    read python value = python.lowerString value ∧
      read python (python.lowerString value) = python.lowerString value

/-- What Python documents of dates: they are no literals, and lower case makes no dates. -/
structure Python.ReadsDates : Prop where
  lower : ∀ text, isDate python.isDigit (PyString.strip (python.lower text)) =
    isDate python.isDigit (PyString.strip text)
  literal : ∀ text, isDate python.isDigit (PyString.strip text) = true →
    python.literalEval text = none

/-- For every order of the values: a filter selects the documents of the values that satisfy it
with its own value, which is what each value is compared with, and the result is the same. -/
structure IndependentOfOrder (metas : FlatMetas) (filters : List (Condition (PyValue Object)))
    (logic : String) (reordered : FlatMetas) : Prop where
  sameIds : ∀ doc, doc ∈ metaFilter (filterOut python) reordered.metas filters logic ↔
    doc ∈ metaFilter (filterOut python) metas.metas filters logic
  union : ∀ condition ∈ filters, ∀ doc,
    doc ∈ conditionIds (filterOut python) reordered.metas condition ↔
      ∃ bucket ∈ buckets metas.metas condition.key,
        (filterStep python condition.op bucket.1 condition.value).1 = true ∧ doc ∈ bucket.2
  apart : ∀ condition ∈ filters, ∀ before bucket after,
    buckets reordered.metas condition.key = before ++ bucket :: after →
    operands python condition.op bucket.1
        (valueAfter python condition.op condition.value (before.map Prod.fst)) =
      operands python condition.op bucket.1 condition.value

variable {python}

theorem comparisonStep_eq (comparison : Comparison) (input : String) (value : PyValue Object) :
    comparisonStep python comparison input value =
      match compared python input value with
      | none => (false, value)
      | some both => (python.compare comparison both.1 both.2 = some true, both.2) := by
  unfold comparisonStep compared readsAsDate
  by_cases date : isDate python.isDigit (PyString.strip (python.str value)) = true
  · by_cases inputDate : isDate python.isDigit (PyString.strip input) = true
    · simp [date, inputDate]
    · simp [date, inputDate]
  · simp [date]

theorem filterStep_congr {op input : String} {value other : PyValue Object}
    (same : operands python op input value = operands python op input other) :
    (filterStep python op input value).1 = (filterStep python op input other).1 := by
  unfold operands at same
  unfold filterStep
  cases compares : comparisonOf op with
  | none =>
    simp only [compares, Option.some.injEq, Prod.mk.injEq, true_and] at same
    simp only [same]
  | some comparison =>
    simp only [compares] at same
    simp only [comparisonStep_eq, same]
    cases compared python input other <;> rfl

section Comparisons

variable {op : String} {comparison : Comparison} {value : PyValue Object} {input : String}

theorem filterStep_snd_of_literal (compares : comparisonOf op = some comparison)
    (notDate : readsAsDate python value = false) (literal : isLiteral python input = true) :
    (filterStep python op input value).2 = read python value := by
  obtain ⟨reading, isReading⟩ := Option.isSome_iff_exists.mp literal
  simp [filterStep, compares, comparisonStep_eq, compared, notDate, readLiterals, isReading, read]

theorem filterStep_snd_of_text (compares : comparisonOf op = some comparison)
    (notDate : readsAsDate python value = false) (text : isLiteral python input = false) :
    (filterStep python op input value).2 = python.lowerString value := by
  have noReading : python.literalEval input = none := by simpa [isLiteral] using text
  simp [filterStep, compares, comparisonStep_eq, compared, notDate, readLiterals, noReading]

theorem operands_of_literal (compares : comparisonOf op = some comparison)
    (notDate : readsAsDate python value = false) (literal : isLiteral python input = true) :
    operands python op input value =
      some (python.lowerString ((python.literalEval input).getD .none), read python value) := by
  obtain ⟨reading, isReading⟩ := Option.isSome_iff_exists.mp literal
  simp [operands, compares, compared, notDate, readLiterals, isReading, read]

theorem operands_of_text (compares : comparisonOf op = some comparison)
    (notDate : readsAsDate python value = false) (text : isLiteral python input = false) :
    operands python op input value =
      some (.scalar (.str (python.lower input)), python.lowerString value) := by
  have noReading : python.literalEval input = none := by simpa [isLiteral] using text
  simp [operands, compares, compared, notDate, readLiterals, noReading, Python.lowerString]

theorem operands_of_date (compares : comparisonOf op = some comparison)
    (date : readsAsDate python value = true) :
    operands python op input value =
      if isDate python.isDigit (PyString.strip input) then
        some (.scalar (.str (PyString.strip input)),
          .scalar (.str (PyString.strip (python.str value))))
      else none := by
  simp [operands, compares, compared, date]

@[simp] theorem lowerString_read (value : PyValue Object) :
    python.lowerString (read python value) = read python value :=
  python.lowerString_lowerString _

theorem readsAsDate_strip (value : PyValue Object) :
    readsAsDate python (.scalar (.str (PyString.strip (python.str value)))) =
      readsAsDate python value := by
  simp only [readsAsDate, Python.str_scalar, Scalar.text, PyString.strip_strip]

theorem readsAsDate_lowerString (dates : python.ReadsDates) (value : PyValue Object) :
    readsAsDate python (python.lowerString value) = readsAsDate python value := by
  rcases value with (text | number | truth) | _ | items | items | object
  · exact dates.lower text
  all_goals rfl

end Comparisons

section Turns

variable {op : String} {value : PyValue Object} {inputs : List String}

theorem valueAfter_cons (op : String) (value : PyValue Object) (input : String)
    (inputs : List String) :
    valueAfter python op value (input :: inputs) =
      valueAfter python op (filterStep python op input value).2 inputs := rfl

theorem valueAfter_of_fixed {final : PyValue Object}
    (fixed : ∀ input ∈ inputs, (filterStep python op input final).2 = final) :
    valueAfter python op final inputs = final := by
  induction inputs with
  | nil => rfl
  | cons input inputs ih =>
    rw [List.forall_mem_cons] at fixed
    rw [valueAfter_cons, fixed.1]
    exact ih fixed.2

theorem operands_valueAfter_of_none (isText : comparisonOf op = none) (input : String) :
    operands python op input (valueAfter python op value inputs) =
      operands python op input value := by
  induction inputs generalizing value with
  | nil => rfl
  | cons first inputs ih =>
    rw [valueAfter_cons, ih]
    simp [operands, filterStep, isText]

theorem operands_valueAfter_of_date {comparison : Comparison}
    (compares : comparisonOf op = some comparison) (date : readsAsDate python value = true)
    (input : String) :
    operands python op input (valueAfter python op value inputs) =
      operands python op input value := by
  induction inputs generalizing value with
  | nil => rfl
  | cons first inputs ih =>
    rw [valueAfter_cons]
    by_cases firstDate : isDate python.isDigit (PyString.strip first) = true
    · have text : (filterStep python op first value).2 =
          .scalar (.str (PyString.strip (python.str value))) := by
        simp [filterStep, compares, comparisonStep_eq, compared, date, firstDate]
      have still : readsAsDate python (filterStep python op first value).2 = true := by
        rw [text, readsAsDate_strip, date]
      rw [ih still, operands_of_date compares still,
        operands_of_date compares date, text, Python.str_scalar, Scalar.text,
        PyString.strip_strip]
    · have kept : (filterStep python op first value).2 = value := by
        simp [filterStep, compares, comparisonStep_eq, compared, date, firstDate]
      rw [kept]
      exact ih date

theorem operands_valueAfter (dates : python.ReadsDates) (settled : Settled python op value inputs)
    {before : List String} (subset : before ⊆ inputs) {input : String} (member : input ∈ inputs)
    (fresh : input ∉ before) :
    operands python op input (valueAfter python op value before) =
      operands python op input value := by
  cases compares : comparisonOf op with
  | none => exact operands_valueAfter_of_none compares input
  | some comparison =>
    by_cases date : readsAsDate python value = true
    · exact operands_valueAfter_of_date compares date input
    cases before with
    | nil => rfl
    | cons first rest =>
      rw [List.cons_subset] at subset
      rw [List.mem_cons, not_or] at fresh
      have notDate : readsAsDate python value = false := by simpa using date
      have compared : (comparisonOf op).isSome := by simp [compares]
      have lowerNotDate : readsAsDate python (python.lowerString value) = false := by
        rw [readsAsDate_lowerString dates, notDate]
      rw [valueAfter_cons]
      by_cases someLiteral : ∃ x ∈ inputs, isLiteral python x
      · by_cases someText : ∃ y ∈ inputs, isLiteral python y = false
        · -- Whatever is next to it, the value becomes its lower case, which reads as itself.
          obtain ⟨reads, again⟩ := settled.mixed compared notDate someLiteral someText
          have once : ∀ x, (filterStep python op x value).2 = python.lowerString value := by
            intro x
            by_cases literal : isLiteral python x = true
            · rw [filterStep_snd_of_literal compares notDate literal, reads]
            · exact filterStep_snd_of_text compares notDate (by simpa using literal)
          have twice : ∀ x ∈ rest,
              (filterStep python op x (python.lowerString value)).2 =
                python.lowerString value := by
            intro x _
            by_cases literal : isLiteral python x = true
            · rw [filterStep_snd_of_literal compares lowerNotDate literal, again]
            · rw [filterStep_snd_of_text compares lowerNotDate (by simpa using literal),
                Python.lowerString_lowerString]
          rw [once, valueAfter_of_fixed twice]
          by_cases literal : isLiteral python input = true
          · rw [operands_of_literal compares lowerNotDate literal,
              operands_of_literal compares notDate literal, again, reads]
          · have text : isLiteral python input = false := by simpa using literal
            rw [operands_of_text compares lowerNotDate text,
              operands_of_text compares notDate text, Python.lowerString_lowerString]
        · -- All values are literals.
          have literal : ∀ x ∈ inputs, isLiteral python x = true := by
            intro x inInputs
            by_contra text
            exact someText ⟨x, inInputs, by simpa using text⟩
          obtain ⟨readNotDate, again⟩ := settled.literals compared notDate
            ⟨input, member, first, subset.1, fresh.1, literal input member,
              literal first subset.1⟩
          have twice : ∀ x ∈ rest,
              (filterStep python op x (read python value)).2 = read python value := by
            intro x inRest
            rw [filterStep_snd_of_literal compares readNotDate (literal x (subset.2 inRest)),
              again]
          rw [filterStep_snd_of_literal compares notDate (literal first subset.1),
            valueAfter_of_fixed twice,
            operands_of_literal compares readNotDate (literal input member),
            operands_of_literal compares notDate (literal input member), again]
      · -- None of the values is a literal.
        have text : ∀ x ∈ inputs, isLiteral python x = false := by
          intro x inInputs
          by_contra literal
          exact someLiteral ⟨x, inInputs, by simpa using literal⟩
        have twice : ∀ x ∈ rest,
            (filterStep python op x (python.lowerString value)).2 =
              python.lowerString value := by
          intro x inRest
          rw [filterStep_snd_of_text compares lowerNotDate (text x (subset.2 inRest)),
            Python.lowerString_lowerString]
        rw [filterStep_snd_of_text compares notDate (text first subset.1),
          valueAfter_of_fixed twice,
          operands_of_text compares lowerNotDate (text input member),
          operands_of_text compares notDate (text input member),
          Python.lowerString_lowerString]

theorem settled_of_pairs (dates : python.ReadsDates)
    (pairs : ∀ x ∈ inputs, ∀ y ∈ inputs, x ≠ y →
      operands python op y (filterStep python op x value).2 = operands python op y value) :
    Settled python op value inputs where
  literals := by
    rintro compared notDate ⟨x, isX, y, isY, other, xLiteral, yLiteral⟩
    obtain ⟨comparison, compares⟩ := Option.isSome_iff_exists.mp compared
    have same := pairs x isX y isY other
    rw [filterStep_snd_of_literal compares notDate xLiteral,
      operands_of_literal compares notDate yLiteral] at same
    by_cases readDate : readsAsDate python (read python value) = true
    · have yNotDate : ¬ isDate python.isDigit (PyString.strip y) = true := by
        intro yDate
        simp [isLiteral, dates.literal y yDate] at yLiteral
      rw [operands_of_date compares readDate, if_neg yNotDate] at same
      exact absurd same (by simp)
    · have readNotDate : readsAsDate python (read python value) = false := by simpa using readDate
      rw [operands_of_literal compares readNotDate yLiteral] at same
      exact ⟨readNotDate, (Prod.mk.inj (Option.some.inj same)).2⟩
  mixed := by
    rintro compared notDate ⟨x, isX, xLiteral⟩ ⟨y, isY, yText⟩
    obtain ⟨comparison, compares⟩ := Option.isSome_iff_exists.mp compared
    have other : x ≠ y := by
      rintro rfl
      rw [xLiteral] at yText
      contradiction
    have lowerNotDate : readsAsDate python (python.lowerString value) = false := by
      rw [readsAsDate_lowerString dates, notDate]
    have reads : read python value = python.lowerString value := by
      have same := pairs x isX y isY other
      rw [filterStep_snd_of_literal compares notDate xLiteral,
        operands_of_text compares notDate yText] at same
      by_cases readDate : readsAsDate python (read python value) = true
      · rw [operands_of_date compares readDate] at same
        by_cases yDate : isDate python.isDigit (PyString.strip y) = true
        · rw [if_pos yDate] at same
          have lowered := (Prod.mk.inj (Option.some.inj same)).2
          rw [← lowered, readsAsDate_strip, readDate] at lowerNotDate
          exact absurd lowerNotDate (by simp)
        · rw [if_neg yDate] at same
          exact absurd same (by simp)
      · rw [operands_of_text compares (by simpa using readDate) yText, lowerString_read] at same
        exact (Prod.mk.inj (Option.some.inj same)).2
    have again := pairs y isY x isX (Ne.symm other)
    rw [filterStep_snd_of_text compares notDate yText,
      operands_of_literal compares lowerNotDate xLiteral,
      operands_of_literal compares notDate xLiteral] at again
    exact ⟨reads, ((Prod.mk.inj (Option.some.inj again)).2).trans reads⟩

end Turns

section Filters

variable {metas reordered : FlatMetas} {filters : List (Condition (PyValue Object))}
  {logic : String}

theorem Reordered.refl (metas : FlatMetas) : Reordered metas metas :=
  fun _ => List.Perm.refl _

theorem conditionIds_eq (metas : Metas) (condition : Condition (PyValue Object)) :
    conditionIds (filterOut python) metas condition =
      filterOut python (buckets metas condition.key) condition.op condition.value := by
  unfold conditionIds buckets
  cases metas.get? condition.key <;> rfl

theorem mem_conditionIds_of_settled (dates : python.ReadsDates)
    (isReordered : Reordered reordered metas) {condition : Condition (PyValue Object)}
    (settled : Settled python condition.op condition.value
      ((buckets metas.metas condition.key).map Prod.fst)) {doc : DocId} :
    doc ∈ conditionIds (filterOut python) reordered.metas condition ↔
      ∃ bucket ∈ buckets metas.metas condition.key,
        (filterStep python condition.op bucket.1 condition.value).1 = true ∧ doc ∈ bucket.2 := by
  have perm := isReordered condition.key
  have decided : ∀ input ∈ (buckets metas.metas condition.key).map Prod.fst,
      (filterStep python condition.op input (valueAt python
        (buckets reordered.metas condition.key) condition.op condition.value input)).1 =
      (filterStep python condition.op input condition.value).1 := by
    intro input member
    refine filterStep_congr (operands_valueAfter dates settled ?_ member ?_)
    · exact fun other earlier => (perm.map Prod.fst).subset (List.takeWhile_subset _ earlier)
    · intro earlier
      simpa using List.all_eq_true.mp (List.all_takeWhile) input earlier
  rw [conditionIds_eq, mem_filterOut (reordered.distinct condition.key)]
  constructor
  · rintro ⟨input, ⟨bucket, member, rfl, isDoc⟩, matched⟩
    have inMetas := perm.mem_iff.mp member
    rw [decided _ (List.mem_map_of_mem inMetas)] at matched
    exact ⟨bucket, inMetas, matched, isDoc⟩
  · rintro ⟨bucket, member, matched, isDoc⟩
    refine ⟨bucket.1, ⟨bucket, perm.mem_iff.mpr member, rfl, isDoc⟩, ?_⟩
    rw [decided _ (List.mem_map_of_mem member)]
    exact matched

theorem mem_metaFilter_congr
    (same : ∀ condition ∈ filters, ∀ doc,
      doc ∈ conditionIds (filterOut python) reordered.metas condition ↔
        doc ∈ conditionIds (filterOut python) metas.metas condition) {doc : DocId} :
    doc ∈ metaFilter (filterOut python) reordered.metas filters logic ↔
      doc ∈ metaFilter (filterOut python) metas.metas filters logic := by
  by_cases isAnd : logic = "and"
  · subst isAnd
    cases filters with
    | nil => simp
    | cons condition rest =>
      rw [mem_metaFilter_and (List.cons_ne_nil _ _), mem_metaFilter_and (List.cons_ne_nil _ _)]
      exact forall₂_congr fun condition member => same condition member doc
  · rw [mem_metaFilter_or isAnd, mem_metaFilter_or isAnd]
    exact exists_congr fun condition => and_congr_right fun member => same condition member doc

theorem exists_reordered (metas : FlatMetas) {key : String} {first second : String × List DocId}
    (isFirst : first ∈ buckets metas.metas key) (isSecond : second ∈ buckets metas.metas key)
    (other : first ≠ second) :
    ∃ reordered rest, Reordered reordered metas ∧
      buckets reordered.metas key = first :: second :: rest := by
  have inErased : second ∈ (buckets metas.metas key).erase first :=
    (List.mem_erase_of_ne (Ne.symm other)).mpr isSecond
  let rest := ((buckets metas.metas key).erase first).erase second
  have perm : (first :: second :: rest).Perm (buckets metas.metas key) :=
    ((List.perm_cons_erase inErased).symm.cons first).trans (List.perm_cons_erase isFirst).symm
  let changed : Metas := metas.metas.upsert key fun _ => first :: second :: rest
  have atKey : buckets changed key = first :: second :: rest := by
    simp [changed, buckets]
  have elsewhere : ∀ otherKey, otherKey ≠ key →
      buckets changed otherKey = buckets metas.metas otherKey := by
    intro otherKey different
    simp [changed, buckets, different]
  have isReordered : ∀ otherKey,
      (buckets changed otherKey).Perm (buckets metas.metas otherKey) := by
    intro otherKey
    by_cases same : otherKey = key
    · rw [same, atKey]
      exact perm
    · rw [elsewhere otherKey same]
  refine ⟨⟨changed, fun otherKey => ?_⟩, rest, isReordered, atKey⟩
  exact ((isReordered otherKey).map Prod.fst).nodup_iff.mpr (metas.distinct otherKey)

/-- The order of the values makes no difference exactly where no value of a key changes what
another one is compared with. -/
theorem independentOfOrder_iff (python : Python Object) (dates : python.ReadsDates)
    (metas : FlatMetas) (filters : List (Condition (PyValue Object))) (logic : String) :
    (∀ reordered, Reordered reordered metas →
      IndependentOfOrder python metas filters logic reordered) ↔
    ∀ condition ∈ filters, Settled python condition.op condition.value
      ((buckets metas.metas condition.key).map Prod.fst) := by
  constructor
  · intro independent condition isFilter
    apply settled_of_pairs dates
    intro x isX y isY other
    obtain ⟨first, isFirst, rfl⟩ := List.mem_map.mp isX
    obtain ⟨second, isSecond, rfl⟩ := List.mem_map.mp isY
    obtain ⟨reordered, rest, isReordered, order⟩ := exists_reordered metas isFirst isSecond
      fun same => other (congrArg Prod.fst same)
    exact (independent reordered isReordered).apart condition isFilter [first] second rest order
  · intro settled reordered isReordered
    have union : ∀ condition ∈ filters, ∀ doc, _ := fun condition isFilter doc =>
      @mem_conditionIds_of_settled _ _ _ _ dates isReordered _ (settled condition isFilter) doc
    refine ⟨fun doc => mem_metaFilter_congr fun condition isFilter doc => ?_, union, ?_⟩
    · rw [union condition isFilter doc,
        mem_conditionIds_of_settled dates (.refl metas) (settled condition isFilter)]
    · intro condition isFilter before bucket after order
      have perm := (isReordered condition.key).map Prod.fst
      have distinct := reordered.distinct condition.key
      rw [order, List.map_append, List.map_cons] at perm distinct
      refine operands_valueAfter dates (settled condition isFilter) ?_ ?_ ?_
      · exact fun other member => perm.subset (List.mem_append_left _ member)
      · exact perm.subset (List.mem_append_right _ List.mem_cons_self)
      · exact fun member => List.disjoint_of_nodup_append distinct member List.mem_cons_self

end Filters

theorem id_id_text (text : String) : id (id text) = id text := rfl

theorem id_text_eq_empty (text : String) : id text = "" ↔ text = "" := Iff.rfl

def plainPython : Python Empty :=
  { numeralPython with
    lower := id
    lower_lower := id_id_text
    lower_eq_empty := id_text_eq_empty }

theorem readsDates_plainPython : plainPython.ReadsDates where
  lower _ := rfl
  literal text date := by
    obtain ⟨y1, y2, y3, y4, m1, m2, d1, d2, chars, -⟩ := exists_of_isDate date
    have stripped : (PyString.strip text).toList ⊆ text.toList := by
      rw [PyString.strip, String.toList_ofList, PyString.stripChars]
      intro char member
      rw [List.mem_reverse] at member
      have inReverse := (List.dropWhile_sublist _).subset member
      exact (List.dropWhile_sublist _).subset (List.mem_reverse.mp inReverse)
    have hyphen : '-' ∈ text.toList := stripped (by simp [chars])
    have noNumeral : numeral text = none := by
      unfold numeral
      rw [if_neg]
      rintro ⟨-, digits, -⟩
      have isDigit := List.all_eq_true.mp digits '-' hyphen
      contradiction
    change numeralPython.literalEval text = none
    simp only [numeralPython]
    split
    · simp_all
    · rfl

def scores (numberFirst : Bool) : FlatMetas where
  metas :=
    { items := [("score", if numberFirst then [("7", ["doc2"]), ("good", ["doc1"])]
        else [("good", ["doc1"]), ("7", ["doc2"])])]
      nodup := by simp }
  distinct key := by
    by_cases isScore : "score" = key
    · cases numberFirst <;> simp [buckets, Dict.get?, isScore]
    · simp [buckets, Dict.get?, isScore]

def scoreFilter (op value : String) : Condition (PyValue Empty) where
  key := "score"
  op := op
  value := .scalar (.str value)

theorem reordered_scores (first second : Bool) : Reordered (scores first) (scores second) := by
  intro key
  by_cases isScore : "score" = key
  · have swapped : List.Perm [("7", ["doc2"]), ("good", ["doc1"])]
        [("good", ["doc1"]), ("7", ["doc2"])] := .swap _ _ _
    cases first <;> cases second <;> simp [buckets, Dict.get?, scores, isScore, swapped,
      swapped.symm]
  · simp [buckets, Dict.get?, scores, isScore]

/-- Next to a word, `5` is a text that `good` comes after; once `7` has been compared it is a number,
and `good` is not compared with it. -/
theorem not_independentOfOrder :
    ¬ ∀ reordered, Reordered reordered (scores false) →
      IndependentOfOrder plainPython (scores false) [scoreFilter ">" "5"] "and" reordered := by
  intro independent
  have same := (independent (scores true) (reordered_scores true false)).sameIds "doc1"
  have selected : "doc1" ∈ metaFilter (filterOut plainPython) (scores false).metas
      [scoreFilter ">" "5"] "and" := by decide
  have absent : "doc1" ∉ metaFilter (filterOut plainPython) (scores true).metas
      [scoreFilter ">" "5"] "and" := by decide
  exact absent (same.mpr selected)

theorem independentOfOrder_word :
    (∀ reordered, Reordered reordered (scores false) →
      IndependentOfOrder plainPython (scores false) [scoreFilter "=" "good"] "and" reordered) ↔
    ∀ condition ∈ [scoreFilter "=" "good"],
      Settled plainPython condition.op condition.value
        ((buckets (scores false).metas condition.key).map Prod.fst) :=
  independentOfOrder_iff plainPython readsDates_plainPython (scores false)
    [scoreFilter "=" "good"] "and"

end Operands

end RagFlow.Metadata
