import Mathlib
import RagFlow.Metadata.MetaFilter

/-!
# Metadata filters over an explicit document selection

`apply_meta_data_filter` (Python) and `ApplyMetaDataFilter` (Go) turn the metadata filter of a
request and the documents its caller selected into the documents retrieval may search.  The
search engine behind the push-down, the comparison of one condition with the stored values and
the model that generates conditions are parameters: the results hold for all of them.
-/

namespace RagFlow.Metadata

open RagFlow.Lib

/-- An entry of the `semi_auto` list: a key, or an object that may also fix the operator. -/
inductive SemiAutoItem where
  | str (key : String)
  | dict (key op : Option String)
  | other

structure MetaDataFilter (Value : Type) where
  method : Option String
  semiAuto : List SemiAutoItem
  manual : List (Condition Value)
  logic : Option String

abbrev Constraints := List (Option String × String)

structure Services (Value : Type) where
  filterOut : V2Docs → String → Value → List DocId
  /-- `filter_doc_ids_by_meta_pushdown`; `none` when it is not viable or fails. -/
  pushdown : List String → List (Condition Value) → String → Option (List DocId)
  /-- The language model, with the metadata it is shown; `none` when the call fails, which only
  the Go service handles. -/
  genMetaFilter : List (String × V2Docs) → Constraints → Option (List (Condition Value) × String)

section Service

variable {Value : Type} (services : Services Value) (metas : Metas) (kbIds : List String)

def runMetadataFilter (conditions : List (Condition Value)) (logic : String) : List DocId :=
  let pushed :=
    if conditions ≠ [] ∧ kbIds ≠ [] then services.pushdown kbIds conditions logic else none
  pushed.getD (metaFilter services.filterOut metas conditions logic)

def selectedKeys (items : List SemiAutoItem) : List (Option String) :=
  items.filterMap fun
    | .str key => some (some key)
    | .dict key _ => some key
    | .other => none

def constraints (items : List SemiAutoItem) : Constraints :=
  items.filterMap fun
    | .dict key (some op) => if op = "" then none else some (key, op)
    | _ => none

def filteredMetas (metas : Metas) (keys : List (Option String)) : List (String × V2Docs) :=
  keys.eraseDups.filterMap fun selected =>
    selected.bind fun key => (metas.get? key).map fun v2docs => (key, v2docs)

def generated (metas : List (String × V2Docs)) (constraints : Constraints) :
    List (Condition Value) × String :=
  (services.genMetaFilter metas constraints).getD ([], "and")

variable (metaDataFilter : Option (MetaDataFilter Value)) (baseDocIds : List DocId)

def applyMetaDataFilter (manualValueResolver : Option (Condition Value → Condition Value)) :
    Option (List DocId) :=
  match metaDataFilter with
  | none => some baseDocIds
  | some filter =>
    if filter.method = some "auto" then
      let filters := generated services metas.items []
      let docIds := baseDocIds ++ runMetadataFilter services metas kbIds filters.1 filters.2
      if docIds = [] then none else some docIds
    else if filter.method = some "semi_auto" then
      let keys := selectedKeys filter.semiAuto
      let shown := filteredMetas metas keys
      if keys ≠ [] ∧ shown ≠ [] then
        let filters := generated services shown (constraints filter.semiAuto)
        let docIds := baseDocIds ++ runMetadataFilter services metas kbIds filters.1 filters.2
        if docIds = [] then none else some docIds
      else some baseDocIds
    else if filter.method = some "manual" then
      let filters := match manualValueResolver with
        | none => filter.manual
        | some resolve => filter.manual.map resolve
      let docIds :=
        baseDocIds ++ runMetadataFilter services metas kbIds filters (filter.logic.getD "and")
      if filters ≠ [] ∧ docIds = [] then some ["-999"] else some docIds
    else some baseDocIds

namespace Go

def noMatchDocIDSentinel : DocId := "-999"

/-- The loop of `common.MetaFilter` over `docIDs`, a set that starts as `nil`. -/
def metaFilterLoop (logic : String) : Option (List DocId) → List (Condition Value) → List DocId
  | docIds, [] => docIds.getD []
  | docIds, condition :: rest =>
    match metas.get? condition.key with
    | none => if logic = "and" then [] else metaFilterLoop logic docIds rest
    | some v2docs =>
      let matched := services.filterOut v2docs condition.op condition.value
      match docIds with
      | none => metaFilterLoop logic (some matched.dedup) rest
      | some docIds =>
        if logic = "and" then
          let both := matched.dedup ∩ docIds
          if both = [] then [] else metaFilterLoop logic (some both) rest
        else metaFilterLoop logic (some (docIds ∪ matched)) rest

def applyMetaFilter (filters : List (Condition Value)) (logic : String) : List DocId :=
  if filters = [] then []
  else metaFilterLoop services metas (if logic = "" then "and" else logic) none filters

def runMetadataFilter (conditions : List (Condition Value)) (logic : String) : List DocId :=
  let pushed :=
    if conditions ≠ [] ∧ kbIds ≠ [] then services.pushdown kbIds conditions logic else none
  pushed.getD (applyMetaFilter services metas conditions logic)

def constrainDocIDs (baseDocIds filteredDocIds : List DocId) : List DocId :=
  if baseDocIds = [] then filteredDocIds.eraseDups
  else (baseDocIds.filter fun doc => doc ∈ filteredDocIds.eraseDups).eraseDups

def selectedKeys (items : List SemiAutoItem) : List (Option String) :=
  items.filterMap fun
    | .str key => some (some key)
    | .dict (some key) _ => some (some key)
    | _ => none

def constraints (items : List SemiAutoItem) : Constraints :=
  items.filterMap fun
    | .dict (some key) (some op) => some (some key, op)
    | _ => none

/-- The pair is `docIDs` and the flag that an automatic filter found nothing. -/
def applyMetaDataFilter : List DocId × Bool :=
  match metaDataFilter with
  | none => (baseDocIds, false)
  | some filter =>
    if filter.method = some "auto" then
      match services.genMetaFilter metas.items [] with
      | none => (baseDocIds, false)
      | some (conditions, logic) =>
        let docIds := constrainDocIDs baseDocIds
          (runMetadataFilter services metas kbIds conditions logic)
        if docIds = [] then ([], true) else (docIds, false)
    else if filter.method = some "semi_auto" then
      let keys := selectedKeys filter.semiAuto
      let shown := filteredMetas metas keys
      if keys ≠ [] ∧ shown ≠ [] then
        match services.genMetaFilter shown (constraints filter.semiAuto) with
        | none => (baseDocIds, false)
        | some (conditions, logic) =>
          let docIds := constrainDocIDs baseDocIds
            (runMetadataFilter services metas kbIds conditions logic)
          if docIds = [] then ([], true) else (docIds, false)
      else (baseDocIds, false)
    else if filter.method = some "manual" then
      if filter.manual = [] then (baseDocIds, false)
      else
        let docIds := constrainDocIDs baseDocIds
          (runMetadataFilter services metas kbIds filter.manual (filter.logic.getD "and"))
        if docIds = [] then ([noMatchDocIDSentinel], false) else (docIds, false)
    else (baseDocIds, false)

/-- The three callers: the chat looks at the flag, dataset search and chunk retrieval drop it. -/
inductive Caller where
  | chat | datasetSearch | chunkRetrieval
  deriving DecidableEq

def retrievalDocIds (caller : Caller) (filtered : List DocId × Bool) : List DocId :=
  match caller with
  | .chat => if filtered.2 then [noMatchDocIDSentinel] else filtered.1
  | .datasetSearch => filtered.1
  | .chunkRetrieval => filtered.1

end Go

/-- The documents of the searched knowledge bases.  Document ids are UUIDs. -/
structure Index where
  docs : List DocId
  sentinel_not_mem : Go.noMatchDocIDSentinel ∉ docs

def Index.searched (index : Index) (docIds : List DocId) : List DocId :=
  if docIds = [] then index.docs else index.docs.filter fun doc => doc ∈ docIds

@[simp] theorem Index.mem_searched {index : Index} {docIds : List DocId} {doc : DocId} :
    doc ∈ index.searched docIds ↔ doc ∈ index.docs ∧ (docIds = [] ∨ doc ∈ docIds) := by
  by_cases unrestricted : docIds = []
  · simp [searched, unrestricted]
  · simp [searched, unrestricted]

/-- Every searched document is one of the selected ones and meets the conditions, `none` when the
filter has not produced any. -/
def Restricts (index : Index) (baseDocIds : List DocId)
    (run : List (Condition Value) → String → List DocId)
    (conditions : Option (List (Condition Value) × String)) (docIds : List DocId) : Prop :=
  ∀ doc ∈ index.searched docIds, doc ∈ baseDocIds ∧
    ∀ filters ∈ conditions, filters.1 = [] ∨ doc ∈ run filters.1 filters.2

variable {services : Services Value} {metas : Metas} {kbIds : List String}
  {metaDataFilter : Option (MetaDataFilter Value)} {baseDocIds : List DocId} {index : Index}
  {run : List (Condition Value) → String → List DocId}
  {conditions : Option (List (Condition Value) × String)} {docIds : List DocId}

def conditionsOf (services : Services Value) (metas : Metas)
    (metaDataFilter : Option (MetaDataFilter Value))
    (manualValueResolver : Option (Condition Value → Condition Value)) :
    Option (List (Condition Value) × String) :=
  metaDataFilter.bind fun filter =>
    if filter.method = some "auto" then some (generated services metas.items [])
    else if filter.method = some "semi_auto" then
      let shown := filteredMetas metas (selectedKeys filter.semiAuto)
      if selectedKeys filter.semiAuto ≠ [] ∧ shown ≠ [] then
        some (generated services shown (constraints filter.semiAuto))
      else none
    else if filter.method = some "manual" then
      let filters := match manualValueResolver with
        | none => filter.manual
        | some resolve => filter.manual.map resolve
      some (filters, filter.logic.getD "and")
    else none

def Go.conditionsOf (services : Services Value) (metas : Metas)
    (metaDataFilter : Option (MetaDataFilter Value)) :
    Option (List (Condition Value) × String) :=
  metaDataFilter.bind fun filter =>
    if filter.method = some "auto" then services.genMetaFilter metas.items []
    else if filter.method = some "semi_auto" then
      let shown := filteredMetas metas (Go.selectedKeys filter.semiAuto)
      if Go.selectedKeys filter.semiAuto ≠ [] ∧ shown ≠ [] then
        services.genMetaFilter shown (Go.constraints filter.semiAuto)
      else none
    else if filter.method = some "manual" then
      if filter.manual = [] then none else some (filter.manual, filter.logic.getD "and")
    else none

def automatic (metaDataFilter : Option (MetaDataFilter Value)) : Bool :=
  metaDataFilter.any fun filter =>
    filter.method = some "auto" ∨ filter.method = some "semi_auto"

theorem applyMetaDataFilter_eq (nonempty : baseDocIds ≠ [])
    (manualValueResolver : Option (Condition Value → Condition Value)) :
    applyMetaDataFilter services metas kbIds metaDataFilter baseDocIds manualValueResolver =
      some (baseDocIds ++
        match conditionsOf services metas metaDataFilter manualValueResolver with
        | none => []
        | some filters => runMetadataFilter services metas kbIds filters.1 filters.2) := by
  cases metaDataFilter with
  | none => simp [applyMetaDataFilter, conditionsOf]
  | some filter =>
    simp only [applyMetaDataFilter, conditionsOf, Option.bind_some]
    by_cases auto : filter.method = some "auto"
    · simp [auto, nonempty]
    by_cases semiAuto : filter.method = some "semi_auto"
    · by_cases shown : selectedKeys filter.semiAuto ≠ [] ∧
          filteredMetas metas (selectedKeys filter.semiAuto) ≠ []
      · simp [semiAuto, shown, nonempty]
      · simp [semiAuto, if_neg shown]
    by_cases manual : filter.method = some "manual"
    · simp [manual, nonempty]
    · simp [auto, semiAuto, manual]

@[simp] theorem Go.mem_constrainDocIDs (nonempty : baseDocIds ≠ []) {filtered : List DocId}
    {doc : DocId} :
    doc ∈ Go.constrainDocIDs baseDocIds filtered ↔ doc ∈ baseDocIds ∧ doc ∈ filtered := by
  simp [Go.constrainDocIDs, nonempty]

theorem Go.applyMetaDataFilter_eq :
    Go.applyMetaDataFilter services metas kbIds metaDataFilter baseDocIds =
      match Go.conditionsOf services metas metaDataFilter with
      | none => (baseDocIds, false)
      | some filters =>
        let docIds := Go.constrainDocIDs baseDocIds
          (Go.runMetadataFilter services metas kbIds filters.1 filters.2)
        if docIds = [] then
          if automatic metaDataFilter then ([], true) else ([Go.noMatchDocIDSentinel], false)
        else (docIds, false) := by
  cases metaDataFilter with
  | none => rfl
  | some filter =>
    simp only [Go.applyMetaDataFilter, Go.conditionsOf, Option.bind_some, automatic,
      Option.any_some]
    by_cases auto : filter.method = some "auto"
    · simp only [auto, if_true]
      cases services.genMetaFilter metas.items [] <;> simp
    by_cases semiAuto : filter.method = some "semi_auto"
    · by_cases shown : Go.selectedKeys filter.semiAuto ≠ [] ∧
          filteredMetas metas (Go.selectedKeys filter.semiAuto) ≠ []
      · simp only [semiAuto, if_pos shown]
        cases services.genMetaFilter (filteredMetas metas (Go.selectedKeys filter.semiAuto))
          (Go.constraints filter.semiAuto) <;> simp
      · simp [semiAuto, if_neg shown]
    by_cases manual : filter.method = some "manual"
    · by_cases none_given : filter.manual = []
      · simp [manual, none_given]
      · simp [manual, none_given]
    · simp [auto, semiAuto, manual]

theorem restricts_append_iff (nonempty : baseDocIds ≠ []) {filters : List (Condition Value)}
    {logic : String} :
    Restricts index baseDocIds run (some (filters, logic)) (baseDocIds ++ run filters logic) ↔
      ∀ doc ∈ index.docs, (doc ∈ run filters logic → doc ∈ baseDocIds) ∧
        (filters ≠ [] → doc ∈ baseDocIds → doc ∈ run filters logic) := by
  simp only [Restricts, Index.mem_searched, List.append_eq_nil_iff, nonempty, false_and, false_or,
    List.mem_append, Option.mem_some_iff, forall_eq']
  constructor
  · intro restricts doc indexed
    refine ⟨fun selected => (restricts doc ⟨indexed, Or.inr selected⟩).1, ?_⟩
    intro conditional inBase
    exact (restricts doc ⟨indexed, Or.inl inBase⟩).2.resolve_left conditional
  · rintro agree doc ⟨indexed, inBase | selected⟩
    · refine ⟨inBase, ?_⟩
      by_cases unconditional : filters = []
      · exact Or.inl unconditional
      · exact Or.inr ((agree doc indexed).2 unconditional inBase)
    · exact ⟨(agree doc indexed).1 selected, Or.inr selected⟩

theorem restricts_none (nonempty : baseDocIds ≠ []) :
    Restricts index baseDocIds run none baseDocIds := by
  intro doc searched
  exact ⟨(Index.mem_searched.mp searched).2.resolve_left nonempty, by simp⟩

theorem restricts_sentinel :
    Restricts index baseDocIds run conditions [Go.noMatchDocIDSentinel] := by
  intro doc searched
  obtain ⟨indexed, isSentinel⟩ := Index.mem_searched.mp searched
  apply absurd indexed
  simp only [List.cons_ne_nil, List.mem_singleton, false_or] at isSentinel
  exact isSentinel ▸ index.sentinel_not_mem

theorem Go.restricts_constrainDocIDs (nonempty : baseDocIds ≠ [])
    {filters : List (Condition Value) × String}
    (found : Go.constrainDocIDs baseDocIds (run filters.1 filters.2) ≠ []) :
    Restricts index baseDocIds run (some filters)
      (Go.constrainDocIDs baseDocIds (run filters.1 filters.2)) := by
  intro doc searched
  have kept := (Index.mem_searched.mp searched).2.resolve_left found
  obtain ⟨inBase, selected⟩ := (Go.mem_constrainDocIDs nonempty).mp kept
  refine ⟨inBase, ?_⟩
  simp [selected]

theorem Go.constrainDocIDs_eq_nil (nonempty : baseDocIds ≠ []) {filtered : List DocId} :
    Go.constrainDocIDs baseDocIds filtered = [] ↔ ∀ doc ∈ baseDocIds, doc ∉ filtered := by
  simp only [List.eq_nil_iff_forall_not_mem, Go.mem_constrainDocIDs nonempty, not_and]

theorem restricts_nil_iff {filters : List (Condition Value) × String}
    (disjoint : ∀ doc ∈ baseDocIds, doc ∉ run filters.1 filters.2) :
    Restricts index baseDocIds run (some filters) [] ↔
      ∀ doc ∈ index.docs, doc ∈ baseDocIds ∧ filters.1 = [] := by
  simp only [Restricts, Index.mem_searched, true_or, and_true, Option.mem_some_iff, forall_eq']
  constructor
  · intro restricts doc indexed
    obtain ⟨inBase, satisfied⟩ := restricts doc indexed
    exact ⟨inBase, satisfied.resolve_right (disjoint doc inBase)⟩
  · intro whole doc indexed
    exact ⟨(whole doc indexed).1, Or.inl (whole doc indexed).2⟩

theorem Go.restricts_iff (nonempty : baseDocIds ≠ []) (caller : Go.Caller) :
    Restricts index baseDocIds (Go.runMetadataFilter services metas kbIds)
        (Go.conditionsOf services metas metaDataFilter)
        (Go.retrievalDocIds caller
          (Go.applyMetaDataFilter services metas kbIds metaDataFilter baseDocIds)) ↔
      caller = .chat ∨ automatic metaDataFilter = false ∨
        ∀ filters ∈ Go.conditionsOf services metas metaDataFilter,
          (∃ doc ∈ baseDocIds,
            doc ∈ Go.runMetadataFilter services metas kbIds filters.1 filters.2) ∨
            ∀ doc ∈ index.docs, doc ∈ baseDocIds ∧ filters.1 = [] := by
  rw [Go.applyMetaDataFilter_eq]
  cases Go.conditionsOf services metas metaDataFilter with
  | none =>
    have unfiltered : Go.retrievalDocIds caller (baseDocIds, false) = baseDocIds := by
      cases caller <;> rfl
    simp [unfiltered, restricts_none nonempty]
  | some filters =>
    by_cases found : Go.constrainDocIDs baseDocIds
        (Go.runMetadataFilter services metas kbIds filters.1 filters.2) = []
    · have disjoint := (Go.constrainDocIDs_eq_nil nonempty).mp found
      have disjoint' : ¬ ∃ doc ∈ baseDocIds,
          doc ∈ Go.runMetadataFilter services metas kbIds filters.1 filters.2 := by
        rintro ⟨doc, inBase, selected⟩
        exact disjoint doc inBase selected
      simp only [found, if_true, Option.mem_some_iff, forall_eq', disjoint', false_or]
      cases automatic metaDataFilter with
      | false => cases caller <;> simp [Go.retrievalDocIds, restricts_sentinel]
      | true =>
        cases caller <;>
          simp [Go.retrievalDocIds, restricts_sentinel, restricts_nil_iff disjoint]
    · have meets : ∃ doc ∈ baseDocIds,
          doc ∈ Go.runMetadataFilter services metas kbIds filters.1 filters.2 := by
        rw [Go.constrainDocIDs_eq_nil nonempty] at found
        push Not at found
        exact found
      have kept : Restricts index baseDocIds (Go.runMetadataFilter services metas kbIds)
          (some filters) _ := Go.restricts_constrainDocIDs nonempty found
      simp only [found, if_false, Option.mem_some_iff, forall_eq', meets, true_or, or_true,
        iff_true]
      cases caller <;> exact kept

/-- A metadata filter respects the selected documents: in Python exactly when the conditions
select the selected documents and no others, in Go unless dataset search or chunk retrieval
drop the flag of an automatic filter that selects none of them. -/
theorem selection_respected_iff (services : Services Value) (metas : Metas) (kbIds : List String)
    (metaDataFilter : Option (MetaDataFilter Value)) (baseDocIds : List DocId)
    (manualValueResolver : Option (Condition Value → Condition Value)) (index : Index)
    (caller : Go.Caller) (nonempty : baseDocIds ≠ []) :
    (Restricts index baseDocIds (runMetadataFilter services metas kbIds)
        (conditionsOf services metas metaDataFilter manualValueResolver)
        ((applyMetaDataFilter services metas kbIds metaDataFilter baseDocIds
          manualValueResolver).getD []) ↔
      ∀ filters ∈ conditionsOf services metas metaDataFilter manualValueResolver,
        ∀ doc ∈ index.docs,
          (doc ∈ runMetadataFilter services metas kbIds filters.1 filters.2 →
            doc ∈ baseDocIds) ∧
          (filters.1 ≠ [] → doc ∈ baseDocIds →
            doc ∈ runMetadataFilter services metas kbIds filters.1 filters.2)) ∧
    (Restricts index baseDocIds (Go.runMetadataFilter services metas kbIds)
        (Go.conditionsOf services metas metaDataFilter)
        (Go.retrievalDocIds caller
          (Go.applyMetaDataFilter services metas kbIds metaDataFilter baseDocIds)) ↔
      caller = .chat ∨ automatic metaDataFilter = false ∨
        ∀ filters ∈ Go.conditionsOf services metas metaDataFilter,
          (∃ doc ∈ baseDocIds,
            doc ∈ Go.runMetadataFilter services metas kbIds filters.1 filters.2) ∨
            ∀ doc ∈ index.docs, doc ∈ baseDocIds ∧ filters.1 = []) := by
  refine ⟨?_, Go.restricts_iff nonempty caller⟩
  rw [applyMetaDataFilter_eq nonempty]
  cases conditionsOf services metas metaDataFilter manualValueResolver with
  | none => simp [restricts_none nonempty]
  | some filters =>
    simp only [Option.getD_some, Option.mem_some_iff, forall_eq']
    exact restricts_append_iff nonempty

end Service

/-- One document by `alice`, one by `bob`; `filter_out` for `=`; the model asks for `bob`. -/
def authorServices : Services String where
  filterOut v2docs _ value := (v2docs.filter fun bucket => bucket.1 = value).flatMap Prod.snd
  pushdown _ _ _ := none
  genMetaFilter _ _ := some ([{ key := "author", op := "=", value := "bob" }], "and")

def authorMetas : Metas where
  items := [("author", [("alice", ["doc1"]), ("bob", ["doc2"])])]
  nodup := by simp

def authorIndex : Index where
  docs := ["doc1", "doc2"]
  sentinel_not_mem := by decide

def authorFilter (method : String) : MetaDataFilter String where
  method := some method
  semiAuto := []
  manual := [{ key := "author", op := "=", value := "bob" }]
  logic := none

instance decidableRestricts {Value : Type} [DecidableEq Value]
    (index : Index) (baseDocIds : List DocId)
    (run : List (Condition Value) → String → List DocId)
    (conditions : Option (List (Condition Value) × String)) (docIds : List DocId) :
    Decidable (Restricts index baseDocIds run conditions docIds) := by
  unfold Restricts
  infer_instance

/-- With `doc1` selected, the Python service adds the document by `bob`, and dataset search in Go
is given no document ids and searches both. -/
theorem selection_widened :
    ¬ Restricts authorIndex ["doc1"] (runMetadataFilter authorServices authorMetas [])
        (conditionsOf authorServices authorMetas (some (authorFilter "manual")) none)
        ((applyMetaDataFilter authorServices authorMetas [] (some (authorFilter "manual"))
          ["doc1"] none).getD []) ∧
      ¬ Restricts authorIndex ["doc1"] (Go.runMetadataFilter authorServices authorMetas [])
        (Go.conditionsOf authorServices authorMetas (some (authorFilter "auto")))
        (Go.retrievalDocIds .datasetSearch
          (Go.applyMetaDataFilter authorServices authorMetas [] (some (authorFilter "auto"))
            ["doc1"])) := by
  decide

theorem selection_respected_bob :
    Restricts authorIndex ["doc2"] (runMetadataFilter authorServices authorMetas [])
        (conditionsOf authorServices authorMetas (some (authorFilter "manual")) none)
        ((applyMetaDataFilter authorServices authorMetas [] (some (authorFilter "manual"))
          ["doc2"] none).getD []) ∧
      Restricts authorIndex ["doc2"] (Go.runMetadataFilter authorServices authorMetas [])
        (Go.conditionsOf authorServices authorMetas (some (authorFilter "manual")))
        (Go.retrievalDocIds .datasetSearch
          (Go.applyMetaDataFilter authorServices authorMetas [] (some (authorFilter "manual"))
            ["doc2"])) := by
  obtain ⟨python, go⟩ := selection_respected_iff authorServices authorMetas []
    (some (authorFilter "manual")) ["doc2"] none authorIndex .datasetSearch (by decide)
  exact ⟨python.mpr (by decide), go.mpr (by decide)⟩

end RagFlow.Metadata
