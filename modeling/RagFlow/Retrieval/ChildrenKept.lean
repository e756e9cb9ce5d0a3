import Mathlib.Algebra.Order.Ring.Rat
import Mathlib.Data.List.Sort
import RagFlow.Lib.ExchangeSort
import RagFlow.Lib.Grouping
import RagFlow.Lib.PyString

/-!
# Children folded into their parents

`Dealer.retrieval_by_children` of `rag/nlp/search.py` and `RetrievalByChildren` of
`internal/service/nlp/retrieval.go`: chunks that name a parent are replaced by it, with the mean of
their similarities.  Numbers are rationals; the document store is a parameter.
-/

namespace RagFlow.Retrieval.Children

open Lib

/-- A retrieved chunk.  A `mom_id` that is missing or no text is `none`; `q_vec` is the first field
whose name ends with `_vec`. -/
structure Chunk where
  chunk_id : String
  mom_id : Option String
  content_ltks : String
  content_with_weight : String
  doc_id : String
  docnm_kwd : Option String
  kb_id : String
  important_kwd : List String
  image_id : String
  similarity : ℚ
  vector_similarity : ℚ
  term_similarity : ℚ
  vector : List ℚ
  q_vec : Option (List ℚ)
  positions : Option (List (List Int))
  doc_type_kwd : String
  deriving DecidableEq

structure Parent where
  content_with_weight : String
  doc_id : String
  docnm_kwd : Option String
  kb_id : String
  img_id : Option String
  position_int : Option (List (List Int))
  doc_type_kwd : Option String

abbrev DataStore := String → String → List String → Option Parent

def index_name (uid : String) : String := "ragflow_" ++ uid

def mean (cks : List Chunk) : ℚ := (cks.map Chunk.similarity).sum / cks.length

def momOf (ck : Chunk) : Option String := ck.mom_id.filter fun mom_id => PyString.strip mom_id ≠ ""

def foldedPy (id : String) (cks : List Chunk) (chunk : Parent) (vector_size : Nat) : Chunk × Nat :=
  let vec := cks.head?.bind Chunk.q_vec
  ({ chunk_id := id
     mom_id := none
     content_ltks := " ".intercalate (cks.map Chunk.content_ltks)
     content_with_weight := chunk.content_with_weight
     doc_id := chunk.doc_id
     docnm_kwd := some (chunk.docnm_kwd.getD "")
     kb_id := chunk.kb_id
     important_kwd := cks.flatMap Chunk.important_kwd
     image_id := chunk.img_id.getD ""
     similarity := mean cks
     vector_similarity := mean cks
     term_similarity := mean cks
     vector := vec.getD (List.replicate vector_size 0)
     q_vec := none
     positions := some (chunk.position_int.getD [])
     doc_type_kwd := chunk.doc_type_kwd.getD "" },
    (vec.map List.length).getD vector_size)

def expandPy (dataStore : DataStore) (idx_nm : String) (state : List Chunk × Nat)
    (group : String × List Chunk) : List Chunk × Nat :=
  match dataStore group.1 idx_nm (group.2.map Chunk.kb_id) with
  | none => (state.1 ++ group.2, state.2)
  | some chunk =>
    let (d, vector_size) := foldedPy group.1 group.2 chunk state.2
    (state.1 ++ [d], vector_size)

/-- `chunks.pop(i)` for those that name a parent. -/
def popChildren : List Chunk → List Chunk
  | [] => []
  | ck :: rest => if momOf ck = none then ck :: popChildren rest else popChildren rest

/-- No result is an `IndexError`. -/
def retrieval_by_children (dataStore : DataStore) (chunks : List Chunk) (tenant_ids : List String) :
    Option (List Chunk) :=
  if chunks = [] then some []
  else
    let mom_chunks := Grouping.group momOf chunks
    let chunks := popChildren chunks
    if mom_chunks.items = [] then some chunks
    else
      (tenant_ids.map index_name).head?.map fun idx_nm =>
        (mom_chunks.items.foldl (expandPy dataStore idx_nm) (chunks, 1024)).1.insertionSort
          fun first second => second.similarity ≤ first.similarity

def goMomOf (ck : Chunk) : Option String := ck.mom_id.filter fun momID => momID ≠ ""

def kbIDsOf (childList : List Chunk) : List String :=
  let kbIDs := (childList.map Chunk.kb_id).filter fun kbID => kbID ≠ ""
  if kbIDs = [] then [""] else kbIDs

def foldedGo (momID : String) (childList : List Chunk) (parent : Parent) (vectorSize : Nat) :
    Chunk × Nat :=
  let vec := childList.findSome? Chunk.q_vec
  ({ chunk_id := momID
     mom_id := none
     content_ltks := " ".intercalate (childList.map Chunk.content_ltks)
     content_with_weight := parent.content_with_weight
     doc_id := parent.doc_id
     docnm_kwd := parent.docnm_kwd
     kb_id := parent.kb_id
     important_kwd := childList.flatMap Chunk.important_kwd
     image_id := parent.img_id.getD ""
     similarity := mean childList
     vector_similarity := mean childList
     term_similarity := mean childList
     vector := vec.getD (List.replicate vectorSize 0)
     q_vec := none
     positions := parent.position_int
     doc_type_kwd := parent.doc_type_kwd.getD "" },
    (vec.map List.length).getD vectorSize)

def expandGo (docEngine : DataStore) (indexName : String) (state : List Chunk × Nat)
    (group : String × List Chunk) : List Chunk × Nat :=
  match docEngine group.1 indexName (kbIDsOf group.2) with
  | none => state
  | some parent =>
    let (aggregated, vectorSize) := foldedGo group.1 group.2 parent state.2
    (state.1 ++ [aggregated], vectorSize)

def momChunks (chunks : List Chunk) : Dict String (List Chunk) := Grouping.group goMomOf chunks

/-- The order in which Go goes through the map is an argument. -/
def RetrievalByChildren (docEngine : DataStore) (chunks : List Chunk) (tenantIDs : List String)
    (iteration : List (String × List Chunk)) : List Chunk :=
  match (tenantIDs.map index_name).head? with
  | none => chunks
  | some indexName =>
    if chunks = [] then chunks
    else if (momChunks chunks).items = [] then chunks
    else
      let remainingChunks := chunks.filter fun ck => goMomOf ck = none
      ExchangeSort.sort Chunk.similarity
        (iteration.foldl (expandGo docEngine indexName) (remainingChunks, 1024)).1

end RagFlow.Retrieval.Children

/-!
# Chunks kept when children are folded

Every chunk should be there once, as itself or in its parent, the most similar first.
-/

namespace RagFlow.Retrieval.Children

open Lib

def childrenOf (chunks : List Chunk) (id : String) : List Chunk :=
  Grouping.members momOf chunks id

/-- A chunk for a parent, with the scores of its children. -/
structure StandsFor (id : String) (cks : List Chunk) (parent : Parent) (out : Chunk) : Prop where
  chunk_id : out.chunk_id = id
  content_with_weight : out.content_with_weight = parent.content_with_weight
  doc_id : out.doc_id = parent.doc_id
  kb_id : out.kb_id = parent.kb_id
  content_ltks : out.content_ltks = " ".intercalate (cks.map Chunk.content_ltks)
  important_kwd : out.important_kwd = cks.flatMap Chunk.important_kwd
  similarity : out.similarity = mean cks

abbrev Loader := String → List Chunk → Option Parent

def stays (load : Loader) (chunks : List Chunk) (ck : Chunk) : Bool :=
  ((momOf ck).bind fun id => load id (childrenOf chunks id)).isNone

def Descending (chunks : List Chunk) : Prop :=
  chunks.Pairwise fun first second => second.similarity ≤ first.similarity

/-- The chunks that stay, and one chunk for each of the other parents. -/
structure Represents (load : Loader) (chunks result : List Chunk) : Prop where
  once : ∃ ids outs, ids.Nodup ∧
    (∀ id, id ∈ ids ↔ (∃ ck ∈ chunks, momOf ck = some id) ∧
      (load id (childrenOf chunks id)).isSome = true) ∧
    List.Forall₂ (fun id out => ∃ parent, load id (childrenOf chunks id) = some parent ∧
      StandsFor id (childrenOf chunks id) parent out) ids outs ∧
    result.Perm (chunks.filter (stays load chunks) ++ outs)
  descending : Descending result

def loadPy (dataStore : DataStore) (tenant_ids : List String) : Loader := fun id cks =>
  (tenant_ids.map index_name).head?.bind fun idx_nm => dataStore id idx_nm (cks.map Chunk.kb_id)

def loadGo (dataStore : DataStore) (tenant_ids : List String) : Loader := fun id cks =>
  (tenant_ids.map index_name).head?.bind fun idx_nm => dataStore id idx_nm (kbIDsOf cks)

/-- Python gives such a result, and Go whatever the order in which it goes through its map. -/
structure Conserves (dataStore : DataStore) (tenant_ids : List String) (chunks : List Chunk) :
    Prop where
  python : ∃ result, retrieval_by_children dataStore chunks tenant_ids = some result ∧
    Represents (loadPy dataStore tenant_ids) chunks result
  go : ∀ iteration, iteration.Perm (momChunks chunks).items →
    Represents (loadGo dataStore tenant_ids) chunks
      (RetrievalByChildren dataStore chunks tenant_ids iteration)

def PythonLoads (tenant_ids : List String) (chunks : List Chunk) : Prop :=
  if ∃ ck ∈ chunks, momOf ck ≠ none then tenant_ids ≠ [] else Descending chunks

def GoLoads (dataStore : DataStore) (tenant_ids : List String) (chunks : List Chunk) : Prop :=
  if tenant_ids = [] ∨ ∀ ck ∈ chunks, goMomOf ck = none then Descending chunks
  else ∀ ck ∈ chunks, ∀ id, goMomOf ck = some id →
    momOf ck = some id ∧ (loadGo dataStore tenant_ids id (childrenOf chunks id)).isSome = true

variable {dataStore : DataStore} {tenant_ids : List String} {chunks : List Chunk}

theorem represents_self {load : Loader} (nothing : ∀ ck ∈ chunks, ∀ id, momOf ck = some id →
    load id (childrenOf chunks id) = none) :
    Represents load chunks chunks ↔ Descending chunks := by
  refine ⟨fun represents => represents.descending, fun descending => ⟨?_, descending⟩⟩
  have all : chunks.filter (stays load chunks) = chunks := by
    apply List.filter_eq_self.mpr
    intro ck isChunk
    rw [stays]
    cases isMom : momOf ck with
    | none => rfl
    | some id => rw [Option.bind_some, nothing ck isChunk id isMom, Option.isNone_none]
  refine ⟨[], [], List.nodup_nil, fun id => ?_, .nil, .of_eq (by rw [all, List.append_nil])⟩
  apply iff_of_false (by simp)
  rintro ⟨⟨ck, isChunk, isMom⟩, loaded⟩
  rw [nothing ck isChunk id isMom] at loaded
  cases loaded

theorem standsFor_foldedPy (id : String) (cks : List Chunk) (chunk : Parent) (vector_size : Nat) :
    StandsFor id cks chunk (foldedPy id cks chunk vector_size).1 :=
  ⟨rfl, rfl, rfl, rfl, rfl, rfl, rfl⟩

theorem standsFor_foldedGo (id : String) (cks : List Chunk) (parent : Parent) (vectorSize : Nat) :
    StandsFor id cks parent (foldedGo id cks parent vectorSize).1 :=
  ⟨rfl, rfl, rfl, rfl, rfl, rfl, rfl⟩

theorem foldl_expand {load : Loader} (left : String × List Chunk → List Chunk)
    {expand : List Chunk × Nat → String × List Chunk → List Chunk × Nat}
    (missed : ∀ state group, load group.1 group.2 = none →
      (expand state group).1 = state.1 ++ left group)
    (folded : ∀ state group parent, load group.1 group.2 = some parent →
      ∃ out, StandsFor group.1 group.2 parent out ∧ (expand state group).1 = state.1 ++ [out])
    (groups : List (String × List Chunk)) (state : List Chunk × Nat) :
    ∃ outs, List.Forall₂ (fun group out => ∃ parent, load group.1 group.2 = some parent ∧
        StandsFor group.1 group.2 parent out)
        (groups.filter fun group => (load group.1 group.2).isSome) outs ∧
      (groups.foldl expand state).1.Perm (state.1 ++
        ((groups.filter fun group => (load group.1 group.2).isNone).flatMap left ++ outs)) := by
  induction groups generalizing state with
  | nil => exact ⟨[], .nil, .of_eq (by simp)⟩
  | cons group groups ih =>
    obtain ⟨outs, stand, perm⟩ := ih (expand state group)
    cases loaded : load group.1 group.2 with
    | none =>
      refine ⟨outs, by simpa [loaded] using stand, ?_⟩
      rw [missed state group loaded] at perm
      simpa [loaded] using perm
    | some parent =>
      obtain ⟨out, stands, added⟩ := folded state group parent loaded
      refine ⟨out :: outs, ?_, ?_⟩
      · rw [List.filter_cons_of_pos (by simp [loaded])]
        exact .cons ⟨parent, loaded, stands⟩ stand
      · rw [added, List.append_assoc, List.singleton_append] at perm
        rw [List.filter_cons_of_neg (by simp [loaded])]
        exact perm.trans (.append_left _ List.perm_middle.symm)

theorem groups_eq {groups : List (String × List Chunk)}
    (perm : groups.Perm (Grouping.group momOf chunks).items) :
    groups = (groups.map Prod.fst).map fun id => (id, childrenOf chunks id) := by
  rw [List.map_map]
  refine (List.map_id groups).symm.trans (List.map_congr_left fun group isGroup => ?_)
  exact Prod.ext rfl (Grouping.mem_items_group (perm.subset isGroup))

theorem perm_stays (load : Loader) {groups : List (String × List Chunk)}
    (perm : groups.Perm (Grouping.group momOf chunks).items) :
    (chunks.filter (stays load chunks)).Perm (chunks.filter (fun ck => momOf ck = none) ++
      (groups.filter fun group => (load group.1 group.2).isNone).flatMap Prod.snd) := by
  have split := ((Grouping.perm_group momOf chunks).trans
    (.append_left _ (perm.symm.flatMap_right Prod.snd))).filter (stays load chunks)
  rw [List.filter_append] at split
  have unnamed : (chunks.filter fun ck => momOf ck = none).filter (stays load chunks) =
      chunks.filter fun ck => momOf ck = none := by
    apply List.filter_eq_self.mpr
    intro ck isMem
    have noMom : momOf ck = none := by simpa using (List.mem_filter.mp isMem).2
    rw [stays, noMom]
    rfl
  have named : (groups.flatMap Prod.snd).filter (stays load chunks) =
      (groups.filter fun group => (load group.1 group.2).isNone).flatMap Prod.snd := by
    rw [groups_eq perm]
    induction groups.map Prod.fst with
    | nil => rfl
    | cons id ids ih =>
      have alike : ∀ ck ∈ childrenOf chunks id,
          stays load chunks ck = (load id (childrenOf chunks id)).isNone := by
        intro ck isChild
        rw [stays, (Grouping.mem_members.mp isChild).2, Option.bind_some]
      rw [List.map_cons, List.flatMap_cons, List.filter_append, ih]
      cases loaded : load id (childrenOf chunks id) with
      | none =>
        rw [List.filter_cons_of_pos (by simp [loaded]), List.flatMap_cons]
        refine congrArg (· ++ _) (List.filter_eq_self.mpr fun ck isChild => ?_)
        rw [alike ck isChild, loaded, Option.isNone_none]
      | some parent =>
        rw [List.filter_cons_of_neg (by simp [loaded])]
        have none : (childrenOf chunks id).filter (stays load chunks) = [] :=
          List.filter_eq_nil_iff.mpr fun ck isChild => by simp [alike ck isChild, loaded]
        rw [none]
        rfl
  rwa [unnamed, named] at split

theorem represents_of_groups {load : Loader} {groups : List (String × List Chunk)}
    (perm : groups.Perm (Grouping.group momOf chunks).items) {outs result : List Chunk}
    (stand : List.Forall₂ (fun group out => ∃ parent, load group.1 group.2 = some parent ∧
      StandsFor group.1 group.2 parent out)
      (groups.filter fun group => (load group.1 group.2).isSome) outs)
    (whole : result.Perm (chunks.filter (fun ck => momOf ck = none) ++
      ((groups.filter fun group => (load group.1 group.2).isNone).flatMap Prod.snd ++ outs)))
    (descending : Descending result) : Represents load chunks result := by
  have stayed := perm_stays load perm
  have names : (groups.map Prod.fst).Perm (Grouping.group momOf chunks).keys := perm.map Prod.fst
  rw [groups_eq perm] at stand stayed whole
  rw [List.filter_map, List.forall₂_map_left_iff] at stand
  have distinct := names.nodup_iff.mpr (Grouping.group momOf chunks).keys_nodup
  refine ⟨⟨(groups.map Prod.fst).filter fun id => (load id (childrenOf chunks id)).isSome, outs,
    distinct.filter _, fun id => ?_, stand, ?_⟩, descending⟩
  · rw [List.mem_filter, names.mem_iff, Grouping.mem_keys_group]
  · rw [← List.append_assoc] at whole
    exact whole.trans (stayed.symm.append_right outs)

theorem popChildren_eq (chunks : List Chunk) :
    popChildren chunks = chunks.filter fun ck => momOf ck = none := by
  induction chunks with
  | nil => rfl
  | cons ck rest ih =>
    rw [popChildren]
    split_ifs with noMom
    · rw [List.filter_cons_of_pos (by simpa using noMom), ih]
    · rw [List.filter_cons_of_neg (by simpa using noMom), ih]

theorem descending_insertionSort (chunks : List Chunk) :
    Descending (chunks.insertionSort fun first second => second.similarity ≤ first.similarity) := by
  have total : Std.Total fun first second : Chunk => second.similarity ≤ first.similarity :=
    ⟨fun first second => le_total second.similarity first.similarity⟩
  have trans : IsTrans Chunk fun first second => second.similarity ≤ first.similarity :=
    ⟨fun _ _ _ lower upper => le_trans upper lower⟩
  exact List.pairwise_insertionSort _ _

theorem items_group_eq_nil {mom : Chunk → Option String} :
    (Grouping.group mom chunks).items = [] ↔ ∀ ck ∈ chunks, mom ck = none := by
  constructor
  · intro isEmpty ck isChunk
    cases isMom : mom ck with
    | none => rfl
    | some id =>
      have isKey := Grouping.mem_keys_group.mpr ⟨ck, isChunk, isMom⟩
      rw [Dict.keys, isEmpty] at isKey
      cases isKey
  · intro noMoms
    apply List.eq_nil_iff_forall_not_mem.mpr
    intro entry isEntry
    obtain ⟨ck, isChunk, isMom⟩ := Grouping.mem_keys_group.mp (List.mem_map_of_mem isEntry)
    rw [noMoms ck isChunk] at isMom
    cases isMom

theorem represents_retrieval_by_children {idx_nm : String}
    (isIndex : (tenant_ids.map index_name).head? = some idx_nm) :
    Represents (loadPy dataStore tenant_ids) chunks
      (((Grouping.group momOf chunks).items.foldl (expandPy dataStore idx_nm)
        (popChildren chunks, 1024)).1.insertionSort
          fun first second => second.similarity ≤ first.similarity) := by
  have loaded (id : String) (cks : List Chunk) : loadPy dataStore tenant_ids id cks =
      dataStore id idx_nm (cks.map Chunk.kb_id) := by rw [loadPy, isIndex, Option.bind_some]
  have missed (state : List Chunk × Nat) (group : String × List Chunk)
      (notLoaded : loadPy dataStore tenant_ids group.1 group.2 = none) :
      (expandPy dataStore idx_nm state group).1 = state.1 ++ group.2 := by
    rw [loaded] at notLoaded
    simp [expandPy, notLoaded]
  have folded (state : List Chunk × Nat) (group : String × List Chunk) (parent : Parent)
      (found : loadPy dataStore tenant_ids group.1 group.2 = some parent) :
      ∃ out, StandsFor group.1 group.2 parent out ∧
        (expandPy dataStore idx_nm state group).1 = state.1 ++ [out] := by
    rw [loaded] at found
    exact ⟨_, standsFor_foldedPy group.1 group.2 parent state.2, by simp [expandPy, found]⟩
  obtain ⟨outs, stand, perm⟩ := foldl_expand Prod.snd missed folded
    (Grouping.group momOf chunks).items (popChildren chunks, 1024)
  refine represents_of_groups (.refl _) stand ?_ (descending_insertionSort _)
  rw [← popChildren_eq]
  exact (List.perm_insertionSort _ _).trans perm

theorem python_iff : (∃ result, retrieval_by_children dataStore chunks tenant_ids = some result ∧
    Represents (loadPy dataStore tenant_ids) chunks result) ↔ PythonLoads tenant_ids chunks := by
  unfold PythonLoads
  split_ifs with named
  · obtain ⟨ck, isChunk, isMom⟩ := named
    have someChunks : chunks ≠ [] := List.ne_nil_of_mem isChunk
    have someGroups : (Grouping.group momOf chunks).items ≠ [] := fun isEmpty =>
      isMom (items_group_eq_nil.mp isEmpty ck isChunk)
    rw [retrieval_by_children, if_neg someChunks]
    dsimp only
    rw [if_neg someGroups]
    cases isIndex : (tenant_ids.map index_name).head? with
    | none =>
      have noTenant : tenant_ids = [] := by simpa using isIndex
      simp [noTenant]
    | some idx_nm =>
      have tenant : tenant_ids ≠ [] := by
        rintro rfl
        cases isIndex
      exact iff_of_true ⟨_, rfl, represents_retrieval_by_children isIndex⟩ tenant
  · have noMoms : ∀ ck ∈ chunks, momOf ck = none := by simpa using named
    have same : retrieval_by_children dataStore chunks tenant_ids = some chunks := by
      rw [retrieval_by_children]
      split_ifs with noChunks
      · rw [noChunks]
      · dsimp only
        rw [if_pos (items_group_eq_nil.mpr noMoms), popChildren_eq,
          List.filter_eq_self.mpr (by simpa using noMoms)]
    rw [same]
    have nothing : ∀ ck ∈ chunks, ∀ id, momOf ck = some id →
        loadPy dataStore tenant_ids id (childrenOf chunks id) = none := fun ck isChunk id isMom =>
      absurd (isMom.symm.trans (noMoms ck isChunk)) (by simp)
    simpa using represents_self nothing

theorem goMomOf_of_momOf {ck : Chunk} {id : String} (isMom : momOf ck = some id) :
    goMomOf ck = some id := by
  obtain ⟨found, notBlank⟩ := Option.filter_eq_some_iff.mp isMom
  refine Option.filter_eq_some_iff.mpr ⟨found, decide_eq_true ?_⟩
  rintro rfl
  exact of_decide_eq_true notBlank rfl

theorem mom_id_of_goMomOf {ck : Chunk} {id : String} (isMom : goMomOf ck = some id) :
    ck.mom_id = some id := (Option.filter_eq_some_iff.mp isMom).1

theorem represents_go {idx_nm : String}
    (isIndex : (tenant_ids.map index_name).head? = some idx_nm)
    (loads : ∀ ck ∈ chunks, ∀ id, goMomOf ck = some id →
      momOf ck = some id ∧ (loadGo dataStore tenant_ids id (childrenOf chunks id)).isSome = true)
    {iteration : List (String × List Chunk)} (perm : iteration.Perm (momChunks chunks).items) :
    Represents (loadGo dataStore tenant_ids) chunks (ExchangeSort.sort Chunk.similarity
      (iteration.foldl (expandGo dataStore idx_nm)
        (chunks.filter (fun ck => goMomOf ck = none), 1024)).1) := by
  have sameMom : ∀ ck ∈ chunks, goMomOf ck = momOf ck := by
    intro ck isChunk
    cases isMom : goMomOf ck with
    | some id => exact (loads ck isChunk id isMom).1.symm
    | none =>
      cases named : momOf ck with
      | none => rfl
      | some id => exact absurd ((goMomOf_of_momOf named).symm.trans isMom) (by simp)
  have loaded (id : String) (cks : List Chunk) : loadGo dataStore tenant_ids id cks =
      dataStore id idx_nm (kbIDsOf cks) := by rw [loadGo, isIndex, Option.bind_some]
  have missed (state : List Chunk × Nat) (group : String × List Chunk)
      (notLoaded : loadGo dataStore tenant_ids group.1 group.2 = none) :
      (expandGo dataStore idx_nm state group).1 = state.1 ++ [] := by
    rw [loaded] at notLoaded
    simp [expandGo, notLoaded]
  have folded (state : List Chunk × Nat) (group : String × List Chunk) (parent : Parent)
      (found : loadGo dataStore tenant_ids group.1 group.2 = some parent) :
      ∃ out, StandsFor group.1 group.2 parent out ∧
        (expandGo dataStore idx_nm state group).1 = state.1 ++ [out] := by
    rw [loaded] at found
    exact ⟨_, standsFor_foldedGo group.1 group.2 parent state.2, by simp [expandGo, found]⟩
  obtain ⟨outs, stand, whole⟩ := foldl_expand (fun _ => []) missed folded iteration
    (chunks.filter (fun ck => goMomOf ck = none), 1024)
  rw [momChunks, Grouping.group_congr sameMom] at perm
  have allLoaded : (iteration.filter fun group =>
      (loadGo dataStore tenant_ids group.1 group.2).isNone) = [] := by
    apply List.filter_eq_nil_iff.mpr
    intro group isGroup
    have isEntry := perm.subset isGroup
    obtain ⟨ck, isChunk, isMom⟩ := Grouping.mem_keys_group.mp (List.mem_map_of_mem isEntry)
    have found := (loads ck isChunk group.1 (goMomOf_of_momOf isMom)).2
    have members : group.2 = childrenOf chunks group.1 := Grouping.mem_items_group isEntry
    rw [members]
    simpa using Option.isSome_iff_ne_none.mp found
  have unnamed : (chunks.filter fun ck => goMomOf ck = none) =
      chunks.filter fun ck => momOf ck = none :=
    List.filter_congr fun ck isChunk => by rw [sameMom ck isChunk]
  refine represents_of_groups perm stand ?_ (ExchangeSort.sort_pairwise _)
  rw [unnamed] at whole ⊢
  rw [allLoaded] at whole ⊢
  exact (ExchangeSort.sort_perm _).trans whole

theorem goMomOf_of_mem_go {idx_nm : String} {iteration : List (String × List Chunk)} {ck : Chunk}
    (isMem : ck ∈ ExchangeSort.sort Chunk.similarity (iteration.foldl (expandGo dataStore idx_nm)
      (chunks.filter (fun ck => goMomOf ck = none), 1024)).1) : goMomOf ck = none := by
  have folded : ∀ out ∈ (iteration.foldl (expandGo dataStore idx_nm)
      (chunks.filter (fun ck => goMomOf ck = none), 1024)).1, goMomOf out = none := by
    refine List.foldlRecOn
      (motive := fun state : List Chunk × Nat => ∀ out ∈ state.1, goMomOf out = none)
      iteration _ (by simp) fun state earlier group _ => ?_
    unfold expandGo
    cases dataStore group.1 idx_nm (kbIDsOf group.2) with
    | none => exact earlier
    | some parent =>
      intro out isOut
      rcases List.mem_append.mp isOut with isEarlier | isNew
      · exact earlier out isEarlier
      · rw [List.mem_singleton.mp isNew]
        rfl
  exact folded ck ((ExchangeSort.sort_perm _).subset isMem)

theorem go_iff : (∀ iteration, iteration.Perm (momChunks chunks).items →
    Represents (loadGo dataStore tenant_ids) chunks
      (RetrievalByChildren dataStore chunks tenant_ids iteration)) ↔
    GoLoads dataStore tenant_ids chunks := by
  unfold GoLoads
  split_ifs with nothing
  · have same (iteration : List (String × List Chunk)) :
        RetrievalByChildren dataStore chunks tenant_ids iteration = chunks := by
      unfold RetrievalByChildren
      rcases nothing with rfl | noMoms
      · rfl
      · rw [momChunks, items_group_eq_nil.mpr noMoms]
        cases (tenant_ids.map index_name).head? <;> simp
    have notLoaded : ∀ ck ∈ chunks, ∀ id, momOf ck = some id →
        loadGo dataStore tenant_ids id (childrenOf chunks id) = none := by
      intro ck isChunk id isMom
      rcases nothing with rfl | noMoms
      · rfl
      · exact absurd ((goMomOf_of_momOf isMom).symm.trans (noMoms ck isChunk)) (by simp)
    constructor
    · intro represents
      have self := represents _ (.refl _)
      rw [same] at self
      exact self.descending
    · intro descending iteration _
      rw [same]
      exact (represents_self notLoaded).mpr descending
  · obtain ⟨tenant, named⟩ := not_or.mp nothing
    obtain ⟨idx_nm, isIndex⟩ : ∃ idx_nm, (tenant_ids.map index_name).head? = some idx_nm := by
      obtain ⟨first, others, rfl⟩ := List.exists_cons_of_ne_nil tenant
      exact ⟨_, rfl⟩
    have someGroups : (momChunks chunks).items ≠ [] := fun isEmpty =>
      named (items_group_eq_nil.mp isEmpty)
    have someChunks : chunks ≠ [] := by
      rintro rfl
      exact named (by simp)
    have result (iteration : List (String × List Chunk)) :
        RetrievalByChildren dataStore chunks tenant_ids iteration =
          ExchangeSort.sort Chunk.similarity (iteration.foldl (expandGo dataStore idx_nm)
            (chunks.filter (fun ck => goMomOf ck = none), 1024)).1 := by
      rw [RetrievalByChildren, isIndex]
      dsimp only
      rw [if_neg someChunks, if_neg someGroups]
    constructor
    · intro represents ck isChunk id isMom
      by_contra notLoaded
      have self := represents _ (.refl _)
      obtain ⟨ids, outs, -, -, -, whole⟩ := self.once
      have itStays : stays (loadGo dataStore tenant_ids) chunks ck = true := by
        rw [stays]
        cases isNamed : momOf ck with
        | none => rfl
        | some other =>
          have sameId := (mom_id_of_goMomOf (goMomOf_of_momOf isNamed)).symm.trans
            (mom_id_of_goMomOf isMom)
          obtain rfl := Option.some.inj sameId
          simpa [isNamed] using notLoaded
      have inResult := whole.symm.subset
        (List.mem_append_left outs (List.mem_filter.mpr ⟨isChunk, itStays⟩))
      rw [result] at inResult
      rw [goMomOf_of_mem_go inResult] at isMom
      cases isMom
    · intro loads iteration perm
      rw [result]
      exact represents_go isIndex loads perm

/-- Both keep every chunk exactly where there is a tenant and all parents can be loaded, or nothing
to load and nothing to sort. -/
theorem conserves_iff_loads (dataStore : DataStore) (tenant_ids : List String) (chunks : List Chunk) :
    Conserves dataStore tenant_ids chunks ↔
      PythonLoads tenant_ids chunks ∧ GoLoads dataStore tenant_ids chunks :=
  ⟨fun conserves => ⟨python_iff.mp conserves.python, go_iff.mp conserves.go⟩,
    fun ⟨python, go⟩ => ⟨python_iff.mpr python, go_iff.mpr go⟩⟩

def orphan : Chunk where
  chunk_id := "child"
  mom_id := some "parent"
  content_ltks := "text"
  content_with_weight := "text"
  doc_id := "doc"
  docnm_kwd := none
  kb_id := "kb"
  important_kwd := []
  image_id := ""
  similarity := 1
  vector_similarity := 1
  term_similarity := 1
  vector := []
  q_vec := none
  positions := none
  doc_type_kwd := ""

/-- Go drops it where the store does not have the parent. -/
theorem not_conserves_orphan : ¬ Conserves (fun _ _ _ => none) ["tenant"] [orphan] := by
  intro conserves
  obtain ⟨ids, outs, -, -, -, whole⟩ := (conserves.go _ (.refl _)).once
  have itStays : orphan ∈ [orphan].filter
      (stays (loadGo (fun _ _ _ => none) ["tenant"]) [orphan]) := by decide
  exact absurd (whole.symm.subset (List.mem_append_left outs itStays)) (by decide)

end RagFlow.Retrieval.Children
