import Mathlib
import RagFlow.Lib.Paging

/-!
# Retrieval pagination of the Python dealer

`Dealer.retrieval` answers a page by fetching one block of candidates from the
document store, ranking and filtering the whole block, and cutting the page out
of what survives.  The block size is computed by `_rerank_window`.
-/

namespace RagFlow.Retrieval

open RagFlow.Lib.Paging

/-- A candidate: its id and the document it was cut from.  Whatever a retrieval can
reach was written with the id of its document. -/
structure Chunk where
  id : String
  doc_id : String
  doc_id_ne : doc_id ≠ ""

theorem Chunk.eq_iff {first second : Chunk} :
    (first.id = second.id ∧ first.doc_id = second.doc_id) ↔ first = second := by
  cases first
  cases second
  simp

instance : DecidableEq Chunk := fun _ _ => decidable_of_iff _ Chunk.eq_iff

/-- What the store holds for one question.  `ranked` answers the query as asked and
`relaxed` the second query, sent when the first has no hit at all (without an
embedding model there is no second query, and `relaxed` is empty).  `existing`
tells whether the row of a document is still in the database. -/
structure DocStore where
  ranked : List Chunk
  relaxed : List Chunk
  existing : String → Bool

def DocStore.hits (store : DocStore) : List Chunk :=
  if store.ranked.length = 0 then store.relaxed else store.ranked

/-- One block as returned by `search`: the number of hits and the ranked slice. -/
structure SearchResult where
  total : Nat
  ids : List Chunk

structure Request where
  question : String
  page : Int
  page_size : Int
  similarity_threshold : ℚ
  vector_similarity_weight : ℚ
  top : Int
  rerank_mdl : Bool

/-- What a page carries: its candidates with their similarity, and the number of
candidates of the block that passed the threshold. -/
structure Ranks where
  total : Nat
  chunks : List (Chunk × ℚ)
  deriving DecidableEq

def ceilDiv (a b : Int) : Int := -(-a / b)

theorem le_ceilDiv_mul {b : Int} (positive : 0 < b) (a : Int) : a ≤ ceilDiv a b * b := by
  have floor := Int.ediv_mul_le (-a) positive.ne'
  rw [ceilDiv, Int.neg_mul]
  omega

namespace Dealer

def rerankWindow (pageSize : Int) (top : Int) : Int :=
  if pageSize ≤ 1 then
    if top > 0 then min 30 top else 30
  else
    let window := ceilDiv 64 pageSize * pageSize
    if top > 0 then min window (ceilDiv top pageSize * pageSize) else window

/-- `Dealer.search`: `page` counts from one, and the offset is a whole number of blocks. -/
def search (store : DocStore) (page size : Int) : SearchResult :=
  let offset := (page - 1) * size
  let limit := size
  { total := store.hits.length
    ids := slice store.hits offset.toNat limit.toNat }

/-- `Dealer._prune_deleted_chunks`: drop the candidates of documents that are gone. -/
def pruneDeletedChunks (existing : String → Bool) (sres : SearchResult) : SearchResult :=
  let chunkDocIds := ((sres.ids.map Chunk.doc_id).filter (· ≠ "")).dedup
  let existingDocIds := chunkDocIds.filter existing
  if existingDocIds.length = chunkDocIds.length then sres
  else
    let filteredIds := sres.ids.filter fun chunk => chunk.doc_id ∈ existingDocIds
    { total := filteredIds.length, ids := filteredIds }

def postThreshold (request : Request) : ℚ :=
  if request.vector_similarity_weight ≤ 0 then 0 else request.similarity_threshold

def validIdx (similarity : Chunk → ℚ) (request : Request) (ids : List Chunk) : List Chunk :=
  let sortedIdx := ids.mergeSort fun a b => decide (similarity b ≤ similarity a)
  sortedIdx.filter fun chunk => decide (postThreshold request ≤ similarity chunk)

def retrieval (store : DocStore) (similarity : Chunk → ℚ) (request : Request) : Ranks :=
  if request.question = "" then { total := 0, chunks := [] }
  else
    let rerankLimit :=
      rerankWindow request.page_size (if request.rerank_mdl then request.top else 0)
    let page := max request.page 1
    let globalOffset := (page - 1) * request.page_size
    let sres := search store (globalOffset / rerankLimit + 1) rerankLimit
    let sres := pruneDeletedChunks store.existing sres
    if sres.total = 0 then { total := 0, chunks := [] }
    else
      let valid := validIdx similarity request sres.ids
      let start := globalOffset % rerankLimit
      let pageIdx := slice valid start.toNat request.page_size.toNat
      { total := valid.length
        chunks := pageIdx.map fun chunk => (chunk, similarity chunk) }

theorem rerankWindow_pos {pageSize : Int} (positive : 1 ≤ pageSize) (top : Int) :
    0 < rerankWindow pageSize top := by
  have window := le_ceilDiv_mul (show 0 < pageSize by omega) 64
  have capped := le_ceilDiv_mul (show 0 < pageSize by omega) top
  simp only [rerankWindow]
  split_ifs <;> omega

theorem dvd_rerankWindow {pageSize : Int} (positive : 1 ≤ pageSize) (top : Int) :
    pageSize ∣ rerankWindow pageSize top := by
  rcases Int.lt_or_eq_of_le positive with large | rfl
  · have window : pageSize ∣ ceilDiv 64 pageSize * pageSize := Int.dvd_mul_left _ _
    have capped : pageSize ∣ ceilDiv top pageSize * pageSize := Int.dvd_mul_left _ _
    simp only [rerankWindow, show ¬pageSize ≤ 1 by omega, if_false]
    split_ifs
    · rcases min_choice (ceilDiv 64 pageSize * pageSize) (ceilDiv top pageSize * pageSize) with
        chosen | chosen
      · rwa [chosen]
      · rwa [chosen]
    · exact window
  · exact one_dvd _

theorem pruneDeletedChunks_ids (existing : String → Bool) (sres : SearchResult) :
    (pruneDeletedChunks existing sres).ids =
      sres.ids.filter fun chunk => existing chunk.doc_id := by
  have listed : ∀ chunk ∈ sres.ids,
      chunk.doc_id ∈ ((sres.ids.map Chunk.doc_id).filter (· ≠ "")).dedup := by
    intro chunk membership
    rw [List.mem_dedup, List.mem_filter]
    exact ⟨List.mem_map_of_mem membership, decide_eq_true chunk.doc_id_ne⟩
  unfold pruneDeletedChunks
  dsimp only
  split_ifs with allExist
  · have everyExists := List.length_filter_eq_length_iff.mp allExist
    exact (List.filter_eq_self.mpr fun chunk membership =>
      everyExists _ (listed chunk membership)).symm
  · apply List.filter_congr
    intro chunk membership
    simp only [List.mem_filter, listed chunk membership, true_and, Bool.decide_eq_true]

theorem ids_of_total_eq_zero {store : DocStore} {page size : Int}
    (empty : (pruneDeletedChunks store.existing (search store page size)).total = 0) :
    (pruneDeletedChunks store.existing (search store page size)).ids = [] := by
  unfold pruneDeletedChunks at empty ⊢
  dsimp only at empty ⊢
  split_ifs at empty ⊢
  · have noHits : store.hits = [] := List.length_eq_zero_iff.mp empty
    simp [search, noHits]
  · exact List.length_eq_zero_iff.mp empty

/-- The candidates of block `index` that survive, best first, with their similarity. -/
def blockResults (store : DocStore) (similarity : Chunk → ℚ) (request : Request)
    (width index : Nat) : List (Chunk × ℚ) :=
  (validIdx similarity request ((slice store.hits (index * width) width).filter
    fun chunk => store.existing chunk.doc_id)).map fun chunk => (chunk, similarity chunk)

def survives (store : DocStore) (similarity : Chunk → ℚ) (request : Request)
    (chunk : Chunk) : Bool :=
  store.existing chunk.doc_id && decide (postThreshold request ≤ similarity chunk)

theorem validIdx_perm (similarity : Chunk → ℚ) (request : Request) (ids : List Chunk) :
    (validIdx similarity request ids).Perm
      (ids.filter fun chunk => decide (postThreshold request ≤ similarity chunk)) :=
  (List.mergeSort_perm _ _).filter _

theorem validIdx_pairwise (similarity : Chunk → ℚ) (request : Request) (ids : List Chunk) :
    (validIdx similarity request ids).Pairwise fun a b => similarity b ≤ similarity a := by
  apply List.Pairwise.filter
  have sorted := @List.pairwise_mergeSort _ (fun a b => decide (similarity b ≤ similarity a))
    (fun a b c first second => by
      simp only [decide_eq_true_eq] at first second ⊢
      exact second.trans first)
    (fun a b => by simpa using le_total _ _) ids
  exact sorted.imp fun ordered => of_decide_eq_true ordered

theorem blockResults_pairwise (store : DocStore) (similarity : Chunk → ℚ) (request : Request)
    (width index : Nat) :
    (blockResults store similarity request width index).Pairwise fun a b => b.2 ≤ a.2 :=
  List.pairwise_map.mpr (validIdx_pairwise _ _ _)

theorem rank_perm (store : DocStore) (similarity : Chunk → ℚ) (request : Request)
    (ids : List Chunk) :
    (validIdx similarity request (ids.filter fun chunk => store.existing chunk.doc_id)).Perm
      (ids.filter (survives store similarity request)) := by
  refine (validIdx_perm _ _ _).trans (List.Perm.of_eq ?_)
  rw [List.filter_filter]
  exact List.filter_congr fun chunk _ => by simp [survives, Bool.and_comm]

theorem blockResults_length_le (store : DocStore) (similarity : Chunk → ℚ) (request : Request)
    (width index : Nat) :
    (blockResults store similarity request width index).length ≤ width := by
  rw [blockResults, List.length_map, (rank_perm _ _ _ _).length_eq]
  exact (List.length_filter_le _ _).trans (slice_length_le _ _ _)

def window (request : Request) : Int :=
  rerankWindow request.page_size (if request.rerank_mdl then request.top else 0)

def globalOffset (request : Request) : Int := (max request.page 1 - 1) * request.page_size

theorem retrieval_chunks (store : DocStore) (similarity : Chunk → ℚ) (request : Request)
    (asked : request.question ≠ "") :
    (retrieval store similarity request).chunks =
      (slice (validIdx similarity request
          ((search store (globalOffset request / window request + 1) (window request)).ids.filter
            fun chunk => store.existing chunk.doc_id))
        (globalOffset request % window request).toNat request.page_size.toNat).map
      fun chunk => (chunk, similarity chunk) := by
  rw [← pruneDeletedChunks_ids]
  simp only [retrieval, asked, if_false]
  by_cases empty : (pruneDeletedChunks store.existing
      (search store (globalOffset request / window request + 1) (window request))).total = 0
  · rw [ids_of_total_eq_zero empty, if_pos (by simpa [globalOffset, window] using empty)]
    simp [validIdx]
  · rw [if_neg (by simpa [globalOffset, window] using empty)]
    rfl

/-- Page `index + 1` of a request. -/
def pageChunks (store : DocStore) (similarity : Chunk → ℚ) (request : Request)
    (index : Nat) : List (Chunk × ℚ) :=
  (retrieval store similarity { request with page := index + 1 }).chunks

theorem pageChunks_eq (store : DocStore) (similarity : Chunk → ℚ) {request : Request}
    (asked : request.question ≠ "") (positive : 1 ≤ request.page_size) (index : Nat) :
    pageChunks store similarity request index =
      pageThrough (blockResults store similarity request (window request).toNat)
        (window request).toNat request.page_size.toNat index := by
  have windowPositive : 0 < window request := rerankWindow_pos positive _
  obtain ⟨width, widthEq⟩ := Int.eq_ofNat_of_zero_le windowPositive.le
  obtain ⟨size, sizeEq⟩ := Int.eq_ofNat_of_zero_le (show 0 ≤ request.page_size by omega)
  have offset : globalOffset { request with page := index + 1 } = ((index * size : Nat) : Int) := by
    simp only [globalOffset, sizeEq, max_eq_left (show (1 : Int) ≤ index + 1 by omega)]
    push_cast
    ring
  have sameWindow : window { request with page := index + 1 } = width := widthEq
  have block :
      ((index * size : Nat) : Int) / (width : Int) = ((index * size / width : Nat) : Int) :=
    (Int.natCast_ediv _ _).symm
  have position :
      ((index * size : Nat) : Int) % (width : Int) = ((index * size % width : Nat) : Int) :=
    (Int.natCast_emod _ _).symm
  rw [pageChunks, retrieval_chunks store similarity { request with page := index + 1 } asked,
    offset, sameWindow, block, position]
  simp only [search, add_sub_cancel_right, ← Nat.cast_mul, Int.toNat_natCast, sizeEq, widthEq,
    map_slice]
  rfl

/-- The first `count` pages, read one after the other, are the results of the finished
blocks and the front of the results of the current one; once they reach past the last
hit, every surviving candidate has been returned exactly as often as it was ranked. -/
structure PagesRead (store : DocStore) (similarity : Chunk → ℚ) (request : Request)
    (width size : Nat) (page : Nat → List (Chunk × ℚ)) (count : Nat) : Prop where
  blocks : (List.range count).flatMap page =
    (List.range (count * size / width)).flatMap (blockResults store similarity request width) ++
      (blockResults store similarity request width (count * size / width)).take
        (count * size % width)
  complete : store.hits.length ≤ count * size →
    ((List.range count).flatMap page).Perm
      ((store.hits.filter (survives store similarity request)).map fun chunk =>
        (chunk, similarity chunk))

theorem pagesRead_pageThrough (store : DocStore) (similarity : Chunk → ℚ) (request : Request)
    {width size : Nat} (divides : size ∣ width) (positive : 0 < width) (count : Nat) :
    PagesRead store similarity request width size
      (pageThrough (blockResults store similarity request width) width size) count where
  blocks := flatMap_pageThrough divides positive
    (blockResults_length_le store similarity request width) count
  complete := by
    intro covered
    have read := @flatMap_pageThrough_perm _ (survives store similarity request) _
      (rank_perm store similarity request) _ _ divides positive store.hits _ covered
    have mapped : pageThrough (blockResults store similarity request width) width size =
        fun index => (pageThrough (fun index => validIdx similarity request
          ((slice store.hits (index * width) width).filter fun chunk =>
            store.existing chunk.doc_id)) width size index).map
          fun chunk => (chunk, similarity chunk) :=
      funext fun index => (map_pageThrough _ _ width size index).symm
    rw [mapped, ← List.map_flatMap]
    exact read.map _

theorem window_wholePages {request : Request} (positive : 1 ≤ request.page_size) :
    0 < window request ∧ request.page_size ∣ window request :=
  ⟨rerankWindow_pos positive _, dvd_rerankWindow positive _⟩

theorem pagesRead_pageChunks (store : DocStore) (similarity : Chunk → ℚ) {request : Request}
    (asked : request.question ≠ "") (positive : 1 ≤ request.page_size) (count : Nat) :
    PagesRead store similarity request (window request).toNat request.page_size.toNat
      (pageChunks store similarity request) count := by
  obtain ⟨windowPositive, divides⟩ := window_wholePages positive
  have pages : pageChunks store similarity request =
      pageThrough (blockResults store similarity request (window request).toNat)
        (window request).toNat request.page_size.toNat :=
    funext (pageChunks_eq store similarity asked positive)
  rw [pages]
  refine pagesRead_pageThrough store similarity request ?_ (by omega) count
  rw [← Int.natCast_dvd_natCast, Int.toNat_of_nonneg (by omega), Int.toNat_of_nonneg (by omega)]
  exact divides

/-- The window is a whole number of pages, every block's results are its surviving
candidates best first, and the pages return these results in full, none lost, repeated
or moved. -/
theorem retrieval_pages (store : DocStore) (similarity : Chunk → ℚ) (request : Request)
    (asked : request.question ≠ "") (positive : 1 ≤ request.page_size) :
    (0 < window request ∧ request.page_size ∣ window request) ∧
    (∀ index, (blockResults store similarity request (window request).toNat index).Pairwise
        (fun a b => b.2 ≤ a.2) ∧
      (blockResults store similarity request (window request).toNat index).Perm
        (((slice store.hits (index * (window request).toNat) (window request).toNat).filter
          (survives store similarity request)).map fun chunk => (chunk, similarity chunk))) ∧
    ∀ count, PagesRead store similarity request (window request).toNat
      request.page_size.toNat (pageChunks store similarity request) count := by
  exact ⟨window_wholePages positive,
    fun index => ⟨blockResults_pairwise _ _ _ _ _, (rank_perm _ _ _ _).map _⟩,
    pagesRead_pageChunks store similarity asked positive⟩

theorem retrieval_pages_of_ten :
    window ⟨"q", 1, 10, 0, 1, 1024, true⟩ = 70 ∧
    PagesRead ⟨[⟨"a", "d", by decide⟩, ⟨"b", "d", by decide⟩], [], fun _ => true⟩ (fun _ => 1)
      ⟨"q", 1, 10, 0, 1, 1024, true⟩ 70 10
      (pageChunks ⟨[⟨"a", "d", by decide⟩, ⟨"b", "d", by decide⟩], [], fun _ => true⟩
        (fun _ => 1) ⟨"q", 1, 10, 0, 1, 1024, true⟩) 1 :=
  ⟨by decide, (retrieval_pages _ _ ⟨"q", 1, 10, 0, 1, 1024, true⟩
    (by decide) (by decide)).2.2 1⟩

end Dealer

end RagFlow.Retrieval

/-!
# Retrieval pagination of the Go service

`RetrievalService.Retrieval` bounds the block size by `Top` and by sixty-four after rounding it to a
whole number of pages.
-/

namespace RagFlow.Retrieval.Service

open RagFlow.Lib.Paging

/-- A Go `int`: 64 bits, two's complement. -/
def goInt (value : Int) : Int := value.bmod (2 ^ 64)

theorem goInt_of_lt {value : Int} (nonneg : 0 ≤ value) (small : value < 2 ^ 63) :
    goInt value = value := by
  apply Int.bmod_eq_of_le <;> omega

/-- The part of a `RetrievalRequest` that the pagination reads; absent pointers are `none`. -/
structure RetrievalRequest where
  question : String
  page : Int
  pageSize : Int
  top : Option Int
  similarityThreshold : Option ℚ
  vectorSimilarityWeight : Option ℚ
  rerankModel : Bool

def RetrievalRequest.topOrDefault (req : RetrievalRequest) : Int := req.top.getD 1024

def RetrievalRequest.effectivePageSize (req : RetrievalRequest) : Int :=
  if req.pageSize ≤ 0 then 1 else req.pageSize

def RetrievalRequest.effectivePage (req : RetrievalRequest) : Int :=
  if req.page ≤ 0 then 1 else req.page

def rerankLimit (pageSize : Int) (rerankModel : Bool) (top : Int) : Int :=
  let rerankLimit := if pageSize > 1 then ceilDiv 64 pageSize * pageSize else 1
  let rerankLimit := if rerankLimit < 30 then 30 else rerankLimit
  -- Cap rerank limit when external rerank model is used
  if rerankModel ∧ top > 0 then
    let rerankLimit := if rerankLimit > top then top else rerankLimit
    if rerankLimit > 64 then 64 else rerankLimit
  else rerankLimit

/-- `RetrievalService.Search`, as far as the block it asks the engine for. -/
def search (store : DocStore) (page pageSize top : Int) : SearchResult :=
  let pg := if page - 1 < 0 then 0 else page - 1
  let topk := if top ≤ 0 then 1024 else top
  let pageSize := if pageSize ≤ 0 then topk else pageSize
  let limit := pageSize
  { total := store.hits.length
    ids := slice store.hits (goInt (pg * pageSize)).toNat limit.toNat }

def pruneDeletedChunks (existing : String → Bool) (result : SearchResult) : SearchResult :=
  let uniqueDocIDs := ((result.ids.map Chunk.doc_id).filter (· ≠ "")).dedup
  let existingDocIDs := uniqueDocIDs.filter existing
  if existingDocIDs.length = uniqueDocIDs.length then result
  else
    let filteredIDs := result.ids.filter fun chunk =>
      chunk.doc_id = "" ∨ chunk.doc_id ∈ existingDocIDs
    { total := filteredIDs.length, ids := filteredIDs }

/-- The Go expression `values[start:stop]`, which panics outside `0 ≤ start ≤ stop ≤ len`. -/
def reslice (values : List Chunk) (start stop : Int) : Option (List Chunk) :=
  if 0 ≤ start ∧ start ≤ stop ∧ stop ≤ values.length then
    some (slice values start.toNat (stop - start).toNat)
  else none

def validIdx (score : Chunk → ℚ) (req : RetrievalRequest) (ids : List Chunk) : List Chunk :=
  let vtWeight := req.vectorSimilarityWeight.getD (3 / 10)
  let postThreshold := if vtWeight ≤ 0 then 0 else req.similarityThreshold.getD (1 / 5)
  let idxScores := ids.mergeSort fun a b => !decide (score b > score a)
  idxScores.filter fun chunk => decide (score chunk ≥ postThreshold)

def pageIdx (valid : List Chunk) (globalOffset rerankLimit pageSize : Int) :
    Option (List Chunk) :=
  let start := globalOffset.tmod rerankLimit
  let stop := goInt (start + pageSize)
  if start < valid.length then
    let stop := if stop > valid.length then (valid.length : Int) else stop
    reslice valid start stop
  else some []

/-- `RetrievalService.Retrieval`; `none` is a run-time panic. -/
def retrieval (store : DocStore) (score : Chunk → ℚ) (req : RetrievalRequest) :
    Option (List (Chunk × ℚ)) :=
  if req.question = "" then some []
  else
    let pageSize := req.effectivePageSize
    let rerankLimit := rerankLimit pageSize req.rerankModel req.topOrDefault
    let globalOffset := goInt ((req.effectivePage - 1) * pageSize)
    let searchPage := globalOffset.tdiv rerankLimit + 1
    let searchResult := search store searchPage rerankLimit req.topOrDefault
    let searchResult := pruneDeletedChunks store.existing searchResult
    if searchResult.total = 0 then some []
    else
      let valid := validIdx score req searchResult.ids
      if valid.length = 0 then some []
      else
        (pageIdx valid globalOffset rerankLimit pageSize).map fun page =>
          page.map fun chunk => (chunk, score chunk)

/-- The request the Python dealer would be given. -/
def RetrievalRequest.toPython (req : RetrievalRequest) : Request where
  question := req.question
  page := req.effectivePage
  page_size := req.effectivePageSize
  similarity_threshold := req.similarityThreshold.getD (1 / 5)
  vector_similarity_weight := req.vectorSimilarityWeight.getD (3 / 10)
  top := req.topOrDefault
  rerank_mdl := req.rerankModel

theorem effectivePageSize_pos (req : RetrievalRequest) : 1 ≤ req.effectivePageSize := by
  unfold RetrievalRequest.effectivePageSize
  split_ifs <;> omega

theorem ceilDiv_mul_of_dvd {a b : Int} (positive : 0 < b) (divides : b ∣ a) :
    ceilDiv a b * b = a := by
  obtain ⟨factor, rfl⟩ := divides
  rw [ceilDiv, ← Int.mul_neg, Int.mul_ediv_cancel_left _ positive.ne', Int.neg_neg, Int.mul_comm]

theorem rerankLimit_reranked {pageSize top : Int} (large : 1 < pageSize) (bounded : 0 < top) :
    rerankLimit pageSize true top = min top 64 := by
  have window := le_ceilDiv_mul (show 0 < pageSize by omega) 64
  simp only [rerankLimit, large, gt_iff_lt, if_true, true_and, bounded]
  split_ifs <;> omega

theorem rerankLimit_uncapped {pageSize top : Int} (positive : 1 ≤ pageSize) (rerankModel : Bool)
    (uncapped : rerankModel = false ∨ top ≤ 0) :
    rerankLimit pageSize rerankModel top =
      Dealer.rerankWindow pageSize (if rerankModel then top else 0) := by
  have window := le_ceilDiv_mul (show 0 < pageSize by omega) 64
  have noCap : ¬(rerankModel = true ∧ top > 0) := by
    rcases uncapped with plain | unbounded
    · simp [plain]
    · omega
  have noTop : ¬(if rerankModel then top else 0) > 0 := by
    rcases uncapped with plain | unbounded
    · simp [plain]
    · split_ifs <;> omega
  simp only [rerankLimit, Dealer.rerankWindow, noCap, noTop, if_false]
  split_ifs <;> omega

def RetrievalRequest.Aligned (req : RetrievalRequest) : Prop :=
  req.rerankModel = false ∨ req.topOrDefault ≤ 0 ∨ req.effectivePageSize = 1 ∨
    req.effectivePageSize ∣ min req.topOrDefault 64

instance (req : RetrievalRequest) : Decidable req.Aligned := by
  unfold RetrievalRequest.Aligned
  infer_instance

def RetrievalRequest.limit (req : RetrievalRequest) : Int :=
  rerankLimit req.effectivePageSize req.rerankModel req.topOrDefault

theorem limit_of_aligned {req : RetrievalRequest} (aligned : req.Aligned) :
    req.limit = Dealer.window req.toPython := by
  have positive := effectivePageSize_pos req
  by_cases uncapped : req.rerankModel = false ∨ req.topOrDefault ≤ 0
  · exact rerankLimit_uncapped positive _ uncapped
  have capped : req.rerankModel = true ∧ 0 < req.topOrDefault := by
    simpa using uncapped
  have shape : req.effectivePageSize = 1 ∨ req.effectivePageSize ∣ min req.topOrDefault 64 := by
    rcases aligned with plain | unbounded | shape
    · simp [plain] at capped
    · omega
    · exact shape
  simp only [RetrievalRequest.limit, Dealer.window, RetrievalRequest.toPython, capped.1, if_true]
  rcases Int.lt_or_eq_of_le positive with large | single
  · have divides : req.effectivePageSize ∣ min req.topOrDefault 64 :=
      shape.resolve_left (by omega)
    have small : req.effectivePageSize ≤ min req.topOrDefault 64 :=
      Int.le_of_dvd (by omega) divides
    have window := le_ceilDiv_mul (show 0 < req.effectivePageSize by omega) 64
    have pool := le_ceilDiv_mul (show 0 < req.effectivePageSize by omega) req.topOrDefault
    rw [rerankLimit_reranked large capped.2]
    simp only [Dealer.rerankWindow, show ¬req.effectivePageSize ≤ 1 by omega, gt_iff_lt,
      capped.2, if_true, if_false]
    rcases le_total req.topOrDefault 64 with few | many
    · rw [min_eq_left few] at divides ⊢
      rw [ceilDiv_mul_of_dvd (by omega) divides] at pool ⊢
      omega
    · rw [min_eq_right many] at divides ⊢
      rw [ceilDiv_mul_of_dvd (by omega) divides]
      omega
  · simp only [← single, rerankLimit, Dealer.rerankWindow, capped.2, true_and, gt_iff_lt,
      if_true, le_refl, lt_irrefl, if_false, show (1 : Int) < 30 by omega]
    split_ifs <;> omega

theorem aligned_of_dvd {req : RetrievalRequest} (divides : req.effectivePageSize ∣ req.limit) :
    req.Aligned := by
  by_contra misaligned
  simp only [RetrievalRequest.Aligned, not_or, Bool.not_eq_false, not_le] at misaligned
  obtain ⟨reranked, bounded, several, ragged⟩ := misaligned
  have positive := effectivePageSize_pos req
  rw [RetrievalRequest.limit, reranked, rerankLimit_reranked (by omega) bounded] at divides
  exact ragged divides

theorem pruneDeletedChunks_eq (existing : String → Bool) (result : SearchResult) :
    pruneDeletedChunks existing result = Dealer.pruneDeletedChunks existing result := by
  simp only [pruneDeletedChunks, Dealer.pruneDeletedChunks, Chunk.doc_id_ne, false_or]

theorem validIdx_eq (score : Chunk → ℚ) (req : RetrievalRequest) (ids : List Chunk) :
    validIdx score req ids = Dealer.validIdx score req.toPython ids := by
  have before : (fun a b => !decide (score b > score a)) =
      fun a b => decide (score b ≤ score a) := by
    funext a b
    rw [← decide_not]
    simp
  simp only [validIdx, Dealer.validIdx, Dealer.postThreshold, RetrievalRequest.toPython, before,
    ge_iff_le]
  rfl

theorem search_eq (store : DocStore) {block limit : Int} (top : Int) (nonneg : 0 ≤ block)
    (positive : 0 < limit) (small : block * limit < 2 ^ 63) :
    search store (block + 1) limit top = Dealer.search store (block + 1) limit := by
  simp only [search, Dealer.search, add_sub_cancel_right, show ¬block < 0 by omega,
    show ¬limit ≤ 0 by omega, if_false,
    goInt_of_lt (mul_nonneg nonneg positive.le) small]

theorem reslice_clipped (values : List Chunk) {start size : Int} (nonneg : 0 ≤ start)
    (inside : start < values.length) (positive : 0 < size) :
    reslice values start
        (if start + size > values.length then (values.length : Int) else start + size) =
      some (slice values start.toNat size.toNat) := by
  unfold reslice slice
  split_ifs with clipped ordered ordered
  · congr 1
    rw [List.take_of_length_le, List.take_of_length_le] <;>
      rw [List.length_drop] <;> omega
  · omega
  · congr 2
    omega
  · omega

theorem pageIdx_eq (valid : List Chunk) {offset limit size : Int} (nonneg : 0 ≤ offset)
    (limitPositive : 0 < limit) (positive : 0 < size) (small : offset + size < 2 ^ 63) :
    pageIdx valid offset limit size =
      some (slice valid (offset % limit).toNat size.toNat) := by
  have start : 0 ≤ offset % limit := Int.emod_nonneg _ limitPositive.ne'
  have startLe : offset % limit ≤ offset := by
    have division := Int.mul_ediv_add_emod offset limit
    have blocks := mul_nonneg limitPositive.le (Int.ediv_nonneg nonneg limitPositive.le)
    omega
  simp only [pageIdx, Int.tmod_eq_emod_of_nonneg nonneg,
    goInt_of_lt (show 0 ≤ offset % limit + size by omega) (by omega)]
  split_ifs with inside clipped
  · simpa only [clipped, if_true] using reslice_clipped valid start inside positive
  · simpa only [clipped, if_false] using reslice_clipped valid start inside positive
  · rw [slice, List.drop_eq_nil_of_le (by omega), List.take_nil]

theorem retrieval_of_offset (store : DocStore) (score : Chunk → ℚ) (req : RetrievalRequest)
    (offset limit : Int) (asked : req.question ≠ "")
    (offsetEq : goInt ((req.effectivePage - 1) * req.effectivePageSize) = offset)
    (limitEq : req.limit = limit) (nonneg : 0 ≤ offset) (limitPositive : 0 < limit)
    (small : offset + req.effectivePageSize < 2 ^ 63) :
    retrieval store score req =
      some ((slice (Dealer.validIdx score req.toPython
          ((Dealer.search store (offset / limit + 1) limit).ids.filter fun chunk =>
            store.existing chunk.doc_id))
        (offset % limit).toNat req.effectivePageSize.toNat).map
          fun chunk => (chunk, score chunk)) := by
  have positive := effectivePageSize_pos req
  have searched : search store (offset.tdiv limit + 1) limit req.topOrDefault =
      Dealer.search store (offset / limit + 1) limit := by
    have blockStart := Int.ediv_mul_le offset limitPositive.ne'
    rw [Int.tdiv_eq_ediv_of_nonneg nonneg]
    exact search_eq store _ (Int.ediv_nonneg nonneg limitPositive.le) limitPositive (by omega)
  have bounded : rerankLimit req.effectivePageSize req.rerankModel req.topOrDefault = limit :=
    limitEq
  rw [← Dealer.pruneDeletedChunks_ids]
  simp only [retrieval, asked, if_false, offsetEq, bounded, searched,
    pruneDeletedChunks_eq, validIdx_eq,
    pageIdx_eq _ nonneg limitPositive (show 0 < req.effectivePageSize by omega) small,
    Option.map_some]
  split_ifs with noHits noValid
  · rw [Dealer.ids_of_total_eq_zero noHits]
    simp [Dealer.validIdx]
  · rw [List.length_eq_zero_iff] at noValid
    simp [noValid]
  · rfl

theorem retrieval_eq (store : DocStore) (score : Chunk → ℚ) {req : RetrievalRequest}
    (asked : req.question ≠ "") (aligned : req.Aligned) (index : Nat)
    (small : ((index : Int) + 1) * req.effectivePageSize < 2 ^ 63) :
    retrieval store score { req with page := index + 1 } =
      some (Dealer.pageChunks store score req.toPython index) := by
  have positive := effectivePageSize_pos req
  have nonneg : 0 ≤ (index : Int) * req.effectivePageSize := by positivity
  rw [add_one_mul] at small
  have page : ({ req with page := index + 1 } : RetrievalRequest).effectivePage = index + 1 := by
    simp only [RetrievalRequest.effectivePage, show ¬(index : Int) + 1 ≤ 0 by omega, if_false]
  have offset : goInt ((index : Int) * req.effectivePageSize) = index * req.effectivePageSize :=
    goInt_of_lt nonneg (by omega)
  have pythonOffset : Dealer.globalOffset { req.toPython with page := index + 1 } =
      index * req.effectivePageSize := by
    simp only [Dealer.globalOffset, RetrievalRequest.toPython,
      max_eq_left (show (1 : Int) ≤ index + 1 by omega), add_sub_cancel_right]
  rw [retrieval_of_offset store score { req with page := index + 1 }
    (index * req.effectivePageSize) (Dealer.window req.toPython) asked
    (by rw [page, add_sub_cancel_right]; exact offset)
    (limit_of_aligned aligned) nonneg (Dealer.rerankWindow_pos positive _) small,
    Dealer.pageChunks, Dealer.retrieval_chunks store score
      { req.toPython with page := index + 1 } asked, pythonOffset]
  rfl

/-- Page `index + 1` of a request. -/
def pageChunks (store : DocStore) (score : Chunk → ℚ) (req : RetrievalRequest) (index : Nat) :
    List (Chunk × ℚ) :=
  (retrieval store score { req with page := index + 1 }).getD []

/-- The law the Python dealer obeys: the block is a positive number of whole pages, and
all pages that end below the largest `int` are returned without a panic, are the
dealer's pages, and make up the blocks. -/
def LawfulPages (req : RetrievalRequest) : Prop :=
  (0 < req.limit ∧ req.effectivePageSize ∣ req.limit) ∧
  ∀ store score, ∀ count : Nat, count * req.effectivePageSize < 2 ^ 63 →
    (∀ index < count, retrieval store score { req with page := index + 1 } =
      some (Dealer.pageChunks store score req.toPython index)) ∧
    Dealer.PagesRead store score req.toPython req.limit.toNat req.effectivePageSize.toNat
      (pageChunks store score req) count

/-- A rerank model and pages of ten: the window is cut to sixty-four, six pages and
four entries, so the law fails. -/
theorem not_lawfulPages_of_ten :
    ¬ LawfulPages ⟨"q", 1, 10, some 1024, none, none, true⟩ := fun lawful =>
  absurd lawful.1.2 (by decide)

/-- The Go service pages as the Python dealer does exactly on the aligned requests. -/
theorem lawfulPages_iff_aligned (req : RetrievalRequest) (asked : req.question ≠ "") :
    LawfulPages req ↔ req.Aligned := by
  constructor
  · exact fun lawful => aligned_of_dvd lawful.1.2
  · intro aligned
    have positive := effectivePageSize_pos req
    have limit := limit_of_aligned aligned
    have window : 0 < Dealer.window req.toPython ∧
        req.effectivePageSize ∣ Dealer.window req.toPython :=
      Dealer.window_wholePages positive
    rw [← limit] at window
    refine ⟨window, fun store score count small => ?_⟩
    have pages : ∀ index < count, retrieval store score { req with page := index + 1 } =
        some (Dealer.pageChunks store score req.toPython index) := by
      intro index below
      refine retrieval_eq store score asked aligned index (lt_of_le_of_lt ?_ small)
      exact mul_le_mul_of_nonneg_right (by exact_mod_cast below) (by omega)
    refine ⟨pages, ?_⟩
    have same : (List.range count).flatMap (pageChunks store score req) =
        (List.range count).flatMap (Dealer.pageChunks store score req.toPython) :=
      List.flatMap_congr fun index below => by
        rw [pageChunks, pages index (List.mem_range.mp below), Option.getD_some]
    have read : Dealer.PagesRead store score req.toPython (Dealer.window req.toPython).toNat
        req.effectivePageSize.toNat (Dealer.pageChunks store score req.toPython) count :=
      Dealer.pagesRead_pageChunks store score asked positive count
    rw [← limit] at read
    exact ⟨same ▸ read.blocks, same ▸ read.complete⟩

theorem lawfulPages_of_thirty_two :
    LawfulPages ⟨"q", 1, 32, some 1024, none, none, true⟩ :=
  (lawfulPages_iff_aligned _ (by decide)).mpr (by decide)

end RagFlow.Retrieval.Service
