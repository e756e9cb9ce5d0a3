import RagFlow.Lib.Fallible
import RagFlow.Rerank.RankFeatures

/-!
# Reranking with a model

`RerankByModel` of `reranker.go` and `rerank_by_model` of `rag/nlp/search.py`, with exact
arithmetic: the scores of candidate chunks from their tokens, the rerank model and their rank
features.
-/

namespace RagFlow.Rerank

open Lib

noncomputable section

structure Chunk extends Fields where
  pagerank_fea : ℝ
  tag_feas : Option TagFea

/-- Both ports are given every candidate they name. -/
structure SearchResult (Id : Type) where
  ids : List Id
  field : Id → Option Chunk
  isFound : ∀ id ∈ ids, (field id).isSome

def SearchResult.chunks {Id : Type} (sres : SearchResult Id) : List Chunk :=
  sres.ids.filterMap sres.field

/-- What the ports share: readers of tag features, the keywords of a question, and the weight of a
term in a list of terms. -/
structure Shared where
  readers : Readers
  question : Text → List Text
  weigh : List Text → Text → NNReal

variable (shared : Shared)

def addPair (t : Text) (c : NNReal) : List (Text × NNReal) → Scores → Scores
  | [], d => d
  | (_t, _c) :: _, d => d.upsert (t ++ _t) fun old => old.getD 0 + max c _c * 0.6

def addTerms : List (Text × NNReal) → Scores → Scores
  | [], d => d
  | (t, c) :: wts, d =>
    addTerms wts (addPair t c wts (d.upsert t fun old => old.getD 0 + c * 0.4))

/-- `to_dict` of `token_similarity`, and `tokensToDict` -/
def tokensToDict (tks : List Text) : Scores :=
  addTerms (tks.map fun t => (t, shared.weigh tks t)) .empty

def similarity (qtwt dtwt : Scores) : ℝ :=
  let s := 1e-9 + sumOf (fun k v => if k ∈ dtwt.keys then v else 0) qtwt
  let q := 1e-9 + sumOf (fun _ v => v) qtwt
  s / q

def tokenDictSimilarity (qtwt dtwt : Scores) : ℝ :=
  if qtwt.items.isEmpty ∨ dtwt.items.isEmpty then 0
  else
    let s := 1e-9 + sumOf (fun t weight => if t ∈ dtwt.keys then weight else 0) qtwt
    let q := 1e-9 + sumOf (fun _ weight => weight) qtwt
    s / q

def tokenSimilarity (query : Text) (compare : Scores → Scores → ℝ) (tks : List Text) : ℝ :=
  compare (tokensToDict shared (shared.question query)) (tokensToDict shared tks)

def NormalizeRerankScores : List ℝ → List ℝ
  | [] => []
  | first :: rest =>
    let minScore := rest.foldl (fun minScore s => if s < minScore then s else minScore) first
    let maxScore := rest.foldl (fun maxScore s => if s > maxScore then s else maxScore) first
    if minScore ≥ 0 ∧ maxScore ≤ 1 then first :: rest
    else
      let span := maxScore - minScore
      if span < 1e-3 then
        (first :: rest).map fun s => if s < 0 then 0 else if s > 1 then 1 else s
      else
        let invSpan := 1 / span
        (first :: rest).map fun s => (s - minScore) * invSpan

def normalize_rank : List ℝ → List ℝ
  | [] => []
  | first :: rest =>
    let min_rank := rest.foldl min first
    let max_rank := rest.foldl max first
    if min_rank ≥ 0 ∧ max_rank ≤ 1 then first :: rest
    else
      let span := max_rank - min_rank
      if span < 1e-3 then (first :: rest).map fun s => min (max s 0) 1
      else (first :: rest).map fun s => (s - min_rank) / span

abbrev Response := List (ℕ × ℝ)

def placed (count : ℕ) (response : Response) : List ℝ :=
  response.foldl (fun rank result => rank.set result.1 result.2) (List.replicate count 0)

/-- As `placed`, with a check of the index -/
def modelScores (count : ℕ) (response : Response) : List ℝ :=
  response.foldl (fun modelSim result =>
    if result.1 < modelSim.length then modelSim.set result.1 result.2 else modelSim)
    (List.replicate count 0)

structure Reranked where
  sent : Option (List Text)
  sim : List ℝ
  tksim : List ℝ
  vtsim : List ℝ

def blend (tkWeight vtWeight : ℝ) : List ℝ → List ℝ → List ℝ :=
  List.zipWith fun tk vt => tkWeight * tk + vtWeight * vt

variable {Id : Type}

def goScore (rankFeature : Scores) (chunk : Chunk) : ℝ → ℝ :=
  applyRankFeatureScore shared.readers rankFeature chunk.pagerank_fea chunk.tag_feas

def pyScore (rank_feature : Scores) (chunk : Chunk) : ℝ :=
  rankFeatureScore shared.readers rank_feature chunk.pagerank_fea chunk.tag_feas

def applyToCandidate (rankFeature : Scores) : Option Chunk → ℝ → ℝ
  | none => applyRankFeatureScore shared.readers rankFeature 0 none
  | some chunk => goScore shared rankFeature chunk

def applyRankFeatureScoresForIDs (ids : List Id) (field : Id → Option Chunk) (sim : List ℝ)
    (rankFeature : Scores) : List ℝ :=
  List.zipWith (fun chunkID => applyToCandidate shared rankFeature (field chunkID)) ids sim

def RerankByModel (chunks : List Chunk) (ids : List Id) (field : Id → Option Chunk) (query : Text)
    (tkWeight vtWeight : ℝ) (rankFeature : Scores) (response : Response) : Reranked :=
  if chunks.isEmpty then { sent := none, sim := [], tksim := [], vtsim := [] }
  else
    let insTw := ids.zipIdx.filterMap fun (chunkID, i) =>
      (field chunkID <|> chunks[i]?).map fun chunk => goTokens chunk.toFields
    let docs := insTw.map fun tks => RemoveRedundantSpaces (joined tks)
    let tsim := insTw.map (tokenSimilarity shared query tokenDictSimilarity)
    let modelSim := NormalizeRerankScores (modelScores insTw.length response)
    let sim := blend tkWeight vtWeight tsim modelSim
    let sim := applyRankFeatureScoresForIDs shared ids field sim rankFeature
    { sent := some docs, sim, tksim := tsim, vtsim := modelSim }

/-- `similarity` of the rerank model: the documents sent, and the scores -/
def modelSimilarity (query : Text) (texts : List Text) (response : Response) :
    Option (List Text) × List ℝ :=
  if query = [] ∨ texts = [] then (none, List.replicate texts.length 0)
  else (some texts, normalize_rank (placed texts.length response))

/-- `rerank_by_model`, once the tokens are read -/
def blended (query : Text) (tkweight vtweight : ℝ) (rank_feature : Scores) (response : Response)
    (chunks : List Chunk) (ins_tw : List (List Text)) : Reranked :=
  let docs := ins_tw.map fun tks => remove_redundant_spaces (joined tks)
  let tksim := ins_tw.map (tokenSimilarity shared query similarity)
  let answer := modelSimilarity query docs response
  let rank_fea := chunks.map (pyScore shared rank_feature)
  { sent := answer.1
    sim := List.zipWith (· + ·) (blend tkweight vtweight tksim answer.2) rank_fea
    tksim
    vtsim := answer.2 }

def rerank_by_model (sres : SearchResult Id) (query : Text) (tkweight vtweight : ℝ)
    (rank_feature : Scores) (response : Response) : Option Reranked := do
  let chunks ← sres.ids.mapM sres.field
  let ins_tw ← chunks.mapM fun chunk => pyTokens chunk.toFields
  some (blended shared query tkweight vtweight rank_feature response chunks ins_tw)

/-- The scores lie between 0 and 1, and none is lower than that of a document scored lower. -/
def Normalized (scores normalized : List ℝ) : Prop :=
  ∃ scale : ℝ → ℝ, Monotone scale ∧ normalized = scores.map scale ∧
    ∀ score ∈ normalized, 0 ≤ score ∧ score ≤ 1

/-- Both ports send the same documents and return the same scores, one for each candidate. -/
def Agrees (sres : SearchResult Id) (query : Text) : Prop :=
  ∀ tkWeight vtWeight rankFeature response, (∀ result ∈ response, result.1 < sres.ids.length) →
    ∃ reranked,
      rerank_by_model shared sres query tkWeight vtWeight rankFeature response = some reranked ∧
      RerankByModel shared sres.chunks sres.ids sres.field query tkWeight vtWeight rankFeature
        response = reranked ∧
      reranked.sim.length = sres.ids.length ∧
      Normalized (placed sres.ids.length response) reranked.vtsim

/-- A candidate has content and tokens, which make one document, and tag features that both ports
read alike. -/
def Alike (chunk : Chunk) : Prop :=
  ∃ tks, pyTokens chunk.toFields = some tks ∧ tks ≠ [] ∧ SameDocument chunk.toFields tks ∧
    SameDirection (goFeatures shared.readers chunk.tag_feas)
      (pyFeatures shared.readers chunk.tag_feas)

theorem NormalizeRerankScores_eq (scores : List ℝ) :
    NormalizeRerankScores scores = normalize_rank scores := by
  cases scores with
  | nil => rfl
  | cons first rest =>
    have least : (fun minScore s : ℝ => if s < minScore then s else minScore) = min := by
      funext minScore s
      rw [min_comm, min_def_lt]
    have greatest : (fun maxScore s : ℝ => if s > maxScore then s else maxScore) = max := by
      funext maxScore s
      rw [max_def_lt]
    have clamp (s : ℝ) : (if s < 0 then 0 else if s > 1 then 1 else s) = min (max s 0) 1 := by
      split_ifs with isLow isHigh
      · rw [max_eq_right isLow.le, min_eq_left zero_le_one]
      · rw [max_eq_left (zero_le_one.trans isHigh.le), min_eq_right isHigh.le]
      · rw [max_eq_left (not_lt.mp isLow), min_eq_left (not_lt.mp isHigh)]
    rw [NormalizeRerankScores, normalize_rank, least, greatest]
    simp only [clamp, mul_one_div]

theorem foldl_min_le (first : ℝ) (rest : List ℝ) :
    ∀ score ∈ first :: rest, rest.foldl min first ≤ score := by
  induction rest generalizing first with
  | nil => simp
  | cons second rest ih =>
    intro score isScore
    rw [List.foldl_cons]
    have least := ih (min first second)
    rw [List.forall_mem_cons] at least
    rw [List.mem_cons, List.mem_cons] at isScore
    rcases isScore with rfl | rfl | isScore
    · exact least.1.trans (min_le_left _ _)
    · exact least.1.trans (min_le_right _ _)
    · exact least.2 score isScore

theorem le_foldl_max (first : ℝ) (rest : List ℝ) :
    ∀ score ∈ first :: rest, score ≤ rest.foldl max first := by
  induction rest generalizing first with
  | nil => simp
  | cons second rest ih =>
    intro score isScore
    rw [List.foldl_cons]
    have greatest := ih (max first second)
    rw [List.forall_mem_cons] at greatest
    rw [List.mem_cons, List.mem_cons] at isScore
    rcases isScore with rfl | rfl | isScore
    · exact (le_max_left _ _).trans greatest.1
    · exact (le_max_right _ _).trans greatest.1
    · exact greatest.2 score isScore

theorem normalized_normalize_rank (scores : List ℝ) :
    Normalized scores (normalize_rank scores) := by
  cases scores with
  | nil => exact ⟨id, monotone_id, rfl, List.forall_mem_nil _⟩
  | cons first rest =>
    have least := foldl_min_le first rest
    have greatest := le_foldl_max first rest
    rw [normalize_rank]
    dsimp only
    split_ifs with isUnit isFlat
    · refine ⟨id, monotone_id, (List.map_id _).symm, fun score isScore => ?_⟩
      exact ⟨isUnit.1.trans (least score isScore), (greatest score isScore).trans isUnit.2⟩
    · refine ⟨fun s => min (max s 0) 1, ?_, rfl, List.forall_mem_map.mpr fun s _ => ?_⟩
      · exact fun _ _ lower => min_le_min_right _ (max_le_max_right _ lower)
      · exact ⟨le_min (le_max_right _ _) zero_le_one, min_le_right _ _⟩
    · have isWide : 0 < rest.foldl max first - rest.foldl min first :=
        lt_of_lt_of_le (by norm_num) (not_lt.mp isFlat)
      refine ⟨fun s => (s - rest.foldl min first) / (rest.foldl max first - rest.foldl min first),
        ?_, rfl, List.forall_mem_map.mpr fun s isScore => ?_⟩
      · exact fun _ _ lower => div_le_div_of_nonneg_right (sub_le_sub_right lower _) isWide.le
      · exact ⟨div_nonneg (sub_nonneg.mpr (least s isScore)) isWide.le,
          (div_le_one isWide).mpr (sub_le_sub_right (greatest s isScore) _)⟩

theorem modelScores_eq (count : ℕ) (response : Response) :
    modelScores count response = placed count response := by
  apply congrArg (fun step => response.foldl step (List.replicate count 0))
  funext modelSim result
  split
  · rfl
  · rename_i outside
    exact (List.set_eq_of_length_le (not_lt.mp outside)).symm

theorem length_placed (count : ℕ) (response : Response) :
    (placed count response).length = count := by
  induction response using List.reverseRecOn with
  | nil => exact List.length_replicate
  | append_singleton response result ih =>
    rw [placed, List.foldl_concat, ← placed, List.length_set, ih]

theorem length_normalize_rank (scores : List ℝ) :
    (normalize_rank scores).length = scores.length := by
  obtain ⟨scale, -, isMap, -⟩ := normalized_normalize_rank scores
  rw [isMap, List.length_map]

theorem items_upsert_ne_nil (d : Scores) (t : Text) (write : Option ℝ → ℝ) :
    (d.upsert t write).items ≠ [] := by
  intro isEmpty
  have isKey : t ∈ (d.upsert t write).keys :=
    Dict.mem_keys_of_get? (by rw [Dict.get?_upsert, if_pos rfl])
  rw [Dict.keys, isEmpty] at isKey
  cases isKey

theorem addPair_ne_nil (t : Text) (c : NNReal) (wts : List (Text × NNReal)) {d : Scores}
    (notEmpty : d.items ≠ []) : (addPair t c wts d).items ≠ [] := by
  cases wts with
  | nil => exact notEmpty
  | cons next wts => exact items_upsert_ne_nil _ _ _

theorem addTerms_ne_nil (wts : List (Text × NNReal)) {d : Scores} (notEmpty : d.items ≠ []) :
    (addTerms wts d).items ≠ [] := by
  induction wts generalizing d with
  | nil => exact notEmpty
  | cons wt wts ih =>
    rw [addTerms]
    exact ih (addPair_ne_nil _ _ _ (items_upsert_ne_nil _ _ _))

theorem tokensToDict_isEmpty {shared : Shared} (tks : List Text) :
    (tokensToDict shared tks).items.isEmpty = true ↔ tks = [] := by
  cases tks with
  | nil => exact iff_of_true rfl rfl
  | cons t tks =>
    rw [tokensToDict, List.map_cons, addTerms, List.isEmpty_iff]
    refine iff_of_false (addTerms_ne_nil _ ?_) (List.cons_ne_nil _ _)
    exact addPair_ne_nil _ _ _ (items_upsert_ne_nil _ _ _)

def Positive (d : Scores) : Prop := ∀ item ∈ d.items, 0 ≤ item.2

theorem positive_upsert {d : Scores} (positive : Positive d) (t : Text) {c : ℝ}
    (isPositive : 0 ≤ c) : Positive (d.upsert t fun old => old.getD 0 + c) := by
  rintro ⟨key, score⟩ isItem
  rw [Dict.mem_items, Dict.get?_upsert] at isItem
  split at isItem
  · rw [← Option.some.inj isItem]
    refine add_nonneg ?_ isPositive
    cases isOld : d.get? t with
    | none => exact le_rfl
    | some old => exact positive _ (Dict.mem_items.mpr isOld)
  · exact positive _ (Dict.mem_items.mpr isItem)

theorem positive_addTerms (wts : List (Text × NNReal)) {d : Scores} (positive : Positive d) :
    Positive (addTerms wts d) := by
  induction wts generalizing d with
  | nil => exact positive
  | cons wt wts ih =>
    rw [addTerms]
    apply ih
    have first := positive_upsert positive wt.1
      (mul_nonneg wt.2.coe_nonneg (by norm_num : (0 : ℝ) ≤ 0.4))
    cases wts with
    | nil => exact first
    | cons next wts =>
      refine positive_upsert first _ (mul_nonneg ?_ (by norm_num))
      exact le_max_of_le_left wt.2.coe_nonneg

theorem similarity_pos {shared : Shared} (ks tks : List Text) :
    0 < similarity (tokensToDict shared ks) (tokensToDict shared tks) := by
  have positive : Positive (tokensToDict shared ks) :=
    positive_addTerms _ fun item isItem => nomatch isItem
  refine div_pos (add_pos_of_pos_of_nonneg (by norm_num) ?_)
    (add_pos_of_pos_of_nonneg (by norm_num) ?_)
  · refine List.sum_nonneg (List.forall_mem_map.mpr fun item isItem => ?_)
    dsimp only
    split
    · exact positive item isItem
    · exact le_rfl
  · exact List.sum_nonneg (List.forall_mem_map.mpr positive)

theorem tokenDictSimilarity_iff {shared : Shared} (ks tks : List Text) :
    tokenDictSimilarity (tokensToDict shared ks) (tokensToDict shared tks) =
      similarity (tokensToDict shared ks) (tokensToDict shared tks) ↔ ks ≠ [] ∧ tks ≠ [] := by
  rw [tokenDictSimilarity]
  simp only [tokensToDict_isEmpty]
  split
  · rename_i isEmpty
    apply iff_of_false (similarity_pos ks tks).ne
    intro notEmpty
    exact isEmpty.elim notEmpty.1 notEmpty.2
  · rename_i notEmpty
    exact iff_of_true rfl (not_or.mp notEmpty)

theorem apply_of_sameDirection {readers : Readers} {tag_fea : Option TagFea}
    (same : SameDirection (goFeatures readers tag_fea) (pyFeatures readers tag_fea))
    (rankFeature : Scores) (pagerank sim : ℝ) :
    applyRankFeatureScore readers rankFeature pagerank tag_fea sim =
      sim + rankFeatureScore readers rankFeature pagerank tag_fea := by
  rw [applyRankFeatureScore, rankFeatureScore, tagScore_of_sameDirection same]
  split_ifs
  · rw [zero_add]
  · rw [zero_add]
  · rfl

theorem tagScore_of_apply {readers : Readers} {tag_fea : Option TagFea} {rankFeature : Scores}
    {pagerank sim : ℝ} (isQuery : q_denor rankFeature ≠ 0)
    (same : applyRankFeatureScore readers rankFeature pagerank tag_fea sim =
      sim + rankFeatureScore readers rankFeature pagerank tag_fea) :
    tagScore rankFeature (goFeatures readers tag_fea) =
      tagScore rankFeature (pyFeatures readers tag_fea) := by
  have notEmpty : ¬rankFeature.items.isEmpty = true := by
    intro isEmpty
    rw [List.isEmpty_iff] at isEmpty
    exact isQuery (by rw [q_denor, sumOf, isEmpty, List.map_nil, List.sum_nil, Real.sqrt_zero])
  rw [applyRankFeatureScore, rankFeatureScore, if_neg notEmpty, if_neg notEmpty, if_neg isQuery,
    if_neg isQuery, add_right_inj, add_left_inj] at same
  exact mul_right_cancel₀ (by norm_num) same

theorem zipWith_eq_iff {Source : Type} {change : Source → ℝ → ℝ} {added : Source → ℝ}
    {sources : List Source} {base : List ℝ} (lengths : sources.length = base.length) :
    List.zipWith change sources base = List.zipWith (· + ·) base (sources.map added) ↔
      ∀ pair ∈ sources.zip base, change pair.1 pair.2 = pair.2 + added pair.1 := by
  induction sources generalizing base with
  | nil => simp
  | cons source sources ih =>
    obtain ⟨score, base, rfl⟩ := List.exists_cons_of_length_eq_add_one lengths.symm
    rw [List.zipWith_cons_cons, List.map_cons, List.zipWith_cons_cons, List.cons_eq_cons,
      List.zip_cons_cons, List.forall_mem_cons, ih (Nat.succ.inj lengths)]

section

variable {shared} {sres : SearchResult Id}

theorem map_eq_filterMap {Source Target : Type} {read : Source → Option Target}
    {sources : List Source} (found : ∀ source ∈ sources, (read source).isSome) :
    sources.map read = (sources.filterMap read).map some := by
  induction sources with
  | nil => rfl
  | cons source sources ih =>
    rw [List.forall_mem_cons] at found
    obtain ⟨target, isTarget⟩ := Option.isSome_iff_exists.mp found.1
    rw [List.map_cons, List.filterMap_cons, isTarget, List.map_cons, ih found.2]

theorem map_field (sres : SearchResult Id) : sres.ids.map sres.field = sres.chunks.map some :=
  map_eq_filterMap sres.isFound

theorem length_chunks (sres : SearchResult Id) : sres.chunks.length = sres.ids.length := by
  have lengths := congrArg List.length (map_field sres)
  rw [List.length_map, List.length_map] at lengths
  exact lengths.symm

/-- The chunks are those in the fields, and the other list is never asked. -/
theorem filterMap_zipIdx {Read : Type} (sres : SearchResult Id) (read : Chunk → Read) :
    (sres.ids.zipIdx.filterMap fun (chunkID, i) =>
      (sres.field chunkID <|> sres.chunks[i]?).map read) = sres.chunks.map read := by
  have onlyField : (sres.ids.zipIdx.filterMap fun (chunkID, i) =>
      (sres.field chunkID <|> sres.chunks[i]?).map read) =
        (sres.ids.zipIdx.map Prod.fst).filterMap fun id => (sres.field id).map read := by
    rw [List.filterMap_map]
    apply List.filterMap_congr
    rintro ⟨id, i⟩ isId
    have isMem : id ∈ sres.ids := (List.mem_zipIdx' isId).2 ▸ List.getElem_mem _
    obtain ⟨chunk, isChunk⟩ := Option.isSome_iff_exists.mp (sres.isFound id isMem)
    simp [isChunk]
  rw [onlyField, List.zipIdx_map_fst, SearchResult.chunks, List.map_filterMap]

theorem applyRankFeatureScoresForIDs_eq (sres : SearchResult Id) (sim : List ℝ)
    (rankFeature : Scores) :
    applyRankFeatureScoresForIDs shared sres.ids sres.field sim rankFeature =
      List.zipWith (goScore shared rankFeature) sres.chunks sim := by
  rw [applyRankFeatureScoresForIDs, ← List.zipWith_map_left, map_field, List.zipWith_map_left]
  rfl

theorem RerankByModel_eq (isSome : sres.chunks ≠ []) (query : Text) (tkWeight vtWeight : ℝ)
    (rankFeature : Scores) (response : Response) :
    RerankByModel shared sres.chunks sres.ids sres.field query tkWeight vtWeight rankFeature
        response =
      let insTw := sres.chunks.map fun chunk => goTokens chunk.toFields
      let tsim := insTw.map (tokenSimilarity shared query tokenDictSimilarity)
      let modelSim := normalize_rank (placed sres.ids.length response)
      { sent := some (insTw.map fun tks => RemoveRedundantSpaces (joined tks))
        sim := List.zipWith (goScore shared rankFeature) sres.chunks
          (blend tkWeight vtWeight tsim modelSim)
        tksim := tsim
        vtsim := modelSim } := by
  rw [RerankByModel, if_neg (by rwa [List.isEmpty_iff])]
  simp only [filterMap_zipIdx, applyRankFeatureScoresForIDs_eq, NormalizeRerankScores_eq,
    modelScores_eq, List.length_map, length_chunks]

theorem rerank_by_model_eq_some {query : Text} {tkweight vtweight : ℝ} {rank_feature : Scores}
    {response : Response} {reranked : Reranked} :
    rerank_by_model shared sres query tkweight vtweight rank_feature response = some reranked ↔
      ∃ ins_tw : List (List Text),
        sres.chunks.map (fun chunk => pyTokens chunk.toFields) = ins_tw.map some ∧
        blended shared query tkweight vtweight rank_feature response sres.chunks ins_tw =
          reranked := by
  have isFound : sres.ids.mapM sres.field = some sres.chunks :=
    Fallible.mapM_eq_some_iff.mpr (map_field sres)
  rw [rerank_by_model, isFound]
  simp only [Option.bind_eq_bind, Option.bind_some, Option.bind_eq_some_iff,
    Fallible.mapM_eq_some_iff, Option.some.injEq]

structure Parts (shared : Shared) (sres : SearchResult Id) (query : Text)
    (ins_tw : List (List Text)) (tkWeight vtWeight : ℝ) (rankFeature : Scores)
    (response : Response) : Prop where
  query_ne_nil : query ≠ []
  documents : (sres.chunks.map fun chunk =>
      RemoveRedundantSpaces (joined (goTokens chunk.toFields))) =
    ins_tw.map fun tks => remove_redundant_spaces (joined tks)
  similarities : (sres.chunks.map fun chunk => tokenSimilarity shared query tokenDictSimilarity
      (goTokens chunk.toFields)) = ins_tw.map (tokenSimilarity shared query similarity)
  rankFeatures :
    let base := blend tkWeight vtWeight (ins_tw.map (tokenSimilarity shared query similarity))
      (normalize_rank (placed sres.ids.length response))
    List.zipWith (goScore shared rankFeature) sres.chunks base =
      List.zipWith (· + ·) base (sres.chunks.map (pyScore shared rankFeature))

theorem length_tokens {ins_tw : List (List Text)}
    (tokens : sres.chunks.map (fun chunk => pyTokens chunk.toFields) = ins_tw.map some) :
    ins_tw.length = sres.ids.length := by
  have lengths := congrArg List.length tokens
  rw [List.length_map, List.length_map, length_chunks] at lengths
  exact lengths.symm

theorem chunks_ne_nil (isSome : sres.ids ≠ []) : sres.chunks ≠ [] := by
  rwa [Ne, ← List.length_eq_zero_iff, length_chunks, List.length_eq_zero_iff]

theorem modelSimilarity_eq {ins_tw : List (List Text)} (isSome : sres.ids ≠ [])
    (tokens : sres.chunks.map (fun chunk => pyTokens chunk.toFields) = ins_tw.map some)
    {query : Text} (isQuery : query ≠ []) (response : Response) :
    modelSimilarity query (ins_tw.map fun tks => remove_redundant_spaces (joined tks)) response =
      (some (ins_tw.map fun tks => remove_redundant_spaces (joined tks)),
        normalize_rank (placed sres.ids.length response)) := by
  have notEmpty : (ins_tw.map fun tks => remove_redundant_spaces (joined tks)) ≠ [] := by
    rw [Ne, List.map_eq_nil_iff, ← List.length_eq_zero_iff, length_tokens tokens,
      List.length_eq_zero_iff]
    exact isSome
  rw [modelSimilarity, if_neg (not_or.mpr ⟨isQuery, notEmpty⟩), List.length_map,
    length_tokens tokens]

theorem parts_iff {ins_tw : List (List Text)} (isSome : sres.ids ≠ [])
    (tokens : sres.chunks.map (fun chunk => pyTokens chunk.toFields) = ins_tw.map some)
    {query : Text} {tkWeight vtWeight : ℝ} {rankFeature : Scores} {response : Response} :
    RerankByModel shared sres.chunks sres.ids sres.field query tkWeight vtWeight rankFeature
        response =
      blended shared query tkWeight vtWeight rankFeature response sres.chunks ins_tw ↔
    Parts shared sres query ins_tw tkWeight vtWeight rankFeature response := by
  rw [RerankByModel_eq (chunks_ne_nil isSome), blended, Reranked.mk.injEq]
  by_cases isQuery : query = []
  · refine iff_of_false (fun same => ?_) fun parts => parts.query_ne_nil isQuery
    have isSent := same.1
    rw [modelSimilarity, if_pos (.inl isQuery)] at isSent
    cases isSent
  · rw [modelSimilarity_eq isSome tokens isQuery, Option.some.injEq, List.map_map, List.map_map,
      Function.comp_def, Function.comp_def]
    constructor
    · rintro ⟨documents, sims, similarities, -⟩
      refine ⟨isQuery, documents, similarities, ?_⟩
      rw [similarities] at sims
      exact sims
    · rintro ⟨-, documents, similarities, rankFeatures⟩
      refine ⟨documents, ?_, similarities, rfl⟩
      rw [similarities]
      exact rankFeatures

theorem agrees_of_nil (isNone : sres.ids = []) (query : Text) : Agrees shared sres query := by
  intro tkWeight vtWeight rankFeature response _
  have noChunks : sres.chunks = [] := by
    rw [← List.length_eq_zero_iff, length_chunks, isNone, List.length_nil]
  have noScores : placed sres.ids.length response = [] := by
    rw [← List.length_eq_zero_iff, length_placed, isNone, List.length_nil]
  refine ⟨_, rerank_by_model_eq_some.mpr ⟨[], by rw [noChunks]; rfl, rfl⟩, ?_⟩
  have answer : modelSimilarity query [] response = (none, []) := if_pos (.inr rfl)
  rw [noScores, RerankByModel, noChunks, if_pos List.isEmpty_nil, blended, List.map_nil,
    List.map_nil, answer, isNone]
  exact ⟨rfl, rfl, id, monotone_id, rfl, List.forall_mem_nil _⟩

theorem length_blend (shared : Shared) {ins_tw : List (List Text)}
    (tokens : sres.chunks.map (fun chunk => pyTokens chunk.toFields) = ins_tw.map some)
    (query : Text) (tkWeight vtWeight : ℝ) (response : Response) :
    (blend tkWeight vtWeight (ins_tw.map (tokenSimilarity shared query similarity))
      (normalize_rank (placed sres.ids.length response))).length = sres.chunks.length := by
  rw [blend, List.length_zipWith, List.length_map, length_tokens tokens, length_normalize_rank,
    length_placed, min_self, length_chunks]

theorem agrees_of_parts {query : Text} {ins_tw : List (List Text)} (isSome : sres.ids ≠ [])
    (tokens : sres.chunks.map (fun chunk => pyTokens chunk.toFields) = ins_tw.map some)
    (parts : ∀ tkWeight vtWeight rankFeature response,
      Parts shared sres query ins_tw tkWeight vtWeight rankFeature response) :
    Agrees shared sres query := by
  intro tkWeight vtWeight rankFeature response _
  have here := parts tkWeight vtWeight rankFeature response
  refine ⟨_, rerank_by_model_eq_some.mpr ⟨ins_tw, tokens, rfl⟩,
    (parts_iff isSome tokens).mpr here, ?_⟩
  rw [blended, modelSimilarity_eq isSome tokens here.query_ne_nil]
  refine ⟨?_, normalized_normalize_rank _⟩
  rw [List.length_zipWith, length_blend shared tokens, List.length_map, min_self, length_chunks]

theorem parts_of_agrees {query : Text} (isSome : sres.ids ≠ [])
    (agrees : Agrees shared sres query) : ∃ ins_tw : List (List Text),
      sres.chunks.map (fun chunk => pyTokens chunk.toFields) = ins_tw.map some ∧
      ∀ rankFeature, Parts shared sres query ins_tw 0 0 rankFeature [] := by
  obtain ⟨reranked, isPy, -⟩ := agrees 0 0 .empty [] (List.forall_mem_nil _)
  obtain ⟨ins_tw, tokens, -⟩ := rerank_by_model_eq_some.mp isPy
  refine ⟨ins_tw, tokens, fun rankFeature => ?_⟩
  obtain ⟨reranked, isPy, isGo, -⟩ := agrees 0 0 rankFeature [] (List.forall_mem_nil _)
  obtain ⟨others, sameTokens, rfl⟩ := rerank_by_model_eq_some.mp isPy
  rw [tokens] at sameTokens
  rw [← List.map_injective_iff.mpr (Option.some_injective _) sameTokens] at isGo
  exact (parts_iff isSome tokens).mp isGo

theorem alike_of_parts {query : Text} {ins_tw : List (List Text)}
    (tokens : sres.chunks.map (fun chunk => pyTokens chunk.toFields) = ins_tw.map some)
    (parts : ∀ rankFeature, Parts shared sres query ins_tw 0 0 rankFeature [])
    {chunk : Chunk} (isChunk : chunk ∈ sres.chunks) :
    shared.question query ≠ [] ∧ Alike shared chunk := by
  have perToken {Part : Type} {go : Chunk → Part} {py : List Text → Part}
      (same : sres.chunks.map go = ins_tw.map py) {tks : List Text}
      (isTokens : pyTokens chunk.toFields = some tks) : go chunk = py tks := by
    have both : sres.chunks.map (fun chunk => some (go chunk)) =
        sres.chunks.map fun chunk => (pyTokens chunk.toFields).map py := by
      have goSome := congrArg (List.map some) same
      have pySome := congrArg (List.map (Option.map py)) tokens
      rw [List.map_map, List.map_map] at goSome pySome
      rw [← Function.comp_def, goSome, ← Function.comp_def, pySome]
      rfl
    have here := List.map_inj_left.mp both chunk isChunk
    rw [isTokens, Option.map_some] at here
    exact Option.some.inj here
  have isTaken : pyTokens chunk.toFields ∈ ins_tw.map some := by
    rw [← tokens]
    exact List.mem_map_of_mem isChunk
  obtain ⟨tks, -, isTokens⟩ := List.mem_map.mp isTaken
  have sameDocument := (sameDocument_iff isTokens.symm).mp
    (perToken (parts .empty).documents isTokens.symm)
  have sameSimilarity := perToken (parts .empty).similarities isTokens.symm
  rw [goTokens_eq isTokens.symm sameDocument] at sameSimilarity
  obtain ⟨keywords, notEmpty⟩ := (tokenDictSimilarity_iff _ _).mp sameSimilarity
  refine ⟨keywords, tks, isTokens.symm, notEmpty, sameDocument, ?_⟩
  apply sameDirection_iff.mp
  intro rankFeature isQuery
  have lengths := (length_blend shared tokens query 0 0 []).symm
  have same := (zipWith_eq_iff lengths).mp (parts rankFeature).rankFeatures
  rw [← List.map_fst_zip lengths.le] at isChunk
  obtain ⟨pair, isPair, rfl⟩ := List.mem_map.mp isChunk
  exact tagScore_of_apply isQuery (same pair isPair)

theorem parts_of_alike {query : Text} (isQuery : query ≠ []) (keywords : shared.question query ≠ [])
    (alike : ∀ chunk ∈ sres.chunks, Alike shared chunk) :
    ∃ ins_tw : List (List Text),
      sres.chunks.map (fun chunk => pyTokens chunk.toFields) = ins_tw.map some ∧
      ∀ tkWeight vtWeight rankFeature response,
        Parts shared sres query ins_tw tkWeight vtWeight rankFeature response := by
  have tokens : sres.chunks.map (fun chunk => pyTokens chunk.toFields) =
      (sres.chunks.map fun chunk => goTokens chunk.toFields).map some := by
    rw [List.map_map]
    apply List.map_congr_left
    intro chunk isChunk
    obtain ⟨tks, isTokens, -, sameDocument, -⟩ := alike chunk isChunk
    rw [Function.comp_apply, isTokens, goTokens_eq isTokens sameDocument]
  refine ⟨_, tokens, fun tkWeight vtWeight rankFeature response => ?_⟩
  constructor
  · exact isQuery
  · rw [List.map_map]
    apply List.map_congr_left
    intro chunk isChunk
    obtain ⟨tks, isTokens, -, sameDocument, -⟩ := alike chunk isChunk
    rw [Function.comp_apply, goTokens_eq isTokens sameDocument]
    exact sameDocument.spaces
  · rw [List.map_map]
    apply List.map_congr_left
    intro chunk isChunk
    obtain ⟨tks, isTokens, notEmpty, sameDocument, -⟩ := alike chunk isChunk
    rw [Function.comp_apply, goTokens_eq isTokens sameDocument]
    exact (tokenDictSimilarity_iff _ _).mpr ⟨keywords, notEmpty⟩
  · apply (zipWith_eq_iff (length_blend shared tokens query _ _ response).symm).mpr
    intro pair isPair
    obtain ⟨tks, -, -, -, sameDirection⟩ := alike pair.1 (List.of_mem_zip isPair).1
    exact apply_of_sameDirection sameDirection _ _ _

end

def plainShared : Shared where
  readers := { loads := fun _ => none, literal_eval := fun _ => none, Unmarshal := fun _ => none }
  question query := [query]
  weigh _ _ := 1

def repeating : SearchResult Unit where
  ids := [()]
  field _ := some
    { content := some "a a".toList, title_tks := none, important_kwd := none, pagerank_fea := 0,
      tag_feas := none }
  isFound _ _ := rfl

end

end RagFlow.Rerank
