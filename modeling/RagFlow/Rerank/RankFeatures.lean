import Mathlib.Algebra.BigOperators.Group.Finset.Basic
import Mathlib.Analysis.Real.Sqrt
import RagFlow.Lib.Dict
import RagFlow.Rerank.Documents

/-!
# Rank features

The page rank of a chunk and the scores of its tags, in `reranker.go` and in `rag/nlp/search.py`,
with exact arithmetic.
-/

namespace RagFlow.Rerank

open Lib

noncomputable section

abbrev TagFields := Dict Text (Option ℝ)

inductive TagFea
  | text (raw : Text)
  | dict (fields : TagFields)

/-- The libraries that read tag features from a text: each fails with none, as does a null in
Python, and the two of Python give none inside for another value that is no dictionary. -/
structure Readers where
  loads : Text → Option (Option TagFields)
  literal_eval : Text → Option (Option TagFields)
  Unmarshal : Text → Option TagFields

def PAGERANK_FLD : Text := "pagerank_fea".toList

abbrev Scores := Dict Text ℝ

def cleaned (fields : TagFields) : Scores :=
  fields.items.foldl (fun cleaned (key, value) =>
    let key := PyString.stripChars key
    match value with
    | none => cleaned
    | some value => if key = [] then cleaned else cleaned.upsert key fun _ => value) .empty

variable (readers : Readers)

def parse_tag_features : TagFea → Scores
  | .dict fields => cleaned fields
  | .text raw =>
    let raw := PyString.stripChars raw
    if raw = [] then .empty
    else
      match readers.loads raw <|> readers.literal_eval raw with
      | some (some fields) => cleaned fields
      | _ => .empty

def parseTagFeasRerank (tagFeasStr : Text) : Scores :=
  if tagFeasStr = [] ∨ tagFeasStr = "{}".toList then .empty
  else
    match readers.Unmarshal tagFeasStr with
    | none => .empty
    | some m =>
      m.items.foldl (fun result (k, v) =>
        match v with
        | none => result
        | some f => result.upsert k fun _ => f) .empty

def sumOf (term : Text → ℝ → ℝ) (scores : Scores) : ℝ :=
  (scores.items.map fun item => term item.1 item.2).sum

def q_denor (query_rfea : Scores) : ℝ :=
  Real.sqrt (sumOf (fun t s => if t ≠ PAGERANK_FLD then s * s else 0) query_rfea)

def nor (query_rfea tag_feas : Scores) : ℝ :=
  sumOf (fun t sc =>
    match query_rfea.get? t with
    | some weight => weight * sc
    | none => 0) tag_feas

def denor (tag_feas : Scores) : ℝ := sumOf (fun _ sc => sc * sc) tag_feas

def tagScore (query_rfea tag_feas : Scores) : ℝ :=
  if denor tag_feas = 0 then 0
  else nor query_rfea tag_feas / Real.sqrt (denor tag_feas) / q_denor query_rfea

def pyFeatures : Option TagFea → Scores
  | none => .empty
  | some tag_fea => parse_tag_features readers tag_fea

/-- The features that Go reads, of a text only. -/
def goFeatures : Option TagFea → Scores
  | some (.text tagFeaStr) => parseTagFeasRerank readers tagFeaStr
  | _ => .empty

/-- The term of `_rank_feature_scores` for one chunk -/
def rankFeatureScore (query_rfea : Scores) (pagerank : ℝ) (tag_fea : Option TagFea) : ℝ :=
  if query_rfea.items.isEmpty then 0 + pagerank
  else if q_denor query_rfea = 0 then 0 + pagerank
  else tagScore query_rfea (pyFeatures readers tag_fea) * 10 + pagerank

/-- What `applyRankFeatureScoresForIDs` makes of the score of one chunk -/
def applyRankFeatureScore (rankFeature : Scores) (pagerank : ℝ) (tagFea : Option TagFea)
    (sim : ℝ) : ℝ :=
  if rankFeature.items.isEmpty then sim + pagerank
  else if q_denor rankFeature = 0 then sim + pagerank
  else sim + (tagScore rankFeature (goFeatures readers tagFea) * 10 + pagerank)

def value (scores : Scores) (tag : Text) : ℝ := (scores.get? tag).getD 0

/-- The scores of one are those of the other, up to one positive factor. -/
def SameDirection (first second : Scores) : Prop :=
  ∃ factor : ℝ, 0 < factor ∧ ∀ tag, value first tag = factor * value second tag

theorem sumOf_eq (term : Text → ℝ → ℝ) (zero : ∀ tag, term tag 0 = 0) {scores : Scores}
    {tags : Finset Text} (covers : ∀ tag ∈ scores.keys, tag ∈ tags) :
    sumOf term scores = ∑ tag ∈ tags, term tag (value scores tag) := by
  have ofKeys : sumOf term scores =
      (scores.keys.map fun tag => term tag (value scores tag)).sum := by
    rw [sumOf, Dict.keys, List.map_map]
    refine congrArg List.sum (List.map_congr_left fun item isItem => ?_)
    have lookup : scores.get? item.1 = some item.2 := Dict.mem_items.mp isItem
    rw [Function.comp_apply, value, lookup, Option.getD_some]
  rw [ofKeys, ← List.sum_toFinset _ scores.keys_nodup]
  apply Finset.sum_subset (fun tag isKey => covers tag (List.mem_toFinset.mp isKey))
  intro tag _ isNoKey
  rw [value, Dict.get?_eq_none.mpr fun isKey => isNoKey (List.mem_toFinset.mpr isKey),
    Option.getD_none, zero]

def tagsOf (first second : Scores) : Finset Text := (first.keys ++ second.keys).toFinset

theorem sumOf_tagsOf (term : Text → ℝ → ℝ) (zero : ∀ tag, term tag 0 = 0)
    (first second : Scores) :
    sumOf term first = ∑ tag ∈ tagsOf first second, term tag (value first tag) ∧
      sumOf term second = ∑ tag ∈ tagsOf first second, term tag (value second tag) :=
  ⟨sumOf_eq _ zero fun _ isKey => List.mem_toFinset.mpr (List.mem_append_left _ isKey),
    sumOf_eq _ zero fun _ isKey => List.mem_toFinset.mpr (List.mem_append_right _ isKey)⟩

theorem nor_eq (query_rfea tag_feas : Scores) :
    nor query_rfea tag_feas = ∑ tag ∈ tagsOf query_rfea tag_feas,
      value query_rfea tag * value tag_feas tag := by
  have sameTerm : nor query_rfea tag_feas =
      sumOf (fun tag sc => value query_rfea tag * sc) tag_feas := by
    refine congrArg List.sum (List.map_congr_left fun item _ => ?_)
    dsimp only [value]
    cases query_rfea.get? item.1 with
    | none => simp
    | some weight => rfl
  rw [sameTerm]
  exact (sumOf_tagsOf _ (fun _ => mul_zero _) query_rfea tag_feas).2

theorem nor_comm (query_rfea tag_feas : Scores) :
    nor query_rfea tag_feas = sumOf (fun tag weight => weight * value tag_feas tag) query_rfea := by
  rw [nor_eq]
  exact (sumOf_tagsOf (fun tag weight => weight * value tag_feas tag) (fun _ => zero_mul _)
    query_rfea tag_feas).1.symm

theorem tagScore_eq (query_rfea tag_feas : Scores) : tagScore query_rfea tag_feas =
    nor query_rfea tag_feas / Real.sqrt (denor tag_feas) / q_denor query_rfea := by
  rw [tagScore]
  split
  · rename_i isZero
    rw [isZero, Real.sqrt_zero, div_zero, zero_div]
  · rfl

theorem denor_nonneg (tag_feas : Scores) : 0 ≤ denor tag_feas :=
  List.sum_nonneg fun term isTerm => by
    obtain ⟨item, -, rfl⟩ := List.mem_map.mp isTerm
    exact mul_self_nonneg _

theorem denor_eq_zero {tag_feas : Scores} (isZero : denor tag_feas = 0) (tag : Text) :
    value tag_feas tag = 0 := by
  have covers : ∀ other ∈ tag_feas.keys, other ∈ insert tag tag_feas.keys.toFinset :=
    fun other isKey => Finset.mem_insert_of_mem (List.mem_toFinset.mpr isKey)
  rw [denor, sumOf_eq (fun _ sc => sc * sc) (fun _ => mul_zero _) covers,
    Finset.sum_eq_zero_iff_of_nonneg fun _ _ => mul_self_nonneg _] at isZero
  exact mul_self_eq_zero.mp (isZero tag (Finset.mem_insert_self _ _))

theorem tagScore_of_sameDirection {first second : Scores} (same : SameDirection first second)
    (query_rfea : Scores) : tagScore query_rfea first = tagScore query_rfea second := by
  obtain ⟨factor, positive, scaled⟩ := same
  have denors : denor first = factor * factor * denor second := by
    obtain ⟨ofFirst, ofSecond⟩ :=
      sumOf_tagsOf (fun _ sc => sc * sc) (fun _ => mul_zero _) first second
    rw [denor, denor, ofFirst, ofSecond, Finset.mul_sum]
    refine Finset.sum_congr rfl fun tag _ => ?_
    rw [scaled]
    ring
  have nors : nor query_rfea first = factor * nor query_rfea second := by
    rw [nor_comm, nor_comm, sumOf, sumOf, ← List.sum_map_mul_left]
    refine congrArg List.sum (List.map_congr_left fun item _ => ?_)
    rw [scaled]
    ring
  rw [tagScore_eq, tagScore_eq, denors, nors, Real.sqrt_mul (mul_self_nonneg factor),
    Real.sqrt_mul_self positive.le, mul_div_mul_left _ _ positive.ne']

def direction (scores : Scores) (tag : Text) : ℝ := value scores tag / Real.sqrt (denor scores)

def onlyTag (tag : Text) : Scores where
  items := [(tag, 1)]
  nodup := List.nodup_singleton _

/-- The page rank is no feature of the query, but can be a tag of a chunk. -/
def withPagerank : Scores where
  items := [(PAGERANK_FLD, 1), ([], 1)]
  nodup := by decide

theorem tagScore_onlyTag {tag : Text} (isTag : tag ≠ PAGERANK_FLD) (scores : Scores) :
    q_denor (onlyTag tag) ≠ 0 ∧ tagScore (onlyTag tag) scores = direction scores tag := by
  have unit : q_denor (onlyTag tag) = 1 := by simp [q_denor, sumOf, onlyTag, isTag]
  rw [tagScore_eq, nor_comm, unit]
  exact ⟨one_ne_zero, by simp [sumOf, onlyTag, direction]⟩

theorem tagScore_withPagerank (scores : Scores) : q_denor withPagerank ≠ 0 ∧
    tagScore withPagerank scores = direction scores PAGERANK_FLD + direction scores [] := by
  have isTag : [] ≠ PAGERANK_FLD := by decide
  have unit : q_denor withPagerank = 1 := by simp [q_denor, sumOf, withPagerank, isTag]
  rw [tagScore_eq, nor_comm, unit]
  exact ⟨one_ne_zero, by simp [sumOf, withPagerank, direction, add_div]⟩

theorem direction_eq {first second : Scores}
    (same : ∀ query_rfea, q_denor query_rfea ≠ 0 →
      tagScore query_rfea first = tagScore query_rfea second) (tag : Text) :
    direction first tag = direction second tag := by
  have ofTag : ∀ tag, tag ≠ PAGERANK_FLD → direction first tag = direction second tag := by
    intro tag isTag
    rw [← (tagScore_onlyTag isTag first).2, ← (tagScore_onlyTag isTag second).2]
    exact same _ (tagScore_onlyTag isTag first).1
  by_cases isTag : tag = PAGERANK_FLD
  · have both := same _ (tagScore_withPagerank first).1
    rw [(tagScore_withPagerank first).2, (tagScore_withPagerank second).2,
      ofTag [] (by decide)] at both
    rw [isTag]
    exact add_right_cancel both
  · exact ofTag tag isTag

theorem sameDirection_of_zero {first second : Scores} (isZero : denor first = 0)
    (same : ∀ tag, direction first tag = direction second tag) (tag : Text) :
    value second tag = 0 := by
  have noDirection := same tag
  rw [direction, direction, isZero, Real.sqrt_zero, div_zero, eq_comm,
    div_eq_zero_iff] at noDirection
  refine noDirection.elim id fun isZero => ?_
  exact denor_eq_zero ((Real.sqrt_eq_zero (denor_nonneg second)).mp isZero) tag

theorem sameDirection_iff {first second : Scores} :
    (∀ query_rfea, q_denor query_rfea ≠ 0 →
      tagScore query_rfea first = tagScore query_rfea second) ↔ SameDirection first second := by
  refine ⟨fun same => ?_, fun same query_rfea _ => tagScore_of_sameDirection same query_rfea⟩
  have directions := direction_eq same
  by_cases isFirst : denor first = 0
  · refine ⟨1, one_pos, fun tag => ?_⟩
    rw [denor_eq_zero isFirst, sameDirection_of_zero isFirst directions, mul_zero]
  by_cases isSecond : denor second = 0
  · refine ⟨1, one_pos, fun tag => ?_⟩
    rw [denor_eq_zero isSecond, mul_zero]
    exact sameDirection_of_zero isSecond (fun tag => (directions tag).symm) tag
  have firstPos := Real.sqrt_pos.mpr (lt_of_le_of_ne (denor_nonneg first) (Ne.symm isFirst))
  have secondPos := Real.sqrt_pos.mpr (lt_of_le_of_ne (denor_nonneg second) (Ne.symm isSecond))
  refine ⟨Real.sqrt (denor first) / Real.sqrt (denor second), div_pos firstPos secondPos,
    fun tag => ?_⟩
  have same := directions tag
  rw [direction, direction, div_eq_iff firstPos.ne'] at same
  rw [same]
  ring

end

end RagFlow.Rerank
