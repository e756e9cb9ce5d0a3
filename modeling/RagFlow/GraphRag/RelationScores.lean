import Mathlib.Algebra.BigOperators.Group.List.Basic
import Mathlib.Algebra.Order.Ring.Rat
import Mathlib.Data.List.Induction
import Mathlib.Data.String.Basic
import Mathlib.Tactic.NormNum
import RagFlow.Lib.Dict

/-!
# The scores of relations

A search in the knowledge graph finds entities with paths to their neighbours, and relations.  Each
edge of a path counts for the relation between its ends.  The relations are known by their ends in
order, the edges as the paths run, and in the Go port both as they are.
-/

namespace RagFlow.KgSearch

open RagFlow.Lib

structure Nbr where
  path : List String
  weights : List ℚ

structure KGEntity where
  sim : ℚ
  nHopEnts : List Nbr

abbrev Edge := String × String

structure EdgeScore where
  sim : ℚ
  pagerank : ℚ

structure KGRelation where
  sim : ℚ
  pagerank : ℚ
  description : Option String

/-- A relation as the store gives it; the Go port passes over those without names. -/
structure RelationChunk where
  fromEntityKwd : String
  toEntityKwd : String
  score : ℚ
  weightInt : ℚ
  contentWithWeight : String
  named : fromEntityKwd ≠ "" ∧ toEntityKwd ≠ ""

namespace RelationChunk

def edge (ent : RelationChunk) : Edge := (ent.fromEntityKwd, ent.toEntityKwd)

def relation (ent : RelationChunk) : KGRelation where
  sim := ent.score
  pagerank := ent.weightInt
  description := some ent.contentWithWeight

end RelationChunk

def sortedPair (edge : Edge) : Edge := if edge.2 < edge.1 then (edge.2, edge.1) else edge

def relSimThreshold : ℚ := 3 / 10

def retrieved (chunks : List RelationChunk) : List RelationChunk :=
  chunks.filter fun ent => relSimThreshold ≤ ent.score

def relationsBy (keyOf : Edge → Edge) (chunks : List RelationChunk) : Dict Edge KGRelation :=
  (retrieved chunks).foldl
    (fun res ent => res.upsert (keyOf ent.edge) fun _ => ent.relation) .empty

def relationInfoFrom (chunks : List RelationChunk) : Dict Edge KGRelation :=
  relationsBy sortedPair chunks

def searchRelations (chunks : List RelationChunk) : Dict Edge KGRelation := relationsBy id chunks

structure Hop where
  edge : Edge
  sim : ℚ
  weight : Option ℚ

def Nbr.hops (sim : ℚ) (nbr : Nbr) : List Hop :=
  (nbr.path.zip nbr.path.tail).mapIdx fun i edge => ⟨edge, sim / (2 + i), nbr.weights[i]?⟩

def KGEntity.hops (ent : KGEntity) : List Hop := ent.nHopEnts.flatMap (Nbr.hops ent.sim)

def hopsOf (ents : Dict String KGEntity) : List Hop := ents.items.flatMap fun item => item.2.hops

/-- Nothing where `wts[i]` raises an error. -/
def addHop (nhopPathes : Dict Edge EdgeScore) (hop : Hop) : Option (Dict Edge EdgeScore) :=
  hop.weight.map fun weight => nhopPathes.upsert hop.edge fun
    | some old => ⟨old.sim + hop.sim, weight⟩
    | none => ⟨hop.sim, weight⟩

def nhopPathes (ents : Dict String KGEntity) : Option (Dict Edge EdgeScore) :=
  (hopsOf ents).foldlM addHop .empty

def EdgeScore.after (es : Option EdgeScore) (hop : Hop) : EdgeScore where
  sim := (es.getD ⟨0, 0⟩).sim + hop.sim
  pagerank := hop.weight.getD (es.getD ⟨0, 0⟩).pagerank

def analyzeNHopPaths (ents : Dict String KGEntity) : Dict Edge EdgeScore :=
  (hopsOf ents).foldl
    (fun nhopPathes hop => nhopPathes.upsert hop.edge fun es => .after es hop) .empty

def typeBoost (entsFromTypes : List String) (edge : Edge) : ℚ :=
  (if edge.1 ∈ entsFromTypes then 1 else 0) + if edge.2 ∈ entsFromTypes then 1 else 0

def fuseRelation (pairOf : Edge → Edge) (entsFromTypes : List String)
    (state : Dict Edge KGRelation × Dict Edge EdgeScore) (edge : Edge) :
    Dict Edge KGRelation × Dict Edge EdgeScore :=
  let np := state.2.get? (pairOf edge)
  let s := (np.map EdgeScore.sim).getD 0 + typeBoost entsFromTypes edge
  (state.1.modify edge fun rel => { rel with sim := rel.sim * (s + 1) },
    state.2.erase (pairOf edge))

def fuseBy (pairOf : Edge → Edge) (description : Option String) (rels : Dict Edge KGRelation)
    (entsFromTypes : List String) (nhopPathes : Dict Edge EdgeScore) : Dict Edge KGRelation :=
  let state := rels.keys.foldl (fuseRelation pairOf entsFromTypes) (rels, nhopPathes)
  state.2.items.foldl (fun rels item => rels.upsert item.1 fun _ =>
    { sim := item.2.sim * (typeBoost entsFromTypes item.1 + 1)
      pagerank := item.2.pagerank
      description := description }) state.1

def fuseRelationScores (relsFromText : Dict Edge KGRelation) (entsFromTypes : List String)
    (nhopPathes : Dict Edge EdgeScore) : Dict Edge KGRelation :=
  fuseBy id (some "") relsFromText entsFromTypes nhopPathes

structure Found where
  entsFromQuery : Dict String KGEntity
  entsFromTypes : List String
  relations : List RelationChunk

/-- `retrieval` up to the scores of the relations. -/
def retrieval (found : Found) : Option (Dict Edge KGRelation) :=
  (nhopPathes found.entsFromQuery).map
    (fuseBy sortedPair none (relationInfoFrom found.relations) found.entsFromTypes)

/-- The Go port reads its maps in any order. -/
def IsGoRetrieval (found : Found) (rels : Dict Edge KGRelation) : Prop :=
  ∃ ents nhop relsFromText, (∀ name, ents.get? name = found.entsFromQuery.get? name) ∧
    (∀ edge, nhop.get? edge = (analyzeNHopPaths ents).get? edge) ∧
    (∀ edge, relsFromText.get? edge = (searchRelations found.relations).get? edge) ∧
    rels = fuseRelationScores relsFromText found.entsFromTypes nhop

theorem foldl_overwrite {Entry Value : Type} (value : Entry → Value) (entries : List Entry)
    (old : Option Value) :
    entries.foldl (fun _ entry => some (value entry)) old =
      (entries.getLast?.map value).or old := by
  induction entries using List.reverseRecOn with
  | nil => rfl
  | append_singleton entries entry _ => simp

theorem get?_relationsBy (keyOf : Edge → Edge) (chunks : List RelationChunk) (edge : Edge) :
    (relationsBy keyOf chunks).get? edge =
      ((retrieved chunks).filter fun ent => keyOf ent.edge = edge).getLast?.map
        RelationChunk.relation := by
  rw [relationsBy, Dict.get?_foldl_upsert fun ent : RelationChunk => keyOf ent.edge,
    foldl_overwrite, Dict.get?_empty, Option.or_none]

def onEdge (hops : List Hop) (edge : Edge) : List Hop := hops.filter fun hop => hop.edge = edge

theorem mem_onEdge {hops : List Hop} {edge : Edge} {hop : Hop} :
    hop ∈ onEdge hops edge ↔ hop ∈ hops ∧ hop.edge = edge := by
  simp [onEdge]

def Weighted (hops : List Hop) : Prop := ∀ hop ∈ hops, hop.weight.isSome

theorem Weighted.sublist {part hops : List Hop} (weighted : Weighted hops)
    (subset : part ⊆ hops) : Weighted part :=
  fun hop isHop => weighted hop (subset isHop)

theorem foldl_after {hops : List Hop} (weighted : Weighted hops) :
    hops.foldl (fun es hop => some (EdgeScore.after es hop)) none =
      hops.getLast?.map fun last => ⟨(hops.map Hop.sim).sum, last.weight.getD 0⟩ := by
  induction hops using List.reverseRecOn with
  | nil => rfl
  | append_singleton hops hop ih =>
    obtain ⟨weight, isWeight⟩ := Option.isSome_iff_exists.mp (weighted hop (by simp))
    rw [List.foldl_append, ih (weighted.sublist (by simp))]
    cases found : hops.getLast? with
    | none =>
      have isNil := List.getLast?_eq_none_iff.mp found
      simp [isNil, EdgeScore.after, isWeight]
    | some last => simp [EdgeScore.after, isWeight]

theorem get?_analyzeNHopPaths {ents : Dict String KGEntity} (weighted : Weighted (hopsOf ents))
    (edge : Edge) :
    (analyzeNHopPaths ents).get? edge = (onEdge (hopsOf ents) edge).getLast?.map fun last =>
      ⟨((onEdge (hopsOf ents) edge).map Hop.sim).sum, last.weight.getD 0⟩ := by
  rw [analyzeNHopPaths, Dict.get?_foldl_upsert Hop.edge fun hop es => EdgeScore.after es hop,
    Dict.get?_empty]
  exact foldl_after (weighted.sublist fun hop isHop => (mem_onEdge.mp isHop).1)

theorem addHop_eq (nhopPathes : Dict Edge EdgeScore) {hop : Hop} (weighted : hop.weight.isSome) :
    addHop nhopPathes hop = some (nhopPathes.upsert hop.edge fun es => .after es hop) := by
  obtain ⟨weight, isWeight⟩ := Option.isSome_iff_exists.mp weighted
  rw [addHop, isWeight]
  refine congrArg (fun write => some (nhopPathes.upsert hop.edge write)) (funext fun es => ?_)
  cases es with
  | none => simp [EdgeScore.after, isWeight]
  | some old => simp [EdgeScore.after, isWeight]

theorem nhopPathes_eq_some_iff {ents : Dict String KGEntity} {nhop : Dict Edge EdgeScore} :
    nhopPathes ents = some nhop ↔ Weighted (hopsOf ents) ∧ nhop = analyzeNHopPaths ents := by
  have run : ∀ (hops : List Hop) (start : Dict Edge EdgeScore),
      hops.foldlM addHop start = some nhop ↔ Weighted hops ∧
        nhop = hops.foldl
          (fun nhopPathes hop => nhopPathes.upsert hop.edge fun es => .after es hop) start := by
    intro hops
    induction hops with
    | nil => exact fun start => by simp [Weighted, @eq_comm _ nhop]
    | cons hop hops ih =>
      intro start
      by_cases weighted : hop.weight.isSome
      · simp [List.foldlM_cons, addHop_eq start weighted, ih, Weighted, weighted]
      · have raised : addHop start hop = none := by simpa [addHop] using weighted
        simp [List.foldlM_cons, raised, Weighted, weighted]
  exact run _ .empty

def boosted (entsFromTypes : List String) (edge : Edge) (np : Option EdgeScore)
    (rel : KGRelation) : KGRelation :=
  { rel with sim := rel.sim * ((np.map EdgeScore.sim).getD 0 + typeBoost entsFromTypes edge + 1) }

def discovered (entsFromTypes : List String) (description : Option String) (edge : Edge)
    (np : EdgeScore) : KGRelation where
  sim := np.sim * (typeBoost entsFromTypes edge + 1)
  pagerank := np.pagerank
  description := description

theorem get?_foldl_fuseRelation (pairOf : Edge → Edge) (entsFromTypes : List String)
    {edges : List Edge} (distinct : edges.Nodup) (own : ∀ edge ∈ edges, pairOf edge = edge)
    (state : Dict Edge KGRelation × Dict Edge EdgeScore) (edge : Edge) :
    (edges.foldl (fuseRelation pairOf entsFromTypes) state).1.get? edge =
        (if edge ∈ edges then
          (state.1.get? edge).map (boosted entsFromTypes edge (state.2.get? edge))
        else state.1.get? edge) ∧
      (edges.foldl (fuseRelation pairOf entsFromTypes) state).2.get? edge =
        if edge ∈ edges then none else state.2.get? edge := by
  induction edges generalizing state with
  | nil => simp
  | cons first edges ih =>
    obtain ⟨new, distinct⟩ := List.nodup_cons.mp distinct
    have isOwn := own first List.mem_cons_self
    have others := ih distinct
      (fun edge isEdge => own edge (List.mem_cons_of_mem first isEdge))
      (fuseRelation pairOf entsFromTypes state first)
    rw [List.foldl_cons, others.1, others.2]
    by_cases same : edge = first
    · subst same
      simp only [new, fuseRelation, isOwn, Dict.get?_modify, Dict.get?_erase, if_true, if_false,
        List.mem_cons_self]
      exact ⟨rfl, trivial⟩
    · simp [same, fuseRelation, isOwn, Dict.get?_modify]

theorem get?_fuseBy (pairOf : Edge → Edge) (description : Option String)
    {rels : Dict Edge KGRelation} (entsFromTypes : List String) (nhop : Dict Edge EdgeScore)
    (own : ∀ edge ∈ rels.keys, pairOf edge = edge) (edge : Edge) :
    (fuseBy pairOf description rels entsFromTypes nhop).get? edge =
      ((rels.get? edge).map (boosted entsFromTypes edge (nhop.get? edge))).or
        ((nhop.get? edge).map (discovered entsFromTypes description edge)) := by
  have fused := get?_foldl_fuseRelation pairOf entsFromTypes rels.keys_nodup own (rels, nhop) edge
  have isMerge : fuseBy pairOf description rels entsFromTypes nhop =
      (rels.keys.foldl (fuseRelation pairOf entsFromTypes) (rels, nhop)).1.merge (fun _ new => new)
        ((rels.keys.foldl (fuseRelation pairOf entsFromTypes) (rels, nhop)).2.mapValues
          (discovered entsFromTypes description)) := by
    rw [fuseBy, Dict.merge, Dict.mapValues, List.foldl_map]
    refine congrArg (fun step => List.foldl step _ _) (funext₂ fun rels item => ?_)
    refine congrArg (rels.upsert item.1) (funext fun old => ?_)
    rw [Dict.absorbed_overwrite]
    rfl
  rw [isMerge, Dict.get?_merge, Dict.get?_mapValues, fused.1, fused.2]
  cases found : rels.get? edge with
  | none =>
    have missing := Dict.get?_eq_none.mp found
    cases nhop.get? edge <;> simp [missing, Dict.absorbed]
  | some rel => simp [Dict.mem_keys_of_get? found]

def directions (a b : String) : List Edge := if a = b then [(a, b)] else [(a, b), (b, a)]

def scoresOf (rels : Dict Edge KGRelation) (a b : String) : List (ℚ × ℚ) :=
  (directions a b).filterMap fun edge => (rels.get? edge).map fun rel => (rel.sim, rel.pagerank)

namespace Found

def hops (found : Found) : List Hop := hopsOf found.entsFromQuery

def chunks (found : Found) : List RelationChunk := retrieved found.relations

def contribution (found : Found) (a b : String) : ℚ :=
  ((found.hops.filter fun hop => hop.edge ∈ directions a b).map Hop.sim).sum

def lastRetrieved (found : Found) (a b : String) : Option RelationChunk :=
  (found.chunks.filter fun ent => ent.edge ∈ directions a b).getLast?

def expectedSims (found : Found) (a b : String) : List ℚ :=
  match found.lastRetrieved a b with
  | some ent =>
    [ent.score * (found.contribution a b + typeBoost found.entsFromTypes (a, b) + 1)]
  | none =>
    if found.hops.any fun hop => hop.edge ∈ directions a b then
      [found.contribution a b * (typeBoost found.entsFromTypes (a, b) + 1)]
    else []

end Found

/-- Every pair is scored once, with all that its paths add, and the Go port scores it the same. -/
structure OrientationFree (found : Found) (rels : Dict Edge KGRelation) : Prop where
  scored : retrieval found = some rels
  once : ∀ a b, (scoresOf rels a b).length ≤ 1
  counted : ∀ a b, (scoresOf rels a b).map Prod.fst = found.expectedSims a b
  agrees : ∀ goRels, IsGoRetrieval found goRels →
    ∀ a b, (scoresOf goRels a b).Perm (scoresOf rels a b)

def Met (found : Found) (edge : Edge) : Prop :=
  (∃ ent ∈ found.chunks, ent.edge = edge) ∨ ∃ hop ∈ found.hops, hop.edge = edge

def lastWeight (ent : KGEntity) (edge : Edge) : Option ℚ :=
  (onEdge ent.hops edge).getLast?.bind Hop.weight

/-- No pair is met in both directions, one that is both retrieved and traversed is in order, and
the entities agree on the weight of an edge that is not retrieved. -/
structure OneWay (found : Found) : Prop where
  weighted : Weighted found.hops
  oneDirection : ∀ a b, Met found (a, b) → Met found (b, a) → a = b
  ordered : ∀ ent ∈ found.chunks, ∀ hop ∈ found.hops, ent.edge = hop.edge →
    ¬ hop.edge.2 < hop.edge.1
  sameWeight : ∀ edge, (∀ ent ∈ found.chunks, ent.edge ≠ edge) →
    ∀ item ∈ found.entsFromQuery.items, ∀ other ∈ found.entsFromQuery.items,
      ∀ weight otherWeight, lastWeight item.2 edge = some weight →
        lastWeight other.2 edge = some otherWeight → weight = otherWeight

theorem mem_directions {a b : String} {edge : Edge} :
    edge ∈ directions a b ↔ edge = (a, b) ∨ edge = (b, a) := by
  unfold directions
  split_ifs with same
  · simp [same]
  · simp

theorem typeBoost_of_mem_directions {entsFromTypes : List String} {a b : String} {edge : Edge}
    (isDirection : edge ∈ directions a b) :
    typeBoost entsFromTypes edge = typeBoost entsFromTypes (a, b) := by
  rcases mem_directions.mp isDirection with rfl | rfl
  · rfl
  · exact add_comm _ _

theorem sortedPair_mem_directions (a b : String) : sortedPair (a, b) ∈ directions a b := by
  rw [mem_directions, sortedPair]
  split_ifs
  · exact .inr rfl
  · exact .inl rfl

theorem sortedPair_sortedPair (edge : Edge) : sortedPair (sortedPair edge) = sortedPair edge := by
  unfold sortedPair
  split_ifs with outOfOrder again
  · exact absurd again outOfOrder.asymm
  · rfl
  · rfl

theorem sortedPair_of_mem_directions {a b : String} {edge : Edge}
    (isDirection : edge ∈ directions a b) : sortedPair edge = sortedPair (a, b) := by
  rcases mem_directions.mp isDirection with rfl | rfl
  · rfl
  · unfold sortedPair
    rcases lt_trichotomy a b with less | rfl | more
    · simp [less, less.asymm]
    · rfl
    · simp [more, more.asymm]

theorem mem_scoresOf {rels : Dict Edge KGRelation} {a b : String} {edge : Edge} {rel : KGRelation}
    (isDirection : edge ∈ directions a b) (isRel : rels.get? edge = some rel) :
    (rel.sim, rel.pagerank) ∈ scoresOf rels a b :=
  List.mem_filterMap.mpr ⟨edge, isDirection, by simp [isRel]⟩

theorem scoresOf_of_two {rels : Dict Edge KGRelation} {a b : String} (apart : a ≠ b)
    (first : (rels.get? (a, b)).isSome) (second : (rels.get? (b, a)).isSome) :
    (scoresOf rels a b).length = 2 := by
  obtain ⟨rel, isRel⟩ := Option.isSome_iff_exists.mp first
  obtain ⟨other, isOther⟩ := Option.isSome_iff_exists.mp second
  simp [scoresOf, directions, apart, isRel, isOther]

theorem scoresOf_of_one {rels : Dict Edge KGRelation} {a b : String} {edge : Edge}
    {rel : KGRelation} (isDirection : edge ∈ directions a b) (isRel : rels.get? edge = some rel)
    (others : ∀ other ∈ directions a b, other ≠ edge → rels.get? other = none) :
    scoresOf rels a b = [(rel.sim, rel.pagerank)] := by
  by_cases same : a = b
  · subst same
    obtain rfl : edge = (a, a) := by simpa [mem_directions] using isDirection
    simp [scoresOf, directions, isRel]
  · rcases mem_directions.mp isDirection with rfl | rfl
    · have missing := others (b, a) (mem_directions.mpr (.inr rfl))
        (fun isSame => same (congrArg Prod.fst isSame).symm)
      simp [scoresOf, directions, same, isRel, missing]
    · have missing := others (a, b) (mem_directions.mpr (.inl rfl))
        (fun isSame => same (congrArg Prod.fst isSame))
      simp [scoresOf, directions, same, isRel, missing]

theorem scoresOf_of_none {rels : Dict Edge KGRelation} {a b : String}
    (missing : ∀ edge ∈ directions a b, rels.get? edge = none) : scoresOf rels a b = [] :=
  List.filterMap_eq_nil_iff.mpr fun edge isDirection => by simp [missing edge isDirection]

def nhopOf (hops : List Hop) (edge : Edge) : Option EdgeScore :=
  (onEdge hops edge).getLast?.map fun last =>
    ⟨((onEdge hops edge).map Hop.sim).sum, last.weight.getD 0⟩

def fusedAt (keyOf : Edge → Edge) (description : Option String) (found : Found) (hops : List Hop)
    (edge : Edge) : Option KGRelation :=
  ((found.chunks.filter fun ent => keyOf ent.edge = edge).getLast?.map fun ent =>
      boosted found.entsFromTypes edge (nhopOf hops edge) ent.relation).or
    ((nhopOf hops edge).map (discovered found.entsFromTypes description edge))

theorem isSome_getLast?_filter {Entry : Type} (test : Entry → Prop) [DecidablePred test]
    (entries : List Entry) :
    (entries.filter test).getLast?.isSome ↔ ∃ entry ∈ entries, test entry := by
  rw [List.getLast?_isSome, ne_eq, List.filter_eq_nil_iff]
  simp

theorem isSome_nhopOf {hops : List Hop} {edge : Edge} :
    (nhopOf hops edge).isSome ↔ ∃ hop ∈ hops, hop.edge = edge := by
  rw [nhopOf, Option.isSome_map, onEdge, isSome_getLast?_filter]

theorem isSome_fusedAt {keyOf : Edge → Edge} {description : Option String} {found : Found}
    {hops : List Hop} {edge : Edge} :
    (fusedAt keyOf description found hops edge).isSome ↔
      (∃ ent ∈ found.chunks, keyOf ent.edge = edge) ∨ ∃ hop ∈ hops, hop.edge = edge := by
  rw [fusedAt, Option.isSome_or, Bool.or_eq_true, Option.isSome_map, Option.isSome_map,
    isSome_nhopOf, isSome_getLast?_filter]

theorem get?_fuseBy_relationsBy {pairOf keyOf : Edge → Edge} (description : Option String)
    (found : Found) (own : ∀ edge, pairOf (keyOf edge) = keyOf edge)
    {rels : Dict Edge KGRelation} {nhop : Dict Edge EdgeScore} {ents : Dict String KGEntity}
    (weighted : Weighted (hopsOf ents))
    (sameRels : ∀ edge, rels.get? edge = (relationsBy keyOf found.relations).get? edge)
    (sameNhop : ∀ edge, nhop.get? edge = (analyzeNHopPaths ents).get? edge) (edge : Edge) :
    (fuseBy pairOf description rels found.entsFromTypes nhop).get? edge =
      fusedAt keyOf description found (hopsOf ents) edge := by
  have ownKeys : ∀ edge ∈ rels.keys, pairOf edge = edge := by
    intro edge isKey
    obtain ⟨rel, isRel⟩ := Dict.mem_keys.mp isKey
    rw [sameRels, get?_relationsBy, Option.map_eq_some_iff] at isRel
    obtain ⟨ent, isLast, _⟩ := isRel
    have isEnt := List.mem_of_getLast? isLast
    simp only [List.mem_filter, decide_eq_true_eq] at isEnt
    rw [← isEnt.2, own]
  rw [get?_fuseBy pairOf description _ nhop ownKeys, sameRels, sameNhop, get?_relationsBy,
    get?_analyzeNHopPaths weighted, Option.map_map]
  rfl

theorem get?_retrieval {found : Found} {rels : Dict Edge KGRelation}
    (scored : retrieval found = some rels) (edge : Edge) :
    rels.get? edge = fusedAt sortedPair none found found.hops edge := by
  obtain ⟨nhop, isNhop, rfl⟩ := Option.map_eq_some_iff.mp scored
  obtain ⟨weighted, rfl⟩ := nhopPathes_eq_some_iff.mp isNhop
  exact get?_fuseBy_relationsBy none found sortedPair_sortedPair weighted (fun _ => rfl)
    (fun _ => rfl) edge

theorem perm_hopsOf {ents other : Dict String KGEntity}
    (same : ∀ name, ents.get? name = other.get? name) : (hopsOf ents).Perm (hopsOf other) :=
  (Dict.items_perm same).flatMap_right _

theorem get?_of_isGoRetrieval {found : Found} {goRels : Dict Edge KGRelation}
    (weighted : Weighted found.hops) (isGo : IsGoRetrieval found goRels) :
    ∃ ents : Dict String KGEntity, (∀ name, ents.get? name = found.entsFromQuery.get? name) ∧
      ∀ edge, goRels.get? edge = fusedAt id (some "") found (hopsOf ents) edge := by
  obtain ⟨ents, nhop, relsFromText, sameEnts, sameNhop, sameRels, rfl⟩ := isGo
  have weightedEnts := weighted.sublist (perm_hopsOf sameEnts).subset
  exact ⟨ents, sameEnts, get?_fuseBy_relationsBy (some "") found (fun _ => rfl) weightedEnts
    sameRels sameNhop⟩

theorem exists_isGoRetrieval {found : Found} (weighted : Weighted found.hops)
    (ents : Dict String KGEntity) (same : ∀ name, ents.get? name = found.entsFromQuery.get? name) :
    ∃ goRels, IsGoRetrieval found goRels ∧
      ∀ edge, goRels.get? edge = fusedAt id (some "") found (hopsOf ents) edge :=
  ⟨_, ⟨ents, _, _, same, fun _ => rfl, fun _ => rfl, rfl⟩,
    get?_fuseBy_relationsBy (some "") found (fun _ => rfl)
      (weighted.sublist (perm_hopsOf same).subset) (fun _ => rfl) fun _ => rfl⟩

namespace OrientationFree

variable {found : Found} {rels : Dict Edge KGRelation}

theorem weighted (free : OrientationFree found rels) : Weighted found.hops := by
  obtain ⟨nhop, isNhop, _⟩ := Option.map_eq_some_iff.mp free.scored
  exact (nhopPathes_eq_some_iff.mp isNhop).1

theorem eq_of_isSome (free : OrientationFree found rels) {a b : String}
    (first : (rels.get? (a, b)).isSome) (second : (rels.get? (b, a)).isSome) : a = b := by
  by_contra apart
  have once := free.once a b
  rw [scoresOf_of_two apart first second] at once
  omega

theorem oneDirection (free : OrientationFree found rels) {a b : String}
    (first : Met found (a, b)) (second : Met found (b, a)) : a = b := by
  by_contra apart
  obtain ⟨goRels, isGo, goFound⟩ := exists_isGoRetrieval free.weighted
    found.entsFromQuery fun _ => rfl
  have isSome : ∀ edge, Met found edge → (goRels.get? edge).isSome := by
    intro edge isMet
    rw [goFound]
    exact isSome_fusedAt.mpr isMet
  have two := scoresOf_of_two apart (isSome _ first) (isSome _ second)
  have once := free.once a b
  rw [(free.agrees goRels isGo a b).length_eq] at two
  omega

theorem ordered (free : OrientationFree found rels) {ent : RelationChunk} {hop : Hop}
    (isEnt : ent ∈ found.chunks) (isHop : hop ∈ found.hops) (same : ent.edge = hop.edge) :
    ¬ hop.edge.2 < hop.edge.1 := by
  intro outOfOrder
  have traversed : (rels.get? (hop.edge.1, hop.edge.2)).isSome := by
    rw [get?_retrieval free.scored]
    exact isSome_fusedAt.mpr (.inr ⟨hop, isHop, rfl⟩)
  have stored : (rels.get? (hop.edge.2, hop.edge.1)).isSome := by
    rw [get?_retrieval free.scored]
    refine isSome_fusedAt.mpr (.inl ⟨ent, isEnt, ?_⟩)
    rw [same, sortedPair, if_pos outOfOrder]
  exact outOfOrder.ne (free.eq_of_isSome stored traversed)

theorem mem_scoresOf_of_lastWeight (free : OrientationFree found rels) {edge : Edge}
    (notRetrieved : ∀ ent ∈ found.chunks, ent.edge ≠ edge) {item : String × KGEntity}
    (isItem : item ∈ found.entsFromQuery.items) {weight : ℚ}
    (isLast : lastWeight item.2 edge = some weight) :
    ∃ sim, (sim, weight) ∈ scoresOf rels edge.1 edge.2 := by
  obtain ⟨ents, same, before, isSplit⟩ := Dict.exists_last isItem
  obtain ⟨goRels, isGo, goFound⟩ := exists_isGoRetrieval free.weighted ents same
  obtain ⟨last, isLastHop, isWeight⟩ := Option.bind_eq_some_iff.mp isLast
  have lastOfAll : (onEdge (hopsOf ents) edge).getLast? = some last := by
    rw [hopsOf, isSplit, List.flatMap_append, List.flatMap_singleton, onEdge, List.filter_append,
      List.getLast?_append, ← onEdge, isLastHop]
    rfl
  have noChunk : found.chunks.filter (fun ent => id ent.edge = edge) = [] :=
    List.filter_eq_nil_iff.mpr fun ent isEnt => by simpa using notRetrieved ent isEnt
  have isRel : goRels.get? edge = some (discovered found.entsFromTypes (some "") edge
      ⟨((onEdge (hopsOf ents) edge).map Hop.sim).sum, weight⟩) := by
    rw [goFound, fusedAt, nhopOf, noChunk, lastOfAll]
    simp [isWeight]
  exact ⟨_, (free.agrees goRels isGo edge.1 edge.2).mem_iff.mp
    (mem_scoresOf (mem_directions.mpr (.inl rfl)) isRel)⟩

theorem oneWay (free : OrientationFree found rels) : OneWay found where
  weighted := free.weighted
  oneDirection _ _ := free.oneDirection
  ordered _ isEnt _ isHop same := free.ordered isEnt isHop same
  sameWeight edge notRetrieved item isItem other isOther weight otherWeight isLast isOtherLast := by
    obtain ⟨sim, isScore⟩ := free.mem_scoresOf_of_lastWeight notRetrieved isItem isLast
    obtain ⟨otherSim, isOtherScore⟩ :=
      free.mem_scoresOf_of_lastWeight notRetrieved isOther isOtherLast
    have one := free.once edge.1 edge.2
    obtain ⟨score, isOne⟩ := List.length_eq_one_iff.mp
      (Nat.le_antisymm one (List.length_pos_of_mem isScore))
    rw [isOne, List.mem_singleton] at isScore isOtherScore
    exact (Prod.mk.inj (isScore.trans isOtherScore.symm)).2

end OrientationFree

/-- The one direction in which a pair is met. -/
structure OnlyDirection (found : Found) (a b : String) (edge : Edge) : Prop where
  isDirection : edge ∈ directions a b
  isMet : Met found edge
  only : ∀ other ∈ directions a b, Met found other → other = edge

theorem OneWay.onlyDirection {found : Found} (oneWay : OneWay found) {a b : String} {edge : Edge}
    (isDirection : edge ∈ directions a b) (isMet : Met found edge) :
    OnlyDirection found a b edge where
  isDirection := isDirection
  isMet := isMet
  only other isOther isOtherMet := by
    rcases mem_directions.mp isDirection with rfl | rfl <;>
      rcases mem_directions.mp isOther with rfl | rfl
    · rfl
    · rw [oneWay.oneDirection a b isMet isOtherMet]
    · rw [oneWay.oneDirection a b isOtherMet isMet]
    · rfl

namespace OnlyDirection

variable {found : Found} {a b : String} {edge : Edge}

theorem lastRetrieved_eq (only : OnlyDirection found a b edge) :
    found.lastRetrieved a b = (found.chunks.filter fun ent => ent.edge = edge).getLast? := by
  refine congrArg List.getLast? (List.filter_congr fun ent isEnt => ?_)
  refine decide_eq_decide.mpr ⟨fun isDirection => ?_, fun same => same ▸ only.isDirection⟩
  exact only.only _ isDirection (.inl ⟨ent, isEnt, rfl⟩)

theorem traversed_iff (only : OnlyDirection found a b edge) {hop : Hop}
    (isHop : hop ∈ found.hops) : hop.edge ∈ directions a b ↔ hop.edge = edge :=
  ⟨fun isDirection => only.only _ isDirection (.inr ⟨hop, isHop, rfl⟩),
    fun same => same ▸ only.isDirection⟩

variable {keyOf : Edge → Edge} {description : Option String} {hops : List Hop}

/-- The key of a pair, which is its edge where it is both retrieved and traversed. -/
structure KeyOf (found : Found) (a b : String) (edge : Edge) (keyOf : Edge → Edge) : Prop where
  isKey : keyOf edge ∈ directions a b
  within : ∀ other, keyOf other ∈ directions a b → other ∈ directions a b
  same : ∀ ent ∈ found.chunks, ∀ hop ∈ found.hops, ent.edge = edge → hop.edge = edge →
    keyOf edge = edge

theorem filter_keyOf (only : OnlyDirection found a b edge) (key : KeyOf found a b edge keyOf)
    {other : Edge} (isDirection : other ∈ directions a b) :
    (found.chunks.filter fun ent => keyOf ent.edge = other) =
      if other = keyOf edge then found.chunks.filter fun ent => ent.edge = edge else [] := by
  have isOnly : ∀ ent ∈ found.chunks, keyOf ent.edge ∈ directions a b → ent.edge = edge :=
    fun ent isEnt isDirection => only.only _ (key.within _ isDirection) (.inl ⟨ent, isEnt, rfl⟩)
  split_ifs with same
  · subst same
    refine List.filter_congr fun ent isEnt => decide_eq_decide.mpr ⟨fun sameKey => ?_, ?_⟩
    · exact isOnly ent isEnt (sameKey ▸ key.isKey)
    · exact fun isEdge => congrArg keyOf isEdge
  · apply List.filter_eq_nil_iff.mpr
    intro ent isEnt
    rw [decide_eq_true_eq]
    rintro rfl
    exact same (congrArg keyOf (isOnly ent isEnt isDirection))

theorem nhopOf_eq_none (only : OnlyDirection found a b edge) (perm : hops.Perm found.hops)
    {other : Edge} (isDirection : other ∈ directions a b) (apart : other ≠ edge) :
    nhopOf hops other = none := by
  refine Option.not_isSome_iff_eq_none.mp fun isSome => apart ?_
  obtain ⟨hop, isHop, rfl⟩ := isSome_nhopOf.mp isSome
  exact only.only _ isDirection (.inr ⟨hop, perm.subset isHop, rfl⟩)

theorem contribution_eq (only : OnlyDirection found a b edge) (perm : hops.Perm found.hops) :
    ((onEdge hops edge).map Hop.sim).sum = found.contribution a b := by
  have filtered : (found.hops.filter fun hop => hop.edge ∈ directions a b) =
      onEdge found.hops edge :=
    List.filter_congr fun hop isHop => decide_eq_decide.mpr (only.traversed_iff isHop)
  rw [Found.contribution, filtered]
  exact ((perm.filter _).map Hop.sim).sum_eq

theorem sim_nhopOf (only : OnlyDirection found a b edge) (perm : hops.Perm found.hops) :
    ((nhopOf hops edge).map EdgeScore.sim).getD 0 = found.contribution a b := by
  rw [← only.contribution_eq perm, nhopOf]
  cases isLast : (onEdge hops edge).getLast? with
  | none => simp [List.getLast?_eq_none_iff.mp isLast]
  | some last => rfl

theorem scoresOf_of_retrieved (only : OnlyDirection found a b edge)
    (key : KeyOf found a b edge keyOf) (perm : hops.Perm found.hops)
    {rels : Dict Edge KGRelation}
    (lookup : ∀ other, rels.get? other = fusedAt keyOf description found hops other)
    {ent : RelationChunk}
    (isLast : (found.chunks.filter fun ent => ent.edge = edge).getLast? = some ent) :
    scoresOf rels a b =
      [(ent.score * (found.contribution a b + typeBoost found.entsFromTypes (a, b) + 1),
        ent.weightInt)] := by
  obtain ⟨isEnt, isEdge⟩ := List.mem_filter.mp (List.mem_of_getLast? isLast)
  rw [decide_eq_true_eq] at isEdge
  -- the paths run along the key, if they run at all
  have sameSim : ((nhopOf hops (keyOf edge)).map EdgeScore.sim).getD 0 =
      found.contribution a b := by
    by_cases traversed : ∃ hop ∈ found.hops, hop.edge = edge
    · obtain ⟨hop, isHop, isSame⟩ := traversed
      rw [key.same ent isEnt hop isHop isEdge isSame]
      exact only.sim_nhopOf perm
    · have notOn : nhopOf hops edge = none := Option.not_isSome_iff_eq_none.mp fun isSome => by
        obtain ⟨hop, isHop, isSame⟩ := isSome_nhopOf.mp isSome
        exact traversed ⟨hop, perm.subset isHop, isSame⟩
      rw [← only.sim_nhopOf perm, notOn]
      by_cases same : keyOf edge = edge
      · rw [same, notOn]
      · rw [only.nhopOf_eq_none perm key.isKey same]
  have isRel : rels.get? (keyOf edge) =
      some (boosted found.entsFromTypes (keyOf edge) (nhopOf hops (keyOf edge)) ent.relation) := by
    rw [lookup, fusedAt, only.filter_keyOf key key.isKey, if_pos rfl, isLast]
    rfl
  rw [scoresOf_of_one key.isKey isRel fun other isDirection apart => ?_]
  · simp only [boosted, sameSim, typeBoost_of_mem_directions key.isKey, RelationChunk.relation]
  · rw [lookup, fusedAt, only.filter_keyOf key isDirection, if_neg apart]
    by_cases same : other = edge
    · subst same
      have notTraversed : nhopOf hops other = none :=
        Option.not_isSome_iff_eq_none.mp fun isSome => by
          obtain ⟨hop, isHop, isSame⟩ := isSome_nhopOf.mp isSome
          exact apart (key.same ent isEnt hop (perm.subset isHop) isEdge isSame).symm
      rw [notTraversed]
      rfl
    · rw [only.nhopOf_eq_none perm isDirection same]
      rfl

theorem scoresOf_of_discovered (only : OnlyDirection found a b edge)
    (key : KeyOf found a b edge keyOf) (perm : hops.Perm found.hops)
    {rels : Dict Edge KGRelation}
    (lookup : ∀ other, rels.get? other = fusedAt keyOf description found hops other)
    (isLast : (found.chunks.filter fun ent => ent.edge = edge).getLast? = none)
    {last : Hop} (isHop : (onEdge hops edge).getLast? = some last) :
    scoresOf rels a b =
      [(found.contribution a b * (typeBoost found.entsFromTypes (a, b) + 1),
        last.weight.getD 0)] := by
  have noChunks : ∀ other ∈ directions a b,
      (found.chunks.filter fun ent => keyOf ent.edge = other) = [] := by
    intro other isDirection
    rw [only.filter_keyOf key isDirection, List.getLast?_eq_none_iff.mp isLast, ite_self]
  have isRel : rels.get? edge = some (discovered found.entsFromTypes description edge
      ⟨((onEdge hops edge).map Hop.sim).sum, last.weight.getD 0⟩) := by
    rw [lookup, fusedAt, noChunks edge only.isDirection, nhopOf, isHop]
    rfl
  rw [scoresOf_of_one only.isDirection isRel fun other isDirection apart => ?_]
  · simp only [discovered, only.contribution_eq perm,
      typeBoost_of_mem_directions only.isDirection]
  · rw [lookup, fusedAt, noChunks other isDirection, only.nhopOf_eq_none perm isDirection apart]
    rfl

end OnlyDirection

theorem scoresOf_of_notMet {found : Found} {a b : String} {keyOf : Edge → Edge}
    {description : Option String} {hops : List Hop} {rels : Dict Edge KGRelation}
    (notMet : ∀ edge ∈ directions a b, ¬ Met found edge)
    (within : ∀ edge, keyOf edge ∈ directions a b → edge ∈ directions a b)
    (perm : hops.Perm found.hops)
    (lookup : ∀ edge, rels.get? edge = fusedAt keyOf description found hops edge) :
    scoresOf rels a b = [] := by
  apply scoresOf_of_none
  intro edge isDirection
  rw [lookup, ← Option.not_isSome_iff_eq_none, isSome_fusedAt]
  rintro (⟨ent, isEnt, rfl⟩ | ⟨hop, isHop, rfl⟩)
  · exact notMet _ (within _ isDirection) (.inl ⟨ent, isEnt, rfl⟩)
  · exact notMet _ isDirection (.inr ⟨hop, perm.subset isHop, rfl⟩)

theorem mem_directions_of_sortedPair {a b : String} {edge : Edge}
    (isDirection : sortedPair edge ∈ directions a b) : edge ∈ directions a b := by
  rw [mem_directions] at isDirection ⊢
  unfold sortedPair at isDirection
  split_ifs at isDirection
  · simp only [Prod.ext_iff] at isDirection ⊢
    tauto
  · exact isDirection

theorem exists_lastHop {ents : Dict String KGEntity} {edge : Edge} {last : Hop}
    (isLast : (onEdge (hopsOf ents) edge).getLast? = some last) :
    ∃ item ∈ ents.items, (onEdge item.2.hops edge).getLast? = some last := by
  unfold hopsOf at isLast
  generalize ents.items = items at isLast ⊢
  induction items using List.reverseRecOn with
  | nil => simp [onEdge] at isLast
  | append_singleton items item ih =>
    rw [List.flatMap_append, List.flatMap_singleton, onEdge, List.filter_append,
      List.getLast?_append, ← onEdge, ← onEdge, Option.or_eq_some_iff] at isLast
    rcases isLast with ofItem | ⟨_, before⟩
    · exact ⟨item, by simp, ofItem⟩
    · obtain ⟨other, isOther, ofOther⟩ := ih before
      exact ⟨other, List.mem_append_left _ isOther, ofOther⟩

namespace OneWay

variable {found : Found}

theorem keyOf_id {a b : String} {edge : Edge} (isDirection : edge ∈ directions a b) :
    OnlyDirection.KeyOf found a b edge id :=
  ⟨isDirection, fun _ => id, fun _ _ _ _ _ _ => rfl⟩

theorem keyOf_sortedPair (oneWay : OneWay found) {a b : String} {edge : Edge}
    (isDirection : edge ∈ directions a b) :
    OnlyDirection.KeyOf found a b edge sortedPair where
  isKey := by
    rw [sortedPair_of_mem_directions isDirection]
    exact sortedPair_mem_directions a b
  within _ := mem_directions_of_sortedPair
  same ent isEnt hop isHop isEdge isSame := by
    have inOrder := oneWay.ordered ent isEnt hop isHop (isEdge.trans isSame.symm)
    rw [isSame] at inOrder
    exact if_neg inOrder

theorem weight_eq (oneWay : OneWay found) {ents : Dict String KGEntity}
    (same : ∀ name, ents.get? name = found.entsFromQuery.get? name) {edge : Edge}
    (notRetrieved : ∀ ent ∈ found.chunks, ent.edge ≠ edge) {last other : Hop}
    (isLast : (onEdge found.hops edge).getLast? = some last)
    (isOther : (onEdge (hopsOf ents) edge).getLast? = some other) :
    other.weight = last.weight := by
  obtain ⟨item, isItem, ofItem⟩ := exists_lastHop isLast
  obtain ⟨otherItem, isOtherItem, ofOther⟩ := exists_lastHop isOther
  have isHop := (mem_onEdge.mp (List.mem_of_getLast? isLast)).1
  have isOtherHop := (perm_hopsOf same).subset (mem_onEdge.mp (List.mem_of_getLast? isOther)).1
  obtain ⟨weight, isWeight⟩ := Option.isSome_iff_exists.mp (oneWay.weighted last isHop)
  obtain ⟨otherWeight, isOtherWeight⟩ :=
    Option.isSome_iff_exists.mp (oneWay.weighted other isOtherHop)
  have isOtherItem' := (Dict.items_perm same).subset isOtherItem
  rw [isWeight, isOtherWeight]
  refine congrArg some (oneWay.sameWeight edge notRetrieved otherItem isOtherItem' item isItem
    otherWeight weight ?_ ?_)
  · rw [lastWeight, ofOther]
    exact isOtherWeight
  · rw [lastWeight, ofItem]
    exact isWeight

theorem scores_pair (oneWay : OneWay found) {rels goRels : Dict Edge KGRelation}
    (scored : retrieval found = some rels) (isGo : IsGoRetrieval found goRels) (a b : String) :
    scoresOf goRels a b = scoresOf rels a b ∧
      (scoresOf rels a b).map Prod.fst = found.expectedSims a b ∧
        (scoresOf rels a b).length ≤ 1 := by
  obtain ⟨ents, same, goLookup⟩ := get?_of_isGoRetrieval oneWay.weighted isGo
  have lookup := get?_retrieval scored
  have perm := perm_hopsOf same
  by_cases isMet : ∃ edge ∈ directions a b, Met found edge
  · obtain ⟨edge, isDirection, isMet⟩ := isMet
    have only := oneWay.onlyDirection isDirection isMet
    have key := oneWay.keyOf_sortedPair isDirection
    have goKey : OnlyDirection.KeyOf found a b edge id := keyOf_id isDirection
    cases isLast : (found.chunks.filter fun ent => ent.edge = edge).getLast? with
    | some ent =>
      have isExpected : found.lastRetrieved a b = some ent := only.lastRetrieved_eq.trans isLast
      rw [only.scoresOf_of_retrieved key (.refl _) lookup isLast,
        only.scoresOf_of_retrieved goKey perm goLookup isLast, Found.expectedSims, isExpected]
      exact ⟨rfl, rfl, Nat.le_refl 1⟩
    | none =>
      have isExpected : found.lastRetrieved a b = none := only.lastRetrieved_eq.trans isLast
      have noChunk := List.filter_eq_nil_iff.mp (List.getLast?_eq_none_iff.mp isLast)
      have notRetrieved : ∀ ent ∈ found.chunks, ent.edge ≠ edge :=
        fun ent isEnt isEdge => noChunk ent isEnt (decide_eq_true isEdge)
      obtain ⟨hop, isHop, isEdge⟩ := isMet.resolve_left fun ⟨ent, isEnt, isEdge⟩ =>
        notRetrieved ent isEnt isEdge
      obtain ⟨last, isLastHop⟩ := Option.isSome_iff_exists.mp
        ((isSome_getLast?_filter (fun hop : Hop => hop.edge = edge) found.hops).mpr
          ⟨hop, isHop, isEdge⟩)
      obtain ⟨other, isOther⟩ := Option.isSome_iff_exists.mp
        ((isSome_getLast?_filter (fun hop : Hop => hop.edge = edge) (hopsOf ents)).mpr
          ⟨hop, perm.symm.subset isHop, isEdge⟩)
      have traversed : (found.hops.any fun hop => hop.edge ∈ directions a b) = true :=
        List.any_eq_true.mpr ⟨hop, isHop, decide_eq_true (isEdge ▸ isDirection)⟩
      rw [only.scoresOf_of_discovered key (.refl _) lookup isLast isLastHop,
        only.scoresOf_of_discovered goKey perm goLookup isLast isOther, Found.expectedSims,
        isExpected, if_pos traversed, oneWay.weight_eq same notRetrieved isLastHop isOther]
      exact ⟨rfl, rfl, Nat.le_refl 1⟩
  · have notMet : ∀ edge ∈ directions a b, ¬ Met found edge :=
      fun edge isDirection isEdge => isMet ⟨edge, isDirection, isEdge⟩
    have notRetrieved : found.lastRetrieved a b = none := by
      rw [Found.lastRetrieved, List.getLast?_eq_none_iff, List.filter_eq_nil_iff]
      intro ent isEnt isDirection
      exact notMet _ (of_decide_eq_true isDirection) (.inl ⟨ent, isEnt, rfl⟩)
    have notTraversed : ¬ (found.hops.any fun hop => hop.edge ∈ directions a b) = true := by
      rw [List.any_eq_true]
      rintro ⟨hop, isHop, isDirection⟩
      exact notMet _ (of_decide_eq_true isDirection) (.inr ⟨hop, isHop, rfl⟩)
    rw [scoresOf_of_notMet notMet (fun _ => mem_directions_of_sortedPair) (.refl _) lookup,
      scoresOf_of_notMet notMet (fun _ => id) perm goLookup, Found.expectedSims, notRetrieved,
      if_neg notTraversed]
    exact ⟨rfl, rfl, Nat.zero_le 1⟩

end OneWay

theorem exists_orientationFree_iff (found : Found) :
    (∃ rels, OrientationFree found rels) ↔ OneWay found := by
  constructor
  · rintro ⟨rels, free⟩
    exact free.oneWay
  · intro oneWay
    have scored : retrieval found = some _ :=
      Option.map_eq_some_iff.mpr ⟨_, nhopPathes_eq_some_iff.mpr ⟨oneWay.weighted, rfl⟩, rfl⟩
    obtain ⟨canonical, isCanonical, _⟩ := exists_isGoRetrieval oneWay.weighted
      found.entsFromQuery fun _ => rfl
    refine ⟨_, scored, fun a b => ?_, fun a b => ?_, fun goRels isGo a b => ?_⟩
    · exact (oneWay.scores_pair scored isCanonical a b).2.2
    · exact (oneWay.scores_pair scored isCanonical a b).2.1
    · exact .of_eq (oneWay.scores_pair scored isGo a b).1

def backwards : Found where
  entsFromQuery := ⟨[("B", ⟨1, [⟨["B", "A"], [1]⟩]⟩)], by simp⟩
  entsFromTypes := []
  relations := [⟨"A", "B", 1, 1, "", by decide⟩]

/-- The pair of A and B is scored twice. -/
theorem not_orientationFree_backwards : ¬ ∃ rels, OrientationFree backwards rels := by
  rintro ⟨rels, free⟩
  have stored : Met backwards ("A", "B") := by
    refine .inl ⟨⟨"A", "B", 1, 1, "", by decide⟩, ?_, rfl⟩
    norm_num [Found.chunks, backwards, retrieved, relSimThreshold]
  have traversed : Met backwards ("B", "A") :=
    .inr ⟨⟨("B", "A"), 1 / 2, some 1⟩, by
      simp [Found.hops, hopsOf, backwards, KGEntity.hops, Nbr.hops], rfl⟩
  exact absurd (free.oneDirection stored traversed) (by decide)

end RagFlow.KgSearch
