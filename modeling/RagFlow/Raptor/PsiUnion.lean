import RagFlow.Raptor.PsiInvariant

/-!
# Merging two leaves keeps the forest

`union` adds at most one link, between two roots, and joins the classes of its arguments.
Neither of its fallbacks is reached.
-/

namespace RagFlow.Raptor.PsiUnionFind

open RagFlow.Lib.Links

variable {n : Nat} {link : Nat → Option Nat} {uf : PsiUnionFind}

theorem Growing.lt_of_mem {rank : Nat → Nat} (growing : Growing n link rank) {start i : Nat}
    {above : List Nat} (path : Path link start above) (inRange : start < n)
    (membership : i ∈ start :: above) : i < n := by
  rcases Relation.ReflTransGen.cases_tail (path.climbs_of_mem membership) with
    same | ⟨_, _, step⟩
  · exact same ▸ inRange
  · exact (growing step).2.1

theorem Inv.startChain_eq (inv : Inv n link uf) {root : Nat} (inRange : root < n)
    (top : link root = none) (positive : 0 < uf.rank root) : uf.startChain root = uf := by
  have chain := (inv.chains root inRange).of_top top
  rw [trail, if_neg positive.ne'] at chain
  rw [startChain, if_neg (by simp [chain])]

theorem mem_trail_of_getLast {rank : Nat → Nat} {leaf high : Nat} {above : List Nat}
    (last : (leaf :: above).getLast (List.cons_ne_nil _ _) = high) (positive : 0 < rank high) :
    high ∈ trail rank leaf above := by
  unfold trail
  split_ifs with zero
  · cases above with
    | nil =>
      rw [List.getLast_singleton] at last
      rw [last] at zero
      omega
    | cons next above =>
      rw [List.getLast_cons (List.cons_ne_nil _ _)] at last
      exact last ▸ List.getLast_mem _
  · exact last ▸ List.getLast_mem _

theorem exists_insertPoint (rank : Nat → Nat) {leaf high low : Nat} {above : List Nat}
    (last : (leaf :: above).getLast (List.cons_ne_nil _ _) = high)
    (smaller : rank low < rank high) :
    ∃ insertPoint rest,
      rankBisectRight rank (trail rank leaf above) (rank low) < (trail rank leaf above).length ∧
      (trail rank leaf above).getD
        (rankBisectRight rank (trail rank leaf above) (rank low)) 0 = insertPoint ∧
      (trail rank leaf above).drop
        (rankBisectRight rank (trail rank leaf above) (rank low)) = insertPoint :: rest ∧
      insertPoint :: rest <:+ leaf :: above ∧ rank low < rank insertPoint := by
  have inside : rankBisectRight rank (trail rank leaf above) (rank low) <
      (trail rank leaf above).length :=
    List.findIdx_lt_length_of_exists
      ⟨high, mem_trail_of_getLast last (by omega), decide_eq_true smaller⟩
  refine ⟨(trail rank leaf above)[rankBisectRight rank (trail rank leaf above) (rank low)],
    (trail rank leaf above).drop (rankBisectRight rank (trail rank leaf above) (rank low) + 1),
    inside, ?_, List.drop_eq_getElem_cons inside, ?_, ?_⟩
  · rw [List.getD_eq_getElem?_getD, List.getElem?_eq_getElem inside, Option.getD_some]
  · rw [← List.drop_eq_getElem_cons inside]
    exact (List.drop_suffix _ _).trans (trail_suffix rank leaf above)
  · exact of_decide_eq_true
      (List.findIdx_getElem (p := fun node => decide (rank low < rank node)) (w := inside))

/-- What `attach` changes: the chain of the lower root and the tree link of its top node. -/
theorem Inv.attach_eq (inv : Inv n link uf) {low high leaf : Nat} {above : List Nat}
    (lowIn : low < n) (leafIn : leaf < n) (lowTop : link low = none)
    (full : FullPath link leaf above) (chainEq : uf.parentChains leaf = trail uf.rank leaf above)
    (last : (leaf :: above).getLast (List.cons_ne_nil _ _) = high)
    (smaller : uf.rank low < uf.rank high) :
    ∃ insertPoint rest, insertPoint :: rest <:+ leaf :: above ∧
      uf.rank low < uf.rank insertPoint ∧
      uf.attach low high leaf =
        { uf with
          parentChains := Function.update uf.parentChains low
            (trail uf.rank low (insertPoint :: rest))
          tree := Function.update uf.tree ((uf.nodeIds low).getLastD 0)
            (uf.nodeIds insertPoint)[uf.rank low + 1]? } := by
  obtain ⟨insertPoint, rest, inside, point, dropped, suffix, larger⟩ :=
    exists_insertPoint uf.rank last smaller
  have highIn : high < n :=
    inv.growing.lt_of_mem full.path leafIn (last ▸ List.getLast_mem _)
  have highTop : link high = none := last ▸ full.top
  have pointIn : insertPoint < n :=
    inv.growing.lt_of_mem full.path leafIn (suffix.subset List.mem_cons_self)
  have path := (full.of_suffix suffix).path
  -- Everything on the inserted path has a larger rank than the root it is appended to.
  have extended : orderedExtend (uf.parentChains low) (insertPoint :: rest) =
      trail uf.rank low (insertPoint :: rest) := by
    rw [(inv.chains low lowIn).of_top lowTop, trail_eq_append uf.rank low (insertPoint :: rest)]
    apply orderedExtend_of_disjoint (inv.growing.nodup path)
    intro value membership known
    have same : value = low := by
      have front := (trail_suffix uf.rank low []).subset known
      exact List.mem_singleton.mp front
    have increasing : (insertPoint :: rest).Pairwise fun lower upper =>
        uf.rank lower < uf.rank upper :=
      path.pairwise_lt fun _ _ step => (inv.growing step).2.2
    rcases List.mem_cons.mp membership with isPoint | later
    · rw [← isPoint, same] at larger
      exact Nat.lt_irrefl _ larger
    · have beyond := (List.pairwise_cons.mp increasing).1 value later
      rw [same] at beyond
      omega
  have bound : uf.rank low + 1 < (uf.nodeIds insertPoint).length := by
    rw [inv.ids_length insertPoint pointIn]
    omega
  refine ⟨insertPoint, rest, suffix, larger, ?_⟩
  rw [attach, inv.startChain_eq highIn highTop (by omega)]
  simp only [chainEq, ge_iff_le, not_le.mpr inside, if_false, point, dropped, extended, buildAt,
    not_le.mpr bound, List.getD_eq_getElem?_getD, List.getElem?_eq_getElem bound, Option.getD_some]

theorem Inv.attach (inv : Inv n link uf) {low high leaf : Nat} {above : List Nat}
    (lowIn : low < n) (leafIn : leaf < n) (lowTop : link low = none)
    (full : FullPath link leaf above) (chainEq : uf.parentChains leaf = trail uf.rank leaf above)
    (last : (leaf :: above).getLast (List.cons_ne_nil _ _) = high)
    (smaller : uf.rank low < uf.rank high) :
    ∃ insertPoint, Climbs link leaf insertPoint ∧
      Inv n (Function.update link low (some insertPoint)) (uf.attach low high leaf) := by
  obtain ⟨insertPoint, rest, suffix, larger, attached⟩ :=
    inv.attach_eq lowIn leafIn lowTop full chainEq last smaller
  have pointIn : insertPoint < n :=
    inv.growing.lt_of_mem full.path leafIn (suffix.subset List.mem_cons_self)
  have path := (full.of_suffix suffix).path
  have linked : Extends link (Function.update link low (some insertPoint)) :=
    extends_update _ lowTop
  have topId := inv.owns_getLast lowIn
  have otherId : ∀ ⦃i k id⦄, i < n → uf.Owns i k id → (i ≠ low ∨ k ≠ uf.rank low) →
      id ≠ (uf.nodeIds low).getLastD 0 := by
    rintro i k id inRange owns differ rfl
    obtain ⟨same, sameRank⟩ := inv.owner_unique inRange lowIn owns topId
    exact differ.elim (fun other => other same) (fun other => other sameRank)
  refine ⟨insertPoint, full.path.climbs_of_mem (suffix.subset List.mem_cons_self), ?_⟩
  rw [attached]
  refine
    { inv with
      growing := ?_, chains := ?_, tree_inner := ?_, tree_top := ?_, tree_fresh := ?_,
      sibling := ?_, count := ?_ }
  · intro lower upper step
    rcases eq_or_ne lower low with rfl | other
    · rw [Function.update_self, Option.some.injEq] at step
      exact ⟨lowIn, step ▸ pointIn, step ▸ larger⟩
    · rw [Function.update_of_ne other] at step
      exact inv.growing step
  · intro i inRange
    change ChainOk _ uf.rank i (Function.update uf.parentChains low _ i)
    rcases eq_or_ne i low with rfl | other
    · rw [Function.update_self]
      refine ⟨insertPoint :: rest, rfl, path_cons.mpr ⟨Function.update_self _ _ _, ?_⟩,
        fun empty => by cases empty⟩
      exact path.mono linked
    · rw [Function.update_of_ne other]
      exact (inv.chains i inRange).mono_update lowTop other
  · intro i k id aboveId inRange owns ownsAbove
    have below := inv.owns_le_rank inRange ownsAbove
    change Function.update uf.tree _ _ id = _
    rw [Function.update_of_ne]
    · exact inv.tree_inner inRange owns ownsAbove
    · apply otherId inRange owns
      by_cases same : i = low
      · right
        rw [same] at below
        omega
      · exact .inl same
  · intro i id inRange owns
    change Function.update uf.tree _ _ id = _
    rcases eq_or_ne i low with rfl | other
    · have isTop : id = (uf.nodeIds i).getLastD 0 :=
        Option.some.inj (owns.symm.trans topId)
      rw [isTop, Function.update_self, Function.update_self, Option.bind_some]
    · rw [Function.update_of_ne (otherId inRange owns (.inl other)), Function.update_of_ne other]
      exact inv.tree_top inRange owns
  · intro id fresh
    change Function.update uf.tree _ _ id = _
    rw [Function.update_of_ne]
    · exact inv.tree_fresh fresh
    · rintro rfl
      exact absurd (inv.owns_lt lowIn topId) (not_lt.mpr fresh)
  · intro i inRange k below
    obtain ⟨lower, step, rankEq⟩ := inv.sibling i inRange k below
    exact ⟨lower, linked step, rankEq⟩
  · have fewer := tops_update insertPoint lowIn lowTop
    have count := inv.count
    change uf.nextId + _ ≤ _
    omega

theorem Inv.startChain_eq_update (inv : Inv n link uf) {root : Nat} (inRange : root < n)
    (top : link root = none) :
    uf.startChain root =
      { uf with parentChains := Function.update uf.parentChains root [root] } := by
  have chain := (inv.chains root inRange).of_top top
  unfold startChain trail at *
  split_ifs at chain ⊢ with empty
  · rfl
  · simp [chain] at empty
  · simp_all
  · rw [← chain, Function.update_eq_self]

theorem drop_length_sub_one {values : List Nat} {last : Nat} (nonempty : values ≠ [])
    (isLast : values.getLast nonempty = last) : values.drop (values.length - 1) = [last] := by
  rw [List.drop_length_sub_one nonempty, isLast]

theorem Inv.joinEqual_eq (inv : Inv n link uf) {rootI rootJ i : Nat} {above : List Nat}
    (rootIIn : rootI < n) (rootJIn : rootJ < n) (differ : rootI ≠ rootJ)
    (topI : link rootI = none) (topJ : link rootJ = none) (full : FullPath link i above)
    (chainEq : uf.parentChains i = trail uf.rank i above)
    (last : (i :: above).getLast (List.cons_ne_nil _ _) = rootI) :
    uf.joinEqual rootI rootJ i =
      { uf with
        parentChains := Function.update (Function.update uf.parentChains rootI [rootI]) rootJ
          (trail uf.rank rootJ [rootI])
        rank := Function.update uf.rank rootI (uf.rank rootI + 1)
        tree := Function.update
          (Function.update uf.tree ((uf.nodeIds rootI).getLastD 0) (some uf.nextId))
          ((uf.nodeIds rootJ).getLastD 0) (some uf.nextId)
        nodeIds := Function.update uf.nodeIds rootI (uf.nodeIds rootI ++ [uf.nextId])
        nextId := uf.nextId + 1 } := by
  -- Both for a root and for a leaf below it, the chain ends with the root.
  have lastOfChain : (Function.update uf.parentChains rootI [rootI] i).drop
      ((Function.update uf.parentChains rootI [rootI] i).length - 1) = [rootI] := by
    rcases eq_or_ne i rootI with rfl | other
    · simp
    · rw [Function.update_of_ne other, chainEq]
      cases above with
      | nil => exact absurd last other
      | cons next above =>
        have nonempty : trail uf.rank i (next :: above) ≠ [] := by
          unfold trail
          split_ifs <;> simp
        apply drop_length_sub_one nonempty
        rw [(trail_suffix uf.rank i (next :: above)).getLast nonempty]
        exact last
  have extended : orderedExtend (uf.parentChains rootJ) [rootI] = trail uf.rank rootJ [rootI] := by
    rw [(inv.chains rootJ rootJIn).of_top topJ, trail_eq_append uf.rank rootJ [rootI]]
    apply orderedExtend_of_disjoint (List.nodup_singleton rootI)
    intro value membership known
    have front := (trail_suffix uf.rank rootJ []).subset known
    rw [List.mem_singleton] at membership front
    exact differ (membership ▸ front)
  rw [joinEqual, inv.startChain_eq_update rootIIn topI]
  simp only [lastOfChain, Function.update_of_ne differ.symm, extended, buildNew]

theorem Inv.owns_append (inv : Inv n link uf) {root : Nat} (rootIn : root < n)
    {uf' : PsiUnionFind}
    (ids : uf'.nodeIds = Function.update uf.nodeIds root (uf.nodeIds root ++ [uf.nextId]))
    {i k id : Nat} :
    uf'.Owns i k id ↔
      uf.Owns i k id ∨ (i = root ∧ k = uf.rank root + 1 ∧ id = uf.nextId) := by
  have length := inv.ids_length root rootIn
  unfold Owns
  rw [ids]
  rcases eq_or_ne i root with rfl | other
  · rw [Function.update_self, List.getElem?_append, length]
    split_ifs with old
    · constructor
      · exact .inl
      · rintro (owns | ⟨_, new, _⟩)
        · exact owns
        · omega
    · have beyond : (uf.nodeIds i)[k]? = none := List.getElem?_eq_none (by omega)
      rw [List.getElem?_singleton, beyond]
      split_ifs with first
      · simp only [Option.some.injEq, true_and, false_or, eq_comm (a := uf.nextId)]
        constructor
        · exact fun same => ⟨by omega, same⟩
        · exact fun same => same.2
      · simp only [true_and, false_or, false_iff, not_and]
        omega
  · rw [Function.update_of_ne other]
    simp [other]

theorem ChainOk.of_rank_eq {rank rank' : Nat → Nat} {i : Nat} {chain : List Nat}
    (ok : ChainOk link rank i chain) (same : rank' i = rank i) : ChainOk link rank' i chain := by
  obtain ⟨above, chainEq, path, closed⟩ := ok
  exact ⟨above, by rw [chainEq, trail, trail, same], path, closed⟩

theorem Inv.joinEqual (inv : Inv n link uf) {rootI rootJ i : Nat} {above : List Nat}
    (rootIIn : rootI < n) (rootJIn : rootJ < n) (differ : rootI ≠ rootJ)
    (topI : link rootI = none) (topJ : link rootJ = none) (full : FullPath link i above)
    (chainEq : uf.parentChains i = trail uf.rank i above)
    (last : (i :: above).getLast (List.cons_ne_nil _ _) = rootI)
    (sameRank : uf.rank rootI = uf.rank rootJ) :
    Inv n (Function.update link rootJ (some rootI)) (uf.joinEqual rootI rootJ i) := by
  rw [inv.joinEqual_eq rootIIn rootJIn differ topI topJ full chainEq last]
  have linked : Extends link (Function.update link rootJ (some rootI)) :=
    extends_update rootI topJ
  have idI := inv.owns_getLast rootIIn
  have idJ := inv.owns_getLast rootJIn
  have otherId : ∀ ⦃i k id root⦄, i < n → uf.Owns i k id → root < n →
      (i ≠ root ∨ k ≠ uf.rank root) → id ≠ (uf.nodeIds root).getLastD 0 := by
    rintro i k id root inRange owns rootIn differ rfl
    obtain ⟨same, sameRank⟩ := inv.owner_unique inRange rootIn owns (inv.owns_getLast rootIn)
    exact differ.elim (fun other => other same) (fun other => other sameRank)
  have freshI := (inv.owns_lt rootIIn idI).ne'
  have freshJ := (inv.owns_lt rootJIn idJ).ne'
  have rankI : ∀ k, uf.rank k ≤ Function.update uf.rank rootI (uf.rank rootI + 1) k := by
    intro k
    rcases eq_or_ne k rootI with rfl | other
    · rw [Function.update_self]
      exact Nat.le_succ _
    · rw [Function.update_of_ne other]
  constructor
  case growing =>
    intro lower upper step
    change lower < n ∧ upper < n ∧ Function.update uf.rank rootI _ lower <
      Function.update uf.rank rootI _ upper
    rcases eq_or_ne lower rootJ with rfl | other
    · rw [Function.update_self, Option.some.injEq] at step
      subst step
      rw [Function.update_self, Function.update_of_ne differ.symm]
      exact ⟨rootJIn, rootIIn, by omega⟩
    · rw [Function.update_of_ne other] at step
      obtain ⟨lowerIn, upperIn, smaller⟩ := inv.growing step
      have notRoot : lower ≠ rootI := by
        rintro rfl
        rw [topI] at step
        cases step
      rw [Function.update_of_ne notRoot]
      exact ⟨lowerIn, upperIn, smaller.trans_le (rankI upper)⟩
  case chains =>
    intro k inRange
    change ChainOk _ (Function.update uf.rank rootI _) k
      (Function.update (Function.update uf.parentChains rootI _) rootJ _ k)
    rcases eq_or_ne k rootJ with rfl | notJ
    · rw [Function.update_self]
      refine ⟨[rootI], ?_, path_cons.mpr ⟨Function.update_self _ _ _, Path.nil _ _⟩,
        fun empty => by cases empty⟩
      rw [trail, trail, Function.update_of_ne differ.symm]
    · rw [Function.update_of_ne notJ]
      rcases eq_or_ne k rootI with rfl | notI
      · rw [Function.update_self]
        refine ⟨[], ?_, Path.nil _ _, fun _ => ?_⟩
        · rw [trail, Function.update_self, if_neg (Nat.succ_ne_zero _)]
        · rw [Function.update_of_ne notJ, topI]
      · rw [Function.update_of_ne notI]
        exact ((inv.chains k inRange).mono_update topJ notJ).of_rank_eq
          (Function.update_of_ne notI _ _)
  case ids_length =>
    intro k inRange
    change (Function.update uf.nodeIds rootI _ k).length = Function.update uf.rank rootI _ k + 1
    rcases eq_or_ne k rootI with rfl | other
    · rw [Function.update_self, Function.update_self, List.length_append,
        inv.ids_length k inRange, List.length_singleton]
    · rw [Function.update_of_ne other, Function.update_of_ne other]
      exact inv.ids_length k inRange
  case owns_leaf =>
    exact fun k inRange => (inv.owns_append rootIIn rfl).mpr (.inl (inv.owns_leaf k inRange))
  case owns_lt =>
    intro k l id inRange owns
    change id < uf.nextId + 1
    rcases (inv.owns_append rootIIn rfl).mp owns with old | ⟨_, _, rfl⟩
    · exact Nat.lt_succ_of_lt (inv.owns_lt inRange old)
    · exact Nat.lt_succ_self _
  case owner_unique =>
    intro a b k l id aIn bIn ownsA ownsB
    rcases (inv.owns_append rootIIn rfl).mp ownsA with oldA | ⟨rfl, rfl, newA⟩ <;>
      rcases (inv.owns_append rootIIn rfl).mp ownsB with oldB | ⟨rfl, rfl, newB⟩
    · exact inv.owner_unique aIn bIn oldA oldB
    · exact absurd (inv.owns_lt aIn oldA) (by omega)
    · exact absurd (inv.owns_lt bIn oldB) (by omega)
    · exact ⟨rfl, rfl⟩
  case owned =>
    intro id below
    change id < uf.nextId + 1 at below
    rcases Nat.lt_succ_iff_lt_or_eq.mp below with old | rfl
    · obtain ⟨k, inRange, l, owns⟩ := inv.owned id old
      exact ⟨k, inRange, l, (inv.owns_append rootIIn rfl).mpr (.inl owns)⟩
    · exact ⟨rootI, rootIIn, uf.rank rootI + 1,
        (inv.owns_append rootIIn rfl).mpr (.inr ⟨rfl, rfl, rfl⟩)⟩
  case tree_inner =>
    intro k l id aboveId inRange owns ownsAbove
    change Function.update (Function.update uf.tree _ _) _ _ id = _
    rcases (inv.owns_append rootIIn rfl).mp ownsAbove with oldAbove | ⟨rfl, isNew, rfl⟩
    · have below := inv.owns_le_rank inRange oldAbove
      have old : uf.Owns k l id := by
        apply ((inv.owns_append rootIIn rfl).mp owns).resolve_right
        rintro ⟨rfl, rankEq, -⟩
        omega
      have notTop : ∀ root, k ≠ root ∨ l ≠ uf.rank root := by
        intro root
        by_cases same : k = root
        · right
          rw [same] at below
          omega
        · exact .inl same
      rw [Function.update_of_ne (otherId inRange old rootJIn (notTop rootJ)),
        Function.update_of_ne (otherId inRange old rootIIn (notTop rootI))]
      exact inv.tree_inner inRange old oldAbove
    · have old : uf.Owns k l id := by
        apply ((inv.owns_append rootIIn rfl).mp owns).resolve_right
        rintro ⟨-, rankEq, -⟩
        omega
      obtain rfl : l = uf.rank k := by omega
      rw [Function.update_of_ne (otherId inRange old rootJIn (.inl differ)),
        Option.some.inj (old.symm.trans idI), Function.update_self]
  case tree_top =>
    intro k id inRange owns
    change Function.update (Function.update uf.tree _ _) _ _ id =
      (Function.update link rootJ _ k).bind fun upper =>
        (Function.update uf.nodeIds rootI _ upper)[Function.update uf.rank rootI _ k + 1]?
    change Owns _ k (Function.update uf.rank rootI _ k) id at owns
    rcases eq_or_ne k rootI with rfl | notI
    · rw [Function.update_self] at owns
      obtain rfl : id = uf.nextId := by
        rcases (inv.owns_append inRange rfl).mp owns with old | ⟨_, _, new⟩
        · have below := inv.owns_le_rank inRange old
          omega
        · exact new
      rw [Function.update_of_ne freshJ, Function.update_of_ne freshI, inv.tree_fresh le_rfl,
        Function.update_of_ne differ, topI, Option.bind_none]
    · rw [Function.update_of_ne notI] at owns ⊢
      have old : uf.Owns k (uf.rank k) id :=
        ((inv.owns_append rootIIn rfl).mp owns).resolve_right fun new => notI new.1
      rcases eq_or_ne k rootJ with rfl | notJ
      · rw [Option.some.inj (old.symm.trans idJ), Function.update_self, Function.update_self,
          Option.bind_some, Function.update_self, ← sameRank,
          List.getElem?_append_right (inv.ids_length rootI rootIIn).le,
          inv.ids_length rootI rootIIn, Nat.sub_self]
        rfl
      · rw [Function.update_of_ne (otherId inRange old rootJIn (.inl notJ)),
          Function.update_of_ne (otherId inRange old rootIIn (.inl notI)),
          Function.update_of_ne notJ, inv.tree_top inRange old]
        rcases linkEq : link k with _ | upper
        · rfl
        · obtain ⟨_, upperIn, smaller⟩ := inv.growing linkEq
          rw [Option.bind_some, Option.bind_some]
          rcases eq_or_ne upper rootI with rfl | notUpper
          · rw [Function.update_self, List.getElem?_append_left]
            rw [inv.ids_length upper upperIn]
            omega
          · rw [Function.update_of_ne notUpper]
  case tree_fresh =>
    intro id fresh
    change uf.nextId + 1 ≤ id at fresh
    change Function.update (Function.update uf.tree _ _) _ _ id = _
    have belowI := inv.owns_lt rootIIn idI
    have belowJ := inv.owns_lt rootJIn idJ
    rw [Function.update_of_ne (by omega), Function.update_of_ne (by omega)]
    exact inv.tree_fresh (by omega)
  case sibling =>
    intro k inRange l below
    change l < Function.update uf.rank rootI _ k at below
    have oldSibling : l < uf.rank k → ∃ lower,
        Function.update link rootJ (some rootI) lower = some k ∧
          Function.update uf.rank rootI (uf.rank rootI + 1) lower = l := by
      intro below
      obtain ⟨lower, step, rankEq⟩ := inv.sibling k inRange l below
      refine ⟨lower, linked step, ?_⟩
      rw [Function.update_of_ne]
      · exact rankEq
      · rintro rfl
        rw [topI] at step
        cases step
    rcases eq_or_ne k rootI with rfl | notI
    · rw [Function.update_self] at below
      rcases Nat.lt_succ_iff_lt_or_eq.mp below with old | rfl
      · exact oldSibling old
      · exact ⟨rootJ, Function.update_self _ _ _,
          (Function.update_of_ne differ.symm _ _).trans sameRank.symm⟩
    · rw [Function.update_of_ne notI] at below
      exact oldSibling below
  case ranks =>
    intro k inRange
    change Function.update uf.rank rootI _ k + n ≤ uf.nextId + 1
    have ranks := inv.ranks k inRange
    rcases eq_or_ne k rootI with rfl | notI
    · rw [Function.update_self]
      omega
    · rw [Function.update_of_ne notI]
      omega
  case count =>
    have fewer := tops_update rootI rootJIn topJ
    have count := inv.count
    change uf.nextId + 1 + _ ≤ _
    omega
  case no_fallback => exact inv.no_fallback

/-- `union` succeeds, keeps the invariant for a forest with the old links, joins its
arguments, and reports exactly whether it linked a root. -/
theorem union_spec (inv : Inv n link uf) {i j : Nat} (iIn : i < n) (jIn : j < n) :
    ∃ uf' merged link', union (n + 1) uf i j = some (uf', merged) ∧ Inv n link' uf' ∧
      Extends link link' ∧ Joined link' i j ∧
      (tops n link').card + (if merged then 1 else 0) = (tops n link).card := by
  have bounded : ∀ k < n, uf.rank k ≤ n := fun k inRange => inv.rank_le inRange
  obtain ⟨chains₁, fullI, foundI, pathI, chainI, ok₁, _⟩ :=
    find_spec inv.growing bounded (n + 1) inv.chains iIn (by omega)
  obtain ⟨chains₂, fullJ, foundJ, pathJ, chainJ, ok₂, kept⟩ :=
    find_spec inv.growing bounded (n + 1) ok₁ jIn (by omega)
  have chainI := kept i iIn fullI pathI chainI
  have inv' := inv.with_chains ok₂
  set rootI := (i :: fullI).getLast (List.cons_ne_nil _ _) with rootIEq
  set rootJ := (j :: fullJ).getLast (List.cons_ne_nil _ _) with rootJEq
  have rootIIn : rootI < n := inv.growing.lt_of_mem pathI.path iIn (List.getLast_mem _)
  have rootJIn : rootJ < n := inv.growing.lt_of_mem pathJ.path jIn (List.getLast_mem _)
  have climbsI : Climbs link i rootI := pathI.path.climbs_of_mem (List.getLast_mem _)
  have climbsJ : Climbs link j rootJ := pathJ.path.climbs_of_mem (List.getLast_mem _)
  simp only [union, foundI, foundJ, Option.bind_eq_bind, Option.bind_some, Option.pure_def,
    found_getLast, ← rootIEq, ← rootJEq]
  by_cases same : rootI = rootJ
  · rw [if_pos same]
    exact ⟨_, _, link, rfl, inv', fun _ _ step => step, ⟨rootI, climbsI, same ▸ climbsJ⟩, by simp⟩
  rw [if_neg same]
  by_cases less : uf.rank rootI < uf.rank rootJ
  · rw [if_pos less]
    obtain ⟨insertPoint, climbs, attached⟩ :=
      inv'.attach rootIIn jIn pathI.top pathJ chainJ rootJEq.symm less
    have linked := extends_update insertPoint pathI.top
    refine ⟨_, _, _, rfl, attached, linked, ⟨insertPoint, ?_, climbs.mono linked⟩,
      tops_update _ rootIIn pathI.top⟩
    exact (climbsI.mono linked).tail (Function.update_self _ _ _)
  rw [if_neg less]
  by_cases greater : uf.rank rootJ < uf.rank rootI
  · rw [if_pos greater]
    obtain ⟨insertPoint, climbs, attached⟩ :=
      inv'.attach rootJIn iIn pathJ.top pathI chainI rootIEq.symm greater
    have linked := extends_update insertPoint pathJ.top
    refine ⟨_, _, _, rfl, attached, linked, ⟨insertPoint, climbs.mono linked, ?_⟩,
      tops_update _ rootJIn pathJ.top⟩
    exact (climbsJ.mono linked).tail (Function.update_self _ _ _)
  · rw [if_neg greater]
    have joined := inv'.joinEqual rootIIn rootJIn same pathI.top pathJ.top pathI chainI
      rootIEq.symm (le_antisymm (not_lt.mp greater) (not_lt.mp less))
    have linked := extends_update rootI pathJ.top
    refine ⟨_, _, _, rfl, joined, linked, ⟨rootI, climbsI.mono linked, ?_⟩,
      tops_update _ rootJIn pathJ.top⟩
    exact (climbsJ.mono linked).tail (Function.update_self _ _ _)

end RagFlow.Raptor.PsiUnionFind
