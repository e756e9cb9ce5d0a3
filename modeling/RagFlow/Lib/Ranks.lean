import Mathlib.Data.List.Basic
import Mathlib.Data.List.Range

/-!
# Ranked sequences

The places of a sequence have ranks, the rank of a heading above those of what it is about.  To find
the headings of a place, climb from rank to rank to the nearest place before it, and drop what a
higher rank leaves behind.
-/

namespace RagFlow.Lib.Ranks

def placesAt (ranks : List Nat) (rank : Nat) : List Nat :=
  (List.range ranks.length).filter fun place => ranks[place]? = some rank

def lastBefore (places : List Nat) (place : Nat) : Option Nat :=
  (places.filter (· < place)).getLast?

def nearest (ranks : List Nat) (rank place : Nat) : Option Nat :=
  lastBefore (placesAt ranks rank) place

def climb (ranks : List Nat) (size rank place : Nat) : List Nat :=
  (List.range' (rank + 1) (size - (rank + 1))).filterMap fun higher => nearest ranks higher place

/-- What follows a heading up to a place is all of smaller ranks. -/
structure Above (ranks : List Nat) (heading place : Nat) : Prop where
  before : heading < place
  covers : ∃ rank, ranks[heading]? = some rank ∧
    ∀ other otherRank, heading < other → other ≤ place → ranks[other]? = some otherRank →
      otherRank < rank

variable {ranks : List Nat} {rank place : Nat}

theorem mem_placesAt : place ∈ placesAt ranks rank ↔ ranks[place]? = some rank := by
  simp only [placesAt, List.mem_filter, List.mem_range, decide_eq_true_eq, and_iff_right_iff_imp]
  exact fun found => (List.getElem?_eq_some_iff.mp found).1

theorem placesAt_increasing (ranks : List Nat) (rank : Nat) :
    (placesAt ranks rank).Pairwise (· < ·) :=
  List.pairwise_lt_range.filter _

section LastBefore

variable {places : List Nat} {found : Nat}

theorem lastBefore_spec (increasing : places.Pairwise (· < ·))
    (isLast : lastBefore places place = some found) :
    found ∈ places ∧ found < place ∧ ∀ other ∈ places, other < place → other ≤ found := by
  have ordered : (places.filter (· < place)).Pairwise (· < ·) := increasing.filter _
  have mem_iff (other : Nat) :
      other ∈ places.filter (· < place) ↔ other ∈ places ∧ other < place := by simp
  obtain ⟨others, split⟩ := List.getLast?_eq_some_iff.mp isLast
  have isMem := (mem_iff found).mp (split ▸ List.mem_append_right _ List.mem_cons_self)
  refine ⟨isMem.1, isMem.2, fun other isOther before => ?_⟩
  have inFilter := (mem_iff other).mpr ⟨isOther, before⟩
  rw [split] at inFilter ordered
  rcases List.mem_append.mp inFilter with inOthers | isFound
  · exact Nat.le_of_lt ((List.pairwise_append.mp ordered).2.2 _ inOthers _ List.mem_cons_self)
  · exact Nat.le_of_eq (List.mem_singleton.mp isFound)

theorem exists_lastBefore (increasing : places.Pairwise (· < ·)) (isMem : found ∈ places)
    (before : found < place) : ∃ last, lastBefore places place = some last ∧ found ≤ last := by
  have inFilter : found ∈ places.filter (· < place) := by simp [isMem, before]
  cases isLast : lastBefore places place with
  | none => exact absurd (List.getLast?_eq_none_iff.mp isLast) (List.ne_nil_of_mem inFilter)
  | some last => exact ⟨last, rfl, (lastBefore_spec increasing isLast).2.2 found isMem before⟩

theorem lastBefore_eq_some (increasing : places.Pairwise (· < ·)) (isMem : found ∈ places)
    (before : found < place) (greatest : ∀ other ∈ places, other < place → other ≤ found) :
    lastBefore places place = some found := by
  obtain ⟨last, isLast, atLeast⟩ := exists_lastBefore increasing isMem before
  obtain ⟨lastMem, lastBefore, -⟩ := lastBefore_spec increasing isLast
  rw [isLast, Nat.le_antisymm (greatest last lastMem lastBefore) atLeast]

end LastBefore

theorem nearest_spec {found : Nat} (isNearest : nearest ranks rank place = some found) :
    ranks[found]? = some rank ∧ found < place ∧
      ∀ other, ranks[other]? = some rank → other < place → other ≤ found := by
  have spec := lastBefore_spec (placesAt_increasing ranks rank) isNearest
  exact ⟨mem_placesAt.mp spec.1, spec.2.1, fun other isRank =>
    spec.2.2 other (mem_placesAt.mpr isRank)⟩

theorem exists_nearest {found : Nat} (isRank : ranks[found]? = some rank) (before : found < place) :
    ∃ last, nearest ranks rank place = some last ∧ found ≤ last :=
  exists_lastBefore (placesAt_increasing ranks rank) (mem_placesAt.mpr isRank) before

theorem mem_climb {size found : Nat} : found ∈ climb ranks size rank place ↔
    ∃ higher, rank < higher ∧ higher < size ∧ nearest ranks higher place = some found := by
  simp only [climb, List.mem_filterMap, List.mem_range'_1]
  constructor
  · rintro ⟨higher, within, isNearest⟩
    exact ⟨higher, by omega, by omega, isNearest⟩
  · rintro ⟨higher, above, within, isNearest⟩
    exact ⟨higher, by omega, isNearest⟩

def Lower (ranks : List Nat) (first second : Nat) : Prop :=
  ∃ lower higher, ranks[first]? = some lower ∧ ranks[second]? = some higher ∧ lower < higher

theorem Lower.asymm {first second : Nat} (lower : Lower ranks first second) :
    ¬ Lower ranks second first := by
  obtain ⟨firstRank, secondRank, isFirst, isSecond, less⟩ := lower
  rintro ⟨otherSecond, otherFirst, isOtherSecond, isOtherFirst, greater⟩
  rw [isFirst, Option.some.injEq] at isOtherFirst
  rw [isSecond, Option.some.injEq] at isOtherSecond
  omega

theorem climb_ascends (ranks : List Nat) (size rank place : Nat) :
    (climb ranks size rank place).Pairwise (Lower ranks) := by
  rw [climb, List.pairwise_filterMap]
  refine (List.pairwise_lt_range' 1).imp fun {lower higher} less first isFirst second isSecond => ?_
  exact ⟨lower, higher, (nearest_spec isFirst).1, (nearest_spec isSecond).1, less⟩

theorem lt_of_mem_climb {size found : Nat} (isMem : found ∈ climb ranks size rank place) :
    found < place := by
  obtain ⟨_, -, -, isNearest⟩ := mem_climb.mp isMem
  exact (nearest_spec isNearest).2.1

theorem climb_nodup (ranks : List Nat) (size rank place : Nat) :
    (climb ranks size rank place).Nodup := by
  refine (climb_ascends ranks size rank place).imp ?_
  rintro first second lower rfl
  exact lower.asymm lower

/-- Without the places directly followed by a later place. -/
def reduce : List Nat → List Nat
  | [] => []
  | [first] => [first]
  | first :: second :: rest =>
    if first < second then reduce (second :: rest) else first :: reduce (second :: rest)

def NextBehind : List Nat → Prop
  | [] => True
  | first :: rest =>
    ((∃ later ∈ rest, first < later) → ∀ next ∈ rest.head?, first < next) ∧ NextBehind rest

theorem reduce_subset (places : List Nat) : ∀ place ∈ reduce places, place ∈ places := by
  induction places using reduce.induct with
  | case1 => simp [reduce]
  | case2 first => simp [reduce]
  | case3 first second rest less ih =>
    rw [reduce, if_pos less]
    exact fun place isMem => List.mem_cons_of_mem _ (ih place isMem)
  | case4 first second rest notLess ih =>
    rw [reduce, if_neg notLess]
    intro place isMem
    rcases List.mem_cons.mp isMem with rfl | isMem
    · exact List.mem_cons_self
    · exact List.mem_cons_of_mem _ (ih place isMem)

theorem exists_reduce_ge (places : List Nat) :
    ∀ place ∈ places, ∃ kept ∈ reduce places, place ≤ kept := by
  induction places using reduce.induct with
  | case1 => simp
  | case2 first => simp [reduce]
  | case3 first second rest less ih =>
    rw [reduce, if_pos less]
    intro place isMem
    rcases List.mem_cons.mp isMem with rfl | isMem
    · obtain ⟨kept, isKept, atLeast⟩ := ih second List.mem_cons_self
      exact ⟨kept, isKept, by omega⟩
    · exact ih place isMem
  | case4 first second rest notLess ih =>
    rw [reduce, if_neg notLess]
    intro place isMem
    rcases List.mem_cons.mp isMem with rfl | isMem
    · exact ⟨_, List.mem_cons_self, Nat.le_refl _⟩
    · obtain ⟨kept, isKept, atLeast⟩ := ih place isMem
      exact ⟨kept, List.mem_cons_of_mem _ isKept, atLeast⟩

section Related

variable {relation : Nat → Nat → Prop} {places : List Nat}

theorem mem_reduce (related : places.Pairwise relation) (isMem : place ∈ places)
    (last : ∀ later ∈ places, relation place later → later ≤ place) : place ∈ reduce places := by
  induction places using reduce.induct with
  | case1 => cases isMem
  | case2 first => exact isMem
  | case3 first second rest less ih =>
    rw [reduce, if_pos less]
    rw [List.pairwise_cons] at related
    rcases List.mem_cons.mp isMem with rfl | isMem
    · have notLater := last second (by simp) (related.1 second List.mem_cons_self)
      omega
    · exact ih related.2 isMem fun later isLater =>
        last later (List.mem_cons_of_mem _ isLater)
  | case4 first second rest notLess ih =>
    rw [reduce, if_neg notLess]
    rw [List.pairwise_cons] at related
    rcases List.mem_cons.mp isMem with rfl | isMem
    · exact List.mem_cons_self
    · exact List.mem_cons_of_mem _ (ih related.2 isMem fun later isLater =>
        last later (List.mem_cons_of_mem _ isLater))

theorem le_of_mem_reduce
    (asymmetric : ∀ first second, relation first second → ¬ relation second first)
    (related : places.Pairwise relation) (nextBehind : NextBehind places)
    (isKept : place ∈ reduce places) {later : Nat} (isMem : later ∈ places)
    (after : relation place later) : later ≤ place := by
  have notFirst {first : Nat} {others : List Nat} (related : ∀ other ∈ others, relation first other)
      (isKept : place ∈ reduce others) : later ≠ first := by
    rintro rfl
    exact asymmetric _ _ after (related place (reduce_subset _ place isKept))
  induction places using reduce.induct with
  | case1 => cases isMem
  | case2 first =>
    obtain rfl := List.mem_singleton.mp isKept
    exact Nat.le_of_eq (List.mem_singleton.mp isMem)
  | case3 first second rest less ih =>
    rw [reduce, if_pos less] at isKept
    rw [List.pairwise_cons] at related
    have isMem := (List.mem_cons.mp isMem).resolve_left (notFirst related.1 isKept)
    exact ih related.2 nextBehind.2 isKept isMem
  | case4 first second rest notLess ih =>
    rw [reduce, if_neg notLess] at isKept
    rw [List.pairwise_cons] at related
    rcases List.mem_cons.mp isKept with rfl | isKept
    · rcases List.mem_cons.mp isMem with rfl | isMem
      · exact Nat.le_refl _
      · exact Nat.not_lt.mp fun less => notLess (nextBehind.1 ⟨later, isMem, less⟩ second rfl)
    · have isMem := (List.mem_cons.mp isMem).resolve_left (notFirst related.1 isKept)
      exact ih related.2 nextBehind.2 isKept isMem

end Related

theorem reduce_decreasing_iff {places : List Nat} (distinct : places.Nodup) :
    (reduce places).Pairwise (· > ·) ↔ NextBehind places := by
  induction places using reduce.induct with
  | case1 => simp [reduce, NextBehind]
  | case2 first => simp [reduce, NextBehind]
  | case3 first second rest less ih =>
    rw [reduce, if_pos less, NextBehind, ih distinct.of_cons]
    simp [less]
  | case4 first second rest notLess ih =>
    rw [List.nodup_cons] at distinct
    rw [reduce, if_neg notLess, NextBehind, List.pairwise_cons, ih distinct.2]
    refine and_congr_left fun _ => ?_
    constructor
    · rintro keptBefore ⟨later, isLater, less⟩
      obtain ⟨kept, isKept, atLeast⟩ := exists_reduce_ge _ later isLater
      have := keptBefore kept isKept
      omega
    · intro onlyNext kept isKept
      have isLater := reduce_subset _ kept isKept
      have different : first ≠ kept := fun same => distinct.1 (same ▸ isLater)
      have notBefore : ¬ first < kept := fun less =>
        notLess (onlyNext ⟨kept, isLater, less⟩ second rfl)
      omega

def group (ranks : List Nat) (size rank place : Nat) : List Nat :=
  (reduce (climb ranks size rank place)).reverse ++ [place]

variable {size heading : Nat}

theorem Above.trans {above below : Nat} (upper : Above ranks above heading)
    (lower : Above ranks heading below) : Above ranks above below := by
  obtain ⟨upperBefore, rank, isRank, upperCovers⟩ := upper
  obtain ⟨lowerBefore, headingRank, isHeadingRank, lowerCovers⟩ := lower
  refine ⟨Nat.lt_trans upperBefore lowerBefore, rank, isRank, ?_⟩
  intro other otherRank after upTo isOther
  have headingLess := upperCovers heading headingRank upperBefore (Nat.le_refl _) isHeadingRank
  by_cases inUpper : other ≤ heading
  · exact upperCovers other otherRank after inUpper isOther
  · exact Nat.lt_trans (lowerCovers other otherRank (by omega) upTo isOther) headingLess

theorem mem_group_of_above (isRank : ranks[place]? = some rank)
    (bounded : ∀ other ∈ ranks, other < size) (above : Above ranks heading place) :
    heading ∈ group ranks size rank place := by
  obtain ⟨before, higher, isHigher, covers⟩ := above
  have less : rank < higher := covers place rank before (Nat.le_refl _) isRank
  obtain ⟨last, isNearest, atLeast⟩ := exists_nearest isHigher before
  have spec := nearest_spec isNearest
  obtain rfl : last = heading := by
    by_contra different
    exact absurd (covers last higher (by omega) (Nat.le_of_lt spec.2.1) spec.1) (Nat.lt_irrefl _)
  have inClimb : last ∈ climb ranks size rank place :=
    mem_climb.mpr ⟨higher, less, bounded higher (List.mem_of_getElem? isHigher), isNearest⟩
  refine List.mem_append_left _ (List.mem_reverse.mpr ?_)
  refine mem_reduce (climb_ascends ranks size rank place) inClimb ?_
  rintro later isLater ⟨lower, laterRank, isLower, isLaterRank, greater⟩
  rw [isHigher, Option.some.injEq] at isLower
  by_contra behind
  have := covers later laterRank (by omega) (Nat.le_of_lt (lt_of_mem_climb isLater)) isLaterRank
  omega

theorem above_of_mem_reduce (isRank : ranks[place]? = some rank)
    (bounded : ∀ other ∈ ranks, other < size)
    (nextBehind : NextBehind (climb ranks size rank place))
    (isKept : heading ∈ reduce (climb ranks size rank place)) : Above ranks heading place := by
  obtain ⟨higher, less, -, isNearest⟩ := mem_climb.mp (reduce_subset _ heading isKept)
  obtain ⟨isHigher, before, greatest⟩ := nearest_spec isNearest
  refine ⟨before, higher, isHigher, fun other otherRank behind upTo isOther => ?_⟩
  by_contra notLess
  rcases Nat.eq_or_lt_of_le upTo with rfl | within
  · rw [isRank, Option.some.injEq] at isOther
    omega
  rcases Nat.eq_or_lt_of_le (Nat.not_lt.mp notLess) with rfl | greater
  · exact absurd (greatest other isOther within) (Nat.not_le.mpr behind)
  · obtain ⟨last, isLast, atLeast⟩ := exists_nearest isOther within
    have inClimb : last ∈ climb ranks size rank place :=
      mem_climb.mpr ⟨otherRank, by omega, bounded otherRank (List.mem_of_getElem? isOther), isLast⟩
    have notBehind := le_of_mem_reduce (fun _ _ lower => Lower.asymm lower)
      (climb_ascends ranks size rank place) nextBehind isKept inClimb
      ⟨higher, otherRank, isHigher, (nearest_spec isLast).1, greater⟩
    omega

theorem group_above_iff (isRank : ranks[place]? = some rank)
    (bounded : ∀ other ∈ ranks, other < size) :
    (group ranks size rank place).Pairwise (Above ranks) ↔
      NextBehind (climb ranks size rank place) := by
  rw [group, List.pairwise_append, List.pairwise_reverse]
  constructor
  · rintro ⟨headings, -, -⟩
    rw [← reduce_decreasing_iff (climb_nodup ranks size rank place)]
    exact headings.imp fun above => above.before
  · intro nextBehind
    have kept : ∀ heading ∈ reduce (climb ranks size rank place), Above ranks heading place :=
      fun heading isKept => above_of_mem_reduce isRank bounded nextBehind isKept
    have decreasing := (reduce_decreasing_iff (climb_nodup ranks size rank place)).mpr nextBehind
    refine ⟨?_, List.pairwise_singleton _ _, ?_⟩
    · refine decreasing.imp_of_mem fun {later earlier} isLater isEarlier before => ?_
      obtain ⟨higher, isHigher, covers⟩ := (kept earlier isEarlier).covers
      have beforePlace := (kept later isLater).before
      exact ⟨before, higher, isHigher, fun other otherRank behind upTo =>
        covers other otherRank behind (by omega)⟩
    · intro heading isHeading last isLast
      rw [List.mem_singleton.mp isLast]
      exact kept heading (List.mem_reverse.mp isHeading)

end RagFlow.Lib.Ranks
