import Mathlib.Data.List.Chain
import Mathlib.Data.List.Nodup
import Mathlib.Logic.Relation

/-!
# Forests given by upward links

Every element has at most one link upwards.  Following links, two elements are joined
when they reach a common element.  Adding links never separates elements, and a path to
an element without a link is determined by where it starts.
-/

namespace RagFlow.Lib.Links

universe u

variable {Alpha : Type u}

/-- `lower` is linked directly below `upper`. -/
def Step (link : Alpha → Option Alpha) (lower upper : Alpha) : Prop := link lower = some upper

/-- `upper` is reached from `lower` by following links. -/
def Climbs (link : Alpha → Option Alpha) : Alpha → Alpha → Prop :=
  Relation.ReflTransGen (Step link)

def Joined (link : Alpha → Option Alpha) (first second : Alpha) : Prop :=
  ∃ upper, Climbs link first upper ∧ Climbs link second upper

/-- The elements met when following links from `start`, `start` left out. -/
def Path (link : Alpha → Option Alpha) (start : Alpha) (above : List Alpha) : Prop :=
  List.IsChain (Step link) (start :: above)

/-- A path that ends where no link leads on. -/
structure FullPath (link : Alpha → Option Alpha) (start : Alpha) (above : List Alpha) : Prop where
  path : Path link start above
  top : link ((start :: above).getLast (List.cons_ne_nil _ _)) = none

def Extends (link link' : Alpha → Option Alpha) : Prop :=
  ∀ ⦃lower upper⦄, link lower = some upper → link' lower = some upper

theorem Climbs.mono {link link' : Alpha → Option Alpha} (extended : Extends link link')
    {lower upper : Alpha} (climbs : Climbs link lower upper) : Climbs link' lower upper := by
  induction climbs with
  | refl => exact Relation.ReflTransGen.refl
  | tail _ step ih => exact ih.tail (extended step)

theorem Joined.mono {link link' : Alpha → Option Alpha} (extended : Extends link link')
    {first second : Alpha} (joined : Joined link first second) : Joined link' first second := by
  obtain ⟨upper, firstClimbs, secondClimbs⟩ := joined
  exact ⟨upper, firstClimbs.mono extended, secondClimbs.mono extended⟩

theorem Path.mono {link link' : Alpha → Option Alpha} (extended : Extends link link')
    {start : Alpha} {above : List Alpha} (path : Path link start above) :
    Path link' start above :=
  List.IsChain.imp (fun _ _ step => extended step) path

theorem climbs_eq_of_top {link : Alpha → Option Alpha} {top upper : Alpha}
    (isTop : link top = none) (climbs : Climbs link top upper) : upper = top := by
  rcases Relation.ReflTransGen.cases_head climbs with same | ⟨next, step, _⟩
  · exact same.symm
  · rw [Step, isTop] at step
    cases step

theorem eq_of_joined_tops {link : Alpha → Option Alpha} {first second : Alpha}
    (firstTop : link first = none) (secondTop : link second = none)
    (joined : Joined link first second) : first = second := by
  obtain ⟨upper, firstClimbs, secondClimbs⟩ := joined
  rw [← climbs_eq_of_top firstTop firstClimbs, climbs_eq_of_top secondTop secondClimbs]

theorem Path.nil (link : Alpha → Option Alpha) (start : Alpha) : Path link start [] :=
  List.isChain_singleton start

theorem path_cons {link : Alpha → Option Alpha} {start next : Alpha} {above : List Alpha} :
    Path link start (next :: above) ↔ link start = some next ∧ Path link next above :=
  List.isChain_cons_cons

theorem FullPath.cons {link : Alpha → Option Alpha} {start next : Alpha} {above : List Alpha}
    (step : link start = some next) (full : FullPath link next above) :
    FullPath link start (next :: above) where
  path := path_cons.mpr ⟨step, full.path⟩
  top := by
    rw [List.getLast_cons (List.cons_ne_nil _ _)]
    exact full.top

theorem FullPath.nil {link : Alpha → Option Alpha} {start : Alpha} (top : link start = none) :
    FullPath link start [] where
  path := Path.nil link start
  top := top

theorem FullPath.prefix_of_path {link : Alpha → Option Alpha} {start : Alpha}
    {above full : List Alpha} (complete : FullPath link start full)
    (path : Path link start above) : above <+: full := by
  induction above generalizing start full with
  | nil => exact List.nil_prefix
  | cons next above ih =>
    obtain ⟨step, rest⟩ := path_cons.mp path
    cases full with
    | nil =>
      have top : link start = none := complete.top
      rw [step] at top
      cases top
    | cons next' full =>
      obtain ⟨step', rest'⟩ := path_cons.mp complete.path
      rw [step, Option.some.injEq] at step'
      subst step'
      refine (List.prefix_cons_inj next).mpr (ih ⟨rest', ?_⟩ rest)
      have top := complete.top
      rwa [List.getLast_cons (List.cons_ne_nil _ _)] at top

theorem FullPath.unique {link : Alpha → Option Alpha} {start : Alpha} {full full' : List Alpha}
    (complete : FullPath link start full) (complete' : FullPath link start full') :
    full = full' := by
  have front := complete.prefix_of_path complete'.path
  have back := complete'.prefix_of_path complete.path
  exact back.eq_of_length_le front.length_le

theorem Path.pairwise_lt {link : Alpha → Option Alpha} {rank : Alpha → Nat}
    (growing : ∀ lower upper, link lower = some upper → rank lower < rank upper)
    {start : Alpha} {above : List Alpha} (path : Path link start above) :
    (start :: above).Pairwise fun lower upper => rank lower < rank upper :=
  haveI : Trans (fun lower upper => rank lower < rank upper)
      (fun lower upper => rank lower < rank upper)
      (fun lower upper : Alpha => rank lower < rank upper) := ⟨Nat.lt_trans⟩
  List.IsChain.pairwise (List.IsChain.imp (fun _ _ step => growing _ _ step) path)

theorem Path.nodup {link : Alpha → Option Alpha} {rank : Alpha → Nat}
    (growing : ∀ lower upper, link lower = some upper → rank lower < rank upper)
    {start : Alpha} {above : List Alpha} (path : Path link start above) :
    (start :: above).Nodup :=
  (path.pairwise_lt growing).imp fun smaller same => absurd (same ▸ smaller) (Nat.lt_irrefl _)

theorem Path.climbs_of_mem {link : Alpha → Option Alpha} {start upper : Alpha}
    {above : List Alpha} (path : Path link start above) (membership : upper ∈ start :: above) :
    Climbs link start upper := by
  induction above generalizing start with
  | nil =>
    rw [List.mem_singleton.mp membership]
    exact Relation.ReflTransGen.refl
  | cons next above ih =>
    obtain ⟨step, rest⟩ := path_cons.mp path
    rcases List.mem_cons.mp membership with same | later
    · rw [same]
      exact Relation.ReflTransGen.refl
    · exact Relation.ReflTransGen.head step (ih rest later)

theorem FullPath.of_suffix {link : Alpha → Option Alpha} {start middle : Alpha}
    {above after : List Alpha} (full : FullPath link start above)
    (suffix : middle :: after <:+ start :: above) : FullPath link middle after := by
  obtain ⟨before, split⟩ := suffix
  have path := full.path
  have top := full.top
  simp only [Path, ← split, List.getLast_append_of_ne_nil _ (List.cons_ne_nil middle after)]
    at path top
  exact ⟨List.IsChain.right_of_append path, top⟩

end RagFlow.Lib.Links
