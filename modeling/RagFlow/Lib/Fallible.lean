import Mathlib.Data.List.Basic

/-!
# Loops that can fail

A loop in `Option` succeeds when every visit does.
-/

namespace RagFlow.Lib.Fallible

universe u v w

variable {Source : Type u} {Target : Type v} {State : Type w} {sources : List Source}
  {visit : Source → Option Target}

theorem mapM_isSome_iff :
    (sources.mapM visit).isSome ↔ ∀ source ∈ sources, (visit source).isSome := by
  induction sources with
  | nil => simp
  | cons head rest ih =>
    rw [List.mapM_cons]
    cases found : visit head with
    | none => simp [found]
    | some target =>
      cases others : rest.mapM visit with
      | none => simp_all
      | some targets => simp_all

theorem foldlM_isSome_iff {collect : State → Source → Target → State} {start : State} :
    (sources.foldlM (fun state source =>
      (visit source).bind fun target => some (collect state source target)) start).isSome ↔
        ∀ source ∈ sources, (visit source).isSome := by
  induction sources generalizing start with
  | nil => simp
  | cons head rest ih =>
    cases found : visit head with
    | none => simp [found]
    | some target => simpa [found] using ih

theorem mapM_eq_some_iff {targets : List Target} :
    sources.mapM visit = some targets ↔ sources.map visit = targets.map some := by
  induction sources generalizing targets with
  | nil => cases targets <;> simp
  | cons head rest ih =>
    rw [List.mapM_cons, List.map_cons]
    cases found : visit head with
    | none => cases targets <;> simp
    | some target =>
      have collected := @ih targets.tail
      cases others : rest.mapM visit with
      | none => cases targets <;> simp_all
      | some rest => cases targets <;> simp_all

theorem exists_mapM {property : Target → Prop}
    (each : ∀ source ∈ sources, ∃ target, visit source = some target ∧ property target) :
    ∃ targets, sources.mapM visit = some targets ∧ targets.length = sources.length ∧
      ∀ target ∈ targets, property target := by
  induction sources with
  | nil => exact ⟨[], rfl, rfl, List.forall_mem_nil _⟩
  | cons head rest ih =>
    obtain ⟨⟨target, visited, holds⟩, later⟩ := List.forall_mem_cons.mp each
    obtain ⟨targets, visitedLater, length, hold⟩ := ih later
    refine ⟨target :: targets, ?_, congrArg (· + 1) length, List.forall_mem_cons.mpr ⟨holds, hold⟩⟩
    rw [List.mapM_cons, visited, visitedLater]
    rfl

theorem bind_eq_ok {Error : Type u} {Result : Type v} {Wrapped : Type v}
    {step : Except Error Result} {wrap : Result → Wrapped} {wrapped : Wrapped} :
    (do let result ← step; return wrap result) = .ok wrapped ↔
      ∃ result, step = .ok result ∧ wrap result = wrapped := by
  cases step <;> simp [bind, Except.bind, pure, Except.pure]

theorem mapM_eq_ok_iff {Error : Type u} {Result : Type v} {sources : List Source}
    {visit : Source → Except Error Result} {results : List Result} :
    sources.mapM visit = .ok results ↔ sources.map visit = results.map .ok := by
  induction sources generalizing results with
  | nil => cases results <;> simp [pure, Except.pure]
  | cons head rest ih =>
    rw [List.mapM_cons, List.map_cons]
    cases found : visit head with
    | error error => cases results <;> simp [bind, Except.bind]
    | ok result =>
      have collected := @ih results.tail
      cases others : rest.mapM visit with
      | error error =>
        cases results with
        | nil => simp [bind, Except.bind]
        | cons first results => simp_all [bind, Except.bind]
      | ok targets =>
        cases results with
        | nil => simp [bind, Except.bind, pure, Except.pure]
        | cons first results => simp_all [bind, Except.bind, pure, Except.pure]

theorem exists_map_ok {Error : Type u} {Result : Type v} {sources : List Source}
    {visit : Source → Except Error Result}
    (each : ∀ source ∈ sources, ∃ result, visit source = .ok result) :
    ∃ results : List Result, sources.map visit = results.map .ok := by
  induction sources with
  | nil => exact ⟨[], rfl⟩
  | cons head rest ih =>
    rw [List.forall_mem_cons] at each
    obtain ⟨result, found⟩ := each.1
    obtain ⟨results, others⟩ := ih each.2
    exact ⟨result :: results, by simp [found, others]⟩

theorem foldlM_eq_some {step : State → Source → Option State} {next : State → Source → State}
    (steps : ∀ source ∈ sources, ∀ state, step state source = some (next state source))
    (state : State) : sources.foldlM step state = some (sources.foldl next state) := by
  induction sources generalizing state with
  | nil => rfl
  | cons head rest ih =>
    rw [List.foldlM_cons, steps head List.mem_cons_self, List.foldl_cons]
    exact ih
      (fun source isMem => steps source (List.mem_cons_of_mem _ isMem)) (next state head)

theorem foldlM_invariant {step : State → Source → Option State}
    {invariant : List Source → State → Prop}
    (steps : ∀ before source after state, sources = before ++ source :: after →
      invariant before state →
        ∃ next, step state source = some next ∧ invariant (before ++ [source]) next)
    {start : State} (holds : invariant [] start) :
    ∃ final, sources.foldlM step start = some final ∧ invariant sources final := by
  have visits (rest : List Source) : ∀ before state, sources = before ++ rest →
      invariant before state →
        ∃ final, rest.foldlM step state = some final ∧ invariant sources final := by
    induction rest with
    | nil =>
      intro before state split holds
      rw [List.append_nil] at split
      exact ⟨state, rfl, split ▸ holds⟩
    | cons source rest ih =>
      intro before state split holds
      obtain ⟨next, taken, kept⟩ := steps before source rest state split holds
      obtain ⟨final, visited, atEnd⟩ := ih (before ++ [source]) next
        (by simp [split]) kept
      exact ⟨final, by rw [List.foldlM_cons, taken]; exact visited, atEnd⟩
  exact visits sources [] start rfl holds

end RagFlow.Lib.Fallible
