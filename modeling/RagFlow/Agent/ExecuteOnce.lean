import RagFlow.Agent.Batches

/-!
# Components invoked once

A successor is not appended again when it is the last component of the path.  A component
that stands further back on the path, executed or not, is appended and started again.
-/

namespace RagFlow.Agent

open RagFlow.Lib.Runs

variable {Id Value : Type} [DecidableEq Id]

/-- The `i`-th pending component can be started: each of its inputs has been executed or is
the output of a component that can be started before it in the same batch. -/
def Startable (canvas : Canvas Id) (resumed : Bool) (executed pending : List Id) (i : Nat) : Prop :=
  ∃ id, pending[i]? = some id ∧ (mayStart canvas resumed executed id ∨
    ∀ ref ∈ (canvas.component id).refs, ref ∈ executed ∨
      ∃ j, ∃ _ : j < i, pending[j]? = some ref ∧ Startable canvas resumed executed pending j)
termination_by i

section

variable {canvas : Canvas Id} {resumed : Bool} {executed pending : List Id}

/-- The `j`-th pending component is `ref`, stands before place `i` and can be started. -/
def StartableBefore (canvas : Canvas Id) (resumed : Bool) (executed pending : List Id) (i : Nat)
    (ref : Id) : Prop :=
  ∃ j, ∃ _ : j < i, pending[j]? = some ref ∧ Startable canvas resumed executed pending j

theorem startable_iff_of {i : Nat} {id : Id} (here : pending[i]? = some id)
    (started : ∀ ref, ref ∈ selectBatch canvas resumed executed (pending.take i) ↔
      StartableBefore canvas resumed executed pending i ref) :
    Startable canvas resumed executed pending i ↔
      mayStart canvas resumed
        (executed ++ selectBatch canvas resumed executed (pending.take i)) id := by
  rw [Startable, mayStart_append]
  simp only [here, Option.some.injEq, started, exists_eq_left', StartableBefore]

theorem startableBefore_succ {i : Nat} {ref : Id} :
    StartableBefore canvas resumed executed pending (i + 1) ref ↔
      StartableBefore canvas resumed executed pending i ref ∨
        pending[i]? = some ref ∧ Startable canvas resumed executed pending i := by
  constructor
  · rintro ⟨j, below, here, startable⟩
    rcases Nat.lt_succ_iff_lt_or_eq.mp below with earlier | rfl
    · exact Or.inl ⟨j, earlier, here, startable⟩
    · exact Or.inr ⟨here, startable⟩
  · rintro (⟨j, below, here, startable⟩ | ⟨here, startable⟩)
    · exact ⟨j, Nat.lt_succ_of_lt below, here, startable⟩
    · exact ⟨i, Nat.lt_succ_self i, here, startable⟩

theorem selectBatch_take_succ {i : Nat} {id : Id} (here : pending[i]? = some id) :
    selectBatch canvas resumed executed (pending.take (i + 1)) =
      selectBatch canvas resumed executed (pending.take i) ++
        if mayStart canvas resumed
          (executed ++ selectBatch canvas resumed executed (pending.take i)) id
        then [id] else [] := by
  rw [List.take_add_one, here, Option.toList_some, selectBatch_append]
  rfl

theorem mem_selectBatch_take (i : Nat) (ref : Id) :
    ref ∈ selectBatch canvas resumed executed (pending.take i) ↔
      StartableBefore canvas resumed executed pending i ref := by
  induction i generalizing ref with
  | zero => simp [selectBatch, StartableBefore]
  | succ i ih =>
    rw [startableBefore_succ, ← ih]
    rcases here : pending[i]? with _ | id
    · rw [List.take_add_one, here]
      simp
    · rw [selectBatch_take_succ here, List.mem_append, startable_iff_of here ih]
      apply or_congr_right
      split_ifs with starts
      · simp [eq_comm, starts]
      · simp [starts]

theorem startable_iff {i : Nat} {id : Id} (here : pending[i]? = some id) :
    Startable canvas resumed executed pending i ↔
      mayStart canvas resumed
        (executed ++ selectBatch canvas resumed executed (pending.take i)) id :=
  startable_iff_of here (mem_selectBatch_take i)

theorem Startable.later {i j : Nat} {id : Id} (order : i ≤ j) (first : pending[i]? = some id)
    (second : pending[j]? = some id) (startable : Startable canvas resumed executed pending i) :
    Startable canvas resumed executed pending j := by
  rw [startable_iff first] at startable
  rw [startable_iff second]
  refine mayStart_mono (fun ref present => ?_) startable
  rw [List.mem_append, mem_selectBatch_take] at present ⊢
  apply present.imp_right
  rintro ⟨k, below, here, supplies⟩
  exact ⟨k, below.trans_le order, here, supplies⟩

theorem nodup_selectBatch_take (i : Nat) :
    (selectBatch canvas resumed executed (pending.take i)).Nodup ↔
      ∀ second < i, ∀ first < second, ∀ id, pending[first]? = some id →
        pending[second]? = some id → ¬Startable canvas resumed executed pending first := by
  induction i with
  | zero => simp [selectBatch]
  | succ i ih =>
    rcases here : pending[i]? with _ | id
    · rw [List.take_add_one, here, Option.toList_none, List.append_nil, ih]
      refine ⟨fun once second below => ?_, fun once second below => once second (by omega)⟩
      rcases Nat.lt_succ_iff_lt_or_eq.mp below with earlier | rfl
      · exact once second earlier
      · intro first _ id _ atEnd
        rw [here] at atEnd
        cases atEnd
    · rw [selectBatch_take_succ here, List.nodup_append', ih]
      constructor
      · rintro ⟨once, _, apart⟩ second below
        rcases Nat.lt_succ_iff_lt_or_eq.mp below with earlier | rfl
        · exact once second earlier
        · intro first before other atFirst atSecond startable
          obtain rfl := Option.some.inj (here.symm.trans atSecond)
          have again := startable.later before.le atFirst here
          rw [startable_iff here] at again
          refine apart ((mem_selectBatch_take second id).mpr
            ⟨first, before, atFirst, startable⟩) ?_
          rw [if_pos again]
          exact List.mem_singleton_self id
      · intro once
        refine ⟨fun second below => once second (by omega), ?_, ?_⟩
        · split_ifs <;> simp
        · intro other started last
          split_ifs at last
          · obtain rfl := List.mem_singleton.mp last
            obtain ⟨first, before, atFirst, startable⟩ :=
              (mem_selectBatch_take i other).mp started
            exact once i (Nat.lt_succ_self i) first before other atFirst here startable
          · cases last

end

def ExecuteOnce (state : State Id Value) : Prop := (state.batches.flatten ++ state.filledUp).Nodup

/-- When a batch starts nothing again: what can be started was not executed before, and does
not stand again later among the pending components. -/
structure StartsOnce (canvas : Canvas Id) (state : State Id Value) : Prop where
  fresh : ∀ i id, (pending state)[i]? = some id →
    Startable canvas (resumes canvas state.path) (executed state) (pending state) i →
    id ∉ executed state
  once : ∀ second first, first < second → ∀ id, (pending state)[first]? = some id →
    (pending state)[second]? = some id →
    ¬Startable canvas (resumes canvas state.path) (executed state) (pending state) first

/-- When a pause invokes nothing again: the pending user fill-ups are pending once, and were
not executed before. -/
structure FillsUpOnce (canvas : Canvas Id) (state : State Id Value) : Prop where
  fresh : ∀ id ∈ pending state, isFillUp canvas id → id ∉ executed state
  once : ((pending state).filter (isFillUp canvas)).Nodup

theorem nodup_nextBatch_iff (canvas : Canvas Id) (state : State Id Value) :
    (executed state ++ nextBatch canvas state).Nodup ↔
      (executed state).Nodup ∧ StartsOnce canvas state := by
  set resumed := resumes canvas state.path with resumedEq
  have batchEq : nextBatch canvas state = selectBatch canvas resumed (executed state)
      ((pending state).take (pending state).length) := by
    rw [List.take_length]
    rfl
  rw [List.nodup_append', batchEq, nodup_selectBatch_take]
  apply and_congr_right
  intro _
  constructor
  · rintro ⟨once, apart⟩
    refine ⟨fun i id here startable known => ?_, fun second first before id atFirst atSecond => ?_⟩
    · have below : i < (pending state).length := (List.getElem?_eq_some_iff.mp here).1
      exact apart known ((mem_selectBatch_take _ id).mpr ⟨i, below, here, startable⟩)
    · exact once second (List.getElem?_eq_some_iff.mp atSecond).1 first before id atFirst atSecond
  · rintro ⟨fresh, once⟩
    refine ⟨fun second _ first before => once second first before, fun id known started => ?_⟩
    obtain ⟨i, _, here, startable⟩ := (mem_selectBatch_take _ id).mp started
    exact fresh i id here startable known

omit [DecidableEq Id] in
theorem nodup_pause_iff (canvas : Canvas Id) (state : State Id Value) :
    (executed state ++ (pending state).filter (isFillUp canvas)).Nodup ↔
      (executed state).Nodup ∧ FillsUpOnce canvas state := by
  rw [List.nodup_append']
  apply and_congr_right
  intro _
  constructor
  · rintro ⟨once, apart⟩
    exact ⟨fun id isPending fillUp known =>
      apart known (List.mem_filter.mpr ⟨isPending, fillUp⟩), once⟩
  · rintro ⟨fresh, once⟩
    refine ⟨once, fun id known invoked => ?_⟩
    obtain ⟨isPending, fillUp⟩ := List.mem_filter.mp invoked
    exact fresh id isPending fillUp known

/-- A first run invokes every component at most once exactly when each of its batches starts
nothing again, and neither does the pause that may end it. -/
theorem executeOnce_iff (canvas : Canvas Id) (rounds : List (Round Id Value)) :
    ExecuteOnce (firstRun canvas rounds) ↔
      Along (runRound canvas) (fun state round =>
        (state.status = .running → round.canceled = false → StartsOnce canvas state) ∧
        (state.status = .pausing → FillsUpOnce canvas state)) (started canvas) rounds := by
  refine iff_along Tracked ExecuteOnce (tracked_started canvas) (tracked_runRound canvas)
    List.nodup_nil ?_ rounds
  intro state round tracked
  unfold runRound
  split
  · next running =>
      split_ifs with canceled
      · simp [ExecuteOnce, canceled, running]
      · have going : goesOn state := Or.inl running
        obtain ⟨batches, filledUp, _⟩ := runComponents_spec canvas round (tracked.in_range going)
        rw [ExecuteOnce, ExecuteOnce, batches, filledUp, tracked.filledUp_eq going,
          List.flatten_append, List.flatten_singleton, ← tracked.executed_eq going,
          List.append_nil, List.append_nil, nodup_nextBatch_iff]
        simp [running, canceled]
  · next pausing =>
      have going : goesOn state := Or.inr pausing
      change (state.batches.flatten ++ (pending state).filter (isFillUp canvas)).Nodup ↔ _
      rw [ExecuteOnce, tracked.filledUp_eq going, List.append_nil, ← tracked.executed_eq going,
        nodup_pause_iff]
      simp [pausing]
  · next notRunning notPausing =>
      exact ⟨fun once => ⟨once, fun running => absurd running notRunning,
        fun pausing => absurd pausing notPausing⟩, And.left⟩

def LoopFree (canvas : Canvas Id) : Prop :=
  ∀ id, (canvas.component id).name ∉
    [ComponentName.iteration, .iterationItem, .loop, .loopItem, .exitLoop]

def detourCanvas : Canvas Nat :=
  plainCanvas [1, 2] (fun id => plainComponent
    (if id = 1 then [3] else if id = 2 then [4] else if id = 4 then [3] else []) []) fun _ => rfl

/-- Three is executed with four and again after it. -/
theorem not_executeOnce_of_detour :
    ¬ ∀ canvas : Canvas Nat, Acyclic canvas → LoopFree canvas →
      ∀ rounds : List (Round Nat Nat), ExecuteOnce (firstRun canvas rounds) := by
  intro once
  have ran : (firstRun detourCanvas
      [quietRound, quietRound, quietRound, quietRound]).batches.flatten = [0, 1, 2, 3, 4, 3] := by
    decide
  have distinct := once detourCanvas
    ⟨fun id => if id = 0 then 0 else if id = 1 ∨ id = 2 then 1 else if id = 4 then 2 else 3, ?_⟩ ?_
    [quietRound, quietRound, quietRound, quietRound]
  · rw [ExecuteOnce, ran] at distinct
    exact absurd (distinct.sublist (List.sublist_append_left _ _)) (by decide)
  · intro id
    rcases id with _ | _ | _ | _ | _ | id <;> simp [detourCanvas, plainCanvas, plainComponent]
  · intro id
    simp only [detourCanvas, plainCanvas, plainComponent]
    split_ifs <;> decide

end RagFlow.Agent
