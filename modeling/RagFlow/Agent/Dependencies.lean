import RagFlow.Agent.Batches

/-!
# Components and the outputs they read

A component is popped from a batch when an input does not stand before it on the path.
The path before it includes the same batch, so this does not make it wait for components
that start together with it.
-/

namespace RagFlow.Agent

open RagFlow.Lib.Runs

variable {Id Value : Type} [DecidableEq Id]

def DependencySafe (canvas : Canvas Id) (batches : List (List Id)) : Prop :=
  ∀ earlier batch later, batches = earlier ++ batch :: later →
    ∀ id ∈ batch, ∀ ref ∈ (canvas.component id).refs,
      (ref ∈ batches.flatten → ref ∈ earlier.flatten) ∧ ref ∉ batch ++ later.flatten

omit [DecidableEq Id] in
theorem dependencySafe_concat {canvas : Canvas Id} {batches : List (List Id)} {batch : List Id} :
    DependencySafe canvas (batches ++ [batch]) ↔
      DependencySafe canvas batches ∧
        ∀ id ∈ batches.flatten ++ batch, ∀ ref ∈ (canvas.component id).refs, ref ∉ batch := by
  constructor
  · intro safe
    refine ⟨fun earlier middle later split id membership ref reads => ?_,
      fun id membership ref reads => ?_⟩
    · obtain ⟨finished, apart⟩ := safe earlier middle (later ++ [batch]) (by simp [split])
        id membership ref reads
      simp only [List.flatten_append, List.mem_append, List.flatten_singleton, not_or]
        at finished apart ⊢
      exact ⟨fun run => finished (Or.inl run), apart.1, apart.2.1⟩
    · rcases List.mem_append.mp membership with before | last
      · obtain ⟨middle, listed, inMiddle⟩ := List.mem_flatten.mp before
        obtain ⟨earlier, later, rfl⟩ := List.append_of_mem listed
        have apart := (safe earlier middle (later ++ [batch]) (by simp) id inMiddle ref reads).2
        simp only [List.flatten_append, List.mem_append, List.flatten_singleton, not_or] at apart
        exact apart.2.2
      · have apart := (safe batches batch [] rfl id last ref reads).2
        simpa using apart
  · rintro ⟨safe, apart⟩ earlier middle later split id membership ref reads
    rcases List.eq_nil_or_concat later with rfl | ⟨later, final, rfl⟩
    · obtain ⟨rfl, same⟩ := List.append_inj' split rfl
      obtain rfl := List.singleton_inj.mp same
      have outside := apart id (List.mem_append_right _ membership) ref reads
      refine ⟨fun run => ?_, by simpa using outside⟩
      rw [List.flatten_append, List.flatten_singleton, List.mem_append] at run
      exact run.resolve_right outside
    · rw [List.concat_eq_append, ← List.cons_append, ← List.append_assoc] at split
      obtain ⟨rfl, same⟩ := List.append_inj' split rfl
      obtain rfl := List.singleton_inj.mp same
      obtain ⟨finished, outside⟩ := safe earlier middle later rfl id membership ref reads
      have last := apart id (by simp [membership]) ref reads
      simp only [List.concat_eq_append, List.flatten_append, List.flatten_cons, List.mem_append,
        List.flatten_nil, List.not_mem_nil, or_false, not_or] at finished outside last ⊢
      refine ⟨fun run => finished (run.resolve_right last), outside.1, outside.2, last⟩

def Ready (canvas : Canvas Id) (state : State Id Value) (id : Id) : Prop :=
  mayStart canvas (resumes canvas state.path) (executed state) id

/-- When a batch respects its components' inputs: no pending component is completed by ready
ones that stand before it in the same batch, and no ready one is read by a component that
was executed before or is ready, too. -/
structure InputsFinished (canvas : Canvas Id) (state : State Id Value) : Prop where
  completed_before : ∀ front id rest, pending state = front ++ id :: rest →
    (∀ ref ∈ (canvas.component id).refs, ref ∈ executed state ∨
      ref ∈ front ∧ Ready canvas state ref) → Ready canvas state id
  not_read : ∀ ref ∈ pending state, Ready canvas state ref →
    ∀ id, (id ∈ executed state ∨ id ∈ pending state ∧ Ready canvas state id) →
      ref ∉ (canvas.component id).refs

theorem selectBatch_eq_filter {canvas : Canvas Id} {resumed : Bool} {before pending : List Id}
    (completed : ∀ front id rest, pending = front ++ id :: rest →
      mayStart canvas resumed (before ++ front.filter (mayStart canvas resumed before)) id →
      mayStart canvas resumed before id) :
    selectBatch canvas resumed before pending =
      pending.filter (mayStart canvas resumed before) := by
  induction pending using List.reverseRecOn with
  | nil => rfl
  | append_singleton front id ih =>
    have earlier := ih fun front' other rest split =>
      completed front' other (rest ++ [id]) (by simp [split])
    rw [selectBatch_append, earlier, List.filter_append]
    congr 1
    by_cases ready : mayStart canvas resumed before id
    · simp [selectBatch, ready, mayStart_mono (List.subset_append_left _ _) ready]
    · have waits := mt (completed front id [] rfl) ready
      simp [selectBatch, ready, waits]

theorem inputsFinished_iff (canvas : Canvas Id) (state : State Id Value) :
    InputsFinished canvas state ↔
      ∀ id ∈ executed state ++ nextBatch canvas state, ∀ ref ∈ (canvas.component id).refs,
        ref ∉ nextBatch canvas state := by
  set resumed := resumes canvas state.path with resumedEq
  have batchEq : nextBatch canvas state =
      selectBatch canvas resumed (executed state) (pending state) := rfl
  constructor
  · intro finished id membership ref reads started
    have selected : selectBatch canvas resumed (executed state) (pending state) =
        (pending state).filter (mayStart canvas resumed (executed state)) := by
      apply selectBatch_eq_filter
      intro front id rest split starts
      rcases mayStart_append.mp starts with ready | covered
      · exact ready
      · exact finished.completed_before front id rest split fun ref reads =>
          (covered ref reads).imp_right List.mem_filter.mp
    rw [batchEq, selected, List.mem_filter] at started
    rw [batchEq, selected, List.mem_append, List.mem_filter] at membership
    exact finished.not_read ref started.1 started.2 id membership reads
  · intro apart
    have ready_started : ∀ id ∈ pending state, mayStart canvas resumed (executed state) id →
        id ∈ nextBatch canvas state := fun id isPending ready =>
      filter_subset_selectBatch _ _ (List.mem_filter.mpr ⟨isPending, ready⟩)
    refine ⟨fun front id rest split starts => ?_, fun ref isPending ready id reader reads => ?_⟩
    · by_contra waits
      have completed : mayStart canvas resumed
          (executed state ++ front.filter (mayStart canvas resumed (executed state))) id :=
        mayStart_append.mpr <| Or.inr fun ref reads =>
          (starts ref reads).imp_right List.mem_filter.mpr
      obtain ⟨ref, reads, missing, present⟩ := exists_awaited waits completed
      have inFront := (List.mem_append.mp present).resolve_left missing
      obtain ⟨refInFront, refReady⟩ := List.mem_filter.mp inFront
      have started : id ∈ nextBatch canvas state := by
        rw [batchEq, split]
        refine mem_selectBatch (mayStart_mono ?_ completed)
        exact List.append_subset.mpr ⟨List.subset_append_left _ _,
          List.Subset.trans (filter_subset_selectBatch _ _) (List.subset_append_right _ _)⟩
      refine apart id (List.mem_append_right _ started) ref reads (ready_started ref ?_ refReady)
      rw [split]
      exact List.mem_append_left _ refInFront
    · refine apart id (List.mem_append.mpr ?_) ref reads (ready_started ref isPending ready)
      exact reader.imp_right fun ⟨isPending', ready'⟩ => ready_started id isPending' ready'

/-- A first run is safe exactly when each of its batches respects its components' inputs. -/
theorem dependencySafe_iff (canvas : Canvas Id) (rounds : List (Round Id Value)) :
    DependencySafe canvas (firstRun canvas rounds).batches ↔
      Along (runRound canvas) (fun state round => state.status = .running →
        round.canceled = false → InputsFinished canvas state) (started canvas) rounds := by
  refine iff_along Tracked (fun state => DependencySafe canvas state.batches)
    (tracked_started canvas) (tracked_runRound canvas) ?_ ?_ rounds
  · intro earlier batch later split
    simp [started, beginRun] at split
  · intro state round tracked
    unfold runRound
    split
    · next running =>
        split_ifs with canceled
        · simp [canceled]
        · have going : goesOn state := Or.inl running
          obtain ⟨batches, _⟩ := runComponents_spec canvas round (tracked.in_range going)
          rw [batches, dependencySafe_concat, ← tracked.executed_eq going, ← inputsFinished_iff]
          simp [running, canceled]
    · next pausing => simp [pause, pausing]
    · next other _ => exact ⟨fun safe => ⟨safe, fun running => absurd running other⟩, And.left⟩

/-- `begin` leads to components one and two, and one leads to two, which reads it. -/
def shortcutCanvas : Canvas Nat :=
  plainCanvas [1, 2] (fun id => if id = 1 then plainComponent [2] [] else plainComponent [] [1])
    fun id => by split_ifs <;> rfl

/-- One and two are started in one batch. -/
theorem not_dependencySafe_of_shortcut :
    ¬ ∀ canvas : Canvas Nat, Acyclic canvas → ∀ rounds : List (Round Nat Nat),
      DependencySafe canvas (firstRun canvas rounds).batches := by
  intro safe
  have batches : (firstRun shortcutCanvas [quietRound, quietRound]).batches = [[0], [1, 2]] := by
    decide
  have apart := safe shortcutCanvas ⟨fun id => if id = 0 then 0 else if id = 1 then 1 else 2, ?_⟩
    [quietRound, quietRound] [[0]] [1, 2] [] batches 2 (by decide) 1 (by decide)
  · exact apart.2 (by decide)
  · intro id
    rcases id with _ | _ | id <;> simp [shortcutCanvas, plainCanvas, plainComponent]

end RagFlow.Agent
