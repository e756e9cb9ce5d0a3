import RagFlow.Agent.Batches

/-!
# Entries of iterations and loops

An item component counts in its `_idx` how often it was started since control entered its
iteration or loop, and marks the end by minus one.  Nothing sets the index back to zero,
so only an entry that finds it there hands out the right items.
-/

namespace RagFlow.Agent

open RagFlow.Lib.Runs

variable {Id Value : Type} [DecidableEq Id]

inductive Move (Id Value : Type) where
  | turn (canceled : Bool)
  | round (round : Round Id Value)

def move (canvas : Canvas Id) (state : State Id Value) : Move Id Value → State Id Value
  | .turn canceled =>
    if state.status = .running ∨ state.status = .pausing then state
    else beginRun canvas state canceled
  | .round round => runRound canvas state round

def indexed (arr : List Value) : List (Int × Value) :=
  arr.mapIdx fun index value => ((index : Int), value)

/-- The entry of an iteration with a list: the items are handed out from the first on, in
order; when control leaves, all of them were, and one entry was collected for each. -/
structure IterationKept (entry : Entry Value) (position : Int) (arr : List Value) : Prop where
  in_order : entry.drawn <+: indexed arr
  complete : entry.exhausted = true → entry.drawn = indexed arr
  left : entry.drawn ≠ [] → position = -1 → entry.exhausted = true
  collected : entry.collected = if entry.exhausted then arr.length else entry.drawn.length - 1

/-- Every entry so far: iterations hand out exactly their items, and loops run their body
at most `maximum_loop_count` times. -/
structure EntriesKept (canvas : Canvas Id) (state : State Id Value) : Prop where
  iteration : ∀ id, (canvas.component id).name = .iterationItem →
    ∀ arr, (state.entry id).items = some arr →
      IterationKept (state.entry id) (state.position id) arr
  loop : ∀ id parent, (canvas.component id).name = .loopItem →
    (canvas.component id).parent = some parent →
    (state.entry id).turns ≤ (canvas.component parent).maximumLoopCount

/-- An item component is started well: its index is not the end mark and, at the first start
of the entry, it is zero; an iteration still reads the list it was entered with, and its
collated output is as the entry left it. -/
def StartOk (canvas : Canvas Id) (round : Round Id Value) (state : State Id Value) (id : Id) :
    Prop :=
  match (canvas.component id).name, (canvas.component id).parent with
  | .iterationItem, some parent =>
    ∀ arr ∈ (state.entry id).items,
      round.items parent = some arr ∧ state.position id ≠ -1 ∧
        ((state.entry id).drawn = [] → state.position id = 0) ∧
        (state.collated parent).length = (state.entry id).collected
  | .loopItem, some _ => state.position id ≠ -1
  | _, _ => True

def StartsOk (canvas : Canvas Id) (round : Round Id Value) : State Id Value → List Id → Prop
  | _, [] => True
  | state, id :: batch =>
    StartOk canvas round state id ∧ StartsOk canvas round (invoke canvas round state id) batch

def MoveOk (canvas : Canvas Id) (state : State Id Value) : Move Id Value → Prop
  | .turn _ => True
  | .round round => state.status = .running → round.canceled = false →
      StartsOk canvas round state (nextBatch canvas state)

/-- The entry of an iteration as the starts keep it: the index is the number of items handed
out, until they are exhausted. -/
structure IterationInv (entry : Entry Value) (position : Int) (arr : List Value) : Prop where
  drawn_eq : entry.drawn = (indexed arr).take entry.drawn.length
  ended : entry.exhausted = true →
    entry.drawn.length = arr.length ∧ position = -1 ∧ entry.collected = arr.length
  open_index : entry.exhausted = false → entry.drawn ≠ [] → position = entry.drawn.length
  open_collected : entry.exhausted = false → entry.collected = entry.drawn.length - 1

omit [DecidableEq Id] in
theorem IterationInv.kept {entry : Entry Value} {position : Int} {arr : List Value}
    (inv : IterationInv entry position arr) : IterationKept entry position arr where
  in_order := inv.drawn_eq ▸ List.take_prefix _ _
  complete exhausted := by
    rw [inv.drawn_eq, (inv.ended exhausted).1]
    exact List.take_of_length_le (by simp [indexed])
  left nonempty atEnd := by
    by_contra going
    have index := inv.open_index (Bool.eq_false_iff.mpr going) nonempty
    omega
  collected := by
    split_ifs with exhausted
    · exact (inv.ended exhausted).2.2
    · exact inv.open_collected (Bool.eq_false_iff.mpr exhausted)

omit [DecidableEq Id] in
theorem iterationItemInvoke_natCast (k : Nat) (arr collated : List Value) (collect : Value) :
    iterationItemInvoke k (some arr) collated collect =
      match arr[k]? with
      | none => (-1, if 0 < k then collated ++ [collect] else collated, .exhausted)
      | some value =>
        (k + 1, if 0 < k then collated ++ [collect] else collated, .item k value) := by
  have started : (k : Int) > 0 ↔ 0 < k := by omega
  simp only [iterationItemInvoke, started]
  rcases lt_or_ge k arr.length with inside | outside
  · simp only [subscript, Int.natCast_nonneg, Int.toNat_natCast, List.getElem?_eq_getElem inside,
      ge_iff_le, Nat.cast_le, not_le.mpr inside, if_true, if_false]
  · simp only [List.getElem?_eq_none outside, ge_iff_le, Nat.cast_le, outside, if_true]

theorem IterationInv.start {entry : Entry Value} {position : Int} {arr : List Value}
    (inv : IterationInv entry position arr) (notEnded : position ≠ -1)
    (first : entry.drawn = [] → position = 0) {collated : List Value}
    (collected : collated.length = entry.collected) (collect : Value) :
    IterationInv
      (entry.start (iterationItemInvoke position (some arr) collated collect).2.1
        (iterationItemInvoke position (some arr) collated collect).2.2)
      (iterationItemInvoke position (some arr) collated collect).1 arr := by
  have going : entry.exhausted = false := by
    by_contra exhausted
    exact notEnded (inv.ended (Bool.eq_true_of_not_eq_false exhausted)).2.1
  have index : position = entry.drawn.length := by
    rcases eq_or_ne entry.drawn [] with empty | nonempty
    · rw [first empty, empty]
      rfl
    · exact inv.open_index going nonempty
  have bounded : entry.drawn.length ≤ arr.length := by
    have length := congrArg List.length inv.drawn_eq
    simp only [List.length_take, indexed, List.length_mapIdx] at length
    omega
  -- The entry for the previous item is collected now, so their number is the index.
  have counted : (if 0 < entry.drawn.length then collated ++ [collect] else collated).length =
      entry.drawn.length := by
    have before := inv.open_collected going
    split_ifs with later
    · rw [List.length_append, List.length_singleton]
      omega
    · omega
  rw [index, iterationItemInvoke_natCast]
  rcases here : arr[entry.drawn.length]? with _ | value
  · have all : entry.drawn.length = arr.length := by
      have outside := List.getElem?_eq_none_iff.mp here
      omega
    exact {
      drawn_eq := inv.drawn_eq
      ended := fun _ => ⟨all, rfl, counted.trans all⟩
      open_index := fun open_ => by cases open_
      open_collected := fun open_ => by cases open_ }
  · have item : (indexed arr)[entry.drawn.length]? = some ((entry.drawn.length : Int), value) := by
      rw [indexed, List.getElem?_mapIdx, here]
      rfl
    have length : (entry.drawn ++ [((entry.drawn.length : Int), value)]).length =
        entry.drawn.length + 1 := by simp
    exact {
      drawn_eq := by
        change _ = (indexed arr).take (entry.drawn ++ [((entry.drawn.length : Int), value)]).length
        rw [length, List.take_add_one, item, ← inv.drawn_eq]
        rfl
      ended := fun exhausted => absurd (going.symm.trans exhausted) Bool.false_ne_true
      open_index := fun _ _ => by
        change _ = ((entry.drawn ++ [((entry.drawn.length : Int), value)]).length : Int)
        rw [length, Nat.cast_add_one]
      open_collected := fun _ => by
        change _ = (entry.drawn ++ [((entry.drawn.length : Int), value)]).length - 1
        rw [length]
        exact counted }

/-- The index of a loop item is ahead of the turns of its entry by the starts whose
post-processing is `due`. -/
structure LoopInv (turns : Nat) (position : Int) (maximum due : Nat) : Prop where
  bounded : turns ≤ maximum
  ahead : position ≠ -1 → (turns + due : Nat) ≤ position ∧ position ≤ maximum

/-- What holds of the item component `item` when `due` of its starts await
post-processing. -/
structure ItemInv (canvas : Canvas Id) (state : State Id Value) (due : Nat) (item : Id) :
    Prop where
  iteration : (canvas.component item).name = .iterationItem →
    ∀ arr, (state.entry item).items = some arr →
      IterationInv (state.entry item) (state.position item) arr
  loop : ∀ parent, (canvas.component item).name = .loopItem →
    (canvas.component item).parent = some parent →
    LoopInv (state.entry item).turns (state.position item)
      (canvas.component parent).maximumLoopCount due

section

variable {canvas : Canvas Id} {round : Round Id Value} {state : State Id Value} {due : Nat}
  {item : Id}

omit [DecidableEq Id] in
theorem ItemInv.of_eq {state' : State Id Value} {due' : Nat} (inv : ItemInv canvas state due item)
    (position : state'.position item = state.position item)
    (entry : state'.entry item = state.entry item) (fewer : due' ≤ due) :
    ItemInv canvas state' due' item where
  iteration named arr listed := by
    rw [entry] at listed ⊢
    rw [position]
    exact inv.iteration named arr listed
  loop parent named parentEq := by
    obtain ⟨bounded, ahead⟩ := inv.loop parent named parentEq
    rw [entry, position]
    refine ⟨bounded, fun notEnded => ?_⟩
    obtain ⟨below, above⟩ := ahead notEnded
    exact ⟨le_trans (by omega) below, above⟩

omit [DecidableEq Id] in
theorem Entry.start_items (entry : Entry Value) (collated : List Value) (drawn : Drawn Value) :
    (entry.start collated drawn).items = entry.items := by
  cases drawn <;> rfl

theorem invoke_of_ne (canvas : Canvas Id) (state : State Id Value) (round : Round Id Value)
    {id : Id} (other : item ≠ id) :
    (invoke canvas round state id).position item = state.position item ∧
      (invoke canvas round state id).entry item = state.entry item := by
  unfold invoke
  split
  · exact ⟨Function.update_of_ne other _ _, Function.update_of_ne other _ _⟩
  · exact ⟨Function.update_of_ne other _ _, rfl⟩
  all_goals exact ⟨rfl, rfl⟩

theorem invoke_iterationItem (state : State Id Value) (round : Round Id Value) {parent : Id}
    (named : (canvas.component item).name = .iterationItem)
    (parentEq : (canvas.component item).parent = some parent) :
    (invoke canvas round state item).position item =
        (iterationItemInvoke (state.position item) (round.items parent) (state.collated parent)
          (round.collect parent)).1 ∧
      (invoke canvas round state item).entry item =
        (state.entry item).start
          (iterationItemInvoke (state.position item) (round.items parent) (state.collated parent)
            (round.collect parent)).2.1
          (iterationItemInvoke (state.position item) (round.items parent) (state.collated parent)
            (round.collect parent)).2.2 := by
  simp only [invoke, named, parentEq, Function.update_self]
  exact ⟨trivial, trivial⟩

theorem invoke_loopItem (state : State Id Value) (round : Round Id Value) {parent : Id}
    (named : (canvas.component item).name = .loopItem)
    (parentEq : (canvas.component item).parent = some parent) :
    (invoke canvas round state item).position item =
        loopItemInvoke (state.position item) (canvas.component parent).maximumLoopCount ∧
      (invoke canvas round state item).entry item = state.entry item := by
  simp only [invoke, named, parentEq, Function.update_self]
  exact ⟨trivial, trivial⟩

theorem ItemInv.invoke_self (inv : ItemInv canvas state due item)
    (startOk : StartOk canvas round state item) :
    ItemInv canvas (invoke canvas round state item) (due + 1) item where
  iteration named arr listed := by
    rcases parentEq : (canvas.component item).parent with _ | parent
    · simp only [Agent.invoke, named, parentEq] at listed ⊢
      exact inv.iteration named arr listed
    · obtain ⟨position, entry⟩ := invoke_iterationItem state round named parentEq
      simp only [StartOk, named, parentEq] at startOk
      rw [entry, Entry.start_items] at listed
      obtain ⟨sameItems, notEnded, first, collected⟩ := startOk arr listed
      rw [position, entry, sameItems]
      exact (inv.iteration named arr listed).start notEnded first collected _
  loop parent named parentEq := by
    obtain ⟨position, entry⟩ := invoke_loopItem state round named parentEq
    simp only [StartOk, named, parentEq] at startOk
    obtain ⟨bounded, ahead⟩ := inv.loop parent named parentEq
    obtain ⟨below, above⟩ := ahead startOk
    rw [position, entry]
    refine ⟨bounded, ?_⟩
    unfold loopItemInvoke
    split_ifs with full
    · exact fun notEnded => absurd rfl notEnded
    · intro _
      push_cast at below ⊢
      omega

theorem ItemInv.invoke (inv : ItemInv canvas state due item) {id : Id}
    (startOk : StartOk canvas round state id) :
    ItemInv canvas (invoke canvas round state id) (due + if id = item then 1 else 0) item := by
  split_ifs with same
  · subst same
    exact inv.invoke_self startOk
  · obtain ⟨position, entry⟩ := invoke_of_ne canvas state round (Ne.symm same)
    exact inv.of_eq position entry le_rfl

theorem ItemInv.foldl_invoke {batch : List Id} (inv : ItemInv canvas state due item)
    (startsOk : StartsOk canvas round state batch) :
    ItemInv canvas (batch.foldl (Agent.invoke canvas round) state) (due + batch.count item)
      item := by
  induction batch generalizing state due with
  | nil => exact inv
  | cons id batch ih =>
    have rest := ih (inv.invoke startsOk.1) startsOk.2
    rw [List.foldl_cons, List.count_cons]
    apply rest.of_eq rfl rfl
    simp only [beq_iff_eq]
    omega

theorem recordEntry_cases (canvas : Canvas Id) (round : Round Id Value) (id : Id) (ended : Bool)
    (entry : Id → Entry Value) (item : Id) :
    recordEntry canvas round id ended entry item = entry item ∨
      recordEntry canvas round id ended entry item = ⟨round.items id, [], false, 0, 0⟩ ∨
      (id = item ∧ (canvas.component item).name = .loopItem ∧ ended = false ∧
        recordEntry canvas round id ended entry item =
          { entry item with turns := (entry item).turns + 1 }) := by
  have entered (value : Entry Value) :
      Function.update entry (canvas.start id) value item = entry item ∨
        Function.update entry (canvas.start id) value item = value := by
    rcases eq_or_ne item (canvas.start id) with rfl | other
    · exact Or.inr (Function.update_self _ _ _)
    · exact Or.inl (Function.update_of_ne other _ _)
  cases named : (canvas.component id).name <;> simp only [recordEntry, named, true_or]
  case iteration => exact (entered _).imp_right Or.inl
  case loop => exact (entered _).imp_right Or.inl
  case loopItem =>
    cases ended
    · rcases eq_or_ne id item with rfl | other
      · exact Or.inr (Or.inr ⟨rfl, named, rfl, Function.update_self _ _ _⟩)
      · exact Or.inl (Function.update_of_ne (Ne.symm other) _ _)
    · exact Or.inl rfl

theorem loopItemEnd_cases {position position' : Int} {logicalOperator : LogicalOperator}
    {conditions : Option (List Bool)} {ended : Bool}
    (result : loopItemEnd position logicalOperator conditions = some (position', ended)) :
    (position' = -1 ∧ ended = true) ∨ (position' = position ∧ position ≠ -1 ∧ ended = false) := by
  unfold loopItemEnd at result
  split_ifs at result with atEnd
  · obtain ⟨rfl, rfl⟩ := Prod.mk.inj (Option.some.inj result)
    exact Or.inl ⟨rfl, rfl⟩
  · obtain ⟨_, _, answer⟩ := Option.map_eq_some_iff.mp result
    dsimp only at answer
    split_ifs at answer
    · obtain ⟨rfl, rfl⟩ := Prod.mk.inj answer
      exact Or.inl ⟨rfl, rfl⟩
    · obtain ⟨rfl, rfl⟩ := Prod.mk.inj answer
      exact Or.inr ⟨rfl, atEnd, rfl⟩

omit [DecidableEq Id] in
theorem itemEnd_cases {id : Id} {position : Int} {ended : Bool}
    (result : itemEnd canvas round state id = some (position, ended)) :
    ((canvas.component id).name ≠ .loopItem ∧ position = state.position id) ∨
      ((canvas.component id).name = .loopItem ∧
        ((position = -1 ∧ ended = true) ∨
          (position = state.position id ∧ state.position id ≠ -1 ∧ ended = false))) := by
  by_cases named : (canvas.component id).name = .loopItem
  · rcases parentEq : (canvas.component id).parent with _ | parent
    · simp only [itemEnd, named, parentEq] at result
      cases result
    · simp only [itemEnd, named, parentEq] at result
      exact Or.inr ⟨named, loopItemEnd_cases result⟩
  · refine Or.inl ⟨named, ?_⟩
    unfold itemEnd at result
    split at result
    · exact (Prod.mk.inj (Option.some.inj result)).1.symm
    · next isNamed _ => exact absurd isNamed named
    · cases result
    · cases result
    · exact (Prod.mk.inj (Option.some.inj result)).1.symm

theorem postProcess_leaves (canvas : Canvas Id) (round : Round Id Value)
    (state : State Id Value) (error : Bool) (id : Id) :
    ((leaves (postProcess canvas round state error id)).position = state.position ∧
      (leaves (postProcess canvas round state error id)).entry = state.entry) ∨
    ∃ position ended, itemEnd canvas round state id = some (position, ended) ∧
      (leaves (postProcess canvas round state error id)).position =
        Function.update state.position id position ∧
      ((leaves (postProcess canvas round state error id)).entry = state.entry ∨
        (leaves (postProcess canvas round state error id)).entry =
          recordEntry canvas round id ended state.entry) := by
  unfold postProcess
  dsimp only
  split
  · exact Or.inl ⟨rfl, rfl⟩
  · next position ended endEq =>
      refine Or.inr ⟨position, ended, endEq, ?_⟩
      split
      · exact ⟨rfl, Or.inl rfl⟩
      · split_ifs
        · exact ⟨rfl, Or.inl rfl⟩
        · exact ⟨rfl, Or.inr rfl⟩

omit [DecidableEq Id] in
theorem ItemInv.entered (inv : ItemInv canvas state due item) {state' : State Id Value}
    {items : Option (List Value)}
    (entry : state'.entry item = ⟨items, [], false, 0, 0⟩)
    (position : state'.position item = state.position item ∨ state'.position item = -1)
    {due' : Nat} (fewer : due' ≤ due) : ItemInv canvas state' due' item where
  iteration _ arr _ := by
    rw [entry]
    exact {
      drawn_eq := rfl
      ended := fun exhausted => by cases exhausted
      open_index := fun _ nonempty => absurd rfl nonempty
      open_collected := fun _ => rfl }
  loop parent named parentEq := by
    obtain ⟨bounded, ahead⟩ := inv.loop parent named parentEq
    rw [entry]
    refine ⟨Nat.zero_le _, fun notEnded => ?_⟩
    obtain same := position.resolve_right notEnded
    rw [same] at notEnded ⊢
    obtain ⟨below, above⟩ := ahead notEnded
    exact ⟨le_trans (by push_cast; omega) below, above⟩

omit [DecidableEq Id] in
theorem ItemInv.turn (inv : ItemInv canvas state (due + 1) item) {state' : State Id Value}
    (named : (canvas.component item).name = .loopItem) (notEnded : state.position item ≠ -1)
    (position : state'.position item = state.position item)
    (entry : state'.entry item =
      { state.entry item with turns := (state.entry item).turns + 1 }) :
    ItemInv canvas state' due item where
  iteration isIteration := by
    rw [named] at isIteration
    cases isIteration
  loop parent _ parentEq := by
    obtain ⟨_, ahead⟩ := inv.loop parent named parentEq
    obtain ⟨below, above⟩ := ahead notEnded
    rw [entry, position]
    push_cast at below
    exact ⟨by dsimp only; omega, fun _ => ⟨by push_cast; omega, above⟩⟩

omit [DecidableEq Id] in
theorem ItemInv.ended (inv : ItemInv canvas state due item) {state' : State Id Value}
    (named : (canvas.component item).name = .loopItem) (position : state'.position item = -1)
    (entry : state'.entry item = state.entry item) {due' : Nat} :
    ItemInv canvas state' due' item where
  iteration isIteration := by
    rw [named] at isIteration
    cases isIteration
  loop parent _ parentEq := by
    rw [entry, position]
    exact ⟨(inv.loop parent named parentEq).bounded, fun notEnded => absurd rfl notEnded⟩

theorem ItemInv.postProcess {id : Id}
    (inv : ItemInv canvas state (due + if id = item then 1 else 0) item) (error : Bool) :
    ItemInv canvas (leaves (postProcess canvas round state error id)) due item := by
  rcases postProcess_leaves canvas round state error id with
    ⟨position, entry⟩ | ⟨position', ended, endEq, position, entries⟩
  · exact inv.of_eq (congrFun position item) (congrFun entry item) (Nat.le_add_right _ _)
  -- The index stays, or the item component itself is a loop item that has ended.
  have moved : (leaves (Agent.postProcess canvas round state error id)).position item =
        state.position item ∧
        (ended = false → id = item → (canvas.component item).name = .loopItem →
          state.position item ≠ -1) ∨
      (canvas.component item).name = .loopItem ∧
        (leaves (Agent.postProcess canvas round state error id)).position item = -1 ∧
        (id = item → ended = true) := by
    rw [position]
    rcases eq_or_ne item id with rfl | other
    · rw [Function.update_self]
      rcases itemEnd_cases endEq with ⟨named, same⟩ | ⟨named, ⟨atEnd, isEnded⟩ | ⟨same, going, _⟩⟩
      · exact Or.inl ⟨same, fun _ _ isNamed => absurd isNamed named⟩
      · exact Or.inr ⟨named, atEnd, fun _ => isEnded⟩
      · exact Or.inl ⟨same, fun _ _ _ => going⟩
    · rw [Function.update_of_ne other]
      exact Or.inl ⟨rfl, fun _ same => absurd same.symm other⟩
  have recorded : (leaves (Agent.postProcess canvas round state error id)).entry item =
        state.entry item ∨
      (leaves (Agent.postProcess canvas round state error id)).entry item =
        ⟨round.items id, [], false, 0, 0⟩ ∨
      (id = item ∧ (canvas.component item).name = .loopItem ∧ ended = false ∧
        (leaves (Agent.postProcess canvas round state error id)).entry item =
          { state.entry item with turns := (state.entry item).turns + 1 }) := by
    rcases entries with entry | entry
    · exact Or.inl (congrFun entry item)
    · rw [entry]
      exact recordEntry_cases canvas round id ended state.entry item
  rcases moved with ⟨samePosition, going⟩ | ⟨named, atEnd, isEnded⟩
  · rcases recorded with sameEntry | fresh | ⟨rfl, named, notEnded, turn⟩
    · exact inv.of_eq samePosition sameEntry (Nat.le_add_right _ _)
    · exact inv.entered fresh (Or.inl samePosition) (Nat.le_add_right _ _)
    · rw [if_pos rfl] at inv
      exact inv.turn named (going notEnded rfl named) samePosition turn
  · rcases recorded with sameEntry | fresh | ⟨rfl, _, notEnded, _⟩
    · exact inv.ended named atEnd sameEntry
    · exact inv.entered fresh (Or.inr atEnd) (Nat.le_add_right _ _)
    · rw [isEnded rfl] at notEnded
      cases notEnded

theorem ItemInv.postProcessAll {batch : List Id}
    (inv : ItemInv canvas state (batch.count item) item) (error : Bool) :
    ItemInv canvas (leaves (postProcessAll canvas round state error batch)) 0 item := by
  induction batch generalizing state error with
  | nil => exact inv
  | cons id batch ih =>
    rw [List.count_cons] at inv
    have first : ItemInv canvas (leaves (Agent.postProcess canvas round state error id))
        (batch.count item) item :=
      ItemInv.postProcess (by simpa using inv) error
    rw [Agent.postProcessAll]
    split
    · next stopped =>
        rw [stopped] at first
        exact first.of_eq rfl rfl (Nat.zero_le _)
    · next after error' continued =>
        rw [continued] at first
        exact ih first error'

end

def EntriesInv (canvas : Canvas Id) (state : State Id Value) : Prop :=
  ∀ item, ItemInv canvas state 0 item

omit [DecidableEq Id] in
theorem EntriesInv.of_eq {canvas : Canvas Id} {state state' : State Id Value}
    (inv : EntriesInv canvas state) (position : state'.position = state.position)
    (entry : state'.entry = state.entry) : EntriesInv canvas state' :=
  fun item => (inv item).of_eq (congrFun position item) (congrFun entry item) le_rfl

theorem EntriesInv.runComponents {canvas : Canvas Id} {state : State Id Value}
    {round : Round Id Value} (inv : EntriesInv canvas state)
    (startsOk : StartsOk canvas round state (nextBatch canvas state)) :
    EntriesInv canvas (runComponents canvas state round) := by
  have last : (runBatch canvas round state).batches.getLastD [] = nextBatch canvas state := by
    rw [(runBatch_spec canvas state round).2.1]
    simp
  have processed : EntriesInv canvas
      (leaves (postProcessAll canvas round (runBatch canvas round state) false
        ((runBatch canvas round state).batches.getLastD []))) := by
    intro item
    rw [last]
    have invoked := (inv item).foldl_invoke startsOk
    rw [Nat.zero_add] at invoked
    have ran : ItemInv canvas (runBatch canvas round state) ((nextBatch canvas state).count item)
        item := invoked.of_eq rfl rfl le_rfl
    exact ran.postProcessAll false
  unfold Agent.runComponents
  dsimp only
  split
  · next after crashed =>
      rw [crashed] at processed
      exact processed.of_eq rfl rfl
  · next after error continued =>
      rw [continued] at processed
      unfold conclude
      dsimp only
      split_ifs <;> exact processed.of_eq rfl rfl

theorem EntriesInv.move {canvas : Canvas Id} {state : State Id Value} (step : Move Id Value)
    (moveOk : MoveOk canvas state step) (inv : EntriesInv canvas state) :
    EntriesInv canvas (move canvas state step) := by
  cases step with
  | turn canceled =>
    unfold Agent.move
    dsimp only
    split_ifs
    · exact inv
    · exact inv.of_eq rfl rfl
  | round round =>
    unfold Agent.move runRound
    dsimp only
    split
    · next running =>
        split_ifs with canceled
        · exact inv.of_eq rfl rfl
        · exact inv.runComponents (moveOk running (Bool.eq_false_iff.mpr canceled))
    · exact inv.of_eq rfl rfl
    · exact inv

section

variable [DecidableEq Value] (canvas : Canvas Id) (round : Round Id Value)

instance (state : State Id Value) (id : Id) : Decidable (StartOk canvas round state id) := by
  unfold StartOk
  split <;> infer_instance

instance decidableStartsOk :
    (state : State Id Value) → (batch : List Id) → Decidable (StartsOk canvas round state batch)
  | _, [] => isTrue trivial
  | state, id :: batch =>
    haveI := decidableStartsOk (invoke canvas round state id) batch
    inferInstanceAs (Decidable (_ ∧ _))

instance (state : State Id Value) (step : Move Id Value) : Decidable (MoveOk canvas state step) :=
  match step with
  | .turn _ => isTrue trivial
  | .round round => inferInstanceAs (Decidable (state.status = .running → round.canceled = false →
      StartsOk canvas round state (nextBatch canvas state)))

end

/-- `begin` leads to iteration one, whose item component two runs the body three. -/
def iterationCanvas : Canvas Nat where
  component id :=
    if id = 0 then ⟨.begin, [1], none, [], none, 0, .and⟩
    else if id = 1 then ⟨.iteration, [], none, [], none, 0, .and⟩
    else if id = 2 then ⟨.iterationItem, [3], some 1, [], none, 0, .and⟩
    else ⟨.other, [], some 1, [], none, 0, .and⟩
  start _ := 2
  beginId := 0
  namesUserFillUp _ := false
  begin_name := rfl
  begin_id := rfl
  start_iteration id named := by
    split_ifs at named with zero one
    · exact ⟨rfl, by rw [one]; rfl⟩
  start_loop id named := by
    split_ifs at named

def itemsRound : Round Nat Nat := { quietRound with items := fun _ => some [7, 8] }

def iterationTurn : List (Move Nat Nat) := .turn false :: List.replicate 7 (.round itemsRound)

end RagFlow.Agent
