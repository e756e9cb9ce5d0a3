import RagFlow.Lib.Runs
import Mathlib.Logic.Function.Basic

/-!
# The distributed lock

`RedisDistributedLock` keeps the value of its holder under the key of the lock.  `acquire` first
deletes the key if it has the worker's own value, left over from a run that crashed, and then sets
it if it is not there.  Every Redis command is a step.
-/

namespace RagFlow.Redis

open Lib

universe u v

variable {Worker : Type u} {Value : Type v} [DecidableEq Worker] [DecidableEq Value]

/-- The key of a lock before its timeout, and the workers that are in a call of `acquire` or hold
the lock, from a successful `acquire` to their `release`. -/
structure LockState (Worker : Type u) (Value : Type v) where
  key : Option Value
  acquiring : Worker → Bool
  holding : Worker → Bool

inductive LockStep (Worker : Type u)
  /-- The `delete_if_equal` that begins `acquire`. -/
  | clear (worker : Worker)
  /-- An attempt of `Lock.acquire` to set the key. -/
  | attempt (worker : Worker)
  | giveUp (worker : Worker)
  | release (worker : Worker)
deriving DecidableEq, Repr

def deleteIfEqual (key : Option Value) (expected : Value) : Option Value :=
  if key = some expected then none else key

/-- A step of a worker; `lockValue` is the value it gave its lock. -/
def lockStep (lockValue : Worker → Value) (state : LockState Worker Value) :
    LockStep Worker → LockState Worker Value
  | .clear worker =>
    { state with
      key := deleteIfEqual state.key (lockValue worker)
      acquiring := Function.update state.acquiring worker true }
  | .attempt worker =>
    if state.acquiring worker && state.key.isNone then
      { key := some (lockValue worker)
        acquiring := Function.update state.acquiring worker false
        holding := Function.update state.holding worker true }
    else state
  | .giveUp worker => { state with acquiring := Function.update state.acquiring worker false }
  | .release worker =>
    { state with
      key := deleteIfEqual state.key (lockValue worker)
      holding := Function.update state.holding worker false }

def unlocked : LockState Worker Value where
  key := none
  acquiring _ := false
  holding _ := false

variable (lockValue : Worker → Value)

def Exclusive (state : LockState Worker Value) : Prop :=
  ∀ first second, state.holding first = true → state.holding second = true → first = second

def ReleasesOwn (state : LockState Worker Value) : LockStep Worker → Prop
  | .release worker => ∀ other, other ≠ worker → state.holding other = true →
      (lockStep lockValue state (.release worker)).key = some (lockValue other)
  | _ => True

/-- No worker goes for a lock or releases one that is held under its own value, except that the
holder releases it. -/
def OwnValue (state : LockState Worker Value) : LockStep Worker → Prop
  | .clear worker => ∀ other, state.holding other = true → lockValue other ≠ lockValue worker
  | .release worker => ∀ other, other ≠ worker → state.holding other = true →
      lockValue other ≠ lockValue worker
  | _ => True

/-- The lock has one holder, whose value is in the key. -/
structure Held (state : LockState Worker Value) : Prop where
  exclusive : Exclusive state
  key : ∀ worker, state.holding worker = true → state.key = some (lockValue worker)

variable {lockValue} {state : LockState Worker Value}

omit [DecidableEq Worker] in
theorem deleteIfEqual_of_ne {key : Option Value} {held expected : Value}
    (there : key = some held) (differ : held ≠ expected) :
    deleteIfEqual key expected = some held := by
  rw [deleteIfEqual, there, if_neg fun same => differ (Option.some.inj same)]

theorem held_clear (held : Held lockValue state) {worker : Worker}
    (own : OwnValue lockValue state (.clear worker)) :
    Held lockValue (lockStep lockValue state (.clear worker)) where
  exclusive := held.exclusive
  key other holds := deleteIfEqual_of_ne (held.key other holds) (own other holds)

theorem held_attempt (held : Held lockValue state) (worker : Worker) :
    Held lockValue (lockStep lockValue state (.attempt worker)) := by
  rw [lockStep]
  split
  · next free =>
      rw [Bool.and_eq_true, Option.isNone_iff_eq_none] at free
      have nobody : ∀ other, state.holding other = false := by
        intro other
        by_contra holds
        have there := held.key other (by simpa using holds)
        rw [free.2] at there
        cases there
      have only : ∀ other, Function.update state.holding worker true other = true →
          other = worker := by
        intro other holds
        by_contra differ
        rw [Function.update_of_ne differ, nobody] at holds
        cases holds
      constructor
      · intro first second holdsFirst holdsSecond
        exact (only first holdsFirst).trans (only second holdsSecond).symm
      · intro other holds
        rw [only other holds]
  · exact held

theorem held_release (held : Held lockValue state) {worker : Worker}
    (own : OwnValue lockValue state (.release worker)) :
    Held lockValue (lockStep lockValue state (.release worker)) := by
  have others : ∀ other, Function.update state.holding worker false other = true →
      other ≠ worker ∧ state.holding other = true := by
    intro other holds
    by_cases same : other = worker
    · subst same
      simp at holds
    · rw [Function.update_of_ne same] at holds
      exact ⟨same, holds⟩
  constructor
  · intro first second holdsFirst holdsSecond
    exact held.exclusive first second (others first holdsFirst).2 (others second holdsSecond).2
  · intro other holds
    obtain ⟨differ, before⟩ := others other holds
    exact deleteIfEqual_of_ne (held.key other before) (own other differ before)

theorem held_step (held : Held lockValue state) {step : LockStep Worker}
    (own : OwnValue lockValue state step) : Held lockValue (lockStep lockValue state step) := by
  cases step with
  | clear worker => exact held_clear held own
  | attempt worker => exact held_attempt held worker
  | giveUp worker => exact ⟨held.exclusive, held.key⟩
  | release worker => exact held_release held own

theorem releasesOwn_of_held (held : Held lockValue state) {step : LockStep Worker}
    (own : OwnValue lockValue state step) : ReleasesOwn lockValue state step := by
  cases step with
  | release worker =>
    intro other differ holds
    exact deleteIfEqual_of_ne (held.key other holds) (own other differ holds)
  | _ => trivial

/-- Along every run in which no worker uses the value of another holder, the lock excludes and is
freed by its holder only. -/
theorem exclusive_along {steps : List (LockStep Worker)}
    (own : Runs.Along (lockStep lockValue) (OwnValue lockValue) unlocked steps) :
    (∀ before, before <+: steps →
      Exclusive (Runs.run (lockStep lockValue) unlocked before)) ∧
    Runs.Along (lockStep lockValue) (ReleasesOwn lockValue) unlocked steps := by
  have initially : Held lockValue (unlocked : LockState Worker Value) := by
    constructor
    · intro first second holds
      cases holds
    · intro worker holds
      cases holds
  have heldAfter : ∀ before, before <+: steps →
      Held lockValue (Runs.run (lockStep lockValue) unlocked before) := by
    intro before isPrefix
    obtain ⟨after, rfl⟩ := isPrefix
    apply Runs.invariant_along initially (fun _ _ condition held => held_step held condition)
    intro earlier step later split
    exact own earlier step (later ++ after) (by rw [split]; simp)
  refine ⟨fun before isPrefix => (heldAfter before isPrefix).exclusive, ?_⟩
  intro before step after split
  exact releasesOwn_of_held (heldAfter before ⟨step :: after, split.symm⟩)
    (own before step after split)

def AcquiresAnew (state : LockState Worker Value) : LockStep Worker → Prop
  | .clear worker => state.holding worker = false
  | _ => True

omit [DecidableEq Worker] [DecidableEq Value] in
theorem ownValue_of_injective (distinct : Function.Injective lockValue) {step : LockStep Worker}
    (anew : AcquiresAnew state step) : OwnValue lockValue state step := by
  cases step with
  | clear worker =>
    intro other holds same
    rw [distinct same, show state.holding worker = false from anew] at holds
    cases holds
  | release worker => exact fun other differ _ same => differ (distinct same)
  | _ => trivial

structure GraphragWorker where
  name : String
  taskId : String
deriving DecidableEq, Repr

def batchMerge (taskId : String) : String := "batch_merge:" ++ taskId

theorem batchMerge_injective : Function.Injective batchMerge := by
  intro first second same
  simpa [batchMerge] using same

instance (state : LockState String String) : (step : LockStep String) →
    Decidable (AcquiresAnew state step)
  | .clear worker => inferInstanceAs (Decidable (state.holding worker = false))
  | .attempt _ => isTrue trivial
  | .giveUp _ => isTrue trivial
  | .release _ => isTrue trivial

theorem exclusive_inTurn :
    (∀ before, before <+: [.clear "one", .attempt "one", .clear "two", .attempt "two",
        .release "one", .attempt "two", .release "two"] →
      Exclusive (Runs.run (lockStep batchMerge) unlocked before)) ∧
    Runs.Along (lockStep batchMerge) (ReleasesOwn batchMerge) unlocked
      [.clear "one", .attempt "one", .clear "two", .attempt "two", .release "one",
        .attempt "two", .release "two"] := by
  apply exclusive_along
  have anew : Runs.Along (lockStep batchMerge) AcquiresAnew unlocked
      [.clear "one", .attempt "one", .clear "two", .attempt "two", .release "one",
        .attempt "two", .release "two"] := by decide
  exact fun before step after split =>
    ownValue_of_injective batchMerge_injective (anew before step after split)

/-- A task that is delivered again takes the lock from its first run, and each of the two runs
frees the lock that the other one holds. -/
theorem not_exclusive_redelivered :
    ¬Exclusive (Runs.run (lockStep fun worker : GraphragWorker => batchMerge worker.taskId)
      unlocked [.clear ⟨"first", "task"⟩, .attempt ⟨"first", "task"⟩, .clear ⟨"second", "task"⟩,
        .attempt ⟨"second", "task"⟩]) ∧
    ¬ReleasesOwn (fun worker => batchMerge worker.taskId)
      (Runs.run (lockStep fun worker : GraphragWorker => batchMerge worker.taskId)
        unlocked [.clear ⟨"first", "task"⟩, .attempt ⟨"first", "task"⟩,
          .clear ⟨"second", "task"⟩, .attempt ⟨"second", "task"⟩])
      (.release ⟨"first", "task"⟩) := by
  constructor
  · intro exclusive
    exact absurd (exclusive ⟨"first", "task"⟩ ⟨"second", "task"⟩ (by decide) (by decide))
      (by decide)
  · intro own
    exact absurd (own ⟨"second", "task"⟩ (by decide) (by decide)) (by decide)

end RagFlow.Redis
