import RagFlow.Lib.Runs

/-!
# Message ids

`generate_auto_increment_id` counts up a Redis key, and corrects it with a `SET` on first use and
below a minimum.  `init_message_id_sequence` sets the key of the memory messages at start-up, with
the default expiry of `RedisDB.set`.  Every Redis command is a step.
-/

namespace RagFlow.Redis

open Lib

structure CounterKey where
  value : Nat
  expires : Bool
deriving DecidableEq, Repr

/-- Where a call of `generate_auto_increment_id` is. -/
inductive IdPhase
  /-- Before `EXISTS` and `GET`, with a minimum to ensure. -/
  | checking (minimum : Nat)
  /-- Before the `SET` of the first id, or of a minimum the counter is below. -/
  | setting (id : Nat)
  | incrementing
  /-- Before the `SET` that follows the first `INCRBY`. -/
  | correcting
  | returned (id : Nat)
deriving DecidableEq, Repr

structure IdCall where
  increment : Nat
  phase : IdPhase
deriving DecidableEq, Repr

/-- Where a call of `init_message_id_sequence` is. -/
inductive InitPhase
  | checking
  | reading
  | setting (maxId : Nat)
  | done
deriving DecidableEq, Repr

structure Sequence where
  key : Option CounterKey
  calls : List IdCall
  inits : List InitPhase
  returned : List Nat
  stored : List Nat
deriving DecidableEq, Repr

inductive SequenceStep
  /-- A call of `generate_auto_increment_id`. -/
  | call (increment : Nat) (ensureMinimum : Option Nat)
  | advance (index : Nat)
  /-- A call of `init_message_id_sequence`. -/
  | init
  | advanceInit (index : Nat)
  | expire
  /-- `insert_message` of a message with an id that was returned. -/
  | store (place : Nat)
  | forget (id : Nat)
deriving DecidableEq, Repr

def incrBy (key : Option CounterKey) (increment : Nat) : CounterKey :=
  match key with
  | none => ⟨increment, false⟩
  | some key => { key with value := key.value + increment }

def setPlain (id : Nat) : CounterKey := ⟨id, false⟩

/-- `get_max_message_id`, which is 1 when there are no messages. -/
def maxMessageId (stored : List Nat) : Nat := stored.max?.getD 1

def IdCall.run (call : IdCall) (key : Option CounterKey) :
    Option CounterKey × IdPhase × Option Nat :=
  match call.phase with
  | .checking minimum =>
    match key with
    | none => (key, .setting (max 1 minimum), none)
    | some current =>
      if current.value < minimum then (key, .setting minimum, none)
      else (key, .incrementing, none)
  | .setting id => (some (setPlain id), .returned id, some id)
  | .incrementing =>
    let next := incrBy key call.increment
    if next.value = call.increment then (some next, .correcting, none)
    else (some next, .returned next.value, some next.value)
  | .correcting =>
    let id := 1 + call.increment
    (some (setPlain id), .returned id, some id)
  | .returned id => (key, .returned id, none)

def InitPhase.run (phase : InitPhase) (key : Option CounterKey) (stored : List Nat) :
    Option CounterKey × InitPhase :=
  match phase with
  | .checking => (key, if key.isSome then .done else .reading)
  | .reading => (key, .setting (maxMessageId stored))
  | .setting maxId => (some ⟨maxId, true⟩, .done)
  | .done => (key, .done)

def sequenceStep (sequence : Sequence) : SequenceStep → Sequence
  | .call increment ensureMinimum =>
    { sequence with
      calls := sequence.calls ++
        [⟨increment, (ensureMinimum.map IdPhase.checking).getD .incrementing⟩] }
  | .advance index =>
    match sequence.calls[index]? with
    | none => sequence
    | some call =>
      let (key, phase, id) := call.run sequence.key
      { sequence with
        key := key
        calls := sequence.calls.set index { call with phase := phase }
        returned := sequence.returned ++ id.toList }
  | .init => { sequence with inits := sequence.inits ++ [.checking] }
  | .advanceInit index =>
    match sequence.inits[index]? with
    | none => sequence
    | some phase =>
      let (key, phase) := phase.run sequence.key sequence.stored
      { sequence with
        key := key
        inits := sequence.inits.set index phase }
  | .expire => { sequence with key := sequence.key.filter fun key => !key.expires }
  | .store place => { sequence with stored := sequence.stored ++ sequence.returned[place]?.toList }
  | .forget id => { sequence with stored := sequence.stored.filter fun other => other ≠ id }

def unstarted (stored : List Nat) : Sequence where
  key := none
  calls := []
  inits := []
  returned := []
  stored := stored

def ReturnsUnused (sequence : Sequence) (step : SequenceStep) : Prop :=
  ∀ id, (sequenceStep sequence step).returned = sequence.returned ++ [id] → id ∉ sequence.stored

/-- All ids of a run are different from each other and those of the stored messages, and increase in
the order in which the calls return. -/
structure UniqueIds (stored : List Nat) (steps : List SequenceStep) : Prop where
  increasing : ∀ before, before <+: steps →
    (Runs.run sequenceStep (unstarted stored) before).returned.Pairwise (· < ·)
  unused : Runs.Along sequenceStep ReturnsUnused (unstarted stored) steps

def Free (sequence : Sequence) (id : Nat) : Prop :=
  (∀ earlier ∈ sequence.returned, earlier < id) ∧ id ∉ sequence.stored

/-- The counter has not fallen behind: a call that increments a counter in use finds it high enough,
and a call that sets the counter sets it high enough. -/
def CountsOn (sequence : Sequence) : SequenceStep → Prop
  | .advance index => ∀ call, sequence.calls[index]? = some call →
      match call.phase with
      | .setting id => Free sequence id
      | .correcting => Free sequence (1 + call.increment)
      | .incrementing => ∀ key, sequence.key = some key → key.value ≠ 0 →
          Free sequence (key.value + call.increment)
      | _ => True
  | _ => True

variable {sequence : Sequence} {step : SequenceStep}

def issued (sequence : Sequence) : SequenceStep → Option Nat
  | .advance index => (sequence.calls[index]?).bind fun call => (call.run sequence.key).2.2
  | _ => none

theorem returned_step :
    (sequenceStep sequence step).returned = sequence.returned ++ (issued sequence step).toList := by
  cases step with
  | advance index =>
    rw [sequenceStep, issued]
    cases sequence.calls[index]? with
    | none => simp
    | some call => rfl
  | advanceInit index =>
    rw [sequenceStep]
    cases sequence.inits[index]? <;> simp [issued]
  | _ => simp [sequenceStep, issued]

theorem countsOn_iff : CountsOn sequence step ↔ ∀ id, issued sequence step = some id →
    Free sequence id := by
  cases step with
  | advance index =>
    rw [CountsOn, issued]
    cases found : sequence.calls[index]? with
    | none => simp
    | some call =>
      obtain ⟨increment, phase⟩ := call
      simp only [Option.some.injEq, forall_eq', Option.bind_some, IdCall.run]
      cases phase with
      | checking minimum =>
        cases sequence.key with
        | none => simp
        | some key => by_cases below : key.value < minimum <;> simp [below]
      | setting id => simp
      | correcting => simp
      | returned id => simp
      | incrementing =>
        cases sequence.key with
        | none => simp [incrBy]
        | some key =>
          by_cases fresh : key.value = 0
          · simp [incrBy, fresh]
          · simp [incrBy, fresh]
  | _ =>
    apply iff_of_true trivial
    intro id returns
    cases returns

theorem returnsUnused_iff : ReturnsUnused sequence step ↔
    ∀ id, issued sequence step = some id → id ∉ sequence.stored := by
  rw [ReturnsUnused, returned_step]
  refine forall_congr' fun id => imp_congr_left ?_
  cases issued sequence step with
  | none => simp
  | some other => simp

theorem increasing_step_iff (increasing : sequence.returned.Pairwise (· < ·)) :
    (sequenceStep sequence step).returned.Pairwise (· < ·) ↔
      ∀ id, issued sequence step = some id → ∀ earlier ∈ sequence.returned, earlier < id := by
  rw [returned_step]
  cases issued sequence step with
  | none => simpa using increasing
  | some id => simp [List.pairwise_append, increasing]

end RagFlow.Redis
