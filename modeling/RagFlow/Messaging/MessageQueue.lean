import RagFlow.Lib.ConsumerGroup

/-!
# The message queue

`RedisDB` keeps the messages of a queue in a Redis stream.  Commands are tried up to three times,
as a reply may fail to arrive: before the command was executed, or after.
-/

namespace RagFlow.Messaging

open Lib
open Lib.ConsumerGroup

universe u v

inductive Reply
  | ok
  | lost
  | failed
deriving DecidableEq, Repr

def Reply.executed : Reply → Bool
  | .ok => true
  | .lost => true
  | .failed => false

/-- `for _ in range(…)`, left by the first round that returns something. -/
def forRounds {State : Type u} {Result : Type v} (body : Nat → State → State × Option Result) :
    List Nat → State → State × Option Result
  | [], state => (state, none)
  | round :: rounds, state =>
    match body round state with
    | (state, some result) => (state, some result)
    | (state, none) => forRounds body rounds state

def threeRounds : List Nat := [0, 1, 2]

structure Copy (Body : Type u) where
  origin : Nat
  message : Body
deriving DecidableEq, Repr

abbrev MessageStream (Body : Type u) (Consumer : Type v) := EntryStream (Copy Body) Consumer

variable {Body : Type u} {Consumer : Type v}

def queueProduct (replies : Nat → Reply) (copy : Copy Body)
    (stream : MessageStream Body Consumer) : MessageStream Body Consumer × Bool :=
  let (stream, returned) := forRounds (fun round stream =>
    match replies round with
    | .ok => (stream.add copy, some true)
    | .lost => (stream.add copy, none)
    | .failed => (stream, none)) threeRounds stream
  (stream, returned.getD false)

/-- `queue_consumer` of new entries.  A round that finds none returns as well. -/
def queueConsumer (replies : Nat → Reply) (consumer : Consumer)
    (stream : MessageStream Body Consumer) :
    MessageStream Body Consumer × Option (Entry (Copy Body)) :=
  let (stream, returned) := forRounds (fun round stream =>
    match replies round with
    | .ok => (stream.deliver consumer, some stream.next?)
    | .lost => (stream.deliver consumer, none)
    | .failed => (stream, none)) threeRounds stream
  (stream, returned.join)

/-- `queue_consumer` from an id on: what it finds is pending already. -/
def readHistory [DecidableEq Consumer] (replies : Nat → Reply) (consumer : Consumer)
    (after : Nat) (stream : MessageStream Body Consumer) : Option (Entry (Copy Body)) :=
  (forRounds (fun round stream =>
    match replies round with
    | .ok => (stream, some (stream.history? consumer after))
    | _ => (stream, none)) threeRounds stream).2.join

/-- What comes of the commands of a round of `requeue_msg`. -/
structure RequeueReplies where
  xrange : Reply
  xadd : Reply
  xack : Reply

def requeueMsg (replies : Nat → RequeueReplies) (id : Nat) (stream : MessageStream Body Consumer) :
    MessageStream Body Consumer :=
  (forRounds (fun round stream =>
    -- no round returns
    (match (replies round).xrange, stream.find? id with
      | .ok, some entry =>
        match (replies round).xadd with
        | .ok =>
          if (replies round).xack.executed then (stream.add entry.payload).acknowledge id
          else stream.add entry.payload
        | .lost => stream.add entry.payload
        | .failed => stream
      | _, _ => stream, (none : Option Unit))) threeRounds stream).1

/-- `RequeueMsg` of the Go port, which does not look at the errors of its updates. -/
def goRequeueMsg (replies : Nat → RequeueReplies) (id : Nat)
    (stream : MessageStream Body Consumer) : MessageStream Body Consumer :=
  (forRounds (fun round stream =>
    match (replies round).xrange with
    | .ok =>
      match stream.find? id with
      | none => (stream, some ())
      | some entry =>
        let added :=
          if (replies round).xadd.executed then stream.add entry.payload else stream
        (if (replies round).xack.executed then added.acknowledge id else added, some ())
    | _ => (stream, none)) threeRounds stream).1

/-- The generator of `get_unacked_iterator` for a queue. -/
structure Iterator (Consumer : Type v) where
  consumer : Consumer
  started : Bool
  currentMin : Nat
  yielded : List Nat
  ended : Bool
deriving DecidableEq, Repr

/-- `next` of the generator.  It begins with the groups of the queue; without them, or after an
error, it is over. -/
def Iterator.next [DecidableEq Consumer] (info : Reply) (replies : Nat → Reply)
    (stream : MessageStream Body Consumer) (iterator : Iterator Consumer) :
    Iterator Consumer × Option (Entry (Copy Body)) :=
  if iterator.ended then (iterator, none)
  else if !iterator.started && info ≠ .ok then ({ iterator with ended := true }, none)
  else
    match readHistory replies iterator.consumer iterator.currentMin stream with
    | none => ({ iterator with started := true, ended := true }, none)
    | some entry =>
      ({ iterator with
          started := true
          currentMin := entry.id
          yielded := iterator.yielded ++ [entry.id] }, some entry)

inductive Port
  | python
  | go
deriving DecidableEq, Repr

inductive Call (Body : Type u) (Consumer : Type v)
  | product (message : Body) (replies : Nat → Reply)
  | consume (consumer : Consumer) (replies : Nat → Reply)
  | ack (id : Nat) (reply : Reply)
  | requeue (port : Port) (id : Nat) (replies : Nat → RequeueReplies)
  | iterate (consumer : Consumer)
  | next (index : Nat) (info : Reply) (replies : Nat → Reply)

structure Queue (Body : Type u) (Consumer : Type v) where
  stream : MessageStream Body Consumer
  iterators : List (Iterator Consumer)
  produced : Nat
  acknowledged : List Nat

def Queue.empty : Queue Body Consumer where
  stream := .empty
  iterators := []
  produced := 0
  acknowledged := []

/-- How often `queue_product` has its command executed. -/
def executions (replies : Nat → Reply) : List Nat → Nat
  | [] => 0
  | round :: rounds =>
    match replies round with
    | .ok => 1
    | .lost => 1 + executions replies rounds
    | .failed => executions replies rounds

def Queue.acknowledgedBy (queue : Queue Body Consumer) (id : Nat) : List Nat :=
  if queue.stream.isPending id then
    (queue.stream.find? id).toList.map fun entry => entry.payload.origin
  else []

def callStep [DecidableEq Consumer] (queue : Queue Body Consumer) :
    Call Body Consumer → Queue Body Consumer
  | .product message replies =>
    { queue with
      stream := (queueProduct replies ⟨queue.produced, message⟩ queue.stream).1
      produced := queue.produced + min 1 (executions replies threeRounds) }
  | .consume consumer replies =>
    { queue with stream := (queueConsumer replies consumer queue.stream).1 }
  | .ack id reply =>
    if reply.executed then
      { queue with
        stream := queue.stream.acknowledge id
        acknowledged := queue.acknowledgedBy id ++ queue.acknowledged }
    else queue
  | .requeue .python id replies => { queue with stream := requeueMsg replies id queue.stream }
  | .requeue .go id replies => { queue with stream := goRequeueMsg replies id queue.stream }
  | .iterate consumer =>
    { queue with iterators := queue.iterators ++ [⟨consumer, false, 0, [], false⟩] }
  | .next index info replies =>
    { queue with
      iterators := queue.iterators.modify index fun iterator =>
        (iterator.next info replies queue.stream).1 }

section Rounds

variable {State : Type u} {Result : Type v}

theorem forRounds_preserves {invariant : State → Prop}
    {body : Nat → State → State × Option Result}
    (preserved : ∀ round state, invariant state → invariant (body round state).1)
    {rounds : List Nat} {state : State} (before : invariant state) :
    invariant (forRounds body rounds state).1 := by
  induction rounds generalizing state with
  | nil => exact before
  | cons round rounds ih =>
    have after := preserved round state before
    rw [forRounds]
    split
    · next done => rwa [done] at after
    · next passed =>
        rw [passed] at after
        exact ih after

end Rounds

section Effects

variable {stream : MessageStream Body Consumer}

def transfer (payload : Copy Body) (id copies : Nat) (acked : Bool)
    (stream : MessageStream Body Consumer) : MessageStream Body Consumer :=
  if acked then (stream.addCopies payload copies).acknowledge id
  else stream.addCopies payload copies

theorem queueProduct_stream (replies : Nat → Reply) (copy : Copy Body) :
    (queueProduct replies copy stream).1 =
      stream.addCopies copy (executions replies threeRounds) := by
  have loop : ∀ rounds count, (forRounds (fun round (stream : MessageStream Body Consumer) =>
      match replies round with
      | .ok => (stream.add copy, some true)
      | .lost => (stream.add copy, none)
      | .failed => (stream, none)) rounds (stream.addCopies copy count)).1 =
        stream.addCopies copy (count + executions replies rounds) := by
    intro rounds
    induction rounds with
    | nil => exact fun _ => rfl
    | cons round rounds ih =>
      intro count
      cases reply : replies round with
      | ok => simp [forRounds, executions, reply, EntryStream.addCopies]
      | lost =>
        have rest := ih (count + 1)
        simp only [forRounds, executions, reply, ← Nat.add_assoc]
        exact rest
      | failed =>
        simp only [forRounds, executions, reply]
        exact ih count
  have whole := loop threeRounds 0
  rw [Nat.zero_add] at whole
  exact whole

theorem acknowledge_addCopies (payload : Copy Body) (id copies : Nat) :
    (stream.acknowledge id).addCopies payload copies =
      (stream.addCopies payload copies).acknowledge id := by
  induction copies with
  | zero => rfl
  | succ copies ih =>
    rw [EntryStream.addCopies, ih]
    rfl

theorem addCopies_addCopies (payload : Copy Body) (first second : Nat) :
    (stream.addCopies payload first).addCopies payload second =
      stream.addCopies payload (first + second) := by
  induction second with
  | zero => rfl
  | succ second ih =>
    rw [EntryStream.addCopies, ih]
    rfl

theorem acknowledge_acknowledge (id : Nat) :
    (stream.acknowledge id).acknowledge id = stream.acknowledge id := by
  simp [EntryStream.acknowledge]

theorem transfer_transfer (payload : Copy Body) (id first second : Nat) (one two : Bool) :
    transfer payload id second two (transfer payload id first one stream) =
      transfer payload id (first + second) (one || two) stream := by
  cases one <;> cases two <;>
    simp [transfer, acknowledge_addCopies, addCopies_addCopies, acknowledge_acknowledge]

theorem find?_transfer {id : Nat} {entry : Entry (Copy Body)} (payload : Copy Body)
    (copies : Nat) (acked : Bool) (found : stream.find? id = some entry) :
    (transfer payload id copies acked stream).find? id = some entry := by
  have added : (stream.addCopies payload copies).find? id = some entry := by
    induction copies with
    | zero => exact found
    | succ copies ih =>
      rw [EntryStream.addCopies, EntryStream.find?, EntryStream.add, List.find?_append]
      rw [EntryStream.find?] at ih
      rw [ih]
      rfl
  cases acked <;> exact added

/-- What a round of `requeue_msg` has executed for an entry that is there. -/
def RequeueReplies.effect (replies : RequeueReplies) : Nat × Bool :=
  if replies.xrange = .ok then
    ((if replies.xadd.executed then 1 else 0),
      replies.xadd = .ok && replies.xack.executed)
  else (0, false)

/-- What a call of `requeue_msg` has executed for an entry that is there: the number of its `XADD`
commands, and whether there was an `XACK`. -/
def requeueEffect (replies : Nat → RequeueReplies) : Port → List Nat → Nat × Bool
  | _, [] => (0, false)
  | .python, round :: rounds =>
    ((replies round).effect.1 + (requeueEffect replies .python rounds).1,
      (replies round).effect.2 || (requeueEffect replies .python rounds).2)
  | .go, round :: rounds =>
    if (replies round).xrange = .ok then
      ((if (replies round).xadd.executed then 1 else 0), (replies round).xack.executed)
    else requeueEffect replies .go rounds

theorem requeueMsg_eq {replies : Nat → RequeueReplies} {id : Nat} {entry : Entry (Copy Body)}
    (found : stream.find? id = some entry) :
    requeueMsg replies id stream =
      transfer entry.payload id (requeueEffect replies .python threeRounds).1
        (requeueEffect replies .python threeRounds).2 stream := by
  unfold requeueMsg
  generalize threeRounds = rounds
  induction rounds generalizing stream with
  | nil => rfl
  | cons round rounds ih =>
    rw [forRounds, requeueEffect, ← transfer_transfer]
    have one : (match (replies round).xrange, stream.find? id with
        | .ok, some entry =>
          match (replies round).xadd with
          | .ok =>
            if (replies round).xack.executed then (stream.add entry.payload).acknowledge id
            else stream.add entry.payload
          | .lost => stream.add entry.payload
          | .failed => stream
        | _, _ => stream) =
          transfer entry.payload id (replies round).effect.1 (replies round).effect.2 stream := by
      rw [found, RequeueReplies.effect]
      cases (replies round).xrange with
      | ok =>
        cases (replies round).xadd with
        | ok => cases (replies round).xack <;> rfl
        | lost => rfl
        | failed => rfl
      | lost => rfl
      | failed => rfl
    simp only [one]
    exact ih (find?_transfer _ _ _ found)

theorem goRequeueMsg_eq {replies : Nat → RequeueReplies} {id : Nat} {entry : Entry (Copy Body)}
    (found : stream.find? id = some entry) :
    goRequeueMsg replies id stream =
      transfer entry.payload id (requeueEffect replies .go threeRounds).1
        (requeueEffect replies .go threeRounds).2 stream := by
  unfold goRequeueMsg
  generalize threeRounds = rounds
  induction rounds with
  | nil => rfl
  | cons round rounds ih =>
    rw [forRounds, requeueEffect]
    cases answered : (replies round).xrange with
    | ok =>
      simp only [found, if_true]
      cases (replies round).xadd <;> cases (replies round).xack <;> rfl
    | lost => exact ih
    | failed => exact ih

theorem requeueMsg_missing {replies : Nat → RequeueReplies} {id : Nat}
    (missing : stream.find? id = none) : requeueMsg replies id stream = stream := by
  unfold requeueMsg
  generalize threeRounds = rounds
  induction rounds with
  | nil => rfl
  | cons round rounds ih =>
    rw [forRounds]
    cases (replies round).xrange <;> simpa [missing] using ih

theorem goRequeueMsg_missing {replies : Nat → RequeueReplies} {id : Nat}
    (missing : stream.find? id = none) : goRequeueMsg replies id stream = stream := by
  unfold goRequeueMsg
  generalize threeRounds = rounds
  induction rounds with
  | nil => rfl
  | cons round rounds ih =>
    rw [forRounds]
    cases (replies round).xrange with
    | ok => simp [missing]
    | lost => exact ih
    | failed => exact ih

end Effects

end RagFlow.Messaging
