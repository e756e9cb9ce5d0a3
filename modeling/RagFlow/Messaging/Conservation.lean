import RagFlow.Lib.Runs
import RagFlow.Messaging.MessageQueue

/-!
# Conservation of messages

Every message that was produced is outstanding once until it is acknowledged, unless a retry adds
it again or `requeue_msg` does: all three rounds of the Python version requeue a message.
-/

namespace RagFlow.Messaging

open Lib
open Lib.ConsumerGroup

universe u v

variable {Body : Type u} {Consumer : Type v}

def isCopyOf (origin : Nat) (copy : Copy Body) : Bool := copy.origin = origin

def Conserved (queue : Queue Body Consumer) : Prop :=
  ∀ origin < queue.produced, queue.stream.outstanding (isCopyOf origin) =
    if origin ∈ queue.acknowledged then 0 else 1

variable [DecidableEq Consumer]

/-- An iterator yields an entry that is pending for its consumer and that it has not yielded, or
has yielded all of them. -/
def Faithful (queue : Queue Body Consumer) : Call Body Consumer → Prop
  | .next index info replies =>
    ∀ iterator, queue.iterators[index]? = some iterator → iterator.ended = false →
      match (iterator.next info replies queue.stream).2 with
      | some entry => ⟨entry.id, iterator.consumer⟩ ∈ queue.stream.pending ∧
          entry.id ∉ iterator.yielded
      | none => ∀ pending ∈ queue.stream.pending, pending.consumer = iterator.consumer →
          pending.id ∈ iterator.yielded
  | _ => True

/-- What comes of the commands of a call of `next` that gets an answer. -/
def Answers (reply : Reply × (Nat → Reply)) : Prop :=
  reply.1 = .ok ∧ ∃ round ∈ threeRounds, reply.2 round = .ok

/-- The iterator after some calls of `next` in a row. -/
def Iterator.drain (stream : MessageStream Body Consumer) (iterator : Iterator Consumer)
    (replies : List (Reply × (Nat → Reply))) : Iterator Consumer :=
  replies.foldl (fun iterator reply => (iterator.next reply.1 reply.2 stream).1) iterator

def Ends (queue : Queue Body Consumer) : Prop :=
  ∀ iterator ∈ queue.iterators, ∀ replies : List (Reply × (Nat → Reply)),
    (∀ reply ∈ replies, Answers reply) → queue.stream.pending.length < replies.length →
      (iterator.drain queue.stream replies).ended = true

structure QueueCorrect (calls : List (Call Body Consumer)) : Prop where
  conserved : ∀ before, before <+: calls → Conserved (Runs.run callStep .empty before)
  yields : Runs.Along callStep Faithful .empty calls
  ends : ∀ before, before <+: calls → Ends (Runs.run callStep .empty before)

/-- The call leaves as many copies of each message as it should: it adds a produced message once,
and moves a requeued message that is pending in one piece. -/
def KeepsCopies (queue : Queue Body Consumer) : Call Body Consumer → Prop
  | .product _ replies => executions replies threeRounds ≤ 1
  | .requeue port id replies => (queue.stream.find? id).isSome = true →
      (requeueEffect replies port threeRounds).1 =
        if queue.stream.isPending id && (requeueEffect replies port threeRounds).2 then 1 else 0
  | _ => True

def Answered (queue : Queue Body Consumer) : Call Body Consumer → Prop
  | .next index info replies =>
    ∀ iterator, queue.iterators[index]? = some iterator → iterator.ended = false →
      ((iterator.started = true ∨ info = .ok) ∧ ∃ round ∈ threeRounds, replies round = .ok) ∨
      ∀ pending ∈ queue.stream.pending, pending.consumer = iterator.consumer →
        pending.id ∈ iterator.yielded
  | _ => True

/-- What an iterator has passed it has yielded. -/
structure Iterator.Sound (stream : MessageStream Body Consumer) (iterator : Iterator Consumer) :
    Prop where
  covered : ∀ pending ∈ stream.pending, pending.consumer = iterator.consumer →
    pending.id ≤ iterator.currentMin → pending.id ∈ iterator.yielded
  bounded : ∀ id ∈ iterator.yielded, id ≤ iterator.currentMin
  behind : iterator.currentMin ≤ stream.lastDelivered

structure Queue.Valid (queue : Queue Body Consumer) : Prop where
  sound : queue.stream.Sound
  origins : ∀ entry ∈ queue.stream.entries, entry.payload.origin < queue.produced
  acknowledged : ∀ origin ∈ queue.acknowledged, origin < queue.produced
  iterators : ∀ iterator ∈ queue.iterators, iterator.Sound queue.stream

section Iterators

variable {stream : MessageStream Body Consumer} {iterator : Iterator Consumer} {info : Reply}
  {replies : Nat → Reply}

omit [DecidableEq Consumer] in
theorem Iterator.Sound.mono {later : MessageStream Body Consumer}
    (sound : iterator.Sound stream) (delivered : stream.lastDelivered ≤ later.lastDelivered)
    (pending : ∀ pending ∈ later.pending,
      pending ∈ stream.pending ∨ stream.lastDelivered < pending.id) :
    iterator.Sound later where
  covered marked member ofConsumer passed := by
    rcases pending marked member with before | new
    · exact sound.covered marked before ofConsumer passed
    · exact absurd (Nat.le_trans passed sound.behind) (Nat.not_le.mpr new)
  bounded := sound.bounded
  behind := Nat.le_trans sound.behind delivered

theorem readHistory_eq (answered : ∃ round ∈ threeRounds, replies round = .ok)
    (consumer : Consumer) (after : Nat) :
    readHistory replies consumer after stream = stream.history? consumer after := by
  unfold readHistory
  generalize threeRounds = rounds at answered ⊢
  induction rounds with
  | nil => simp at answered
  | cons round rounds ih =>
    rw [forRounds]
    cases reply : replies round with
    | ok => rfl
    | lost =>
      apply ih
      simpa [reply] using answered
    | failed =>
      apply ih
      simpa [reply] using answered

theorem readHistory_eq_none (unanswered : ¬∃ round ∈ threeRounds, replies round = .ok)
    (consumer : Consumer) (after : Nat) :
    readHistory replies consumer after stream = none := by
  unfold readHistory
  generalize threeRounds = rounds at unanswered ⊢
  induction rounds with
  | nil => rfl
  | cons round rounds ih =>
    rw [forRounds]
    cases reply : replies round with
    | ok => exact absurd ⟨round, List.mem_cons_self, reply⟩ unanswered
    | lost =>
      apply ih
      simpa [reply] using unanswered
    | failed =>
      apply ih
      simpa [reply] using unanswered

/-- What `next` comes to: nothing new, the end, or the next pending entry. -/
inductive NextStep (stream : MessageStream Body Consumer) (iterator : Iterator Consumer)
    (answered : Prop) : Iterator Consumer × Option (Entry (Copy Body)) → Prop
  | closed (ended : iterator.ended = true) : NextStep stream iterator answered (iterator, none)
  | unanswered (after : Iterator Consumer) (none : ¬answered)
      (same : after.yielded = iterator.yielded ∧ after.consumer = iterator.consumer ∧
        after.currentMin = iterator.currentMin ∧ after.ended = true) :
      NextStep stream iterator answered (after, Option.none)
  | finished (heard : answered)
      (none : stream.history? iterator.consumer iterator.currentMin = none) :
      NextStep stream iterator answered
        ({ iterator with started := true, ended := true }, Option.none)
  | yielded (heard : answered) (entry : Entry (Copy Body))
      (found : stream.history? iterator.consumer iterator.currentMin = some entry)
      (running : iterator.ended = false) :
      NextStep stream iterator answered
        ({ iterator with
            started := true
            currentMin := entry.id
            yielded := iterator.yielded ++ [entry.id] }, some entry)

theorem next_step : NextStep stream iterator
    ((iterator.started = true ∨ info = .ok) ∧ ∃ round ∈ threeRounds, replies round = .ok)
    (iterator.next info replies stream) := by
  unfold Iterator.next
  cases ended : iterator.ended with
  | true => exact .closed ended
  | false =>
    rw [if_neg Bool.false_ne_true]
    by_cases begun : iterator.started = true ∨ info = .ok
    · rw [if_neg (by rcases begun with started | ok <;> simp [*])]
      by_cases answered : ∃ round ∈ threeRounds, replies round = .ok
      · rw [readHistory_eq answered]
        cases found : stream.history? iterator.consumer iterator.currentMin with
        | none => exact .finished ⟨begun, answered⟩ found
        | some entry =>
          rw [← ended]
          exact .yielded ⟨begun, answered⟩ entry found ended
      · rw [readHistory_eq_none answered]
        exact .unanswered _ (fun both => answered both.2) ⟨rfl, rfl, rfl, rfl⟩
    · rw [not_or] at begun
      rw [if_pos (by simp [begun])]
      exact .unanswered _ (fun both => both.1.elim begun.1 begun.2) ⟨rfl, rfl, rfl, rfl⟩

theorem sound_next (streamSound : stream.Sound) (sound : iterator.Sound stream) :
    (iterator.next info replies stream).1.Sound stream := by
  have step := @next_step _ _ _ stream iterator info replies
  generalize iterator.next info replies stream = after at step ⊢
  cases step with
  | closed ended => exact sound
  | unanswered after none same =>
    obtain ⟨yielded, consumer, currentMin, _⟩ := same
    constructor
    · rw [yielded, consumer, currentMin]
      exact sound.covered
    · rw [yielded, currentMin]
      exact sound.bounded
    · rw [currentMin]
      exact sound.behind
  | finished _ none => exact ⟨sound.covered, sound.bounded, sound.behind⟩
  | yielded _ entry found running =>
    obtain ⟨pending, beyond, first⟩ := of_history?_eq_some streamSound found
    refine ⟨fun marked member ofConsumer passed => ?_, fun id inYielded => ?_, ?_⟩
    · by_cases before : marked.id ≤ iterator.currentMin
      · exact List.mem_append_left _ (sound.covered marked member ofConsumer before)
      · have same := Nat.le_antisymm passed
          (first marked member ofConsumer (Nat.not_le.mp before))
        exact List.mem_append_right _ (List.mem_singleton.mpr same)
    · rcases List.mem_append.mp inYielded with earlier | last
      · exact Nat.le_of_lt (Nat.lt_of_le_of_lt (sound.bounded id earlier) beyond)
      · exact Nat.le_of_eq (List.mem_singleton.mp last)
    · exact streamSound.handedOut _ pending

def Iterator.remaining (stream : MessageStream Body Consumer) (iterator : Iterator Consumer) :
    Nat :=
  stream.pending.countP fun pending =>
    pending.consumer = iterator.consumer ∧ iterator.currentMin < pending.id

omit [DecidableEq Consumer] in
theorem countP_lt {pendings : List (Pending Consumer)} {weak strong : Pending Consumer → Bool}
    (weaker : ∀ pending ∈ pendings, strong pending = true → weak pending = true)
    {marked : Pending Consumer} (member : marked ∈ pendings) (meets : weak marked = true)
    (fails : strong marked = false) : pendings.countP strong < pendings.countP weak := by
  obtain ⟨before, after, rfl⟩ := List.append_of_mem member
  have first : before.countP strong ≤ before.countP weak :=
    List.countP_mono_left fun pending inBefore =>
      weaker pending (List.mem_append_left _ inBefore)
  have second : after.countP strong ≤ after.countP weak :=
    List.countP_mono_left fun pending inAfter =>
      weaker pending (List.mem_append_right _ (List.mem_cons_of_mem _ inAfter))
  rw [List.countP_append, List.countP_append, List.countP_cons, List.countP_cons, meets, fails]
  simp only [Bool.false_eq_true, if_false, if_true]
  omega

theorem remaining_next (streamSound : stream.Sound)
    (answered : (iterator.started = true ∨ info = .ok) ∧
      ∃ round ∈ threeRounds, replies round = .ok) :
    (iterator.next info replies stream).1.ended = true ∨
      (iterator.next info replies stream).1.remaining stream < iterator.remaining stream := by
  have step := @next_step _ _ _ stream iterator info replies
  generalize iterator.next info replies stream = after at step ⊢
  cases step with
  | closed ended => exact .inl ended
  | unanswered after none same => exact absurd answered none
  | finished _ none => exact .inl rfl
  | yielded _ entry found running =>
    obtain ⟨pending, beyond, _⟩ := of_history?_eq_some streamSound found
    refine .inr (countP_lt (fun marked _ counted => ?_) pending ?_ ?_)
    · simp only [decide_eq_true_eq] at counted ⊢
      exact ⟨counted.1, Nat.lt_trans beyond counted.2⟩
    · simpa using beyond
    · simp

theorem drain_ended {replies : List (Reply × (Nat → Reply))} (ended : iterator.ended = true) :
    (iterator.drain stream replies).ended = true := by
  induction replies with
  | nil => exact ended
  | cons reply replies ih =>
    have same : (iterator.next reply.1 reply.2 stream).1 = iterator := by
      rw [Iterator.next, if_pos ended]
    rw [Iterator.drain, List.foldl_cons, same]
    exact ih

theorem ended_of_drain {replies : List (Reply × (Nat → Reply))} (sound : stream.Sound)
    (answers : ∀ reply ∈ replies, Answers reply)
    (more : iterator.remaining stream < replies.length) :
    (iterator.drain stream replies).ended = true := by
  induction replies generalizing iterator with
  | nil => exact absurd more (Nat.not_lt_zero _)
  | cons reply replies ih =>
    rw [List.forall_mem_cons] at answers
    rw [Iterator.drain, List.foldl_cons]
    have advance := @remaining_next _ _ _ stream iterator reply.1 reply.2 sound
      ⟨.inr answers.1.1, answers.1.2⟩
    rcases advance with ended | fewer
    · exact drain_ended ended
    · apply ih answers.2
      exact Nat.lt_of_lt_of_le fewer (Nat.le_of_lt_succ more)

end Iterators

section Calls

variable {queue : Queue Body Consumer}

theorem ends_of_valid (valid : queue.Valid) : Ends queue := by
  intro iterator _ replies answers more
  apply ended_of_drain valid.sound answers
  exact Nat.lt_of_le_of_lt List.countP_le_length more

theorem faithful_iff_answered (valid : queue.Valid) (call : Call Body Consumer) :
    Faithful queue call ↔ Answered queue call := by
  cases call with
  | next index info replies =>
    refine forall_congr' fun iterator => forall_congr' fun found =>
      forall_congr' fun running => ?_
    have sound := valid.iterators iterator (List.mem_of_getElem? found)
    have step := @next_step _ _ _ queue.stream iterator info replies
    generalize iterator.next info replies queue.stream = after at step ⊢
    cases step with
    | closed ended =>
      rw [running] at ended
      cases ended
    | unanswered after none same => exact (or_iff_right none).symm
    | finished heard none =>
      refine iff_of_true (fun pending member ofConsumer => ?_) (.inl heard)
      have passed := of_history?_eq_none valid.sound none pending member ofConsumer
      exact sound.covered pending member ofConsumer (Nat.not_lt.mp passed)
    | yielded heard entry found running =>
      obtain ⟨pending, beyond, _⟩ := of_history?_eq_some valid.sound found
      refine iff_of_true ⟨pending, fun again => ?_⟩ (.inl heard)
      exact absurd beyond (Nat.not_lt.mpr (sound.bounded entry.id again))
  | _ => exact Iff.rfl

omit [DecidableEq Consumer] in
theorem continues_transfer {stream : MessageStream Body Consumer} (payload : Copy Body)
    (id copies : Nat) (acked : Bool) : Continues stream (transfer payload id copies acked stream) := by
  cases acked with
  | true => exact (continues_addCopies payload copies).trans (continues_acknowledge id)
  | false => exact continues_addCopies payload copies

omit [DecidableEq Consumer] in
theorem Queue.Valid.advance (valid : queue.Valid) {stream : MessageStream Body Consumer}
    {produced : Nat} {acknowledged : List Nat} (sound : stream.Sound)
    (continues : Continues queue.stream stream)
    (origins : ∀ entry ∈ stream.entries, entry.payload.origin < produced)
    (acked : ∀ origin ∈ acknowledged, origin < produced) :
    Queue.Valid ⟨stream, queue.iterators, produced, acknowledged⟩ where
  sound := sound
  origins := origins
  acknowledged := acked
  iterators iterator member :=
    (valid.iterators iterator member).mono continues.delivered continues.pending

omit [DecidableEq Consumer] in
theorem queueConsumer_stream (stream : MessageStream Body Consumer) (replies : Nat → Reply)
    (consumer : Consumer) (sound : stream.Sound) :
    (queueConsumer replies consumer stream).1.Sound ∧
      Continues stream (queueConsumer replies consumer stream).1 ∧
      (queueConsumer replies consumer stream).1.entries = stream.entries ∧
      ∀ kind, (queueConsumer replies consumer stream).1.outstanding kind =
        stream.outstanding kind := by
  unfold queueConsumer
  apply @forRounds_preserves _ _ fun later : MessageStream Body Consumer =>
    later.Sound ∧ Continues stream later ∧ later.entries = stream.entries ∧
      ∀ kind, later.outstanding kind = stream.outstanding kind
  · intro round later before
    obtain ⟨laterSound, continues, entries, outstanding⟩ := before
    have delivered : (later.deliver consumer).Sound ∧
        Continues stream (later.deliver consumer) ∧
        (later.deliver consumer).entries = stream.entries ∧
        ∀ kind, (later.deliver consumer).outstanding kind = stream.outstanding kind :=
      ⟨sound_deliver laterSound consumer, continues.trans (continues_deliver consumer),
        (entries_deliver consumer).trans entries,
        fun kind => (outstanding_deliver laterSound consumer kind).trans (outstanding kind)⟩
    cases replies round with
    | ok => exact delivered
    | lost => exact delivered
    | failed => exact ⟨laterSound, continues, entries, outstanding⟩
  · exact ⟨sound, .refl stream, rfl, fun _ => rfl⟩

omit [DecidableEq Consumer] in
theorem sound_transfer {stream : MessageStream Body Consumer} (sound : stream.Sound)
    (payload : Copy Body) (id copies : Nat) (acked : Bool) :
    (transfer payload id copies acked stream).Sound := by
  cases acked with
  | true => exact sound_acknowledge (sound_addCopies sound payload copies) id
  | false => exact sound_addCopies sound payload copies

omit [DecidableEq Consumer] in
theorem mem_of_find? {stream : MessageStream Body Consumer} {id : Nat}
    {entry : Entry (Copy Body)} (found : stream.find? id = some entry) :
    entry ∈ stream.entries ∧ entry.id = id :=
  ⟨List.mem_of_find?_eq_some found, by simpa using List.find?_some found⟩

def requeued (port : Port) (replies : Nat → RequeueReplies) (id : Nat)
    (stream : MessageStream Body Consumer) : MessageStream Body Consumer :=
  match stream.find? id with
  | none => stream
  | some entry => transfer entry.payload id (requeueEffect replies port threeRounds).1
      (requeueEffect replies port threeRounds).2 stream

theorem callStep_requeue (port : Port) (id : Nat) (replies : Nat → RequeueReplies) :
    callStep queue (.requeue port id replies) =
      { queue with stream := requeued port replies id queue.stream } := by
  unfold requeued
  cases found : queue.stream.find? id with
  | none =>
    cases port with
    | python => rw [callStep, requeueMsg_missing found]
    | go => rw [callStep, goRequeueMsg_missing found]
  | some entry =>
    cases port with
    | python => rw [callStep, requeueMsg_eq found]
    | go => rw [callStep, goRequeueMsg_eq found]

theorem valid_requeue (valid : queue.Valid) (port : Port) (id : Nat)
    (replies : Nat → RequeueReplies) : (callStep queue (.requeue port id replies)).Valid := by
  rw [callStep_requeue, requeued]
  cases found : queue.stream.find? id with
  | none => exact valid
  | some entry =>
    obtain ⟨member, _⟩ := mem_of_find? found
    apply valid.advance (sound_transfer valid.sound _ _ _ _) (continues_transfer _ _ _ _) _
      valid.acknowledged
    intro other inEntries
    have copies : other ∈ (queue.stream.addCopies entry.payload
        (requeueEffect replies port threeRounds).1).entries := by
      unfold transfer at inEntries
      split at inEntries <;> exact inEntries
    rcases payload_of_mem_addCopies copies with old | ⟨_, copy⟩
    · exact valid.origins other old
    · rw [copy]
      exact valid.origins entry member

theorem valid_product (valid : queue.Valid) (message : Body) (replies : Nat → Reply) :
    (callStep queue (.product message replies)).Valid := by
  rw [callStep, queueProduct_stream]
  apply valid.advance (sound_addCopies valid.sound _ _) (continues_addCopies _ _)
  · intro entry member
    rcases payload_of_mem_addCopies member with old | ⟨some, copy⟩
    · exact Nat.lt_add_right _ (valid.origins entry old)
    · rw [copy]
      dsimp only
      omega
  · exact fun origin member => Nat.lt_add_right _ (valid.acknowledged origin member)

omit [DecidableEq Consumer] in
theorem mem_acknowledgedBy {id origin : Nat} : origin ∈ queue.acknowledgedBy id ↔
    queue.stream.isPending id = true ∧
      ∃ entry, queue.stream.find? id = some entry ∧ entry.payload.origin = origin := by
  unfold Queue.acknowledgedBy
  split
  · next pending => simp [pending]
  · next free => simp [free]

theorem valid_ack (valid : queue.Valid) (id : Nat) (reply : Reply) :
    (callStep queue (.ack id reply)).Valid := by
  rw [callStep]
  split
  · apply valid.advance (sound_acknowledge valid.sound id) (continues_acknowledge id) valid.origins
    intro origin member
    rcases List.mem_append.mp member with new | old
    · obtain ⟨_, entry, found, rfl⟩ := mem_acknowledgedBy.mp new
      exact valid.origins entry (mem_of_find? found).1
    · exact valid.acknowledged origin old
  · exact valid

theorem valid_step (valid : queue.Valid) (call : Call Body Consumer) :
    (callStep queue call).Valid := by
  cases call with
  | product message replies => exact valid_product valid message replies
  | consume consumer replies =>
    obtain ⟨sound, continues, entries, _⟩ :=
      queueConsumer_stream queue.stream replies consumer valid.sound
    apply valid.advance sound continues _ valid.acknowledged
    rw [entries]
    exact valid.origins
  | ack id reply => exact valid_ack valid id reply
  | requeue port id replies => exact valid_requeue valid port id replies
  | iterate consumer =>
    refine ⟨valid.sound, valid.origins, valid.acknowledged, fun iterator member => ?_⟩
    rcases List.mem_append.mp member with old | new
    · exact valid.iterators iterator old
    · rw [List.mem_singleton.mp new]
      refine ⟨fun pending inPending _ none => ?_, by simp, Nat.zero_le _⟩
      obtain ⟨entry, inEntries, sameId⟩ := valid.sound.stored pending inPending
      exact absurd (sameId ▸ none) (Nat.not_le.mpr (valid.sound.positive entry inEntries))
  | next index info replies =>
    refine ⟨valid.sound, valid.origins, valid.acknowledged, fun iterator member => ?_⟩
    obtain ⟨place, found⟩ := List.mem_iff_getElem?.mp member
    rw [callStep, List.getElem?_modify] at found
    obtain ⟨old, here, rfl⟩ := Option.map_eq_some_iff.mp found
    have sound := valid.iterators old (List.mem_of_getElem? here)
    split
    · exact sound_next valid.sound sound
    · exact sound

omit [DecidableEq Consumer] in
theorem outstanding_transfer {stream : MessageStream Body Consumer} (sound : stream.Sound)
    {id : Nat} {entry : Entry (Copy Body)} (found : stream.find? id = some entry) (copies : Nat)
    (acked : Bool) (kind : Copy Body → Bool) :
    (transfer entry.payload id copies acked stream).outstanding kind +
        (if stream.isPending id && acked then (if kind entry.payload then 1 else 0) else 0) =
      stream.outstanding kind + if kind entry.payload then copies else 0 := by
  obtain ⟨member, rfl⟩ := mem_of_find? found
  have added := outstanding_addCopies sound entry.payload copies kind
  have same : (stream.addCopies entry.payload copies).isPending entry.id =
      stream.isPending entry.id := by
    rw [EntryStream.isPending, pending_addCopies]
    rfl
  cases acked with
  | false => simpa [transfer] using added
  | true =>
    cases pending : stream.isPending entry.id with
    | false =>
      rw [← added, transfer, if_pos rfl,
        outstanding_acknowledge_of_not_pending (same.trans pending)]
      simp
    | true =>
      have taken := outstanding_acknowledge (sound_addCopies sound entry.payload copies)
        (mem_entries_addCopies member) (same.trans pending) kind
      rw [← added, ← taken, transfer, if_pos rfl]
      simp

omit [DecidableEq Consumer] in
theorem outstanding_new (valid : queue.Valid) :
    queue.stream.outstanding (isCopyOf queue.produced) = 0 := by
  apply List.countP_eq_zero.mpr
  intro entry member counted
  rw [Bool.and_eq_true] at counted
  have same : entry.payload.origin = queue.produced := by simpa [isCopyOf] using counted.2
  exact absurd (valid.origins entry member) (Nat.not_lt.mpr (Nat.le_of_eq same.symm))

theorem conserved_product_iff (valid : queue.Valid) (conserved : Conserved queue)
    (message : Body) (replies : Nat → Reply) :
    Conserved (callStep queue (.product message replies)) ↔ executions replies threeRounds ≤ 1 := by
  rw [callStep, queueProduct_stream]
  have count := fun origin => outstanding_addCopies valid.sound (Copy.mk queue.produced message)
    (executions replies threeRounds) (isCopyOf origin)
  have new : queue.produced ∉ queue.acknowledged := fun acked =>
    absurd (valid.acknowledged _ acked) (Nat.lt_irrefl _)
  constructor
  · intro after
    by_contra more
    have own := after queue.produced (by dsimp only; omega)
    rw [count, outstanding_new valid, if_neg new] at own
    simp [isCopyOf] at own
    omega
  · intro once origin before
    rw [count]
    by_cases old : origin < queue.produced
    · have other : isCopyOf origin (Copy.mk queue.produced message) = false := by
        simpa [isCopyOf] using Nat.ne_of_gt old
      rw [other, conserved origin old]
      rfl
    · have same : origin = queue.produced := by
        dsimp only at before
        omega
      subst same
      have one : executions replies threeRounds = 1 := by
        dsimp only at before
        omega
      rw [outstanding_new valid, if_neg new, one]
      simp [isCopyOf]

theorem conserved_requeue_iff (valid : queue.Valid) (conserved : Conserved queue) (port : Port)
    (id : Nat) (replies : Nat → RequeueReplies) :
    Conserved (callStep queue (.requeue port id replies)) ↔
      KeepsCopies queue (.requeue port id replies) := by
  rw [callStep_requeue, requeued, KeepsCopies]
  cases found : queue.stream.find? id with
  | none => simpa using conserved
  | some entry =>
    obtain ⟨member, _⟩ := mem_of_find? found
    have count := outstanding_transfer valid.sound found
      (requeueEffect replies port threeRounds).1 (requeueEffect replies port threeRounds).2
    simp only [Option.isSome_some, forall_const]
    constructor
    · intro after
      have own := after entry.payload.origin (valid.origins entry member)
      have before := conserved entry.payload.origin (valid.origins entry member)
      have change := count (isCopyOf entry.payload.origin)
      dsimp only at own
      rw [own, before] at change
      simp only [isCopyOf, decide_true, if_true] at change
      omega
    · intro moved origin before
      have change := count (isCopyOf origin)
      have balanced : (if queue.stream.isPending id && (requeueEffect replies port
          threeRounds).2 then (if isCopyOf origin entry.payload then 1 else 0) else 0) =
          if isCopyOf origin entry.payload then (requeueEffect replies port threeRounds).1
            else 0 := by
        rw [moved]
        by_cases own : isCopyOf origin entry.payload = true <;> simp [own]
      rw [← conserved origin before]
      dsimp only
      omega

theorem conserved_ack (valid : queue.Valid) (conserved : Conserved queue) (id : Nat)
    (reply : Reply) : Conserved (callStep queue (.ack id reply)) := by
  rw [callStep]
  split
  · intro origin before
    dsimp only
    cases pending : queue.stream.isPending id with
    | false =>
      rw [outstanding_acknowledge_of_not_pending pending, conserved origin before,
        Queue.acknowledgedBy, pending]
      rfl
    | true =>
      obtain ⟨marked, inPending, rfl⟩ := isPending_iff.mp pending
      obtain ⟨entry, member, sameId⟩ := valid.sound.stored marked inPending
      rw [← sameId] at pending ⊢
      have taken := outstanding_acknowledge valid.sound member pending (isCopyOf origin)
      have acked : queue.acknowledgedBy entry.id = [entry.payload.origin] := by
        rw [Queue.acknowledgedBy, if_pos pending, find?_of_mem valid.sound member]
        rfl
      rw [conserved origin before] at taken
      rw [acked]
      by_cases own : entry.payload.origin = origin
      · simp only [isCopyOf, own, decide_true, if_true, List.singleton_append, List.mem_cons,
          true_or] at taken ⊢
        split at taken <;> omega
      · have other : isCopyOf origin entry.payload = false := by simpa [isCopyOf] using own
        have differs : origin ≠ entry.payload.origin := Ne.symm own
        simp only [other, Bool.false_eq_true, if_false, Nat.add_zero] at taken
        simp only [List.singleton_append, List.mem_cons, differs, false_or]
        exact taken
  · exact conserved

theorem conserved_step_iff (valid : queue.Valid) (conserved : Conserved queue)
    (call : Call Body Consumer) : Conserved (callStep queue call) ↔ KeepsCopies queue call := by
  cases call with
  | product message replies => exact conserved_product_iff valid conserved message replies
  | consume consumer replies =>
    have same := (queueConsumer_stream queue.stream replies consumer valid.sound).2.2.2
    refine iff_of_true (fun origin before => ?_) trivial
    exact (same (isCopyOf origin)).trans (conserved origin before)
  | ack id reply => exact iff_of_true (conserved_ack valid conserved id reply) trivial
  | requeue port id replies => exact conserved_requeue_iff valid conserved port id replies
  | iterate consumer => exact iff_of_true conserved trivial
  | next index info replies => exact iff_of_true conserved trivial

omit [DecidableEq Consumer] in
theorem valid_empty : (Queue.empty : Queue Body Consumer).Valid where
  sound := sound_empty
  origins := by simp [Queue.empty, EntryStream.empty]
  acknowledged := by simp [Queue.empty]
  iterators := by simp [Queue.empty]

/-- The queue is correct along exactly the runs whose calls keep the copies of the messages and
answer the iterators. -/
theorem queueCorrect_iff (calls : List (Call Body Consumer)) :
    QueueCorrect calls ↔ Runs.Along callStep
      (fun queue call => KeepsCopies queue call ∧ Answered queue call) .empty calls := by
  have preserved : ∀ (queue : Queue Body Consumer) (call : Call Body Consumer),
      queue.Valid → (callStep queue call).Valid := fun _ call valid => valid_step valid call
  have conserved := Runs.always_iff_along Queue.Valid Conserved valid_empty preserved
    (fun origin before => absurd before (Nat.not_lt_zero origin))
    (fun _ call valid conserved => conserved_step_iff valid conserved call) calls
  have yields := @Runs.along_congr _ _ callStep Faithful .empty Answered _ valid_empty preserved
    (fun _ call valid => faithful_iff_answered valid call) calls
  rw [Runs.along_and, ← conserved, ← yields]
  constructor
  · intro correct
    exact ⟨correct.conserved, correct.yields⟩
  · intro both
    refine ⟨both.1, both.2, fun before _ => ?_⟩
    exact ends_of_valid (Runs.invariant_run valid_empty preserved before)

end Calls

def answeredRequeue (_ : Nat) : RequeueReplies := ⟨.ok, .ok, .ok⟩

/-- A message that is requeued once is outstanding three times; so is a message that was
acknowledged. -/
theorem not_queueCorrect :
    ¬QueueCorrect [.product "message" fun _ => .ok, .consume "worker" fun _ => .ok,
      .requeue .python 1 answeredRequeue] ∧
    ¬QueueCorrect [.product "message" fun _ => .ok, .consume "worker" fun _ => .ok,
      .ack 1 .ok, .requeue .go 1 answeredRequeue] := by
  constructor
  · intro correct
    have all := correct.conserved _ List.prefix_rfl 0 (by decide)
    exact absurd all (by decide)
  · intro correct
    have all := correct.conserved _ List.prefix_rfl 0 (by decide)
    exact absurd all (by decide)

end RagFlow.Messaging
