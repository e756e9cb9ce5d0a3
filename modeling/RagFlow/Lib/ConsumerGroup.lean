import Mathlib.Data.List.Basic

/-!
# Streams with a consumer group

A stream keeps its entries under increasing ids.  A group of consumers hands each entry to one of
them, in order, and keeps it pending until that consumer acknowledges it; the entry itself stays in
the stream.  An entry that is not handed out yet or pending is outstanding.
-/

namespace RagFlow.Lib.ConsumerGroup

universe u v

variable {Payload : Type u} {Consumer : Type v}

structure Entry (Payload : Type u) where
  id : Nat
  payload : Payload
deriving DecidableEq, Repr

structure Pending (Consumer : Type v) where
  id : Nat
  consumer : Consumer
deriving DecidableEq, Repr

structure EntryStream (Payload : Type u) (Consumer : Type v) where
  entries : List (Entry Payload)
  lastId : Nat
  lastDelivered : Nat
  pending : List (Pending Consumer)

def EntryStream.empty : EntryStream Payload Consumer where
  entries := []
  lastId := 0
  lastDelivered := 0
  pending := []

namespace EntryStream

variable (stream : EntryStream Payload Consumer)

/-- `XADD` -/
def add (payload : Payload) : EntryStream Payload Consumer :=
  { stream with
    entries := stream.entries ++ [⟨stream.lastId + 1, payload⟩]
    lastId := stream.lastId + 1 }

def addCopies (payload : Payload) : Nat → EntryStream Payload Consumer
  | 0 => stream
  | count + 1 => (addCopies payload count).add payload

/-- `XRANGE` of one id. -/
def find? (id : Nat) : Option (Entry Payload) :=
  stream.entries.find? fun entry => entry.id = id

/-- The entry that `XREADGROUP` hands out next. -/
def next? : Option (Entry Payload) :=
  stream.entries.find? fun entry => stream.lastDelivered < entry.id

/-- `XREADGROUP` of a new entry. -/
def deliver (consumer : Consumer) : EntryStream Payload Consumer :=
  match stream.next? with
  | none => stream
  | some entry =>
    { stream with
      lastDelivered := entry.id
      pending := stream.pending ++ [⟨entry.id, consumer⟩] }

/-- `XACK` -/
def acknowledge (id : Nat) : EntryStream Payload Consumer :=
  { stream with pending := stream.pending.filter fun pending => pending.id ≠ id }

def isPending (id : Nat) : Bool :=
  stream.pending.any fun pending => pending.id = id

/-- The entry that `XREADGROUP` finds in the history of a consumer, after an id. -/
def history? [DecidableEq Consumer] (consumer : Consumer) (after : Nat) : Option (Entry Payload) :=
  (stream.pending.find? fun pending => pending.consumer = consumer ∧ after < pending.id).bind
    fun pending => stream.find? pending.id

def isOutstanding (entry : Entry Payload) : Bool :=
  stream.lastDelivered < entry.id || stream.isPending entry.id

def outstanding (kind : Payload → Bool) : Nat :=
  stream.entries.countP fun entry => stream.isOutstanding entry && kind entry.payload

structure Sound : Prop where
  sorted : stream.entries.Pairwise fun first second => first.id < second.id
  positive : ∀ entry ∈ stream.entries, 0 < entry.id
  bounded : ∀ entry ∈ stream.entries, entry.id ≤ stream.lastId
  delivered : stream.lastDelivered ≤ stream.lastId
  inOrder : stream.pending.Pairwise fun first second => first.id < second.id
  handedOut : ∀ pending ∈ stream.pending, pending.id ≤ stream.lastDelivered
  stored : ∀ pending ∈ stream.pending, ∃ entry ∈ stream.entries, entry.id = pending.id

end EntryStream

section Operations

variable {stream : EntryStream Payload Consumer}

theorem sound_empty : (EntryStream.empty : EntryStream Payload Consumer).Sound := by
  constructor <;> simp [EntryStream.empty]

theorem sound_add (sound : stream.Sound) (payload : Payload) : (stream.add payload).Sound where
  sorted := by
    refine List.pairwise_append.mpr ⟨sound.sorted, List.pairwise_singleton _ _, ?_⟩
    intro entry member other last
    rw [List.mem_singleton.mp last]
    exact Nat.lt_succ_of_le (sound.bounded entry member)
  positive entry member := by
    rcases List.mem_append.mp member with earlier | last
    · exact sound.positive entry earlier
    · exact (congrArg Entry.id (List.mem_singleton.mp last)).symm ▸ Nat.succ_pos stream.lastId
  bounded entry member := by
    rcases List.mem_append.mp member with earlier | last
    · exact Nat.le_succ_of_le (sound.bounded entry earlier)
    · exact Nat.le_of_eq (congrArg Entry.id (List.mem_singleton.mp last))
  delivered := Nat.le_succ_of_le sound.delivered
  inOrder := sound.inOrder
  handedOut := sound.handedOut
  stored pending member := by
    obtain ⟨entry, inEntries, sameId⟩ := sound.stored pending member
    exact ⟨entry, List.mem_append_left _ inEntries, sameId⟩

theorem sound_acknowledge (sound : stream.Sound) (id : Nat) : (stream.acknowledge id).Sound where
  sorted := sound.sorted
  positive := sound.positive
  bounded := sound.bounded
  delivered := sound.delivered
  inOrder := sound.inOrder.filter _
  handedOut pending member := sound.handedOut pending (List.mem_of_mem_filter member)
  stored pending member := sound.stored pending (List.mem_of_mem_filter member)

theorem sound_deliver (sound : stream.Sound) (consumer : Consumer) :
    (stream.deliver consumer).Sound := by
  unfold EntryStream.deliver
  cases found : stream.next? with
  | none => exact sound
  | some entry =>
    have later : stream.lastDelivered < entry.id := by simpa using List.find?_some found
    have member : entry ∈ stream.entries := List.mem_of_find?_eq_some found
    constructor
    · exact sound.sorted
    · exact sound.positive
    · exact sound.bounded
    · exact sound.bounded entry member
    · refine List.pairwise_append.mpr ⟨sound.inOrder, List.pairwise_singleton _ _, ?_⟩
      intro pending inPending other last
      rw [List.mem_singleton.mp last]
      exact Nat.lt_of_le_of_lt (sound.handedOut pending inPending) later
    · intro pending inPending
      rcases List.mem_append.mp inPending with earlier | last
      · exact Nat.le_trans (sound.handedOut pending earlier) (Nat.le_of_lt later)
      · exact Nat.le_of_eq (congrArg Pending.id (List.mem_singleton.mp last))
    · intro pending inPending
      rcases List.mem_append.mp inPending with earlier | last
      · exact sound.stored pending earlier
      · exact ⟨entry, member, by rw [List.mem_singleton.mp last]⟩

theorem isPending_iff {id : Nat} :
    stream.isPending id = true ↔ ∃ pending ∈ stream.pending, pending.id = id := by
  simp [EntryStream.isPending]

theorem entry_eq_of_id (sound : stream.Sound) {first second : Entry Payload}
    (inFirst : first ∈ stream.entries) (inSecond : second ∈ stream.entries)
    (same : first.id = second.id) : first = second := by
  by_contra differ
  rcases List.pairwise_iff_getElem.mp sound.sorted with order
  obtain ⟨i, hi, rfl⟩ := List.getElem_of_mem inFirst
  obtain ⟨j, hj, rfl⟩ := List.getElem_of_mem inSecond
  rcases Nat.lt_trichotomy i j with before | here | after
  · exact absurd same (Nat.ne_of_lt (order i j hi hj before))
  · subst here
    exact differ rfl
  · exact absurd same.symm (Nat.ne_of_lt (order j i hj hi after))

theorem outstanding_add (sound : stream.Sound) (payload : Payload) (kind : Payload → Bool) :
    (stream.add payload).outstanding kind =
      stream.outstanding kind + if kind payload then 1 else 0 := by
  have fresh : stream.lastDelivered < stream.lastId + 1 := Nat.lt_succ_of_le sound.delivered
  rw [EntryStream.outstanding, EntryStream.add, List.countP_append, List.countP_singleton]
  simp [EntryStream.outstanding, EntryStream.isOutstanding, EntryStream.isPending, fresh]

theorem outstanding_deliver (sound : stream.Sound) (consumer : Consumer) (kind : Payload → Bool) :
    (stream.deliver consumer).outstanding kind = stream.outstanding kind := by
  unfold EntryStream.deliver
  cases found : stream.next? with
  | none => rfl
  | some entry =>
    have later : stream.lastDelivered < entry.id := by simpa using List.find?_some found
    have member : entry ∈ stream.entries := List.mem_of_find?_eq_some found
    obtain ⟨_, before, after, split, handedOut⟩ := List.find?_eq_some_iff_append.mp found
    apply List.countP_congr
    intro other inEntries
    have same : (decide (entry.id < other.id) ||
          ((stream.pending.any fun pending => decide (pending.id = other.id)) ||
            decide (entry.id = other.id))) =
        (decide (stream.lastDelivered < other.id) ||
          stream.pending.any fun pending => decide (pending.id = other.id)) := by
      rcases Nat.lt_trichotomy entry.id other.id with less | same | more
      · simp [less, Nat.lt_trans later less]
      · have beyond : stream.lastDelivered < other.id := same ▸ later
        simp [same, beyond]
      · have delivered : ¬stream.lastDelivered < other.id := by
          have sorted := sound.sorted
          rw [split] at sorted inEntries
          rcases List.mem_append.mp inEntries with earlier | rest
          · simpa using handedOut other earlier
          · rcases List.mem_cons.mp rest with rfl | beyond
            · exact absurd more (Nat.lt_irrefl _)
            · have order := (List.pairwise_cons.mp (List.pairwise_append.mp sorted).2.1).1
              exact absurd more (Nat.lt_asymm (order other beyond))
        simp [delivered, Nat.lt_asymm more, Nat.ne_of_gt more]
    simp only [EntryStream.isOutstanding, EntryStream.isPending, List.any_append, List.any_cons,
      List.any_nil, Bool.or_false]
    rw [same]

theorem outstanding_acknowledge_of_not_pending {id : Nat} (free : stream.isPending id = false)
    (kind : Payload → Bool) :
    (stream.acknowledge id).outstanding kind = stream.outstanding kind := by
  have same : (stream.acknowledge id) = stream := by
    have all : ∀ pending ∈ stream.pending, pending.id ≠ id := by
      simpa [EntryStream.isPending] using free
    rw [EntryStream.acknowledge, List.filter_eq_self.mpr (by simpa using all)]
  rw [same]

theorem outstanding_acknowledge (sound : stream.Sound) {entry : Entry Payload}
    (member : entry ∈ stream.entries) (pending : stream.isPending entry.id = true)
    (kind : Payload → Bool) :
    (stream.acknowledge entry.id).outstanding kind + (if kind entry.payload then 1 else 0) =
      stream.outstanding kind := by
  obtain ⟨before, after, split⟩ := List.append_of_mem member
  have handedOut : ¬stream.lastDelivered < entry.id := by
    obtain ⟨marked, inPending, sameId⟩ := isPending_iff.mp pending
    exact Nat.not_lt.mpr (sameId ▸ sound.handedOut marked inPending)
  have others : ∀ other ∈ before ++ after,
      (stream.acknowledge entry.id).isOutstanding other = stream.isOutstanding other := by
    intro other inOthers
    have differ : entry.id ≠ other.id := by
      have sorted := sound.sorted
      rw [split] at sorted
      have order := List.pairwise_append.mp sorted
      rcases List.mem_append.mp inOthers with earlier | later
      · exact (Nat.ne_of_lt (order.2.2 other earlier entry List.mem_cons_self)).symm
      · exact Nat.ne_of_lt ((List.pairwise_cons.mp order.2.1).1 other later)
    simp only [EntryStream.isOutstanding, EntryStream.acknowledge, EntryStream.isPending, List.any_filter]
    congr 2
    funext marked
    by_cases here : marked.id = other.id <;> simp [here, Ne.symm differ]
  have gone : (stream.acknowledge entry.id).isOutstanding entry = false := by
    simp [EntryStream.isOutstanding, EntryStream.acknowledge, EntryStream.isPending, handedOut]
  have there : stream.isOutstanding entry = true := by
    simp [EntryStream.isOutstanding, pending]
  have countOthers : ∀ part : List (Entry Payload), part ⊆ before ++ after →
      (part.countP fun other => (stream.acknowledge entry.id).isOutstanding other &&
        kind other.payload) =
        part.countP fun other => stream.isOutstanding other && kind other.payload := by
    intro part subset
    exact List.countP_congr fun other inPart => by rw [others other (subset inPart)]
  have entries : (stream.acknowledge entry.id).entries = before ++ entry :: after := split
  rw [EntryStream.outstanding, EntryStream.outstanding, entries, split, List.countP_append,
    List.countP_append, List.countP_cons, List.countP_cons, gone, there,
    countOthers before (List.subset_append_left _ _),
    countOthers after (List.subset_append_right _ _)]
  simp
  omega

theorem find?_of_mem (sound : stream.Sound) {entry : Entry Payload}
    (member : entry ∈ stream.entries) : stream.find? entry.id = some entry := by
  cases found : stream.find? entry.id with
  | none =>
    have missing := List.find?_eq_none.mp found entry member
    simp at missing
  | some other =>
    have sameId : other.id = entry.id := by simpa using List.find?_some found
    rw [entry_eq_of_id sound (List.mem_of_find?_eq_some found) member sameId]

theorem sound_addCopies (sound : stream.Sound) (payload : Payload) (count : Nat) :
    (stream.addCopies payload count).Sound := by
  induction count with
  | zero => exact sound
  | succ count ih => exact sound_add ih payload

theorem outstanding_addCopies (sound : stream.Sound) (payload : Payload) (count : Nat)
    (kind : Payload → Bool) :
    (stream.addCopies payload count).outstanding kind =
      stream.outstanding kind + if kind payload then count else 0 := by
  induction count with
  | zero => simp [EntryStream.addCopies]
  | succ count ih =>
    rw [EntryStream.addCopies, outstanding_add (sound_addCopies sound payload count),
      ih]
    split <;> omega

theorem pending_addCopies (payload : Payload) (count : Nat) :
    (stream.addCopies payload count).pending = stream.pending := by
  induction count with
  | zero => rfl
  | succ count ih => exact ih

theorem mem_entries_addCopies {payload : Payload} {count : Nat} {entry : Entry Payload}
    (member : entry ∈ stream.entries) : entry ∈ (stream.addCopies payload count).entries := by
  induction count with
  | zero => exact member
  | succ count ih => exact List.mem_append_left _ ih

theorem payload_of_mem_addCopies {payload : Payload} {count : Nat} {entry : Entry Payload}
    (member : entry ∈ (stream.addCopies payload count).entries) :
    entry ∈ stream.entries ∨ (0 < count ∧ entry.payload = payload) := by
  induction count with
  | zero => exact .inl member
  | succ count ih =>
    rcases List.mem_append.mp member with earlier | last
    · exact (ih earlier).imp_right fun copy => ⟨Nat.succ_pos count, copy.2⟩
    · exact .inr ⟨Nat.succ_pos count, congrArg Entry.payload (List.mem_singleton.mp last)⟩

theorem lastDelivered_addCopies (payload : Payload) (count : Nat) :
    (stream.addCopies payload count).lastDelivered = stream.lastDelivered := by
  induction count with
  | zero => rfl
  | succ count ih => exact ih

/-- What is pending later was pending before or has been handed out since. -/
structure Continues (stream later : EntryStream Payload Consumer) : Prop where
  delivered : stream.lastDelivered ≤ later.lastDelivered
  pending : ∀ pending ∈ later.pending,
    pending ∈ stream.pending ∨ stream.lastDelivered < pending.id

theorem Continues.refl (stream : EntryStream Payload Consumer) : Continues stream stream where
  delivered := Nat.le_refl _
  pending _ := .inl

theorem Continues.trans {first second third : EntryStream Payload Consumer}
    (one : Continues first second) (two : Continues second third) : Continues first third where
  delivered := Nat.le_trans one.delivered two.delivered
  pending pending member := by
    rcases two.pending pending member with before | new
    · exact one.pending pending before
    · exact .inr (Nat.lt_of_le_of_lt one.delivered new)

theorem continues_addCopies (payload : Payload) (count : Nat) :
    Continues stream (stream.addCopies payload count) where
  delivered := Nat.le_of_eq (lastDelivered_addCopies payload count).symm
  pending _ member := .inl (@pending_addCopies _ _ stream payload count ▸ member)

theorem continues_acknowledge (id : Nat) : Continues stream (stream.acknowledge id) where
  delivered := Nat.le_refl _
  pending _ member := .inl (List.mem_of_mem_filter member)

theorem continues_deliver (consumer : Consumer) : Continues stream (stream.deliver consumer) := by
  unfold EntryStream.deliver
  cases found : stream.next? with
  | none => exact .refl stream
  | some entry =>
    have later : stream.lastDelivered < entry.id := by simpa using List.find?_some found
    refine ⟨Nat.le_of_lt later, fun pending member => ?_⟩
    rcases List.mem_append.mp member with before | last
    · exact .inl before
    · exact .inr (by rw [List.mem_singleton.mp last]; exact later)

theorem entries_deliver (consumer : Consumer) :
    (stream.deliver consumer).entries = stream.entries := by
  unfold EntryStream.deliver
  cases stream.next? <;> rfl

section History

variable [DecidableEq Consumer] {consumer : Consumer} {after : Nat}

theorem of_history?_eq_some {entry : Entry Payload} (sound : stream.Sound)
    (found : stream.history? consumer after = some entry) :
    ⟨entry.id, consumer⟩ ∈ stream.pending ∧ after < entry.id ∧
      ∀ pending ∈ stream.pending, pending.consumer = consumer → after < pending.id →
        entry.id ≤ pending.id := by
  obtain ⟨marked, first, stored⟩ := Option.bind_eq_some_iff.mp found
  have sameId : entry.id = marked.id := by simpa using List.find?_some stored
  obtain ⟨isFirst, before, rest, split, none⟩ := List.find?_eq_some_iff_append.mp first
  have own : marked.consumer = consumer ∧ after < marked.id := by simpa using isFirst
  refine ⟨?_, sameId ▸ own.2, ?_⟩
  · rw [sameId, ← own.1]
    exact List.mem_of_find?_eq_some first
  · intro pending member ofConsumer later
    have order := sound.inOrder
    rw [split] at member order
    rw [sameId]
    rcases List.mem_append.mp member with earlier | fromHere
    · have missed := none pending earlier
      simp [ofConsumer, later] at missed
    · rcases List.mem_cons.mp fromHere with rfl | beyond
      · exact Nat.le_refl _
      · exact Nat.le_of_lt
          ((List.pairwise_cons.mp (List.pairwise_append.mp order).2.1).1 pending beyond)

theorem of_history?_eq_none (sound : stream.Sound)
    (none : stream.history? consumer after = none) :
    ∀ pending ∈ stream.pending, pending.consumer = consumer → ¬after < pending.id := by
  intro pending member ofConsumer later
  cases first : stream.pending.find? fun pending => pending.consumer = consumer ∧ after < pending.id
    with
  | none =>
    have missed := List.find?_eq_none.mp first pending member
    simp [ofConsumer, later] at missed
  | some marked =>
    rw [EntryStream.history?, first] at none
    obtain ⟨entry, inEntries, sameId⟩ := sound.stored marked (List.mem_of_find?_eq_some first)
    have stored : stream.find? marked.id = Option.none := none
    rw [← sameId, find?_of_mem sound inEntries] at stored
    cases stored

end History

end Operations

end RagFlow.Lib.ConsumerGroup
