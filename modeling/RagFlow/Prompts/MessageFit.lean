import Mathlib.Algebra.BigOperators.Group.List.Basic
import Mathlib.Algebra.Ring.Nat
import Mathlib.Data.List.FinRange
import Mathlib.Data.List.Infix
import Mathlib.Logic.Function.Basic

/-!
# Fitting messages into a context

`message_fit_in` keeps the system messages and the last message of a conversation that is too
long, and cuts the first and the last of them down to a number of tokens.  It writes into the
messages themselves.
-/

namespace RagFlow.Prompts

universe u

structure Message where
  role : String
  content : String
  deriving DecidableEq

/-- `encode` raises an error on some texts. -/
structure Encoder (Token : Type u) where
  encode : String → Option (List Token)
  decode : List Token → String

variable {Token : Type u} (encoder : Encoder Token)

def numTokensFromString (text : String) : Nat := ((encoder.encode text).getD []).length

def trimContent (content : String) (limit : Nat) : Option String :=
  (encoder.encode content).map fun tokens => encoder.decode (tokens.take limit)

abbrev Heap (length : Nat) := Fin length → Message

variable {length : Nat}

def tokens (heap : Heap length) (index : Fin length) : Nat :=
  numTokensFromString encoder (heap index).content

def count (heap : Heap length) (msg : List (Fin length)) : Nat :=
  (msg.map (tokens encoder heap)).sum

def setContent (heap : Heap length) (index : Fin length) (content : String) : Heap length :=
  Function.update heap index { heap index with content := content }

def dominates (ll ll2 : Nat) : Bool := 4 * (ll + ll2) < 5 * ll

def preserved (messages : List Message) : List (Fin messages.length) :=
  (List.finRange messages.length).filter (fun index => (messages.get index).role = "system") ++
    if 1 < messages.length then (List.finRange messages.length).getLast?.toList else []

/-- `message_fit_in` from the counts of the preserved messages on. -/
def trimPreserved (heap : Heap length) (msg : List (Fin length)) (first last : Fin length)
    (maxLength : Nat) : Option (Nat × Heap length × List (Fin length)) :=
  let ll := tokens encoder heap first
  let ll2 := tokens encoder heap last
  if ll + ll2 = 0 then some (0, heap, msg)
  else if msg.length = 1 then do
    let heap := setContent heap first (← trimContent encoder (heap first).content maxLength)
    return (count encoder heap msg, heap, msg)
  else if dominates ll ll2 then do
    let preservedLast := min ll2 maxLength
    let heap := setContent heap last (← trimContent encoder (heap last).content preservedLast)
    let remaining := maxLength - preservedLast
    let heap := setContent heap first (← trimContent encoder (heap first).content remaining)
    return (count encoder heap msg, heap, msg)
  else do
    let preservedSystem := min ll maxLength
    let heap := setContent heap first (← trimContent encoder (heap first).content preservedSystem)
    let remaining := maxLength - preservedSystem
    let heap := setContent heap last (← trimContent encoder (heap last).content remaining)
    return (count encoder heap msg, heap, msg)

/-- Nothing where an error is raised. -/
def messageFitIn (messages : List Message) (maxLength : Nat) :
    Option (Nat × Heap messages.length × List (Fin messages.length)) :=
  let heap := messages.get
  let all := List.finRange messages.length
  if count encoder heap all < maxLength then some (count encoder heap all, heap, all)
  else
    let msg := preserved messages
    if count encoder heap msg < maxLength then some (count encoder heap msg, heap, msg)
    else
      match msg.head?, msg.getLast? with
      | some first, some last => trimPreserved encoder heap msg first last maxLength
      -- `msg_[0]`
      | _, _ => none

/-- What is documented of the encoder: decoding undoes encoding, and the text of the first tokens
can be encoded again and has no more of them. -/
structure Lawful : Prop where
  lossless : ∀ text tokens, encoder.encode text = some tokens → encoder.decode tokens = text
  encodes : ∀ text tokens limit, encoder.encode text = some tokens →
    (encoder.encode (encoder.decode (tokens.take limit))).isSome
  shorter : ∀ text tokens limit, encoder.encode text = some tokens →
    numTokensFromString encoder (encoder.decode (tokens.take limit)) ≤ limit

def Exact : Prop := ∀ text tokens limit, encoder.encode text = some tokens →
  numTokensFromString encoder (encoder.decode (tokens.take limit)) = min limit tokens.length

def TokenPrefix (part whole : String) : Prop :=
  part = whole ∨ ∃ tokens limit, encoder.encode whole = some tokens ∧
    part = encoder.decode (tokens.take limit)

variable {encoder}

theorem trimContent_eq_some {content trimmed : String} {limit : Nat} :
    trimContent encoder content limit = some trimmed ↔
      ∃ tokens, encoder.encode content = some tokens ∧
        trimmed = encoder.decode (tokens.take limit) := by
  simp [trimContent, eq_comm]

theorem tokenPrefix_trimContent {content trimmed : String} {limit : Nat}
    (trim : trimContent encoder content limit = some trimmed) :
    TokenPrefix encoder trimmed content := by
  obtain ⟨tokens, encoded, rfl⟩ := trimContent_eq_some.mp trim
  exact .inr ⟨tokens, limit, encoded, rfl⟩

theorem tokens_trimContent (lawful : Lawful encoder) {content trimmed : String} {limit : Nat}
    (trim : trimContent encoder content limit = some trimmed) :
    numTokensFromString encoder trimmed ≤ min limit (numTokensFromString encoder content) := by
  obtain ⟨tokens, encoded, rfl⟩ := trimContent_eq_some.mp trim
  apply le_min (lawful.shorter _ _ _ encoded)
  have all := lawful.shorter _ _ (min limit tokens.length) encoded
  rw [← List.take_eq_take_min] at all
  rw [numTokensFromString, numTokensFromString, encoded]
  exact all.trans (min_le_right _ _)

theorem tokens_trimContent_of_exact (isExact : Exact encoder) {content trimmed : String}
    {limit : Nat} (trim : trimContent encoder content limit = some trimmed) :
    numTokensFromString encoder trimmed = min limit (numTokensFromString encoder content) := by
  obtain ⟨tokens, encoded, rfl⟩ := trimContent_eq_some.mp trim
  rw [isExact _ _ _ encoded]
  congr 1
  rw [numTokensFromString, encoded]
  rfl

theorem isSome_trimContent {content : String} {limit : Nat} :
    (trimContent encoder content limit).isSome = (encoder.encode content).isSome := by
  rw [trimContent, Option.isSome_map]

theorem numTokens_of_none {content : String} (raises : encoder.encode content = none) :
    numTokensFromString encoder content = 0 := by
  rw [numTokensFromString, raises]
  rfl

@[simp] theorem setContent_role (heap : Heap length) (index other : Fin length)
    (content : String) : (setContent heap index content other).role = (heap other).role := by
  unfold setContent
  by_cases same : other = index
  · subst same; simp
  · simp [same]

@[simp] theorem setContent_self (heap : Heap length) (index : Fin length) (content : String) :
    (setContent heap index content index).content = content := by
  simp [setContent]

theorem setContent_of_ne {heap : Heap length} {index other : Fin length} (differs : other ≠ index)
    (content : String) : setContent heap index content other = heap other := by
  simp [setContent, differs]

theorem count_eq (heap : Heap length) (msg : List (Fin length)) (first last : Fin length) :
    count encoder heap msg = msg.count first * tokens encoder heap first +
      (if last = first then 0 else msg.count last * tokens encoder heap last) +
      count encoder heap (msg.filter fun index => index ≠ first ∧ index ≠ last) := by
  unfold count
  induction msg with
  | nil => simp
  | cons index msg ih =>
    rw [List.map_cons, List.sum_cons, ih]
    by_cases isFirst : index = first
    · subst isFirst
      by_cases same : last = index
      · simp [same, Nat.add_mul]
        omega
      · simp [same, Nat.add_mul, Ne.symm same]
        omega
    · by_cases isLast : index = last
      · subst isLast
        simp [isFirst, Nat.add_mul]
        omega
      · by_cases same : last = first
        · subst same
          simp [isLast]
          omega
        · simp [isFirst, isLast, same]
          omega

section Preserved

variable {messages : List Message}

theorem finRange_ne_nil (several : 1 < messages.length) : List.finRange messages.length ≠ [] := by
  intro empty
  have lengths := congrArg List.length empty
  simp only [List.length_finRange, List.length_nil] at lengths
  omega

theorem getLast?_preserved (nonempty : preserved messages ≠ []) :
    (preserved messages).getLast?.map messages.get = messages.getLast? := by
  have all : (List.finRange messages.length).map messages.get = messages :=
    List.map_get_finRange messages
  by_cases several : 1 < messages.length
  · have isLast := List.getLast?_eq_some_getLast (finRange_ne_nil several)
    have ends : (preserved messages).getLast? = (List.finRange messages.length).getLast? := by
      rw [preserved, if_pos several, isLast, Option.toList_some, List.getLast?_concat]
    rw [ends, ← List.getLast?_map, all]
  · rw [preserved, if_neg several, List.append_nil] at nonempty ⊢
    match messages, several, nonempty with
    | [], _, nonempty => exact absurd rfl nonempty
    | [message], _, nonempty =>
      have kept : ((List.finRange [message].length).filter
          fun index => ([message].get index).role = "system") = [0] := by
        by_cases isSystem : message.role = "system"
        · simp [List.finRange_succ, isSystem]
        · exact absurd (by simp [List.finRange_succ, isSystem]) nonempty
      rw [kept]
      rfl
    | _ :: _ :: _, several, _ => exact absurd (by simp) several

theorem preserved_cases (several : 1 < (preserved messages).length) :
    ∃ (first last : Fin messages.length) (others : List (Fin messages.length)),
      preserved messages = first :: others ++ [last] ∧ (first :: others).Pairwise (· < ·) ∧
        ∀ index, index ≤ last := by
  have sorted := (List.pairwise_lt_finRange messages.length).filter
    fun index => (messages.get index).role = "system"
  by_cases more : 1 < messages.length
  · have nonempty := finRange_ne_nil more
    have ends := List.getLast?_eq_some_getLast nonempty
    rw [preserved, if_pos more, ends, Option.toList_some] at several ⊢
    cases systems : (List.finRange messages.length).filter
        fun index => (messages.get index).role = "system" with
    | nil =>
      rw [systems] at several
      exact absurd several (by simp)
    | cons first others =>
      rw [systems] at sorted
      refine ⟨first, _, others, rfl, sorted, fun index => ?_⟩
      have ordered := List.pairwise_le_finRange messages.length
      rw [← List.dropLast_append_getLast nonempty, List.pairwise_append] at ordered
      have isMem : index ∈ List.finRange messages.length := List.mem_finRange index
      rw [← List.dropLast_append_getLast nonempty, List.mem_append, List.mem_singleton] at isMem
      rcases isMem with earlier | rfl
      · exact ordered.2.2 index earlier _ (List.mem_singleton_self _)
      · exact le_rfl
  · rw [preserved, if_neg more, List.append_nil] at several
    have fewer := List.length_filter_le (fun index => (messages.get index).role = "system")
      (List.finRange messages.length)
    rw [List.length_finRange] at fewer
    omega

theorem count_preserved {first last : Fin messages.length} {others : List (Fin messages.length)}
    (sorted : (first :: others).Pairwise (· < ·)) (isLast : ∀ index, index ≤ last) :
    (first = last → others = []) ∧
      (first ≠ last → (first :: others ++ [last]).count first = 1) := by
  have distinct : (first :: others).Nodup := sorted.imp fun less => less.ne
  constructor
  · rintro rfl
    cases others with
    | nil => rfl
    | cons other others =>
      have less := (List.pairwise_cons.mp sorted).1 other List.mem_cons_self
      exact absurd (isLast other) (not_le.mpr less)
  · intro differs
    rw [List.count_append, List.count_eq_one_of_mem distinct List.mem_cons_self,
      List.count_eq_zero_of_not_mem (by simpa using differs)]

end Preserved

section Trimming

variable {heap : Heap length} {msg : List (Fin length)} {first last : Fin length} {maxLength : Nat}

def limits (maxLength ll ll2 : Nat) : Nat × Nat :=
  if dominates ll ll2 then (maxLength - min ll2 maxLength, min ll2 maxLength)
  else (min ll maxLength, maxLength - min ll maxLength)

/-- What the limits leave of so many tokens, the last message being listed `times` times. -/
def left (maxLength ll ll2 times others : Nat) : Nat :=
  min (limits maxLength ll ll2).1 ll + times * min (limits maxLength ll ll2).2 ll2 + others

theorem left_le {maxLength ll ll2 times others : Nat}
    (shareable : ll + times * ll2 + others ≤ maxLength ∨ others = 0 ∧ (times = 1 ∨ ll2 = 0 ∨
      dominates ll ll2 = false ∧ maxLength ≤ ll)) :
    left maxLength ll ll2 times others ≤ maxLength := by
  unfold left limits
  rcases shareable with fits | ⟨rfl, rfl | rfl | ⟨notDominant, long⟩⟩
  · have fewer := Nat.mul_le_mul_left times (min_le_right (limits maxLength ll ll2).2 ll2)
    unfold limits at fewer
    omega
  · split_ifs <;> omega
  · simp only [Nat.min_zero, Nat.mul_zero]
    split_ifs <;> omega
  · rw [notDominant, min_eq_right long, Nat.sub_self]
    simp

theorem shareable_of_left_le {maxLength ll ll2 times others : Nat} (positive : 1 ≤ maxLength)
    (listed : 1 ≤ times)
    (few : left maxLength ll ll2 times others ≤ maxLength) :
    ll + times * ll2 + others ≤ maxLength ∨ others = 0 ∧ (times = 1 ∨ ll2 = 0 ∨
      dominates ll ll2 = false ∧ maxLength ≤ ll) := by
  obtain ⟨more, rfl⟩ := Nat.exists_eq_add_of_le listed
  unfold left limits at few
  rw [Nat.add_mul, Nat.one_mul]
  rw [Nat.add_mul, Nat.one_mul] at few
  rcases Nat.eq_zero_or_pos more with rfl | again
  · -- Listed once: the limit is used up, or nothing is cut.
    split_ifs at few <;> omega
  · cases dominant : dominates ll ll2 with
    | true =>
      simp only [dominant, if_true] at few
      by_cases cut : maxLength ≤ ll + min ll2 maxLength
      · have none : more * min (min ll2 maxLength) ll2 = 0 := by omega
        rcases Nat.mul_eq_zero.mp none with zero | zero
        · omega
        · exact .inr ⟨by omega, .inr (.inl (by omega))⟩
      · have whole : min (min ll2 maxLength) ll2 = ll2 := by omega
        rw [whole] at few
        exact .inl (by omega)
    | false =>
      simp only [dominant, Bool.false_eq_true, if_false] at few
      by_cases long : maxLength ≤ ll
      · exact .inr ⟨by omega, .inr (.inr ⟨rfl, long⟩)⟩
      · by_cases cut : ll2 ≤ maxLength - ll
        · have whole : min (maxLength - min ll maxLength) ll2 = ll2 := by omega
          rw [whole] at few
          exact .inl (by omega)
        · have rest : 1 * (maxLength - ll) ≤ more * (maxLength - ll) :=
            Nat.mul_le_mul_right _ again
          have cutTo : min (maxLength - min ll maxLength) ll2 = maxLength - ll := by omega
          rw [cutTo] at few
          omega

structure Trimmed (encoder : Encoder Token) (heap after : Heap length) (first last : Fin length)
    (limit : Nat × Nat) : Prop where
  role : ∀ index, (after index).role = (heap index).role
  trimFirst : trimContent encoder (heap first).content limit.1 = some (after first).content
  trimLast : trimContent encoder (heap last).content limit.2 = some (after last).content
  others : ∀ index, index ≠ first → index ≠ last → after index = heap index

theorem Trimmed.tokenPrefix {after : Heap length} {limit : Nat × Nat}
    (trimmed : Trimmed encoder heap after first last limit) (index : Fin length) :
    TokenPrefix encoder (after index).content (heap index).content := by
  by_cases isFirst : index = first
  · exact isFirst ▸ tokenPrefix_trimContent trimmed.trimFirst
  · by_cases isLast : index = last
    · exact isLast ▸ tokenPrefix_trimContent trimmed.trimLast
    · rw [trimmed.others index isFirst isLast]
      exact .inl rfl

theorem trimPreserved_of_ne (differs : first ≠ last) (several : msg.length ≠ 1)
    (some_tokens : tokens encoder heap first + tokens encoder heap last ≠ 0) :
    (trimPreserved encoder heap msg first last maxLength = none ∧
      ((encoder.encode (heap first).content).isSome = false ∨
        (encoder.encode (heap last).content).isSome = false)) ∨
    ∃ after, trimPreserved encoder heap msg first last maxLength =
        some (count encoder after msg, after, msg) ∧
      Trimmed encoder heap after first last
        (limits maxLength (tokens encoder heap first) (tokens encoder heap last)) := by
  rw [trimPreserved, if_neg some_tokens, if_neg several, limits]
  split_ifs
  · cases trimLast : trimContent encoder (heap last).content
      (min (tokens encoder heap last) maxLength) with
    | none =>
      refine .inl ⟨by simp [trimLast], .inr ?_⟩
      rw [← isSome_trimContent, trimLast, Option.isSome_none]
    | some newLast =>
      cases trimFirst : trimContent encoder (heap first).content
        (maxLength - min (tokens encoder heap last) maxLength) with
      | none =>
        refine .inl ⟨?_, .inl ?_⟩
        · simp [setContent_of_ne differs, trimFirst, trimLast]
        · rw [← isSome_trimContent, trimFirst, Option.isSome_none]
      | some newFirst =>
        refine .inr ⟨setContent (setContent heap last newLast) first newFirst, ?_, ?_⟩
        · simp [setContent_of_ne differs, trimFirst, trimLast]
        · refine ⟨by simp, by simpa using trimFirst, ?_, fun index notFirst notLast => ?_⟩
          · rw [setContent_of_ne (Ne.symm differs), setContent_self, trimLast]
          · rw [setContent_of_ne notFirst, setContent_of_ne notLast]
  · cases trimFirst : trimContent encoder (heap first).content
      (min (tokens encoder heap first) maxLength) with
    | none =>
      refine .inl ⟨by simp [trimFirst], .inl ?_⟩
      rw [← isSome_trimContent, trimFirst, Option.isSome_none]
    | some newFirst =>
      cases trimLast : trimContent encoder (heap last).content
        (maxLength - min (tokens encoder heap first) maxLength) with
      | none =>
        refine .inl ⟨?_, .inr ?_⟩
        · simp [setContent_of_ne (Ne.symm differs), trimFirst, trimLast]
        · rw [← isSome_trimContent, trimLast, Option.isSome_none]
      | some newLast =>
        refine .inr ⟨setContent (setContent heap first newFirst) last newLast, ?_, ?_⟩
        · simp [setContent_of_ne (Ne.symm differs), trimFirst, trimLast]
        · refine ⟨by simp, ?_, by simpa using trimLast, fun index notFirst notLast => ?_⟩
          · rw [setContent_of_ne differs, setContent_self, trimFirst]
          · rw [setContent_of_ne notLast, setContent_of_ne notFirst]

/-- The same message is first and last: it is trimmed twice. -/
theorem trimPreserved_twice (lawful : Lawful encoder)
    (long : maxLength ≤ count encoder heap [last, last]) (positive : 1 ≤ maxLength) :
    ∃ after, trimPreserved encoder heap [last, last] last last maxLength =
        some (count encoder after [last, last], after, [last, last]) ∧
      count encoder after [last, last] ≤ maxLength ∧
      (∀ index, (after index).role = (heap index).role) ∧
      (∀ index, index ≠ last → after index = heap index) ∧
      TokenPrefix encoder (after last).content (heap last).content := by
  have twice : ∀ heap : Heap length,
      count encoder heap [last, last] = 2 * tokens encoder heap last := by
    intro heap
    simp [count]
    omega
  rw [twice] at long
  cases encoded : encoder.encode (heap last).content with
  | none =>
    have nothing : tokens encoder heap last = 0 := numTokens_of_none encoded
    omega
  | some all =>
    have size : tokens encoder heap last = all.length := by
      rw [tokens, numTokensFromString, encoded]
      rfl
    rw [size] at long
    have half : dominates all.length all.length = false := by
      simp only [dominates, decide_eq_false_iff_not]
      omega
    have trimFirst (limit : Nat) : trimContent encoder (heap last).content limit =
        some (encoder.decode (all.take limit)) := trimContent_eq_some.mpr ⟨all, encoded, rfl⟩
    obtain ⟨again, encodedAgain⟩ := Option.isSome_iff_exists.mp
      (lawful.encodes _ _ (min all.length maxLength) encoded)
    have trimAgain (limit : Nat) :
        trimContent encoder (encoder.decode (all.take (min all.length maxLength))) limit =
          some (encoder.decode (again.take limit)) :=
      trimContent_eq_some.mpr ⟨again, encodedAgain, rfl⟩
    refine ⟨setContent
      (setContent heap last (encoder.decode (all.take (min all.length maxLength)))) last
      (encoder.decode (again.take (maxLength - min all.length maxLength))), ?_, ?_, by simp,
      fun index differs => by rw [setContent_of_ne differs, setContent_of_ne differs], ?_⟩
    · rw [trimPreserved, if_neg (by omega), if_neg (by simp), size, half]
      simp [trimFirst, trimAgain]
    · have few := lawful.shorter _ _ (maxLength - min all.length maxLength) encodedAgain
      rw [twice, tokens, setContent_self]
      omega
    · rw [setContent_self]
      by_cases fits : all.length ≤ maxLength
      · -- The first cut takes nothing away.
        rw [min_eq_left fits, List.take_length, lawful.lossless _ _ encoded, encoded]
          at encodedAgain
        obtain rfl := Option.some.inj encodedAgain
        exact .inr ⟨all, _, encoded, rfl⟩
      · rw [min_eq_right (by omega), Nat.sub_self, List.take_zero]
        exact .inr ⟨all, 0, encoded, by rw [List.take_zero]⟩

end Trimming

section Fitting

variable (encoder) (messages : List Message) (maxLength : Nat)

/-- The messages that are returned are within the limit, end with the role of the last message,
and are made of the first tokens of the messages in their places. -/
def Fits : Prop :=
  ∃ counted heap msg, messageFitIn encoder messages maxLength = some (counted, heap, msg) ∧
    msg ≠ [] ∧ count encoder heap msg ≤ maxLength ∧
    (msg.getLast?.map fun index => (heap index).role) = messages.getLast?.map Message.role ∧
    ∀ index ∈ msg, (heap index).role = (messages.get index).role ∧
      TokenPrefix encoder (heap index).content (messages.get index).content

/-- Besides the first and the last preserved message, none has a token, and the last one is not
cut a second time with the limit still to be shared out. -/
structure Shareable (first last : Fin messages.length) : Prop where
  others : count encoder messages.get
    ((preserved messages).filter fun index => index ≠ first ∧ index ≠ last) = 0
  once : first = last ∨ (preserved messages).count last = 1 ∨
    tokens encoder messages.get last = 0 ∨
      dominates (tokens encoder messages.get first) (tokens encoder messages.get last) = false ∧
        maxLength ≤ tokens encoder messages.get first

/-- The preserved messages can be trimmed down to the limit. -/
def Trimmable (first last : Fin messages.length) : Prop :=
  (tokens encoder messages.get first + tokens encoder messages.get last = 0 ∧
    count encoder messages.get (preserved messages) ≤ maxLength) ∨
  ((encoder.encode (messages.get first).content).isSome ∧
    (encoder.encode (messages.get last).content).isSome ∧
    (count encoder messages.get (preserved messages) ≤ maxLength ∨
      Shareable encoder messages maxLength first last))

/-- The conversation is short enough, or some message is preserved and all that are are short
enough, or just one is preserved, or the first and the last of them can be trimmed. -/
def Manageable : Prop :=
  count encoder messages.get (List.finRange messages.length) < maxLength ∨
  (preserved messages ≠ [] ∧ count encoder messages.get (preserved messages) < maxLength) ∨
  (preserved messages).length = 1 ∨
  ∃ first ∈ (preserved messages).head?, ∃ last ∈ (preserved messages).getLast?,
    Trimmable encoder messages maxLength first last

variable {encoder} {messages} {maxLength}

theorem fits_of_result {heap : Heap messages.length} {msg : List (Fin messages.length)}
    {counted : Nat} (result : messageFitIn encoder messages maxLength = some (counted, heap, msg))
    (nonempty : msg ≠ []) (few : count encoder heap msg ≤ maxLength)
    (isLast : msg.getLast?.map messages.get = messages.getLast?)
    (same : ∀ index, (heap index).role = (messages.get index).role)
    (made : ∀ index ∈ msg, TokenPrefix encoder (heap index).content (messages.get index).content) :
    Fits encoder messages maxLength := by
  refine ⟨counted, heap, msg, result, nonempty, few, ?_, fun index isMem =>
    ⟨same index, made index isMem⟩⟩
  rw [← isLast, Option.map_map]
  exact Option.map_congr fun index _ => same index

theorem count_trimmed {heap after : Heap length} {msg : List (Fin length)} {first last : Fin length}
    (trimmed : Trimmed encoder heap after first last
      (limits maxLength (tokens encoder heap first) (tokens encoder heap last)))
    (differs : first ≠ last) (once : msg.count first = 1) :
    count encoder after msg =
      tokens encoder after first + msg.count last * tokens encoder after last +
      count encoder heap (msg.filter fun index => index ≠ first ∧ index ≠ last) := by
  rw [count_eq after msg first last, once, Nat.one_mul, if_neg (Ne.symm differs)]
  congr 1
  unfold count
  congr 1
  apply List.map_congr_left
  intro index isMem
  have other := of_decide_eq_true (List.mem_filter.mp isMem).2
  rw [tokens, tokens, trimmed.others index other.1 other.2]

theorem fits_of_several (lawful : Lawful encoder) (positive : 1 ≤ maxLength)
    (all_long : maxLength ≤ count encoder messages.get (List.finRange messages.length))
    (long : maxLength ≤ count encoder messages.get (preserved messages))
    (several : 1 < (preserved messages).length) :
    ((∃ first ∈ (preserved messages).head?, ∃ last ∈ (preserved messages).getLast?,
      Trimmable encoder messages maxLength first last) → Fits encoder messages maxLength) ∧
    (Exact encoder → Fits encoder messages maxLength →
      ∃ first ∈ (preserved messages).head?, ∃ last ∈ (preserved messages).getLast?,
        Trimmable encoder messages maxLength first last) := by
  obtain ⟨first, last, others, isPreserved, sorted, isLast⟩ := preserved_cases several
  obtain ⟨same, once⟩ := count_preserved sorted isLast
  have head : (preserved messages).head? = some first := by rw [isPreserved]; rfl
  have ends : (preserved messages).getLast? = some last := by
    rw [isPreserved, List.getLast?_concat]
  have nonempty : preserved messages ≠ [] := List.ne_nil_of_length_pos (by omega)
  have result : messageFitIn encoder messages maxLength =
      trimPreserved encoder messages.get (preserved messages) first last maxLength := by
    rw [messageFitIn]
    simp only [if_neg (Nat.not_lt.mpr all_long), if_neg (Nat.not_lt.mpr long), head, ends]
  have onlyOne : ∀ {holds : Fin messages.length → Fin messages.length → Prop},
      (∃ first ∈ (preserved messages).head?, ∃ last ∈ (preserved messages).getLast?,
        holds first last) ↔ holds first last := by
    intro holds
    simp [head, ends]
  rw [onlyOne]
  by_cases differs : first = last
  · -- The last message is the only system message.
    subst differs
    obtain rfl := same rfl
    have pair : preserved messages = [first, first] := isPreserved
    rw [pair] at long result ends
    obtain ⟨after, trimmed, few, roles, kept, made⟩ := trimPreserved_twice lawful long positive
    have lastIs := getLast?_preserved nonempty
    rw [pair] at lastIs
    have fits : Fits encoder messages maxLength := by
      apply fits_of_result (result.trans trimmed) (by simp) few lastIs roles
      intro index isMem
      obtain rfl : index = first := by simpa using isMem
      exact made
    have counted : 0 < tokens encoder messages.get first := by
      simp only [count, List.map_cons, List.map_nil, List.sum_cons, List.sum_nil] at long
      omega
    have encodable : (encoder.encode (messages.get first).content).isSome := by
      rw [Option.isSome_iff_ne_none]
      exact fun raises => absurd (numTokens_of_none raises) (Nat.ne_of_gt counted)
    have shareable : Shareable encoder messages maxLength first first := by
      refine ⟨?_, .inl rfl⟩
      rw [pair]
      simp [count]
    exact ⟨fun _ => fits, fun _ _ => .inr ⟨encodable, encodable, .inr shareable⟩⟩
  · have once := isPreserved ▸ once differs
    have counted := @count_eq _ encoder _ messages.get (preserved messages) first last
    rw [once, Nat.one_mul, if_neg (Ne.symm differs)] at counted
    have listed : 1 ≤ (preserved messages).count last :=
      List.one_le_count_iff.mpr (List.mem_of_getLast? ends)
    by_cases silent : tokens encoder messages.get first + tokens encoder messages.get last = 0
    · have returned := result
      rw [trimPreserved, if_pos silent] at returned
      obtain ⟨firstSilent, lastSilent⟩ := Nat.add_eq_zero_iff.mp silent
      constructor
      · intro trimmable
        have few : count encoder messages.get (preserved messages) ≤ maxLength := by
          rcases trimmable with ⟨-, few⟩ | ⟨-, -, few | shareable⟩
          · exact few
          · exact few
          · rw [counted, shareable.others, firstSilent, lastSilent]
            exact Nat.zero_le _
        exact fits_of_result returned nonempty few (getLast?_preserved nonempty) (fun _ => rfl)
          fun _ _ => .inl rfl
      · rintro - ⟨_, heap, msg, same, -, few, -⟩
        rw [returned] at same
        obtain ⟨-, rfl, rfl⟩ : _ ∧ messages.get = heap ∧ preserved messages = msg := by
          simpa using same
        exact .inl ⟨silent, few⟩
    · have several : (preserved messages).length ≠ 1 := by omega
      rcases @trimPreserved_of_ne _ _ _ _ _ _ _ maxLength differs several silent with
        ⟨raised, raises⟩ | ⟨after, returned, trimmed⟩
      · constructor
        · rintro (⟨none, -⟩ | ⟨encodesFirst, encodesLast, -⟩)
          · exact absurd none silent
          · rcases raises with raises | raises
            · exact absurd encodesFirst (Bool.eq_false_iff.mp raises)
            · exact absurd encodesLast (Bool.eq_false_iff.mp raises)
        · rintro - ⟨_, _, _, same, -⟩
          rw [result, raised] at same
          cases same
      · have encodesFirst := Option.isSome_of_eq_some trimmed.trimFirst
        have encodesLast := Option.isSome_of_eq_some trimmed.trimLast
        rw [isSome_trimContent] at encodesFirst encodesLast
        have after_eq := count_trimmed trimmed differs once
        constructor
        · intro trimmable
          have share : count encoder messages.get (preserved messages) ≤ maxLength ∨
              Shareable encoder messages maxLength first last :=
            (trimmable.resolve_left fun none => silent none.1).2.2
          refine fits_of_result (result.trans returned) nonempty ?_ (getLast?_preserved nonempty)
            trimmed.role fun index isMem => trimmed.tokenPrefix index
          refine le_trans ?_ (left_le (share.imp (fun few => counted ▸ few) fun shareable =>
            ⟨shareable.others, shareable.once.resolve_left differs⟩))
          rw [after_eq, left]
          have first_le := tokens_trimContent lawful trimmed.trimFirst
          have last_le := tokens_trimContent lawful trimmed.trimLast
          exact Nat.add_le_add_right
            (Nat.add_le_add first_le (Nat.mul_le_mul_left _ last_le)) _
        · rintro isExact ⟨_, heap, msg, same, -, few, -⟩
          rw [result, returned] at same
          obtain ⟨-, rfl, rfl⟩ : _ ∧ after = heap ∧ preserved messages = msg := by
            simpa using same
          have firstLeft : tokens encoder after first = min _ (tokens encoder messages.get first) :=
            tokens_trimContent_of_exact isExact trimmed.trimFirst
          have lastLeft : tokens encoder after last = min _ (tokens encoder messages.get last) :=
            tokens_trimContent_of_exact isExact trimmed.trimLast
          rw [after_eq, firstLeft, lastLeft] at few
          have share := shareable_of_left_le positive listed few
          refine .inr ⟨encodesFirst, encodesLast, share.imp (fun fits => ?_) fun shareable =>
            ⟨shareable.1, .inr shareable.2⟩⟩
          rw [counted]
          exact fits

theorem fits_of_single (lawful : Lawful encoder) (positive : 1 ≤ maxLength)
    (all_long : maxLength ≤ count encoder messages.get (List.finRange messages.length))
    (long : maxLength ≤ count encoder messages.get (preserved messages))
    (single : (preserved messages).length = 1) : Fits encoder messages maxLength := by
  obtain ⟨index, isPreserved⟩ := List.length_eq_one_iff.mp single
  have nonempty : preserved messages ≠ [] := by simp [isPreserved]
  have lastIs := getLast?_preserved nonempty
  rw [isPreserved] at long lastIs
  have alone : ∀ heap : Heap messages.length,
      count encoder heap [index] = tokens encoder heap index := by
    intro heap
    simp [count]
  rw [alone] at long
  have encodable : (encoder.encode (messages.get index).content).isSome := by
    rw [Option.isSome_iff_ne_none]
    intro raises
    have nothing : tokens encoder messages.get index = 0 := numTokens_of_none raises
    omega
  rw [← @isSome_trimContent _ _ _ maxLength] at encodable
  obtain ⟨content, trimmed⟩ := Option.isSome_iff_exists.mp encodable
  have result : messageFitIn encoder messages maxLength =
      some (count encoder (setContent messages.get index content) [index],
        setContent messages.get index content, [index]) := by
    rw [messageFitIn]
    simp only [if_neg (Nat.not_lt.mpr all_long), isPreserved, alone, if_neg (Nat.not_lt.mpr long),
      List.head?_cons, List.getLast?_singleton]
    rw [trimPreserved, if_neg (by omega), if_pos List.length_singleton, trimmed]
    simp [alone]
  refine fits_of_result result (by simp) ?_ lastIs (by simp) fun other isMem => ?_
  · rw [alone, tokens, setContent_self]
    exact (tokens_trimContent lawful trimmed).trans (min_le_left _ _)
  · rw [List.mem_singleton.mp isMem, setContent_self]
    exact tokenPrefix_trimContent trimmed

/-- The messages fit if they are manageable, and only then if the text of the first tokens always
has just these. -/
theorem fits_iff_manageable (lawful : Lawful encoder) (nonempty : messages ≠ [])
    (positive : 1 ≤ maxLength) :
    (Manageable encoder messages maxLength → Fits encoder messages maxLength) ∧
      (Exact encoder → Fits encoder messages maxLength →
        Manageable encoder messages maxLength) := by
  have all : (List.finRange messages.length).map messages.get = messages :=
    List.map_get_finRange messages
  by_cases all_short : count encoder messages.get (List.finRange messages.length) < maxLength
  · refine ⟨fun _ => ?_, fun _ _ => .inl all_short⟩
    refine fits_of_result (if_pos all_short) (fun empty => nonempty ?_) all_short.le ?_
      (fun _ => rfl) fun _ _ => .inl rfl
    · rw [← all, empty, List.map_nil]
    · rw [← List.getLast?_map, all]
  · by_cases short : count encoder messages.get (preserved messages) < maxLength
    · have result : messageFitIn encoder messages maxLength =
          some (count encoder messages.get (preserved messages), messages.get,
            preserved messages) := by
        rw [messageFitIn]
        simp only [if_neg all_short, if_pos short]
      constructor
      · intro manageable
        have kept : preserved messages ≠ [] := by
          rintro empty
          rcases manageable with short | ⟨kept, -⟩ | single | ⟨_, isFirst, -⟩
          · exact all_short short
          · exact kept empty
          · simp [empty] at single
          · simp [empty] at isFirst
        exact fits_of_result result kept short.le (getLast?_preserved kept) (fun _ => rfl)
          fun _ _ => .inl rfl
      · rintro - ⟨_, heap, msg, same, kept, -⟩
        rw [result] at same
        obtain ⟨-, -, rfl⟩ : _ ∧ messages.get = heap ∧ preserved messages = msg := by
          simpa using same
        exact .inr (.inl ⟨kept, short⟩)
    · have all_long := Nat.not_lt.mp all_short
      have long := Nat.not_lt.mp short
      by_cases single : (preserved messages).length = 1
      · exact ⟨fun _ => fits_of_single lawful positive all_long long single,
          fun _ _ => .inr (.inr (.inl single))⟩
      · have several : 1 < (preserved messages).length := by
          have some_kept : (preserved messages).length ≠ 0 := by
            intro empty
            rw [List.length_eq_zero_iff] at empty
            rw [empty] at long
            simp only [count, List.map_nil, List.sum_nil] at long
            omega
          omega
        obtain ⟨sufficient, necessary⟩ := fits_of_several lawful positive all_long long several
        refine ⟨fun manageable => sufficient ?_, fun isExact fits =>
          .inr (.inr (.inr (necessary isExact fits)))⟩
        rcases manageable with short' | ⟨-, short'⟩ | single' | trimmable
        · exact absurd short' all_short
        · exact absurd short' short
        · exact absurd single' single
        · exact trimmable

end Fitting

def specialToken : List Char := "<|endoftext|>".toList

def byCharacter : Encoder Char where
  encode text := if specialToken <:+: text.toList then none else some text.toList
  decode := String.ofList

theorem encode_eq_some {text : String} {tokens : List Char} :
    byCharacter.encode text = some tokens ↔
      ¬ specialToken <:+: text.toList ∧ text.toList = tokens := by
  simp only [byCharacter]
  split_ifs with special
  · simp [special]
  · simp [special]

theorem byCharacter_lawful : Lawful byCharacter := by
  have cut : ∀ text tokens limit, byCharacter.encode text = some tokens →
      byCharacter.encode (byCharacter.decode (tokens.take limit)) = some (tokens.take limit) := by
    intro text tokens limit encoded
    obtain ⟨ordinary, rfl⟩ := encode_eq_some.mp encoded
    refine encode_eq_some.mpr ⟨fun special => ordinary ?_, String.toList_ofList⟩
    rw [byCharacter, String.toList_ofList] at special
    exact special.trans (List.take_prefix _ _).isInfix
  constructor
  · intro text tokens encoded
    rw [← (encode_eq_some.mp encoded).2]
    exact String.ofList_toList
  · intro text tokens limit encoded
    rw [cut text tokens limit encoded]
    rfl
  · intro text tokens limit encoded
    rw [numTokensFromString, cut text tokens limit encoded]
    exact List.length_take_le limit tokens

theorem fits_systemAndUser : Fits byCharacter [⟨"system", "a"⟩, ⟨"user", "b"⟩] 1 := by
  refine (fits_iff_manageable byCharacter_lawful (by simp) le_rfl).1 (.inr (.inr (.inr ?_)))
  refine ⟨0, by decide, 1, by decide, .inr ⟨by decide, by decide, .inr ⟨by decide, ?_⟩⟩⟩
  exact .inr (.inl (by decide))

/-- A user message alone is dropped, further system messages are not cut, and a special token in
the shorter message raises an error. -/
theorem not_fits_userAlone : ¬ Fits byCharacter [⟨"user", "a"⟩] 1 ∧
    ¬ Fits byCharacter [⟨"system", "a"⟩, ⟨"system", "b"⟩, ⟨"user", "c"⟩] 2 ∧
    ¬ Fits byCharacter [⟨"system", "<|endoftext|>"⟩, ⟨"user", "a"⟩] 1 := by
  refine ⟨?_, ?_, ?_⟩
  · rintro ⟨_, _, msg, result, nonempty, -⟩
    have same : (messageFitIn byCharacter [⟨"user", "a"⟩] 1).map (fun result => result.2.2) =
        some [] := by decide
    rw [result] at same
    exact nonempty (Option.some.inj same)
  · rintro ⟨_, heap, msg, result, -, few, -⟩
    have same : (messageFitIn byCharacter [⟨"system", "a"⟩, ⟨"system", "b"⟩, ⟨"user", "c"⟩] 2).map
        (fun result => count byCharacter result.2.1 result.2.2) = some 3 := by decide
    rw [result, Option.map_some] at same
    exact absurd (Option.some.inj same ▸ few) (by decide)
  · rintro ⟨_, _, _, result, -⟩
    have same : (messageFitIn byCharacter
        [⟨"system", "<|endoftext|>"⟩, ⟨"user", "a"⟩] 1).isNone := by decide
    rw [result] at same
    exact absurd same (by simp)

end RagFlow.Prompts
