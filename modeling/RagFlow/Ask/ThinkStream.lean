import Mathlib.Data.List.Chain
import Mathlib.Data.List.Nodup
import RagFlow.Ask.ThinkTag

/-!
# A response in one piece and in chunks

The tags split a response into segments, outside and inside of thinking in turn.  As long as no
chunk begins with its predecessor and no tag is cut between two chunks, streaming shows the
segments outside of thinking.
-/

namespace RagFlow.Ask

open RagFlow.Lib

universe u v

variable {Symbol : Type u}

inductive Segments (Symbol : Type u) where
  | last (segment : List Symbol)
  | next (segment : List Symbol) (rest : Segments Symbol)

namespace Segments

def visible (inThink : Bool) : Segments Symbol → List Symbol
  | last segment => if inThink then [] else segment
  | next segment rest => (if inThink then [] else segment) ++ visible (!inThink) rest

def thinking (inThink : Bool) (segments : Segments Symbol) : List Symbol :=
  visible (!inThink) segments

def endsInThink (inThink : Bool) : Segments Symbol → Bool
  | last _ => inThink
  | next _ rest => endsInThink (!inThink) rest

def lastSegment : Segments Symbol → List Symbol
  | last segment => segment
  | next _ rest => lastSegment rest

def text : Segments Symbol → List Symbol
  | last segment => segment
  | next segment rest => segment ++ text rest

def glue : Segments Symbol → Segments Symbol → Segments Symbol
  | last segment, last other => last (segment ++ other)
  | last segment, next other rest => next (segment ++ other) rest
  | next segment rest, others => next segment (glue rest others)

def map {Other : Type v} (project : Symbol → Other) : Segments Symbol → Segments Other
  | last segment => last (segment.map project)
  | next segment rest => next (segment.map project) (map project rest)

theorem endsInThink_map {Other : Type v} (project : Symbol → Other) (segments : Segments Symbol)
    (inThink : Bool) : (segments.map project).endsInThink inThink = segments.endsInThink inThink := by
  induction segments generalizing inThink with
  | last segment => rfl
  | next segment rest ih => exact ih (!inThink)

theorem visible_glue (segments others : Segments Symbol) (inThink : Bool) :
    (segments.glue others).visible inThink =
      segments.visible inThink ++ others.visible (segments.endsInThink inThink) := by
  induction segments generalizing inThink with
  | last segment =>
    cases others <;> cases inThink <;> simp [glue, visible, endsInThink]
  | next segment rest ih =>
    rw [glue, visible, visible, ih, List.append_assoc]
    rfl

theorem endsInThink_glue (segments others : Segments Symbol) (inThink : Bool) :
    (segments.glue others).endsInThink inThink =
      others.endsInThink (segments.endsInThink inThink) := by
  induction segments generalizing inThink with
  | last segment => cases others <;> rfl
  | next segment rest ih => exact ih (!inThink)

theorem visible_append_thinking_perm (segments : Segments Symbol) (inThink : Bool) :
    (segments.visible inThink ++ segments.thinking inThink).Perm segments.text := by
  unfold thinking
  induction segments generalizing inThink with
  | last segment => cases inThink <;> simp [visible, text]
  | next segment rest ih =>
    have later := ih (!inThink)
    cases inThink with
    | false =>
      simp only [visible, text, Bool.not_false, Bool.not_true, Bool.false_eq_true, if_false,
        if_true, List.nil_append, List.append_assoc] at later ⊢
      exact later.append_left segment
    | true =>
      simp only [visible, text, Bool.not_false, Bool.not_true, Bool.false_eq_true, if_false,
        if_true, List.nil_append] at later ⊢
      rw [← List.append_assoc]
      apply (List.perm_append_comm.append_right _).trans
      rw [List.append_assoc]
      exact later.append_left segment

theorem visible_sublist (segments : Segments Symbol) (inThink : Bool) :
    (segments.visible inThink).Sublist segments.text := by
  induction segments generalizing inThink with
  | last segment => cases inThink <;> simp [visible, text]
  | next segment rest ih =>
    refine List.Sublist.append ?_ (ih (!inThink))
    split_ifs
    · exact List.nil_sublist segment
    · exact List.Sublist.refl segment

end Segments

def tagOf (inThink : Bool) : List Char := if inThink then thinkClose else thinkOpen

theorem tagOf_ne_nil (inThink : Bool) : tagOf inThink ≠ [] := by
  cases inThink <;> decide

variable (char : Symbol → Char)

def segmentsFrom : Nat → Bool → List Symbol → Segments Symbol
  | 0, _, text => .last text
  | rounds + 1, inThink, text =>
    match GoString.index char (tagOf inThink) text with
    | none => .last text
    | some idx =>
      .next (text.take idx)
        (segmentsFrom rounds (!inThink) (text.drop (idx + (tagOf inThink).length)))

def segments (inThink : Bool) (text : List Symbol) : Segments Symbol :=
  segmentsFrom char text.length inThink text

variable {char}

theorem index_tagOf_le {inThink : Bool} {text : List Symbol} {idx : Nat}
    (found : GoString.index char (tagOf inThink) text = some idx) :
    idx + (tagOf inThink).length ≤ text.length := by
  obtain ⟨before, occurrence, after, rfl, rfl, isTag⟩ := GoString.index_some found
  rw [← isTag, List.length_map, List.length_append, List.length_append]
  exact Nat.le_add_right _ _

theorem index_tagOf_lt {inThink : Bool} {text : List Symbol} {idx : Nat}
    (found : GoString.index char (tagOf inThink) text = some idx) :
    (text.drop (idx + (tagOf inThink).length)).length < text.length := by
  have positive := List.length_pos_iff.mpr (tagOf_ne_nil inThink)
  have inside := index_tagOf_le found
  rw [List.length_drop]
  omega

theorem segmentsFrom_congr {rounds more : Nat} {inThink : Bool} {text : List Symbol}
    (enough : text.length ≤ rounds) (enoughToo : text.length ≤ more) :
    segmentsFrom char rounds inThink text = segmentsFrom char more inThink text := by
  have absent : GoString.index char (tagOf inThink) ([] : List Symbol) = none := by
    simp [GoString.index, tagOf_ne_nil]
  induction rounds generalizing more inThink text with
  | zero =>
    obtain rfl : text = [] := List.length_eq_zero_iff.mp (Nat.le_zero.mp enough)
    cases more <;> simp [segmentsFrom, absent]
  | succ rounds ih =>
    cases more with
    | zero =>
      obtain rfl : text = [] := List.length_eq_zero_iff.mp (Nat.le_zero.mp enoughToo)
      simp [segmentsFrom, absent]
    | succ more =>
      rw [segmentsFrom, segmentsFrom]
      cases found : GoString.index char (tagOf inThink) text with
      | none => rfl
      | some idx =>
        have shorter := index_tagOf_lt found
        dsimp only
        rw [ih (by omega) (by omega : _ ≤ more)]
        simp [GoString.index, tagOf_ne_nil]

theorem segments_of_none {inThink : Bool} {text : List Symbol}
    (absent : GoString.index char (tagOf inThink) text = none) :
    segments char inThink text = .last text := by
  unfold segments
  cases text.length <;> simp [segmentsFrom, absent]

theorem segments_of_some {inThink : Bool} {text : List Symbol} {idx : Nat}
    (found : GoString.index char (tagOf inThink) text = some idx) :
    segments char inThink text = .next (text.take idx)
      (segments char (!inThink) (text.drop (idx + (tagOf inThink).length))) := by
  have shorter := index_tagOf_lt found
  rw [segments, segmentsFrom_congr le_rfl (Nat.le_succ _), segmentsFrom, found]
  dsimp only
  rw [segments, segmentsFrom_congr (by omega) le_rfl]

theorem segments_induction {motive : Bool → List Symbol → Prop}
    (last : ∀ inThink text, GoString.index char (tagOf inThink) text = none → motive inThink text)
    (next : ∀ inThink before tag after,
      GoString.index char (tagOf inThink) (before ++ (tag ++ after)) = some before.length →
      tag.map char = tagOf inThink → motive (!inThink) after →
        motive inThink (before ++ (tag ++ after)))
    (inThink : Bool) (text : List Symbol) : motive inThink text := by
  induction size : text.length using Nat.strongRecOn generalizing inThink text with
  | ind size ih =>
    cases found : GoString.index char (tagOf inThink) text with
    | none => exact last inThink text found
    | some idx =>
      obtain ⟨before, tag, after, rfl, rfl, isTag⟩ := GoString.index_some found
      rw [List.append_assoc] at *
      apply next inThink before tag after found isTag
      have positive : 0 < tag.length := by
        rw [← List.length_map char, isTag]
        exact List.length_pos_iff.mpr (tagOf_ne_nil inThink)
      apply ih after.length _ (!inThink) after rfl
      simp only [List.length_append] at size
      omega

theorem segments_at_tag {inThink : Bool} {before tag after : List Symbol}
    (found : GoString.index char (tagOf inThink) (before ++ (tag ++ after)) = some before.length)
    (isTag : tag.map char = tagOf inThink) :
    segments char inThink (before ++ (tag ++ after)) =
      .next before (segments char (!inThink) after) := by
  have sameLength : tag.length = (tagOf inThink).length := by rw [← isTag, List.length_map]
  rw [segments_of_some found, ← sameLength, List.take_left, ← List.append_assoc,
    ← List.length_append, List.drop_left]

theorem segments_append {inThink : Bool} {text rest : List Symbol}
    (uncut : ¬ GoString.Cut (tagOf ((segments char inThink text).endsInThink inThink))
      (text.map char) (rest.map char)) :
    segments char inThink (text ++ rest) = (segments char inThink text).glue
      (segments char ((segments char inThink text).endsInThink inThink) rest) := by
  induction inThink, text using @segments_induction _ char with
  | last inThink text absent =>
    rw [segments_of_none absent] at uncut ⊢
    have moved := GoString.index_append_of_none absent uncut
    simp only [Segments.endsInThink]
    cases found : GoString.index char (tagOf inThink) rest with
    | none =>
      rw [segments_of_none found, segments_of_none (by rw [moved, found]; rfl)]
      rfl
    | some idx =>
      rw [found] at moved
      rw [segments_of_some found, segments_of_some moved, Segments.glue]
      dsimp only
      rw [Nat.add_comm idx text.length, List.take_length_add_append, Nat.add_assoc,
        List.drop_length_add_append]
  | next inThink before tag after found isTag ih =>
    rw [segments_at_tag found isTag] at uncut ⊢
    have still := @GoString.index_append_of_some _ _ _ _ rest _ found
    rw [List.append_assoc, List.append_assoc] at still ⊢
    rw [segments_at_tag still isTag, ih]
    · rfl
    · intro cut
      apply uncut
      refine cut.mono (List.IsSuffix.map char ?_) List.prefix_rfl
      exact (List.suffix_append tag after).trans (List.suffix_append before _)

theorem segments_nil (inThink : Bool) : segments char inThink [] = .last [] := by
  apply segments_of_none
  simp [GoString.index, tagOf_ne_nil]

theorem segments_map (inThink : Bool) (text : List Symbol) :
    segments id inThink (text.map char) = (segments char inThink text).map char := by
  induction inThink, text using @segments_induction _ char with
  | last inThink text absent =>
    have absentToo : GoString.index id (tagOf inThink) (text.map char) = none :=
      (GoString.index_map (fun symbol => rfl) _ text).trans absent
    rw [segments_of_none absent, segments_of_none absentToo, Segments.map]
  | next inThink before tag after found isTag ih =>
    have foundToo : GoString.index id (tagOf inThink)
        (before.map char ++ (tag.map char ++ after.map char)) =
        some (before.map char).length := by
      rw [← List.map_append, ← List.map_append, List.length_map, ← found]
      exact GoString.index_map (fun symbol => rfl) _ _
    rw [segments_at_tag found isTag, List.map_append, List.map_append,
      segments_at_tag foundToo (by rw [List.map_id, isTag]), ih, Segments.map]

theorem endsInThink_segments_map (inThink : Bool) (text : List Symbol) :
    (segments id inThink (text.map char)).endsInThink inThink =
      (segments char inThink text).endsInThink inThink := by
  rw [segments_map, Segments.endsInThink_map]

def inThinkAfter (text : List Char) : Bool := (segments id false text).endsInThink false

theorem inThinkAfter_append {past text : List Char}
    (uncut : ¬ GoString.Cut (tagOf (inThinkAfter past)) past text) :
    inThinkAfter (past ++ text) =
      (segments id (inThinkAfter past) text).endsInThink (inThinkAfter past) := by
  rw [inThinkAfter, segments_append, Segments.endsInThink_glue]
  · rfl
  · rw [List.map_id, List.map_id]
    exact uncut

/-- No chunk begins with the chunk before it, and no chunk ends within a tag that ends the segment
there. -/
structure Clean (chunks : List (List Char)) : Prop where
  fresh : chunks.IsChain fun previous chunk => previous = [] ∨ ¬ previous <+: chunk
  uncut : ∀ count ∈ List.range chunks.length,
    ¬ GoString.Cut (tagOf (inThinkAfter (chunks.take count).flatten)) (chunks.take count).flatten
      (chunks.drop count).flatten

structure Consumed (char : Symbol → Char) (state : ThinkStreamState Symbol)
    (newPart : List Symbol) (after : ThinkStreamState Symbol) : Prop where
  buffer : after.buffer =
    state.buffer ++ (segments char state.inThink newPart).visible state.inThink
  inThink : after.inThink = (segments char state.inThink newPart).endsInThink state.inThink
  lastIdx : after.lastIdx = state.lastIdx + newPart.length
  fullText : after.fullText = state.fullText
  lastFull : after.lastFull = state.lastFull

theorem Consumed.last {state after : ThinkStreamState Symbol} {newPart : List Symbol}
    (absent : GoString.index char (tagOf state.inThink) newPart = none)
    (buffer : after.buffer = state.buffer ++ if state.inThink then [] else newPart)
    (inThink : after.inThink = state.inThink)
    (lastIdx : after.lastIdx = state.lastIdx + newPart.length)
    (fullText : after.fullText = state.fullText) (lastFull : after.lastFull = state.lastFull) :
    Consumed char state newPart after := by
  constructor
  case buffer => rw [segments_of_none absent, buffer, Segments.visible]
  case inThink => rw [segments_of_none absent, inThink, Segments.endsInThink]
  case lastIdx => exact lastIdx
  case fullText => exact fullText
  case lastFull => exact lastFull

theorem Consumed.next {state between after : ThinkStreamState Symbol} {newPart : List Symbol}
    {idx : Nat} (found : GoString.index char (tagOf state.inThink) newPart = some idx)
    (buffer : between.buffer = state.buffer ++ if state.inThink then [] else newPart.take idx)
    (inThink : between.inThink = !state.inThink)
    (lastIdx : between.lastIdx = state.lastIdx + idx + (tagOf state.inThink).length)
    (fullText : between.fullText = state.fullText) (lastFull : between.lastFull = state.lastFull)
    (consumed : Consumed char between (newPart.drop (idx + (tagOf state.inThink).length)) after) :
    Consumed char state newPart after := by
  have inside := index_tagOf_le found
  constructor
  case buffer =>
    rw [segments_of_some found, consumed.buffer, buffer, inThink, Segments.visible,
      List.append_assoc]
  case inThink => rw [segments_of_some found, consumed.inThink, inThink, Segments.endsInThink]
  case lastIdx =>
    rw [consumed.lastIdx, lastIdx, List.length_drop]
    omega
  case fullText => exact consumed.fullText.trans fullText
  case lastFull => exact consumed.lastFull.trans lastFull

theorem consumed_nil (state : ThinkStreamState Symbol) : Consumed char state [] state := by
  apply Consumed.last <;> simp [GoString.index, tagOf_ne_nil]

theorem splitTags_consumed {rounds : Nat} {state : ThinkStreamState Symbol}
    {newPart : List Symbol} (enough : newPart.length ≤ rounds) :
    Consumed char state newPart (splitTags char rounds state newPart).1 := by
  induction rounds generalizing state newPart with
  | zero =>
    obtain rfl : newPart = [] := List.length_eq_zero_iff.mp (Nat.le_zero.mp enough)
    exact consumed_nil state
  | succ rounds ih =>
    have shorter : ∀ idx, GoString.index char (tagOf state.inThink) newPart = some idx →
        (newPart.drop (idx + (tagOf state.inThink).length)).length ≤ rounds := by
      intro idx found
      have := index_tagOf_lt found
      omega
    unfold splitTags
    split_ifs with empty outside
    · obtain rfl := List.isEmpty_iff.mp empty
      exact consumed_nil state
    · have isOpen : thinkOpen = tagOf state.inThink := by rw [outside]; rfl
      rw [isOpen]
      cases found : GoString.index char (tagOf state.inThink) newPart with
      | none => apply Consumed.last found <;> simp [outside]
      | some idx =>
        apply Consumed.next found _ _ _ _ _ (ih (shorter idx found)) <;>
          simp [outside]
    · have inside : state.inThink = true := by simpa using outside
      have isClose : thinkClose = tagOf state.inThink := by rw [inside]; rfl
      rw [isClose]
      cases found : GoString.index char (tagOf state.inThink) newPart with
      | none => apply Consumed.last found <;> simp [inside]
      | some idx =>
        apply Consumed.next found _ _ _ _ _ (ih (shorter idx found)) <;>
          simp [inside]

def shown (deltas : List (ThinkDelta Symbol)) : List Symbol := deltas.flatMap ThinkDelta.shown

theorem shown_filter_isMarker (deltas : List (ThinkDelta Symbol)) :
    shown (deltas.filter ThinkDelta.isMarker) = [] := by
  induction deltas with
  | nil => rfl
  | cons delta deltas ih =>
    cases delta with
    | text value => exact ih
    | marker value => exact ih

theorem shown_append (deltas others : List (ThinkDelta Symbol)) :
    shown (deltas ++ others) = shown deltas ++ shown others :=
  List.flatMap_append

theorem flushThinkBuffer_spec (state : ThinkStreamState Symbol) :
    shown (flushThinkBuffer state).2 = state.buffer ∧
      (flushThinkBuffer state).1 = { state with buffer := [] } := by
  unfold flushThinkBuffer
  split_ifs with empty
  · obtain ⟨fullText, lastIdx, lastFull, lastModelFull, inThink, buffer, postThinkText⟩ := state
    obtain rfl : buffer = [] := by simpa using empty
    exact ⟨rfl, rfl⟩
  · exact ⟨by simp [shown, ThinkDelta.shown], rfl⟩

theorem nextThinkDelta_consumed {state : ThinkStreamState Symbol} {chunk : List Symbol}
    (upToDate : state.lastIdx = state.fullText.length)
    (fresh : state.lastFull = [] ∨ ¬ state.lastFull.map char <+: chunk.map char) :
    Consumed char { state with
        lastModelFull := chunk
        lastFull := chunk
        fullText := state.fullText ++ chunk } chunk (nextThinkDelta char state chunk).1 := by
  have received : receive char state chunk = { state with
      lastModelFull := chunk
      lastFull := chunk
      fullText := state.fullText ++ chunk } := by
    unfold receive
    split_ifs with first
    · rfl
    · have untrimmed : GoString.trimPrefix char chunk state.lastFull = chunk := by
        unfold GoString.trimPrefix
        rw [if_neg]
        rw [GoString.hasPrefix_iff]
        exact fresh.resolve_left (by simpa using first)
      rw [untrimmed]
  have newPart : (state.fullText ++ chunk).drop state.lastIdx = chunk := by
    rw [upToDate, List.drop_left]
  unfold nextThinkDelta
  rw [received]
  simp only [newPart]
  exact splitTags_consumed le_rfl

theorem shown_streamFrom (flushWhen : List Char → Bool) {chunks : List (List Symbol)}
    {state : ThinkStreamState Symbol} {past : List Char}
    (upToDate : state.lastIdx = state.fullText.length)
    (mode : state.inThink = inThinkAfter past)
    (fresh : (state.lastFull :: chunks).IsChain fun previous chunk =>
      previous = [] ∨ ¬ previous.map char <+: chunk.map char)
    (uncut : ∀ before after, chunks = before ++ after →
      ¬ GoString.Cut (tagOf (inThinkAfter (past ++ before.flatten.map char)))
        (past ++ before.flatten.map char) (after.flatten.map char)) :
    shown (streamFrom char flushWhen state chunks) =
      state.buffer ++ (segments char state.inThink chunks.flatten).visible state.inThink := by
  induction chunks generalizing state past with
  | nil =>
    rw [streamFrom, (flushThinkBuffer_spec state).1, List.flatten_nil, segments_nil]
    cases state.inThink <;> simp [Segments.visible]
  | cons chunk chunks ih =>
    obtain ⟨freshHere, freshLater⟩ := List.isChain_cons_cons.mp fresh
    have consumed := nextThinkDelta_consumed upToDate freshHere
    have uncutBefore : ¬ GoString.Cut (tagOf (inThinkAfter past)) past (chunk.map char) := by
      intro cut
      apply uncut [] (chunk :: chunks) rfl
      rw [List.flatten_nil, List.map_nil, List.append_nil, List.flatten_cons, List.map_append]
      exact cut.mono List.suffix_rfl (List.prefix_append _ _)
    rw [streamFrom]
    have markers := shown_filter_isMarker (nextThinkDelta char state chunk).2
    generalize nextThinkDelta char state chunk = result at consumed markers ⊢
    obtain ⟨next, deltas⟩ := result
    dsimp only at consumed markers ⊢
    have nextMode : next.inThink = inThinkAfter (past ++ chunk.map char) := by
      rw [consumed.inThink, inThinkAfter_append uncutBefore, endsInThink_segments_map, ← mode]
    have uncutAfter : ¬ GoString.Cut
        (tagOf ((segments char state.inThink chunk).endsInThink state.inThink))
        (chunk.map char) (chunks.flatten.map char) := by
      intro cut
      apply uncut [chunk] chunks rfl
      rw [List.flatten_singleton, ← nextMode, consumed.inThink]
      exact cut.mono (List.suffix_append _ _) List.prefix_rfl
    have rest : ∀ buffer : List Symbol,
        shown (streamFrom char flushWhen { next with buffer := buffer } chunks) =
          buffer ++ (segments char next.inThink chunks.flatten).visible next.inThink := by
      intro buffer
      apply @ih { next with buffer := buffer } (past ++ chunk.map char)
      · rw [consumed.lastIdx, consumed.fullText, upToDate, List.length_append]
      · exact nextMode
      · rw [consumed.lastFull]
        exact freshLater
      · intro before after split
        have earlier := uncut (chunk :: before) after (by rw [split, List.cons_append])
        rw [List.flatten_cons, List.map_append, ← List.append_assoc] at earlier
        exact earlier
    have whole : (segments char state.inThink (chunk :: chunks).flatten).visible state.inThink =
        (segments char state.inThink chunk).visible state.inThink ++
          (segments char next.inThink chunks.flatten).visible next.inThink := by
      rw [List.flatten_cons, segments_append uncutAfter, Segments.visible_glue, ← consumed.inThink]
    have buffered : next.buffer =
        state.buffer ++ (segments char state.inThink chunk).visible state.inThink :=
      consumed.buffer
    rw [whole, ← List.append_assoc, ← buffered]
    split_ifs with full
    · obtain ⟨flushed, emptied⟩ := flushThinkBuffer_spec next
      rw [shown_append, shown_append, markers, flushed, emptied, rest []]
      rfl
    · rw [shown_append, markers, List.nil_append]
      exact rest next.buffer

theorem shown_stream (flushWhen : List Char → Bool) {chunks : List (List Symbol)}
    (clean : Clean (chunks.map (List.map char))) :
    shown (stream char flushWhen chunks) = (segments char false chunks.flatten).visible false := by
  have fresh : ((.zero : ThinkStreamState Symbol).lastFull :: chunks).IsChain
      fun previous chunk => previous = [] ∨ ¬ previous.map char <+: chunk.map char := by
    have later := ((List.isChain_map _).mp clean.fresh).imp fun previous chunk kept =>
      kept.imp_left List.map_eq_nil_iff.mp
    cases chunks with
    | nil => exact List.IsChain.singleton _
    | cons chunk chunks => exact List.isChain_cons_cons.mpr ⟨.inl rfl, later⟩
  apply @shown_streamFrom _ char flushWhen chunks .zero [] rfl rfl fresh
  rintro before after rfl
  cases after with
  | nil => exact GoString.not_cut_nil _ _
  | cons chunk after =>
    have uncut := clean.uncut before.length (List.mem_range.mpr (by simp))
    rw [List.map_append, List.take_left' (List.length_map _),
      List.drop_left' (List.length_map _), ← List.map_flatten, ← List.map_flatten] at uncut
    exact uncut

namespace Segments

def joined (inThink : Bool) : Segments Char → List Char
  | last segment => if inThink then segment else GoString.replaceAll thinkClose [] segment
  | next segment rest => (if inThink then [] else segment) ++ joined (!inThink) rest

def front (inThink : Bool) : Segments Char → List Char
  | last _ => []
  | next segment rest => (if inThink then [] else segment) ++ front (!inThink) rest

theorem joined_eq (segments : Segments Char) (inThink : Bool) :
    segments.joined inThink = segments.front inThink ++
      if segments.endsInThink inThink then segments.lastSegment
      else GoString.replaceAll thinkClose [] segments.lastSegment := by
  induction segments generalizing inThink with
  | last segment => rfl
  | next segment rest ih =>
    rw [joined, ih, ← List.append_assoc]
    rfl

theorem visible_eq (segments : Segments Char) (inThink : Bool) :
    segments.visible inThink = segments.front inThink ++
      if segments.endsInThink inThink then [] else segments.lastSegment := by
  induction segments generalizing inThink with
  | last segment => rfl
  | next segment rest ih =>
    rw [visible, ih, ← List.append_assoc]
    rfl

end Segments

theorem flatten_visiblePieces {rounds : Nat} {remaining : List Char}
    (enough : remaining.length ≤ rounds) :
    (visiblePieces rounds remaining).flatten = (segments id false remaining).joined false := by
  induction rounds generalizing remaining with
  | zero =>
    obtain rfl : remaining = [] := List.length_eq_zero_iff.mp (Nat.le_zero.mp enough)
    rw [segments_nil]
    simp [visiblePieces, Segments.joined]
  | succ rounds ih =>
    unfold visiblePieces
    cases found : GoString.index id thinkOpen remaining with
    | none =>
      rw [segments_of_none found]
      simp [Segments.joined]
    | some openIdx =>
      have shorter := @index_tagOf_lt _ id false remaining openIdx found
      have opened := @segments_of_some _ id false remaining openIdx found
      have before : (if 0 < openIdx then [remaining.take openIdx] else []).flatten =
          remaining.take openIdx := by
        split_ifs with positive
        · simp
        · simp [Nat.eq_zero_of_not_pos positive]
      rw [opened]
      have rest_lt : (remaining.drop (openIdx + thinkOpen.length)).length < remaining.length :=
        shorter
      simp only [Segments.joined, Bool.false_eq_true, if_false, tagOf, Bool.not_false] at rest_lt ⊢
      generalize remaining.drop (openIdx + thinkOpen.length) = rest at rest_lt ⊢
      cases closed : GoString.index id thinkClose rest with
      | none =>
        have unclosed := @segments_of_none _ id true rest closed
        rw [unclosed, List.flatten_append, before, List.flatten_singleton]
        rfl
      | some closeIdx =>
        have closedAt := @segments_of_some _ id true rest closeIdx closed
        have shorterStill := @index_tagOf_lt _ id true rest closeIdx closed
        dsimp only
        rw [closedAt, List.flatten_append, before, ih]
        · rfl
        · exact Nat.le_of_lt_succ (shorterStill.trans (rest_lt.trans_le enough))

theorem extractVisibleAnswer_eq (raw : List Char) : extractVisibleAnswer raw =
    GoString.trimSpace ((segments id false raw).joined false) := by
  unfold extractVisibleAnswer
  split_ifs with empty
  · obtain rfl := List.isEmpty_iff.mp empty
    rw [segments_nil]
    decide
  · rw [flatten_visiblePieces le_rfl]

/-- The text that streaming shows is the visible answer: without spaces around it, with no tag left
in it at the end, and nothing but spaces after a tag that is never closed. -/
structure Settled (response : List Char) : Prop where
  trimmed : GoString.trimSpace ((segments id false response).visible false) =
    (segments id false response).visible false
  noClose : inThinkAfter response = false →
    ¬ thinkClose <:+: (segments id false response).lastSegment
  blank : inThinkAfter response = true →
    ∀ char ∈ (segments id false response).lastSegment, GoString.isSpace char = true

theorem thinkClose_ne_nil : thinkClose ≠ [] := by decide

theorem visible_eq_extractVisibleAnswer_iff (response : List Char) :
    (segments id false response).visible false = extractVisibleAnswer response ↔
      Settled response := by
  have mode : inThinkAfter response = (segments id false response).endsInThink false := rfl
  have shape := (segments id false response).visible_eq false
  rw [extractVisibleAnswer_eq, Segments.joined_eq]
  cases inside : (segments id false response).endsInThink false with
  | false =>
    rw [inside] at mode shape
    simp only [Bool.false_eq_true, if_false] at shape ⊢
    constructor
    · intro same
      refine ⟨?_, fun _ occurs => ?_, fun inside => ?_⟩
      · rw [same, GoString.trimSpace_trimSpace]
      · have shorter := (GoString.replaceAll_nil_length thinkClose_ne_nil _).2 occurs
        have trimmed := GoString.trimSpace_length_le
          ((segments id false response).front false ++
            GoString.replaceAll thinkClose [] (segments id false response).lastSegment)
        rw [← same, shape, List.length_append, List.length_append] at trimmed
        omega
      · rw [mode] at inside
        contradiction
    · intro settled
      rw [GoString.replaceAll_of_not_infix thinkClose_ne_nil (settled.noClose mode), ← shape,
        settled.trimmed]
  | true =>
    rw [inside] at mode shape
    simp only [if_true, List.append_nil] at shape ⊢
    rw [← shape, GoString.eq_trimSpace_append_iff]
    constructor
    · rintro ⟨trimmed, blank⟩
      refine ⟨trimmed, fun outside => ?_, fun _ => blank⟩
      rw [mode] at outside
      contradiction
    · exact fun settled => ⟨settled.trimmed, settled.blank mode⟩

def placed : Nat → List (List Char) → List (List (Char × Nat))
  | _, [] => []
  | start, chunk :: chunks => chunk.zipIdx start :: placed (start + chunk.length) chunks

theorem map_placed (start : Nat) (chunks : List (List Char)) :
    (placed start chunks).map (List.map Prod.fst) = chunks := by
  induction chunks generalizing start with
  | nil => rfl
  | cons chunk chunks ih =>
    rw [placed, List.map_cons, ih, List.zipIdx_map_fst]

theorem flatten_placed (start : Nat) (chunks : List (List Char)) :
    (placed start chunks).flatten = chunks.flatten.zipIdx start := by
  induction chunks generalizing start with
  | nil => rfl
  | cons chunk chunks ih =>
    rw [placed, List.flatten_cons, ih, List.flatten_cons, List.zipIdx_append]

theorem nodup_zipIdx (text : List Char) (start : Nat) : (text.zipIdx start).Nodup := by
  apply List.Nodup.of_map Prod.snd
  rw [List.zipIdx_map_snd]
  exact List.nodup_range'

def InTag (text : List (Char × Nat)) (symbol : Char × Nat) : Prop :=
  ∃ before tag after, text = before ++ tag ++ after ∧ symbol ∈ tag ∧
    (tag.map Prod.fst = thinkOpen ∨ tag.map Prod.fst = thinkClose)

def markers (deltas : List (ThinkDelta Symbol)) : List (List Char) :=
  deltas.filterMap fun
    | .text _ => none
    | .marker value => some value

theorem InTag.append {text : List (Char × Nat)} {symbol : Char × Nat} (inTag : InTag text symbol)
    (earlier : List (Char × Nat)) : InTag (earlier ++ text) symbol := by
  obtain ⟨before, tag, after, rfl, inside, isTag⟩ := inTag
  exact ⟨earlier ++ before, tag, after, by simp, inside, isTag⟩

theorem tagOf_eq_or (inThink : Bool) : tagOf inThink = thinkOpen ∨ tagOf inThink = thinkClose := by
  cases inThink
  · exact .inl rfl
  · exact .inr rfl

theorem text_segments_sublist (inThink : Bool) (text : List Symbol) :
    (segments char inThink text).text.Sublist text := by
  induction inThink, text using @segments_induction _ char with
  | last inThink text absent =>
    rw [segments_of_none absent]
    exact List.Sublist.refl text
  | next inThink before tag after found isTag ih =>
    rw [segments_at_tag found isTag]
    apply List.Sublist.append (List.Sublist.refl before)
    exact ih.trans (List.sublist_append_right tag after)

theorem mem_text_segments_or_inTag (inThink : Bool) (text : List (Char × Nat)) :
    ∀ symbol ∈ text, symbol ∈ (segments Prod.fst inThink text).text ∨ InTag text symbol := by
  induction inThink, text using @segments_induction _ Prod.fst with
  | last inThink text absent =>
    intro symbol membership
    rw [segments_of_none absent]
    exact .inl membership
  | next inThink before tag after found isTag ih =>
    intro symbol membership
    rw [segments_at_tag found isTag]
    rcases List.mem_append.mp membership with inBefore | later
    · exact .inl (List.mem_append_left _ inBefore)
    · rcases List.mem_append.mp later with inTag | inAfter
      · refine .inr ⟨before, tag, after, by simp, inTag, ?_⟩
        rw [isTag]
        exact tagOf_eq_or inThink
      · rcases ih symbol inAfter with inText | inTag
        · exact .inl (List.mem_append_right _ inText)
        · exact .inr ((inTag.append tag).append before)

def placedSegments (response : List Char) : Segments (Char × Nat) :=
  segments Prod.fst false response.zipIdx

/-- What a stream of chunks should do, whenever it flushes its buffer. -/
structure ChunkIndependent (flushWhen : List Char → Bool) (chunks : List (List Char)) : Prop where
  /-- The visible text is that of the whole response. -/
  visible : shown (stream id flushWhen chunks) = extractVisibleAnswer chunks.flatten
  /-- Thinking text is shown only between a start and an end marker. -/
  between : ∀ before value after symbol,
    stream Prod.fst flushWhen (placed 0 chunks) = before ++ .text value :: after →
      symbol ∈ value → symbol ∈ (placedSegments chunks.flatten).thinking false →
        (markers before).getLast? = some thinkOpen ∧ (markers after).head? = some thinkClose
  /-- Nothing is duplicated or reordered, and nothing but tags is lost. -/
  complete : (shown (stream Prod.fst flushWhen (placed 0 chunks))).Sublist chunks.flatten.zipIdx ∧
    ∀ symbol ∈ chunks.flatten.zipIdx,
      symbol ∉ shown (stream Prod.fst flushWhen (placed 0 chunks)) →
        InTag chunks.flatten.zipIdx symbol

def ThinkingIsTags (response : List Char) : Prop :=
  ∀ symbol ∈ (placedSegments response).thinking false, InTag response.zipIdx symbol

theorem visible_disjoint_thinking (response : List Char) :
    List.Disjoint ((placedSegments response).visible false)
      ((placedSegments response).thinking false) := by
  have nodup := (nodup_zipIdx response 0).sublist
    (@text_segments_sublist _ Prod.fst false (response.zipIdx 0))
  exact List.disjoint_of_nodup_append
    ((((placedSegments response).visible_append_thinking_perm false).nodup_iff).mpr nodup)

theorem shown_of_mem {deltas : List (ThinkDelta Symbol)} {value : List Symbol} {symbol : Symbol}
    (emitted : .text value ∈ deltas) (inside : symbol ∈ value) : symbol ∈ shown deltas :=
  List.mem_flatMap.mpr ⟨.text value, emitted, inside⟩

/-- For every way to cut a response into chunks and to flush the buffer, as long as the chunks are
clean: the visible text is right just for settled responses, thinking text is not shown, and
nothing but tags is lost just when the thinking text is made of tags. -/
theorem chunkIndependent_iff (flushWhen : List Char → Bool) (chunks : List (List Char))
    (clean : Clean chunks) :
    (ChunkIndependent flushWhen chunks ↔
      Settled chunks.flatten ∧ ThinkingIsTags chunks.flatten) ∧
    (shown (stream id flushWhen chunks) = extractVisibleAnswer chunks.flatten ↔
      Settled chunks.flatten) ∧
    ∀ symbol ∈ shown (stream Prod.fst flushWhen (placed 0 chunks)),
      symbol ∉ (placedSegments chunks.flatten).thinking false := by
  have plain : shown (stream id flushWhen chunks) =
      (segments id false chunks.flatten).visible false := by
    apply shown_stream flushWhen
    simpa using clean
  have atPlaces : shown (stream Prod.fst flushWhen (placed 0 chunks)) =
      (placedSegments chunks.flatten).visible false := by
    rw [placedSegments, ← flatten_placed]
    apply shown_stream flushWhen
    rw [map_placed]
    exact clean
  have apart := visible_disjoint_thinking chunks.flatten
  have visible_iff := visible_eq_extractVisibleAnswer_iff chunks.flatten
  rw [← plain] at visible_iff
  have noThinking : ∀ symbol ∈ shown (stream Prod.fst flushWhen (placed 0 chunks)),
      symbol ∉ (placedSegments chunks.flatten).thinking false := by
    intro symbol emitted
    rw [atPlaces] at emitted
    exact apart emitted
  refine ⟨?_, visible_iff, noThinking⟩
  constructor
  · intro independent
    refine ⟨visible_iff.mp independent.visible, fun symbol isThinking => ?_⟩
    have inText : symbol ∈ (placedSegments chunks.flatten).text :=
      ((placedSegments chunks.flatten).visible_sublist true).mem isThinking
    apply independent.complete.2 symbol ((text_segments_sublist false _).mem inText)
    exact fun emitted => noThinking symbol emitted isThinking
  · rintro ⟨settled, thinkingIsTags⟩
    refine ⟨visible_iff.mpr settled, ?_, ?_, ?_⟩
    · intro before value after symbol split inside isThinking
      have emitted : ThinkDelta.text value ∈ stream Prod.fst flushWhen (placed 0 chunks) := by
        rw [split]
        exact List.mem_append_right _ (List.mem_cons_self ..)
      exact absurd isThinking (noThinking symbol (shown_of_mem emitted inside))
    · rw [atPlaces]
      exact ((placedSegments chunks.flatten).visible_sublist false).trans
        (text_segments_sublist false _)
    · intro symbol membership lost
      rcases mem_text_segments_or_inTag false _ symbol membership with inText | inTag
      · have sorted := ((placedSegments chunks.flatten).visible_append_thinking_perm false).mem_iff
          (a := symbol)
        rcases List.mem_append.mp (sorted.mpr inText) with isVisible | isThinking
        · rw [atPlaces] at lost
          exact absurd isVisible lost
        · exact thinkingIsTags symbol isThinking
      · exact inTag

def helloThere : List (List Char) := ["Hello ".toList, "<think></think>".toList, "there".toList]

theorem chunkIndependent_helloThere : ChunkIndependent (fun _ => false) helloThere := by
  have clean : Clean helloThere := ⟨by decide, by decide⟩
  apply (chunkIndependent_iff (fun _ => false) helloThere clean).1.mpr
  refine ⟨⟨by decide, by decide, by decide⟩, fun symbol isThinking => ?_⟩
  have noThinking : (placedSegments helloThere.flatten).thinking false = [] := by decide
  rw [noThinking] at isThinking
  contradiction

theorem InTag.letter {text : List (Char × Nat)} {symbol : Char × Nat} (inTag : InTag text symbol) :
    symbol.1 ∈ thinkOpen ∨ symbol.1 ∈ thinkClose := by
  obtain ⟨before, tag, after, -, inside, isOpen | isClose⟩ := inTag
  · exact .inl (isOpen ▸ List.mem_map_of_mem inside)
  · exact .inr (isClose ▸ List.mem_map_of_mem inside)

/-- The same chunk twice, a tag cut in two, and thinking text. -/
theorem not_chunkIndependent :
    ¬ ChunkIndependent (fun _ => false) ["ha".toList, "ha".toList] ∧
    ¬ ChunkIndependent (fun _ => false) ["<thi".toList, "nk>a</think>b".toList] ∧
    ¬ ChunkIndependent (fun _ => false) ["<think>a</think>b".toList] := by
  refine ⟨fun independent => ?_, fun independent => ?_, fun independent => ?_⟩
  · exact absurd independent.visible (by decide)
  · exact absurd independent.visible (by decide)
  · have inTag := independent.complete.2 ('a', 7) (by decide) (by decide)
    exact absurd inTag.letter (by decide)

end RagFlow.Ask
