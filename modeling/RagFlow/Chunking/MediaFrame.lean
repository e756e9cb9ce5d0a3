import Mathlib.Data.List.Induction
import RagFlow.Chunking.MediaContext

/-!
# What attaching contexts changes

Every chunk comes back, and only tables and images are changed: sentences of one text chunk beside
them are put around their text.
-/

namespace RagFlow.Chunking.MediaContext

open Lib

variable {Picture : Type} {settings : Settings}

def endsSentence (char : Char) : Bool := ".。！？!?；;：:\n".toList.contains char

def cut (buf : Text) : Text → List Text
  | [] => if buf = [] then [] else [buf]
  | char :: text => if endsSentence char then (buf ++ [char]) :: cut [] text
      else cut (buf ++ [char]) text

/-- A text with at most one end, where it ends. -/
structure IsSentence (text : Text) : Prop where
  nonempty : text ≠ []
  inside : ∀ char ∈ text.dropLast, endsSentence char = false

theorem isSentence_concat {buf : Text} (open_ : ∀ char ∈ buf, endsSentence char = false)
    (char : Char) : IsSentence (buf ++ [char]) where
  nonempty := by simp
  inside := by simpa using open_

theorem isSentence_of_mem_cut {buf text sentence : Text}
    (noEnd : ∀ char ∈ buf, endsSentence char = false) (isMem : sentence ∈ cut buf text) :
    IsSentence sentence := by
  induction text generalizing buf with
  | nil =>
    rw [cut] at isMem
    split_ifs at isMem with isEmpty
    · cases isMem
    · obtain rfl := List.mem_singleton.mp isMem
      exact ⟨isEmpty, fun char mem => noEnd char ((List.dropLast_sublist _).subset mem)⟩
  | cons char text ih =>
    rw [cut] at isMem
    split_ifs at isMem with ends
    · rcases List.mem_cons.mp isMem with rfl | isMem
      · exact isSentence_concat noEnd char
      · exact ih (by simp) isMem
    · refine ih ?_ isMem
      simpa [or_imp, forall_and, ends] using noEnd

theorem flatten_cut (buf text : Text) : (cut buf text).flatten = buf ++ text := by
  induction text generalizing buf with
  | nil =>
    rw [cut]
    split_ifs with isEmpty
    · rw [isEmpty]
      rfl
    · rw [List.flatten_singleton, List.append_nil]
  | cons char text ih =>
    rw [cut]
    split_ifs
    · rw [List.flatten_cons, ih, List.nil_append, List.append_assoc]
      rfl
    · rw [ih, List.append_assoc]
      rfl

theorem cut_of_isSentence {buf text : Text} (nonempty : buf ++ text ≠ [])
    (inside : ∀ char ∈ text.dropLast, endsSentence char = false) :
    cut buf text = [buf ++ text] := by
  induction text generalizing buf with
  | nil =>
    rw [cut, List.append_nil, if_neg (by simpa using nonempty)]
  | cons char text ih =>
    cases text with
    | nil =>
      rw [cut, cut, cut]
      simp
    | cons next text =>
      have notEnd : endsSentence char = false := inside char (by simp)
      have rest : cut (buf ++ [char]) (next :: text) = [buf ++ [char] ++ next :: text] :=
        ih (by simp) fun other mem => inside other (by simpa using Or.inr mem)
      rw [cut, notEnd, if_neg (by simp), rest, List.append_assoc]
      rfl

theorem addPart_open {part : Text} (noEnd : ∀ char ∈ part, endsSentence char = false)
    (state : List Text × Text) : addPart state part = (state.1, state.2 ++ part) := by
  unfold addPart
  split_ifs with isEmpty isEnd
  · rw [isEmpty, List.append_nil]
  · obtain ⟨char, ends, rfl⟩ := Regex.isFullmatch_char.mp isEnd
    exact absurd (noEnd char List.mem_cons_self) (ne_of_eq_of_ne ends (by simp))
  · rfl

theorem addPart_end {char : Char} (ends : endsSentence char = true) (state : List Text × Text) :
    addPart state [char] = (state.1 ++ [state.2 ++ [char]], []) := by
  have isEnd : sentenceEnd.isFullmatch [char] = true := Regex.isFullmatch_char.mpr ⟨char, ends, rfl⟩
  simp [addPart, isEnd]

def marked (text : Text) : List (Char ⊕ Text) :=
  text.map fun char => if endsSentence char then .inr [char] else .inl char

theorem pieces_marked (text : Text) : ∃ first others,
    Regex.pieces (marked text) = first :: others ∧ ∀ char ∈ first, endsSentence char = false := by
  induction text with
  | nil => exact ⟨[], [], rfl, by simp⟩
  | cons char text ih =>
    obtain ⟨first, others, parts, noEnd⟩ := ih
    cases ends : endsSentence char with
    | true => exact ⟨[], [char] :: first :: others, by simp [marked, ends, ← parts, Regex.pieces]⟩
    | false =>
      refine ⟨char :: first, others, ?_, List.forall_mem_cons.mpr ⟨ends, noEnd⟩⟩
      rw [marked] at parts
      simp [marked, ends, Regex.pieces, parts]

def finished (state : List Text × Text) : List Text :=
  if state.2 ≠ [] then state.1 ++ [state.2] else state.1

theorem finished_pieces (text : Text) (sentences : List Text) (buf : Text) :
    finished ((Regex.pieces (marked text)).foldl addPart (sentences, buf)) =
      sentences ++ cut buf text := by
  induction text generalizing sentences buf with
  | nil =>
    have unchanged : addPart (sentences, buf) [] = (sentences, buf) := rfl
    rw [marked, List.map_nil, Regex.pieces, List.foldl_cons, List.foldl_nil, unchanged, finished,
      cut]
    by_cases isEmpty : buf = []
    · rw [if_neg (not_not.mpr isEmpty), if_pos isEmpty, List.append_nil]
    · rw [if_pos isEmpty, if_neg isEmpty]
  | cons char text ih =>
    cases ends : endsSentence char with
    | true =>
      have parts : Regex.pieces (marked (char :: text)) =
          [] :: [char] :: Regex.pieces (marked text) := by
        simp [marked, ends, Regex.pieces]
      have unchanged : addPart (sentences, buf) [] = (sentences, buf) := rfl
      rw [parts, List.foldl_cons, List.foldl_cons, unchanged, addPart_end ends,
        ih, cut, if_pos ends, List.append_assoc]
      rfl
    | false =>
      obtain ⟨first, others, parts, noEnd⟩ := pieces_marked text
      have partsNow : Regex.pieces (marked (char :: text)) = (char :: first) :: others := by
        rw [marked] at parts
        simp [marked, ends, Regex.pieces, parts]
      have rest := ih sentences (buf ++ [char])
      rw [parts, List.foldl_cons, addPart_open noEnd, List.append_assoc] at rest
      rw [partsNow, List.foldl_cons, addPart_open (List.forall_mem_cons.mpr ⟨ends, noEnd⟩), cut,
        ends, if_neg Bool.false_ne_true, ← rest]
      rfl

theorem split_sentences_eq (text : Text) : split_sentences text = cut [] text := by
  have parts : sentenceEnd.split text = Regex.pieces (marked text) :=
    congrArg Regex.pieces (Regex.scan_char endsSentence text)
  exact (congrArg (fun parts => finished (parts.foldl addPart ([], []))) parts).trans
    (finished_pieces text [] [])

theorem flatten_split_sentences (text : Text) : (split_sentences text).flatten = text := by
  rw [split_sentences_eq, flatten_cut, List.nil_append]

theorem split_sentences_of_mem {text sentence : Text} (isMem : sentence ∈ split_sentences text) :
    split_sentences sentence = [sentence] := by
  rw [split_sentences_eq] at isMem
  have isSentence := isSentence_of_mem_cut (by simp) isMem
  have whole : cut [] sentence = [[] ++ sentence] :=
    cut_of_isSentence isSentence.nonempty isSentence.inside
  rw [split_sentences_eq, whole, List.nil_append]

theorem trim_to_tokens_of_mem {text sentence : Text} (isMem : sentence ∈ split_sentences text)
    {remaining : Int} (positive : 0 < remaining)
    (tooMany : remaining < settings.num_tokens_from_string sentence) (from_tail : Bool) :
    trim_to_tokens settings sentence remaining from_tail = sentence := by
  have nonempty : sentence ≠ [] := by
    rw [split_sentences_eq] at isMem
    exact (isSentence_of_mem_cut (by simp) isMem).nonempty
  have hasTokens : ¬ (settings.num_tokens_from_string sentence : Int) ≤ 0 := by omega
  have taken : trimmed settings remaining [sentence] = [sentence] := by
    simp only [trimmed]
    rw [if_neg hasTokens, if_pos tooMany]
  have nothing : ¬ (remaining ≤ 0 ∨ sentence = []) := by
    rintro (notPositive | isEmpty)
    · omega
    · exact nonempty isEmpty
  rw [trim_to_tokens, if_neg nothing, split_sentences_of_mem isMem]
  cases from_tail <;> simp [taken]

theorem collected_sublist {text : Text} (from_tail : Bool) (remaining : Int) {sentences : List Text}
    (fromText : ∀ sentence ∈ sentences, sentence ∈ split_sentences text) :
    (collected settings from_tail remaining sentences).Sublist sentences := by
  induction sentences generalizing remaining with
  | nil => exact .slnil
  | cons s rest ih =>
    have fromRest := fun sentence mem => fromText sentence (List.mem_cons_of_mem s mem)
    rw [collected]
    split_ifs with noneRemain noTokens tooMany
    · exact List.nil_sublist _
    · exact (ih remaining fromRest).cons s
    · dsimp only
      rw [trim_to_tokens_of_mem (fromText s List.mem_cons_self) (by omega) tooMany]
      exact (ih _ fromRest).cons_cons s
    · exact (ih _ fromRest).cons_cons s

theorem collect_context_sublist (text : Text) (boundary_idx : Nat) (token_budget : Int) :
    (collect_context_from_sentences settings (split_sentences text) boundary_idx
        token_budget).1.Sublist ((split_sentences text).take (boundary_idx + 1)) ∧
      (collect_context_from_sentences settings (split_sentences text) boundary_idx
        token_budget).2.Sublist ((split_sentences text).drop (boundary_idx + 1)) := by
  constructor
  · rw [← List.reverse_sublist, collect_context_from_sentences, List.reverse_reverse]
    exact collected_sublist true token_budget fun sentence mem =>
      List.mem_of_mem_take (List.mem_reverse.mp mem)
  · exact collected_sublist false token_budget fun sentence mem => List.mem_of_mem_drop mem

def Chunk.isUnnamed (ck : Chunk Picture) : Bool :=
  ck.image.isSome && !ck.hasText && ck.doc_type_kwd ≠ some "image" && !ck.is_table_chunk

/-- A chunk overlaps another one on a page, or it is the first or the last one of its page and the
other one is behind or before it there. -/
inductive Beside (chunks : List (Chunk Picture)) (idx source : Nat) : Prop
  | overlapping {media text : Chunk Picture} {page : Int} {place textPlace : ℚ × ℚ}
      (isMedia : chunks[idx]? = some media) (isText : chunks[source]? = some text)
      (onPage : (get_bounds_by_page media).get? page = some place)
      (textOnPage : (get_bounds_by_page text).get? page = some textPlace)
      (overlap : textPlace.1 ≤ place.2 ∧ place.1 ≤ textPlace.2)
  | behind {page : Int} {others : List Nat}
      (first : page_order chunks (ordered_indices chunks) page = idx :: others)
      (isOther : source ∈ others)
  | before {page : Int} {others : List Nat}
      (last : page_order chunks (ordered_indices chunks) page = others ++ [idx])
      (isOther : source ∈ others)

/-- Sentences of a text around the own text, those above before those below in that text. -/
structure Surrounded (settings : Settings) (base : Text) (ck after : Chunk Picture)
    (above below : List Text) : Prop where
  order : ∃ count, above.Sublist ((split_sentences base).take count) ∧
    below.Sublist ((split_sentences base).drop count)
  pieces : ∀ piece ∈ above ++ below, piece <:+: base
  frame : after = withText settings ck (join (above ++ self_text ck ++ below))
  text : ck.content_with_weight ≠ .missing ∨ ck.text ≠ .missing →
    after.get_text = join (above ++ self_text ck ++ below)

inductive Kept (settings : Settings) (chunks : List (Chunk Picture)) (idx : Nat)
    (ck : Chunk Picture) : Chunk Picture → Prop
  | unchanged : Kept settings chunks idx ck ck
  | attached {source : Nat} {other after : Chunk Picture} {base : Text} {above below : List Text}
      (isMedia : ck.is_text_chunk = false) (beside : Beside chunks idx source)
      (isOther : chunks[source]? = some other)
      (kind : other.is_text_chunk = true ∨ other.isUnnamed = true)
      (original : other.is_text_chunk = true → base = other.get_text)
      (surrounded : Surrounded settings base ck after above below) :
      Kept settings chunks idx ck after

theorem read_withText {Read : Type} (read : Chunk Picture → Read)
    (same : ∀ ck content_with_weight text content_ltks content_sm_ltks,
      read { ck with content_with_weight, text, content_ltks, content_sm_ltks } = read ck)
    (ck : Chunk Picture) (text : Text) : read (withText settings ck text) = read ck := by
  unfold withText
  dsimp only
  split_ifs
  all_goals first | rfl | exact same ck _ _ _ _

theorem get_text_withText {ck : Chunk Picture} (text : Text)
    (hasField : ck.content_with_weight ≠ .missing ∨ ck.text ≠ .missing) :
    (withText settings ck text).get_text = text := by
  by_cases weighted : ck.content_with_weight = .missing
  · have hasText : ck.text ≠ .missing := hasField.resolve_left (not_not.mpr weighted)
    unfold withText
    dsimp only
    split_ifs <;> simp_all [Chunk.get_text, Chunk.textVal]
  · unfold withText
    dsimp only
    split_ifs <;> simp_all [Chunk.get_text, Chunk.textVal]

theorem Kept.read_eq {Read : Type} (read : Chunk Picture → Read)
    (same : ∀ ck content_with_weight text content_ltks content_sm_ltks,
      read { ck with content_with_weight, text, content_ltks, content_sm_ltks } = read ck)
    {chunks : List (Chunk Picture)} {idx : Nat} {ck after : Chunk Picture}
    (kept : Kept settings chunks idx ck after) : read after = read ck := by
  cases kept with
  | unchanged => rfl
  | attached _ _ _ _ _ surrounded =>
    rw [surrounded.frame]
    exact read_withText read same ck _

theorem infix_of_mem_split_sentences {text sentence : Text}
    (isMem : sentence ∈ split_sentences text) : sentence <:+: text := by
  have whole := List.infix_of_mem_flatten isMem
  rwa [flatten_split_sentences] at whole

theorem surrounded_withText {base : Text} {above below : List Text} {count : Nat}
    (upper : above.Sublist ((split_sentences base).take count))
    (lower : below.Sublist ((split_sentences base).drop count)) (ck : Chunk Picture) :
    Surrounded settings base ck (withText settings ck (join (above ++ self_text ck ++ below)))
      above below where
  order := ⟨count, upper, lower⟩
  pieces := by
    intro piece isPiece
    rcases List.mem_append.mp isPiece with isAbove | isBelow
    · exact infix_of_mem_split_sentences (List.mem_of_mem_take (upper.subset isAbove))
    · exact infix_of_mem_split_sentences (List.mem_of_mem_drop (lower.subset isBelow))
  frame := rfl
  text := get_text_withText _

theorem Kept.of_isText {chunks : List (Chunk Picture)} {idx : Nat} {ck after : Chunk Picture}
    (kept : Kept settings chunks idx ck after) (isText : after.is_text_chunk = true) :
    (ck.is_text_chunk = true ∨ ck.isUnnamed = true) ∧
      (ck.is_text_chunk = true → after.get_text = ck.get_text) := by
  have sameKind : after.doc_type_kwd = ck.doc_type_kwd :=
    kept.read_eq Chunk.doc_type_kwd fun _ _ _ _ _ => rfl
  cases kept with
  | unchanged => exact ⟨Or.inl isText, fun _ => rfl⟩
  | attached isMedia =>
    refine ⟨Or.inr ?_, fun isText => absurd isText (by simp [isMedia])⟩
    simp only [Chunk.is_text_chunk, Chunk.is_image_chunk, Chunk.is_table_chunk, sameKind]
      at isText isMedia
    simp only [Chunk.isUnnamed, Chunk.is_table_chunk]
    grind

def Overlaps (media_bounds : Bounds) (texts : List (Nat × Bounds)) (source : Nat) : Prop :=
  ∃ text ∈ texts, text.1 = source ∧ ∃ page ∈ text.2.items, ∃ place,
    media_bounds.get? page.1 = some place ∧ page.2.1 ≤ place.2 ∧ place.1 ≤ page.2.2

def Found (media_bounds : Bounds) (texts : List (Nat × Bounds)) (best : Option (Nat × ℚ)) : Prop :=
  ∀ found, best = some found → Overlaps media_bounds texts found.1

theorem considerPage_cases (media_bounds : Bounds) (text_idx : Nat) (best : Option (Nat × ℚ))
    (page : Int × ℚ × ℚ) {found : Nat × ℚ}
    (isFound : considerPage media_bounds text_idx best page = some found) :
    best = some found ∨ found.1 = text_idx ∧ ∃ place,
      media_bounds.get? page.1 = some place ∧ page.2.1 ≤ place.2 ∧ place.1 ≤ page.2.2 := by
  unfold considerPage at isFound
  cases onPage : media_bounds.get? page.1 with
  | none =>
    rw [onPage] at isFound
    exact Or.inl isFound
  | some place =>
    simp only [onPage] at isFound
    split_ifs at isFound with apart
    · exact Or.inl isFound
    · obtain ⟨notAbove, notBelow⟩ := not_or.mp apart
      have overlap := And.intro (not_lt.mp notAbove) (not_lt.mp notBelow)
      cases best with
      | none =>
        obtain rfl := Option.some.inj isFound
        exact Or.inr ⟨rfl, place, rfl, overlap⟩
      | some best =>
        dsimp only at isFound
        split_ifs at isFound
        · obtain rfl := Option.some.inj isFound
          exact Or.inr ⟨rfl, place, rfl, overlap⟩
        · exact Or.inl isFound

theorem overlaps_of_overlapping {media_bounds : Bounds} {texts : List (Nat × Bounds)} {source : Nat}
    (isFound : overlapping media_bounds texts = some source) :
    Overlaps media_bounds texts source := by
  obtain ⟨found, isBest, rfl⟩ := Option.map_eq_some_iff.mp isFound
  have sound : Found media_bounds texts (texts.foldl (fun best text =>
      text.2.items.foldl (considerPage media_bounds text.1) best) none) := by
    refine List.foldlRecOn (motive := Found media_bounds texts) texts _ (by simp [Found])
      fun best earlier text isText => ?_
    refine List.foldlRecOn (motive := Found media_bounds texts) text.2.items _ earlier
      fun best earlier page isPage found isFound => ?_
    rcases considerPage_cases media_bounds text.1 best page isFound with
      old | ⟨same, place, overlap⟩
    · exact earlier found old
    · exact ⟨text, isText, same.symm, page, isPage, place, overlap⟩
  exact sound found isBest

theorem mem_text_bounds {chunks : List (Chunk Picture)} {text : Nat × Bounds}
    (isText : text ∈ text_bounds chunks) : ∃ ck, chunks[text.1]? = some ck ∧
      ck.is_text_chunk = true ∧ text.2 = get_bounds_by_page ck := by
  obtain ⟨⟨ck, idx⟩, isMem, same⟩ := List.mem_filterMap.mp isText
  dsimp only at same
  split_ifs at same with kept
  obtain rfl := Option.some.inj same
  exact ⟨ck, List.mem_zipIdx_iff_getElem?.mp isMem, kept.1, rfl⟩

theorem neighbor_cases {chunks : List (Chunk Picture)} {onPage : List Nat} {idx source : Nat}
    (isFound : neighbor chunks onPage idx = some source) : isTextAt chunks source = true ∧
      ((∃ others, onPage = idx :: others ∧ source ∈ others) ∨
        ∃ others, onPage = others ++ [idx] ∧ source ∈ others) := by
  unfold neighbor at isFound
  dsimp only at isFound
  split_ifs at isFound with isMem isFirst isLast
  · obtain ⟨first, others, rfl⟩ := List.exists_cons_of_ne_nil (List.ne_nil_of_mem isMem)
    have here := List.getElem_idxOf (List.idxOf_lt_length_of_mem isMem)
    simp only [isFirst, List.getElem_cons_zero] at here
    subst here
    rw [isFirst] at isFound
    exact ⟨List.find?_some isFound, Or.inl ⟨others, rfl, List.mem_of_find?_eq_some isFound⟩⟩
  · refine ⟨List.find?_some isFound, Or.inr ⟨onPage.take (onPage.idxOf idx), ?_,
      List.mem_reverse.mp (List.mem_of_find?_eq_some isFound)⟩⟩
    have inside : onPage.idxOf idx < onPage.length := List.idxOf_lt_length_of_mem isMem
    have whole := List.take_concat_get' onPage (onPage.idxOf idx) inside
    rw [List.getElem_idxOf inside, isLast, Nat.sub_add_cancel (by omega), List.take_length] at whole
    rw [isLast]
    exact whole.symm

theorem contextFrom_cases {chunks : List (Chunk Picture)} {budget : Int} {source : Option Nat}
    (notEmpty : ¬ ((contextFrom settings chunks budget source).1 = [] ∧
      (contextFrom settings chunks budget source).2 = [])) :
    ∃ idx text count, source = some idx ∧ chunks[idx]? = some text ∧
      (contextFrom settings chunks budget source).1.Sublist
        ((split_sentences text.get_text).take count) ∧
      (contextFrom settings chunks budget source).2.Sublist
        ((split_sentences text.get_text).drop count) := by
  unfold contextFrom at notEmpty ⊢
  cases found : source.bind (chunks[·]?) with
  | none => simp [found] at notEmpty
  | some text =>
    obtain ⟨idx, rfl, isText⟩ := Option.bind_eq_some_iff.mp found
    simp only
    exact ⟨idx, text, _, rfl, isText, collect_context_sublist text.get_text _ budget⟩

structure Attaching (settings : Settings) (chunks : List (Chunk Picture)) (turns : List Nat)
    (current : List (Chunk Picture)) : Prop where
  length : current.length = chunks.length
  untouched : ∀ idx, idx ∉ turns → current[idx]? = chunks[idx]?
  kept : ∀ idx ck, chunks[idx]? = some ck →
    ∃ after, current[idx]? = some after ∧ Kept settings chunks idx ck after

theorem attaching_nil (chunks : List (Chunk Picture)) : Attaching settings chunks [] chunks where
  length := rfl
  untouched := fun _ _ => rfl
  kept := fun _ ck isChunk => ⟨ck, isChunk, .unchanged⟩

theorem Attaching.exists_original {chunks current : List (Chunk Picture)} {turns : List Nat}
    (attaching : Attaching settings chunks turns current) {idx : Nat} {after : Chunk Picture}
    (isAfter : current[idx]? = some after) :
    ∃ ck, chunks[idx]? = some ck ∧ Kept settings chunks idx ck after := by
  have inside : idx < chunks.length :=
    attaching.length ▸ (List.getElem?_eq_some_iff.mp isAfter).choose
  have isChunk := List.getElem?_eq_getElem inside
  obtain ⟨other, isOther, kept⟩ := attaching.kept idx _ isChunk
  obtain rfl := Option.some.inj (isAfter.symm.trans isOther)
  exact ⟨_, isChunk, kept⟩

theorem Attaching.page_order_eq {chunks current : List (Chunk Picture)} {turns : List Nat}
    (attaching : Attaching settings chunks turns current) (order : List Nat) (page : Int) :
    page_order current order page = page_order chunks order page := by
  apply List.filter_congr
  intro idx _
  have same : (current[idx]?.bind fun ck => (extract_position ck).pn) =
      chunks[idx]?.bind fun ck => (extract_position ck).pn := by
    cases isChunk : chunks[idx]? with
    | none =>
      have outside : current[idx]? = none := by
        rw [List.getElem?_eq_none_iff, attaching.length]
        exact List.getElem?_eq_none_iff.mp isChunk
      rw [outside]
    | some ck =>
      obtain ⟨after, isAfter, kept⟩ := attaching.kept idx ck isChunk
      rw [isAfter]
      exact congrArg Position.pn (kept.read_eq extract_position fun _ _ _ _ _ => rfl)
  rw [same]

theorem Attaching.beside {chunks current : List (Chunk Picture)} {turns : List Nat}
    (attaching : Attaching settings chunks turns current) {idx source : Nat} {ck : Chunk Picture}
    (isChunk : chunks[idx]? = some ck)
    (isBest : best_idx current (ordered_indices chunks) (text_bounds chunks) idx ck = some source) :
    Beside chunks idx source ∧ ∀ text, current[source]? = some text → ∃ other,
      chunks[source]? = some other ∧ (other.is_text_chunk = true ∨ other.isUnnamed = true) ∧
        (other.is_text_chunk = true → text.get_text = other.get_text) := by
  unfold best_idx at isBest
  dsimp only at isBest
  cases overlapped : overlapping (get_bounds_by_page ck) (text_bounds chunks) with
  | some text_idx =>
    simp only [overlapped, Option.some.injEq] at isBest
    subst isBest
    obtain ⟨text, isText, rfl, page, isPage, place, onPage, overlap⟩ :=
      overlaps_of_overlapping overlapped
    obtain ⟨other, isOther, isTextChunk, bounds⟩ := mem_text_bounds isText
    rw [bounds] at isPage
    refine ⟨.overlapping isChunk isOther onPage (Dict.mem_items.mp isPage) overlap,
      fun now isNow => ⟨other, isOther, Or.inl isTextChunk, fun _ => ?_⟩⟩
    obtain ⟨old, isOld, kept⟩ := attaching.exists_original isNow
    obtain rfl := Option.some.inj (isOther.symm.trans isOld)
    cases kept with
    | unchanged => rfl
    | attached isMedia => exact absurd isTextChunk (by simp [isMedia])
  | none =>
    simp only [overlapped] at isBest
    obtain ⟨page, -, isNeighbor⟩ := Option.bind_eq_some_iff.mp isBest
    rw [attaching.page_order_eq] at isNeighbor
    obtain ⟨isText, places⟩ := neighbor_cases isNeighbor
    refine ⟨?_, fun now isNow => ?_⟩
    · rcases places with ⟨others, first, isOther⟩ | ⟨others, last, isOther⟩
      · exact .behind first isOther
      · exact .before last isOther
    · obtain ⟨old, isOld, kept⟩ := attaching.exists_original isNow
      rw [isTextAt, isNow, Option.any_some] at isText
      obtain ⟨kind, same⟩ := kept.of_isText isText
      exact ⟨old, isOld, kind, same⟩

theorem isText_eq_false_of_budget {ck : Chunk Picture} (positive : ¬ token_budget settings ck ≤ 0) :
    ck.is_text_chunk = false := by
  unfold token_budget at positive
  split_ifs at positive with isImage isTable
  · simp [Chunk.is_text_chunk, isImage]
  · simp [Chunk.is_text_chunk, isTable]
  · simp at positive

theorem Attaching.skip {chunks current : List (Chunk Picture)} {turns : List Nat}
    (attaching : Attaching settings chunks turns current) (idx : Nat) :
    Attaching settings chunks (turns ++ [idx]) current where
  length := attaching.length
  untouched := fun other notTurn =>
    attaching.untouched other fun isTurn => notTurn (List.mem_append_left [idx] isTurn)
  kept := attaching.kept

theorem Attaching.set {chunks current : List (Chunk Picture)} {turns : List Nat}
    (attaching : Attaching settings chunks turns current) {idx : Nat} {ck after : Chunk Picture}
    (isChunk : chunks[idx]? = some ck) (kept : Kept settings chunks idx ck after) :
    Attaching settings chunks (turns ++ [idx]) (current.set idx after) := by
  have inside : idx < current.length :=
    attaching.length.symm ▸ (List.getElem?_eq_some_iff.mp isChunk).choose
  constructor
  · rw [List.length_set, attaching.length]
  · intro other notTurn
    rw [List.mem_append, List.mem_singleton, not_or] at notTurn
    rw [List.getElem?_set_ne (Ne.symm notTurn.2)]
    exact attaching.untouched other notTurn.1
  · intro other otherCk isOther
    by_cases isHere : idx = other
    · subst isHere
      obtain rfl := Option.some.inj (isChunk.symm.trans isOther)
      exact ⟨after, List.getElem?_set_self inside, kept⟩
    · rw [List.getElem?_set_ne isHere]
      exact attaching.kept other otherCk isOther

theorem Attaching.turn {chunks current : List (Chunk Picture)} {turns : List Nat}
    (attaching : Attaching settings chunks turns current) {idx : Nat} (isNew : idx ∉ turns) :
    Attaching settings chunks (turns ++ [idx])
      (attachAt settings (ordered_indices chunks) (text_bounds chunks) current idx) := by
  unfold attachAt
  cases isNow : current[idx]? with
  | none => exact attaching.skip idx
  | some ck =>
    have isChunk : chunks[idx]? = some ck := (attaching.untouched idx isNew).symm.trans isNow
    dsimp only
    split_ifs with noBudget isEmpty
    · exact attaching.skip idx
    · exact attaching.skip idx
    · apply attaching.set isChunk
      obtain ⟨source, text, count, isBest, isText, upper, lower⟩ := contextFrom_cases isEmpty
      obtain ⟨beside, original⟩ := attaching.beside isChunk isBest
      obtain ⟨other, isOther, kind, same⟩ := original text isText
      exact .attached (isText_eq_false_of_budget noBudget) beside isOther kind same
        (surrounded_withText upper lower ck)

theorem attaching_foldl (settings : Settings) (chunks : List (Chunk Picture)) (turns : List Nat)
    (nodup : turns.Nodup) :
    Attaching settings chunks turns
      (turns.foldl (attachAt settings (ordered_indices chunks) (text_bounds chunks)) chunks) := by
  induction turns using List.reverseRecOn with
  | nil => exact attaching_nil chunks
  | append_singleton turns idx ih =>
    rw [List.nodup_append] at nodup
    rw [List.foldl_append]
    exact (ih nodup.1).turn fun isTurn =>
      nodup.2.2 idx isTurn idx List.mem_cons_self rfl

theorem map_snd_zipIdx (chunks : List (Chunk Picture)) :
    chunks.zipIdx.map Prod.snd = List.range chunks.length := by
  rw [List.zipIdx_map_snd, List.range_eq_range']

theorem positioned_indices_perm (chunks : List (Chunk Picture)) :
    ((positioned_indices chunks).map Prod.snd).Perm
      ((chunks.zipIdx.filter fun (ck, idx) => (sortKey idx ck).isSome).map Prod.snd) := by
  refine ((List.perm_insertionSort _ _).map Prod.snd).trans (.of_eq ?_)
  rw [List.map_filterMap]
  induction chunks.zipIdx with
  | nil => rfl
  | cons item items ih =>
    obtain ⟨ck, idx⟩ := item
    cases hasKey : sortKey idx ck with
    | none =>
      rw [List.filterMap_cons_none (by simp [hasKey]),
        List.filter_cons_of_neg (by simp [hasKey]), ih]
    | some key =>
      rw [List.filterMap_cons, List.filter_cons_of_pos (by simp [hasKey]), List.map_cons,
        ← ih]
      simp [hasKey]

theorem ordered_indices_perm (chunks : List (Chunk Picture)) :
    (ordered_indices chunks).Perm (List.range chunks.length) := by
  unfold ordered_indices
  split_ifs
  · rw [← map_snd_zipIdx, unpositioned_indices]
    apply ((positioned_indices_perm chunks).append_right _).trans
    rw [← List.map_append]
    have missing : (fun item : Chunk Picture × Nat => (sortKey item.2 item.1).isNone) =
        fun item => !(sortKey item.2 item.1).isSome := by
      funext item
      cases sortKey item.2 item.1 <;> rfl
    rw [missing]
    exact (List.filter_append_perm _ chunks.zipIdx).map Prod.snd
  · exact .refl _

theorem filterMap_range (chunks : List (Chunk Picture)) :
    (List.range chunks.length).filterMap (chunks[·]?) = chunks := by
  induction chunks with
  | nil => rfl
  | cons ck chunks ih =>
    have first : (ck :: chunks)[0]? = some ck := rfl
    rw [List.length_cons, List.range_succ_eq_map, List.filterMap_cons, first, List.filterMap_map]
    exact congrArg (ck :: ·) ih

/-- The own text is between pieces of texts before the chunk and pieces of texts behind it. -/
def SurroundedInOrder (settings : Settings) (chunks : List (Chunk Picture)) : Prop :=
  let result := attach_media_context settings chunks
  ∀ idx new, result[idx]? = some new → new.is_text_chunk = false →
    ∃ ck ∈ chunks, ck.is_text_chunk = false ∧ ∃ above below : List Text,
      new.get_text = join (above ++ self_text ck ++ below) ∧
      (∀ piece ∈ above, ∃ text ∈ result.take idx,
        text.is_text_chunk = true ∧ piece <:+: text.get_text) ∧
      ∀ piece ∈ below, ∃ text ∈ result.drop (idx + 1),
        text.is_text_chunk = true ∧ piece <:+: text.get_text

def chunkAt (doc_type_kwd : String) (text : String) (top : ℚ) : Chunk Unit where
  doc_type_kwd := some doc_type_kwd
  content_with_weight := .str text.toList
  text := .missing
  image := none
  content_ltks := none
  content_sm_ltks := none
  page_num_int := [1]
  page_number := none
  top_int := [top]
  top := none
  bottom := none
  x0 := none
  position_int := []

def figurePage : List (Chunk Unit) := [chunkAt "image" "Figure" 0, chunkAt "text" "One.Two." 9]

def figureSettings : Settings where
  num_tokens_from_string := List.length
  tokenize := id
  fine_grained_tokenize := id
  table_context_size := 8
  image_context_size := 8

theorem attach_media_context_figurePage :
    (attach_media_context figureSettings figurePage)[0]?.map (fun ck =>
      (ck.get_text, ck.is_text_chunk)) = some ("One.\nFigure\nTwo.".toList, false) := by
  decide

end RagFlow.Chunking.MediaContext
