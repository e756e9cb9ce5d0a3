import RagFlow.Chunking.DocxReading

/-!
# Contexts are what is around

The context of a table or an image is gathered from the chunks before it, back from the end, and
from those behind it, on from the start.
-/

namespace RagFlow.Chunking

open Lib

variable {Picture : Type} {settings : DocxSettings} {cks : List (Ck Picture)}

theorem flatten_joinEnds (pieces : List Text) : (joinEnds pieces).flatten = pieces.flatten := by
  induction pieces using joinEnds.induct with
  | case1 => rfl
  | case2 text => rfl
  | case3 text ending rest ih =>
    rw [joinEnds, List.flatten_cons, ih, List.append_assoc]
    rfl

theorem sentenceEnd_consumes : sentenceEnd.Consumes :=
  (Regex.consumes_char _).alt (Regex.consumes_literal (by decide))

theorem flatten_sentences (cnt : Text) : (sentences cnt).flatten = cnt := by
  rw [sentences, flatten_joinEnds, Regex.flatten_split sentenceEnd_consumes]

theorem takeReversed_suffix (settings : DocxSettings) (need_tokens : Nat) (acc : Text)
    (reversed : List Text) :
    takeReversed settings need_tokens acc reversed <:+ reversed.reverse.flatten ++ acc := by
  induction reversed generalizing acc with
  | nil => exact List.suffix_rfl
  | cons sentence before ih =>
    rw [takeReversed, List.reverse_cons, List.flatten_append, List.flatten_singleton,
      List.append_assoc]
    split_ifs
    · exact List.suffix_append _ _
    · exact ih (sentence ++ acc)

theorem take_sentences_from_end_ends (cnt : Text) (need_tokens : Nat) :
    take_sentences_from_end settings cnt need_tokens <:+ cnt := by
  have taken := takeReversed_suffix settings need_tokens [] (sentences cnt).reverse
  rwa [List.reverse_reverse, flatten_sentences, List.append_nil] at taken

theorem takeForward_prefix (settings : DocxSettings) (need_tokens : Nat) (acc : Text)
    (texts : List Text) :
    takeForward settings need_tokens acc texts <+: acc ++ texts.flatten := by
  induction texts generalizing acc with
  | nil => exact List.prefix_append _ _
  | cons sentence after ih =>
    rw [takeForward, List.flatten_cons, ← List.append_assoc]
    split_ifs
    · exact List.prefix_append _ _
    · exact ih (acc ++ sentence)

theorem take_sentences_from_start_begins (cnt : Text) (need_tokens : Nat) :
    take_sentences_from_start settings cnt need_tokens <+: cnt := by
  have taken := takeForward_prefix settings need_tokens [] (sentences cnt)
  rwa [flatten_sentences] at taken

theorem letters_ending {short long : Text} (suffix : short <:+ long) :
    letters short <:+ letters long := suffix.filter _

theorem letters_beginning {short long : Text} (isPrefix : short <+: long) :
    letters short <+: letters long := isPrefix.filter _

theorem contextAbove_suffix (settings : DocxSettings) (remain_above : Nat)
    (reversed : List (Ck Picture)) :
    letters (contextAbove settings remain_above reversed) <:+
      Interleaved.symbols (reading reversed.reverse) := by
  induction reversed generalizing remain_above with
  | nil => exact List.suffix_rfl
  | cons prev before ih =>
    rw [List.reverse_cons, reading_append, reading_singleton, Interleaved.symbols_append,
      contextAbove]
    split_ifs with noneRemain isText enough
    · exact List.nil_suffix
    · rw [ckTrack, if_pos isText, Interleaved.symbols_ofSymbols]
      exact (letters_ending (take_sentences_from_end_ends _ _)).trans (List.suffix_append _ _)
    · rw [ckTrack, if_pos isText, Interleaved.symbols_ofSymbols, letters_append,
        List.suffix_append_self_iff]
      exact ih _
    · rw [ckTrack, if_neg isText, Interleaved.symbols_mark, List.append_nil]
      exact ih _

theorem contextBelow_prefix (settings : DocxSettings) (remain_below : Nat)
    (cks : List (Ck Picture)) :
    letters (contextBelow settings remain_below cks) <+: Interleaved.symbols (reading cks) := by
  induction cks generalizing remain_below with
  | nil => exact List.prefix_rfl
  | cons next after ih =>
    rw [reading_cons, Interleaved.symbols_append, contextBelow]
    split_ifs with noneRemain isText enough
    · exact List.nil_prefix
    · rw [ckTrack, if_pos isText, Interleaved.symbols_ofSymbols]
      exact (letters_beginning (take_sentences_from_start_begins _ _)).trans (List.prefix_append _ _)
    · rw [ckTrack, if_pos isText, Interleaved.symbols_ofSymbols, letters_append,
        List.prefix_append_right_inj]
      exact ih _
    · rw [ckTrack, if_neg isText, Interleaved.symbols_mark, List.nil_append]
      exact ih _

def ContextsFit (cks : List (Ck Picture)) : Prop :=
  ∀ idx ck, cks[idx]? = some ck → ck.ck_type ≠ .text → ContextFits ck
    (Interleaved.symbols (reading (cks.take idx)),
      Interleaved.symbols (reading (cks.drop (idx + 1))))

theorem reading_eq_flatten (cks : List (Ck Picture)) : reading cks = (cks.map ckTrack).flatten :=
  (List.flatMap_def ..)

theorem map_add_context (settings : DocxSettings) {Read : Type} (read : Ck Picture → Read)
    (same : ∀ ck context_above context_below,
      read { ck with context_above := context_above, context_below := context_below } = read ck)
    (context_size : Nat) (cks : List (Ck Picture)) (idx : Nat) :
    (add_context settings context_size cks idx).map read = cks.map read := by
  apply List.ext_getElem?
  intro other
  rw [List.getElem?_map, List.getElem?_map, add_context]
  by_cases isHere : idx = other
  · subst isHere
    rw [List.getElem?_modify_eq]
    cases cks[idx]? with
    | none => rfl
    | some ck =>
      apply congrArg some
      dsimp only
      split_ifs
      · rfl
      · exact same ck _ _
  · rw [List.getElem?_modify_ne _ _ isHere]

theorem reading_take_of_map {first second : List (Ck Picture)}
    (same : first.map ckTrack = second.map ckTrack) (count : Nat) :
    reading (first.take count) = reading (second.take count) ∧
      reading (first.drop count) = reading (second.drop count) := by
  simp only [reading_eq_flatten, List.map_take, List.map_drop, same, and_self]

theorem contextsFit_add_context (fits : ContextsFit cks) (context_size idx : Nat) :
    ContextsFit (add_context settings context_size cks idx) := by
  intro other ck found isMedia
  have same := map_add_context settings ckTrack (fun _ _ _ => rfl)
    context_size cks idx
  rw [(reading_take_of_map same other).1, (reading_take_of_map same (other + 1)).2]
  rw [add_context] at found
  by_cases isHere : idx = other
  · subst isHere
    rw [List.getElem?_modify_eq, Option.map_eq_map, Option.map_eq_some_iff] at found
    obtain ⟨old, isOld, rfl⟩ := found
    split_ifs at isMedia ⊢ with isText
    · exact absurd isText isMedia
    · constructor
      · have above := contextAbove_suffix settings context_size (cks.take idx).reverse
        rwa [List.reverse_reverse] at above
      · exact contextBelow_prefix _ _ _
  · rw [List.getElem?_modify_ne _ _ isHere] at found
    exact fits other ck found isMedia

theorem forall₂_places (before : List Char)
    (fits : ∀ idx ck, cks[idx]? = some ck → ck.ck_type ≠ .text → ContextFits ck
      (before ++ Interleaved.symbols (reading (cks.take idx)),
        Interleaved.symbols (reading (cks.drop (idx + 1))))) :
    List.Forall₂ ContextFits (mediaCks cks) (Interleaved.places before (reading cks)) := by
  induction cks generalizing before with
  | nil => exact .nil
  | cons ck cks ih =>
    have later := fun idx => fits (idx + 1)
    by_cases isText : ck.ck_type = .text
    · have skipped : mediaCks (ck :: cks) = mediaCks cks :=
        List.filter_cons_of_neg (by simp [isText])
      rw [reading_cons, ckTrack_of_text isText, Interleaved.places_ofSymbols_append, skipped]
      apply ih _
      intro idx other found isMedia
      have fitsHere := later idx other found isMedia
      rwa [List.take_succ_cons, reading_cons, ckTrack_of_text isText, Interleaved.symbols_append,
        Interleaved.symbols_ofSymbols, ← List.append_assoc] at fitsHere
    · have kept : mediaCks (ck :: cks) = ck :: mediaCks cks :=
        List.filter_cons_of_pos (by simp [isText])
      rw [reading_cons, ckTrack_of_media isText, kept]
      refine .cons ?_ (ih _ fun idx other found isMedia => ?_)
      · have fitsHere := fits 0 ck rfl isText
        have nothingBefore :
            before ++ Interleaved.symbols (reading ((ck :: cks).take 0)) = before :=
          List.append_nil _
        rwa [nothingBefore] at fitsHere
      · have fitsHere := later idx other found isMedia
        rwa [List.take_succ_cons, reading_cons, ckTrack_of_media isText,
          Interleaved.symbols_append, Interleaved.symbols_mark, List.nil_append] at fitsHere

def NoContexts (building : Building Picture) : Prop :=
  ∀ ck ∈ building.cks, ck.context_above = [] ∧ ck.context_below = []

theorem NoContexts.concat {building next : Building Picture} (noContexts : NoContexts building)
    (text : Text) (image : Option Picture) (ck_type : CkType)
    (added : next.cks = building.cks ++ [newCk settings text image ck_type]) : NoContexts next := by
  intro ck mem
  rw [added] at mem
  rcases List.mem_append.mp mem with old | new
  · exact noContexts ck old
  · exact List.mem_singleton.mp new ▸ ⟨rfl, rfl⟩

theorem NoContexts.flushSeg {building : Building Picture} (noContexts : NoContexts building) :
    NoContexts (flushSeg settings building) := by
  unfold Chunking.flushSeg
  dsimp only
  split_ifs
  · exact noContexts
  · exact noContexts.concat _ _ _ rfl

theorem NoContexts.addPart {building : Building Picture} (noContexts : NoContexts building)
    (part : Text) : NoContexts (addPart settings building part) := by
  unfold Chunking.addPart
  split_ifs
  · exact noContexts.flushSeg
  · exact noContexts

theorem NoContexts.addSection {building : Building Picture} (noContexts : NoContexts building)
    (sec : DocxSection Picture) : NoContexts (addSection settings building sec) := by
  unfold Chunking.addSection
  dsimp only
  split_ifs
  · exact noContexts.concat _ _ _ rfl
  · exact noContexts.concat _ _ _ rfl
  · exact List.foldlRecOn _ _ noContexts fun _ earlier part _ => earlier.addPart part
  · exact noContexts
  · exact noContexts.concat _ _ _ rfl

theorem noContexts_build_cks (settings : DocxSettings) (sections : List (DocxSection Picture)) :
    NoContexts (build_cks settings sections) := by
  have built : NoContexts (sections.foldl (addSection settings) ⟨[], [], [], []⟩) :=
    List.foldlRecOn sections _ (by simp [NoContexts]) fun _ earlier sec _ => earlier.addSection sec
  unfold build_cks
  dsimp only
  split_ifs
  · exact built.flushSeg
  · exact built

theorem contextsFit_build_cks (settings : DocxSettings) (sections : List (DocxSection Picture)) :
    ContextsFit (build_cks settings sections).cks := by
  intro idx ck found _
  obtain ⟨noAbove, noBelow⟩ :=
    noContexts_build_cks settings sections ck (List.mem_of_getElem? found)
  rw [ContextFits, noAbove, noBelow]
  exact ⟨List.nil_suffix, List.nil_prefix⟩

theorem contextsFit_foldl (context_size : Nat) (idxs : List Nat) (fits : ContextsFit cks) :
    ContextsFit (idxs.foldl (add_context settings context_size) cks) := by
  induction idxs generalizing cks with
  | nil => exact fits
  | cons idx idxs ih =>
    exact ih (contextsFit_add_context fits context_size idx)

theorem map_foldl_add_context {Read : Type} (read : Ck Picture → Read)
    (same : ∀ ck context_above context_below,
      read { ck with context_above := context_above, context_below := context_below } = read ck)
    (context_size : Nat) (idxs : List Nat) (cks : List (Ck Picture)) :
    (idxs.foldl (add_context settings context_size) cks).map read = cks.map read := by
  induction idxs generalizing cks with
  | nil => rfl
  | cons idx idxs ih =>
    rw [List.foldl_cons, ih, map_add_context settings read same]

theorem map_contextedCks (settings : DocxSettings) {Read : Type} (read : Ck Picture → Read)
    (same : ∀ ck context_above context_below,
      read { ck with context_above := context_above, context_below := context_below } = read ck)
    (sections : List (DocxSection Picture)) :
    (contextedCks settings sections).map read = (build_cks settings sections).cks.map read := by
  unfold contextedCks
  dsimp only
  split_ifs <;> simp only [map_foldl_add_context read same]

theorem contextsFit_contextedCks (sections : List (DocxSection Picture)) :
    ContextsFit (contextedCks settings sections) := by
  have built := contextsFit_build_cks settings sections
  unfold contextedCks
  dsimp only
  split_ifs
  · exact contextsFit_foldl _ _ (contextsFit_foldl _ _ built)
  · exact contextsFit_foldl _ _ built
  · exact contextsFit_foldl _ _ built
  · exact built

end RagFlow.Chunking

/-!
# When merging keeps the order of a document

Without delimiters a text may be put into the chunk of a text before.
-/

namespace RagFlow.Chunking

open Lib

variable {Picture : Type} {settings : DocxSettings} {cks : List (Ck Picture)}

inductive Gathered : Option Nat → Bool → MergedCks Picture → Prop
  | nothing (merged : List (Ck Picture)) (image_idxs : List Nat) (followed : Bool) :
      Gathered none followed ⟨merged, image_idxs, none⟩
  | last (front media : List (Ck Picture)) (ck : Ck Picture) (image_idxs : List Nat)
      (isText : ck.ck_type = .text) (noText : ∀ other ∈ media, other.ck_type ≠ .text) :
      Gathered (some ck.tk_nums) (media ≠ []) ⟨front ++ ck :: media, image_idxs, some front.length⟩

theorem symbols_reading_media {media : List (Ck Picture)}
    (noText : ∀ other ∈ media, other.ck_type ≠ .text) :
    Interleaved.symbols (reading media) = [] ∧
      (Interleaved.marks (reading media)).length = media.length := by
  induction media with
  | nil => exact ⟨rfl, rfl⟩
  | cons ck media ih =>
    obtain ⟨noSymbols, count⟩ :=
      ih fun other mem => noText other (List.mem_cons_of_mem _ mem)
    rw [reading_cons, ckTrack_of_media (noText ck List.mem_cons_self)]
    exact ⟨noSymbols, congrArg (· + 1) count⟩

/-- Merging reads as the document so far, or has carried texts before tables and images. -/
structure Carried (merged before : Track Picture) : Prop where
  sameCount : (Interleaved.symbols merged).length = (Interleaved.symbols before).length
  more : Interleaved.lag 0 before < Interleaved.lag 0 merged

theorem Carried.append {merged before : Track Picture} (carried : Carried merged before)
    (after : Track Picture) :
    Interleaved.lag 0 (before ++ after) < Interleaved.lag 0 (merged ++ after) := by
  rw [Interleaved.lag_append, Interleaved.lag_append, carried.sameCount]
  exact Nat.add_lt_add_right carried.more _

theorem ckTrack_extendCk {last ck : Ck Picture} (lastIsText : last.ck_type = .text)
    (isText : ck.ck_type = .text) :
    ckTrack (extendCk last ck) = ckTrack last ++ ckTrack ck := by
  have extendedIsText : (extendCk last ck).ck_type = .text := lastIsText
  rw [ckTrack_of_text extendedIsText, ckTrack_of_text lastIsText, ckTrack_of_text isText,
    ← Interleaved.ofSymbols_append, ← letters_append]
  rfl

theorem carried_put (front : List (Ck Picture)) {media : List (Ck Picture)} {last ck : Ck Picture}
    (lastIsText : last.ck_type = .text) (noText : ∀ other ∈ media, other.ck_type ≠ .text)
    (followed : media ≠ []) (isText : ck.ck_type = .text) (visible : letters ck.text ≠ []) :
    Carried (reading (front ++ extendCk last ck :: media))
      (reading (front ++ last :: media) ++ ckTrack ck) := by
  obtain ⟨noSymbols, count⟩ := symbols_reading_media noText
  have extended := ckTrack_extendCk lastIsText isText
  have lags (ahead : Nat) : Interleaved.lag ahead (ckTrack last) = 0 := by
    rw [ckTrack_of_text lastIsText, Interleaved.lag_ofSymbols]
  constructor
  · simp [reading_append, reading_cons, extended, ckTrack_of_text isText, noSymbols]
  · have crossing : 0 < (letters ck.text).length * (Interleaved.marks (reading media)).length := by
      rw [count]
      exact Nat.mul_pos (List.length_pos_iff.mpr visible) (List.length_pos_iff.mpr followed)
    simp only [reading_append, reading_cons, extended, ckTrack_of_text isText, List.append_assoc,
      Interleaved.lag_append, lags, Interleaved.lag_ofSymbols, Interleaved.symbols_ofSymbols,
      Interleaved.lag_add _ (letters ck.text).length]
    omega

theorem mergeCk_media (settings : DocxSettings) (state : MergedCks Picture) {ck : Ck Picture}
    (isMedia : ck.ck_type ≠ .text) :
    ∃ image_idxs, mergeCk settings state ck =
      ⟨state.merged ++ [ck], image_idxs, state.prev_text_ck⟩ := by
  simp [mergeCk, isMedia]

theorem mergeCk_open (noDelimiters : settings.delimiters = []) (front media : List (Ck Picture))
    {last ck : Ck Picture} (image_idxs : List Nat) (isText : ck.ck_type = .text)
    (fewTokens : (last.tk_nums : Int) < settings.chunk_token_num) :
    mergeCk settings ⟨front ++ last :: media, image_idxs, some front.length⟩ ck =
      ⟨front ++ extendCk last ck :: media, image_idxs, some front.length⟩ := by
  have isOpen :
      isClosed settings ⟨front ++ last :: media, image_idxs, some front.length⟩ = false := by
    simp [isClosed, fewTokens]
  have put : (front ++ last :: media).modify front.length (extendCk · ck) =
      front ++ extendCk last ck :: media := by
    rw [List.modify_eq_take_cons_drop (by simp)]
    simp
  simp [mergeCk, isText, isOpen, noDelimiters, put]

theorem mergeCk_new {state : MergedCks Picture} {ck : Ck Picture} (isText : ck.ck_type = .text)
    (closed : isClosed settings state = true) :
    mergeCk settings state ck =
      ⟨state.merged ++ [ck], state.image_idxs, some state.merged.length⟩ := by
  simp [mergeCk, isText, closed]

theorem mediaCks_append (first second : List (Ck Picture)) :
    mediaCks (first ++ second) = mediaCks first ++ mediaCks second :=
  List.filter_append _ _

theorem mediaCks_put {front media : List (Ck Picture)} {last ck : Ck Picture}
    (lastIsText : last.ck_type = .text) (isText : ck.ck_type = .text) :
    mediaCks (front ++ extendCk last ck :: media) =
      mediaCks (front ++ last :: media) ++ mediaCks [ck] := by
  have noMedia (other : Ck Picture) (isText : other.ck_type = .text) (cks : List (Ck Picture)) :
      mediaCks (other :: cks) = mediaCks cks := List.filter_cons_of_neg (by simp [isText])
  rw [noMedia ck isText, mediaCks_append, mediaCks_append, noMedia last lastIsText,
    noMedia (extendCk last ck) lastIsText]
  exact (List.append_nil _).symm

/-- Merging more chunks reads as these chunks exactly if nothing is carried. -/
structure MergesAs (settings : DocxSettings) (state : MergedCks Picture) (size : Option Nat)
    (followed : Bool) (cks : List (Ck Picture)) : Prop where
  kept : GathersBetweenMedia settings.chunk_token_num size followed (cks.map ckSize) →
    reading (cks.foldl (mergeCk settings) state).merged = reading state.merged ++ reading cks
  carried : ¬ GathersBetweenMedia settings.chunk_token_num size followed (cks.map ckSize) →
    Interleaved.lag 0 (reading state.merged ++ reading cks) <
      Interleaved.lag 0 (reading (cks.foldl (mergeCk settings) state).merged)
  media : mediaCks (cks.foldl (mergeCk settings) state).merged =
    mediaCks state.merged ++ mediaCks cks

theorem MergesAs.lag_le {state : MergedCks Picture} {size : Option Nat} {followed : Bool}
    (merges : MergesAs settings state size followed cks) :
    Interleaved.lag 0 (reading state.merged ++ reading cks) ≤
      Interleaved.lag 0 (reading (cks.foldl (mergeCk settings) state).merged) := by
  by_cases gathers : GathersBetweenMedia settings.chunk_token_num size followed (cks.map ckSize)
  · exact le_of_eq (congrArg _ (merges.kept gathers).symm)
  · exact le_of_lt (merges.carried gathers)

theorem MergesAs.cons {state : MergedCks Picture} {ck : Ck Picture} {size newSize : Option Nat}
    {followed nowFollowed : Bool}
    (merges : MergesAs settings (mergeCk settings state ck) newSize nowFollowed cks)
    (behind : reading (mergeCk settings state ck).merged = reading state.merged ++ ckTrack ck)
    (mediaNext : mediaCks (mergeCk settings state ck).merged =
      mediaCks state.merged ++ mediaCks [ck])
    (next : GathersBetweenMedia settings.chunk_token_num size followed
        (ckSize ck :: cks.map ckSize) ↔
      GathersBetweenMedia settings.chunk_token_num newSize nowFollowed (cks.map ckSize)) :
    MergesAs settings state size followed (ck :: cks) := by
  have whole : reading state.merged ++ reading (ck :: cks) =
      reading (mergeCk settings state ck).merged ++ reading cks := by
    rw [reading_cons, ← List.append_assoc, behind]
  constructor
  · intro gathers
    rw [whole]
    exact merges.kept (next.mp gathers)
  · intro carried
    rw [whole]
    exact merges.carried (mt next.mpr carried)
  · rw [List.foldl_cons, merges.media, mediaNext, List.append_assoc, ← mediaCks_append]
    rfl

theorem MergesAs.new {state : MergedCks Picture} {ck : Ck Picture} {size : Option Nat}
    {followed : Bool} (isText : ck.ck_type = .text) (closed : isClosed settings state = true)
    (merges : MergesAs settings (mergeCk settings state ck) (some ck.tk_nums) false cks)
    (next : GathersBetweenMedia settings.chunk_token_num size followed
        (some ck.tk_nums :: cks.map ckSize) ↔
      GathersBetweenMedia settings.chunk_token_num (some ck.tk_nums) false (cks.map ckSize)) :
    MergesAs settings state size followed (ck :: cks) := by
  have sized : ckSize ck = some ck.tk_nums := if_pos isText
  refine merges.cons ?_ ?_ (sized ▸ next)
  · rw [mergeCk_new isText closed, reading_append, reading_singleton]
  · rw [mergeCk_new isText closed, mediaCks_append]

theorem gathered_new {state : MergedCks Picture} {ck : Ck Picture} (isText : ck.ck_type = .text)
    (closed : isClosed settings state = true) :
    Gathered (some ck.tk_nums) false (mergeCk settings state ck) := by
  rw [mergeCk_new isText closed]
  exact .last state.merged [] ck state.image_idxs isText (by simp)

theorem MergesAs.put (noDelimiters : settings.delimiters = []) {front media : List (Ck Picture)}
    {last ck : Ck Picture} {image_idxs : List Nat} (lastIsText : last.ck_type = .text)
    (noText : ∀ other ∈ media, other.ck_type ≠ .text) (isText : ck.ck_type = .text)
    (visible : letters ck.text ≠ []) (fewTokens : (last.tk_nums : Int) < settings.chunk_token_num)
    (merges : MergesAs settings ⟨front ++ extendCk last ck :: media, image_idxs, some front.length⟩
      (some (last.tk_nums + ck.tk_nums)) (media ≠ []) cks) :
    MergesAs settings ⟨front ++ last :: media, image_idxs, some front.length⟩ (some last.tk_nums)
      (media ≠ []) (ck :: cks) := by
  have sized : ckSize ck = some ck.tk_nums := if_pos isText
  have put := mergeCk_open noDelimiters front media image_idxs isText fewTokens
  by_cases followed : media = []
  · subst followed
    refine MergesAs.cons (put ▸ merges) ?_ ?_ ?_
    · rw [put, reading_append, reading_append, reading_singleton, reading_singleton,
        List.append_assoc, ckTrack_extendCk lastIsText isText]
    · rw [put, mediaCks_put lastIsText isText]
    · simp [sized, GathersBetweenMedia, fewTokens]
  · have carried := carried_put front lastIsText noText followed isText visible
    have less := (carried.append (reading cks)).trans_le merges.lag_le
    rw [List.append_assoc, ← reading_cons] at less
    constructor
    · intro gathers
      simp [sized, GathersBetweenMedia, fewTokens, followed] at gathers
    · intro _
      rw [List.foldl_cons, put]
      exact less
    · rw [List.foldl_cons, put, merges.media, mediaCks_put lastIsText isText, List.append_assoc,
        ← mediaCks_append]
      rfl

theorem gathered_media {state : MergedCks Picture} {ck : Ck Picture} {size : Option Nat}
    {followed : Bool} (isMedia : ck.ck_type ≠ .text) (gathered : Gathered size followed state) :
    Gathered size true (mergeCk settings state ck) := by
  obtain ⟨image_idxs, behind⟩ := mergeCk_media settings state isMedia
  rw [behind]
  cases gathered with
  | nothing merged => exact .nothing _ _ _
  | last front media last _ lastIsText noText =>
    have noTextNow : ∀ other ∈ media ++ [ck], other.ck_type ≠ .text := by
      simpa [or_imp, forall_and] using ⟨noText, isMedia⟩
    have gatheredNow := Gathered.last front (media ++ [ck]) last image_idxs lastIsText noTextNow
    have followed : media ++ [ck] ≠ [] :=
      List.append_ne_nil_of_right_ne_nil media (List.cons_ne_nil ck [])
    rw [decide_eq_true followed] at gatheredNow
    rwa [List.append_assoc, List.cons_append]

theorem merges_as (noDelimiters : settings.delimiters = [])
    (visible : ∀ ck ∈ cks, ck.ck_type = .text → letters ck.text ≠ [])
    {state : MergedCks Picture} {size : Option Nat} {followed : Bool}
    (gathered : Gathered size followed state) : MergesAs settings state size followed cks := by
  induction cks generalizing state size followed with
  | nil =>
    exact ⟨fun _ => (List.append_nil _).symm,
      fun carried => absurd (by simp [GathersBetweenMedia]) carried, (List.append_nil _).symm⟩
  | cons ck cks ih =>
    have rest {state : MergedCks Picture} {size : Option Nat} {followed : Bool}
        (gathered : Gathered size followed state) : MergesAs settings state size followed cks :=
      ih (fun other mem => visible other (List.mem_cons_of_mem _ mem)) gathered
    by_cases isText : ck.ck_type = .text
    · cases gathered with
      | nothing => exact (rest (gathered_new isText rfl)).new isText rfl Iff.rfl
      | last front media last image_idxs lastIsText noText =>
        by_cases fewTokens : (last.tk_nums : Int) < settings.chunk_token_num
        · exact (rest (.last front media (extendCk last ck) image_idxs lastIsText noText)).put
            noDelimiters lastIsText noText isText (visible ck List.mem_cons_self isText)
            fewTokens
        · have closed : isClosed settings
              ⟨front ++ last :: media, image_idxs, some front.length⟩ = true := by
            simpa [isClosed] using fewTokens
          exact (rest (gathered_new isText closed)).new isText closed
            (by simp [GathersBetweenMedia, fewTokens])
    · have noSize : ckSize ck = none := if_neg isText
      obtain ⟨image_idxs, behind⟩ := mergeCk_media settings state isText
      refine (rest (gathered_media isText gathered)).cons ?_ ?_ ?_
      · rw [behind, reading_append, reading_singleton]
      · rw [behind, mediaCks_append]
      · rw [noSize]
        cases size <;> rfl

theorem naive_merge_docx_eq (settings : DocxSettings) (sections : List (DocxSection Picture)) :
    naive_merge_docx settings sections = merge_cks settings (contextedCks settings sections) := by
  unfold naive_merge_docx
  split_ifs with noSections
  · subst noSections
    have blank : PyString.stripChars ([] : Text) = [] := rfl
    simp [contextedCks, build_cks, flushSeg, blank, merge_cks]
  · rfl

theorem merge_cks_custom (isCustom : settings.delimiters ≠ []) (cks : List (Ck Picture)) :
    (merge_cks settings cks).1 = cks := by
  have appended (state : MergedCks Picture) :
      (cks.foldl (mergeCk settings) state).merged = state.merged ++ cks := by
    induction cks generalizing state with
    | nil => exact (List.append_nil _).symm
    | cons ck cks ih =>
      have behind : (mergeCk settings state ck).merged = state.merged ++ [ck] := by
        by_cases isText : ck.ck_type = .text
        · simp [mergeCk, isText, isCustom]
        · simp [mergeCk, isText]
      rw [List.foldl_cons, ih, behind, List.append_assoc]
      rfl
  exact appended _

theorem reading_contextedCks (sections : List (DocxSection Picture)) :
    reading (contextedCks settings sections) = reading (build_cks settings sections).cks := by
  rw [reading_eq_flatten, reading_eq_flatten, map_contextedCks settings ckTrack fun _ _ _ => rfl]

theorem reading_naive_merge_docx (settings : DocxSettings) (sections : List (DocxSection Picture)) :
    (reading (naive_merge_docx settings sections).1 = document settings sections ↔
      KeepsBetweenMedia settings sections) ∧
      mediaCks (naive_merge_docx settings sections).1 =
        mediaCks (contextedCks settings sections) := by
  rw [naive_merge_docx_eq, KeepsBetweenMedia]
  split_ifs with isCustom
  · rw [merge_cks_custom isCustom, reading_contextedCks]
    exact ⟨reading_build_cks isCustom sections, rfl⟩
  · have noDelimiters := not_not.mp isCustom
    have built := built_plain noDelimiters sections
    have sizes : (contextedCks settings sections).map ckSize =
        sections.filterMap (sizeOf? settings) :=
      (map_contextedCks settings ckSize (fun _ _ _ => rfl) sections).trans built.sizes
    have inOrder : reading (contextedCks settings sections) = document settings sections :=
      (reading_contextedCks sections).trans built.inOrder
    have visible : ∀ ck ∈ contextedCks settings sections, ck.ck_type = .text →
        letters ck.text ≠ [] := by
      intro ck mem isText
      let read (ck : Ck Picture) := (ck.ck_type, ck.text)
      have same := map_contextedCks settings read (fun _ _ _ => rfl) sections
      have isRead : read ck ∈ (contextedCks settings sections).map read := List.mem_map_of_mem mem
      rw [same] at isRead
      obtain ⟨other, isBuilt, sameRead⟩ := List.mem_map.mp isRead
      obtain ⟨sameType, sameText⟩ := Prod.mk.inj sameRead
      exact sameText ▸ built.visible other isBuilt (sameType.trans isText)
    have merges := merges_as noDelimiters visible (.nothing [] [] false)
    rw [← sizes, ← inOrder]
    refine ⟨⟨fun same => ?_, merges.kept⟩, merges.media⟩
    by_contra carried
    exact absurd (congrArg (Interleaved.lag 0) same).symm (merges.carried carried).ne

/-- The order of a document is kept exactly if no text is carried past a table or an image. -/
theorem preservesOrder_iff (settings : DocxSettings) (sections : List (DocxSection Picture)) :
    PreservesOrder settings sections ↔ KeepsBetweenMedia settings sections := by
  obtain ⟨inOrder, media⟩ := reading_naive_merge_docx settings sections
  refine ⟨fun preserves => inOrder.mp preserves.inOrder, fun keeps => ⟨inOrder.mpr keeps, ?_⟩⟩
  have read : reading (contextedCks settings sections) = document settings sections := by
    rw [reading_contextedCks]
    by_cases isCustom : settings.delimiters ≠ []
    · rw [KeepsBetweenMedia, if_pos isCustom] at keeps
      exact (reading_build_cks isCustom sections).mpr keeps
    · exact (built_plain (not_not.mp isCustom) sections).inOrder
  rw [media, ← read]
  exact forall₂_places [] (contextsFit_contextedCks sections)

def report : List (DocxSection Unit) :=
  [⟨"Sales".toList, none, []⟩, ⟨[], some (), []⟩, ⟨"Costs".toList, none, []⟩]

def reportSettings : DocxSettings where
  num_tokens := List.length
  chunk_token_num := 128
  delimiter := "\n。；！？".toList
  table_context_size := 0
  image_context_size := 0

/-- The line under the picture is put before it. -/
theorem not_preservesOrder_report : ¬ PreservesOrder reportSettings report := by
  intro preserves
  exact absurd preserves.inOrder (by decide)

end RagFlow.Chunking
