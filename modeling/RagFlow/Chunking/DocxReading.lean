import Mathlib.Data.List.Induction
import Mathlib.Data.List.TakeWhile
import RagFlow.Chunking.Delimiters
import RagFlow.Lib.Interleaved
import RagFlow.Lib.PyString

/-!
# Sections of a Word document merged

`rag/nlp/__init__.py`: `naive_merge_docx` with `_build_cks`, `_add_context` and `_merge_cks`.  Texts
become chunks, tables and images chunks of their own that get the text around them as context.
-/

namespace RagFlow.Chunking

open Lib

inductive CkType
  | text
  | table
  | image
  deriving DecidableEq

variable {Picture : Type}

/-- A text, and an image or a table, which is empty for a text alone. -/
structure DocxSection (Picture : Type) where
  text : Text
  image : Option Picture
  table : Text

structure Ck (Picture : Type) where
  text : Text
  image : Option Picture
  ck_type : CkType
  tk_nums : Nat
  context_above : Text
  context_below : Text

structure DocxSettings where
  num_tokens : Text → Nat
  chunk_token_num : Int
  delimiter : Text
  table_context_size : Nat
  image_context_size : Nat

def DocxSettings.delimiters (settings : DocxSettings) : List Text :=
  customDelimiters settings.delimiter

variable (settings : DocxSettings)

def DocxSection.line (sec : DocxSection Picture) : Text :=
  if sec.text = [] then [] else '\n' :: sec.text

def newCk (text : Text) (image : Option Picture) (ck_type : CkType) : Ck Picture where
  text := text
  image := image
  ck_type := ck_type
  tk_nums := settings.num_tokens text
  context_above := []
  context_below := []

structure Building (Picture : Type) where
  cks : List (Ck Picture)
  tables : List Nat
  images : List Nat
  seg : Text

def flushSeg (building : Building Picture) : Building Picture :=
  let s := PyString.stripChars building.seg
  if s = [] then { building with seg := [] }
  else { building with cks := building.cks ++ [newCk settings s none .text], seg := [] }

def isBreak (sub_sec : Text) : Bool :=
  PyString.stripChars sub_sec = [] ||
    (customPattern settings.delimiters).isFullmatch (PyString.stripChars sub_sec)

def addPart (building : Building Picture) (sub_sec : Text) : Building Picture :=
  if isBreak settings sub_sec then flushSeg settings building
  else { building with seg := building.seg ++ sub_sec }

def addSection (building : Building Picture) (sec : DocxSection Picture) : Building Picture :=
  let text := sec.line
  if sec.table ≠ [] then {
    building with
    cks := building.cks ++ [newCk settings (text ++ sec.table) sec.image .table]
    tables := building.tables ++ [building.cks.length] }
  else if sec.image.isSome then {
    building with
    cks := building.cks ++ [newCk settings text sec.image .image]
    images := building.images ++ [building.cks.length] }
  else if settings.delimiters ≠ [] then
    ((customPattern settings.delimiters).split text).foldl (addPart settings) building
  else
    let t := PyString.stripChars text
    if t = [] then building
    else { building with cks := building.cks ++ [newCk settings t none .text] }

def build_cks (sections : List (DocxSection Picture)) : Building Picture :=
  let building := sections.foldl (addSection settings) ⟨[], [], [], []⟩
  if settings.delimiters ≠ [] then flushSeg settings building else building

def sentenceEnd : Regex := .alt (.oneOf "。!?？；！\n") (.literal ". ")

def joinEnds : List Text → List Text
  | [] => []
  | [text] => [text]
  | text :: ending :: rest => (text ++ ending) :: joinEnds rest

def sentences (cnt : Text) : List Text := joinEnds (sentenceEnd.split cnt)

def takeReversed (need_tokens : Nat) (acc : Text) : List Text → Text
  | [] => acc
  | sentence :: before =>
    if need_tokens ≤ settings.num_tokens (sentence ++ acc) then sentence ++ acc
    else takeReversed need_tokens (sentence ++ acc) before

def take_sentences_from_end (cnt : Text) (need_tokens : Nat) : Text :=
  takeReversed settings need_tokens [] (sentences cnt).reverse

def takeForward (need_tokens : Nat) (acc : Text) : List Text → Text
  | [] => acc
  | sentence :: after =>
    if need_tokens ≤ settings.num_tokens (acc ++ sentence) then acc ++ sentence
    else takeForward need_tokens (acc ++ sentence) after

def take_sentences_from_start (cnt : Text) (need_tokens : Nat) : Text :=
  takeForward settings need_tokens [] (sentences cnt)

def contextAbove (remain_above : Nat) : List (Ck Picture) → Text
  | [] => []
  | prev :: before =>
    if remain_above = 0 then []
    else if prev.ck_type = .text then
      if remain_above ≤ prev.tk_nums then
        take_sentences_from_end settings prev.text remain_above
      else contextAbove (remain_above - prev.tk_nums) before ++ prev.text
    else contextAbove remain_above before

def contextBelow (remain_below : Nat) : List (Ck Picture) → Text
  | [] => []
  | next :: after =>
    if remain_below = 0 then []
    else if next.ck_type = .text then
      if remain_below ≤ next.tk_nums then
        take_sentences_from_start settings next.text remain_below
      else next.text ++ contextBelow (remain_below - next.tk_nums) after
    else contextBelow remain_below after

def add_context (context_size : Nat) (cks : List (Ck Picture)) (idx : Nat) : List (Ck Picture) :=
  cks.modify idx fun ck =>
    if ck.ck_type = .text then ck
    else {
      ck with
      context_above := contextAbove settings context_size (cks.take idx).reverse
      context_below := contextBelow settings context_size (cks.drop (idx + 1)) }

structure MergedCks (Picture : Type) where
  merged : List (Ck Picture)
  image_idxs : List Nat
  prev_text_ck : Option Nat

def extendCk (ck : Ck Picture) (other : Ck Picture) : Ck Picture :=
  { ck with text := ck.text ++ other.text, tk_nums := ck.tk_nums + other.tk_nums }

def isClosed (state : MergedCks Picture) : Bool :=
  match state.prev_text_ck.bind (state.merged[·]?) with
  | none => true
  | some ck => settings.chunk_token_num ≤ ck.tk_nums

def mergeCk (state : MergedCks Picture) (ck : Ck Picture) : MergedCks Picture :=
  if ck.ck_type ≠ .text then {
    state with
    merged := state.merged ++ [ck]
    image_idxs :=
      if ck.ck_type = .image then state.image_idxs ++ [state.merged.length]
      else state.image_idxs }
  else if isClosed settings state ∨ settings.delimiters ≠ [] then {
    state with
    merged := state.merged ++ [ck]
    prev_text_ck := some state.merged.length }
  else {
    state with
    merged := state.merged.modify (state.prev_text_ck.getD 0) (extendCk · ck) }

def merge_cks (cks : List (Ck Picture)) : List (Ck Picture) × List Nat :=
  let state := cks.foldl (mergeCk settings) ⟨[], [], none⟩
  (state.merged, state.image_idxs)

def contextedCks (sections : List (DocxSection Picture)) : List (Ck Picture) :=
  let building := build_cks settings sections
  let cks :=
    if 0 < settings.table_context_size then
      building.tables.foldl (add_context settings settings.table_context_size) building.cks
    else building.cks
  if 0 < settings.image_context_size then
    building.images.foldl (add_context settings settings.image_context_size) cks
  else cks

def naive_merge_docx (sections : List (DocxSection Picture)) : List (Ck Picture) × List Nat :=
  if sections = [] then ([], []) else merge_cks settings (contextedCks settings sections)

end RagFlow.Chunking

/-!
# When merging keeps the order of a document

A document and its chunks are read as letters with tables and images between them.
-/

namespace RagFlow.Chunking

open Lib

variable {Picture : Type}

structure Media (Picture : Type) where
  ck_type : CkType
  text : Text
  image : Option Picture
  deriving DecidableEq

abbrev Track (Picture : Type) := List (Char ⊕ Media Picture)

def letters (text : Text) : List Char := text.filter fun char => !PyString.isSpace char

def ckTrack (ck : Ck Picture) : Track Picture :=
  if ck.ck_type = .text then Interleaved.ofSymbols (letters ck.text)
  else [.inr ⟨ck.ck_type, ck.text, ck.image⟩]

def reading (cks : List (Ck Picture)) : Track Picture := cks.flatMap ckTrack

variable (settings : DocxSettings)

def DocxSection.isMedia (sec : DocxSection Picture) : Bool :=
  sec.table ≠ [] || sec.image.isSome

def partsOf (sec : DocxSection Picture) : List Text :=
  (customPattern settings.delimiters).split sec.line

def keptText (sec : DocxSection Picture) : Text :=
  if settings.delimiters = [] then sec.line
  else ((partsOf settings sec).filter fun part => !isBreak settings part).flatten

def sectionTrack (sec : DocxSection Picture) : Track Picture :=
  if sec.table ≠ [] then [.inr ⟨.table, sec.line ++ sec.table, sec.image⟩]
  else if sec.image.isSome then [.inr ⟨.image, sec.line, sec.image⟩]
  else Interleaved.ofSymbols (letters (keptText settings sec))

def document (sections : List (DocxSection Picture)) : Track Picture :=
  sections.flatMap (sectionTrack settings)

def ContextFits (ck : Ck Picture) (place : List Char × List Char) : Prop :=
  letters ck.context_above <:+ place.1 ∧ letters ck.context_below <+: place.2

def mediaCks (cks : List (Ck Picture)) : List (Ck Picture) :=
  cks.filter fun ck => ck.ck_type ≠ .text

/-- The chunks in order give the document, and contexts are the text around tables and images. -/
structure PreservesOrder (sections : List (DocxSection Picture)) : Prop where
  inOrder : reading (naive_merge_docx settings sections).1 = document settings sections
  contexts : List.Forall₂ ContextFits (mediaCks (naive_merge_docx settings sections).1)
    (Interleaved.places [] (document settings sections))

def partsOfTexts (sections : List (DocxSection Picture)) : List Text :=
  (sections.filter fun sec => !sec.isMedia).flatMap (partsOf settings)

def EndsBeforeMedia (sections : List (DocxSection Picture)) : Prop :=
  ∀ before media after, sections = before ++ media :: after → media.isMedia = true →
    ∀ part ∈ (partsOfTexts settings before).getLast?, isBreak settings part = true

def sizeOf? (sec : DocxSection Picture) : Option (Option Nat) :=
  if sec.isMedia then some none
  else if PyString.stripChars sec.line = [] then none
  else some (some (settings.num_tokens (PyString.stripChars sec.line)))

/-- Texts are gathered until they have enough tokens, and none of them is from behind a table or an
image.  The state is the size that was gathered last and whether a table or an image followed. -/
def GathersBetweenMedia (limit : Int) : Option Nat → Bool → List (Option Nat) → Prop
  | _, _, [] => True
  | size, _, none :: rest => GathersBetweenMedia limit size true rest
  | none, _, some tokens :: rest => GathersBetweenMedia limit (some tokens) false rest
  | some size, followed, some tokens :: rest =>
    if size < limit then
      followed = false ∧ GathersBetweenMedia limit (some (size + tokens)) false rest
    else GathersBetweenMedia limit (some tokens) false rest

def KeepsBetweenMedia (sections : List (DocxSection Picture)) : Prop :=
  if settings.delimiters ≠ [] then EndsBeforeMedia settings sections
  else GathersBetweenMedia settings.chunk_token_num none false
    (sections.filterMap (sizeOf? settings))

variable {settings} {sections : List (DocxSection Picture)} {cks : List (Ck Picture)}

theorem letters_append (first second : Text) :
    letters (first ++ second) = letters first ++ letters second :=
  List.filter_append _ _

theorem letters_stripChars (text : Text) : letters (PyString.stripChars text) = letters text := by
  have dropped (chars : Text) : letters (chars.dropWhile PyString.isSpace) = letters chars := by
    induction chars with
    | nil => rfl
    | cons char chars ih =>
      by_cases space : PyString.isSpace char = true
      · rw [List.dropWhile_cons_of_pos space, ih, letters, letters,
          List.filter_cons_of_neg (by simp [space])]
      · rw [List.dropWhile_cons_of_neg space]
  have reversed (chars : Text) : letters chars.reverse = (letters chars).reverse :=
    List.filter_reverse
  rw [PyString.stripChars, reversed, dropped, reversed, List.reverse_reverse, dropped]

theorem letters_eq_nil_iff (text : Text) : letters text = [] ↔ PyString.stripChars text = [] := by
  constructor
  · intro noLetters
    have spaces : ∀ char ∈ text, PyString.isSpace char = true := by
      simpa [letters] using noLetters
    rw [PyString.stripChars, List.dropWhile_eq_nil_iff.mpr spaces]
    rfl
  · intro isEmpty
    rw [← letters_stripChars, isEmpty]
    rfl

theorem ckTrack_of_text {ck : Ck Picture} (isText : ck.ck_type = .text) :
    ckTrack ck = Interleaved.ofSymbols (letters ck.text) := if_pos isText

theorem ckTrack_of_media {ck : Ck Picture} (isMedia : ck.ck_type ≠ .text) :
    ckTrack ck = [.inr ⟨ck.ck_type, ck.text, ck.image⟩] := if_neg isMedia

theorem reading_cons (ck : Ck Picture) (cks : List (Ck Picture)) :
    reading (ck :: cks) = ckTrack ck ++ reading cks := rfl

theorem reading_append (first second : List (Ck Picture)) :
    reading (first ++ second) = reading first ++ reading second :=
  List.flatMap_append

theorem document_append (first second : List (DocxSection Picture)) :
    document settings (first ++ second) = document settings first ++ document settings second :=
  List.flatMap_append

@[simp] theorem reading_singleton (ck : Ck Picture) : reading [ck] = ckTrack ck :=
  List.flatMap_singleton ..

@[simp] theorem ckTrack_newCk_text (text : Text) (image : Option Picture) :
    ckTrack (newCk settings text image .text) = Interleaved.ofSymbols (letters text) := rfl

def buildingTrack (building : Building Picture) : Track Picture :=
  reading building.cks ++ Interleaved.ofSymbols (letters building.seg)

theorem reading_flushSeg (building : Building Picture) :
    reading (flushSeg settings building).cks = buildingTrack building := by
  unfold flushSeg buildingTrack
  dsimp only
  split_ifs with isEmpty
  · rw [(letters_eq_nil_iff _).mpr isEmpty, Interleaved.ofSymbols_nil, List.append_nil]
  · rw [reading_append, reading_singleton, ckTrack_newCk_text, letters_stripChars]

theorem seg_flushSeg (building : Building Picture) : (flushSeg settings building).seg = [] := by
  unfold flushSeg
  dsimp only
  split_ifs <;> rfl

theorem buildingTrack_flushSeg (building : Building Picture) :
    buildingTrack (flushSeg settings building) = buildingTrack building := by
  rw [buildingTrack, reading_flushSeg, seg_flushSeg]
  exact List.append_nil _

theorem buildingTrack_addPart (building : Building Picture) (part : Text) :
    buildingTrack (addPart settings building part) = buildingTrack building ++
      Interleaved.ofSymbols (letters (if isBreak settings part then [] else part)) := by
  unfold addPart
  split_ifs
  · rw [buildingTrack_flushSeg]
    exact (List.append_nil _).symm
  · rw [buildingTrack, buildingTrack, letters_append, Interleaved.ofSymbols_append,
      List.append_assoc]

theorem buildingTrack_parts (parts : List Text) (building : Building Picture) :
    buildingTrack (parts.foldl (addPart settings) building) = buildingTrack building ++
      Interleaved.ofSymbols
        (letters ((parts.filter fun part => !isBreak settings part).flatten)) := by
  induction parts generalizing building with
  | nil => exact (List.append_nil _).symm
  | cons part parts ih =>
    rw [List.foldl_cons, ih, buildingTrack_addPart, List.append_assoc,
      ← Interleaved.ofSymbols_append, ← letters_append]
    cases broken : isBreak settings part with
    | true => simp [broken]
    | false => simp [broken]

def Waits (settings : DocxSettings) (building : Building Picture) (parts : List Text) : Prop :=
  letters building.seg = [] ↔ ∀ part ∈ parts.getLast?, isBreak settings part = true

theorem waits_parts (parts : List Text) {building : Building Picture} {earlier : List Text}
    (waits : Waits settings building earlier) :
    Waits settings (parts.foldl (addPart settings) building) (earlier ++ parts) := by
  induction parts generalizing building earlier with
  | nil => simpa using waits
  | cons part parts ih =>
    rw [List.foldl_cons, List.append_cons]
    apply ih
    have isLast : (earlier ++ [part]).getLast? = some part := List.getLast?_concat ..
    rw [Waits, isLast]
    unfold addPart
    split_ifs with broken
    · rw [seg_flushSeg]
      exact iff_of_true rfl fun other same => Option.some.inj same ▸ broken
    · refine iff_of_false ?_ fun breaks => broken (breaks part rfl)
      rw [letters_append, List.append_eq_nil_iff, letters_eq_nil_iff part]
      rintro ⟨-, isEmpty⟩
      exact broken (by simp [isBreak, isEmpty])

theorem partsOfTexts_append (first second : List (DocxSection Picture)) :
    partsOfTexts settings (first ++ second) =
      partsOfTexts settings first ++ partsOfTexts settings second := by
  rw [partsOfTexts, List.filter_append, List.flatMap_append]
  rfl

theorem endsBeforeMedia_concat {earlier : List (DocxSection Picture)} (sec : DocxSection Picture) :
    EndsBeforeMedia settings (earlier ++ [sec]) ↔ EndsBeforeMedia settings earlier ∧
      (sec.isMedia = true →
        ∀ part ∈ (partsOfTexts settings earlier).getLast?, isBreak settings part = true) := by
  constructor
  · intro ends
    refine ⟨?_, ends earlier sec [] rfl⟩
    rintro before media after rfl
    exact ends before media (after ++ [sec]) (by simp)
  · rintro ⟨ends, lastEnds⟩ before media after same
    rcases List.eq_nil_or_concat after with rfl | ⟨others, last, rfl⟩
    · obtain ⟨rfl, rfl⟩ := List.append_inj' same rfl |>.imp_right List.singleton_inj.mp
      exact lastEnds
    · rw [List.concat_eq_append, ← List.cons_append, ← List.append_assoc] at same
      obtain ⟨rfl, -⟩ := List.append_inj' same rfl
      exact ends before media others rfl

/-- What is known when some sections have been added: texts are behind tables and images that they
should be before, or all is in order. -/
structure Built (settings : DocxSettings) (earlier : List (DocxSection Picture))
    (building : Building Picture) : Prop where
  nothingLost : Interleaved.symbols (buildingTrack building) =
    Interleaved.symbols (document settings earlier)
  waits : Waits settings building (partsOfTexts settings earlier)
  inOrder : EndsBeforeMedia settings earlier → buildingTrack building = document settings earlier
  late : ¬ EndsBeforeMedia settings earlier →
    Interleaved.lag 0 (buildingTrack building) < Interleaved.lag 0 (document settings earlier)

theorem Built.lag_le {earlier : List (DocxSection Picture)} {building : Building Picture}
    (built : Built settings earlier building) :
    Interleaved.lag 0 (buildingTrack building) ≤ Interleaved.lag 0 (document settings earlier) := by
  by_cases ends : EndsBeforeMedia settings earlier
  · exact le_of_eq (congrArg _ (built.inOrder ends))
  · exact le_of_lt (built.late ends)

theorem built_nil : Built settings ([] : List (DocxSection Picture)) ⟨[], [], [], []⟩ where
  nothingLost := rfl
  waits := iff_of_true rfl (by simp [partsOfTexts])
  inOrder := fun _ => rfl
  late := fun late => absurd (by simp [EndsBeforeMedia]) late

theorem Built.text (isCustom : settings.delimiters ≠ [])
    {earlier : List (DocxSection Picture)} {building : Building Picture}
    (built : Built settings earlier building) {sec : DocxSection Picture}
    (noMedia : sec.isMedia = false) :
    Built settings (earlier ++ [sec]) (addSection settings building sec) := by
  obtain ⟨noTable, noImage⟩ : sec.table = [] ∧ sec.image.isSome = false := by
    simpa [DocxSection.isMedia] using noMedia
  have added : addSection settings building sec =
      (partsOf settings sec).foldl (addPart settings) building := by
    simp [addSection, noTable, noImage, isCustom, partsOf]
  have track : document settings [sec] =
      Interleaved.ofSymbols (letters (keptText settings sec)) := by
    simp [document, sectionTrack, noTable, noImage]
  have parts : partsOfTexts settings [sec] = partsOf settings sec := by
    simp [partsOfTexts, noMedia]
  have read : buildingTrack (addSection settings building sec) =
      buildingTrack building ++ document settings [sec] := by
    rw [added, buildingTrack_parts, track, keptText, if_neg isCustom]
  have lagSame (first : Track Picture) :
      Interleaved.lag 0 (first ++ document settings [sec]) = Interleaved.lag 0 first := by
    rw [track, Interleaved.lag_append, Interleaved.lag_ofSymbols, Nat.add_zero]
  have endsSame :
      EndsBeforeMedia settings (earlier ++ [sec]) ↔ EndsBeforeMedia settings earlier := by
    simp [endsBeforeMedia_concat, noMedia]
  constructor
  · rw [read, document_append, Interleaved.symbols_append, Interleaved.symbols_append,
      built.nothingLost]
  · rw [added, partsOfTexts_append, parts]
    exact waits_parts _ built.waits
  · intro ends
    rw [read, document_append, built.inOrder (endsSame.mp ends)]
  · intro late
    rw [read, document_append, lagSame, lagSame]
    exact built.late (mt endsSame.mpr late)

theorem Built.media {earlier : List (DocxSection Picture)} {building : Building Picture}
    (built : Built settings earlier building) {sec : DocxSection Picture}
    (isMedia : sec.isMedia = true) :
    Built settings (earlier ++ [sec]) (addSection settings building sec) := by
  obtain ⟨mark, track, read, kept⟩ : ∃ mark : Media Picture,
      document settings [sec] = [.inr mark] ∧
      reading (addSection settings building sec).cks = reading building.cks ++ [.inr mark] ∧
      (addSection settings building sec).seg = building.seg := by
    by_cases noTable : sec.table = []
    · have isImage : sec.image.isSome = true := by
        simpa [DocxSection.isMedia, noTable] using isMedia
      refine ⟨⟨.image, sec.line, sec.image⟩, ?_, ?_, ?_⟩
      · simp [document, sectionTrack, noTable, isImage]
      · simp [addSection, noTable, isImage, reading_append, ckTrack, newCk]
      · simp [addSection, noTable, isImage]
    · refine ⟨⟨.table, sec.line ++ sec.table, sec.image⟩, ?_, ?_, ?_⟩
      · simp [document, sectionTrack, noTable]
      · simp [addSection, noTable, reading_append, ckTrack, newCk]
      · simp [addSection, noTable]
  have newTrack : buildingTrack (addSection settings building sec) =
      reading building.cks ++ [.inr mark] ++ Interleaved.ofSymbols (letters building.seg) := by
    rw [buildingTrack, read, kept]
  have symbolsOf : Interleaved.symbols (document settings earlier) =
      Interleaved.symbols (reading building.cks) ++ letters building.seg := by
    rw [← built.nothingLost, buildingTrack, Interleaved.symbols_append,
      Interleaved.symbols_ofSymbols]
  have oldLag : Interleaved.lag 0 (buildingTrack building) =
      Interleaved.lag 0 (reading building.cks) := by
    rw [buildingTrack, Interleaved.lag_append, Interleaved.lag_ofSymbols, Nat.add_zero]
  have newLag : Interleaved.lag 0 (buildingTrack (addSection settings building sec)) =
      Interleaved.lag 0 (buildingTrack building) +
        (Interleaved.symbols (reading building.cks)).length := by
    rw [newTrack, oldLag, Interleaved.lag_append, Interleaved.lag_ofSymbols, Interleaved.lag_append,
      Interleaved.lag_mark, Nat.zero_add, Nat.add_zero]
  have documentLag : Interleaved.lag 0 (document settings (earlier ++ [sec])) =
      Interleaved.lag 0 (document settings earlier) +
        (Interleaved.symbols (reading building.cks)).length + (letters building.seg).length := by
    rw [document_append, track, Interleaved.lag_append, Interleaved.lag_mark, symbolsOf,
      List.length_append, Nat.zero_add, Nat.add_assoc]
  constructor
  · rw [newTrack, document_append, track, Interleaved.symbols_append, Interleaved.symbols_append,
      Interleaved.symbols_append, Interleaved.symbols_mark, Interleaved.symbols_ofSymbols,
      List.append_nil, List.append_nil, symbolsOf]
  · have noParts : partsOfTexts settings [sec] = [] := by simp [partsOfTexts, isMedia]
    rw [Waits, kept, partsOfTexts_append, noParts, List.append_nil]
    exact built.waits
  · intro ends
    obtain ⟨endsEarlier, lastEnds⟩ := (endsBeforeMedia_concat sec).mp ends
    have nothingWaits : letters building.seg = [] := built.waits.mpr (lastEnds isMedia)
    have before := built.inOrder endsEarlier
    rw [buildingTrack, nothingWaits, Interleaved.ofSymbols_nil, List.append_nil] at before
    rw [newTrack, nothingWaits, Interleaved.ofSymbols_nil, List.append_nil, document_append, track,
      before]
  · intro late
    rw [newLag, documentLag]
    by_cases endsEarlier : EndsBeforeMedia settings earlier
    · have waiting : letters building.seg ≠ [] := fun nothing =>
        late ((endsBeforeMedia_concat sec).mpr ⟨endsEarlier, fun _ => built.waits.mp nothing⟩)
      have := built.lag_le
      have := List.length_pos_iff.mpr waiting
      omega
    · have := built.late endsEarlier
      omega

theorem built_sections (isCustom : settings.delimiters ≠ [])
    (sections : List (DocxSection Picture)) :
    Built settings sections (sections.foldl (addSection settings) ⟨[], [], [], []⟩) := by
  induction sections using List.reverseRecOn with
  | nil => exact built_nil
  | append_singleton earlier sec ih =>
    rw [List.foldl_append]
    cases isMedia : sec.isMedia with
    | true => exact ih.media isMedia
    | false => exact ih.text isCustom isMedia

theorem reading_build_cks (isCustom : settings.delimiters ≠ [])
    (sections : List (DocxSection Picture)) :
    reading (build_cks settings sections).cks = document settings sections ↔
      EndsBeforeMedia settings sections := by
  have built := built_sections isCustom sections
  rw [build_cks, if_pos isCustom, reading_flushSeg]
  refine ⟨fun same => ?_, built.inOrder⟩
  by_contra late
  exact absurd (congrArg (Interleaved.lag 0) same) (built.late late).ne

def ckSize (ck : Ck Picture) : Option Nat := if ck.ck_type = .text then some ck.tk_nums else none

/-- What is known without delimiters: chunks are in order, and those of text are not blank. -/
structure BuiltPlain (settings : DocxSettings) (earlier : List (DocxSection Picture))
    (building : Building Picture) : Prop where
  inOrder : reading building.cks = document settings earlier
  sizes : building.cks.map ckSize = earlier.filterMap (sizeOf? settings)
  visible : ∀ ck ∈ building.cks, ck.ck_type = .text → letters ck.text ≠ []

theorem BuiltPlain.concat {earlier : List (DocxSection Picture)} {building : Building Picture}
    (built : BuiltPlain settings earlier building) {sec : DocxSection Picture} (ck : Ck Picture)
    (added : (addSection settings building sec).cks = building.cks ++ [ck])
    (track : ckTrack ck = sectionTrack settings sec)
    (size : sizeOf? settings sec = some (ckSize ck))
    (hasLetters : ck.ck_type = .text → letters ck.text ≠ []) :
    BuiltPlain settings (earlier ++ [sec]) (addSection settings building sec) := by
  constructor
  · rw [added, reading_append, built.inOrder, reading_singleton, track, document_append, document,
      document, List.flatMap_singleton]
  · rw [added, List.map_append, List.filterMap_append, built.sizes]
    simp [size]
  · intro other mem
    rw [added] at mem
    rcases List.mem_append.mp mem with old | new
    · exact built.visible other old
    · exact List.mem_singleton.mp new ▸ hasLetters

theorem BuiltPlain.blank (noDelimiters : settings.delimiters = [])
    {earlier : List (DocxSection Picture)} {building : Building Picture}
    (built : BuiltPlain settings earlier building) {sec : DocxSection Picture}
    (noTable : sec.table = []) (noImage : sec.image.isSome = false)
    (isBlank : PyString.stripChars sec.line = []) :
    BuiltPlain settings (earlier ++ [sec]) (addSection settings building sec) := by
  have unchanged : addSection settings building sec = building := by
    simp [addSection, noTable, noImage, noDelimiters, isBlank]
  have noLetters : letters (keptText settings sec) = [] := by
    rw [keptText, if_pos noDelimiters, letters_eq_nil_iff, isBlank]
  have noTrack : document settings [sec] = [] := by
    simp [document, sectionTrack, noTable, noImage, noLetters]
  have noSize : sizeOf? settings sec = none := by
    simp [sizeOf?, DocxSection.isMedia, noTable, noImage, isBlank]
  rw [unchanged]
  constructor
  · rw [document_append, noTrack, List.append_nil, built.inOrder]
  · rw [List.filterMap_append, built.sizes]
    simp [noSize]
  · exact built.visible

theorem built_plain (noDelimiters : settings.delimiters = [])
    (sections : List (DocxSection Picture)) :
    BuiltPlain settings sections (build_cks settings sections) := by
  rw [build_cks, if_neg (by simp [noDelimiters])]
  induction sections using List.reverseRecOn with
  | nil => exact ⟨rfl, rfl, by simp⟩
  | append_singleton earlier sec built =>
    rw [List.foldl_append, List.foldl_cons, List.foldl_nil]
    by_cases noTable : sec.table = []
    · cases isImage : sec.image.isSome with
      | true =>
        exact built.concat (newCk settings sec.line sec.image .image)
          (by simp [addSection, noTable, isImage])
          (by simp [sectionTrack, noTable, isImage, ckTrack, newCk])
          (by simp [sizeOf?, DocxSection.isMedia, noTable, isImage, ckSize, newCk])
          (by simp [newCk])
      | false =>
        by_cases isBlank : PyString.stripChars sec.line = []
        · exact built.blank noDelimiters noTable isImage isBlank
        · refine built.concat (newCk settings (PyString.stripChars sec.line) none .text)
            (by simp [addSection, noTable, isImage, noDelimiters, isBlank]) ?_
            (by simp [sizeOf?, DocxSection.isMedia, noTable, isImage, isBlank, ckSize, newCk])
            fun _ => mt (letters_eq_nil_iff _).mp (by simpa [newCk] using isBlank)
          simp [sectionTrack, noTable, isImage, keptText, noDelimiters, letters_stripChars]
    · exact built.concat (newCk settings (sec.line ++ sec.table) sec.image .table)
        (by simp [addSection, noTable])
        (by simp [sectionTrack, noTable, ckTrack, newCk])
        (by simp [sizeOf?, DocxSection.isMedia, noTable, ckSize, newCk])
        (by simp [newCk])

end RagFlow.Chunking
