import Mathlib.Algebra.Order.Floor.Semiring
import Mathlib.Data.List.Flatten
import Mathlib.Data.List.Forall2
import Mathlib.Data.List.Induction
import Mathlib.Data.Rat.Floor
import RagFlow.Chunking.Delimiters
import RagFlow.Lib.PyString

/-!
# The token chunker

`rag/flow/chunker/token_chunker.py`, for items of a parser: texts are split at delimiters, tables
and images get the text around them, texts are merged up to a size, and split again into children.
-/

namespace RagFlow.Chunking.TokenChunker

open Lib

/-- A field that is no text is missing. -/
structure Item (Position : Type) where
  doc_type_kwd : Option Text
  text : Option Text
  content_with_weight : Option Text
  img_id : Option Text
  positions : List Position

inductive ChunkType
  | text
  | table
  | image
  deriving DecidableEq

structure Chunk (Position : Type) where
  text : Text
  ck_type : ChunkType
  img_id : Option Text
  positions : List Position
  tk_nums : ℕ
  context_above : Text
  context_below : Text
  mom : Option Text

structure Settings where
  num_tokens_from_string : Text → ℕ
  delimiters : List Text
  children_delimiters : List Text
  /-- `check` leaves empty ones out. -/
  children_nonempty : ∀ delimiter ∈ children_delimiters, delimiter ≠ []
  chunk_token_size : ℕ
  overlapped_percent : ℚ
  table_context_size : ℚ
  image_context_size : ℚ

variable {Position : Type}

def paired : List Text → List (Text × Text)
  | [] => []
  | [piece] => [(piece, [])]
  | piece :: delimiter :: rest => (piece, delimiter) :: paired rest

def isBlank (text : Text) : Bool := PyString.stripChars text = []

def whole (pair : Text × Text) : Text := pair.1 ++ pair.2

def chunkOf (pair : Text × Text) : Option Text :=
  if pair.1 = [] then none
  else if isBlank (whole pair) then none
  else some (whole pair)

/-- `_split_text_by_pattern`; without delimiters there is no pattern. -/
def split_text_by_pattern (delimiters : List Text) (text : Text) : List Text :=
  if delimiters = [] then [text]
  else (paired ((customPattern delimiters).split text)).filterMap chunkOf

def Settings.pattern (settings : Settings) : List Text :=
  customDelimiters settings.delimiters.flatten

def Item.ck_type (item : Item Position) : ChunkType :=
  let doc_type := (PyString.stripChars (item.doc_type_kwd.getD [])).map Char.toLower
  if doc_type = "table".toList then .table
  else if doc_type = "image".toList then .image
  else .text

def Item.content (item : Item Position) : Text :=
  match item.text with
  | some text => text
  | none => item.content_with_weight.getD []

variable (settings : Settings)

def textChunk (item : Item Position) (segment : Text) : Chunk Position where
  text := segment
  ck_type := .text
  img_id := none
  positions := item.positions
  tk_nums := settings.num_tokens_from_string segment
  context_above := []
  context_below := []
  mom := none

def mediaChunk (item : Item Position) : Chunk Position where
  text := item.content
  ck_type := item.ck_type
  img_id := item.img_id
  positions := item.positions
  tk_nums := settings.num_tokens_from_string item.content
  context_above := []
  context_below := []
  mom := none

def itemChunks (item : Item Position) : List (Chunk Position) :=
  if item.ck_type = .text then
    ((split_text_by_pattern settings.pattern item.content).filter (!isBlank ·)).map
      (textChunk settings item)
  else [mediaChunk settings item]

def build_json_chunks (json_result : List (Item Position)) : List (Chunk Position) :=
  json_result.flatMap (itemChunks settings)

/-- `([。!?？；！\n]|\. )` -/
def sentenceEnd : Regex := .alt (.oneOf "。!?？；！\n") (.literal ". ")

def sentences (text : Text) : List Text :=
  (paired (sentenceEnd.split text)).map whole

def collect (add : Text → Text → Text) (need_tokens : ℚ) : List Text → Text → Text
  | [], collected => collected
  | sentence :: rest, collected =>
    let collected := add collected sentence
    if need_tokens ≤ settings.num_tokens_from_string collected then collected
    else collect add need_tokens rest collected

def take_sentences (text : Text) (need_tokens : ℚ) : Text :=
  collect settings (· ++ ·) need_tokens (sentences text) []

def take_last_sentences (text : Text) (need_tokens : ℚ) : Text :=
  collect settings (fun collected sentence => sentence ++ collected) need_tokens
    (sentences text).reverse []

def nearest (take : Text → ℚ → Text) : ℚ → List (Chunk Position) → List Text
  | _, [] => []
  | remain, chunk :: rest =>
    if remain ≤ 0 then []
    else if chunk.ck_type ≠ .text then nearest take remain rest
    else if remain ≤ chunk.tk_nums then [take chunk.text remain]
    else chunk.text :: nearest take (remain - chunk.tk_nums) rest

def attached (before : List (Chunk Position)) (chunk : Chunk Position)
    (after : List (Chunk Position)) : Chunk Position :=
  let context_size := match chunk.ck_type with
    | .text => 0
    | .table => settings.table_context_size
    | .image => settings.image_context_size
  if context_size ≤ 0 then chunk
  else
    { chunk with
      context_above :=
        (nearest (take_last_sentences settings) context_size before).reverse.flatten
      context_below := (nearest (take_sentences settings) context_size after).flatten }

def attachFrom (before : List (Chunk Position)) : List (Chunk Position) → List (Chunk Position)
  | [] => []
  | chunk :: after => attached settings before chunk after :: attachFrom (chunk :: before) after

def attach_context_to_media_chunks (chunks : List (Chunk Position)) : List (Chunk Position) :=
  attachFrom settings [] chunks

def normalize_overlapped_percent (value : ℚ) : ℕ :=
  min ⌊if 0 < value ∧ value < 1 then value * 100 else value⌋₊ 90

def Settings.overlap (settings : Settings) : ℕ :=
  normalize_overlapped_percent settings.overlapped_percent

def Settings.threshold (settings : Settings) : ℚ :=
  settings.chunk_token_size * (100 - settings.overlap) / 100

def overlapping (previous current : Chunk Position) : Chunk Position :=
  if 0 < settings.overlap ∧ previous.text ≠ [] then
    let overlap_start := ⌊(previous.text.length * (100 - settings.overlap) / 100 : ℚ)⌋₊
    let text := previous.text.drop overlap_start ++ current.text
    { current with text, tk_nums := settings.num_tokens_from_string text }
  else current

def joined (previous current : Chunk Position) : Chunk Position :=
  { previous with
    text :=
      if previous.text ≠ [] ∧ current.text ≠ [] then previous.text ++ '\n' :: current.text
      else previous.text ++ current.text
    positions := previous.positions ++ current.positions
    tk_nums := previous.tk_nums + current.tk_nums }

/-- The merged chunks, the last of them apart if its index is `prev_text_idx`. -/
abbrev Merged (Position : Type) := List (Chunk Position) × Option (Chunk Position)

def mergeStep (merged : Merged Position) (chunk : Chunk Position) : Merged Position :=
  if chunk.ck_type ≠ .text then (merged.1 ++ merged.2.toList ++ [chunk], none)
  else
    match merged.2 with
    | none => (merged.1, some chunk)
    | some previous =>
      if settings.threshold < previous.tk_nums then
        (merged.1 ++ [previous], some (overlapping settings previous chunk))
      else (merged.1, some (joined previous chunk))

def merge_text_chunks_by_token_size (chunks : List (Chunk Position)) : List (Chunk Position) :=
  let merged := chunks.foldl (mergeStep settings) ([], none)
  merged.1 ++ merged.2.toList

def children (chunk : Chunk Position) : List (Chunk Position) :=
  if chunk.ck_type ≠ .text then [chunk]
  else ((split_text_by_pattern settings.children_delimiters chunk.text).filter (!isBlank ·)).map
    fun text => { chunk with mom := some chunk.text, text }

def topChunks (json_result : List (Item Position)) : List (Chunk Position) :=
  let chunks := attach_context_to_media_chunks settings (build_json_chunks settings json_result)
  if settings.pattern = [] then merge_text_chunks_by_token_size settings chunks else chunks

def chunked (json_result : List (Item Position)) : List (Chunk Position) :=
  let chunks := topChunks settings json_result
  if settings.children_delimiters = [] then chunks else chunks.flatMap (children settings)

inductive Piece (Position : Type)
  | text (text : Text)
  | media (ck_type : ChunkType) (text : Text) (img_id : Option Text) (positions : List Position)

def Chunk.piece (chunk : Chunk Position) : Piece Position :=
  if chunk.ck_type = .text then .text chunk.text
  else .media chunk.ck_type chunk.text chunk.img_id chunk.positions

def Piece.isMedia : Piece Position → Bool
  | .text _ => false
  | .media .. => true

def cutTexts (delimiters : List Text) (text : Text) : List Text :=
  if delimiters = [] then [text]
  else (paired ((customPattern delimiters).split text)).map whole

def itemPieces (item : Item Position) : List (Piece Position) :=
  if item.ck_type = .text then
    ((cutTexts settings.pattern item.content).filter (!isBlank ·)).map .text
  else [.media item.ck_type item.content item.img_id item.positions]

def pieces (json_result : List (Item Position)) : List (Piece Position) :=
  json_result.flatMap (itemPieces settings)

def tokens (lead : Text) : List Text → ℕ
  | [] => 0
  | first :: rest =>
    settings.num_tokens_from_string (lead ++ first) +
      (rest.map settings.num_tokens_from_string).sum

/-- A text chunk consists of texts on lines of their own; only the last of them brings it above the
threshold. -/
structure Consists (chunk : Chunk Position) (lead : Text) (texts : List Text) : Prop where
  isText : chunk.ck_type = .text
  texts_ne_nil : texts ≠ []
  text_eq : chunk.text = lead ++ ['\n'].intercalate texts
  lead_eq_nil : settings.overlap = 0 → lead = []
  text_ne_nil : chunk.text ≠ []
  tk_nums_eq : chunk.tk_nums = tokens settings lead texts
  grows : ∀ earlier last, texts = earlier ++ [last] → earlier ≠ [] →
    tokens settings lead earlier ≤ settings.threshold

def Stands (chunk : Chunk Position) (group : List (Piece Position)) : Prop :=
  (∃ lead texts, group = texts.map .text ∧ Consists settings chunk lead texts) ∨
    (chunk.ck_type ≠ .text ∧ group = [chunk.piece])

/-- Every piece is in exactly one of the chunks, in order. -/
def Partition (chunks : List (Chunk Position)) (pieces : List (Piece Position)) : Prop :=
  ∃ groups, groups.flatten = pieces ∧ List.Forall₂ (Stands settings) chunks groups

def textOf (chunks : List (Chunk Position)) : Text :=
  ((chunks.filter (·.ck_type = .text)).map (·.text)).flatten

structure Conserves (json_result : List (Item Position)) : Prop where
  text : settings.overlap = 0 →
    Partition settings (topChunks settings json_result) (pieces settings json_result)
  kept : settings.overlap = 0 → ∀ top ∈ topChunks settings json_result,
    ∃ chunk ∈ chunked settings json_result, chunk = top ∨ chunk.mom = some top.text
  placed : ∃ found : List (Piece Position), found.Sublist (pieces settings json_result) ∧
    found.filter Piece.isMedia = (pieces settings json_result).filter Piece.isMedia ∧
    Partition settings (topChunks settings json_result) found
  media : (chunked settings json_result).filter (·.ck_type ≠ .text) =
    (attach_context_to_media_chunks settings (build_json_chunks settings json_result)).filter
      (·.ck_type ≠ .text)
  context : ∀ before chunk after,
    attach_context_to_media_chunks settings (build_json_chunks settings json_result) =
      before ++ chunk :: after →
    chunk.context_above <:+ textOf before ∧ chunk.context_below <+: textOf after
  child : ∀ chunk ∈ chunked settings json_result, ∀ mom, chunk.mom = some mom →
    chunk.text <:+: mom

def Keeps (delimiters : List Text) (text : Text) : Prop :=
  ∀ pair ∈ paired ((customPattern delimiters).split text), pair.1 = [] → isBlank pair.2 = true

/-- Some piece that is not blank has text before its delimiter. -/
def HasChild (delimiters : List Text) (text : Text) : Prop :=
  ∃ pair ∈ paired ((customPattern delimiters).split text),
    pair.1 ≠ [] ∧ isBlank (whole pair) = false

theorem flatten_paired (parts : List Text) :
    ((paired parts).map whole).flatten = parts.flatten := by
  induction parts using paired.induct with
  | case1 => rfl
  | case2 piece => simp [paired, whole]
  | case3 piece delimiter rest ih => simp [paired, whole, ih]

theorem flatten_cutTexts {delimiters : List Text}
    (nonempty : ∀ delimiter ∈ delimiters, delimiter ≠ []) (text : Text) :
    (cutTexts delimiters text).flatten = text := by
  rw [cutTexts]
  split
  · exact List.flatten_singleton
  · rw [flatten_paired, Regex.flatten_split (customPattern_consumes nonempty)]

theorem chunkOf_eq_some {pair : Text × Text} {part : Text} : chunkOf pair = some part ↔
    pair.1 ≠ [] ∧ isBlank (whole pair) = false ∧ whole pair = part := by
  rw [chunkOf]
  split
  · simp_all
  · split <;> simp_all

theorem mem_split_text_by_pattern {delimiters : List Text} (isSome : delimiters ≠ [])
    {text part : Text} : part ∈ split_text_by_pattern delimiters text ↔
      ∃ pair ∈ paired ((customPattern delimiters).split text),
        pair.1 ≠ [] ∧ isBlank (whole pair) = false ∧ whole pair = part := by
  rw [split_text_by_pattern, if_neg isSome, List.mem_filterMap]
  exact exists_congr fun pair => and_congr_right fun _ => chunkOf_eq_some

theorem infix_of_mem_split {delimiters : List Text}
    (nonempty : ∀ delimiter ∈ delimiters, delimiter ≠ []) (isSome : delimiters ≠ [])
    {text part : Text} (isPart : part ∈ split_text_by_pattern delimiters text) :
    part <:+: text := by
  obtain ⟨pair, isPair, -, -, rfl⟩ := (mem_split_text_by_pattern isSome).mp isPart
  have isCut : whole pair ∈ cutTexts delimiters text := by
    rw [cutTexts, if_neg isSome]
    exact List.mem_map_of_mem isPair
  have flattened := flatten_cutTexts nonempty text
  obtain ⟨before, after, isSplit⟩ := List.append_of_mem isCut
  rw [isSplit, List.flatten_append, List.flatten_cons, ← List.append_assoc] at flattened
  exact ⟨_, _, flattened⟩

theorem sublist_chunkOf (pairs : List (Text × Text)) :
    (pairs.filterMap chunkOf).Sublist ((pairs.map whole).filter (!isBlank ·)) ∧
      (pairs.filterMap chunkOf = (pairs.map whole).filter (!isBlank ·) ↔
        ∀ pair ∈ pairs, pair.1 = [] → isBlank pair.2 = true) := by
  induction pairs with
  | nil => exact ⟨List.Sublist.refl _, by simp⟩
  | cons pair pairs ih =>
    obtain ⟨sublist, same⟩ := ih
    rw [List.filterMap_cons, List.map_cons, List.filter_cons, List.forall_mem_cons, ← same]
    by_cases blank : isBlank (whole pair) = true
    · have none : chunkOf pair = none := by simp [chunkOf, blank]
      have fine : pair.1 = [] → isBlank pair.2 = true := by
        intro isEmpty
        rwa [whole, isEmpty, List.nil_append] at blank
      simp only [none, blank, Bool.not_true, Bool.false_eq_true, if_false]
      exact ⟨sublist, (and_iff_right fine).symm⟩
    · rw [Bool.not_eq_true] at blank
      by_cases isEmpty : pair.1 = []
      · have none : chunkOf pair = none := by simp [chunkOf, isEmpty]
        have lost : isBlank pair.2 = false := by rwa [whole, isEmpty, List.nil_append] at blank
        simp only [none, blank, Bool.not_false, if_true]
        refine ⟨sublist.cons _, iff_of_false (fun equal => ?_) ?_⟩
        · have lengths := sublist.length_le
          rw [equal, List.length_cons] at lengths
          omega
        · rintro ⟨fine, -⟩
          simp [fine isEmpty] at lost
      · have isSome : chunkOf pair = some (whole pair) := chunkOf_eq_some.mpr ⟨isEmpty, blank, rfl⟩
        simp only [isSome, blank, Bool.not_false, if_true]
        refine ⟨sublist.cons_cons _, ?_⟩
        rw [List.cons_inj_right, and_iff_right fun isNil => absurd isNil isEmpty]

theorem filter_split {delimiters : List Text} (isSome : delimiters ≠ []) (text : Text) :
    (split_text_by_pattern delimiters text).filter (!isBlank ·) =
      split_text_by_pattern delimiters text := by
  apply List.filter_eq_self.mpr
  intro part isPart
  obtain ⟨pair, -, -, notBlank, rfl⟩ := (mem_split_text_by_pattern isSome).mp isPart
  rw [notBlank]
  rfl

theorem split_cutTexts (delimiters : List Text) (text : Text) :
    ((split_text_by_pattern delimiters text).filter (!isBlank ·)).Sublist
        ((cutTexts delimiters text).filter (!isBlank ·)) ∧
      ((split_text_by_pattern delimiters text).filter (!isBlank ·) =
        (cutTexts delimiters text).filter (!isBlank ·) ↔
          (delimiters ≠ [] → Keeps delimiters text)) := by
  by_cases isNone : delimiters = []
  · rw [split_text_by_pattern, cutTexts, if_pos isNone, if_pos isNone]
    exact ⟨List.Sublist.refl _, iff_of_true rfl fun isSome => absurd isNone isSome⟩
  · rw [filter_split isNone, split_text_by_pattern, cutTexts, if_neg isNone, if_neg isNone,
      forall_prop_of_true isNone]
    exact sublist_chunkOf _

def solid (text : Text) : Text := text.filter (!PyString.isSpace ·)

theorem isBlank_iff {text : Text} : isBlank text = true ↔ solid text = [] := by
  rw [isBlank, decide_eq_true_eq, solid, List.filter_eq_nil_iff, PyString.stripChars,
    List.reverse_eq_nil_iff, List.dropWhile_eq_nil_iff]
  constructor
  · intro blank char isMem isSolid
    have inside : char ∈ text.dropWhile PyString.isSpace := by
      rw [← List.takeWhile_append_dropWhile (p := PyString.isSpace) (l := text)] at isMem
      apply (List.mem_append.mp isMem).resolve_left
      intro isTaken
      have isSpace := List.mem_takeWhile_imp isTaken
      simp [isSpace] at isSolid
    have isSpace := blank char (List.mem_reverse.mpr inside)
    simp [isSpace] at isSolid
  · intro blank char isMem
    have isMemText := (List.dropWhile_sublist _).subset (List.mem_reverse.mp isMem)
    simpa using blank char isMemText

theorem solid_append (first second : Text) :
    solid (first ++ second) = solid first ++ solid second :=
  List.filter_append ..

variable {settings : Settings}

theorem solid_intercalate {texts : List Text} :
    solid (['\n'].intercalate texts) = texts.flatMap solid := by
  have isSpace : solid ['\n'] = [] := by decide
  induction texts with
  | nil => rfl
  | cons text texts ih =>
    cases texts with
    | nil => simp [List.intercalate]
    | cons second texts =>
      have step : ['\n'].intercalate (text :: second :: texts) =
          text ++ (['\n'] ++ ['\n'].intercalate (second :: texts)) := by
        simp [List.intercalate]
      rw [step, solid_append, solid_append, isSpace, ih]
      rfl

def Piece.characters : Piece Position → Text
  | .text part => solid part
  | .media .. => ['▦']

theorem characters_of_partition (isExact : settings.overlap = 0) {chunks : List (Chunk Position)}
    {pieces : List (Piece Position)} (partition : Partition settings chunks pieces) :
    pieces.flatMap Piece.characters = chunks.flatMap fun chunk => chunk.piece.characters := by
  obtain ⟨groups, rfl, stands⟩ := partition
  induction stands with
  | nil => rfl
  | @cons chunk group chunks groups stands _ ih =>
    rw [List.flatten_cons, List.flatMap_append, List.flatMap_cons, ih]
    congr 1
    rcases stands with ⟨lead, texts, rfl, consists⟩ | ⟨isMedia, rfl⟩
    · rw [Chunk.piece, if_pos consists.isText, Piece.characters, consists.text_eq,
        consists.lead_eq_nil isExact, List.nil_append, solid_intercalate, List.flatMap_map]
      rfl
    · exact List.flatMap_singleton _ _

theorem map_piece_itemChunks (item : Item Position) :
    (itemChunks settings item).map Chunk.piece =
      if item.ck_type = .text then
        ((split_text_by_pattern settings.pattern item.content).filter (!isBlank ·)).map .text
      else [.media item.ck_type item.content item.img_id item.positions] := by
  rw [itemChunks]
  split
  · rw [List.map_map]
    rfl
  · rename_i isMedia
    rw [List.map_singleton, Chunk.piece, mediaChunk, if_neg isMedia]

theorem eq_of_sublist {first second : List (Piece Position)} (sublist : first.Sublist second)
    (notBlank : ∀ piece ∈ second, piece.characters ≠ [])
    (same : first.flatMap Piece.characters = second.flatMap Piece.characters) :
    first = second := by
  have lengths := congrArg List.length same
  clear same
  induction sublist with
  | slnil => rfl
  | @cons first second piece sublist ih =>
    have some := List.length_pos_iff.mpr (notBlank piece List.mem_cons_self)
    have fewer := (sublist.flatMap Piece.characters).length_le
    rw [List.flatMap_cons, List.length_append] at lengths
    omega
  | cons_cons piece sublist ih =>
    have later := (List.forall_mem_cons.mp notBlank).2
    rw [List.flatMap_cons, List.flatMap_cons, List.length_append, List.length_append] at lengths
    rw [ih later (by omega)]

def foundPieces (settings : Settings) (json_result : List (Item Position)) :
    List (Piece Position) :=
  (build_json_chunks settings json_result).map Chunk.piece

theorem foundPieces_cons (item : Item Position) (items : List (Item Position)) :
    foundPieces settings (item :: items) =
      (itemChunks settings item).map Chunk.piece ++ foundPieces settings items := by
  rw [foundPieces, build_json_chunks, List.flatMap_cons, List.map_append]
  rfl

theorem sublist_itemPieces (settings : Settings) (item : Item Position) :
    ((itemChunks settings item).map Chunk.piece).Sublist (itemPieces settings item) ∧
      ((itemChunks settings item).map Chunk.piece = itemPieces settings item ↔
        (item.ck_type = .text → settings.pattern ≠ [] → Keeps settings.pattern item.content)) := by
  rw [map_piece_itemChunks, itemPieces]
  split
  · rename_i isText
    obtain ⟨sublist, same⟩ := split_cutTexts settings.pattern item.content
    refine ⟨sublist.map _, ?_⟩
    rw [forall_prop_of_true isText, ← same]
    apply List.map_inj_right
    intro first second equal
    exact Piece.text.inj equal
  · rename_i isMedia
    exact ⟨List.Sublist.refl _, iff_of_true rfl fun isText => absurd isText isMedia⟩

theorem sublist_pieces (settings : Settings) (json_result : List (Item Position)) :
    (foundPieces settings json_result).Sublist (pieces settings json_result) ∧
      (foundPieces settings json_result = pieces settings json_result ↔
        ∀ item ∈ json_result, item.ck_type = .text → settings.pattern ≠ [] →
          Keeps settings.pattern item.content) := by
  induction json_result with
  | nil => exact ⟨List.Sublist.refl _, iff_of_true rfl (List.forall_mem_nil _)⟩
  | cons item items ih =>
    obtain ⟨sublist, same⟩ := ih
    obtain ⟨sublistItem, sameItem⟩ := sublist_itemPieces settings item
    rw [foundPieces_cons, pieces, List.flatMap_cons, ← pieces, List.forall_mem_cons, ← same,
      ← sameItem]
    refine ⟨sublistItem.append sublist, fun equal => ?_, fun ⟨first, others⟩ => by
      rw [first, others]⟩
    have lengths := congrArg List.length equal
    have fewer := sublist.length_le
    have fewerItem := sublistItem.length_le
    rw [List.length_append, List.length_append] at lengths
    exact ⟨sublistItem.eq_of_length (by omega), sublist.eq_of_length (by omega)⟩

theorem filter_isMedia_found (json_result : List (Item Position)) :
    (foundPieces settings json_result).filter Piece.isMedia =
      (pieces settings json_result).filter Piece.isMedia := by
  induction json_result with
  | nil => rfl
  | cons item items ih =>
    rw [foundPieces_cons, pieces, List.flatMap_cons, ← pieces, List.filter_append,
      List.filter_append, ih, map_piece_itemChunks, itemPieces]
    congr 1
    split
    · have noMedia (texts : List Text) :
          ((texts.map Piece.text).filter Piece.isMedia : List (Piece Position)) = [] := by
        simp [List.filter_eq_nil_iff, Piece.isMedia]
      rw [noMedia, noMedia]
    · rfl

theorem characters_ne_nil (json_result : List (Item Position)) :
    ∀ piece ∈ pieces settings json_result, piece.characters ≠ [] := by
  intro piece isMem
  obtain ⟨item, -, isPiece⟩ := List.mem_flatMap.mp isMem
  rw [itemPieces] at isPiece
  split at isPiece
  · obtain ⟨text, isText, rfl⟩ := List.mem_map.mp isPiece
    intro isEmpty
    have notBlank := (List.mem_filter.mp isText).2
    rw [isBlank_iff.mpr isEmpty] at notBlank
    cases notBlank
  · rw [List.mem_singleton.mp isPiece]
    exact List.cons_ne_nil _ _

theorem partition_concat {chunks : List (Chunk Position)} {chunk : Chunk Position}
    {found group : List (Piece Position)} (partition : Partition settings chunks found)
    (stands : Stands settings chunk group) :
    Partition settings (chunks ++ [chunk]) (found ++ group) := by
  obtain ⟨groups, rfl, allStand⟩ := partition
  refine ⟨groups ++ [group], by rw [List.flatten_append, List.flatten_singleton], ?_⟩
  exact List.rel_append allStand (.cons stands .nil)

theorem of_partition_concat {chunks : List (Chunk Position)} {chunk : Chunk Position}
    {found : List (Piece Position)} (partition : Partition settings (chunks ++ [chunk]) found) :
    ∃ earlier group, found = earlier ++ group ∧ Partition settings chunks earlier ∧
      Stands settings chunk group := by
  obtain ⟨groups, rfl, allStand⟩ := partition
  have reversed := List.forall₂_reverse_iff.mpr allStand
  rw [List.reverse_append, List.reverse_singleton, List.singleton_append] at reversed
  obtain ⟨group, later, stands, allStandLater, isReverse⟩ :=
    List.forall₂_cons_left_iff.mp reversed
  rw [List.reverse_eq_cons_iff] at isReverse
  refine ⟨later.reverse.flatten, group, ?_, ⟨later.reverse, rfl, ?_⟩, stands⟩
  · rw [isReverse, List.flatten_append, List.flatten_singleton]
  · rw [← List.forall₂_reverse_iff, List.reverse_reverse]
    exact allStandLater

def Sound (settings : Settings) (chunk : Chunk Position) : Prop :=
  chunk.ck_type = .text →
    chunk.text ≠ [] ∧ chunk.tk_nums = settings.num_tokens_from_string chunk.text

def Fresh (settings : Settings) (chunk : Chunk Position) : Prop :=
  Sound settings chunk ∧ chunk.mom = none

theorem consists_singleton {chunk : Chunk Position} {lead text : Text}
    (isText : chunk.ck_type = .text) (text_eq : chunk.text = lead ++ text)
    (lead_eq_nil : settings.overlap = 0 → lead = []) (sound : Sound settings chunk) :
    Consists settings chunk lead [text] where
  isText := isText
  texts_ne_nil := List.cons_ne_nil _ _
  text_eq := by rw [List.intercalate_singleton, text_eq]
  lead_eq_nil := lead_eq_nil
  text_ne_nil := (sound isText).1
  tk_nums_eq := by
    rw [(sound isText).2, text_eq]
    rfl
  grows earlier last isSplit notEmpty := by
    have lengths := congrArg List.length isSplit
    rw [List.length_singleton, List.length_append, List.length_singleton] at lengths
    exact absurd (List.length_eq_zero_iff.mp (by omega)) notEmpty

theorem consists_alone {chunk : Chunk Position} (isText : chunk.ck_type = .text)
    (sound : Sound settings chunk) : Consists settings chunk [] [chunk.text] :=
  consists_singleton isText rfl (fun _ => rfl) sound

theorem tokens_concat {lead : Text} {texts : List Text} (notEmpty : texts ≠ []) (text : Text) :
    tokens settings lead (texts ++ [text]) =
      tokens settings lead texts + settings.num_tokens_from_string text := by
  obtain ⟨first, rest, rfl⟩ := List.exists_cons_of_ne_nil notEmpty
  simp [tokens, Nat.add_assoc]

theorem intercalate_concat {texts : List Text} (notEmpty : texts ≠ []) (text : Text) :
    ['\n'].intercalate (texts ++ [text]) = ['\n'].intercalate texts ++ '\n' :: text := by
  induction texts with
  | nil => exact absurd rfl notEmpty
  | cons first rest ih =>
    cases rest with
    | nil => simp
    | cons second rest =>
      rw [List.cons_append, List.cons_append, List.intercalate_cons_cons, ← List.cons_append,
        ih (List.cons_ne_nil _ _), List.intercalate_cons_cons, List.append_assoc,
        List.append_assoc, List.append_assoc]

theorem consists_overlapping (previous : Chunk Position) {chunk : Chunk Position}
    (isText : chunk.ck_type = .text) (sound : Sound settings chunk) :
    ∃ lead, Consists settings (overlapping settings previous chunk) lead [chunk.text] := by
  rw [overlapping]
  split
  · rename_i overlaps
    refine ⟨_, consists_singleton isText rfl (fun isNone => absurd isNone overlaps.1.ne') ?_⟩
    intro _
    exact ⟨fun isEmpty => (sound isText).1 (List.append_eq_nil_iff.mp isEmpty).2, rfl⟩
  · exact ⟨[], consists_alone isText sound⟩

theorem consists_joined {previous chunk : Chunk Position} {lead : Text} {texts : List Text}
    (consists : Consists settings previous lead texts) (isText : chunk.ck_type = .text)
    (sound : Sound settings chunk) (below : previous.tk_nums ≤ settings.threshold) :
    Consists settings (joined previous chunk) lead (texts ++ [chunk.text]) where
  isText := consists.isText
  texts_ne_nil := List.append_ne_nil_of_right_ne_nil _ (List.cons_ne_nil _ _)
  text_eq := by
    rw [joined, if_pos ⟨consists.text_ne_nil, (sound isText).1⟩,
      intercalate_concat consists.texts_ne_nil, consists.text_eq, List.append_assoc]
  lead_eq_nil := consists.lead_eq_nil
  text_ne_nil := by
    rw [joined, if_pos ⟨consists.text_ne_nil, (sound isText).1⟩]
    exact List.append_ne_nil_of_left_ne_nil consists.text_ne_nil _
  tk_nums_eq := by
    rw [tokens_concat consists.texts_ne_nil, ← consists.tk_nums_eq, ← (sound isText).2]
    rfl
  grows earlier last isSplit _ := by
    rw [← List.append_inj_left' isSplit rfl, ← consists.tk_nums_eq]
    exact below

structure Merges (settings : Settings) (merged : Merged Position) (seen : List (Chunk Position)) :
    Prop where
  partition : Partition settings (merged.1 ++ merged.2.toList) (seen.map Chunk.piece)
  media : (merged.1 ++ merged.2.toList).filter (·.ck_type ≠ .text) =
    seen.filter (·.ck_type ≠ .text)
  isText : ∀ previous, merged.2 = some previous → previous.ck_type = .text
  mom_eq_none : ∀ chunk ∈ merged.1 ++ merged.2.toList, chunk.mom = none

theorem stands_consists {chunk : Chunk Position} {group : List (Piece Position)}
    (stands : Stands settings chunk group) (isText : chunk.ck_type = .text) :
    ∃ lead texts, group = texts.map .text ∧ Consists settings chunk lead texts :=
  stands.resolve_right fun ⟨isMedia, _⟩ => isMedia isText

theorem stands_of_consists {chunk : Chunk Position} {lead : Text} {texts : List Text}
    (consists : Consists settings chunk lead texts) : Stands settings chunk (texts.map .text) :=
  .inl ⟨lead, texts, rfl, consists⟩

theorem filter_concat_text {chunks : List (Chunk Position)} {chunk : Chunk Position}
    (isText : chunk.ck_type = .text) :
    (chunks ++ [chunk]).filter (·.ck_type ≠ .text) = chunks.filter (·.ck_type ≠ .text) := by
  simp [isText]

theorem merges_concat {closed seen : List (Chunk Position)} {chunk source : Chunk Position}
    {lead : Text} (merges : Merges settings (closed, none) seen) (isText : source.ck_type = .text)
    (consists : Consists settings chunk lead [source.text]) (noMom : chunk.mom = none) :
    Merges settings (closed, some chunk) (seen ++ [source]) := by
  obtain ⟨partition, media, -, allNoMom⟩ := merges
  rw [Option.toList_none, List.append_nil] at partition media allNoMom
  constructor
  · rw [List.map_append, List.map_singleton, Chunk.piece, if_pos isText, ← List.map_singleton]
    exact partition_concat partition (stands_of_consists consists)
  · rw [Option.toList_some, filter_concat_text consists.isText, filter_concat_text isText]
    exact media
  · intro previous isLast
    rw [← Option.some.inj isLast]
    exact consists.isText
  · exact List.forall_mem_append.mpr ⟨allNoMom, List.forall_mem_singleton.mpr noMom⟩

theorem merges_closed {closed seen : List (Chunk Position)} {last : Option (Chunk Position)}
    (merges : Merges settings (closed, last) seen) :
    Merges settings (closed ++ last.toList, none) seen := by
  obtain ⟨partition, media, -, noMom⟩ := merges
  rw [← List.append_nil (closed ++ last.toList)] at partition media noMom
  exact ⟨partition, media, fun _ isLast => (nomatch isLast), noMom⟩

theorem merges_mergeStep {merged : Merged Position} {seen : List (Chunk Position)}
    {chunk : Chunk Position} (merges : Merges settings merged seen)
    (fresh : Fresh settings chunk) :
    Merges settings (mergeStep settings merged chunk) (seen ++ [chunk]) := by
  obtain ⟨closed, last⟩ := merged
  obtain ⟨sound, noMom⟩ := fresh
  rw [mergeStep]
  by_cases isText : chunk.ck_type = .text
  · rw [if_neg (not_not_intro isText)]
    cases last with
    | none => exact merges_concat merges isText (consists_alone isText sound) noMom
    | some previous =>
      dsimp only
      split
      · obtain ⟨lead, consists⟩ := consists_overlapping previous isText sound
        apply merges_concat (merges_closed merges) isText consists
        rw [overlapping]
        split <;> exact noMom
      · rename_i below
        obtain ⟨partition, media, isTextLast, allNoMom⟩ := merges
        have isTextPrevious := isTextLast previous rfl
        obtain ⟨earlier, pieces, isSplit, partitionEarlier, stands⟩ := of_partition_concat partition
        obtain ⟨lead, texts, rfl, consists⟩ := stands_consists stands isTextPrevious
        have joins := consists_joined consists isText sound (not_lt.mp below)
        rw [Option.toList_some, List.forall_mem_append, List.forall_mem_singleton] at allNoMom
        constructor
        · rw [List.map_append, List.map_singleton, Chunk.piece, if_pos isText,
            ← List.map_singleton, isSplit, List.append_assoc, ← List.map_append]
          exact partition_concat partitionEarlier (stands_of_consists joins)
        · rw [Option.toList_some, filter_concat_text joins.isText, filter_concat_text isText,
            ← media, Option.toList_some, filter_concat_text isTextPrevious]
        · intro other isLast
          rw [← Option.some.inj isLast]
          exact joins.isText
        · exact List.forall_mem_append.mpr ⟨allNoMom.1, List.forall_mem_singleton.mpr allNoMom.2⟩
  · rw [if_pos isText]
    obtain ⟨partition, media, -, allNoMom⟩ := merges
    constructor
    · rw [List.map_append, List.map_singleton, Option.toList_none, List.append_nil]
      exact partition_concat partition (.inr ⟨isText, rfl⟩)
    · rw [Option.toList_none, List.append_nil, List.filter_append _ [chunk], media,
        ← List.filter_append]
    · exact fun previous isLast => nomatch isLast
    · rw [Option.toList_none, List.append_nil]
      exact List.forall_mem_append.mpr ⟨allNoMom, List.forall_mem_singleton.mpr noMom⟩

theorem merges_foldl {chunks : List (Chunk Position)}
    (fresh : ∀ chunk ∈ chunks, Fresh settings chunk) :
    Merges settings (chunks.foldl (mergeStep settings) ([], none)) chunks := by
  induction chunks using List.reverseRecOn with
  | nil => exact ⟨⟨[], rfl, .nil⟩, rfl, fun _ isLast => (nomatch isLast), List.forall_mem_nil _⟩
  | append_singleton chunks chunk ih =>
    rw [List.forall_mem_append] at fresh
    rw [List.foldl_concat]
    exact merges_mergeStep (ih fresh.1) (fresh.2 chunk (List.mem_singleton_self _))

theorem partition_unmerged {chunks : List (Chunk Position)}
    (sound : ∀ chunk ∈ chunks, Sound settings chunk) :
    Partition settings chunks (chunks.map Chunk.piece) := by
  induction chunks using List.reverseRecOn with
  | nil => exact ⟨[], rfl, .nil⟩
  | append_singleton chunks chunk ih =>
    rw [List.forall_mem_append] at sound
    rw [List.map_append, List.map_singleton]
    apply partition_concat (ih sound.1)
    by_cases isText : chunk.ck_type = .text
    · have soundChunk := sound.2 chunk (List.mem_singleton_self _)
      rw [Chunk.piece, if_pos isText, ← List.map_singleton]
      exact stands_of_consists (consists_alone isText soundChunk)
    · exact .inr ⟨isText, rfl⟩

theorem consumes_sentenceEnd : sentenceEnd.Consumes :=
  (Regex.consumes_char _).alt (Regex.consumes_literal (by decide))

theorem flatten_sentences (text : Text) : (sentences text).flatten = text := by
  rw [sentences, flatten_paired, Regex.flatten_split consumes_sentenceEnd]

theorem collect_prefix (settings : Settings) (need_tokens : ℚ) (parts : List Text)
    (collected : Text) :
    collect settings (· ++ ·) need_tokens parts collected <+: collected ++ parts.flatten := by
  induction parts generalizing collected with
  | nil => exact List.prefix_append _ _
  | cons sentence rest ih =>
    rw [List.flatten_cons, ← List.append_assoc, collect]
    split
    · exact List.prefix_append _ _
    · exact ih _

theorem collect_suffix (settings : Settings) (need_tokens : ℚ) (parts : List Text)
    (collected : Text) :
    collect settings (fun collected sentence => sentence ++ collected) need_tokens parts
      collected <:+ parts.reverse.flatten ++ collected := by
  induction parts generalizing collected with
  | nil => exact List.suffix_append _ _
  | cons sentence rest ih =>
    rw [List.reverse_cons, List.flatten_append, List.flatten_singleton, List.append_assoc, collect]
    split
    · exact List.suffix_append _ _
    · exact ih _

theorem take_sentences_prefix (text : Text) (need_tokens : ℚ) :
    take_sentences settings text need_tokens <+: text := by
  have collected := collect_prefix settings need_tokens (sentences text) []
  rwa [List.nil_append, flatten_sentences] at collected

theorem take_last_sentences_suffix (text : Text) (need_tokens : ℚ) :
    take_last_sentences settings text need_tokens <:+ text := by
  have collected := collect_suffix settings need_tokens (sentences text).reverse []
  rwa [List.append_nil, List.reverse_reverse, flatten_sentences] at collected

theorem textOf_append (first second : List (Chunk Position)) :
    textOf (first ++ second) = textOf first ++ textOf second := by
  rw [textOf, List.filter_append, List.map_append, List.flatten_append]
  rfl

theorem textOf_singleton (chunk : Chunk Position) :
    textOf [chunk] = if chunk.ck_type = .text then chunk.text else [] := by
  rw [textOf]
  split <;> simp_all

theorem nearest_prefix {take : Text → ℚ → Text} (isPrefix : ∀ text need, take text need <+: text)
    (remain : ℚ) (chunks : List (Chunk Position)) :
    (nearest take remain chunks).flatten <+: textOf chunks := by
  induction chunks generalizing remain with
  | nil => exact List.prefix_refl _
  | cons chunk rest ih =>
    rw [← List.singleton_append, textOf_append, textOf_singleton, List.singleton_append, nearest]
    split
    · exact List.nil_prefix
    by_cases isText : chunk.ck_type = .text
    · rw [if_pos isText, if_neg (not_not_intro isText)]
      split
      · rw [List.flatten_singleton]
        exact (isPrefix _ _).trans (List.prefix_append _ _)
      · rw [List.flatten_cons]
        exact (List.prefix_append_right_inj _).mpr (ih _)
    · rw [if_neg isText, if_pos isText]
      exact ih _

theorem nearest_suffix {take : Text → ℚ → Text} (isSuffix : ∀ text need, take text need <:+ text)
    (remain : ℚ) (chunks : List (Chunk Position)) :
    (nearest take remain chunks).reverse.flatten <:+ textOf chunks.reverse := by
  induction chunks generalizing remain with
  | nil => exact List.suffix_refl _
  | cons chunk rest ih =>
    rw [List.reverse_cons, textOf_append, textOf_singleton, nearest]
    split
    · exact List.nil_suffix
    by_cases isText : chunk.ck_type = .text
    · rw [if_pos isText, if_neg (not_not_intro isText)]
      split
      · rw [List.reverse_singleton, List.flatten_singleton]
        exact (isSuffix _ _).trans (List.suffix_append _ _)
      · rw [List.reverse_cons, List.flatten_append, List.flatten_singleton]
        obtain ⟨before, isSplit⟩ := ih (remain - chunk.tk_nums)
        exact ⟨before, by rw [← isSplit, List.append_assoc]⟩
    · rw [if_neg isText, if_pos isText, List.append_nil]
      exact ih _

def bare (chunk : Chunk Position) : Chunk Position :=
  { chunk with context_above := [], context_below := [] }

theorem attached_cases (settings : Settings) (before : List (Chunk Position))
    (chunk : Chunk Position) (after : List (Chunk Position)) :
    attached settings before chunk after = chunk ∨
      ∃ context_size, attached settings before chunk after =
        { chunk with
          context_above :=
            (nearest (take_last_sentences settings) context_size before).reverse.flatten
          context_below := (nearest (take_sentences settings) context_size after).flatten } :=
  (ite_eq_or_eq _ _ _).imp_right fun isAttached => ⟨_, isAttached⟩

theorem bare_attached (before : List (Chunk Position)) (chunk : Chunk Position)
    (after : List (Chunk Position)) : bare (attached settings before chunk after) = bare chunk := by
  rcases attached_cases settings before chunk after with
    same | ⟨context_size, isAttached⟩
  · rw [same]
  · rw [isAttached]
    rfl

theorem map_bare_attachFrom (before chunks : List (Chunk Position)) :
    (attachFrom settings before chunks).map bare = chunks.map bare := by
  induction chunks generalizing before with
  | nil => rfl
  | cons chunk after ih => rw [attachFrom, List.map_cons, List.map_cons, bare_attached, ih]

theorem textOf_map_bare (chunks : List (Chunk Position)) :
    textOf (chunks.map bare) = textOf chunks := by
  rw [textOf, List.filter_map, List.map_map]
  rfl

theorem attachFrom_eq_append {earlier chunks left right : List (Chunk Position)}
    {chunk : Chunk Position}
    (isSplit : attachFrom settings earlier chunks = left ++ chunk :: right) :
    ∃ before source after, chunks = before ++ source :: after ∧
      chunk = attached settings (before.reverse ++ earlier) source after ∧
      left.map bare = before.map bare ∧ right.map bare = after.map bare := by
  induction left generalizing earlier chunks with
  | nil =>
    cases chunks with
    | nil => cases isSplit
    | cons source after =>
      rw [attachFrom, List.nil_append, List.cons_eq_cons] at isSplit
      obtain ⟨rfl, rfl⟩ := isSplit
      exact ⟨[], source, after, rfl, rfl, rfl, map_bare_attachFrom _ _⟩
  | cons first left ih =>
    cases chunks with
    | nil => cases isSplit
    | cons second rest =>
      rw [attachFrom, List.cons_append, List.cons_eq_cons] at isSplit
      obtain ⟨rfl, isSplit⟩ := isSplit
      obtain ⟨before, source, after, rfl, rfl, sameLeft, sameRight⟩ := ih isSplit
      refine ⟨second :: before, source, after, rfl, ?_, ?_, sameRight⟩
      · rw [List.reverse_cons, List.append_assoc, List.singleton_append]
      · rw [List.map_cons, List.map_cons, bare_attached, sameLeft]

theorem context_attached (settings : Settings) (before after : List (Chunk Position))
    {chunk : Chunk Position}
    (noContext : bare chunk = chunk) :
    (attached settings before chunk after).context_above <:+ textOf before.reverse ∧
      (attached settings before chunk after).context_below <+: textOf after := by
  rcases attached_cases settings before chunk after with
    same | ⟨context_size, isAttached⟩
  · rw [same, ← noContext]
    exact ⟨List.nil_suffix, List.nil_prefix⟩
  · rw [isAttached]
    exact ⟨nearest_suffix take_last_sentences_suffix _ _, nearest_prefix take_sentences_prefix _ _⟩

theorem context_attach {chunks : List (Chunk Position)}
    (noContext : ∀ chunk ∈ chunks, bare chunk = chunk) {before after : List (Chunk Position)}
    {chunk : Chunk Position}
    (isSplit : attach_context_to_media_chunks settings chunks = before ++ chunk :: after) :
    chunk.context_above <:+ textOf before ∧ chunk.context_below <+: textOf after := by
  obtain ⟨left, source, right, rfl, rfl, sameLeft, sameRight⟩ := attachFrom_eq_append isSplit
  rw [← textOf_map_bare before, ← textOf_map_bare after, sameLeft, sameRight, textOf_map_bare,
    textOf_map_bare, List.append_nil]
  have found := context_attached settings left.reverse right
    (noContext source (List.mem_append_right _ List.mem_cons_self))
  rwa [List.reverse_reverse] at found

theorem mem_itemChunks {item : Item Position} {chunk : Chunk Position}
    (isChunk : chunk ∈ itemChunks settings item) :
    Fresh settings chunk ∧ bare chunk = chunk := by
  rw [itemChunks] at isChunk
  split at isChunk
  · obtain ⟨segment, isSegment, rfl⟩ := List.mem_map.mp isChunk
    refine ⟨⟨fun _ => ⟨?_, rfl⟩, rfl⟩, rfl⟩
    rintro rfl
    exact absurd (List.mem_filter.mp isSegment).2 (by decide)
  · rename_i isMedia
    obtain rfl := List.mem_singleton.mp isChunk
    exact ⟨⟨fun isText => absurd isText isMedia, rfl⟩, rfl⟩

theorem fresh_build {json_result : List (Item Position)} {chunk : Chunk Position}
    (isChunk : chunk ∈ build_json_chunks settings json_result) :
    Fresh settings chunk ∧ bare chunk = chunk := by
  obtain ⟨item, -, isItemChunk⟩ := List.mem_flatMap.mp isChunk
  exact mem_itemChunks isItemChunk

theorem fresh_attach {chunks : List (Chunk Position)}
    (fresh : ∀ chunk ∈ chunks, Fresh settings chunk) :
    ∀ chunk ∈ attach_context_to_media_chunks settings chunks, Fresh settings chunk := by
  intro chunk isChunk
  have isBare : bare chunk ∈ (attach_context_to_media_chunks settings chunks).map bare :=
    List.mem_map_of_mem isChunk
  rw [attach_context_to_media_chunks, map_bare_attachFrom] at isBare
  obtain ⟨source, isSource, same⟩ := List.mem_map.mp isBare
  have freshBare : Fresh settings (bare chunk) := by
    rw [← same]
    exact fresh source isSource
  exact freshBare

theorem map_piece_attach (settings : Settings) (chunks : List (Chunk Position)) :
    (attach_context_to_media_chunks settings chunks).map Chunk.piece = chunks.map Chunk.piece := by
  have ofBare (chunks : List (Chunk Position)) :
      (chunks.map bare).map Chunk.piece = chunks.map Chunk.piece := List.map_map
  rw [← ofBare, attach_context_to_media_chunks, map_bare_attachFrom, ofBare]

theorem merges_topChunks (settings : Settings) (json_result : List (Item Position)) :
    Partition settings (topChunks settings json_result) (foundPieces settings json_result) ∧
      (topChunks settings json_result).filter (·.ck_type ≠ .text) =
        (attach_context_to_media_chunks settings (build_json_chunks settings json_result)).filter
          (·.ck_type ≠ .text) ∧
      ∀ top ∈ topChunks settings json_result, top.mom = none := by
  have built : ∀ chunk ∈ build_json_chunks settings json_result, Fresh settings chunk :=
    fun chunk isChunk => (fresh_build isChunk).1
  have fresh := fresh_attach built
  have found := map_piece_attach settings (build_json_chunks settings json_result)
  rw [← foundPieces] at found
  rw [topChunks, ← found]
  split
  · have merges := merges_foldl fresh
    exact ⟨merges.partition, merges.media, merges.mom_eq_none⟩
  · exact ⟨partition_unmerged fun chunk isChunk => (fresh chunk isChunk).1, rfl,
      fun chunk isChunk => (fresh chunk isChunk).2⟩

theorem mem_children {top chunk : Chunk Position} : chunk ∈ children settings top ↔
    (top.ck_type ≠ .text ∧ chunk = top) ∨
      (top.ck_type = .text ∧
        ∃ text ∈ (split_text_by_pattern settings.children_delimiters top.text).filter (!isBlank ·),
          chunk = { top with mom := some top.text, text }) := by
  rw [children]
  split
  · rename_i isMedia
    simp [isMedia]
  · rename_i isText
    rw [not_not] at isText
    simp only [List.mem_map, isText, ne_eq, not_true_eq_false, false_and, false_or, true_and]
    exact exists_congr fun text => and_congr_right fun _ => eq_comm

theorem filter_children (top : Chunk Position) :
    (children settings top).filter (·.ck_type ≠ .text) = [top].filter (·.ck_type ≠ .text) := by
  by_cases isText : top.ck_type = .text
  · have noMedia : [top].filter (·.ck_type ≠ .text) = [] := by simp [isText]
    rw [noMedia, List.filter_eq_nil_iff]
    intro chunk isChunk
    rcases mem_children.mp isChunk with ⟨isMedia, -⟩ | ⟨-, text, -, rfl⟩
    · exact absurd isText isMedia
    · simp [isText]
  · rw [children, if_pos isText]

theorem filter_flatMap_children (tops : List (Chunk Position)) :
    (tops.flatMap (children settings)).filter (·.ck_type ≠ .text) =
      tops.filter (·.ck_type ≠ .text) := by
  induction tops with
  | nil => rfl
  | cons top tops ih =>
    rw [List.flatMap_cons, List.filter_append, ih, filter_children, ← List.filter_append,
      List.singleton_append]

theorem infix_of_child {top chunk : Chunk Position} (isSome : settings.children_delimiters ≠ [])
    (noMom : top.mom = none) (isChild : chunk ∈ children settings top) {mom : Text}
    (isMom : chunk.mom = some mom) : mom = top.text ∧ chunk.text <:+: mom ∧
      HasChild settings.children_delimiters mom := by
  rcases mem_children.mp isChild with ⟨-, rfl⟩ | ⟨-, text, isPart, rfl⟩
  · rw [noMom] at isMom
    cases isMom
  · obtain rfl := Option.some.inj isMom
    rw [filter_split isSome] at isPart
    obtain ⟨pair, isPair, notEmpty, notBlank, -⟩ := (mem_split_text_by_pattern isSome).mp isPart
    exact ⟨rfl, infix_of_mem_split settings.children_nonempty isSome isPart, pair, isPair,
      notEmpty, notBlank⟩

theorem exists_child {top : Chunk Position} (isSome : settings.children_delimiters ≠ [])
    (isText : top.ck_type = .text) (hasChild : HasChild settings.children_delimiters top.text) :
    ∃ chunk ∈ children settings top, chunk.mom = some top.text := by
  obtain ⟨pair, isPair, notEmpty, notBlank⟩ := hasChild
  refine ⟨{ top with mom := some top.text, text := whole pair }, ?_, rfl⟩
  refine mem_children.mpr (.inr ⟨isText, whole pair, ?_, rfl⟩)
  rw [filter_split isSome]
  exact (mem_split_text_by_pattern isSome).mpr ⟨pair, isPair, notEmpty, notBlank, rfl⟩

theorem kept_iff (json_result : List (Item Position)) :
    (∀ top ∈ topChunks settings json_result, ∃ chunk ∈ chunked settings json_result,
        chunk = top ∨ chunk.mom = some top.text) ↔
      (settings.children_delimiters ≠ [] → ∀ top ∈ topChunks settings json_result,
        top.ck_type = .text → HasChild settings.children_delimiters top.text) := by
  obtain ⟨-, -, noMom⟩ := merges_topChunks settings json_result
  rw [chunked]
  by_cases isSome : settings.children_delimiters = []
  · rw [if_pos isSome]
    exact iff_of_true (fun top isTop => ⟨top, isTop, .inl rfl⟩) fun isSome' => absurd isSome isSome'
  · rw [if_neg isSome, forall_prop_of_true isSome]
    constructor
    · intro kept top isTop isText
      obtain ⟨chunk, isChunk, isKept⟩ := kept top isTop
      obtain ⟨source, isSource, isChild⟩ := List.mem_flatMap.mp isChunk
      rcases isKept with rfl | isMom
      · -- a text chunk is no child, so it is not left as it is
        rcases mem_children.mp isChild with ⟨isMedia, rfl⟩ | ⟨-, text, -, isRest⟩
        · exact absurd isText isMedia
        · have isNone := noMom chunk isTop
          rw [isRest] at isNone
          cases isNone
      · exact (infix_of_child isSome (noMom source isSource) isChild isMom).2.2
    · intro hasChild top isTop
      by_cases isText : top.ck_type = .text
      · obtain ⟨chunk, isChild, isMom⟩ := exists_child isSome isText (hasChild top isTop isText)
        exact ⟨chunk, List.mem_flatMap_of_mem isTop isChild, .inr isMom⟩
      · exact ⟨top, List.mem_flatMap_of_mem isTop (mem_children.mpr (.inl ⟨isText, rfl⟩)), .inl rfl⟩

theorem child_of_chunked {json_result : List (Item Position)} {chunk : Chunk Position}
    (isChunk : chunk ∈ chunked settings json_result) {mom : Text} (isMom : chunk.mom = some mom) :
    chunk.text <:+: mom := by
  obtain ⟨-, -, noMom⟩ := merges_topChunks settings json_result
  rw [chunked] at isChunk
  split at isChunk
  · rw [noMom chunk isChunk] at isMom
    cases isMom
  · rename_i isSome
    obtain ⟨top, isTop, isChild⟩ := List.mem_flatMap.mp isChunk
    exact (infix_of_child isSome (noMom top isTop) isChild isMom).2.1

theorem media_chunked (json_result : List (Item Position)) :
    (chunked settings json_result).filter (·.ck_type ≠ .text) =
      (attach_context_to_media_chunks settings (build_json_chunks settings json_result)).filter
        (·.ck_type ≠ .text) := by
  obtain ⟨-, media, -⟩ := merges_topChunks settings json_result
  rw [chunked, ← media]
  split
  · rfl
  · exact filter_flatMap_children _

/-- The passes conserve the items exactly if, without overlap, no delimiter stands at the front of
a text or right behind another, and no chunk is without children. -/
theorem conserves_iff (settings : Settings) (json_result : List (Item Position)) :
    Conserves settings json_result ↔ (settings.overlap = 0 →
      (∀ item ∈ json_result, item.ck_type = .text → settings.pattern ≠ [] →
        Keeps settings.pattern item.content) ∧
      (settings.children_delimiters ≠ [] → ∀ top ∈ topChunks settings json_result,
        top.ck_type = .text → HasChild settings.children_delimiters top.text)) := by
  obtain ⟨partition, -, -⟩ := merges_topChunks settings json_result
  obtain ⟨sublist, allFound⟩ := sublist_pieces settings json_result
  constructor
  · intro conserves isExact
    refine ⟨allFound.mp ?_, (kept_iff json_result).mp (conserves.kept isExact)⟩
    apply eq_of_sublist sublist (characters_ne_nil json_result)
    rw [characters_of_partition isExact partition,
      characters_of_partition isExact (conserves.text isExact)]
  · intro keeps
    constructor
    · intro isExact
      rw [← allFound.mpr (keeps isExact).1]
      exact partition
    · exact fun isExact => (kept_iff json_result).mpr (keeps isExact).2
    · exact ⟨_, sublist, filter_isMedia_found json_result, partition⟩
    · exact media_chunked json_result
    · exact fun before chunk after isSplit =>
        context_attach (fun chunk isChunk => (fresh_build isChunk).2) isSplit
    · exact fun chunk isChunk mom isMom => child_of_chunked isChunk isMom

def headingSettings : Settings where
  num_tokens_from_string := List.length
  delimiters := ["`#`".toList]
  children_delimiters := []
  children_nonempty := by simp
  chunk_token_size := 512
  overlapped_percent := 0
  table_context_size := 0
  image_context_size := 0

def headingItem : Item Unit where
  doc_type_kwd := none
  text := some "#a".toList
  content_with_weight := none
  img_id := none
  positions := []

theorem not_conserves_heading : ¬Conserves headingSettings [headingItem] := by
  intro conserves
  have same := characters_of_partition rfl (conserves.text rfl)
  exact absurd same (by decide)

end RagFlow.Chunking.TokenChunker
