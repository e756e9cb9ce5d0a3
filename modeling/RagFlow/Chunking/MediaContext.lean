import Mathlib.Data.List.Lex
import Mathlib.Data.List.Sort
import Mathlib.Data.Rat.Floor
import RagFlow.Chunking.Delimiters
import RagFlow.Lib.Dict
import RagFlow.Lib.PyString

/-!
# Tables and images with the text around them

`attach_media_context` of `rag/nlp/__init__.py`: a table or an image gets sentences of the text
chunk beside it, those up to the middle above its own text and the others below.  Floating-point
numbers are rationals; token counts and the tokenizer are parameters.
-/

namespace RagFlow.Chunking.MediaContext

open Lib

/-- A field that may be missing, or hold something that is no text. -/
inductive Field
  | missing
  | other
  | str (text : Text)
  deriving DecidableEq

structure Chunk (Picture : Type) where
  doc_type_kwd : Option String
  content_with_weight : Field
  text : Field
  image : Option Picture
  content_ltks : Option Text
  content_sm_ltks : Option Text
  page_num_int : List ℚ
  page_number : Option ℚ
  top_int : List ℚ
  top : Option ℚ
  bottom : Option ℚ
  x0 : Option ℚ
  position_int : List (List (Option ℚ))

structure Settings where
  num_tokens_from_string : Text → Nat
  tokenize : Text → Text
  fine_grained_tokenize : Text → Text
  table_context_size : Int
  image_context_size : Int

variable {Picture : Type} (settings : Settings)

def Chunk.textVal (ck : Chunk Picture) : Option Text :=
  match ck.content_with_weight with
  | .str text => some text
  | _ =>
    match ck.text with
    | .str text => some text
    | _ => none

def Chunk.get_text (ck : Chunk Picture) : Text := ck.textVal.getD []

def Chunk.hasText (ck : Chunk Picture) : Bool :=
  match ck.textVal with
  | some text => PyString.stripChars text ≠ []
  | none => false

def Chunk.is_image_chunk (ck : Chunk Picture) : Bool :=
  ck.doc_type_kwd = some "image" || ck.image.isSome && !ck.hasText

def Chunk.is_table_chunk (ck : Chunk Picture) : Bool := ck.doc_type_kwd = some "table"

def Chunk.is_text_chunk (ck : Chunk Picture) : Bool := !ck.is_image_chunk && !ck.is_table_chunk

def sentenceEnd : Regex := .oneOf ".。！？!?；;：:\n"

def addPart (state : List Text × Text) (p : Text) : List Text × Text :=
  if p = [] then state
  else if sentenceEnd.isFullmatch p then (state.1 ++ [state.2 ++ p], [])
  else (state.1, state.2 ++ p)

def split_sentences (text : Text) : List Text :=
  let (sentences, buf) := (sentenceEnd.split text).foldl addPart ([], [])
  if buf ≠ [] then sentences ++ [buf] else sentences

def trimmed (remaining : Int) : List Text → List Text
  | [] => []
  | s :: rest =>
    let tks : Int := settings.num_tokens_from_string s
    if tks ≤ 0 then trimmed remaining rest
    else if remaining < tks then [s]
    else s :: trimmed (remaining - tks) rest

def trim_to_tokens (text : Text) (token_budget : Int) (from_tail : Bool) : Text :=
  if token_budget ≤ 0 ∨ text = [] then []
  else
    let sentences := split_sentences text
    if from_tail then (trimmed settings token_budget sentences.reverse).reverse.flatten
    else (trimmed settings token_budget sentences).flatten

/-- The first sentence whose end is nearest to half of the tokens, with twice its distance. -/
def nearestToMiddle (total : Nat) (cum : Nat) (i : Nat) (best : Option (Nat × Nat)) :
    List Text → Option (Nat × Nat)
  | [] => best
  | s :: rest =>
    let cum := cum + settings.num_tokens_from_string s
    let diff := (2 * (cum : Int) - total).natAbs
    nearestToMiddle total cum (i + 1)
      (match best with
      | none => some (i, diff)
      | some (best_idx, best_diff) =>
        if diff < best_diff then some (i, diff) else some (best_idx, best_diff))
      rest

def find_mid_sentence_index (sentences : List Text) : Nat :=
  let total := (sentences.map settings.num_tokens_from_string).sum
  if total = 0 then sentences.length / 2
  else ((nearestToMiddle settings total 0 0 none sentences).map Prod.fst).getD 0

def collected (from_tail : Bool) (remaining : Int) : List Text → List Text
  | [] => []
  | s :: rest =>
    let tks : Int := settings.num_tokens_from_string s
    if remaining ≤ 0 then []
    else if tks ≤ 0 then collected from_tail remaining rest
    else
      let s := if remaining < tks then trim_to_tokens settings s remaining from_tail else s
      s :: collected from_tail (remaining - settings.num_tokens_from_string s) rest

def collect_context_from_sentences (sentences : List Text) (boundary_idx : Nat)
    (token_budget : Int) : List Text × List Text :=
  ((collected settings true token_budget (sentences.take (boundary_idx + 1)).reverse).reverse,
    collected settings false token_budget (sentences.drop (boundary_idx + 1)))

def truncate (value : ℚ) : Int := value.num.tdiv value.den

abbrev Bounds := Dict Int (ℚ × ℚ)

def ordered (top : ℚ) (bottom : Option ℚ) : ℚ × ℚ :=
  let bottom := bottom.getD top
  if bottom < top then (bottom, top) else (top, bottom)

/-- One position; no result is an exception. -/
def addPosition (bounds : Bounds) (pos : List (Option ℚ)) : Option Bounds :=
  if pos.length < 5 then some bounds
  else
    match pos with
    | [some pn, _, _, some top, bottom] =>
      let (top_val, bottom_val) := ordered top bottom
      some (bounds.upsert (truncate pn) fun
        | some (upper, lower) => (min upper top_val, max lower bottom_val)
        | none => (top_val, bottom_val))
    | [_, _, _, _, _] => some bounds
    | _ => none

def pageOf (ck : Chunk Picture) : Option ℚ :=
  match ck.page_num_int with
  | pn :: _ => some pn
  | [] => ck.page_number

def topOf (ck : Chunk Picture) : Option ℚ :=
  match ck.top_int with
  | top :: _ => some top
  | [] => ck.top

def get_bounds_by_page (ck : Chunk Picture) : Bounds :=
  if ck.position_int ≠ [] then (ck.position_int.foldlM addPosition Dict.empty).getD Dict.empty
  else
    match pageOf ck, topOf ck with
    | some pn, some top => Dict.empty.upsert (truncate pn) fun _ => ordered top ck.bottom
    | _, _ => Dict.empty

structure Position where
  pn : Option ℚ
  top : Option ℚ
  left : Option ℚ

def extract_position (ck : Chunk Picture) : Position :=
  match ck.position_int with
  | [] => ⟨pageOf ck, topOf ck, ck.x0⟩
  | pos :: _ =>
    match pos[1]? with
    | some left => ⟨pageOf ck, topOf ck, left⟩
    | none => ⟨none, none, none⟩

def sortKey (idx : Nat) (ck : Chunk Picture) : Option (List Int) :=
  match extract_position ck with
  | ⟨some pn, some top, left⟩ =>
    some [truncate pn, truncate top, truncate (left.getD 0), (idx : Int)]
  | _ => none

def positioned_indices (chunks : List (Chunk Picture)) : List (List Int × Nat) :=
  let keyed := chunks.zipIdx.filterMap fun (ck, idx) => (sortKey idx ck).map fun key => (key, idx)
  keyed.insertionSort fun first second => first.1 ≤ second.1

def unpositioned_indices (chunks : List (Chunk Picture)) : List Nat :=
  (chunks.zipIdx.filter fun (ck, idx) => (sortKey idx ck).isNone).map Prod.snd

def ordered_indices (chunks : List (Chunk Picture)) : List Nat :=
  if positioned_indices chunks ≠ [] then
    (positioned_indices chunks).map Prod.snd ++ unpositioned_indices chunks
  else List.range chunks.length

def text_bounds (chunks : List (Chunk Picture)) : List (Nat × Bounds) :=
  chunks.zipIdx.filterMap fun (ck, idx) =>
    let bounds := get_bounds_by_page ck
    if ck.is_text_chunk ∧ bounds.items ≠ [] then some (idx, bounds) else none

def considerPage (media_bounds : Bounds) (text_idx : Nat) (best : Option (Nat × ℚ))
    (page : Int × ℚ × ℚ) : Option (Nat × ℚ) :=
  match media_bounds.get? page.1 with
  | none => best
  | some (m_top, m_bottom) =>
    let (t_top, t_bottom) := page.2
    if m_bottom < t_top ∨ t_bottom < m_top then best
    else
      let dist := |(m_top + m_bottom) / 2 - (t_top + t_bottom) / 2|
      match best with
      | none => some (text_idx, dist)
      | some (best_idx, best_dist) =>
        if dist < best_dist then some (text_idx, dist) else some (best_idx, best_dist)

def overlapping (media_bounds : Bounds) (texts : List (Nat × Bounds)) : Option Nat :=
  (texts.foldl (fun best text =>
    text.2.items.foldl (considerPage media_bounds text.1) best) none).map Prod.fst

def page_order (chunks : List (Chunk Picture)) (order : List Nat) (media_page : Int) : List Nat :=
  order.filter fun idx => (chunks[idx]?.bind fun ck => (extract_position ck).pn) = some ↑media_page

def isTextAt (chunks : List (Chunk Picture)) (idx : Nat) : Bool :=
  chunks[idx]?.any Chunk.is_text_chunk

def neighbor (chunks : List (Chunk Picture)) (onPage : List Nat) (idx : Nat) : Option Nat :=
  if idx ∈ onPage then
    let pos_in_page := onPage.idxOf idx
    if pos_in_page = 0 then (onPage.drop (pos_in_page + 1)).find? (isTextAt chunks)
    else if pos_in_page = onPage.length - 1 then
      (onPage.take pos_in_page).reverse.find? (isTextAt chunks)
    else none
  else none

def best_idx (chunks : List (Chunk Picture)) (order : List Nat) (texts : List (Nat × Bounds))
    (idx : Nat) (ck : Chunk Picture) : Option Nat :=
  let media_bounds := get_bounds_by_page ck
  match overlapping media_bounds texts with
  | some text_idx => some text_idx
  | none => media_bounds.keys.min?.bind fun media_page =>
    neighbor chunks (page_order chunks order media_page) idx

def token_budget (ck : Chunk Picture) : Int :=
  if ck.is_image_chunk then settings.image_context_size
  else if ck.is_table_chunk then settings.table_context_size
  else 0

def self_text (ck : Chunk Picture) : List Text := if ck.get_text ≠ [] then [ck.get_text] else []

def join (pieces : List Text) : Text := (pieces.intersperse ['\n']).flatten

def withText (ck : Chunk Picture) (text : Text) : Chunk Picture :=
  let original := if ck.content_with_weight ≠ .missing then ck.content_with_weight else ck.text
  let written : Chunk Picture :=
    if ck.content_with_weight ≠ .missing then { ck with content_with_weight := .str text }
    else if ck.text ≠ .missing then { ck with text := .str text }
    else ck
  if original = .str text then written
  else
    let content_ltks := ck.content_ltks.map fun _ => settings.tokenize text
    { written with
      content_ltks := content_ltks
      content_sm_ltks := ck.content_sm_ltks.map fun _ =>
        settings.fine_grained_tokenize (content_ltks.getD (settings.tokenize text)) }

def contextFrom (chunks : List (Chunk Picture)) (budget : Int) (source : Option Nat) :
    List Text × List Text :=
  match source.bind (chunks[·]?) with
  | none => ([], [])
  | some text =>
    let sentences := split_sentences text.get_text
    collect_context_from_sentences settings sentences (find_mid_sentence_index settings sentences)
      budget

def attachAt (order : List Nat) (texts : List (Nat × Bounds)) (chunks : List (Chunk Picture))
    (idx : Nat) : List (Chunk Picture) :=
  match chunks[idx]? with
  | none => chunks
  | some ck =>
    let budget := token_budget settings ck
    if budget ≤ 0 then chunks
    else
      let (prev_ctx, next_ctx) :=
        contextFrom settings chunks budget (best_idx chunks order texts idx ck)
      if prev_ctx = [] ∧ next_ctx = [] then chunks
      else
        chunks.set idx (withText settings ck (join (prev_ctx ++ self_text ck ++ next_ctx)))

def attached (chunks : List (Chunk Picture)) : List (Chunk Picture) :=
  (ordered_indices chunks).foldl (attachAt settings (ordered_indices chunks) (text_bounds chunks))
    chunks

def attach_media_context (chunks : List (Chunk Picture)) : List (Chunk Picture) :=
  if chunks = [] ∨ (settings.table_context_size ≤ 0 ∧ settings.image_context_size ≤ 0) then chunks
  else if positioned_indices chunks ≠ [] then
    (ordered_indices chunks).filterMap ((attached settings chunks)[·]?)
  else attached settings chunks

end RagFlow.Chunking.MediaContext
