import RagFlow.Lib.Dict
import RagFlow.Pdf.PositionTags

/-!
# Positions of chunks

`rag/flow/parser/pdf_chunk_metadata.py`: chunks and boxes carry their positions under several keys;
normalising writes them under one key, with pages that count from one.  How Python reads numbers
from texts is a parameter.
-/

namespace RagFlow.Pdf.ChunkMetadata

open Lib

inductive Number
  | finite (value : ℚ)
  | infinite (negative : Bool)
  | nan
  deriving DecidableEq

inductive Value
  | none
  | bool (value : Bool)
  | int (value : ℤ)
  | float (value : Number)
  | str (value : Text)
  | list (items : List Value)
  | tuple (items : List Value)
  | other

abbrev Item := Dict String Value

/-- What is not read as a number: an exception that is caught, or `OverflowError`, which is not. -/
inductive Fault
  | caught
  | overflow
  deriving DecidableEq

structure Reading where
  int : Text → Option ℤ
  float : Text → Option Number

variable (reading : Reading)

def truncate (value : ℚ) : ℤ := if 0 ≤ value then ⌊value⌋ else ⌈value⌉

def int : Value → Except Fault ℤ
  | .bool value => .ok (if value then 1 else 0)
  | .int value => .ok value
  | .float (.finite value) => .ok (truncate value)
  | .float (.infinite _) => .error .overflow
  | .float .nan => .error .caught
  | .str text => (reading.int text).elim (.error .caught) .ok
  | _ => .error .caught

def tooLarge : ℤ := 2 ^ 1024 - 2 ^ 970

def float : Value → Except Fault Number
  | .bool value => .ok (.finite (if value then 1 else 0))
  | .int value => if |value| < tooLarge then .ok (.finite value) else .error .overflow
  | .float value => .ok value
  | .str text => (reading.float text).elim (.error .caught) .ok
  | _ => .error .caught

structure Placed where
  page_number : ℤ
  left : Number
  right : Number
  top : Number
  bottom : Number
  deriving DecidableEq

def Placed.value (placed : Placed) : Value :=
  .list [.int placed.page_number, .float placed.left, .float placed.right, .float placed.top,
    .float placed.bottom]

def PDF_POSITIONS_KEY : String := "_pdf_positions"

def get (item : Item) (key : String) : Value := (item.get? key).getD .none

def items? : Value → Option (List Value)
  | .list items => some items
  | .tuple items => some items
  | _ => none

def isPresent : Value → Bool
  | .none => false
  | _ => true

def ofTag (position : Position) : Value :=
  .list [(position.pages.getLast?.map Value.int).getD .none, .float (.finite position.left),
    .float (.finite position.right), .float (.finite position.top), .float (.finite position.bottom)]

/-- `_extract_raw_positions`; nothing where it raises. -/
def extract_raw_positions (item : Item) : Option (List Value) :=
  match get item PDF_POSITIONS_KEY with
  | .list positions => some positions
  | _ =>
  match get item "positions" with
  | .list positions => some positions
  | _ =>
  match get item "position_tag" with
  | .str (char :: tag) => (extract_positions (char :: tag)).map (·.map ofTag)
  | _ =>
  match get item "position_int" with
  | .list positions => some ((positions.filterMap items?).filter (5 ≤ ·.length) |>.map .list)
  | _ =>
    if ["page_number", "x0", "x1", "top", "bottom"].all fun key => isPresent (get item key) then
      some [.list [get item "page_number", get item "x0", get item "x1", get item "top",
        get item "bottom"]]
    else some []

/-- The page of the item, counted from one. -/
def ref_page_number (item : Item) : Except Fault (Option ℤ) :=
  let shifted (page : ℤ) := if page ≤ 0 then page + 1 else page
  match get item "page_number" with
  | .bool value => .ok (some (shifted (if value then 1 else 0)))
  | .int value => .ok (some (shifted value))
  | .float value => (int reading (.float value)).map (some ∘ shifted)
  | _ => .ok none

def pageOf : Value → Option Value
  | .list pages => pages.getLast?
  | page => some page

def readPlaced (page left right top bottom : Value) : Except Fault Placed := do
  let page_number ← int reading page
  let left ← float reading left
  let right ← float reading right
  let top ← float reading top
  let bottom ← float reading bottom
  return ⟨page_number, left, right, top, bottom⟩

/-- A position that is read, or passed over; nothing where it raises. -/
def readPosition (pos : Value) : Option (Option Placed) :=
  match items? pos with
  | some (first :: left :: right :: top :: bottom :: _) =>
    (pageOf first).bind fun page =>
      match readPlaced reading page left right top bottom with
      | .ok placed => some (some placed)
      | .error .caught => some none
      | .error .overflow => none
  | _ => some none

def normalizedPage (ref : Option ℤ) (page_number : ℤ) : ℤ :=
  if ref = some (page_number + 1) then page_number + 1
  else if page_number ≤ 0 then page_number + 1
  else page_number

def Placed.normalized (ref : Option ℤ) (placed : Placed) : Placed :=
  { placed with page_number := normalizedPage ref placed.page_number }

def readPositions (item : Item) : Option (List Placed) := do
  let positions ← extract_raw_positions item
  let read ← positions.mapM (readPosition reading)
  return read.filterMap id

def extract_pdf_positions (item : Item) : Option (List Placed) := do
  -- `int` of a number that is none is not caught here
  let ref ← (ref_page_number reading item).toOption
  let placed ← readPositions reading item
  return placed.map (Placed.normalized ref)

def setPositions (item : Item) (positions : List Placed) : Item :=
  item.upsert PDF_POSITIONS_KEY fun _ => .list (positions.map Placed.value)

def normalize_pdf_item_metadata (item : Item) : Option Item :=
  (extract_pdf_positions reading item).map fun positions =>
    if positions = [] then item.erase PDF_POSITIONS_KEY else setPositions item positions

inductive Entry
  | dict (item : Item)
  | other (value : Value)

def normalizeEntry : Entry → Option Entry
  | .dict item => (normalize_pdf_item_metadata reading item).map .dict
  | .other value => some (.other value)

def normalize_pdf_items_metadata (items : List Entry) : Option (List Entry) :=
  items.mapM (normalizeEntry reading)

def Settles (item : Item) : Prop :=
  ∀ first, normalize_pdf_item_metadata reading item = some first →
    normalize_pdf_item_metadata reading first = some first ∧
      extract_pdf_positions reading first = extract_pdf_positions reading item

def extractEach (items : List Entry) : List (Option (List Placed)) :=
  items.map fun entry =>
    match entry with
    | .dict item => extract_pdf_positions reading item
    | .other _ => some []

def SettlesAll (items : List Entry) : Prop :=
  ∀ first, normalize_pdf_items_metadata reading items = some first →
    normalize_pdf_items_metadata reading first = some first ∧
      extractEach reading first = extractEach reading items

def Settled (item : Item) : Prop :=
  ∀ ref placed, ref_page_number reading item = .ok ref → readPositions reading item = some placed →
    (∀ position ∈ placed, 0 ≤ position.page_number ∧ (position.page_number = 0 → ref ≠ some 2)) ∧
      (placed = [] → readPositions reading (item.erase PDF_POSITIONS_KEY) = some [])

variable {reading} {item : Item}

theorem get_setPositions (positions : List Placed) (key : String) :
    get (setPositions item positions) key =
      if key = PDF_POSITIONS_KEY then .list (positions.map Placed.value) else get item key := by
  rw [get, setPositions, Dict.get?_upsert]
  split_ifs <;> rfl

theorem get_erase (key : String) :
    get (item.erase PDF_POSITIONS_KEY) key =
      if key = PDF_POSITIONS_KEY then .none else get item key := by
  rw [get, Dict.get?_erase]
  split_ifs <;> rfl

theorem ref_page_number_setPositions (positions : List Placed) :
    ref_page_number reading (setPositions item positions) = ref_page_number reading item := by
  have same : get (setPositions item positions) "page_number" = get item "page_number" := by
    rw [get_setPositions, if_neg (by decide)]
  simp only [ref_page_number, same]

theorem ref_page_number_erase :
    ref_page_number reading (item.erase PDF_POSITIONS_KEY) = ref_page_number reading item := by
  have same : get (item.erase PDF_POSITIONS_KEY) "page_number" = get item "page_number" := by
    rw [get_erase, if_neg (by decide)]
  simp only [ref_page_number, same]

theorem readPosition_value (placed : Placed) :
    readPosition reading placed.value = some (some placed) := rfl

theorem readPositions_setPositions (placed : List Placed) :
    readPositions reading (setPositions item placed) = some placed := by
  have read : (placed.map Placed.value).mapM (readPosition reading) = some (placed.map some) := by
    induction placed with
    | nil => rfl
    | cons first placed ih =>
      rw [List.map_cons, List.mapM_cons, ih, readPosition_value]
      rfl
  rw [readPositions, extract_raw_positions, get_setPositions, if_pos rfl]
  simp [read, List.filterMap_map]

theorem normalizedPage_settled {ref : Option ℤ} {page : ℤ} :
    normalizedPage ref (normalizedPage ref page) = normalizedPage ref page ↔
      0 ≤ page ∧ (page = 0 → ref ≠ some 2) := by
  cases ref with
  | none =>
    simp only [normalizedPage, reduceCtorEq, if_false, ne_eq, not_false_eq_true, imp_true_iff,
      and_true]
    split_ifs <;> omega
  | some ref =>
    simp only [normalizedPage, Option.some.injEq, ne_eq]
    by_cases isBefore : ref = page + 1
    · rw [if_pos isBefore]
      split_ifs <;> omega
    · rw [if_neg isBefore]
      split_ifs <;> omega

theorem normalized_settled {ref : Option ℤ} {placed : Placed} :
    (placed.normalized ref).normalized ref = placed.normalized ref ↔
      0 ≤ placed.page_number ∧ (placed.page_number = 0 → ref ≠ some 2) := by
  rw [← normalizedPage_settled]
  cases placed
  simp [Placed.normalized]

theorem map_normalized_settled {ref : Option ℤ} {placed : List Placed} :
    (placed.map (Placed.normalized ref)).map (Placed.normalized ref) =
        placed.map (Placed.normalized ref) ↔
      ∀ position ∈ placed,
        0 ≤ position.page_number ∧ (position.page_number = 0 → ref ≠ some 2) := by
  rw [List.map_map, List.map_inj_left]
  exact forall₂_congr fun position _ => normalized_settled

theorem extract_pdf_positions_eq {ref : Option ℤ} {placed : List Placed}
    (isRef : ref_page_number reading item = .ok ref)
    (isRead : readPositions reading item = some placed) :
    extract_pdf_positions reading item = some (placed.map (Placed.normalized ref)) := by
  rw [extract_pdf_positions, isRef, isRead]
  rfl

theorem extract_pdf_positions_eq_some {found : List Placed}
    (extracted : extract_pdf_positions reading item = some found) :
    ∃ ref placed, ref_page_number reading item = .ok ref ∧
      readPositions reading item = some placed ∧ found = placed.map (Placed.normalized ref) := by
  cases isRef : ref_page_number reading item with
  | error fault => rw [extract_pdf_positions, isRef] at extracted; cases extracted
  | ok ref =>
    cases isRead : readPositions reading item with
    | none => rw [extract_pdf_positions, isRef, isRead] at extracted; cases extracted
    | some placed =>
      rw [extract_pdf_positions_eq isRef isRead] at extracted
      exact ⟨ref, placed, rfl, rfl, (Option.some.inj extracted).symm⟩

theorem settles_iff_of_nil {ref : Option ℤ} (isRef : ref_page_number reading item = .ok ref)
    (isRead : readPositions reading item = some []) :
    Settles reading item ↔
      readPositions reading (item.erase PDF_POSITIONS_KEY) = some [] := by
  have isFirst : normalize_pdf_item_metadata reading item =
      some (item.erase PDF_POSITIONS_KEY) := by
    rw [normalize_pdf_item_metadata, extract_pdf_positions_eq isRef isRead]
    rfl
  have sameRef : ref_page_number reading (item.erase PDF_POSITIONS_KEY) = .ok ref := by
    rw [ref_page_number_erase, isRef]
  constructor
  · intro settles
    have same := (settles _ isFirst).2
    rw [extract_pdf_positions_eq isRef isRead] at same
    obtain ⟨other, placed, -, isReadAgain, isEmpty⟩ := extract_pdf_positions_eq_some same
    rw [isReadAgain, List.map_eq_nil_iff.mp isEmpty.symm]
  · intro nothing first normalized
    obtain rfl := Option.some.inj (isFirst.symm.trans normalized)
    have extracted := extract_pdf_positions_eq sameRef nothing
    have erased : (item.erase PDF_POSITIONS_KEY).get? PDF_POSITIONS_KEY = none := by
      rw [Dict.get?_erase, if_pos rfl]
    rw [normalize_pdf_item_metadata, extracted, extract_pdf_positions_eq isRef isRead]
    exact ⟨congrArg some (Dict.erase_eq_self erased), rfl⟩

theorem settles_iff_of_ne_nil {ref : Option ℤ} {placed : List Placed}
    (isRef : ref_page_number reading item = .ok ref)
    (isRead : readPositions reading item = some placed) (nonempty : placed ≠ []) :
    Settles reading item ↔ ∀ position ∈ placed,
      0 ≤ position.page_number ∧ (position.page_number = 0 → ref ≠ some 2) := by
  have written : placed.map (Placed.normalized ref) ≠ [] := by simpa using nonempty
  have isFirst : normalize_pdf_item_metadata reading item =
      some (setPositions item (placed.map (Placed.normalized ref))) := by
    rw [normalize_pdf_item_metadata, extract_pdf_positions_eq isRef isRead, Option.map_some,
      if_neg written]
  have extracted : extract_pdf_positions reading
      (setPositions item (placed.map (Placed.normalized ref))) =
        some ((placed.map (Placed.normalized ref)).map (Placed.normalized ref)) :=
    extract_pdf_positions_eq ((ref_page_number_setPositions _).trans isRef)
      (readPositions_setPositions _)
  rw [← map_normalized_settled]
  constructor
  · intro settles
    have same := (settles _ isFirst).2
    rw [extracted, extract_pdf_positions_eq isRef isRead] at same
    exact Option.some.inj same
  · intro settled first normalized
    obtain rfl := Option.some.inj (isFirst.symm.trans normalized)
    rw [normalize_pdf_item_metadata, extracted, settled, extract_pdf_positions_eq isRef isRead]
    refine ⟨?_, rfl⟩
    rw [Option.map_some, if_neg written]
    have found : (setPositions item (placed.map (Placed.normalized ref))).get? PDF_POSITIONS_KEY =
        some (.list ((placed.map (Placed.normalized ref)).map Placed.value)) := by
      rw [setPositions, Dict.get?_upsert, if_pos rfl]
    exact congrArg some (Dict.upsert_eq_self found rfl)

theorem item_settles_iff : Settles reading item ↔ Settled reading item := by
  constructor
  · intro settles ref placed isRef isRead
    by_cases isEmpty : placed = []
    · subst isEmpty
      exact ⟨by simp, fun _ => (settles_iff_of_nil isRef isRead).mp settles⟩
    · exact ⟨(settles_iff_of_ne_nil isRef isRead isEmpty).mp settles, fun same =>
        absurd same isEmpty⟩
  · intro settled first normalized
    obtain ⟨found, extracted, -⟩ := Option.map_eq_some_iff.mp normalized
    obtain ⟨ref, placed, isRef, isRead, -⟩ := extract_pdf_positions_eq_some extracted
    obtain ⟨pages, key⟩ := settled ref placed isRef isRead
    by_cases isEmpty : placed = []
    · subst isEmpty
      exact (settles_iff_of_nil isRef isRead).mpr (key rfl) first normalized
    · exact (settles_iff_of_ne_nil isRef isRead isEmpty).mpr pages first normalized

theorem normalize_pdf_items_metadata_cons {entry : Entry} {items first : List Entry} :
    normalize_pdf_items_metadata reading (entry :: items) = some first ↔
      ∃ head rest, normalizeEntry reading entry = some head ∧
        normalize_pdf_items_metadata reading items = some rest ∧ first = head :: rest := by
  rw [normalize_pdf_items_metadata, List.mapM_cons]
  simp only [Option.bind_eq_bind, Option.bind_eq_some_iff, Option.pure_def, Option.some.injEq,
    normalize_pdf_items_metadata]
  constructor
  · rintro ⟨head, isHead, rest, isRest, rfl⟩
    exact ⟨head, rest, isHead, isRest, rfl⟩
  · rintro ⟨head, rest, isHead, isRest, rfl⟩
    exact ⟨head, isHead, rest, isRest, rfl⟩

theorem items_settled {items first : List Entry}
    (normalized : normalize_pdf_items_metadata reading items = some first) :
    (normalize_pdf_items_metadata reading first = some first ∧
        extractEach reading first = extractEach reading items) ↔
      ∀ item, Entry.dict item ∈ items → Settled reading item := by
  induction items generalizing first with
  | nil =>
    obtain rfl : [] = first := Option.some.inj normalized
    simp [normalize_pdf_items_metadata]
  | cons entry items ih =>
    obtain ⟨head, rest, isHead, isRest, rfl⟩ := normalize_pdf_items_metadata_cons.mp normalized
    have again : normalize_pdf_items_metadata reading (head :: rest) = some (head :: rest) ↔
        normalizeEntry reading head = some head ∧
          normalize_pdf_items_metadata reading rest = some rest := by
      rw [normalize_pdf_items_metadata_cons]
      constructor
      · rintro ⟨other, others, isOther, isOthers, same⟩
        obtain ⟨rfl, rfl⟩ := List.cons_eq_cons.mp same
        exact ⟨isOther, isOthers⟩
      · rintro ⟨isOther, isOthers⟩
        exact ⟨head, rest, isOther, isOthers, rfl⟩
    rw [again]
    cases entry with
    | other value =>
      obtain rfl : Entry.other value = head := Option.some.inj isHead
      simp only [extractEach, List.map_cons, List.cons.injEq, true_and, normalizeEntry,
        List.mem_cons, reduceCtorEq, false_or, ← ih isRest]
    | dict item =>
      obtain ⟨first, isFirst, rfl⟩ := Option.map_eq_some_iff.mp isHead
      have settles : Settles reading item ↔
          normalize_pdf_item_metadata reading first = some first ∧
            extract_pdf_positions reading first = extract_pdf_positions reading item := by
        constructor
        · exact fun settles => settles first isFirst
        · intro settled other isOther
          obtain rfl := Option.some.inj (isFirst.symm.trans isOther)
          exact settled
      have isSame : normalizeEntry reading (.dict first) = some (.dict first) ↔
          normalize_pdf_item_metadata reading first = some first := by
        simp [normalizeEntry, Option.map_eq_some_iff]
      have each : extractEach reading (.dict first :: rest) =
          extractEach reading (.dict item :: items) ↔
            extract_pdf_positions reading first = extract_pdf_positions reading item ∧
              extractEach reading rest = extractEach reading items := by
        simp only [extractEach, List.map_cons, List.cons.injEq]
      have members : (∀ other, Entry.dict other ∈ Entry.dict item :: items →
          Settled reading other) ↔ Settled reading item ∧
            ∀ other, Entry.dict other ∈ items → Settled reading other := by
        simp [or_imp, forall_and]
      rw [isSame, each, members, ← ih isRest, ← item_settles_iff, settles]
      exact and_and_and_comm

/-- When normalising settles positions, of one dictionary and of a list. -/
theorem normalize_settles_iff :
    (∀ item, Settles reading item ↔ Settled reading item) ∧
      ∀ items, SettlesAll reading items ↔
        ∀ first, normalize_pdf_items_metadata reading items = some first →
          ∀ item, Entry.dict item ∈ items → Settled reading item :=
  ⟨fun _ => item_settles_iff, fun _ => forall₂_congr fun _ normalized => items_settled normalized⟩

def zeroBased : Item where
  items := [("page_number", .int 2), ("positions", .list
    [.list (.int 0 :: [10, 200, 700, 720].map fun value => .float (.finite value)),
      .list (.int 1 :: [10, 200, 30, 50].map fun value => .float (.finite value))])]
  nodup := by decide

def unread : Reading := ⟨fun _ => none, fun _ => none⟩

/-- The first page is moved to the second when the chunk is normalised again. -/
theorem not_settles_zeroBased : ¬ Settles unread zeroBased := by
  intro settles
  obtain ⟨-, same⟩ := settles _ rfl
  exact absurd same (by decide)

end RagFlow.Pdf.ChunkMetadata
