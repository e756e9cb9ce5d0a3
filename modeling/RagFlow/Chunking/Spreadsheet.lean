import Mathlib.Data.List.Infix
import Mathlib.Data.List.Nodup
import Mathlib.Data.List.Range
import Mathlib.Data.Rat.Defs
import RagFlow.Lib.Bisection
import RagFlow.Lib.Paging
import RagFlow.Lib.PyString

/-!
# Spreadsheets

`RAGFlowExcelParser` reads the rows of a worksheet up to the last one with data, and renders those
below the header as lines and as tables.  In a worksheet of more than 10000 rows the last row is
looked for by bisection.
-/

namespace RagFlow.Chunking.Spreadsheet

open RagFlow.Lib

/-- A value of a cell.  Numbers, dates and times are kept with what `str` makes of them. -/
inductive Value
  | text (content : String)
  | number (amount : ℚ) (shown : String)
  | boolean (value : Bool)
  | other (shown : String) (truthy : Bool)
  deriving DecidableEq

def Value.str : Value → String
  | .text content => content
  | .number _ shown => shown
  | .boolean true => "True"
  | .boolean false => "False"
  | .other shown _ => shown

def Value.truthy : Value → Bool
  | .text content => content ≠ ""
  | .number amount _ => amount ≠ 0
  | .boolean value => value
  | .other _ truthy => truthy

/-- `str(value).strip()` is not empty. -/
def Value.isShown (value : Value) : Bool := PyString.strip value.str ≠ ""

/-- Rows and columns are counted from one. -/
structure Worksheet where
  title : String
  maxRow : Nat
  maxColumn : Nat
  value : Nat → Nat → Option Value
  inside : ∀ {row column}, (value row column).isSome →
    1 ≤ row ∧ row ≤ maxRow ∧ 1 ≤ column ∧ column ≤ maxColumn

namespace Worksheet

variable (ws : Worksheet)

section RowCount

def maxCol : Nat := min (if ws.maxColumn = 0 then 1 else ws.maxColumn) 50

def rowHasData (row : Nat) : Bool :=
  (List.range' 1 ws.maxCol).any fun column => (ws.value row column).any Value.isShown

/-- The first row with data of the ten from `mid` on. -/
def firstFrom (mid : Nat) : Option Nat :=
  (List.range' mid (min (mid + 10) (ws.maxRow + 1) - mid)).find? ws.rowHasData

/-- The bisection; `stop` is the row after `right`. -/
def bisectRows (left stop lastDataRow : Nat) : Nat :=
  if left < stop then
    match ws.firstFrom (Bisection.midpoint left stop) with
    | some row => bisectRows (Bisection.midpoint left stop + 1) stop (max lastDataRow row)
    | none => bisectRows left (Bisection.midpoint left stop) lastDataRow
  else
    lastDataRow
termination_by stop - left
decreasing_by all_goals simp only [Bisection.midpoint]; omega

def scanRows (lastDataRow : Nat) : Nat :=
  (List.range' lastDataRow (min (lastDataRow + 500) (ws.maxRow + 1) - lastDataRow)).foldl
    (fun last row => if ws.rowHasData row then row else last) lastDataRow

def actualRowCount : Nat :=
  if ws.maxRow ≤ 10000 then ws.maxRow
  else if (List.range' 1 (min 101 (ws.maxRow + 1) - 1)).any ws.rowHasData then
    ws.scanRows (ws.bisectRows 1 (ws.maxRow + 1) 1)
  else 0

end RowCount

section Renderers

/-- `_get_rows_limited`, by their numbers. -/
def rowsLimited : List Nat := List.range' 1 ws.actualRowCount

def columns : List Nat := List.range' 1 ws.maxColumn

end Renderers

end Worksheet

structure Field where
  column : Nat
  header : String
  value : Value
  deriving DecidableEq

def Field.text (field : Field) : String :=
  field.header ++ (if field.header = "" then "" else "：") ++ field.value.str

structure Line where
  row : Nat
  fields : List Field
  deriving DecidableEq

def Line.text (sheetname : String) (line : Line) : String :=
  "; ".intercalate (line.fields.map Field.text) ++
    if "sheet".toList <:+: sheetname.toList.map Char.toLower then "" else " ——" ++ sheetname

/-- A `<td>` of a row below the header. -/
structure Td where
  row : Nat
  column : Nat
  value : Option Value
  deriving DecidableEq

def escapeChar (char : Char) : String :=
  if char = '&' then "&amp;"
  else if char = '<' then "&lt;"
  else if char = '>' then "&gt;"
  else if char = '"' then "&quot;"
  else if char.toNat = 39 then "&#x27;"
  else char.toString

def escape (text : String) : String := String.join (text.toList.map escapeChar)

def fmt (value : Option Value) : String := (value.map fun value => PyString.strip value.str).getD ""

def Td.html (td : Td) : String := "<td>" ++ escape (fmt td.value) ++ "</td>"

namespace Worksheet

variable (ws : Worksheet)

def headerText (column : Nat) : String := ((ws.value 1 column).map Value.str).getD "None"

def fieldAt (row column : Nat) : Option Field :=
  match ws.value row column with
  | some value => if value.truthy then some ⟨column, ws.headerText column, value⟩ else none
  | none => none

def fields (row : Nat) : List Field := ws.columns.filterMap (ws.fieldAt row)

def call : List Line :=
  (ws.rowsLimited.tail.map fun row => ⟨row, ws.fields row⟩).filter fun line => line.fields ≠ []

def tds (row : Nat) : List Td := ws.columns.map fun column => ⟨row, column, ws.value row column⟩

/-- The rows of the tables of `html`, for one worksheet. -/
def htmlRows (chunkRows : Nat) : List (List (List Td)) :=
  (Paging.batches chunkRows ws.rowsLimited.tail).map fun rows => rows.map ws.tds

def html (chunkRows : Nat) : List String :=
  (ws.htmlRows chunkRows).map fun rows =>
    "<table><caption>" ++ ws.title ++ "</caption>" ++
      "<tr>" ++ String.join (ws.columns.map fun column =>
        "<th>" ++ escape (fmt (ws.value 1 column)) ++ "</th>") ++ "</tr>" ++
      String.join (rows.map fun tds => "<tr>" ++ String.join (tds.map Td.html) ++ "</tr>") ++
      "</table>\n"

def HasData (row : Nat) : Prop := ∃ column, (ws.value row column).any Value.isShown

/-- No row with data is beyond the row count, and each value below the header that is not blank
is in one line and in one cell of the tables. -/
structure KeepsData : Prop where
  counted : ∀ row, ws.HasData row → row ≤ ws.actualRowCount
  within : ws.actualRowCount ≤ ws.maxRow
  onOneLine : ∀ row column value, 2 ≤ row → ws.value row column = some value → value.isShown →
    (ws.call.flatMap fun line => line.fields.map fun field =>
      (line.row, field.column, field.value)).count (row, column, value) = 1
  inOneTd : ∀ chunkRows, 1 ≤ chunkRows → ∀ row column value, 2 ≤ row →
    ws.value row column = some value → value.isShown →
      (ws.htmlRows chunkRows).flatten.flatten.count ⟨row, column, some value⟩ = 1

/-- The last row with data has some in its first 50 columns, and it is fewer than 500 rows below
the row where the bisection ends. -/
structure LastRowFound : Prop where
  probed : ∃ row, row ≤ 100 ∧ ws.rowHasData row = true
  found : ∃ last stop, (∀ row, ws.HasData row → row ≤ last) ∧ ws.rowHasData last = true ∧
    1 ≤ stop ∧ stop ≤ ws.maxRow + 1 ∧ last < max 1 (stop - 1) + 500 ∧
    ∀ probe ∈ Bisection.probes stop 1 (ws.maxRow + 1),
      (ws.firstFrom probe).isSome = true ↔ probe < stop

section Counting

variable {ws}

theorem hasData_of_rowHasData {row : Nat} (isData : ws.rowHasData row = true) :
    ws.HasData row := by
  obtain ⟨column, _, isShown⟩ := List.any_eq_true.mp isData
  exact ⟨column, isShown⟩

theorem within_of_hasData {row : Nat} (isData : ws.HasData row) : 1 ≤ row ∧ row ≤ ws.maxRow := by
  obtain ⟨column, isShown⟩ := isData
  have isSome : (ws.value row column).isSome := by
    cases isValue : ws.value row column with
    | none => simp [isValue] at isShown
    | some value => rfl
  have := ws.inside isSome
  omega

theorem firstFrom_spec {mid row : Nat} (isFirst : ws.firstFrom mid = some row) :
    ws.rowHasData row = true ∧ mid ≤ row ∧ row ≤ ws.maxRow ∧ row < mid + 10 := by
  have isData := List.find?_some isFirst
  have := List.mem_range'_1.mp (List.mem_of_find?_eq_some isFirst)
  exact ⟨isData, by omega⟩

theorem firstFrom_isSome {mid row : Nat} (isData : ws.rowHasData row = true) (lower : mid ≤ row)
    (upper : row < mid + 10) : (ws.firstFrom mid).isSome = true := by
  have := within_of_hasData (hasData_of_rowHasData isData)
  apply List.find?_isSome.mpr
  exact ⟨row, List.mem_range'_1.mpr (by omega), isData⟩

theorem bisectRows_eq {left stop last : Nat} (le : left ≤ stop)
    (isEnd : stop = ws.maxRow + 1 ∨ (ws.firstFrom stop).isSome = false) :
    ws.bisectRows left stop last =
      let place := Bisection.bisect (fun row => (ws.firstFrom row).isSome) left stop
      if place = left then last else max last (place - 1) := by
  fun_induction bisectRows ws left stop last with
  | case1 left stop last lt row isFirst ih =>
    have within := Bisection.midpoint_within lt
    obtain ⟨isData, lower, upper, near⟩ := firstFrom_spec isFirst
    have bounds := Bisection.bisect_within (fun row => (ws.firstFrom row).isSome)
      (show Bisection.midpoint left stop + 1 ≤ stop by omega)
    have unfolded : Bisection.bisect (fun row => (ws.firstFrom row).isSome) left stop =
        Bisection.bisect (fun row => (ws.firstFrom row).isSome)
          (Bisection.midpoint left stop + 1) stop := by
      rw [Bisection.bisect, if_pos lt, isFirst]
      rfl
    rw [ih (by omega) isEnd, unfolded]
    have ends := Bisection.found_bisect (fun row => (ws.firstFrom row).isSome)
      (show Bisection.midpoint left stop + 1 ≤ stop by omega)
    generalize Bisection.bisect (fun row => (ws.firstFrom row).isSome)
      (Bisection.midpoint left stop + 1) stop = place at *
    have above : row < place := by
      by_contra notAbove
      have isSome := firstFrom_isSome isData (show place ≤ row by omega) (by omega)
      rcases Nat.lt_or_eq_of_le bounds.2 with isOpen | rfl
      · exact absurd isSome (by simp [ends isOpen])
      · rcases isEnd with isLast | isNone
        · omega
        · exact absurd isSome (by simp [isNone])
    have isLater : place ≠ left := by omega
    simp only [if_neg isLater]
    split <;> omega
  | case2 left stop last lt isNone ih =>
    have within := Bisection.midpoint_within lt
    rw [Bisection.bisect, if_pos lt, isNone]
    exact ih within.1 (.inr (by rw [isNone]; rfl))
  | case3 left stop last notLt =>
    rw [Bisection.bisect, if_neg notLt]
    simp

theorem scanRows_spec (last : Nat) :
    last ≤ ws.scanRows last ∧ ws.scanRows last < last + 500 ∧
      (ws.scanRows last = last ∨ ws.rowHasData (ws.scanRows last) = true) ∧
      ∀ row, ws.rowHasData row = true → last ≤ row → row < last + 500 →
        row ≤ ws.scanRows last := by
  have scanned (count : Nat) (isShort : count ≤ 500) :
      let found := (List.range' last count).foldl
        (fun last row => if ws.rowHasData row then row else last) last
      last ≤ found ∧ found < last + 500 ∧ (found = last ∨ ws.rowHasData found = true) ∧
        ∀ row, ws.rowHasData row = true → last ≤ row → row < last + count → row ≤ found := by
    induction count with
    | zero =>
      simp only [List.range'_zero, List.foldl_nil]
      exact ⟨le_refl _, by omega, by simp, by omega⟩
    | succ count ih =>
      obtain ⟨lower, upper, isData, all⟩ := ih (by omega)
      simp only [List.range'_1_concat, List.foldl_append, List.foldl_cons, List.foldl_nil]
      split
      case isTrue isLater =>
        exact ⟨by omega, by omega, .inr isLater, by omega⟩
      case isFalse notLater =>
        apply And.intro lower
        apply And.intro upper
        apply And.intro isData
        intro row isRow from' below
        rcases Nat.lt_or_eq_of_le (Nat.le_of_lt_succ below) with before | same
        · exact all row isRow from' before
        · rw [same] at isRow
          exact absurd isRow notLater
  obtain ⟨lower, upper, isData, all⟩ :=
    scanned (min (last + 500) (ws.maxRow + 1) - last) (by omega)
  apply And.intro lower
  apply And.intro upper
  apply And.intro isData
  intro row isRow from' below
  have := within_of_hasData (hasData_of_rowHasData isRow)
  exact all row isRow from' (by omega)

variable (ws)

def place : Nat := Bisection.bisect (fun row => (ws.firstFrom row).isSome) 1 (ws.maxRow + 1)

theorem place_within : 1 ≤ ws.place ∧ ws.place ≤ ws.maxRow + 1 :=
  Bisection.bisect_within _ (by omega)

theorem actualRowCount_of_large (isLarge : 10000 < ws.maxRow) :
    ws.actualRowCount =
      if ∃ row, row ≤ 100 ∧ ws.rowHasData row = true then
        ws.scanRows (max 1 (ws.place - 1))
      else 0 := by
  have isProbed : (List.range' 1 (min 101 (ws.maxRow + 1) - 1)).any ws.rowHasData = true ↔
      ∃ row, row ≤ 100 ∧ ws.rowHasData row = true := by
    simp only [List.any_eq_true, List.mem_range'_1]
    constructor
    · rintro ⟨row, inside, isData⟩
      exact ⟨row, by omega, isData⟩
    · rintro ⟨row, isEarly, isData⟩
      have := within_of_hasData (hasData_of_rowHasData isData)
      exact ⟨row, by omega, isData⟩
  have ended : ws.bisectRows 1 (ws.maxRow + 1) 1 = max 1 (ws.place - 1) := by
    rw [bisectRows_eq (by omega) (.inl rfl)]
    change (if ws.place = 1 then 1 else max 1 (ws.place - 1)) = _
    split <;> omega
  rw [actualRowCount, if_neg (by omega), ended]
  simp only [isProbed]

theorem actualRowCount_le : ws.actualRowCount ≤ ws.maxRow := by
  rcases Nat.lt_or_ge 10000 ws.maxRow with isLarge | isSmall
  · rw [ws.actualRowCount_of_large isLarge]
    have := ws.place_within
    split
    · rcases (ws.scanRows_spec (max 1 (ws.place - 1))).2.2.1 with same | isData
      · omega
      · exact (within_of_hasData (hasData_of_rowHasData isData)).2
    · exact Nat.zero_le _
  · rw [actualRowCount, if_pos isSmall]

theorem rowHasData_of_counted {row : Nat} (isData : ws.rowHasData row = true)
    (counted : ∀ row, ws.HasData row → row ≤ max 1 (ws.place - 1)) :
    ws.rowHasData (max 1 (ws.place - 1)) = true := by
  rcases Nat.lt_or_ge 1 ws.place with isLater | isFirst
  · have isSome := Bisection.found_pred_bisect (fun row => (ws.firstFrom row).isSome)
      (show 1 ≤ ws.maxRow + 1 by omega) isLater
    obtain ⟨first, isFirst⟩ := Option.isSome_iff_exists.mp isSome
    obtain ⟨hasData, lower, _⟩ := firstFrom_spec isFirst
    have upper := counted first (hasData_of_rowHasData hasData)
    change ws.place - 1 ≤ first at lower
    have positive := within_of_hasData (hasData_of_rowHasData hasData)
    rwa [show max 1 (ws.place - 1) = first by omega]
  · have upper := counted row (hasData_of_rowHasData isData)
    have positive := within_of_hasData (hasData_of_rowHasData isData)
    rwa [show max 1 (ws.place - 1) = row by omega]

theorem counted_iff : (∀ row, ws.HasData row → row ≤ ws.actualRowCount) ↔
    ws.maxRow ≤ 10000 ∨ (∀ row, ¬ ws.HasData row) ∨ ws.LastRowFound := by
  rcases Nat.lt_or_ge 10000 ws.maxRow with isLarge | isSmall
  swap
  · rw [actualRowCount, if_pos isSmall]
    exact ⟨fun _ => .inl isSmall, fun _ row isData => (within_of_hasData isData).2⟩
  have within := ws.place_within
  obtain ⟨lower, upper, isRow, all⟩ := ws.scanRows_spec (max 1 (ws.place - 1))
  rw [ws.actualRowCount_of_large isLarge]
  constructor
  · intro counted
    right
    split at counted
    case isFalse notProbed =>
      left
      intro row isData
      have := counted row isData
      have := within_of_hasData isData
      omega
    case isTrue probed =>
      right
      obtain ⟨row, isEarly, isData⟩ := probed
      have lastHasData : ws.rowHasData (ws.scanRows (max 1 (ws.place - 1))) = true := by
        rcases isRow with same | hasData
        · rw [same] at counted ⊢
          exact ws.rowHasData_of_counted isData counted
        · exact hasData
      obtain ⟨_, _, agree⟩ := (Bisection.bisect_eq_iff _ (by omega)).mp
        (show Bisection.bisect _ 1 (ws.maxRow + 1) = ws.place from rfl)
      exact ⟨⟨row, isEarly, isData⟩, _, ws.place, counted, lastHasData, within.1, within.2,
        upper, agree⟩
  · rintro (isSmall | noData |
      ⟨probed, last, stop, isLast, hasData, first, stopWithin, near, agree⟩)
    · omega
    · intro row isData
      exact absurd isData (noData row)
    · have isPlace : ws.place = stop :=
        (Bisection.bisect_eq_iff _ (by omega)).mpr ⟨first, stopWithin, agree⟩
      rw [if_pos probed]
      intro row isData
      have := isLast row isData
      rcases Nat.lt_or_ge last (max 1 (ws.place - 1)) with before | from'
      · omega
      · have := all last hasData from' (by omega)
        omega

end Counting

section Rendering

theorem mem_tail_rowsLimited {row : Nat} :
    row ∈ ws.rowsLimited.tail ↔ 2 ≤ row ∧ row ≤ ws.actualRowCount := by
  rw [rowsLimited, List.tail_range', List.mem_range'_1]
  omega

theorem nodup_tail_rowsLimited : ws.rowsLimited.tail.Nodup :=
  (List.nodup_range' 1).sublist (List.tail_sublist _)

theorem mem_columns {row column : Nat} {value : Value}
    (isValue : ws.value row column = some value) : column ∈ ws.columns := by
  have isSome : (ws.value row column).isSome := by rw [isValue]; rfl
  have := ws.inside isSome
  exact List.mem_range'_1.mpr (by omega)

theorem fieldAt_eq_some {row column : Nat} {field : Field} :
    ws.fieldAt row column = some field ↔ ∃ value, ws.value row column = some value ∧
      value.truthy = true ∧ ⟨column, ws.headerText column, value⟩ = field := by
  unfold fieldAt
  cases ws.value row column with
  | none => simp
  | some value => simp

theorem nodup_fields (row : Nat) : (ws.fields row).Nodup := by
  apply List.Nodup.filterMap _ List.nodup_range'
  intro column other field isField isOther
  obtain ⟨_, _, _, rfl⟩ := ws.fieldAt_eq_some.mp isField
  obtain ⟨_, _, _, same⟩ := ws.fieldAt_eq_some.mp isOther
  exact (congrArg Field.column same).symm

theorem mem_fields {row column : Nat} {value : Value} :
    (∃ field ∈ ws.fields row, field.column = column ∧ field.value = value) ↔
      ws.value row column = some value ∧ value.truthy = true := by
  constructor
  · rintro ⟨field, member, rfl, rfl⟩
    obtain ⟨column, _, isField⟩ := List.mem_filterMap.mp member
    obtain ⟨value, isValue, isTrue, rfl⟩ := ws.fieldAt_eq_some.mp isField
    exact ⟨isValue, isTrue⟩
  · rintro ⟨isValue, isTrue⟩
    exact ⟨_, List.mem_filterMap.mpr ⟨column, ws.mem_columns isValue,
      ws.fieldAt_eq_some.mpr ⟨value, isValue, isTrue, rfl⟩⟩, rfl, rfl⟩

def shown : List (Nat × Nat × Value) :=
  ws.call.flatMap fun line => line.fields.map fun field => (line.row, field.column, field.value)

theorem mem_call {line : Line} : line ∈ ws.call ↔
    line.fields ≠ [] ∧ ∃ row, 2 ≤ row ∧ row ≤ ws.actualRowCount ∧ ⟨row, ws.fields row⟩ = line := by
  simp only [call, List.mem_filter, List.mem_map, mem_tail_rowsLimited, decide_eq_true_eq]
  tauto

theorem mem_shown {row column : Nat} {value : Value} : (row, column, value) ∈ ws.shown ↔
    2 ≤ row ∧ row ≤ ws.actualRowCount ∧ ws.value row column = some value ∧
      value.truthy = true := by
  simp only [shown, List.mem_flatMap, List.mem_map, mem_call, Prod.mk.injEq]
  rw [← ws.mem_fields]
  constructor
  · rintro ⟨_, ⟨_, row, lower, upper, rfl⟩, field, member, rfl, rfl, rfl⟩
    exact ⟨lower, upper, field, member, rfl, rfl⟩
  · rintro ⟨lower, upper, field, member, rfl, rfl⟩
    exact ⟨_, ⟨List.ne_nil_of_mem member, row, lower, upper, rfl⟩, field, member, rfl, rfl, rfl⟩

theorem nodup_shown : ws.shown.Nodup := by
  apply List.nodup_flatMap.mpr
  constructor
  · intro line isLine
    obtain ⟨_, row, _, _, rfl⟩ := ws.mem_call.mp isLine
    apply (ws.nodup_fields row).map_on
    intro field member other isOther same
    obtain ⟨column, _, isField⟩ := List.mem_filterMap.mp member
    obtain ⟨_, _, _, rfl⟩ := ws.fieldAt_eq_some.mp isField
    obtain ⟨column, _, isField⟩ := List.mem_filterMap.mp isOther
    obtain ⟨_, _, _, rfl⟩ := ws.fieldAt_eq_some.mp isField
    simp_all
  · apply List.Pairwise.filter
    apply List.pairwise_map.mpr
    apply ws.nodup_tail_rowsLimited.imp
    intro row other apart _ isCell isOther
    obtain ⟨_, _, rfl⟩ := List.mem_map.mp isCell
    obtain ⟨_, _, same⟩ := List.mem_map.mp isOther
    exact apart (congrArg Prod.fst same).symm

theorem flatten_htmlRows {chunkRows : Nat} (positive : 1 ≤ chunkRows) :
    (ws.htmlRows chunkRows).flatten = ws.rowsLimited.tail.map ws.tds := by
  rw [htmlRows, ← List.map_flatten, Paging.flatten_batches positive]

theorem count_td {chunkRows row column : Nat} {value : Value} (positive : 1 ≤ chunkRows)
    (isValue : ws.value row column = some value) :
    2 ≤ row → row ≤ ws.actualRowCount →
      (ws.htmlRows chunkRows).flatten.flatten.count ⟨row, column, some value⟩ = 1 := by
  intro lower upper
  rw [ws.flatten_htmlRows positive, ← List.flatMap_def]
  apply List.count_eq_one_of_mem
  · apply List.nodup_flatMap.mpr
    constructor
    · intro row _
      apply List.Nodup.map _ List.nodup_range'
      intro column other same
      exact congrArg Td.column same
    · apply ws.nodup_tail_rowsLimited.imp
      intro row other apart _ isCell isOther
      obtain ⟨_, _, rfl⟩ := List.mem_map.mp isCell
      obtain ⟨_, _, same⟩ := List.mem_map.mp isOther
      exact apart (congrArg Td.row same).symm
  · apply List.mem_flatMap.mpr
    exact ⟨row, ws.mem_tail_rowsLimited.mpr ⟨lower, upper⟩,
      List.mem_map.mpr ⟨column, ws.mem_columns isValue, by rw [isValue]⟩⟩

/-- Nothing is lost exactly where the row count reaches the data and no value that is shown
counts as false. -/
theorem keepsData_iff : ws.KeepsData ↔
    (ws.maxRow ≤ 10000 ∨ (∀ row, ¬ ws.HasData row) ∨ ws.LastRowFound) ∧
      ∀ row column value, 2 ≤ row → ws.value row column = some value → value.isShown →
        value.truthy = true := by
  constructor
  · intro keeps
    apply And.intro (ws.counted_iff.mp keeps.counted)
    intro row column value lower isValue isShown
    have once := keeps.onOneLine row column value lower isValue isShown
    have member : (row, column, value) ∈ ws.shown :=
      List.count_pos_iff.mp (Nat.lt_of_lt_of_eq Nat.one_pos once.symm)
    exact (ws.mem_shown.mp member).2.2.2
  · rintro ⟨found, allTrue⟩
    have counted := ws.counted_iff.mpr found
    have reached {row column : Nat} {value : Value} (isValue : ws.value row column = some value)
        (isShown : value.isShown) : row ≤ ws.actualRowCount :=
      counted row ⟨column, by rw [isValue]; exact isShown⟩
    constructor
    case counted => exact counted
    case within => exact ws.actualRowCount_le
    case onOneLine =>
      intro row column value lower isValue isShown
      apply List.count_eq_one_of_mem ws.nodup_shown
      exact ws.mem_shown.mpr ⟨lower, reached isValue isShown, isValue,
        allTrue row column value lower isValue isShown⟩
    case inOneTd =>
      intro chunkRows positive row column value lower isValue isShown
      exact ws.count_td positive isValue lower (reached isValue isShown)

def zero : Worksheet where
  title := "Sheet1"
  maxRow := 2
  maxColumn := 1
  value row column :=
    if column = 1 then
      if row = 1 then some (.text "sold") else if row = 2 then some (.number 0 "0") else none
    else none
  inside {row column} isSome := by
    split at isSome
    · split at isSome
      · omega
      · split at isSome
        · omega
        · cases isSome
    · cases isSome

theorem not_keepsData_zero : ¬ zero.KeepsData := by
  intro keeps
  have once := keeps.onOneLine 2 1 (.number 0 "0") (le_refl 2) rfl (by decide +kernel)
  revert once
  decide +kernel

end Rendering

end Worksheet

end RagFlow.Chunking.Spreadsheet
