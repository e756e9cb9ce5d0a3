import Mathlib.Data.List.GetD
import Mathlib.Data.List.MinMax
import RagFlow.Lib.PyString
import RagFlow.Lib.Regex

/-!
# Word tables

`__compose_table_content` writes a line for each data row of a table: each cell behind the
headers of its column.  The first row is a header row, and in a table of numbers so is every
row that is mostly something else.  The headers of a data row are those of the last run of
header rows above it.
-/

namespace RagFlow.Chunking.TableContent

open RagFlow.Lib

inductive BlockType
  | Dt | DT | Nu | Ca | En | NE | Sg | Tx | Lx | Nr | Ot
  deriving DecidableEq

structure Tokenizer where
  tokenize : String → String
  tag : String → String

section BlockTypes

def digit : Regex := .between '0' '9'

def oneOrTwo (regex : Regex) : Regex := .inOrder [regex, .optional regex]

/-- `(20|19)[0-9]{2}` -/
def year : Regex := .inOrder [.anyOf [.literal "20", .literal "19"], digit, digit]

def quarter : Regex := .inOrder [.oneOf "一二三四1234", .literal "季度"]

def alphanumeric : Regex := .anyOf [digit, .between 'A' 'Z', .between 'a' 'z']

def pattern : List (Regex × BlockType) := [
  (.inOrder [year, .oneOf "年/-", oneOrTwo digit, .oneOf "月/-", oneOrTwo digit,
    .star (.literal "日"), .atEnd], .Dt),
  (.inOrder [year, .literal "年", .atEnd], .Dt),
  (.inOrder [year, .oneOf "年/-", oneOrTwo digit, .star (.literal "月"), .atEnd], .Dt),
  (.inOrder [oneOrTwo digit, .oneOf "月/-", oneOrTwo digit, .star (.literal "日"), .atEnd], .Dt),
  (.inOrder [.star (.literal "第"), quarter, .atEnd], .Dt),
  (.inOrder [year, .star (.literal "年"), quarter, .atEnd], .Dt),
  (.inOrder [year, .oneOf "ABCDE", .atEnd], .DT),
  (.inOrder [.plus (.anyOf [digit, .oneOf ".,+%/ -"]), .atEnd], .Nu),
  (.inOrder [.plus (.anyOf [digit, .between 'A' 'Z', .oneOf "/._~-"]), .atEnd], .Ca),
  (.inOrder [.star (.between 'A' 'Z'), .plus (.anyOf [.between 'a' 'z', .oneOf "' -"]), .atEnd],
    .En),
  (.inOrder [.plus (.anyOf [digit, .oneOf ".,+-"]),
    .plus (.anyOf [alphanumeric, .oneOf "/$￥%<>（）()' -"]), .atEnd], .NE),
  (.inOrder [.noneOf "\n", .atEnd], .Sg)]

def blockType (tokenizer : Tokenizer) (b : String) : BlockType :=
  match pattern.find? fun entry => entry.1.isMatch b with
  | some (_, n) => n
  | none =>
    let tks := (PyString.split (tokenizer.tokenize b)).filter fun t => t.length > 1
    if tks.length > 3 then
      if tks.length < 12 then .Tx else .Lx
    else if tks.length = 1 ∧ tokenizer.tag (tks.headD "") = "nr" then .Nr
    else .Ot

/-- The commonest entry of a `Counter`, the first one of several. -/
def commonest (types : List BlockType) : Option BlockType :=
  types.eraseDups.argmax fun type => types.count type

end BlockTypes

structure DataFrame where
  rows : List (List String)
  colnm : Nat
  rectangular : ∀ row ∈ rows, row.length = colnm

structure Cell where
  column : Nat
  headers : List String
  value : String
  deriving DecidableEq

structure Line where
  row : Nat
  cells : List Cell
  deriving DecidableEq

def Cell.text (cell : Cell) : String :=
  let t := ",".intercalate cell.headers
  (if t = "" then t else t ++ ": ") ++ cell.value

def Line.text (line : Line) : String :=
  ";".intercalate (line.cells.map Cell.text)

/-- The loop over `t`: the entries from the last gap on. -/
def lastRun (hr : List Int) : Nat → List Int
  | 0 => hr
  | t + 1 =>
    if hr.getD (t + 1) 0 - hr.getD t 0 > 1 then
      hr.drop (t + 1)
    else
      lastRun hr t

namespace DataFrame

variable (df : DataFrame) (tokenizer : Tokenizer)

def iloc (i j : Nat) : String := (df.rows.getD i []).getD j ""

def typesOfRow (r : Nat) : List BlockType :=
  (List.range df.colnm).map fun j => blockType tokenizer (df.iloc r j)

def maxType : Option BlockType :=
  commonest ((List.range' 1 (df.rows.length - 1)).flatMap (df.typesOfRow tokenizer))

def hdrows : List Nat :=
  0 :: (List.range' 1 (df.rows.length - 1)).filter fun r =>
    df.maxType tokenizer = some .Nu ∧ commonest (df.typesOfRow tokenizer r) ≠ some .Nu

def headerOffsets (i : Nat) : List Int :=
  let hr := ((df.hdrows tokenizer).map fun r : Nat => (r : Int) - i).filter fun r => r < 0
  lastRun hr (hr.length - 1)

def headers (i j : Nat) : List String :=
  ((df.headerOffsets tokenizer i).map fun h =>
    PyString.strip (df.iloc ((i : Int) + h).toNat j)).eraseDups

def lineOf (i : Nat) : Line where
  row := i
  cells := ((List.range df.colnm).filter fun j => df.iloc i j ≠ "").map fun j =>
    ⟨j, df.headers tokenizer i j, df.iloc i j⟩

def lines : List Line :=
  ((List.range' 1 (df.rows.length - 1)).filter fun i =>
    i ∉ df.hdrows tokenizer).map (df.lineOf tokenizer)

def composeTableContent : List String :=
  if df.rows.length < 2 then []
  else if df.colnm > 3 then (df.lines tokenizer).map Line.text
  else ["\n".intercalate ((df.lines tokenizer).map Line.text)]

end DataFrame

section Runs

theorem mem_drop_getD {hr : List Int} {m : Nat} {x : Int} :
    x ∈ hr.drop m ↔ ∃ k, m ≤ k ∧ k < hr.length ∧ hr.getD k 0 = x := by
  simp only [List.mem_iff_getElem?, List.getElem?_drop]
  constructor
  · rintro ⟨k, found⟩
    have inside := (List.getElem?_eq_some_iff.mp found).1
    exact ⟨m + k, by omega, inside, by rw [List.getD_eq_getElem?_getD, found]; rfl⟩
  · rintro ⟨k, le, inside, rfl⟩
    apply Exists.intro (k - m)
    rw [Nat.add_sub_cancel' le, List.getD_eq_getElem _ _ inside, List.getElem?_eq_getElem inside]

theorem lastRun_spec (hr : List Int) (t : Nat)
    (joined : ∀ k, t ≤ k → k + 1 < hr.length → hr.getD (k + 1) 0 ≤ hr.getD k 0 + 1) :
    ∃ m ≤ t, lastRun hr t = hr.drop m ∧
      (∀ k, m ≤ k → k + 1 < hr.length → hr.getD (k + 1) 0 ≤ hr.getD k 0 + 1) ∧
      (∀ k, m = k + 1 → hr.getD (k + 1) 0 > hr.getD k 0 + 1) := by
  induction t with
  | zero => exact ⟨0, le_refl 0, rfl, joined, by simp⟩
  | succ t ih =>
    rw [lastRun]
    split
    case isTrue gap =>
      apply Exists.intro (t + 1)
      exact ⟨le_refl _, rfl, joined, by rintro k ⟨⟩; omega⟩
    case isFalse noGap =>
      have joinedBefore (k : Nat) (lower : t ≤ k) (upper : k + 1 < hr.length) :
          hr.getD (k + 1) 0 ≤ hr.getD k 0 + 1 := by
        rcases Nat.eq_or_lt_of_le lower with rfl | later
        · omega
        · exact joined k later upper
      obtain ⟨m, le, run⟩ := ih joinedBefore
      exact ⟨m, by omega, run⟩

theorem mem_lastRun {hr : List Int} (sorted : hr.Pairwise (· < ·)) {x : Int} :
    x ∈ lastRun hr (hr.length - 1) ↔
      x ∈ hr ∧ ∀ y z, x ≤ y → y ≤ z → z ∈ hr → y ∈ hr := by
  have inside {y : Int} : y ∈ hr ↔ ∃ k, 0 ≤ k ∧ k < hr.length ∧ hr.getD k 0 = y := by
    rw [← mem_drop_getD, List.drop_zero]
  have increasing (k l : Nat) (lt : k < l) (isIn : l < hr.length) :
      hr.getD k 0 < hr.getD l 0 := by
    rw [List.getD_eq_getElem _ _ (lt.trans isIn), List.getD_eq_getElem _ _ isIn]
    exact List.pairwise_iff_getElem.mp sorted k l _ isIn lt
  have atMost (k l : Nat) (le : k ≤ l) (isIn : l < hr.length) :
      hr.getD k 0 ≤ hr.getD l 0 := by
    rcases Nat.eq_or_lt_of_le le with rfl | lt
    · exact le_refl _
    · exact (increasing k l lt isIn).le
  obtain ⟨m, le, isDrop, joined, gap⟩ := lastRun_spec hr (hr.length - 1) (by omega)
  rw [isDrop, mem_drop_getD]
  constructor
  · rintro ⟨k, lower, isIn, rfl⟩
    apply And.intro (inside.mpr ⟨k, Nat.zero_le k, isIn, rfl⟩)
    intro y z above below member
    obtain ⟨l, _, isLast, rfl⟩ := inside.mp member
    -- the entries from `k` on grow by one
    have steps (d : Nat) (isStep : k + d < hr.length) :
        hr.getD (k + d) 0 = hr.getD k 0 + d := by
      induction d with
      | zero => simp
      | succ d ih =>
        have before := ih (by omega)
        have upper := joined (k + d) (by omega) isStep
        have lower := increasing (k + d) (k + (d + 1)) (by omega) isStep
        rw [← Nat.add_assoc] at lower ⊢
        push_cast
        omega
    have isAbove : k ≤ l := by
      by_contra before
      have := increasing l k (by omega) isIn
      omega
    have atEnd := steps (l - k) (by omega)
    rw [Nat.add_sub_cancel' isAbove] at atEnd
    have isStep := steps (y - hr.getD k 0).toNat (by omega)
    exact inside.mpr ⟨_, Nat.zero_le _, by omega, isStep.trans (by omega)⟩
  · rintro ⟨member, all⟩
    obtain ⟨k, _, isIn, rfl⟩ := inside.mp member
    apply Exists.intro k
    apply And.intro _ ⟨isIn, rfl⟩
    by_contra before
    obtain ⟨l, rfl⟩ := Nat.exists_eq_succ_of_ne_zero (show m ≠ 0 by omega)
    have wide := gap l rfl
    have below := atMost k l (by omega) (by omega)
    have between := all (hr.getD l 0 + 1) (hr.getD (l + 1) 0) (by omega) (by omega)
      (inside.mpr ⟨l + 1, Nat.zero_le _, by omega, rfl⟩)
    obtain ⟨j, _, isBetween, place⟩ := inside.mp between
    rcases Nat.lt_or_ge l j with after | notAfter
    · have := atMost (l + 1) j after isBetween
      omega
    · have := atMost j l notAfter (by omega)
      omega

end Runs

namespace DataFrame

variable (df : DataFrame) (tokenizer : Tokenizer)

/-- Row `h` is in the last run of header rows above row `i`. -/
def Heads (h i : Nat) : Prop :=
  h ∈ df.hdrows tokenizer ∧ h < i ∧
    ∀ r z, h ≤ r → r ≤ z → z < i → z ∈ df.hdrows tokenizer → r ∈ df.hdrows tokenizer

theorem hdrows_sorted : (df.hdrows tokenizer).Pairwise (· < ·) := by
  apply List.pairwise_cons.mpr
  constructor
  · intro r member
    have := List.mem_range'_1.mp (List.mem_of_mem_filter member)
    omega
  · exact (List.pairwise_lt_range').filter _

theorem offsets_sorted (i : Nat) : (((df.hdrows tokenizer).map fun r : Nat =>
    (r : Int) - i).filter fun r => r < 0).Pairwise (· < ·) := by
  apply List.Pairwise.filter
  apply List.pairwise_map.mpr
  exact (df.hdrows_sorted tokenizer).imp fun lt => by omega

theorem mem_headerOffsets {i : Nat} {x : Int} :
    x ∈ df.headerOffsets tokenizer i ↔ ∃ h, df.Heads tokenizer h i ∧ x = (h : Int) - i := by
  have member (y : Int) : y ∈ ((df.hdrows tokenizer).map fun r : Nat => (r : Int) - i).filter
      (fun r => r < 0) ↔ ∃ h ∈ df.hdrows tokenizer, h < i ∧ y = (h : Int) - i := by
    simp only [List.mem_filter, List.mem_map, decide_eq_true_eq]
    constructor
    · rintro ⟨⟨h, isHeader, rfl⟩, before⟩
      exact ⟨h, isHeader, by omega, rfl⟩
    · rintro ⟨h, isHeader, before, rfl⟩
      exact ⟨⟨h, isHeader, rfl⟩, by omega⟩
  simp only [headerOffsets, mem_lastRun (df.offsets_sorted tokenizer i), member]
  constructor
  · rintro ⟨⟨h, isHeader, before, rfl⟩, joined⟩
    have noGap (r z : Nat) (above : h ≤ r) (le : r ≤ z) (isBefore : z < i)
        (isLast : z ∈ df.hdrows tokenizer) : r ∈ df.hdrows tokenizer := by
      obtain ⟨r', isMember, _, same⟩ :=
        joined ((r : Int) - i) ((z : Int) - i) (by omega) (by omega) ⟨z, isLast, isBefore, rfl⟩
      obtain rfl : r = r' := by omega
      exact isMember
    exact ⟨h, ⟨isHeader, before, noGap⟩, rfl⟩
  · rintro ⟨h, ⟨isHeader, before, joined⟩, rfl⟩
    apply And.intro ⟨h, isHeader, before, rfl⟩
    rintro y _ above below ⟨z, isLast, isBefore, rfl⟩
    have isMember := joined (y + i).toNat z (by omega) (by omega) isBefore isLast
    exact ⟨_, isMember, by omega, by omega⟩

theorem lastRun_sublist (hr : List Int) (t : Nat) : (lastRun hr t).Sublist hr := by
  induction t with
  | zero => exact List.Sublist.refl hr
  | succ t ih =>
    rw [lastRun]
    split
    · exact List.drop_sublist ..
    · exact ih

theorem headerOffsets_sorted (i : Nat) : (df.headerOffsets tokenizer i).Pairwise (· < ·) := by
  apply List.Pairwise.sublist (lastRun_sublist _ _)
  exact df.offsets_sorted tokenizer i

/-- Each text that is not blank is a value of its row or a header of its column, and each
value stands behind the texts of its column in the last run of header rows above it. -/
structure KeepsCells : Prop where
  kept : ∀ i < df.rows.length, ∀ j < df.colnm, PyString.strip (df.iloc i j) ≠ "" →
    (∃ line ∈ df.lines tokenizer, line.row = i ∧
      ∃ cell ∈ line.cells, cell.column = j ∧ cell.value = df.iloc i j) ∨
    ∃ line ∈ df.lines tokenizer, ∃ cell ∈ line.cells,
      cell.column = j ∧ PyString.strip (df.iloc i j) ∈ cell.headers
  headed : ∀ line ∈ df.lines tokenizer, ∀ cell ∈ line.cells,
    ∃ run : List Nat, run.Pairwise (· < ·) ∧ (∀ h, h ∈ run ↔ df.Heads tokenizer h line.row) ∧
      cell.headers = (run.map fun h => PyString.strip (df.iloc h cell.column)).eraseDups

theorem mem_lines {line : Line} : line ∈ df.lines tokenizer ↔
    ∃ i, 1 ≤ i ∧ i < df.rows.length ∧ i ∉ df.hdrows tokenizer ∧ df.lineOf tokenizer i = line := by
  simp only [lines, List.mem_map, List.mem_filter, List.mem_range'_1, decide_eq_true_eq]
  constructor
  · rintro ⟨i, ⟨⟨lower, upper⟩, isData⟩, rfl⟩
    exact ⟨i, lower, by omega, isData, rfl⟩
  · rintro ⟨i, lower, upper, isData, rfl⟩
    exact ⟨i, ⟨⟨lower, by omega⟩, isData⟩, rfl⟩

theorem mem_cells {i : Nat} {cell : Cell} : cell ∈ (df.lineOf tokenizer i).cells ↔
    ∃ j < df.colnm, df.iloc i j ≠ "" ∧ ⟨j, df.headers tokenizer i j, df.iloc i j⟩ = cell := by
  simp [lineOf, and_assoc]

theorem toNat_place (i h : Nat) : ((i : Int) + ((h : Int) - i)).toNat = h := by
  omega

theorem mem_headers {i j : Nat} {text : String} : text ∈ df.headers tokenizer i j ↔
    ∃ h, df.Heads tokenizer h i ∧ PyString.strip (df.iloc h j) = text := by
  simp only [headers, List.mem_eraseDups, List.mem_map, mem_headerOffsets]
  constructor
  · rintro ⟨_, ⟨h, heads, rfl⟩, rfl⟩
    exact ⟨h, heads, by rw [toNat_place]⟩
  · rintro ⟨h, heads, rfl⟩
    exact ⟨_, ⟨h, heads, rfl⟩, by rw [toNat_place]⟩

theorem headed (line : Line) (isLine : line ∈ df.lines tokenizer) (cell : Cell)
    (isCell : cell ∈ line.cells) : ∃ run : List Nat, run.Pairwise (· < ·) ∧
      (∀ h, h ∈ run ↔ df.Heads tokenizer h line.row) ∧
      cell.headers = (run.map fun h => PyString.strip (df.iloc h cell.column)).eraseDups := by
  obtain ⟨i, _, _, _, rfl⟩ := (df.mem_lines tokenizer).mp isLine
  obtain ⟨j, _, _, rfl⟩ := (df.mem_cells tokenizer).mp isCell
  apply Exists.intro ((df.headerOffsets tokenizer i).map fun x => ((i : Int) + x).toNat)
  have place {x : Int} (member : x ∈ df.headerOffsets tokenizer i) : 0 ≤ (i : Int) + x := by
    obtain ⟨h, _, rfl⟩ := (df.mem_headerOffsets tokenizer).mp member
    omega
  constructor
  · apply List.pairwise_map.mpr
    apply (df.headerOffsets_sorted tokenizer i).imp_of_mem
    intro x y isFirst isSecond lt
    have := place isFirst
    omega
  · constructor
    · intro h
      simp only [List.mem_map, mem_headerOffsets]
      constructor
      · rintro ⟨_, ⟨h, heads, rfl⟩, rfl⟩
        rwa [toNat_place]
      · intro heads
        exact ⟨_, ⟨h, heads, rfl⟩, by rw [toNat_place]⟩
    · simp [headers, List.map_map, Function.comp_def]

theorem lt_of_notBlank {i j : Nat} (notBlank : PyString.strip (df.iloc i j) ≠ "") :
    i < df.rows.length := by
  by_contra outside
  apply notBlank
  have noRow : df.rows.getD i [] = [] := List.getD_eq_default _ _ (by omega)
  rw [iloc, noRow]
  rfl

/-- A header row keeps its texts through the data rows below its run, or below that of another
header row with the same text, that have a text in the column. -/
theorem keepsCells_iff : df.KeepsCells tokenizer ↔
    ∀ h ∈ df.hdrows tokenizer, ∀ j < df.colnm, PyString.strip (df.iloc h j) ≠ "" →
      ∃ h' i, df.Heads tokenizer h' i ∧ i < df.rows.length ∧ i ∉ df.hdrows tokenizer ∧
        df.iloc i j ≠ "" ∧ PyString.strip (df.iloc h' j) = PyString.strip (df.iloc h j) := by
  constructor
  · intro keeps h isHeader j inside notBlank
    rcases keeps.kept h (df.lt_of_notBlank notBlank) j inside notBlank with
      ⟨line, isLine, rfl, _⟩ | ⟨line, isLine, cell, isCell, rfl, isText⟩
    · obtain ⟨i, _, _, isData, rfl⟩ := (df.mem_lines tokenizer).mp isLine
      exact absurd isHeader isData
    · obtain ⟨i, _, isRow, isData, rfl⟩ := (df.mem_lines tokenizer).mp isLine
      obtain ⟨j, _, nonempty, rfl⟩ := (df.mem_cells tokenizer).mp isCell
      obtain ⟨h', heads, same⟩ := (df.mem_headers tokenizer).mp isText
      exact ⟨h', i, heads, isRow, isData, nonempty, same⟩
  · intro below
    apply KeepsCells.mk _ (df.headed tokenizer)
    intro i isRow j inside notBlank
    by_cases isHeader : i ∈ df.hdrows tokenizer
    · right
      obtain ⟨h, data, heads, isData, notHeader, nonempty, same⟩ :=
        below i isHeader j inside notBlank
      have later := heads.2.1
      exact ⟨_, (df.mem_lines tokenizer).mpr ⟨data, by omega, isData, notHeader, rfl⟩, _,
        (df.mem_cells tokenizer).mpr ⟨j, inside, nonempty, rfl⟩, rfl,
        (df.mem_headers tokenizer).mpr ⟨h, heads, same⟩⟩
    · left
      have isFirst : i ≠ 0 := by
        rintro rfl
        exact isHeader List.mem_cons_self
      have nonempty : df.iloc i j ≠ "" := by
        intro empty
        rw [empty] at notBlank
        exact notBlank rfl
      exact ⟨_, (df.mem_lines tokenizer).mpr ⟨i, by omega, isRow, isHeader, rfl⟩, rfl, _,
        (df.mem_cells tokenizer).mpr ⟨j, inside, nonempty, rfl⟩, rfl, rfl⟩

def remarked : DataFrame where
  rows := [["item", "price"], ["1", "20"], ["2", "35"], ["remark", "without tax"]]
  colnm := 2
  rectangular := by decide

theorem not_keepsCells_remarked : ¬ remarked.KeepsCells ⟨id, id⟩ := by
  intro keeps
  have onLine := keeps.kept 3 (by decide) 0 (by decide) (by decide +kernel)
  revert onLine
  decide +kernel

end DataFrame

end RagFlow.Chunking.TableContent
