import Mathlib.Algebra.Order.Ring.Rat
import Mathlib.Data.List.Infix
import Mathlib.Tactic.Linarith
import RagFlow.Lib.Coalesce
import RagFlow.Lib.Grouping
import RagFlow.Lib.PyString

/-!
# Boxes merged into lines and paragraphs

`_text_merge`, `_naive_vertical_merge` and `_merge_with_same_bullet` of the PDF parser, with exact
numbers.  Each is a pass over neighbours with its own way to compute the merged rectangle.
-/

namespace RagFlow.Pdf.LineMerging

open Lib Lib.Coalesce

abbrev Text := List Char

structure Box where
  page_number : Nat
  x0 : ℚ
  x1 : ℚ
  top : ℚ
  bottom : ℚ
  text : Text
  col_id : Option Nat
  layoutno : Option String
  layout_type : Option String
  deriving DecidableEq

structure Document where
  mean_height : Nat → ℚ
  mean_width : Nat → ℚ
  is_english : Bool
  is_chinese : Char → Bool

variable (document : Document)

def y_dis (a b : Box) : ℚ := (b.top + b.bottom - a.top - a.bottom) / 2

def text_merge_pass : Pass Box where
  choose b b_ :=
    if b.page_number ≠ b_.page_number ∨ b.col_id ≠ b_.col_id then .keep
    else if b.layoutno.getD "0" ≠ b_.layoutno.getD "1" ∨
        b.layout_type.getD "" ∈ ["table", "figure", "equation"] then .keep
    else if |y_dis b b_| < document.mean_height b.page_number / 3 then .merge
    else .keep
  merge b b_ :=
    { b with
      x1 := b_.x1
      top := (b.top + b_.top) / 2
      bottom := (b.bottom + b_.bottom) / 2
      text := b.text ++ b_.text }

def text_merge (boxes : List Box) : List Box := (text_merge_pass document).run boxes

def lstrip (text : Text) : Text := text.dropWhile PyString.isSpace

def rstrip (text : Text) : Text := (text.reverse.dropWhile PyString.isSpace).reverse

def blank (text : Text) : Bool := text.all PyString.isSpace

/-- `re.match(r"[0-9  •一—-]+$", text)` -/
def pageNumber (text : Text) : Bool :=
  let line := if text.getLast? = some '\n' then text.dropLast else text
  line ≠ [] && line.all fun char =>
    ('0' ≤ char && char ≤ '9') || [' ', '•', '一', '—', '-'].contains char

def lastIn (text : Text) (chars : String) : Bool := text.getLast?.any chars.toList.contains

def concatting_feats (b b_ : Box) : Bool :=
  let text := PyString.stripChars b.text
  lastIn text ",;:'\"，、‘“；：-" || lastIn text.dropLast ",;:'\"，‘“、；：" ||
    (PyString.stripChars b_.text).head?.any "。；？！?”）),，、：".toList.contains

def feats (b b_ : Box) : Bool :=
  let text := PyString.stripChars b.text
  decide (b.layoutno ≠ b_.layoutno) || lastIn text "。？！?" ||
    (document.is_english && lastIn text ".!?") ||
    (b.page_number = b_.page_number &&
      b_.top - b.bottom > document.mean_height b.page_number * (3 / 2)) ||
    (b.page_number < b_.page_number &&
      |b.x0 - b_.x0| > document.mean_width b.page_number * 4)

def vertical_pass (mh : ℚ) : Pass Box where
  choose b b_ :=
    if b.page_number < b_.page_number ∧ pageNumber b.text then .dropFirst
    else if blank b.text then .dropFirst
    else if b.layoutno ≠ b_.layoutno then .keep
    else if b_.top - b.bottom > mh * (3 / 2) then .keep
    else if max 0 (min b.x1 b_.x1 - max b.x0 b_.x0) /
        max 1 (min (b.x1 - b.x0) (b_.x1 - b_.x0)) < 3 / 10 then .keep
    else if (feats document b b_ && !concatting_feats b b_) ∨ b.x1 < b_.x0 ∨ b.x0 > b_.x1 then .keep
    else .merge
  merge b b_ :=
    { b with
      text := PyString.stripChars (rstrip b.text ++ ' ' :: lstrip b_.text)
      bottom := b_.bottom
      x0 := min b.x0 b_.x0
      x1 := max b.x1 b_.x1 }

def above (a b : Box) : Bool := a.top < b.top || (a.top = b.top && a.x0 ≤ b.x0)

def page (boxes : List Box) (pg : Nat) : List Box :=
  (boxes.filter (·.page_number = pg)).mergeSort above

def naive_vertical_merge (boxes : List Box) : List Box :=
  (boxes.map (·.page_number)).eraseDups.flatMap fun pg =>
    (vertical_pass document (document.mean_height pg)).run (page boxes pg)

/-- `set("qwertyuopasdfghjklzxcvbnm")` of the lower-cased character; the sign of Kelvin is one. -/
def bulletLetter (char : Char) : Bool :=
  "qwertyuopasdfghjklzxcvbnm".toList.contains
    (if char = '\u212a' then 'k' else char.toLower)

def bullet_pass : Pass Box where
  choose b b_ :=
    if blank b.text then .dropFirst
    else if blank b_.text then .dropSecond
    else
      let first := (PyString.stripChars b.text).head?
      if first ≠ (PyString.stripChars b_.text).head? ∨ first.any bulletLetter ∨
          first.any document.is_chinese ∨ b.top > b_.bottom then .keep
      else .merge
  merge b b_ :=
    { b_ with
      text := b.text ++ '\n' :: b_.text
      x0 := min b.x0 b_.x0
      x1 := max b.x1 b_.x1
      top := b.top }

def merge_with_same_bullet (boxes : List Box) : List Box := (bullet_pass document).run boxes

structure Traced where
  box : Box
  lines : List (List Box)
  deriving DecidableEq

def Traced.sources (traced : Traced) : List Box := traced.lines.flatten

def tracedPass (pass : Pass Box) (join : List (List Box) → List (List Box) → List (List Box)) :
    Pass Traced where
  choose a b := pass.choose a.box b.box
  merge a b := ⟨pass.merge a.box b.box, join a.lines b.lines⟩

def traceLines (boxes : List Box) : List Traced :=
  (tracedPass (text_merge_pass document) fun a b => [a.flatten ++ b.flatten]).run
    (boxes.map fun box => ⟨box, [[box]]⟩)

def traceParagraphs (boxes : List Box) : List Traced :=
  ((traceLines document boxes).map (·.box.page_number)).eraseDups.flatMap fun pg =>
    (tracedPass (vertical_pass document (document.mean_height pg)) (· ++ ·)).run
      (((traceLines document boxes).filter (·.box.page_number = pg)).mergeSort
        fun a b => above a.box b.box)

def traceBullets (boxes : List Box) : List Traced :=
  (tracedPass (bullet_pass document) (· ++ ·)).run (traceParagraphs document boxes)

def ink (text : Text) : Text := text.filter fun char => !PyString.isSpace char

/-- The text is the texts of the boxes in their order, with only spaces between them. -/
structure Spells (text : Text) (sources : List Box) : Prop where
  ink : ink text = sources.flatMap fun source => ink source.text
  whole : ∀ source ∈ sources, PyString.stripChars source.text <:+: text

structure Contains (box source : Box) : Prop where
  left : box.x0 ≤ source.x0
  right : source.x1 ≤ box.x1
  top : box.top ≤ source.top
  bottom : source.bottom ≤ box.bottom

def filled (box : Box) : Bool := !blank box.text

structure Faithful (boxes : List Box) (traces : List Traced) (outputs : List Box) : Prop where
  traced : traces.map Traced.box = outputs
  conserves : (traces.flatMap fun trace => trace.sources.filter filled).Perm (boxes.filter filled)
  spells : ∀ trace ∈ traces, Spells trace.box.text trace.sources
  onePage : ∀ trace ∈ traces, ∀ a ∈ trace.sources, ∀ b ∈ trace.sources,
    a.page_number = b.page_number
  contains : ∀ trace ∈ traces, ∀ source ∈ trace.sources, Contains trace.box source

structure MergesFaithfully (boxes : List Box) : Prop where
  paragraphs : Faithful boxes (traceParagraphs document boxes)
    (naive_vertical_merge document (text_merge document boxes))
  bullets : Faithful boxes (traceBullets document boxes)
    (merge_with_same_bullet document (naive_vertical_merge document (text_merge document boxes)))

/-- No box of the lines reaches further left than the first boxes, further right than the last ones,
higher than the boxes of the first line or lower than those of the last. -/
structure Aligned (lines : List (List Box)) : Prop where
  left : ∀ box ∈ lines.flatten, ∃ line ∈ lines, ∃ first ∈ line.head?, first.x0 ≤ box.x0
  right : ∀ box ∈ lines.flatten, ∃ line ∈ lines, ∃ last ∈ line.getLast?, box.x1 ≤ last.x1
  top : ∀ line ∈ lines.head?, ∀ high ∈ line, ∀ box ∈ lines.flatten, high.top ≤ box.top
  bottom : ∀ line ∈ lines.getLast?, ∀ low ∈ line, ∀ box ∈ lines.flatten, box.bottom ≤ low.bottom

structure MergesAligned (boxes : List Box) : Prop where
  paragraphs : ∀ trace ∈ traceParagraphs document boxes, Aligned trace.lines
  bullets : ∀ trace ∈ traceBullets document boxes, Aligned trace.lines
  samePage : (bullet_pass document).Merges (fun b b_ => b.page_number = b_.page_number)
    (naive_vertical_merge document (text_merge document boxes))

variable {document} {boxes sources others : List Box} {text other piece : Text} {a b : Traced}

theorem ink_append (text other : Text) : ink (text ++ other) = ink text ++ ink other :=
  List.filter_append ..

theorem ink_lstrip (text : Text) : ink (lstrip text) = ink text := by
  have spaces : ink (text.takeWhile PyString.isSpace) = [] := by
    rw [ink, List.filter_eq_nil_iff]
    intro char isSpace
    simpa using List.all_eq_true.mp List.all_takeWhile char isSpace
  conv_rhs => rw [← List.takeWhile_append_dropWhile (p := PyString.isSpace) (l := text)]
  rw [ink_append, spaces]
  rfl

theorem rstrip_eq (text : Text) : rstrip text = (lstrip text.reverse).reverse := rfl

theorem ink_rstrip (text : Text) : ink (rstrip text) = ink text := by
  have reversed := ink_lstrip text.reverse
  rw [ink, ink, List.filter_reverse] at reversed
  rw [rstrip_eq, ink, List.filter_reverse, reversed, List.reverse_reverse]
  rfl

theorem blank_iff : blank text = true ↔ ink text = [] := by
  simp [blank, ink, List.filter_eq_nil_iff]

theorem infix_lstrip (inText : piece <:+: text)
    (begins : ∀ char ∈ piece.head?, PyString.isSpace char = false) : piece <:+: lstrip text := by
  obtain ⟨before, after, rfl⟩ := inText
  cases piece with
  | nil => exact List.nil_infix
  | cons char piece =>
    have notSpace : PyString.isSpace char = false := begins char rfl
    rw [lstrip, List.append_assoc, List.dropWhile_append]
    split_ifs
    · rw [List.cons_append, List.dropWhile_cons_of_neg (by simp [notSpace])]
      exact (List.prefix_append (char :: piece) after).isInfix
    · exact ⟨_, after, List.append_assoc ..⟩

theorem infix_rstrip (inText : piece <:+: text)
    (ends : ∀ char ∈ piece.getLast?, PyString.isSpace char = false) : piece <:+: rstrip text := by
  rw [rstrip_eq, ← List.reverse_infix, List.reverse_reverse]
  apply infix_lstrip (List.reverse_infix.mpr inText)
  simpa using ends

theorem begins_lstrip (text : Text) :
    ∀ char ∈ (lstrip text).head?, PyString.isSpace char = false := by
  intro char begins
  have stops := List.head?_dropWhile_not PyString.isSpace text
  rw [lstrip, Option.mem_def] at begins
  rw [begins] at stops
  simpa using stops

theorem prefix_rstrip (text : Text) : rstrip text <+: text := by
  rw [rstrip_eq, ← List.reverse_suffix, List.reverse_reverse]
  exact List.dropWhile_suffix _

theorem begins_stripChars (text : Text) :
    ∀ char ∈ (PyString.stripChars text).head?, PyString.isSpace char = false := by
  intro char begins
  obtain ⟨rest, split⟩ := List.head?_eq_some_iff.mp begins
  obtain ⟨after, whole⟩ := prefix_rstrip (lstrip text)
  apply begins_lstrip text
  rw [← whole, show rstrip (lstrip text) = char :: rest from split]
  rfl

theorem ends_stripChars (text : Text) :
    ∀ char ∈ (PyString.stripChars text).getLast?, PyString.isSpace char = false := by
  intro char ends
  apply begins_lstrip (lstrip text).reverse
  rwa [← List.getLast?_reverse]

theorem Spells.append (spells : Spells text sources) (spellsOther : Spells other others) :
    Spells (text ++ other) (sources ++ others) where
  ink := by rw [ink_append, spells.ink, spellsOther.ink, List.flatMap_append]
  whole source isSource := (List.mem_append.mp isSource).elim
    (fun first => (spells.whole source first).trans (List.prefix_append ..).isInfix)
    fun second => (spellsOther.whole source second).trans (List.suffix_append ..).isInfix

theorem Spells.lstrip (spells : Spells text sources) : Spells (lstrip text) sources where
  ink := by rw [ink_lstrip, spells.ink]
  whole source isSource := infix_lstrip (spells.whole source isSource) (begins_stripChars _)

theorem Spells.rstrip (spells : Spells text sources) : Spells (rstrip text) sources where
  ink := by rw [ink_rstrip, spells.ink]
  whole source isSource := infix_rstrip (spells.whole source isSource) (ends_stripChars _)

theorem spells_space (char : Char) (isSpace : PyString.isSpace char = true) : Spells [char] [] where
  ink := by simp [LineMerging.ink, isSpace]
  whole := by simp

theorem spells_self (box : Box) : Spells box.text [box] where
  ink := by simp
  whole := by
    rw [List.forall_mem_singleton]
    exact (prefix_rstrip _).isInfix.trans (List.dropWhile_suffix _).isInfix

/-- What the top or bottom of a line has in common with an average of those of its boxes. -/
structure Mean (values : List ℚ) (mean : ℚ) : Prop where
  low : ∃ value ∈ values, value ≤ mean
  high : ∃ value ∈ values, mean ≤ value
  ofLow : (∀ value ∈ values, mean ≤ value) → ∀ value ∈ values, value = mean
  ofHigh : (∀ value ∈ values, value ≤ mean) → ∀ value ∈ values, value = mean

theorem Mean.singleton (value : ℚ) : Mean [value] value := by
  constructor <;> simp

theorem Mean.append {first second : List ℚ} {mean meanOther : ℚ} (isMean : Mean first mean)
    (isOther : Mean second meanOther) : Mean (first ++ second) ((mean + meanOther) / 2) := by
  obtain ⟨low, isLow, lowLe⟩ := isMean.low
  obtain ⟨lowOther, isLowOther, lowOtherLe⟩ := isOther.low
  obtain ⟨high, isHigh, leHigh⟩ := isMean.high
  obtain ⟨highOther, isHighOther, leHighOther⟩ := isOther.high
  refine ⟨?_, ?_, fun all => ?_, fun all => ?_⟩
  · rcases le_total mean meanOther with less | more
    · exact ⟨low, List.mem_append_left _ isLow, by linarith⟩
    · exact ⟨lowOther, List.mem_append_right _ isLowOther, by linarith⟩
  · rcases le_total mean meanOther with less | more
    · exact ⟨highOther, List.mem_append_right _ isHighOther, by linarith⟩
    · exact ⟨high, List.mem_append_left _ isHigh, by linarith⟩
  · rw [List.forall_mem_append] at all ⊢
    have := all.1 low isLow
    have := all.2 lowOther isLowOther
    obtain rfl : mean = meanOther := by linarith
    rw [add_self_div_two] at all ⊢
    exact ⟨isMean.ofLow all.1, isOther.ofLow all.2⟩
  · rw [List.forall_mem_append] at all ⊢
    have := all.1 high isHigh
    have := all.2 highOther isHighOther
    obtain rfl : mean = meanOther := by linarith
    rw [add_self_div_two] at all ⊢
    exact ⟨isMean.ofHigh all.1, isOther.ofHigh all.2⟩

/-- The edges of a merged box in terms of the first and last boxes of its lines. -/
structure Edges (traced : Traced) : Prop where
  x0_le : ∀ line ∈ traced.lines, ∀ first ∈ line.head?, traced.box.x0 ≤ first.x0
  x0_mem : ∃ line ∈ traced.lines, ∃ first ∈ line.head?, first.x0 ≤ traced.box.x0
  le_x1 : ∀ line ∈ traced.lines, ∀ last ∈ line.getLast?, last.x1 ≤ traced.box.x1
  x1_mem : ∃ line ∈ traced.lines, ∃ last ∈ line.getLast?, traced.box.x1 ≤ last.x1
  top : ∃ line ∈ traced.lines.head?, Mean (line.map Box.top) traced.box.top
  bottom : ∃ line ∈ traced.lines.getLast?, Mean (line.map Box.bottom) traced.box.bottom

theorem contains_iff {traced : Traced} (edges : Edges traced) :
    (∀ source ∈ traced.sources, Contains traced.box source) ↔ Aligned traced.lines := by
  obtain ⟨x0_le, ⟨left, isLeft, first, isFirst, leX0⟩, le_x1,
    ⟨right, isRight, last, isLast, x1Le⟩, ⟨high, isHigh, top⟩, low, isLow, bottom⟩ := edges
  constructor
  · intro contains
    refine ⟨fun box isBox => ⟨left, isLeft, first, isFirst, leX0.trans (contains box isBox).left⟩,
      fun box isBox => ⟨right, isRight, last, isLast, (contains box isBox).right.trans x1Le⟩,
      fun line isLine highBox inLine box isBox => ?_,
      fun line isLine lowBox inLine box isBox => ?_⟩
    · obtain rfl := Option.some.inj (isLine.symm.trans isHigh)
      have inAll (other : Box) (inLine : other ∈ line) : other ∈ traced.sources :=
        List.mem_flatten.mpr ⟨line, List.mem_of_head? isLine, inLine⟩
      have level := top.ofLow (by
        simpa using fun other inLine => (contains other (inAll other inLine)).top)
      rw [level _ (List.mem_map_of_mem inLine)]
      exact (contains box isBox).top
    · obtain rfl := Option.some.inj (isLine.symm.trans isLow)
      have inAll (other : Box) (inLine : other ∈ line) : other ∈ traced.sources :=
        List.mem_flatten.mpr ⟨line, List.mem_of_getLast? isLine, inLine⟩
      have level := bottom.ofHigh (by
        simpa using fun other inLine => (contains other (inAll other inLine)).bottom)
      rw [level _ (List.mem_map_of_mem inLine)]
      exact (contains box isBox).bottom
  · intro aligned source isSource
    obtain ⟨line, isLine, lineFirst, isLineFirst, firstLe⟩ := aligned.left source isSource
    obtain ⟨other, isOther, lineLast, isLineLast, leLast⟩ := aligned.right source isSource
    obtain ⟨_, isHighTop, leHighTop⟩ := top.high
    obtain ⟨highBox, inHigh, rfl⟩ := List.mem_map.mp isHighTop
    obtain ⟨_, isLowBottom, lowBottomLe⟩ := bottom.low
    obtain ⟨lowBox, inLow, rfl⟩ := List.mem_map.mp isLowBottom
    exact ⟨(x0_le line isLine lineFirst isLineFirst).trans firstLe,
      leLast.trans (le_x1 other isOther lineLast isLineLast),
      leHighTop.trans (aligned.top high isHigh highBox inHigh source isSource),
      (aligned.bottom low isLow lowBox inLow source isSource).trans lowBottomLe⟩

theorem Edges.merge {box : Box} (edges : Edges a) (other : Edges b)
    (x0 : box.x0 = min a.box.x0 b.box.x0) (x1 : box.x1 = max a.box.x1 b.box.x1)
    (top : box.top = a.box.top) (bottom : box.bottom = b.box.bottom) :
    Edges ⟨box, a.lines ++ b.lines⟩ := by
  constructor
  · intro line isLine first isFirst
    rw [x0]
    exact (List.mem_append.mp isLine).elim
      (fun here => min_le_of_left_le (edges.x0_le line here first isFirst))
      fun there => min_le_of_right_le (other.x0_le line there first isFirst)
  · rw [x0]
    rcases le_total a.box.x0 b.box.x0 with less | more
    · obtain ⟨line, isLine, first, isFirst, leX0⟩ := edges.x0_mem
      exact ⟨line, List.mem_append_left _ isLine, first, isFirst, by rwa [min_eq_left less]⟩
    · obtain ⟨line, isLine, first, isFirst, leX0⟩ := other.x0_mem
      exact ⟨line, List.mem_append_right _ isLine, first, isFirst, by rwa [min_eq_right more]⟩
  · intro line isLine last isLast
    rw [x1]
    exact (List.mem_append.mp isLine).elim
      (fun here => le_max_of_le_left (edges.le_x1 line here last isLast))
      fun there => le_max_of_le_right (other.le_x1 line there last isLast)
  · rw [x1]
    rcases le_total b.box.x1 a.box.x1 with less | more
    · obtain ⟨line, isLine, last, isLast, x1Le⟩ := edges.x1_mem
      exact ⟨line, List.mem_append_left _ isLine, last, isLast, by rwa [max_eq_left less]⟩
    · obtain ⟨line, isLine, last, isLast, x1Le⟩ := other.x1_mem
      exact ⟨line, List.mem_append_right _ isLine, last, isLast, by rwa [max_eq_right more]⟩
  · obtain ⟨line, isHead, mean⟩ := edges.top
    exact ⟨line, by rw [Option.mem_def, List.head?_append, isHead, Option.some_or], by rwa [top]⟩
  · obtain ⟨line, isLast, mean⟩ := other.bottom
    exact ⟨line, by rw [Option.mem_def, List.getLast?_append, isLast, Option.some_or],
      by rwa [bottom]⟩

def Line (traced : Traced) : Prop :=
  ∃ line, traced.lines = [line] ∧ (∃ first ∈ line.head?, first.x0 = traced.box.x0) ∧
    (∃ last ∈ line.getLast?, last.x1 = traced.box.x1) ∧
    Mean (line.map Box.top) traced.box.top ∧ Mean (line.map Box.bottom) traced.box.bottom

theorem Line.edges {traced : Traced} (isLine : Line traced) : Edges traced := by
  obtain ⟨line, isSingle, ⟨first, isFirst, x0⟩, ⟨last, isLast, x1⟩, top, bottom⟩ := isLine
  have isMem : line ∈ traced.lines := isSingle ▸ List.mem_singleton_self line
  refine ⟨?_, ⟨line, isMem, first, isFirst, x0.le⟩, ?_, ⟨line, isMem, last, isLast, x1.ge⟩,
    ⟨line, by rw [isSingle]; rfl, top⟩, ⟨line, by rw [isSingle]; rfl, bottom⟩⟩
  · rw [isSingle, List.forall_mem_singleton]
    intro other isOther
    obtain rfl := Option.some.inj (isFirst.symm.trans isOther)
    exact x0.ge
  · rw [isSingle, List.forall_mem_singleton]
    intro other isOther
    obtain rfl := Option.some.inj (isLast.symm.trans isOther)
    exact x1.le

theorem Line.merge (isLine : Line a) (other : Line b) :
    Line ⟨(text_merge_pass document).merge a.box b.box, [a.lines.flatten ++ b.lines.flatten]⟩ := by
  obtain ⟨line, isSingle, ⟨first, isFirst, x0⟩, ⟨last, isLast, x1⟩, top, bottom⟩ := isLine
  obtain ⟨next, isNext, ⟨_, _, _⟩, ⟨lastOther, isLastOther, x1Other⟩, topOther, bottomOther⟩ :=
    other
  refine ⟨_, rfl, ⟨first, ?_, x0⟩, ⟨lastOther, ?_, x1Other⟩, ?_, ?_⟩
  · rw [isSingle, List.flatten_singleton, Option.mem_def, List.head?_append, isFirst,
      Option.some_or]
  · rw [isNext, List.flatten_singleton, Option.mem_def, List.getLast?_append, isLastOther,
      Option.some_or]
  · rw [isSingle, isNext, List.flatten_singleton, List.flatten_singleton, List.map_append]
    exact top.append topOther
  · rw [isSingle, isNext, List.flatten_singleton, List.flatten_singleton, List.map_append]
    exact bottom.append bottomOther

def OnPage (traced : Traced) : Prop :=
  ∀ source ∈ traced.sources, source.page_number = traced.box.page_number

structure Sound (traced : Traced) : Prop where
  spells : Spells traced.box.text traced.sources
  edges : Edges traced

def filledSources (traced : Traced) : List Box := traced.sources.filter filled

theorem filledSources_eq_nil_iff {traced : Traced}
    (spells : Spells traced.box.text traced.sources) :
    filledSources traced = [] ↔ blank traced.box.text = true := by
  rw [blank_iff, spells.ink, List.flatMap_eq_nil_iff, filledSources, List.filter_eq_nil_iff]
  simp [filled, blank_iff]

structure LineSound (traced : Traced) : Prop where
  spells : Spells traced.box.text traced.sources
  line : Line traced
  onPage : OnPage traced

theorem joins_lines : Pass.Joins
    (tracedPass (text_merge_pass document) fun a b => [a.flatten ++ b.flatten])
    LineSound filledSources := by
  have never (a b : Traced) : (text_merge_pass document).choose a.box b.box = .keep ∨
      (text_merge_pass document).choose a.box b.box = .merge ∧
        a.box.page_number = b.box.page_number := by
    simp only [text_merge_pass]
    split_ifs with apart <;> simp_all
  have noDrop {a b : Traced} {choice : Choice} (drops : choice = .dropFirst ∨ choice = .dropSecond)
      (chosen : (text_merge_pass document).choose a.box b.box = choice) : False := by
    rcases never a b with kept | ⟨merged, -⟩
    · rcases drops with rfl | rfl <;> exact Choice.noConfusion (kept.symm.trans chosen)
    · rcases drops with rfl | rfl <;> exact Choice.noConfusion (merged.symm.trans chosen)
  constructor
  · intro a b
    simp [tracedPass, filledSources, Traced.sources]
  · exact fun a b _ _ chosen => (noDrop (.inl rfl) chosen).elim
  · exact fun a b _ _ chosen => (noDrop (.inr rfl) chosen).elim
  · intro a b here there chosen
    have samePage : a.box.page_number = b.box.page_number := by
      rcases never a b with kept | ⟨-, same⟩
      · exact Choice.noConfusion (kept.symm.trans chosen)
      · exact same
    refine ⟨?_, here.line.merge there.line, ?_⟩
    · rw [Traced.sources, tracedPass, List.flatten_singleton]
      exact here.spells.append there.spells
    · rw [OnPage, Traced.sources, tracedPass, List.flatten_singleton, List.forall_mem_append]
      exact ⟨here.onPage, fun source isSource => (there.onPage source isSource).trans
        samePage.symm⟩

structure PageSound (pg : Nat) (traced : Traced) : Prop where
  sound : Sound traced
  onPage : OnPage traced
  isPage : traced.box.page_number = pg

theorem filledSources_append (box : Box) (first second : Traced) :
    filledSources ⟨box, first.lines ++ second.lines⟩ =
      filledSources first ++ filledSources second := by
  rw [filledSources, Traced.sources, List.flatten_append, List.filter_append]
  rfl

theorem joins_paragraphs (document : Document) (mh : ℚ) (pg : Nat) : Pass.Joins
    (tracedPass (vertical_pass document mh) (· ++ ·)) (PageSound pg) filledSources := by
  constructor
  · exact fun a b => filledSources_append _ a b
  · intro a b here there chosen
    apply (filledSources_eq_nil_iff here.sound.spells).mpr
    simp only [tracedPass, vertical_pass] at chosen
    split_ifs at chosen with number isBlank
    · exact absurd number.1 (by rw [here.isPage, there.isPage]; exact Nat.lt_irrefl pg)
    · exact isBlank
  · intro a b _ _ chosen
    simp only [tracedPass, vertical_pass] at chosen
    split_ifs at chosen
  · intro a b here there _
    refine ⟨⟨?_, ?_⟩, ?_, here.isPage⟩
    · rw [Traced.sources, tracedPass, List.flatten_append]
      have spaced := here.sound.spells.rstrip.append
        ((spells_space ' ' (by decide)).append there.sound.spells.lstrip)
      exact spaced.lstrip.rstrip
    · exact here.sound.edges.merge there.sound.edges rfl rfl rfl rfl
    · rw [OnPage, Traced.sources, tracedPass, List.flatten_append, List.forall_mem_append]
      exact ⟨here.onPage, fun source isSource =>
        ((there.onPage source isSource).trans there.isPage).trans here.isPage.symm⟩

theorem joins_bullets (document : Document) : Pass.Joins
    (tracedPass (bullet_pass document) (· ++ ·)) Sound filledSources := by
  constructor
  · exact fun a b => filledSources_append _ a b
  · intro a b here _ chosen
    apply (filledSources_eq_nil_iff here.spells).mpr
    simp only [tracedPass, bullet_pass] at chosen
    split_ifs at chosen with isBlank
    exact isBlank
  · intro a b _ there chosen
    apply (filledSources_eq_nil_iff there.spells).mpr
    simp only [tracedPass, bullet_pass] at chosen
    split_ifs at chosen with _ isBlank
    exact isBlank
  · intro a b here there _
    constructor
    · rw [Traced.sources, tracedPass, List.flatten_append]
      exact here.spells.append ((spells_space '\n' (by decide)).append there.spells)
    · exact here.edges.merge there.edges rfl rfl rfl rfl

theorem lineSound_start (boxes : List Box) :
    ∀ trace ∈ boxes.map (fun box => Traced.mk box [[box]]), LineSound trace := by
  intro trace isTrace
  obtain ⟨box, -, rfl⟩ := List.mem_map.mp isTrace
  refine ⟨spells_self box, ⟨[box], rfl, ⟨box, rfl, rfl⟩, ⟨box, rfl, rfl⟩, ?_, ?_⟩, ?_⟩
  · exact Mean.singleton _
  · exact Mean.singleton _
  · exact List.forall_mem_singleton.mpr rfl

theorem lineSound (document : Document) (boxes : List Box) :
    ∀ trace ∈ traceLines document boxes, LineSound trace :=
  joins_lines.forall_mem_run (lineSound_start boxes)

theorem map_tracedPass (pass : Pass Box)
    (join : List (List Box) → List (List Box) → List (List Box)) (traces : List Traced) :
    ((tracedPass pass join).run traces).map Traced.box = pass.run (traces.map Traced.box) :=
  Pass.map_run Traced.box (fun _ _ => rfl) (fun _ _ => rfl) traces

theorem traceLines_box (document : Document) (boxes : List Box) :
    (traceLines document boxes).map Traced.box = text_merge document boxes := by
  rw [traceLines, map_tracedPass, List.map_map]
  exact congrArg _ (List.map_id boxes)

theorem traceParagraphs_box (document : Document) (boxes : List Box) :
    (traceParagraphs document boxes).map Traced.box =
      naive_vertical_merge document (text_merge document boxes) := by
  have pages : (text_merge document boxes).map (·.page_number) =
      (traceLines document boxes).map (·.box.page_number) := by
    rw [← traceLines_box, List.map_map]
    rfl
  rw [traceParagraphs, naive_vertical_merge, pages, List.map_flatMap]
  apply List.flatMap_congr
  intro pg _
  have sorted : page (text_merge document boxes) pg =
      (((traceLines document boxes).filter (·.box.page_number = pg)).mergeSort
        fun a b => above a.box b.box).map Traced.box := by
    rw [page, ← traceLines_box, List.filter_map]
    exact (List.map_mergeSort (r := fun a b => above a.box b.box) (f := Traced.box)
      fun _ _ _ _ => rfl).symm
  rw [sorted, map_tracedPass]

theorem traceBullets_box (document : Document) (boxes : List Box) :
    (traceBullets document boxes).map Traced.box = merge_with_same_bullet document
      (naive_vertical_merge document (text_merge document boxes)) := by
  rw [merge_with_same_bullet, ← traceParagraphs_box]
  exact map_tracedPass _ _ _

theorem pageSound (document : Document) (boxes : List Box) (pg : Nat) :
    ∀ trace ∈ ((traceLines document boxes).filter (·.box.page_number = pg)).mergeSort
      fun a b => above a.box b.box, PageSound pg trace := by
  intro trace isTrace
  obtain ⟨isLine, isPage⟩ := List.mem_filter.mp (List.mem_mergeSort.mp isTrace)
  obtain ⟨spells, line, onPage⟩ := lineSound document boxes trace isLine
  exact ⟨⟨spells, line.edges⟩, onPage, of_decide_eq_true isPage⟩

theorem paragraphSound (document : Document) (boxes : List Box) :
    ∀ trace ∈ traceParagraphs document boxes, Sound trace ∧ OnPage trace := by
  intro trace isTrace
  obtain ⟨pg, -, isTrace⟩ := List.mem_flatMap.mp isTrace
  have sound := (joins_paragraphs document _ pg).forall_mem_run (pageSound document boxes pg) trace
    isTrace
  exact ⟨sound.sound, sound.onPage⟩

theorem nodup_eraseDups (names : List Nat) : names.eraseDups.Nodup := by
  induction size : names.length using Nat.strongRecOn generalizing names with
  | ind size ih =>
    cases names with
    | nil => exact List.nodup_nil
    | cons name names =>
      have shorter := List.length_filter_le (fun other => !other == name) names
      rw [List.eraseDups_cons, List.nodup_cons, List.mem_eraseDups]
      refine ⟨by simp, ih _ ?_ _ rfl⟩
      rw [← size, List.length_cons]
      omega

theorem conserves_lines (document : Document) (boxes : List Box) :
    (traceLines document boxes).flatMap filledSources = boxes.filter filled := by
  rw [traceLines, joins_lines.flatMap_run (lineSound_start boxes), List.flatMap_map]
  induction boxes with
  | nil => rfl
  | cons box boxes ih =>
    rw [List.flatMap_cons, ih]
    exact (List.filter_append [box] boxes).symm

theorem conserves_paragraphs (document : Document) (boxes : List Box) :
    ((traceParagraphs document boxes).flatMap filledSources).Perm (boxes.filter filled) := by
  have pages (pg : Nat) : ((tracedPass (vertical_pass document (document.mean_height pg))
      (· ++ ·)).run (((traceLines document boxes).filter (·.box.page_number = pg)).mergeSort
        fun a b => above a.box b.box)).flatMap filledSources |>.Perm
      ((Grouping.members (fun trace : Traced => some trace.box.page_number)
        (traceLines document boxes) pg).flatMap filledSources) := by
    rw [(joins_paragraphs document _ pg).flatMap_run (pageSound document boxes pg)]
    apply List.Perm.flatMap_right
    apply (List.mergeSort_perm _ _).trans
    simp [Grouping.members]
  have grouped : ((traceLines document boxes).filter fun trace =>
      ∃ pg ∈ ((traceLines document boxes).map (·.box.page_number)).eraseDups,
        some trace.box.page_number = some pg).Perm
      (((traceLines document boxes).map (·.box.page_number)).eraseDups.flatMap
        (Grouping.members (fun trace => some trace.box.page_number) (traceLines document boxes))) :=
    Grouping.perm_members _ (nodup_eraseDups _)
  have all : (traceLines document boxes).filter (fun trace =>
      ∃ pg ∈ ((traceLines document boxes).map (·.box.page_number)).eraseDups,
        some trace.box.page_number = some pg) = traceLines document boxes := by
    rw [List.filter_eq_self]
    intro trace isTrace
    simpa [List.mem_eraseDups] using ⟨trace, isTrace, rfl⟩
  rw [all] at grouped
  rw [← conserves_lines document, traceParagraphs, List.flatMap_assoc]
  apply (List.Perm.flatMap_left _ fun pg _ => pages pg).trans
  rw [← List.flatMap_assoc]
  exact (grouped.flatMap_right filledSources).symm

theorem conserves_bullets (document : Document) (boxes : List Box) :
    ((traceBullets document boxes).flatMap filledSources).Perm (boxes.filter filled) := by
  rw [traceBullets, (joins_bullets document).flatMap_run fun trace isTrace =>
    (paragraphSound document boxes trace isTrace).1]
  exact conserves_paragraphs document boxes

theorem onPage_merge (samePage : a.box.page_number = b.box.page_number) (onPage : OnPage a)
    (other : OnPage b) : OnPage ((tracedPass (bullet_pass document) (· ++ ·)).merge a b) := by
  rw [OnPage, Traced.sources, tracedPass, List.flatten_append, List.forall_mem_append]
  exact ⟨fun source isSource => (onPage source isSource).trans samePage, other⟩

theorem onePage_bullets_iff (document : Document) (boxes : List Box) :
    (∀ trace ∈ traceBullets document boxes, ∀ a ∈ trace.sources, ∀ b ∈ trace.sources,
      a.page_number = b.page_number) ↔
    (bullet_pass document).Merges (fun b b_ => b.page_number = b_.page_number)
      (naive_vertical_merge document (text_merge document boxes)) := by
  have start := paragraphSound document boxes
  have merges_iff : (bullet_pass document).Merges (fun b b_ => b.page_number = b_.page_number)
        ((traceParagraphs document boxes).map Traced.box) ↔
      (tracedPass (bullet_pass document) (· ++ ·)).Merges
        (fun a b => a.box.page_number = b.box.page_number) (traceParagraphs document boxes) :=
    Pass.merges_map_iff Traced.box (fun _ _ => rfl) (fun _ _ => rfl) _
  rw [← traceParagraphs_box, merges_iff]
  constructor
  · refine fun onePage => (joins_bullets document).merges_of_good ?_ ?_ start onePage
    · exact fun a b onPage other samePage => onPage_merge samePage onPage other
    · intro a b here there onPage other chosen different
      simp only [tracedPass, bullet_pass] at chosen
      split_ifs at chosen with isBlank isBlankOther
      have filledFirst := mt (filledSources_eq_nil_iff here.spells).mp isBlank
      have filledSecond := mt (filledSources_eq_nil_iff there.spells).mp isBlankOther
      obtain ⟨first, isFirst⟩ := List.exists_mem_of_ne_nil _ filledFirst
      obtain ⟨second, isSecond⟩ := List.exists_mem_of_ne_nil _ filledSecond
      rw [(joins_bullets document).merged]
      refine ⟨List.append_ne_nil_of_left_ne_nil filledFirst _, fun result subset onePage => ?_⟩
      have inFirst := (List.mem_filter.mp (subset (List.mem_append_left _ isFirst))).1
      have inSecond := (List.mem_filter.mp (subset (List.mem_append_right _ isSecond))).1
      apply different
      rw [← onPage first (List.mem_filter.mp isFirst).1,
        ← other second (List.mem_filter.mp isSecond).1]
      exact onePage first inFirst second inSecond
  · intro merges trace isTrace a isA b isB
    have onPage := Pass.forall_mem_run (fun trace isTrace => (start trace isTrace).2) merges
      (fun a b onPage other samePage _ => onPage_merge samePage onPage other) trace isTrace
    rw [onPage a isA, onPage b isB]

theorem traceParagraphs_of_line {line : Traced} (single : traceLines document boxes = [line]) :
    traceParagraphs document boxes = [line] := by
  have samePage : [line].filter (·.box.page_number = line.box.page_number) = [line] := by simp
  rw [traceParagraphs, single, List.map_singleton, List.eraseDups_cons, List.filter_nil,
    List.eraseDups_nil, List.flatMap_singleton, samePage, List.mergeSort_singleton]
  rfl

def plainDocument : Document := ⟨fun _ => 30, fun _ => 10, false, fun _ => false⟩

def word (x0 top : ℚ) : Box :=
  ⟨1, x0, x0 + 10, top, top + 10, ['a'], some 0, some "text-0", some "text"⟩

end RagFlow.Pdf.LineMerging
