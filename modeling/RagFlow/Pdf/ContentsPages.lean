import RagFlow.Chunking.ContentsTable
import RagFlow.Lib.Fallible

/-!
# Contents pages of a PDF

`_filter_forpages`: the boxes of a table of contents behind its heading are removed, or, where no
heading is found, the pages with many dot leaders.
-/

namespace RagFlow.Pdf.ContentsPages

open Lib Chunking.ContentsTable

structure Box where
  text : String
  page_number : Int
  deriving DecidableEq

/-- `str.lower`, as far as letters of the headings come out of it. -/
def lower (char : Char) : Char := if char = '\u212a' then 'k' else char.toLower

@[irreducible] def isContentsBox (box : Box) : Bool :=
  (Regex.seq titles .atEnd).isMatch
    (String.ofList ((box.text.toList.map lower).filter fun char => char ≠ ' ' && char ≠ '\u3000'))

/-- `[0-9a-zA-Z :'.-]{5,}` -/
def eng (heading : Box) : Bool :=
  let start := (PyString.strip heading.text).toList.take 5
  start.length = 5 && start.all fun char =>
    ('0' ≤ char && char ≤ '9') || ('a' ≤ char && char ≤ 'z') || ('A' ≤ char && char ≤ 'Z') ||
      [' ', ':', '\'', '.', '-'].contains char

@[irreducible] def boxPrefix (heading box : Box) : String :=
  if eng heading then " ".intercalate ((PyString.split (PyString.strip box.text)).take 2)
  else String.ofList ((PyString.strip box.text).toList.take 3)

variable (re_compile : String → Option (String → Bool)) (page_images : Nat)

def tables : Scheme Box where
  isContents := isContentsBox
  entryPrefix := boxPrefix
  searched := Box.text
  re_compile := re_compile

def hasLeaders (box : Box) : Bool := decide (['·', '·'] <:+: box.text.toList)

/-- The place of a list that Python takes for `page_number - 1`, which counts from the end if it is
negative. -/
def pageIndex (box : Box) : Option Nat :=
  if 0 ≤ box.page_number - 1 then
    if box.page_number - 1 < page_images then some (box.page_number - 1).toNat else none
  else if -page_images ≤ box.page_number - 1 then some (box.page_number - 1 + page_images).toNat
  else none

def page_dirty (boxes : List Box) : Option (List Nat) :=
  ((boxes.filter hasLeaders).mapM (pageIndex page_images)).map fun pages =>
    ((List.range page_images).filter fun page => decide (3 < pages.count page)).map (· + 1)

/-- No result is an exception. -/
def filter_forpages (boxes : List Box) : Option (List Box) :=
  if boxes.any isContentsBox then remove (tables re_compile) boxes
  else (page_dirty page_images boxes).map fun dirty =>
    boxes.filter fun box => !dirty.any fun page => (page : Int) = box.page_number

/-- The box begins like the first entry, with nothing of it taken for a pattern. -/
def Repetition (heading first box : Box) : Prop :=
  (boxPrefix heading first).toList <+: (PyString.strip box.text).toList

/-- The entries go no further than to the first repetition of their first. -/
def Tight (heading first : Box) (entries : List Box) : Prop :=
  ∀ before box after, entries = before ++ box :: after → Repetition heading first box → after = []

structure FiltersPages (boxes : List Box) : Prop where
  returns : ∃ kept, filter_forpages re_compile page_images boxes = some kept ∧
    kept.Sublist boxes ∧
    (boxes.any isContentsBox = true → Stripped (tables re_compile) boxes kept) ∧
    (boxes.any isContentsBox = false → boxes.any hasLeaders = false → kept = boxes)
  tight : ∀ heading blanks first entries rest,
    Reached (tables re_compile) boxes (heading :: (blanks ++ first :: (entries ++ rest))) →
    IsTable (tables re_compile) heading blanks first entries rest → Tight heading first entries

/-- The pattern of a first entry matches up to the box behind the first repetition, if it matches
any of the next boxes. -/
def MatchesInTime (heading first : Box) (rest : List Box) : Prop :=
  ∀ before box after, rest = before ++ box :: after → Repetition heading first box →
    (∃ entry ∈ rest.take 128, Repeats (tables re_compile) (boxPrefix heading first) entry) →
      ∃ entry ∈ rest.take (before.length + 2),
        Repeats (tables re_compile) (boxPrefix heading first) entry

structure Filterable (boxes : List Box) : Prop where
  removable : Removable (tables re_compile) boxes
  inTime : ∀ heading blanks first rest,
    Reached (tables re_compile) boxes (heading :: (blanks ++ first :: rest)) →
    isContentsBox heading = true → (∀ box ∈ blanks, boxPrefix heading box = "") →
      boxPrefix heading first ≠ "" → MatchesInTime re_compile heading first rest
  loaded : boxes.any isContentsBox = false →
    ∀ box ∈ boxes, hasLeaders box = true → (pageIndex page_images box).isSome

variable {re_compile} {page_images} {boxes rest entries blanks : List Box} {heading first : Box}

theorem mem_take_append_cons {Item : Type} {front back : List Item} {item : Item} {count : Nat}
    (short : front.length < count) : item ∈ (front ++ item :: back).take count := by
  rw [List.take_append, List.mem_append]
  right
  obtain ⟨left, isLeft⟩ := Nat.exists_eq_add_of_lt short
  rw [show count - front.length = left + 1 by omega, List.take_succ_cons]
  exact List.mem_cons_self

theorem tight_iff (isTable : IsTable (tables re_compile) heading blanks first entries rest) :
    Tight heading first entries ↔ MatchesInTime re_compile heading first (entries ++ rest) := by
  constructor
  · intro tight before box after split repetition found
    obtain ⟨-, item, isHead, repeats⟩ | ⟨rfl, none⟩ := isTable.ends
    · obtain ⟨later, rfl⟩ := List.head?_eq_some_iff.mp isHead
      have near : entries.length < before.length + 2 := by
        obtain ⟨middle, rfl, _⟩ | ⟨middle, isEntries, isRest⟩ := List.append_eq_append_iff.mp split
        · simp only [List.length_append]
          omega
        · cases middle with
          | nil =>
            rw [isEntries, List.append_nil]
            omega
          | cons other middle =>
            obtain rfl : box = other := (List.cons.inj isRest).1
            have isLast := tight before box middle isEntries repetition
            rw [isEntries, isLast, List.length_append, List.length_singleton]
            omega
      exact ⟨item, mem_take_append_cons near, repeats⟩
    · obtain ⟨entry, inWindow, repeats⟩ := found
      exact absurd repeats (none entry inWindow)
  · rintro inTime before box after rfl repetition
    by_contra more
    obtain ⟨next, others, rfl⟩ := List.exists_cons_of_ne_nil more
    obtain ⟨short, item, isHead, repeats⟩ | ⟨isEmpty, -⟩ := isTable.ends
    · obtain ⟨later, rfl⟩ := List.head?_eq_some_iff.mp isHead
      obtain ⟨entry, isNear, entryRepeats⟩ := inTime before box (next :: others ++ item :: later)
        (by simp) repetition ⟨item, mem_take_append_cons short, repeats⟩
      apply isTable.different entry _ entryRepeats
      rw [List.take_append_of_le_length (by simp)] at isNear
      exact List.take_subset _ _ isNear
    · simp at isEmpty

theorem page_dirty_isSome_iff :
    (page_dirty page_images boxes).isSome ↔
      ∀ box ∈ boxes, hasLeaders box = true → (pageIndex page_images box).isSome := by
  rw [page_dirty, Option.isSome_map, Fallible.mapM_isSome_iff]
  simp only [List.mem_filter, and_imp]

theorem page_dirty_of_no_leaders (none : boxes.any hasLeaders = false) :
    page_dirty page_images boxes = some [] := by
  have noBoxes : boxes.filter hasLeaders = [] := by
    rw [List.filter_eq_nil_iff]
    exact List.any_eq_false.mp none
  rw [page_dirty, noBoxes]
  simp

theorem not_reached_heading (reached : Reached (tables re_compile) boxes rest)
    (none : boxes.any isContentsBox = false) : rest.any isContentsBox = false := by
  induction reached with
  | here => exact none
  | keep _ _ ih =>
    rw [List.any_cons, Bool.or_eq_false_iff] at none
    exact ih none.2
  | table isTable _ _ =>
    rw [List.any_cons, Bool.or_eq_false_iff] at none
    exact absurd isTable.isHeading (Bool.eq_false_iff.mp none.1)

theorem removable_of_no_heading (none : boxes.any isContentsBox = false) :
    Removable (tables re_compile) boxes := by
  have noHeading (heading : Box) (rest : List Box)
      (reached : Reached (tables re_compile) boxes (heading :: rest))
      (isHeading : isContentsBox heading = true) : False := by
    have noneLeft := not_reached_heading reached none
    rw [List.any_cons, isHeading] at noneLeft
    exact Bool.noConfusion noneLeft
  exact ⟨fun heading _ reached isHeading => (noHeading heading _ reached isHeading).elim,
    fun heading _ _ _ reached isHeading => (noHeading heading _ reached isHeading).elim⟩

theorem FiltersPages.filterable (filters : FiltersPages re_compile page_images boxes) :
    Filterable re_compile page_images boxes := by
  obtain ⟨⟨kept, returns, -⟩, tight⟩ := filters
  have removable : Removable (tables re_compile) boxes := by
    cases headed : boxes.any isContentsBox with
    | true =>
      rw [filter_forpages, if_pos headed] at returns
      exact removable_of_isSome (Option.isSome_of_eq_some returns)
    | false => exact removable_of_no_heading headed
  refine ⟨removable, ?_, ?_⟩
  · intro heading blanks first rest reached isHeading blank isFirst
    have isContents : (tables re_compile).isContents heading = true := isHeading
    obtain ⟨entries, rest, rfl, isTable⟩ := exists_entries isContents blank isFirst rest
    exact (tight_iff isTable).mp (tight heading blanks first entries rest reached isTable)
  · intro none
    rw [filter_forpages, if_neg (by simp [none])] at returns
    apply page_dirty_isSome_iff.mp
    rw [← Option.isSome_map (f := fun dirty => boxes.filter _), returns]
    rfl

/-- The filter returns, keeps the order and stops at the first repetition of the first entry exactly
for boxes without a heading that only blank boxes follow, whose first entries are patterns that
match in time, and whose dot leaders are on loaded pages where there is no heading. -/
theorem filtersPages_iff (re_compile : String → Option (String → Bool)) (page_images : Nat)
    (boxes : List Box) :
    FiltersPages re_compile page_images boxes ↔ Filterable re_compile page_images boxes := by
  constructor
  · exact FiltersPages.filterable
  · rintro ⟨removable, inTime, loaded⟩
    constructor
    · cases headed : boxes.any isContentsBox with
      | true =>
        obtain ⟨kept, returns, stripped⟩ := exists_stripped removable
        refine ⟨kept, ?_, stripped.sublist, fun _ => stripped, by simp⟩
        rw [filter_forpages, if_pos headed, returns]
      | false =>
        obtain ⟨dirty, isDirty⟩ :=
          Option.isSome_iff_exists.mp (page_dirty_isSome_iff.mpr (loaded headed))
        have returns : filter_forpages re_compile page_images boxes = some (boxes.filter
            fun box => !dirty.any fun page => (page : Int) = box.page_number) := by
          rw [filter_forpages, if_neg (by simp [headed]), isDirty, Option.map_some]
        refine ⟨_, returns, List.filter_sublist, by simp, fun _ noLeaders => ?_⟩
        · rw [page_dirty_of_no_leaders noLeaders] at isDirty
          obtain rfl := Option.some.inj isDirty
          simp
    · intro heading blanks first entries rest reached isTable
      exact (tight_iff isTable).mpr (inTime heading blanks first (entries ++ rest) reached
        isTable.isHeading isTable.blank isTable.isFirst)

def plain (pattern : String) : Option (String → Bool) :=
  if pattern.toList.contains ')' then none else some (pattern.isPrefixOf ·)

/-- A heading with only a blank box behind it, and entries with numbers that a parenthesis
follows. -/
theorem not_filtersPages_plain :
    ¬ FiltersPages plain 1 [⟨"目录", 1⟩, ⟨" ", 1⟩] ∧
    ¬ FiltersPages plain 1 [⟨"目录", 1⟩, ⟨"1) 概述", 1⟩, ⟨"2) 范围", 1⟩, ⟨"1) 概述", 1⟩] := by
  have isHeading : (tables plain).isContents ⟨"目录", 1⟩ = true := by
    change isContentsBox _ = true
    unfold isContentsBox
    decide +kernel
  constructor
  · intro filters
    have blank : ∀ box ∈ [Box.mk " " 1], (tables plain).entryPrefix ⟨"目录", 1⟩ box = "" := by
      simp only [List.forall_mem_singleton, tables]
      unfold boxPrefix
      decide +kernel
    have removable := filters.filterable.removable
    exact absurd (removable.closed _ _ (.here _) isHeading blank) (by simp)
  · intro filters
    have filled : (tables plain).entryPrefix ⟨"目录", 1⟩ ⟨"1) 概述", 1⟩ = "1) " := by
      simp only [tables]
      unfold boxPrefix
      decide +kernel
    have removable := filters.filterable.removable
    have valid := removable.valid _ [] _ _ (.here _) isHeading (by simp)
      (by rw [filled]; decide) (List.cons_ne_nil _ _)
    rw [filled] at valid
    exact absurd valid (by decide +kernel)

end RagFlow.Pdf.ContentsPages
