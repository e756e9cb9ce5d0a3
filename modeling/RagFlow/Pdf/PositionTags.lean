import Mathlib.Algebra.Order.BigOperators.Group.List
import Mathlib.Data.List.TakeWhile
import RagFlow.Lib.Decimal
import RagFlow.Lib.Regex

/-!
# Position tags

`deepdoc/parser/pdf_parser.py`: a text box of a PDF gets a tag behind its text that says on which
pages it is and where.  Coordinates are rational; a page image has its height in pixels.
-/

namespace RagFlow.Pdf

open Lib

abbrev Text := List Char

structure Box where
  page_number : ℕ
  x0 : ℚ
  x1 : ℚ
  top : ℚ
  bottom : ℚ
  deriving DecidableEq

structure Parser where
  page_images : List ℕ
  page_cum_height : List ℚ

/-- What a tag says, the pages counted from zero. -/
structure Position where
  pages : List ℤ
  left : ℚ
  right : ℚ
  top : ℚ
  bottom : ℚ
  deriving DecidableEq

def str (number : ℕ) : Text := Nat.toDigits 10 number

def tenths (value : ℚ) : ℕ := roundHalfEven (|value| * 10).toNNRat

def format (value : ℚ) : Text :=
  (if value < 0 then ['-'] else []) ++ fixedDigits 1 (tenths value)

def rounded (value : ℚ) : ℚ := (if value < 0 then -1 else 1) * (tenths value / 10)

/-- `int` of digits; nothing where Python raises. -/
def int (text : Text) : Option ℕ :=
  if text ≠ [] ∧ text.all Char.isDigit then some (Nat.ofDigitChars 10 text 0) else none

/-- `float` of digits and points. -/
def float (text : Text) : Option ℚ :=
  let whole := text.takeWhile Char.isDigit
  match text.dropWhile Char.isDigit with
  | [] => if whole = [] then none else some (Nat.ofDigitChars 10 whole 0)
  | '.' :: fraction =>
    if whole ++ fraction ≠ [] ∧ fraction.all Char.isDigit then
      some (Nat.ofDigitChars 10 (whole ++ fraction) 0 / 10 ^ fraction.length)
    else none
  | _ => none

def walk (ZM : ℕ+) : List ℕ → ℕ → ℚ → Option (List ℕ × ℚ)
  | [], _, _ => none
  | height :: heights, pn, bott =>
    if bott * ZM > height then
      (walk ZM heights (pn + 1) (bott - height / ZM)).map fun (pages, last) => (pn :: pages, last)
    else some ([pn], bott)

/-- `page_images[pn - 1:]` -/
def Parser.imagesFrom (parser : Parser) (pn : ℕ) : List ℕ := parser.page_images.drop (pn - 1)

def Parser.pageTop (parser : Parser) (bx : Box) : Option ℚ :=
  parser.page_cum_height[bx.page_number - 1]?

def tag (pages : List ℕ) (x0 x1 top bott : ℚ) : Text :=
  "@@".toList ++ ['-'].intercalate (pages.map str) ++ '\t' :: format x0 ++ '\t' :: format x1 ++
    '\t' :: format top ++ '\t' :: format bott ++ "##".toList

def line_tag (parser : Parser) (ZM : ℕ+) (bx : Box) : Option Text :=
  (parser.pageTop bx).map fun pageTop =>
    match walk ZM (parser.imagesFrom bx.page_number) bx.page_number (bx.bottom - pageTop) with
    | none => []
    | some (pages, bott) => tag pages bx.x0 bx.x1 (bx.top - pageTop) bott

/-- The positions on the pages, from `pn` on. -/
def positionsFrom (ZM : ℕ+) (x0 x1 : ℚ) : List ℕ → ℕ → ℚ → ℚ → Option (List (ℕ × ℚ × ℚ × ℚ × ℚ))
  | [], _, _, _ => none
  | height :: heights, pn, top, bott =>
    let position := (pn, x0, x1, top, min bott (height / ZM))
    if bott * ZM > height then
      (positionsFrom ZM x0 x1 heights (pn + 1) 0 (bott - height / ZM)).map (position :: ·)
    else some [position]

def get_position (parser : Parser) (ZM : ℕ+) (bx : Box) : Option (List (ℕ × ℚ × ℚ × ℚ × ℚ)) :=
  (parser.pageTop bx).bind fun pageTop =>
    positionsFrom ZM bx.x0 bx.x1 (parser.imagesFrom bx.page_number) bx.page_number
      (bx.top - pageTop) (bx.bottom - pageTop)

open Regex

def isPageChar (char : Char) : Bool := char.isDigit || char = '-'

def isCoordinateChar (char : Char) : Bool := char.isDigit || char = '.' || char = '\t'

def isTagChar (char : Char) : Bool := isCoordinateChar char || char = '-'

def marked (regex : Regex) : Regex := seq (char (· = '@')) (seq (char (· = '@')) regex)

/-- `@@[0-9-]+\t[0-9.\t]+##` -/
def positionRegex : Regex :=
  marked (seq (plus (char isPageChar)) (seq (char (· = '\t'))
    (seq (plus (char isCoordinateChar)) (literal "##"))))

/-- `@@[\t0-9.-]+?##`; as no `#` is in the class, the shortest match is the only one. -/
def tagRegex : Regex := marked (seq (plus (char isTagChar)) (literal "##"))

/-- `@@([0-9-]+)\t` -/
def pagesRegex : Regex := marked (seq (plus (char isPageChar)) (char (· = '\t')))

def stripChar (stripped : Char) (text : Text) : Text :=
  ((text.dropWhile (· = stripped)).reverse.dropWhile (· = stripped)).reverse

def readTag (tag : Text) : Option Position :=
  match (stripChar '@' (stripChar '#' tag)).splitOn '\t' with
  | [pn, left, right, top, bottom] => do
    let left ← float left
    let right ← float right
    let top ← float top
    let bottom ← float bottom
    let pages ← (pn.splitOn '-').mapM int
    return ⟨pages.map fun p => (p : ℤ) - 1, left, right, top, bottom⟩
  | _ => none

def extract_positions (txt : Text) : Option (List Position) :=
  (positionRegex.findall txt).mapM readTag

def remove_tag (txt : Text) : Text := tagRegex.sub [] txt

/-- What `_replace` gives for a match. -/
def shiftPages (page_offset : ℤ) (found : Text) : Option Text := do
  -- the group is between `@@` and the tab
  let pages ← ((found.drop 2).dropLast.splitOn '-').mapM int
  return "@@".toList ++ ['-'].intercalate (pages.map fun p => str (p + page_offset.toNat)) ++ ['\t']

def offset_position_tag (text : Text) (page_offset : ℤ) : Option Text :=
  if text = [] ∨ page_offset ≤ 0 then some text
  else
    ((Scan.scan pagesRegex.matchAt 0 text).mapM
      (Sum.elim (fun symbol => some [symbol]) (shiftPages page_offset))).map List.flatten

def Parser.heightOf (parser : Parser) (ZM : ℕ+) (bx : Box) (pages : ℕ) : ℚ :=
  (((parser.imagesFrom bx.page_number).take pages).map fun height : ℕ => (height : ℚ) / ZM).sum

/-- The box is on loaded pages, the first of which begins there. -/
structure Parser.Loaded (parser : Parser) (ZM : ℕ+) (bx : Box) (pageTop : ℚ) : Prop where
  first : 1 ≤ bx.page_number ∧ bx.page_number ≤ parser.page_images.length
  starts : parser.pageTop bx = some pageTop
  ends : bx.bottom - pageTop ≤ parser.heightOf ZM bx (parser.imagesFrom bx.page_number).length

/-- The box goes over so many page ends. -/
structure Parser.Crosses (parser : Parser) (ZM : ℕ+) (bx : Box) (pageTop : ℚ) (ends : ℕ) :
    Prop where
  loaded : ends < (parser.imagesFrom bx.page_number).length
  inside : bx.bottom - pageTop ≤ parser.heightOf ZM bx (ends + 1)
  beyond : ∀ fewer < ends, parser.heightOf ZM bx (fewer + 1) < bx.bottom - pageTop

def Box.pages (bx : Box) (ends : ℕ) : List ℕ := List.range' bx.page_number (ends + 1)

/-- The tag of a box comes back as one position, is removed, and moves with its pages. -/
structure RoundTrips (parser : Parser) (ZM : ℕ+) (bx : Box) (pageTop : ℚ) (ends : ℕ)
    (written : Text) : Prop where
  extracted : ∀ text, positionRegex.findall text = [] →
    extract_positions (text ++ written) = some
      [{ pages := (bx.pages ends).map fun page => (page : ℤ) - 1
         left := rounded bx.x0
         right := rounded bx.x1
         top := rounded (bx.top - pageTop)
         bottom := rounded (bx.bottom - pageTop - parser.heightOf ZM bx ends) }]
  removed : ∀ text, tagRegex.findall text = [] → remove_tag (text ++ written) = text
  shifted : ∀ text, pagesRegex.findall text = [] → ∀ offset : ℕ,
    offset_position_tag (text ++ written) offset = some (text ++
      tag ((bx.pages ends).map (· + offset)) bx.x0 bx.x1 (bx.top - pageTop)
        (bx.bottom - pageTop - parser.heightOf ZM bx ends))
  pages : (get_position parser ZM bx).map (·.map Prod.fst) = some (bx.pages ends)

section Walking

variable {ZM : ℕ+}

def total (ZM : ℕ+) (heights : List ℕ) : ℚ := (heights.map fun height : ℕ => (height : ℚ) / ZM).sum

theorem total_cons (height : ℕ) (heights : List ℕ) :
    total ZM (height :: heights) = height / ZM + total ZM heights := by
  simp [total]

theorem walk_spec (x0 x1 : ℚ) {heights : List ℕ} (pn : ℕ) (top : ℚ) {bott : ℚ}
    (nonempty : heights ≠ []) (fits : bott ≤ total ZM heights) :
    ∃ ends < heights.length,
      walk ZM heights pn bott =
        some (List.range' pn (ends + 1), bott - total ZM (heights.take ends)) ∧
      (positionsFrom ZM x0 x1 heights pn top bott).map (·.map Prod.fst) =
        some (List.range' pn (ends + 1)) ∧
      bott ≤ total ZM (heights.take (ends + 1)) ∧
      ∀ fewer < ends, total ZM (heights.take (fewer + 1)) < bott := by
  have positive : (0 : ℚ) < ZM := by exact_mod_cast ZM.pos
  induction heights generalizing pn top bott with
  | nil => exact absurd rfl nonempty
  | cons height heights ih =>
    rw [total_cons] at fits
    by_cases goesOver : bott * ZM > height
    · have exceeds : (height : ℚ) / ZM < bott := (div_lt_iff₀ positive).mpr goesOver
      have others : heights ≠ [] := by
        rintro rfl
        simp only [total, List.map_nil, List.sum_nil] at fits
        linarith
      have fitsLater : bott - height / ZM ≤ total ZM heights := by linarith
      obtain ⟨ends, loaded, walked, positions, inside, beyond⟩ :=
        ih (pn + 1) 0 others fitsLater
      refine ⟨ends + 1, Nat.succ_lt_succ loaded, ?_, ?_, ?_, ?_⟩
      · rw [walk, if_pos goesOver, walked, List.take_succ_cons, total_cons]
        simp only [Option.map_some, List.range'_succ, Option.some.injEq, Prod.mk.injEq, true_and]
        ring
      · rw [positionsFrom, if_pos goesOver, Option.map_map]
        rw [Option.map_eq_some_iff] at positions ⊢
        obtain ⟨found, isFound, same⟩ := positions
        refine ⟨found, isFound, ?_⟩
        simp only [Function.comp_apply, List.map_cons, same]
        rw [List.range'_succ (n := ends + 1)]
      · rw [List.take_succ_cons, total_cons]
        linarith
      · intro fewer isFewer
        rw [List.take_succ_cons, total_cons]
        cases fewer with
        | zero => simpa [total] using exceeds
        | succ fewer =>
          have earlier := beyond fewer (Nat.lt_of_succ_lt_succ isFewer)
          linarith
    · refine ⟨0, Nat.succ_pos _, ?_, ?_, ?_, fun fewer isFewer => ?_⟩
      · simp [walk, goesOver, total]
      · simp [positionsFrom, goesOver]
      · have within : bott ≤ height / ZM := (le_div_iff₀ positive).mpr (not_lt.mp goesOver)
        simpa [total] using within
      · exact absurd isFewer (Nat.not_lt_zero _)

end Walking

theorem isDigit_of_mem_str {number : ℕ} {char : Char} (isMem : char ∈ str number) :
    char.isDigit = true := isDigit_of_mem_toDigits isMem

theorem str_ne_nil (number : ℕ) : str number ≠ [] := Nat.toDigits_ne_nil

theorem int_str (number : ℕ) : int (str number) = some number := by
  rw [int, if_pos ⟨str_ne_nil number, List.all_eq_true.mpr fun _ => isDigit_of_mem_str⟩, str,
    Nat.ofDigitChars_ten_toDigits]

theorem fixedDigits_one (scaled : ℕ) :
    fixedDigits 1 scaled = str (scaled / 10) ++ '.' :: str (scaled % 10) := by
  have single : Nat.toDigits 10 (scaled % 10) = [(scaled % 10).digitChar] :=
    Nat.toDigits_of_lt_base (Nat.mod_lt _ (by decide))
  simp [fixedDigits, str, single]

theorem ofDigitChars_tenths (scaled : ℕ) :
    Nat.ofDigitChars 10 (str (scaled / 10) ++ str (scaled % 10)) 0 = scaled := by
  have single : (str (scaled % 10)).length = 1 := by
    rw [str, Nat.toDigits_of_lt_base (Nat.mod_lt _ (by decide))]
    rfl
  rw [Nat.ofDigitChars_append, Nat.ofDigitChars_eq_ofDigitChars_zero, single, str, str,
    Nat.ofDigitChars_ten_toDigits, Nat.ofDigitChars_ten_toDigits]
  omega

theorem format_of_nonneg {value : ℚ} (nonneg : 0 ≤ value) :
    format value = str (tenths value / 10) ++ '.' :: str (tenths value % 10) := by
  rw [format, if_neg (not_lt.mpr nonneg), List.nil_append, fixedDigits_one]

theorem float_format {value : ℚ} (nonneg : 0 ≤ value) :
    float (format value) = some (rounded value) := by
  have whole : ∀ char ∈ str (tenths value / 10), char.isDigit = true :=
    fun _ => isDigit_of_mem_str
  have fraction : (str (tenths value % 10)).all Char.isDigit = true :=
    List.all_eq_true.mpr fun _ => isDigit_of_mem_str
  have single : (str (tenths value % 10)).length = 1 := by
    rw [str, Nat.toDigits_of_lt_base (Nat.mod_lt _ (by decide))]
    rfl
  have taken : (format value).takeWhile Char.isDigit = str (tenths value / 10) := by
    rw [format_of_nonneg nonneg, List.takeWhile_append_of_pos whole,
      List.takeWhile_cons_of_neg (by decide), List.append_nil]
  have dropped : (format value).dropWhile Char.isDigit = '.' :: str (tenths value % 10) := by
    rw [format_of_nonneg nonneg, List.dropWhile_append_of_pos whole]
    rfl
  simp only [float, taken, dropped]
  rw [if_pos ⟨by simp [str_ne_nil], fraction⟩, ofDigitChars_tenths, single, rounded,
    if_neg (not_lt.mpr nonneg)]
  norm_num

theorem isCoordinateChar_of_mem_format {value : ℚ} (nonneg : 0 ≤ value) {char : Char}
    (isMem : char ∈ format value) : isCoordinateChar char = true ∧ char ≠ '\t' := by
  have ofDigit (isDigit : char.isDigit = true) : isCoordinateChar char = true ∧ char ≠ '\t' := by
    refine ⟨by simp [isCoordinateChar, isDigit], ?_⟩
    rintro rfl
    exact absurd isDigit (by decide)
  rw [format_of_nonneg nonneg] at isMem
  rcases List.mem_append.mp isMem with whole | isMem
  · exact ofDigit (isDigit_of_mem_str whole)
  · rcases List.mem_cons.mp isMem with rfl | fraction
    · decide
    · exact ofDigit (isDigit_of_mem_str fraction)

theorem isTagChar_of_mem_format {value : ℚ} {char : Char} (isMem : char ∈ format value) :
    isTagChar char = true := by
  rw [format] at isMem
  rcases List.mem_append.mp isMem with sign | digits
  · split_ifs at sign
    · rw [List.mem_singleton.mp sign]
      decide
    · cases sign
  · rw [fixedDigits_one] at digits
    rcases List.mem_append.mp digits with whole | digits
    · simp [isTagChar, isCoordinateChar, isDigit_of_mem_str whole]
    · rcases List.mem_cons.mp digits with rfl | fraction
      · decide
      · simp [isTagChar, isCoordinateChar, isDigit_of_mem_str fraction]

def pageText (pages : List ℕ) : Text := ['-'].intercalate (pages.map str)

theorem isPageChar_of_mem_pageText {pages : List ℕ} {char : Char} (isMem : char ∈ pageText pages) :
    isPageChar char = true := by
  induction pages with
  | nil => cases isMem
  | cons page pages ih =>
    cases pages with
    | nil =>
      have isDigit : char ∈ str page := by simpa [pageText] using isMem
      simp [isPageChar, isDigit_of_mem_str isDigit]
    | cons other pages =>
      rw [pageText, List.map_cons, List.map_cons, List.intercalate_cons_cons, List.mem_append,
        List.mem_append] at isMem
      rcases isMem with (isDigit | isDash) | later
      · simp [isPageChar, isDigit_of_mem_str isDigit]
      · rw [List.mem_singleton.mp isDash]
        decide
      · exact ih later

theorem pageText_ne_nil {pages : List ℕ} (nonempty : pages ≠ []) : pageText pages ≠ [] := by
  obtain ⟨page, others, rfl⟩ := List.exists_cons_of_ne_nil nonempty
  have isNonempty := str_ne_nil page
  cases others with
  | nil => simpa [pageText] using isNonempty
  | cons other others => simp [pageText, List.intercalate_cons_cons, isNonempty]

theorem mapM_int_pageText {pages : List ℕ} (nonempty : pages ≠ []) :
    ((pageText pages).splitOn '-').mapM int = some pages := by
  have noDash (page : ℕ) : '-' ∉ str page := fun isMem => by
    have isDigit := isDigit_of_mem_str isMem
    exact absurd isDigit (by decide)
  induction pages with
  | nil => exact absurd rfl nonempty
  | cons page pages ih =>
    cases pages with
    | nil =>
      have whole : pageText [page] = str page := by simp [pageText]
      rw [whole, List.splitOn_eq_singleton (noDash page)]
      simp [int_str]
    | cons other pages =>
      have later := ih (List.cons_ne_nil _ _)
      have cut : pageText (page :: other :: pages) =
          str page ++ '-' :: pageText (other :: pages) := by
        simp [pageText, List.intercalate_cons_cons]
      rw [cut, List.splitOn_append_cons_self_of_not_mem (noDash page), List.mapM_cons, int_str,
        later]
      rfl

section Marks

variable {regex : Regex}

theorem remainders_marked (regex : Regex) (rest : Text) :
    (marked regex).remainders ('@' :: '@' :: rest) = regex.remainders rest := by
  simp [marked, remainders]

theorem remainders_marked_eq_nil {text : Text} (unmarked : ∀ rest, text ≠ '@' :: '@' :: rest) :
    (marked regex).remainders text = [] := by
  rcases text with _ | ⟨first, _ | ⟨second, rest⟩⟩
  · rfl
  · by_cases isMark : first = '@' <;> simp [marked, remainders, isMark]
  · by_cases isMark : first = '@'
    · have isOther : second ≠ '@' := by
        rintro rfl
        exact unmarked rest (isMark ▸ rfl)
      simp [marked, remainders, isMark, isOther]
    · simp [marked, remainders, isMark]

theorem consumes_marked : (marked regex).Consumes := (consumes_char _).seq _

theorem remainders_marked_append (stops : regex.Stops '@') (consumes : regex.Consumes)
    {inside : Text} (nonempty : inside ≠ []) (rest : Text) :
    (marked regex).remainders (inside ++ '@' :: '@' :: rest) =
      ((marked regex).remainders inside).map (· ++ '@' :: '@' :: rest) := by
  by_cases isMarked : ∃ behind, inside = '@' :: '@' :: behind
  · obtain ⟨behind, rfl⟩ := isMarked
    rw [List.cons_append, List.cons_append, remainders_marked, remainders_marked, stops]
  · rw [remainders_marked_eq_nil (not_exists.mp isMarked), List.map_nil]
    rcases inside with _ | ⟨first, _ | ⟨second, behind⟩⟩
    · exact absurd rfl nonempty
    · by_cases isMark : first = '@'
      · -- a mark before a tag is followed by the second mark of the tag
        subst isMark
        have nothing : regex.remainders [] = [] :=
          List.eq_nil_iff_forall_not_mem.mpr fun next isNext =>
            absurd (consumes.length_lt isNext) (Nat.not_lt_zero _)
        have stopped := stops [] rest
        rw [nothing, List.map_nil, List.nil_append] at stopped
        rw [List.cons_append, List.nil_append, remainders_marked, stopped]
      · exact remainders_marked_eq_nil fun behind same => isMark (List.head_eq_of_cons_eq same)
    · refine remainders_marked_eq_nil fun after same => isMarked ⟨behind, ?_⟩
      simp only [List.cons_append, List.cons.injEq] at same
      rw [same.1, same.2.1]

theorem scan_append_marked (stops : regex.Stops '@') (consumes : regex.Consumes)
    (text rest : Text) :
    Scan.scan (marked regex).matchAt 0 (text ++ '@' :: '@' :: rest) =
      Scan.scan (marked regex).matchAt 0 text ++
        Scan.scan (marked regex).matchAt 0 ('@' :: '@' :: rest) :=
  Scan.scan_append consumes_marked.reads fun _ nonempty _ =>
    matchAt_append_of_remainders (remainders_marked_append stops consumes nonempty rest)

theorem scan_of_not_mem {text : Text} (unmarked : '@' ∉ text) :
    Scan.scan (marked regex).matchAt 0 text = text.map .inl := by
  apply Scan.scan_of_unmatched
  intro inside _ isSuffix
  rw [matchAt_eq_none]
  refine remainders_marked_eq_nil fun rest same => unmarked (isSuffix.subset ?_)
  rw [same]
  exact List.mem_cons_self

theorem tokens_of_findall {text : Text} (nothing : (marked regex).findall text = []) :
    Scan.scan (marked regex).matchAt 0 text = text.map .inl := by
  have consumes : (marked regex).Consumes := consumes_marked
  have whole := consumes.reads.replace_scan text
  rw [findall] at nothing
  have allSymbols (tokens : List (Char ⊕ Text)) (none_found : Scan.found tokens = []) :
      tokens = (Scan.replace id tokens).map Sum.inl := by
    induction tokens with
    | nil => rfl
    | cons token tokens ih =>
      cases token with
      | inl symbol => exact congrArg (Sum.inl symbol :: ·) (ih none_found)
      | inr found => cases none_found
  exact (allSymbols _ nothing).trans (congrArg (List.map Sum.inl) whole)

end Marks

def coordinates (x0 x1 top bott : ℚ) : Text :=
  format x0 ++ '\t' :: (format x1 ++ '\t' :: (format top ++ '\t' :: format bott))

theorem tag_eq (pages : List ℕ) (x0 x1 top bott : ℚ) :
    tag pages x0 x1 top bott =
      '@' :: '@' :: (pageText pages ++ '\t' :: (coordinates x0 x1 top bott ++ "##".toList)) := by
  simp [tag, pageText, coordinates]

theorem stops_class {accepts : Char → Bool} (rejected : accepts '@' = false) :
    (plus (char accepts)).Stops '@' := (stops_char rejected).plus (consumes_char accepts)

theorem stops_position : (seq (plus (char isPageChar)) (seq (char (· = '\t'))
    (seq (plus (char isCoordinateChar)) (literal "##")))).Stops '@' :=
  (stops_class (by decide)).seq ((stops_char (by decide)).seq
    ((stops_class (by decide)).seq (stops_literal (by decide))))

theorem stops_tag : (seq (plus (char isTagChar)) (literal "##")).Stops '@' :=
  (stops_class (by decide)).seq (stops_literal (by decide))

theorem stops_pages : (seq (plus (char isPageChar)) (char (· = '\t'))).Stops '@' :=
  (stops_class (by decide)).seq (stops_char (by decide))

theorem consumes_class (accepts : Char → Bool) (next : Regex) :
    (seq (plus (char accepts)) next).Consumes := ((consumes_char accepts).seq _).seq _

section Matches

variable {pages : List ℕ} {x0 x1 top bott : ℚ}

theorem remainders_hashes : (literal "##").remainders "##".toList = [[]] := by decide

theorem remainders_hashes_eq_nil {symbol : Char} {rest : Text} (isOther : symbol ≠ '#') :
    (literal "##").remainders (symbol :: rest) = [] := by
  simp [literal, remainders, isOther]

theorem remainders_class_hashes {accepts : Char → Bool} (rejected : accepts '#' = false)
    {run : Text} (nonempty : run ≠ []) (accepted : ∀ char ∈ run, accepts char = true) :
    (seq (plus (char accepts)) (literal "##")).remainders (run ++ "##".toList) = [[]] := by
  rw [remainders_plus_char nonempty accepted, remainders_hashes]
  · intro char isHead
    obtain rfl : '#' = char := Option.some.inj isHead
    exact rejected
  · intro inside isInside isSuffix
    obtain ⟨symbol, behind, rfl⟩ := List.exists_cons_of_ne_nil isInside
    have isAccepted := accepted symbol (isSuffix.subset List.mem_cons_self)
    apply remainders_hashes_eq_nil
    rintro rfl
    rw [rejected] at isAccepted
    cases isAccepted

theorem remainders_pages (nonempty : pages ≠ []) (next : Regex) (rest : Text) :
    (seq (plus (char isPageChar)) (seq (char (· = '\t')) next)).remainders
      (pageText pages ++ '\t' :: rest) = next.remainders rest := by
  rw [remainders_plus_char (pageText_ne_nil nonempty) fun _ => isPageChar_of_mem_pageText]
  · simp [remainders]
  · intro char isHead
    obtain rfl : '\t' = char := Option.some.inj isHead
    decide
  · intro inside isInside isSuffix
    obtain ⟨symbol, behind, rfl⟩ := List.exists_cons_of_ne_nil isInside
    have isPage := isPageChar_of_mem_pageText (isSuffix.subset List.mem_cons_self)
    have isOther : symbol ≠ '\t' := by
      rintro rfl
      exact absurd isPage (by decide)
    simp [remainders, isOther]

theorem isTagChar_of_mem_coordinates {char : Char} (isMem : char ∈ coordinates x0 x1 top bott) :
    isTagChar char = true := by
  simp only [coordinates, List.mem_append, List.mem_cons] at isMem
  rcases isMem with isMem | rfl | isMem | rfl | isMem | rfl | isMem
  · exact isTagChar_of_mem_format isMem
  · decide
  · exact isTagChar_of_mem_format isMem
  · decide
  · exact isTagChar_of_mem_format isMem
  · decide
  · exact isTagChar_of_mem_format isMem

theorem scan_tag_whole :
    Scan.scan tagRegex.matchAt 0 (tag pages x0 x1 top bott) =
      [.inr (tag pages x0 x1 top bott)] := by
  have matched : tagRegex.matchAt (tag pages x0 x1 top bott ++ []) =
      some (tag pages x0 x1 top bott, (tag pages x0 x1 top bott).length) := by
    apply matchAt_of_remainders
    rw [List.append_nil, tag_eq, tagRegex, remainders_marked, ← List.cons_append,
      ← List.append_assoc]
    apply remainders_class_hashes (by decide) (by simp)
    intro char isMem
    rcases List.mem_append.mp isMem with isMem | isMem
    · have isPage := isPageChar_of_mem_pageText isMem
      simp only [isPageChar, Bool.or_eq_true] at isPage
      simp only [isTagChar, isCoordinateChar, Bool.or_eq_true]
      tauto
    · rcases List.mem_cons.mp isMem with rfl | isMem
      · decide
      · exact isTagChar_of_mem_coordinates isMem
  have scanned := Scan.scan_of_some matched rfl (by simp [tag_eq])
  simpa using scanned

theorem scan_pages (nonempty : pages ≠ []) :
    Scan.scan pagesRegex.matchAt 0 (tag pages x0 x1 top bott) =
      .inr ("@@".toList ++ pageText pages ++ ['\t']) ::
        (coordinates x0 x1 top bott ++ "##".toList).map .inl := by
  have cut : tag pages x0 x1 top bott = ("@@".toList ++ pageText pages ++ ['\t']) ++
      (coordinates x0 x1 top bott ++ "##".toList) := by
    simp [tag_eq]
  have matched : pagesRegex.matchAt (("@@".toList ++ pageText pages ++ ['\t']) ++
      (coordinates x0 x1 top bott ++ "##".toList)) =
      some ("@@".toList ++ pageText pages ++ ['\t'],
        ("@@".toList ++ pageText pages ++ ['\t']).length) := by
    apply matchAt_of_remainders
    have read := remainders_pages nonempty empty (coordinates x0 x1 top bott ++ "##".toList)
    rw [← cut, tag_eq, pagesRegex, remainders_marked]
    simpa [remainders] using read
  have unmarked : '@' ∉ coordinates x0 x1 top bott ++ "##".toList := by
    intro isMem
    rcases List.mem_append.mp isMem with isMem | isMem
    · exact absurd (isTagChar_of_mem_coordinates isMem) (by decide)
    · exact absurd isMem (by decide)
  rw [cut, Scan.scan_of_some matched rfl (by simp)]
  exact congrArg (Sum.inr _ :: ·) (scan_of_not_mem unmarked)

theorem isCoordinateChar_of_mem_coordinates (nonneg : 0 ≤ x0 ∧ 0 ≤ x1 ∧ 0 ≤ top ∧ 0 ≤ bott)
    {char : Char} (isMem : char ∈ coordinates x0 x1 top bott) : isCoordinateChar char = true := by
  simp only [coordinates, List.mem_append, List.mem_cons] at isMem
  rcases isMem with isMem | rfl | isMem | rfl | isMem | rfl | isMem
  · exact (isCoordinateChar_of_mem_format nonneg.1 isMem).1
  · decide
  · exact (isCoordinateChar_of_mem_format nonneg.2.1 isMem).1
  · decide
  · exact (isCoordinateChar_of_mem_format nonneg.2.2.1 isMem).1
  · decide
  · exact (isCoordinateChar_of_mem_format nonneg.2.2.2 isMem).1

theorem scan_position (nonempty : pages ≠ []) (nonneg : 0 ≤ x0 ∧ 0 ≤ x1 ∧ 0 ≤ top ∧ 0 ≤ bott) :
    Scan.scan positionRegex.matchAt 0 (tag pages x0 x1 top bott) =
      [.inr (tag pages x0 x1 top bott)] := by
  have matched : positionRegex.matchAt (tag pages x0 x1 top bott ++ []) =
      some (tag pages x0 x1 top bott, (tag pages x0 x1 top bott).length) := by
    apply matchAt_of_remainders
    rw [List.append_nil, tag_eq, positionRegex, remainders_marked, remainders_pages nonempty]
    exact remainders_class_hashes (by decide) (by simp [coordinates]) fun _ =>
      isCoordinateChar_of_mem_coordinates nonneg
  have scanned := Scan.scan_of_some matched rfl (by simp [tag_eq])
  simpa using scanned

theorem minus_mem_coordinates (negative : ¬ (0 ≤ x0 ∧ 0 ≤ x1 ∧ 0 ≤ top ∧ 0 ≤ bott)) :
    '-' ∈ coordinates x0 x1 top bott := by
  have sign {value : ℚ} (isNegative : ¬ 0 ≤ value) : '-' ∈ format value := by
    rw [format, if_pos (not_le.mp isNegative)]
    exact List.mem_append_left _ (List.mem_singleton_self _)
  simp only [coordinates, List.mem_append, List.mem_cons]
  by_cases first : 0 ≤ x0
  · by_cases second : 0 ≤ x1
    · by_cases third : 0 ≤ top
      · have fourth : ¬ 0 ≤ bott := fun fourth => negative ⟨first, second, third, fourth⟩
        simp [sign fourth]
      · simp [sign third]
    · simp [sign second]
  · simp [sign first]

/-- The expression of `extract_positions` has no sign in its coordinates. -/
theorem scan_position_of_negative (nonempty : pages ≠ [])
    (negative : ¬ (0 ≤ x0 ∧ 0 ≤ x1 ∧ 0 ≤ top ∧ 0 ≤ bott)) :
    Scan.found (Scan.scan positionRegex.matchAt 0 (tag pages x0 x1 top bott)) = [] := by
  have stuck : (seq (plus (char isCoordinateChar)) (literal "##")).remainders
      (coordinates x0 x1 top bott ++ "##".toList) = [] := by
    have dropped : (coordinates x0 x1 top bott).dropWhile isCoordinateChar ≠ [] := by
      intro isEmpty
      have isCoordinate := List.dropWhile_eq_nil_iff.mp isEmpty '-' (minus_mem_coordinates negative)
      exact absurd isCoordinate (by decide)
    obtain ⟨symbol, behind, isDropped⟩ := List.exists_cons_of_ne_nil dropped
    have isRejected : isCoordinateChar symbol = false := by
      have head := List.head_dropWhile_not isCoordinateChar dropped
      simpa [isDropped] using head
    have isOther : symbol ≠ '#' := by
      have isMem : symbol ∈ coordinates x0 x1 top bott := by
        apply (List.dropWhile_suffix isCoordinateChar).subset
        rw [isDropped]
        exact List.mem_cons_self
      rintro rfl
      exact absurd (isTagChar_of_mem_coordinates isMem) (by decide)
    rw [← List.takeWhile_append_dropWhile (p := isCoordinateChar) (l := coordinates x0 x1 top bott),
      List.append_assoc, isDropped]
    apply remainders_plus_char_eq_nil
    · intro char isMem
      exact List.mem_takeWhile_imp isMem
    · intro char isHead
      obtain rfl : symbol = char := Option.some.inj isHead
      exact isRejected
    · intro inside isSuffix
      cases inside with
      | nil => exact remainders_hashes_eq_nil isOther
      | cons first inside =>
        have isFirst := List.mem_takeWhile_imp (isSuffix.subset List.mem_cons_self)
        apply remainders_hashes_eq_nil
        rintro rfl
        exact absurd isFirst (by decide)
  have unmarked : '@' ∉ pageText pages ++ '\t' :: (coordinates x0 x1 top bott ++ "##".toList) := by
    intro isMem
    simp only [List.mem_append, List.mem_cons] at isMem
    rcases isMem with isMem | isMem | isMem | isMem
    · exact absurd (isPageChar_of_mem_pageText isMem) (by decide)
    · exact absurd isMem (by decide)
    · exact absurd (isTagChar_of_mem_coordinates isMem) (by decide)
    · exact absurd isMem (by decide)
  have missed : positionRegex.matchAt (tag pages x0 x1 top bott) = none := by
    rw [matchAt_eq_none, tag_eq, positionRegex, remainders_marked, remainders_pages nonempty, stuck]
  rw [tag_eq] at missed ⊢
  rw [Scan.scan_of_none missed, Scan.found_inl]
  have missedSecond : positionRegex.matchAt
      ('@' :: (pageText pages ++ '\t' :: (coordinates x0 x1 top bott ++ "##".toList))) = none := by
    rw [matchAt_eq_none]
    refine remainders_marked_eq_nil fun rest same => unmarked ?_
    rw [List.tail_eq_of_cons_eq same]
    exact List.mem_cons_self
  rw [Scan.scan_of_none missedSecond, Scan.found_inl, positionRegex, scan_of_not_mem unmarked,
    Scan.found, List.filterMap_map]
  exact List.filterMap_eq_nil_iff.mpr fun _ _ => rfl

theorem dropWhile_of_forall_ne {stripped : Char} {text : Text}
    (others : ∀ char ∈ text, char ≠ stripped) :
    text.dropWhile (· = stripped) = text := by
  cases text with
  | nil => rfl
  | cons symbol rest =>
    exact List.dropWhile_cons_of_neg (by simpa using others symbol List.mem_cons_self)

theorem stripChar_append {stripped : Char} {before body behind : Text}
    (allBefore : ∀ char ∈ before, char = stripped) (others : ∀ char ∈ body, char ≠ stripped)
    (allBehind : ∀ char ∈ behind, char = stripped) :
    stripChar stripped (before ++ (body ++ behind)) = body := by
  rw [stripChar, List.dropWhile_append_of_pos (by simpa using allBefore)]
  cases body with
  | nil =>
    have dropped : behind.dropWhile (· = stripped) = [] :=
      List.dropWhile_eq_nil_iff.mpr (by simpa using allBehind)
    rw [List.nil_append, dropped]
    rfl
  | cons symbol body =>
    have isOther := others symbol List.mem_cons_self
    rw [List.cons_append, List.dropWhile_cons_of_neg (by simpa using isOther),
      ← List.cons_append, List.reverse_append,
      List.dropWhile_append_of_pos (by simpa using allBehind),
      dropWhile_of_forall_ne fun char isMem => others char (List.mem_reverse.mp isMem),
      List.reverse_reverse]

theorem readTag_tag (nonempty : pages ≠ []) (nonneg : 0 ≤ x0 ∧ 0 ≤ x1 ∧ 0 ≤ top ∧ 0 ≤ bott) :
    readTag (tag pages x0 x1 top bott) = some
      { pages := pages.map fun page => (page : ℤ) - 1
        left := rounded x0
        right := rounded x1
        top := rounded top
        bottom := rounded bott } := by
  have others {other : Char} (notPage : isPageChar other = false)
      (notTag : isTagChar other = false) :
      ∀ char ∈ pageText pages ++ '\t' :: coordinates x0 x1 top bott, char ≠ other := by
    rintro char isMem rfl
    rcases List.mem_append.mp isMem with isMem | isMem
    · exact absurd (isPageChar_of_mem_pageText isMem) (by simp [notPage])
    · rcases List.mem_cons.mp isMem with rfl | isMem
      · exact absurd notTag (by decide)
      · exact absurd (isTagChar_of_mem_coordinates isMem) (by simp [notTag])
  have hashes : stripChar '#' (tag pages x0 x1 top bott) =
      "@@".toList ++ (pageText pages ++ '\t' :: coordinates x0 x1 top bott) := by
    have cut : tag pages x0 x1 top bott = [] ++
        (("@@".toList ++ (pageText pages ++ '\t' :: coordinates x0 x1 top bott)) ++
          "##".toList) := by
      simp [tag_eq]
    rw [cut, stripChar_append (by simp) _ (by simp)]
    intro char isMem
    rcases List.mem_append.mp isMem with isMark | isMem
    · have isAt : char = '@' := by simpa using isMark
      rw [isAt]
      decide
    · exact others (by decide) (by decide) char isMem
  have marks : stripChar '@' (stripChar '#' (tag pages x0 x1 top bott)) =
      pageText pages ++ '\t' :: coordinates x0 x1 top bott := by
    have allMarks : ∀ char ∈ "@@".toList, char = '@' := by simp
    have stripped := stripChar_append allMarks (others (by decide) (by decide))
      (List.forall_mem_nil _)
    rwa [List.append_nil, ← hashes] at stripped
  have noTab {value : ℚ} (isNonneg : 0 ≤ value) : '\t' ∉ format value := fun isMem =>
    (isCoordinateChar_of_mem_format isNonneg isMem).2 rfl
  have noTabPages : '\t' ∉ pageText pages := fun isMem =>
    absurd (isPageChar_of_mem_pageText isMem) (by decide)
  obtain ⟨first, second, third, fourth⟩ := nonneg
  rw [readTag, marks, coordinates, List.splitOn_append_cons_self_of_not_mem noTabPages,
    List.splitOn_append_cons_self_of_not_mem (noTab first),
    List.splitOn_append_cons_self_of_not_mem (noTab second),
    List.splitOn_append_cons_self_of_not_mem (noTab third),
    List.splitOn_eq_singleton (noTab fourth)]
  simp [float_format, first, second, third, fourth, mapM_int_pageText nonempty]

end Matches

variable {parser : Parser} {ZM : ℕ+} {bx : Box} {pageTop : ℚ} {ends : ℕ}

theorem pages_ne_nil (bx : Box) (ends : ℕ) : bx.pages ends ≠ [] := by
  simp [Box.pages, List.range'_succ]

theorem extract_positions_append (text : Text) {pages : List ℕ} {x0 x1 top bott : ℚ}
    (nothing : positionRegex.findall text = []) :
    extract_positions (text ++ tag pages x0 x1 top bott) =
      (Scan.found (Scan.scan positionRegex.matchAt 0 (tag pages x0 x1 top bott))).mapM readTag := by
  rw [findall] at nothing
  rw [extract_positions, findall, tag_eq, positionRegex,
    scan_append_marked stops_position (consumes_class _ _), ← positionRegex, Scan.found_append,
    nothing, List.nil_append]

theorem remove_tag_append (text : Text) {pages : List ℕ} {x0 x1 top bott : ℚ}
    (nothing : tagRegex.findall text = []) :
    remove_tag (text ++ tag pages x0 x1 top bott) = text := by
  have kept := tokens_of_findall nothing
  rw [remove_tag, sub, tag_eq, tagRegex, scan_append_marked stops_tag (consumes_class _ _),
    ← tagRegex, ← tag_eq, scan_tag_whole, tagRegex, kept]
  simp [Scan.replace, List.flatMap_map]

theorem offset_position_tag_append (text : Text) {pages : List ℕ} (nonempty : pages ≠ [])
    {x0 x1 top bott : ℚ} (nothing : pagesRegex.findall text = []) (offset : ℕ) :
    offset_position_tag (text ++ tag pages x0 x1 top bott) offset =
      some (text ++ tag (pages.map (· + offset)) x0 x1 top bott) := by
  rcases Nat.eq_zero_or_pos offset with rfl | positive
  · simp [offset_position_tag]
  · have kept := tokens_of_findall nothing
    have isWritten : ¬ (text ++ tag pages x0 x1 top bott = [] ∨ (offset : ℤ) ≤ 0) := by
      simp only [not_or, not_le]
      exact ⟨by simp [tag_eq], by exact_mod_cast positive⟩
    have symbols (symbols : Text) :
        (symbols.map Sum.inl).mapM (Sum.elim (fun symbol => some [symbol]) (shiftPages offset)) =
          some (symbols.map fun symbol => [symbol]) := by
      induction symbols with
      | nil => rfl
      | cons symbol symbols ih =>
        rw [List.map_cons, List.mapM_cons, ih]
        rfl
    have shifted : shiftPages offset ("@@".toList ++ pageText pages ++ ['\t']) =
        some ("@@".toList ++ pageText (pages.map (· + offset)) ++ ['\t']) := by
      have group : (("@@".toList ++ pageText pages ++ ['\t']).drop 2).dropLast =
          pageText pages := by
        simp
      rw [shiftPages, group, mapM_int_pageText nonempty]
      simp [pageText, Function.comp_def]
    rw [offset_position_tag, if_neg isWritten, tag_eq, pagesRegex,
      scan_append_marked stops_pages (consumes_class _ _), ← pagesRegex, ← tag_eq,
      scan_pages nonempty, pagesRegex, kept, List.mapM_append, symbols, List.mapM_cons,
      Sum.elim_inr, shifted, symbols]
    have whole (symbols : Text) : (symbols.map fun symbol => [symbol]).flatten = symbols := by
      rw [← List.flatMap_def, List.flatMap_singleton']
    simp [tag_eq, whole]

theorem Parser.Crosses.bottom_iff (crosses : parser.Crosses ZM bx pageTop ends) :
    0 ≤ bx.bottom - pageTop - parser.heightOf ZM bx ends ↔ pageTop ≤ bx.bottom := by
  cases ends with
  | zero => simp [Parser.heightOf]
  | succ fewer =>
    have beyond := crosses.beyond fewer (Nat.lt_succ_self fewer)
    have nonneg : 0 ≤ parser.heightOf ZM bx (fewer + 1) := by
      apply List.sum_nonneg
      intro height isMem
      obtain ⟨pixels, -, rfl⟩ := List.mem_map.mp isMem
      positivity
    exact iff_of_true (by linarith) (by linarith)

theorem line_tag_of_loaded (loaded : parser.Loaded ZM bx pageTop) :
    ∃ ends, parser.Crosses ZM bx pageTop ends ∧
      line_tag parser ZM bx = some (tag (bx.pages ends) bx.x0 bx.x1 (bx.top - pageTop)
        (bx.bottom - pageTop - parser.heightOf ZM bx ends)) ∧
      (get_position parser ZM bx).map (·.map Prod.fst) = some (bx.pages ends) := by
  have nonempty : parser.imagesFrom bx.page_number ≠ [] := by
    have first := loaded.first
    rw [Parser.imagesFrom, ← List.length_pos_iff, List.length_drop]
    omega
  have fits : bx.bottom - pageTop ≤ total ZM (parser.imagesFrom bx.page_number) := by
    simpa [Parser.heightOf, total] using loaded.ends
  obtain ⟨ends, isLoaded, walked, positions, inside, beyond⟩ :=
    walk_spec bx.x0 bx.x1 bx.page_number (bx.top - pageTop) nonempty fits
  refine ⟨ends, ⟨isLoaded, inside, beyond⟩, ?_, ?_⟩
  · rw [line_tag, loaded.starts, Option.map_some, walked]
    rfl
  · rw [get_position, loaded.starts, Option.bind_some, positions]
    rfl

/-- Whether the tag of a box on loaded pages comes back: exactly where no coordinate on it has a
sign. -/
theorem roundTrips_iff (loaded : parser.Loaded ZM bx pageTop) :
    ∃ ends written, parser.Crosses ZM bx pageTop ends ∧ line_tag parser ZM bx = some written ∧
      (RoundTrips parser ZM bx pageTop ends written ↔
        0 ≤ bx.x0 ∧ 0 ≤ bx.x1 ∧ pageTop ≤ bx.top ∧ pageTop ≤ bx.bottom) := by
  obtain ⟨ends, crosses, written, positions⟩ := line_tag_of_loaded loaded
  refine ⟨ends, _, crosses, written, ?_⟩
  rw [← crosses.bottom_iff, ← sub_nonneg (a := bx.top)]
  constructor
  · intro roundTrips
    by_contra negative
    have extracted := roundTrips.extracted [] rfl
    rw [extract_positions_append [] rfl, scan_position_of_negative (pages_ne_nil bx ends) negative]
      at extracted
    cases extracted
  · intro nonneg
    refine ⟨fun text nothing => ?_, fun text => remove_tag_append text, fun text nothing offset =>
      offset_position_tag_append text (pages_ne_nil bx ends) nothing offset, positions⟩
    rw [extract_positions_append text nothing, scan_position (pages_ne_nil bx ends) nonneg,
      Scan.found_inr, Scan.found_nil, List.mapM_cons, readTag_tag (pages_ne_nil bx ends) nonneg]
    rfl

def twoPages : Parser := ⟨[300, 300], [0, 100, 200]⟩

def acrossPages : Box := ⟨1, 10, 200, 1 / 3, 120⟩

theorem loaded_acrossPages : twoPages.Loaded 3 acrossPages 0 where
  first := by decide
  starts := rfl
  ends := by norm_num [acrossPages, twoPages, Parser.heightOf, Parser.imagesFrom]

theorem roundTrips_acrossPages :
    ∃ ends written, twoPages.Crosses 3 acrossPages 0 ends ∧
      line_tag twoPages 3 acrossPages = some written ∧
      (RoundTrips twoPages 3 acrossPages 0 ends written ↔
        0 ≤ acrossPages.x0 ∧ 0 ≤ acrossPages.x1 ∧ 0 ≤ acrossPages.top ∧ 0 ≤ acrossPages.bottom) :=
  roundTrips_iff loaded_acrossPages

def bleeding : Box := ⟨1, -1 / 2, 200, 1 / 3, 50⟩

theorem not_roundTrips_bleeding :
    twoPages.Loaded 3 bleeding 0 ∧ ∀ ends written, line_tag twoPages 3 bleeding = some written →
      ¬ RoundTrips twoPages 3 bleeding 0 ends written := by
  refine ⟨⟨by decide, rfl, ?_⟩, fun ends written isTag roundTrips => ?_⟩
  · norm_num [bleeding, twoPages, Parser.heightOf, Parser.imagesFrom]
  · have walked : walk 3 [300, 300] 1 50 = some ([1], 50) := by norm_num [walk]
    have isWritten : line_tag twoPages 3 bleeding = some (tag [1] (-1 / 2) 200 (1 / 3) 50) := by
      norm_num [line_tag, bleeding, twoPages, Parser.pageTop, Parser.imagesFrom, walked]
    obtain rfl := Option.some.inj (isTag.symm.trans isWritten)
    have extracted := roundTrips.extracted [] rfl
    rw [extract_positions_append [] rfl,
      scan_position_of_negative (by simp) (by norm_num)] at extracted
    cases extracted

end RagFlow.Pdf
