import Mathlib.Data.List.MinMax
import RagFlow.Lib.Fallible
import RagFlow.Lib.Paging
import RagFlow.Pdf.PositionTags

/-!
# Documents read in windows of pages

`parse_into_bboxes` loads the pages that are asked for, all at once or so many at a time.  The
layout of a window counts its pages from one, its tables and figures say the page of the document.
-/

namespace RagFlow.Pdf

open Lib Lib.Paging Lib.Fallible

/-- Where a table or figure is, the pages of the document counted from zero. -/
structure Place where
  pn : ℕ
  left : ℚ
  right : ℚ
  top : ℚ
  bott : ℚ

structure Window (Content : Type) where
  parser : Parser
  boxes : List (Content × Box)
  tbls : List (Content × List Place)
  figs : List (Content × List Place)

structure Bbox (Content : Type) extends Box where
  content : Content
  position_tag : Option Text
  positions : List (ℤ × ℚ × ℚ × ℚ × ℚ)

section Parsing

variable {Content : Type}

/-- `min_rectangle_distance`, squared: the nearest is the same. -/
def min_rectangle_distance (rect1 rect2 : Box) : ℚ :=
  if rect2.x0 ≤ rect1.x1 ∧ rect1.x0 ≤ rect2.x1 ∧ rect2.top ≤ rect1.bottom ∧
      rect1.top ≤ rect2.bottom then
    0
  else
    let dx :=
      if rect1.x1 < rect2.x0 then rect2.x0 - rect1.x1
      else if rect2.x1 < rect1.x0 then rect1.x0 - rect2.x1
      else 0
    let dy :=
      if rect1.bottom < rect2.top then rect2.top - rect1.bottom
      else if rect2.bottom < rect1.top then rect1.top - rect2.bottom
      else 0
    dx * dx + dy * dy

def Parser.Shows (parser : Parser) (page_from : ℕ) (place : Place) : Prop :=
  page_from ≤ place.pn ∧ place.pn - page_from < parser.page_cum_height.length - 1

instance (parser : Parser) (page_from : ℕ) (place : Place) :
    Decidable (parser.Shows page_from place) :=
  inferInstanceAs (Decidable (_ ∧ _))

def Parser.local_pn (parser : Parser) (page_from : ℕ) (place : Place) : Option Place :=
  if parser.Shows page_from place then some { place with pn := place.pn - page_from } else none

def Parser.onPages (parser : Parser) (place : Place) : Box where
  page_number := place.pn + 1
  x0 := place.left
  x1 := place.right
  top := place.top + parser.page_cum_height.getD place.pn 0
  bottom := place.bott + parser.page_cum_height.getD place.pn 0

def insert_at (parser : Parser) (boxes : List (Bbox Content)) (local_poss : List Place)
    (place : Place) : ℕ :=
  let dists := boxes.zipIdx.flatMap fun (box, i) => local_poss.map fun candidate =>
    (min_rectangle_distance (parser.onPages candidate) box.toBox, box, i)
  match dists.argmin Prod.fst with
  | none => boxes.length
  | some (_, box, i) => if box.bottom < (parser.onPages place).top then i + 1 else i

def truncated (value : ℚ) : ℚ := if value < 0 then -⌊-value⌋ else ⌊value⌋

def insert_table_figure (page_from : ℕ) (parser : Parser) (boxes : List (Bbox Content))
    (found : Content × List Place) : List (Bbox Content) :=
  match found.2.filterMap (parser.local_pn page_from) with
  | [] => boxes
  | place :: places =>
    let i := insert_at parser boxes (place :: places) place
    boxes.take i ++
      { parser.onPages place with
        content := found.1
        position_tag := none
        positions := [(place.pn + 1, truncated place.left, truncated place.right,
          truncated place.top, truncated place.bott)] } :: boxes.drop i

def insert_table_figures (page_from : ℕ) (parser : Parser) (boxes : List (Bbox Content))
    (tbls_or_figs : List (Content × List Place)) : List (Bbox Content) :=
  tbls_or_figs.foldl (insert_table_figure page_from parser) boxes

def textBbox (ZM : ℕ+) (parser : Parser) (found : Content × Box) : Option (Bbox Content) := do
  let position_tag ← line_tag parser ZM found.2
  let extracted ← extract_positions position_tag
  let positions ← extracted.mapM fun pos => pos.pages.getLast?.map fun last =>
    (last + 1, pos.left, pos.right, pos.top, pos.bottom)
  return { found.2 with content := found.1, position_tag := some position_tag, positions }

def parse_loaded_window (ZM : ℕ+) (page_from : ℕ) (window : Window Content) :
    Option (List (Bbox Content)) := do
  let boxes ← window.boxes.mapM (textBbox ZM window.parser)
  let boxes := insert_table_figures page_from window.parser boxes window.tbls
  return insert_table_figures page_from window.parser boxes window.figs

def globalBox (page_from : ℕ) (box : Bbox Content) : Option (Bbox Content) := do
  let position_tag ← match box.position_tag with
    | none => some none
    | some text => (offset_position_tag text page_from).map some
  return { box with
    page_number := box.page_number + page_from
    position_tag
    positions := box.positions.map fun pos => (pos.1 + page_from, pos.2) }

def to_global_boxes (page_from : ℕ) (boxes : List (Bbox Content)) : Option (List (Bbox Content)) :=
  if page_from = 0 then some boxes else boxes.mapM (globalBox page_from)

structure Request (Content : Type) where
  /-- `PDF_PARSER_PAGE_BATCH_SIZE` -/
  configured : ℤ
  ZM : ℕ+
  from_page : ℕ
  to_page : ℕ
  total_pages : Option ℕ
  layout : ℕ → ℕ → Window Content

def Request.batch_size (request : Request Content) : ℕ := (max 1 request.configured).toNat

def Request.effective_to_page (request : Request Content) : ℕ :=
  match request.total_pages with
  | none => request.to_page
  | some total_pages => min request.to_page total_pages

def Request.SingleWindow (request : Request Content) : Prop :=
  request.effective_to_page - request.from_page ≤ request.batch_size

instance (request : Request Content) : Decidable request.SingleWindow := Nat.decLe _ _

def Request.windows (request : Request Content) : List (ℕ × ℕ) :=
  if request.SingleWindow then [(request.from_page, request.effective_to_page)]
  else cuts request.batch_size request.from_page request.effective_to_page

def Request.parse_window (request : Request Content) (pages : ℕ × ℕ) :
    Option (List (Bbox Content)) :=
  parse_loaded_window request.ZM pages.1 (request.layout pages.1 pages.2)

def parse_into_bboxes (request : Request Content) : Option (List (Bbox Content)) :=
  if request.SingleWindow then
    request.parse_window (request.from_page, request.effective_to_page)
  else do
    let all_boxes ← request.windows.mapM fun pages => do
      let chunk_boxes ← request.parse_window pages
      to_global_boxes pages.1 chunk_boxes
    return all_boxes.flatten

/-- The pages a box reports, with so many before them, are those its content lies on. -/
structure Denotes (lies : Content → List ℕ) (before : ℕ) (box : Bbox Content) : Prop where
  numbered : (lies box.content).head? = some (box.page_number + before)
  tagged : ∀ text, box.position_tag = some text → text = [] ∨ ∃ pages x0 x1 top bott,
    text = tag pages x0 x1 top bott ∧ lies box.content = pages.map (· + before)
  positioned : ∀ position ∈ box.positions, ∃ page ∈ lies box.content, position.1 + before = page

/-- The layout of a window is right about the pages of the document, counted from one. -/
structure LaidOut (ZM : ℕ+) (lies : Content → List ℕ) (page_from : ℕ) (window : Window Content) :
    Prop where
  loaded : window.parser.page_cum_height.length = window.parser.page_images.length + 1
  onPages : ∀ found ∈ window.boxes,
    1 ≤ found.2.page_number ∧ found.2.page_number ≤ window.parser.page_images.length
  starts : ∀ found ∈ window.boxes, (lies found.1).head? = some (found.2.page_number + page_from)
  crosses : ∀ found ∈ window.boxes, ∀ pageTop ends, window.parser.pageTop found.2 = some pageTop →
    window.parser.Crosses ZM found.2 pageTop ends →
    lies found.1 = (found.2.pages ends).map (· + page_from)
  placed : ∀ found ∈ window.tbls ++ window.figs,
    lies found.1 = (found.2.filter (window.parser.Shows page_from ·)).map (·.pn + 1)

/-- Nothing was found on the pages of the window. -/
structure Window.Blank (page_from : ℕ) (window : Window Content) : Prop where
  boxes : window.boxes = []
  tbls : ∀ found ∈ window.tbls, ∀ place ∈ found.2, ¬ window.parser.Shows page_from place
  figs : ∀ found ∈ window.figs, ∀ place ∈ found.2, ¬ window.parser.Shows page_from place

/-- Each page of the range is loaded once and no other, and what is returned reports the pages of
the document. -/
structure ReportsPages (lies : Content → List ℕ) (request : Request Content) : Prop where
  loaded : ∀ page, request.windows.countP (Within · page) =
    if Within (request.from_page, request.effective_to_page) page then 1 else 0
  reported : ∃ boxes, parse_into_bboxes request = some boxes ∧ ∀ box ∈ boxes, Denotes lies 0 box

variable {lies : Content → List ℕ} {page_from : ℕ} {parser : Parser} {ZM : ℕ+}

theorem walk_of_beyond {heights : List ℕ} (pn : ℕ) {bott : ℚ} (beyond : total ZM heights < bott) :
    walk ZM heights pn bott = none := by
  induction heights generalizing pn bott with
  | nil => rfl
  | cons height heights ih =>
    have positive : (0 : ℚ) < ZM := by exact_mod_cast ZM.pos
    rw [total_cons] at beyond
    have later : 0 ≤ total ZM heights := by
      apply List.sum_nonneg
      intro height isMem
      obtain ⟨pixels, -, rfl⟩ := List.mem_map.mp isMem
      positivity
    have goesOver : bott * ZM > height := (div_lt_iff₀ positive).mp (by linarith)
    rw [walk, if_pos goesOver, ih (pn + 1) (by linarith)]
    rfl

theorem line_tag_cases {bx : Box} (isPage : 1 ≤ bx.page_number)
    (isLoaded : bx.page_number ≤ parser.page_images.length) {pageTop : ℚ}
    (starts : parser.pageTop bx = some pageTop) :
    line_tag parser ZM bx = some [] ∨ ∃ ends top bott, parser.Crosses ZM bx pageTop ends ∧
      line_tag parser ZM bx = some (tag (bx.pages ends) bx.x0 bx.x1 top bott) := by
  by_cases fits : bx.bottom - pageTop ≤ total ZM (parser.imagesFrom bx.page_number)
  · right
    have ends : bx.bottom - pageTop ≤
        parser.heightOf ZM bx (parser.imagesFrom bx.page_number).length := by
      simpa [Parser.heightOf, total] using fits
    have loaded : parser.Loaded ZM bx pageTop := ⟨⟨isPage, isLoaded⟩, starts, ends⟩
    obtain ⟨ends, crosses, written, -⟩ := line_tag_of_loaded loaded
    exact ⟨ends, _, _, crosses, written⟩
  · left
    rw [line_tag, starts, Option.map_some, walk_of_beyond _ (not_le.mp fits)]

theorem extract_positions_tag {pages : List ℕ} (nonempty : pages ≠ []) (x0 x1 top bott : ℚ) :
    ∃ extracted, extract_positions (tag pages x0 x1 top bott) = some extracted ∧
      ∀ position ∈ extracted, position.pages = pages.map fun page : ℕ => (page : ℤ) - 1 := by
  rw [← List.nil_append (tag pages x0 x1 top bott), extract_positions_append [] rfl]
  by_cases nonneg : 0 ≤ x0 ∧ 0 ≤ x1 ∧ 0 ≤ top ∧ 0 ≤ bott
  · rw [scan_position nonempty nonneg, Scan.found_inr, Scan.found_nil, List.mapM_cons,
      readTag_tag nonempty nonneg]
    refine ⟨_, rfl, fun position isMem => ?_⟩
    rw [List.mem_singleton.mp isMem]
    simp only [List.bind_eq_flatMap, List.pure_def, List.map_flatMap, List.map_cons, List.map_nil]
    exact List.map_eq_flatMap.symm
  · rw [scan_position_of_negative nonempty nonneg]
    exact ⟨[], rfl, fun _ isMem => absurd isMem (List.not_mem_nil)⟩

theorem textBbox_spec {window : Window Content} (laidOut : LaidOut ZM lies page_from window)
    {found : Content × Box} (isFound : found ∈ window.boxes) :
    ∃ box, textBbox ZM window.parser found = some box ∧ Denotes lies page_from box := by
  obtain ⟨isPage, isLoaded⟩ := laidOut.onPages found isFound
  have before : found.2.page_number - 1 < window.parser.page_cum_height.length := by
    rw [laidOut.loaded]
    omega
  have starts := List.getElem?_eq_getElem before
  have head := laidOut.starts found isFound
  have tagged := @line_tag_cases window.parser ZM found.2 isPage isLoaded _ starts
  rcases tagged with written | ⟨ends, top, bott, crosses, written⟩
  · refine ⟨{ found.2 with content := found.1, position_tag := some [], positions := [] }, ?_,
      ⟨head, fun text isTag => .inl (Option.some.inj isTag).symm, ?_⟩⟩
    · simp only [textBbox, written]
      rfl
    · exact fun position isMem => absurd isMem List.not_mem_nil
  · have lying := laidOut.crosses found isFound _ ends starts crosses
    have nonempty := pages_ne_nil found.2 ends
    obtain ⟨extracted, isExtracted, onLast⟩ :=
      extract_positions_tag nonempty found.2.x0 found.2.x1 top bott
    have positions : extracted.mapM (fun pos => pos.pages.getLast?.map fun last =>
        (last + 1, pos.left, pos.right, pos.top, pos.bottom)) =
        some (extracted.map fun pos => (((found.2.pages ends).getLast nonempty : ℤ),
          pos.left, pos.right, pos.top, pos.bottom)) := by
      rw [mapM_eq_some_iff, List.map_map]
      apply List.map_congr_left
      intro position isMem
      simp [onLast position isMem, List.getLast?_eq_some_getLast nonempty]
    refine ⟨{ found.2 with
      content := found.1
      position_tag := some (tag (found.2.pages ends) found.2.x0 found.2.x1 top bott)
      positions := extracted.map fun pos => (((found.2.pages ends).getLast nonempty : ℤ),
        pos.left, pos.right, pos.top, pos.bottom) }, ?_, ⟨head, ?_, ?_⟩⟩
    · simp only [textBbox, written]
      rw [Option.bind_eq_bind, Option.bind_some, isExtracted, Option.bind_eq_bind,
        Option.bind_some, positions]
      rfl
    · rintro text isTag
      exact .inr ⟨_, _, _, _, _, (Option.some.inj isTag).symm, lying⟩
    · rintro position isMem
      obtain ⟨extractedAt, -, rfl⟩ := List.mem_map.mp isMem
      refine ⟨(found.2.pages ends).getLast nonempty + page_from, ?_, by push_cast; rfl⟩
      rw [lying]
      exact List.mem_map_of_mem (List.getLast_mem nonempty)

theorem local_poss_eq (page_from : ℕ) (poss : List Place) :
    poss.filterMap (parser.local_pn page_from) =
      (poss.filter (parser.Shows page_from ·)).map fun place =>
        { place with pn := place.pn - page_from } := by
  induction poss with
  | nil => rfl
  | cons place poss ih =>
    by_cases shows : parser.Shows page_from place
    · have isLocal : parser.local_pn page_from place =
          some { place with pn := place.pn - page_from } := if_pos shows
      rw [List.filterMap_cons_some isLocal, ih,
        List.filter_cons_of_pos (p := (parser.Shows page_from ·)) (by simpa using shows),
        List.map_cons]
    · have isNowhere : parser.local_pn page_from place = none := if_neg shows
      rw [List.filterMap_cons_none isNowhere, ih,
        List.filter_cons_of_neg (p := (parser.Shows page_from ·)) (by simpa using shows)]

theorem denotes_insert_table_figure {boxes : List (Bbox Content)} {found : Content × List Place}
    (placed : lies found.1 = (found.2.filter (parser.Shows page_from ·)).map (·.pn + 1))
    (denoted : ∀ box ∈ boxes, Denotes lies page_from box) :
    ∀ box ∈ insert_table_figure page_from parser boxes found, Denotes lies page_from box := by
  rw [insert_table_figure, local_poss_eq]
  cases shown : found.2.filter (parser.Shows page_from ·) with
  | nil => exact denoted
  | cons place places =>
    have isShown : place ∈ found.2.filter (parser.Shows page_from ·) := shown ▸ List.mem_cons_self
    have shows : page_from ≤ place.pn := (of_decide_eq_true (List.mem_filter.mp isShown).2).1
    rw [shown, List.map_cons] at placed
    intro box isMem
    simp only [List.map_cons, List.mem_append, List.mem_cons] at isMem
    rcases isMem with isMem | rfl | isMem
    · exact denoted box (List.mem_of_mem_take isMem)
    · refine ⟨?_, fun text isTag => absurd isTag (by simp), fun position isMem => ?_⟩
      · rw [placed, List.head?_cons]
        simp only [Parser.onPages, Option.some.injEq]
        omega
      · rw [List.mem_singleton.mp isMem]
        refine ⟨place.pn + 1, placed ▸ List.mem_cons_self, ?_⟩
        push_cast [shows]
        ring
    · exact denoted box (List.mem_of_mem_drop isMem)

theorem denotes_insert_table_figures {tbls_or_figs : List (Content × List Place)}
    (placed : ∀ found ∈ tbls_or_figs,
      lies found.1 = (found.2.filter (parser.Shows page_from ·)).map (·.pn + 1))
    {boxes : List (Bbox Content)} (denoted : ∀ box ∈ boxes, Denotes lies page_from box) :
    ∀ box ∈ insert_table_figures page_from parser boxes tbls_or_figs,
      Denotes lies page_from box := by
  induction tbls_or_figs generalizing boxes with
  | nil => exact denoted
  | cons found later ih =>
    obtain ⟨isPlaced, placedLater⟩ := List.forall_mem_cons.mp placed
    exact ih placedLater (denotes_insert_table_figure isPlaced denoted)

theorem insert_table_figures_eq_nil {tbls_or_figs : List (Content × List Place)}
    {boxes : List (Bbox Content)} :
    insert_table_figures page_from parser boxes tbls_or_figs = [] ↔
      boxes = [] ∧ ∀ found ∈ tbls_or_figs, ∀ place ∈ found.2, ¬ parser.Shows page_from place := by
  induction tbls_or_figs generalizing boxes with
  | nil => simp [insert_table_figures]
  | cons found later ih =>
    have inserted : insert_table_figure page_from parser boxes found = [] ↔
        boxes = [] ∧ ∀ place ∈ found.2, ¬ parser.Shows page_from place := by
      rw [insert_table_figure, local_poss_eq]
      cases shown : found.2.filter (parser.Shows page_from ·) with
      | nil =>
        have nowhere := List.filter_eq_nil_iff.mp shown
        simp only [decide_eq_true_eq] at nowhere
        exact ⟨fun isEmpty => ⟨isEmpty, nowhere⟩, And.left⟩
      | cons place places =>
        have isShown : place ∈ found.2.filter (parser.Shows page_from ·) :=
          shown ▸ List.mem_cons_self
        obtain ⟨isMem, shows⟩ := List.mem_filter.mp isShown
        apply iff_of_false (by simp)
        rintro ⟨-, nowhere⟩
        exact nowhere place isMem (of_decide_eq_true shows)
    rw [insert_table_figures, List.foldl_cons, ← insert_table_figures, ih, inserted,
      List.forall_mem_cons, and_assoc]

theorem parse_loaded_window_spec {window : Window Content}
    (laidOut : LaidOut ZM lies page_from window) :
    ∃ boxes, parse_loaded_window ZM page_from window = some boxes ∧
      (∀ box ∈ boxes, Denotes lies page_from box) ∧
      (boxes = [] ↔ window.Blank page_from) := by
  obtain ⟨texts, areTexts, length, denoted⟩ :=
    exists_mapM fun _ isFound => textBbox_spec laidOut isFound
  have isEmpty : texts = [] ↔ window.boxes = [] := by
    rw [← List.length_eq_zero_iff, length, List.length_eq_zero_iff]
  refine ⟨_, by rw [parse_loaded_window, areTexts]; rfl, ?_, ?_⟩
  · have placed := laidOut.placed
    rw [List.forall_mem_append] at placed
    exact denotes_insert_table_figures placed.2 (denotes_insert_table_figures placed.1 denoted)
  · rw [insert_table_figures_eq_nil, insert_table_figures_eq_nil, isEmpty]
    exact ⟨fun ⟨⟨boxes, tbls⟩, figs⟩ => ⟨boxes, tbls, figs⟩,
      fun ⟨boxes, tbls, figs⟩ => ⟨⟨boxes, tbls⟩, figs⟩⟩

theorem globalBox_spec {box : Bbox Content} (denotes : Denotes lies page_from box) :
    ∃ shifted, globalBox page_from box = some shifted ∧ Denotes lies 0 shifted := by
  have positioned : ∀ position ∈ box.positions.map fun pos => (pos.1 + (page_from : ℤ), pos.2),
      ∃ page ∈ lies box.content, position.1 + (0 : ℕ) = page := by
    intro position isMem
    obtain ⟨source, isSource, rfl⟩ := List.mem_map.mp isMem
    simpa using denotes.positioned source isSource
  cases isTag : box.position_tag with
  | none =>
    refine ⟨_, by rw [globalBox, isTag]; rfl, denotes.numbered, ?_, positioned⟩
    exact fun text isText => absurd isText (by simp)
  | some text =>
    rcases denotes.tagged text isTag with rfl | ⟨pages, x0, x1, top, bott, rfl, lying⟩
    · have kept : offset_position_tag [] page_from = some [] := if_pos (.inl rfl)
      refine ⟨_, by rw [globalBox, isTag]; simp only [kept]; rfl, denotes.numbered, ?_, positioned⟩
      exact fun text isText => .inl (Option.some.inj isText).symm
    · have nonempty : pages ≠ [] := by
        rintro rfl
        have head := denotes.numbered
        rw [lying] at head
        cases head
      have shifted : offset_position_tag ([] ++ tag pages x0 x1 top bott) page_from =
          some ([] ++ tag (pages.map (· + page_from)) x0 x1 top bott) :=
        offset_position_tag_append [] nonempty rfl page_from
      rw [List.nil_append, List.nil_append] at shifted
      refine ⟨_, by rw [globalBox, isTag]; simp only [shifted]; rfl, denotes.numbered, ?_,
        positioned⟩
      intro text isText
      exact .inr ⟨_, _, _, _, _, (Option.some.inj isText).symm,
        by simpa [Function.comp_def] using lying⟩

theorem to_global_boxes_spec {boxes : List (Bbox Content)}
    (denoted : ∀ box ∈ boxes, Denotes lies page_from box) :
    ∃ shifted, to_global_boxes page_from boxes = some shifted ∧
      ∀ box ∈ shifted, Denotes lies 0 box := by
  by_cases isFirst : page_from = 0
  · refine ⟨boxes, if_pos isFirst, ?_⟩
    rwa [isFirst] at denoted
  · obtain ⟨shifted, isShifted, -, denotes⟩ :=
      exists_mapM fun box isMem => globalBox_spec (denoted box isMem)
    exact ⟨shifted, by rw [to_global_boxes, if_neg isFirst, isShifted], denotes⟩

theorem countP_cuts {size : ℕ} (positive : 0 < size) (start stop page : ℕ) :
    (cuts size start stop).countP (Within · page) = if Within (start, stop) page then 1 else 0 := by
  have apart : (cuts size start stop).Pairwise Apart := cuts_apart
  have atMost : ∀ {pieces : List (ℕ × ℕ)}, pieces.Pairwise Apart →
      pieces.countP (Within · page) = if ∃ piece ∈ pieces, Within piece page then 1 else 0 := by
    intro pieces pairwise
    induction pairwise with
    | nil => simp
    | @cons piece pieces first _ ih =>
      by_cases isWithin : Within piece page
      · have others : ¬ ∃ other ∈ pieces, Within other page := fun ⟨other, isMem, isOther⟩ =>
          first other isMem page isWithin isOther
        rw [if_neg others] at ih
        simp [isWithin, ih]
      · rw [List.countP_cons_of_neg (by simpa using isWithin), ih]
        simp only [List.mem_cons, exists_eq_or_imp, isWithin, false_or]
  rw [atMost apart]
  simp only [within_cuts_iff positive]

variable {request : Request Content}

theorem Request.batch_size_pos (request : Request Content) : 0 < request.batch_size := by
  rw [Request.batch_size]
  omega

theorem Request.countP_windows (request : Request Content) (page : ℕ) :
    request.windows.countP (Within · page) =
      if Within (request.from_page, request.effective_to_page) page then 1 else 0 := by
  rw [Request.windows]
  split
  · simp [List.countP_cons]
  · exact countP_cuts request.batch_size_pos _ _ _

theorem reported_of_windows (several : ¬ request.SingleWindow)
    (laidOut : ∀ pages ∈ request.windows,
      LaidOut request.ZM lies pages.1 (request.layout pages.1 pages.2)) :
    ∃ boxes, parse_into_bboxes request = some boxes ∧ ∀ box ∈ boxes, Denotes lies 0 box := by
  have each : ∀ pages ∈ request.windows, ∃ boxes,
      (do let chunk_boxes ← request.parse_window pages
          to_global_boxes pages.1 chunk_boxes) = some boxes ∧
        ∀ box ∈ boxes, Denotes lies 0 box := by
    intro pages isWindow
    obtain ⟨boxes, parsed, denoted, -⟩ := parse_loaded_window_spec (laidOut pages isWindow)
    obtain ⟨shifted, isShifted, denotes⟩ := to_global_boxes_spec denoted
    refine ⟨shifted, ?_, denotes⟩
    rw [Request.parse_window, parsed]
    exact isShifted
  obtain ⟨all_boxes, collected, -, denoted⟩ := exists_mapM each
  refine ⟨all_boxes.flatten, ?_, fun box isMem => ?_⟩
  · rw [parse_into_bboxes, if_neg several, collected]
    rfl
  · obtain ⟨boxes, isWindow, isMem⟩ := List.mem_flatten.mp isMem
    exact denoted boxes isWindow box isMem

theorem reported_iff_of_single (single : request.SingleWindow)
    (laidOut : LaidOut request.ZM lies request.from_page
      (request.layout request.from_page request.effective_to_page)) :
    (∃ boxes, parse_into_bboxes request = some boxes ∧ ∀ box ∈ boxes, Denotes lies 0 box) ↔
      request.from_page = 0 ∨
        (request.layout request.from_page request.effective_to_page).Blank request.from_page := by
  obtain ⟨boxes, parsed, denoted, isBlank⟩ := parse_loaded_window_spec laidOut
  have returned : parse_into_bboxes request = some boxes := by
    rw [parse_into_bboxes, if_pos single, Request.parse_window, parsed]
  rw [← isBlank]
  constructor
  · rintro ⟨other, isOther, reported⟩
    obtain rfl := Option.some.inj (returned.symm.trans isOther)
    rw [or_iff_not_imp_right]
    intro nonempty
    obtain ⟨box, rest, rfl⟩ := List.exists_cons_of_ne_nil nonempty
    -- its number counts from the window and from the document
    have onPage := (denoted box List.mem_cons_self).numbered
    rw [(reported box List.mem_cons_self).numbered] at onPage
    have same := Option.some.inj onPage
    omega
  · intro fine
    refine ⟨boxes, returned, fun box isMem => ?_⟩
    rcases fine with isFirst | rfl
    · rw [← isFirst]
      exact denoted box isMem
    · exact absurd isMem List.not_mem_nil

/-- Whether the returned boxes report the pages of the document: unless the pages fit one window
that does not begin with the first and has something on them. -/
theorem reportsPages_iff (laidOut : ∀ pages ∈ request.windows,
    LaidOut request.ZM lies pages.1 (request.layout pages.1 pages.2)) :
    ReportsPages lies request ↔ (request.SingleWindow → request.from_page = 0 ∨
      (request.layout request.from_page request.effective_to_page).Blank request.from_page) := by
  by_cases single : request.SingleWindow
  · rw [Request.windows, if_pos single] at laidOut
    rw [forall_prop_of_true single,
      ← reported_iff_of_single single (laidOut _ (List.mem_singleton_self _))]
    exact ⟨fun reports => reports.reported, fun reported => ⟨request.countP_windows, reported⟩⟩
  · apply iff_of_true ⟨request.countP_windows, reported_of_windows single laidOut⟩
    exact fun isSingle => absurd isSingle single

end Parsing

def secondPage : Request Unit where
  configured := 50
  ZM := 3
  from_page := 1
  to_page := 2
  total_pages := some 2
  layout _ _ := ⟨⟨[300], [0, 100]⟩, [((), ⟨1, 10, 200, 20, 40⟩)], [], []⟩

theorem laidOut_secondPage : LaidOut secondPage.ZM (fun () => [2]) 1 (secondPage.layout 1 2) where
  loaded := rfl
  onPages := by simp [secondPage]
  starts := by simp [secondPage]
  crosses := by
    intro found isFound pageTop ends _ crosses
    obtain rfl := List.mem_singleton.mp isFound
    have onlyPage : ends < 1 := crosses.loaded
    obtain rfl : ends = 0 := Nat.lt_one_iff.mp onlyPage
    rfl
  placed := by simp [secondPage]

theorem reportsPages_secondPage :
    (∀ pages ∈ secondPage.windows,
      LaidOut secondPage.ZM (fun () => [2]) pages.1 (secondPage.layout pages.1 pages.2)) ∧
    (ReportsPages (fun () => [2]) secondPage ↔ (secondPage.SingleWindow →
      secondPage.from_page = 0 ∨ (secondPage.layout 1 2).Blank secondPage.from_page)) := by
  have laidOut : ∀ pages ∈ secondPage.windows,
      LaidOut secondPage.ZM (fun () => [2]) pages.1 (secondPage.layout pages.1 pages.2) := by
    intro pages isWindow
    obtain rfl : pages = (1, 2) := List.mem_singleton.mp isWindow
    exact laidOut_secondPage
  exact ⟨laidOut, reportsPages_iff laidOut⟩

theorem not_reportsPages_secondPage :
    LaidOut secondPage.ZM (fun () => [2]) 1 (secondPage.layout 1 2) ∧
      ¬ ReportsPages (fun () => [2]) secondPage := by
  refine ⟨laidOut_secondPage, fun reports => ?_⟩
  have single : secondPage.SingleWindow := by decide
  rcases (reported_iff_of_single single laidOut_secondPage).mp reports.reported with
    isFirst | isBlank
  · exact absurd isFirst (by decide)
  · exact absurd isBlank.boxes (List.cons_ne_nil _ _)

end RagFlow.Pdf
