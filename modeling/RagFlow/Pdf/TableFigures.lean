import RagFlow.Lib.Dict
import RagFlow.Lib.Regex
import RagFlow.Pdf.LineMerging

/-!
# Tables and figures taken out of the boxes

`_extract_table_figure` as far as it distributes the boxes: tables and figures by their layout,
tables of consecutive pages joined, captions put to the nearest table or figure.
-/

namespace RagFlow.Pdf.TableFigures

open Lib LineMerging

abbrev Box := LineMerging.Box

/-- `str(page_number) + "-" + str(layoutno)` -/
abbrev Key := Nat × String

abbrev Boxes := Dict Key (List Box)

def layoutType (box : Box) : String := box.layout_type.getD ""

def letters (word : String) : Regex :=
  .inOrder (word.toList.map fun letter => .char fun char =>
    char.toLower = letter || (letter = 'i' && [0x130, 0x131].contains char.toNat))

def number : Regex := .plus (.char PyString.isDecimal)

def captionPatterns : List Regex :=
  let digits := Regex.oneOf " 0123456789:："
  let spaces := Regex.char PyString.isSpace
  [.inOrder [.plus (.oneOf "图表"), digits, digits],
    .inOrder [letters "fig", .optional (.literal "."), .star spaces, number],
    .inOrder [letters "figure", .plus spaces, number],
    .inOrder [letters "table", .plus spaces, number]]

def captionType (box : Box) : Bool := decide ("caption".toList <:+: (layoutType box).toList)

def is_caption (box : Box) : Bool :=
  captionPatterns.any (·.isMatch (String.ofList (PyString.stripChars box.text))) || captionType box

/-- `(数据|资料|图表)*来源[:： ]` -/
def dataSource (box : Box) : Bool :=
  (Regex.inOrder [.star (.anyOf (["数据", "资料", "图表"].map .literal)), .literal "来源",
    .oneOf ":： "]).isMatch (String.ofList box.text)

/-- What the first loop has found: the boxes it passed over, the tables and figures, the keys of the
tables that are not joined with the next one; `""` is no key. -/
structure Found where
  boxes : List Box
  tables : Boxes
  figures : Boxes
  lst_lout_no : Option Key
  nomerge_lout_no : List (Option Key)

def add (boxes : Boxes) (key : Key) (box : Box) : Boxes :=
  boxes.upsert key fun old => old.getD [] ++ [box]

def visit (need_image : Bool) (found : Found) (box : Box) : Found :=
  match box.layoutno with
  | none => { found with boxes := found.boxes ++ [box] }
  | some no =>
    let lout_no := (box.page_number, no)
    let nomerge := if is_caption box ||
        ["table caption", "title", "figure caption", "reference"].contains (layoutType box) then
      found.nomerge_lout_no ++ [found.lst_lout_no] else found.nomerge_lout_no
    if layoutType box = "table" then
      if dataSource box then { found with nomerge_lout_no := nomerge }
      else ⟨found.boxes, add found.tables lout_no box, found.figures, some lout_no, nomerge⟩
    else if need_image && layoutType box = "figure" then
      if dataSource box then { found with nomerge_lout_no := nomerge }
      else ⟨found.boxes, found.tables, add found.figures lout_no box, some lout_no, nomerge⟩
    else { found with boxes := found.boxes ++ [box], nomerge_lout_no := nomerge }

variable (mean_height : Nat → ℚ)

/-- The second table goes on with the first; no result is an `IndexError`. -/
def continues (nomerge : List (Option Key)) (above_ below : Key × List Box) : Option Bool :=
  if some above_.1 ∈ nomerge then some false
  else
    above_.2.head?.bind fun start => above_.2.getLast?.bind fun last =>
      below.2.head?.map fun next => !(next.page_number = start.page_number || next.page_number > start.page_number + 1 ||
        y_dis last next > mean_height next.page_number * 23)

/-- `tables[k0].extend(tables[k])`, `del tables[k]`; no result is a `KeyError`. -/
def joinStep (nomerge : List (Option Key)) (tables : Boxes) (above_ below : Key × List Box) :
    Option Boxes :=
  (continues mean_height nomerge above_ below).bind fun joined =>
    if joined then
      (tables.get? above_.1).bind fun _ => (tables.get? below.1).map fun boxes =>
        (tables.modify above_.1 (· ++ boxes)).erase below.1
    else some tables

def joinTables (nomerge : List (Option Key)) (tables : Boxes) :
    List (Key × List Box) → Option Boxes
  | above_ :: below :: rest =>
    (joinTables nomerge tables (below :: rest)).bind fun tables =>
      joinStep mean_height nomerge tables above_ below
  | _ => some tables

/-- By `(top, x0)` of the first boxes. -/
def earlier (a b : Key × List Box) : Bool :=
  match a.2.head?, b.2.head? with
  | some first, some second => above first second
  | _, _ => true

def x_dis (a b : Box) : ℚ :=
  min (min |a.x1 - b.x0| |a.x0 - b.x1|) (|a.x0 + a.x1 - b.x0 - b.x1| / 2)

def distance (caption box : Box) : ℚ :=
  let x := if caption.x1 < box.x0 ∨ caption.x0 > box.x1 then x_dis caption box else 0
  y_dis caption box * y_dis caption box + x * x

def nearest (caption : Box) (boxes : Boxes) : Option Key × ℚ :=
  (boxes.items.flatMap fun entry => (entry.2.filter (!captionType ·)).map (entry.1, ·)).foldl
    (fun best entry =>
      if distance caption entry.2 < best.2 then (some entry.1, distance caption entry.2) else best)
    (none, 1000000000)

def attach (caption : Box) (tables figures : Boxes) : Boxes × Boxes :=
  let (tk, tv) := nearest caption tables
  let (fk, fv) := nearest caption figures
  match tk, fk with
  | some key, none =>
    if tv < fv then (tables.modify key (caption :: ·), figures) else (tables, figures)
  | some key, some figure =>
    if tv < fv then (tables.modify key (caption :: ·), figures)
    else (tables, figures.modify figure (caption :: ·))
  | none, some figure => (tables, figures.modify figure (caption :: ·))
  | none, none => (tables, figures)

structure Extracted where
  boxes : List Box
  tables : Boxes
  figures : Boxes

def attachCaptions (tables figures : Boxes) : List Box → Extracted
  | [] => ⟨[], tables, figures⟩
  | box :: boxes =>
    if is_caption box then
      attachCaptions (attach box tables figures).1 (attach box tables figures).2 boxes
    else
      let rest := attachCaptions tables figures boxes
      { rest with boxes := box :: rest.boxes }

def extract_table_figure (need_image : Bool) (boxes : List Box) : Option Extracted :=
  let found := boxes.foldl (visit need_image) ⟨[], .empty, .empty, none, []⟩
  (joinTables mean_height found.nomerge_lout_no found.tables
    (found.tables.items.mergeSort earlier)).map fun tables =>
      attachCaptions tables found.figures found.boxes

def contents (boxes : Boxes) : List Box := boxes.items.flatMap Prod.snd

def takes (need_image : Bool) (box : Box) : Bool :=
  box.layoutno.isSome && (layoutType box = "table" || need_image && layoutType box = "figure")

structure Keeps (boxes : List Box) (extracted : Extracted) (need_image : Bool) : Prop where
  inOrder : extracted.boxes.Sublist boxes
  placed : (contents extracted.tables ++ contents extracted.figures ++ extracted.boxes).Perm
    (boxes.filter fun box => !(takes need_image box && dataSource box))

def LosesNone (need_image : Bool) (boxes : List Box) : Prop :=
  ∃ extracted, extract_table_figure mean_height need_image boxes = some extracted ∧
    Keeps boxes extracted need_image

def Near (caption box : Box) : Prop := captionType box = false ∧ distance caption box < 1000000000

def InReach (placed : List Box) : List Box → Prop
  | [] => True
  | box :: boxes =>
    if is_caption box then (∃ other ∈ placed, Near box other) ∧ InReach (box :: placed) boxes
    else InReach placed boxes

def CaptionsInReach (need_image : Bool) (boxes : List Box) : Prop :=
  InReach (boxes.filter fun box => takes need_image box && !dataSource box)
    (boxes.filter fun box => !takes need_image box)

variable {mean_height} {boxes rest placed : List Box} {tables figures dict : Boxes} {key : Key}

theorem items_perm_erase {value : List Box} (found : dict.get? key = some value) :
    dict.items.Perm ((key, value) :: (dict.erase key).items) := by
  have fresh : (key, value) ∉ (dict.erase key).items := by
    simp [Dict.erase, Dict.filterKeys]
  refine (List.perm_ext_iff_of_nodup dict.nodup.of_map
    (List.nodup_cons.mpr ⟨fresh, (dict.erase key).nodup.of_map⟩)).mpr ?_
  rintro ⟨other, boxes⟩
  rw [List.mem_cons, Dict.mem_items, Dict.mem_items, Dict.get?_erase]
  by_cases same : other = key
  · subst same
    simp [found, eq_comm]
  · simp [same]

theorem contents_perm (dict : Boxes) (key : Key) :
    (contents dict).Perm ((dict.get? key).getD [] ++ contents (dict.erase key)) := by
  cases found : dict.get? key with
  | none =>
    rw [Dict.erase_eq_self found]
    rfl
  | some value => exact (items_perm_erase found).flatMap_right Prod.snd

theorem contents_of_change {other : Boxes} {value : List Box}
    (changed : other.get? key = some value)
    (same : ∀ name, name ≠ key → other.get? name = dict.get? name) :
    (contents other).Perm (value ++ contents (dict.erase key)) := by
  apply (contents_perm other key).trans
  rw [changed]
  apply List.Perm.append_left
  apply List.Perm.flatMap_right
  apply Dict.items_perm
  intro name
  rw [Dict.get?_erase, Dict.get?_erase]
  split_ifs with isKey
  · rfl
  · exact same name isKey

theorem contents_add (dict : Boxes) (key : Key) (box : Box) :
    (contents (add dict key box)).Perm (contents dict ++ [box]) := by
  have added : (contents (add dict key box)).Perm
      ((dict.get? key).getD [] ++ [box] ++ contents (dict.erase key)) :=
    contents_of_change (by rw [add, Dict.get?_upsert, if_pos rfl])
      fun name differs => by rw [add, Dict.get?_upsert, if_neg differs]
  refine added.trans (List.Perm.trans ?_ ((contents_perm dict key).symm.append_right [box]))
  rw [List.append_assoc, List.append_assoc]
  exact List.perm_append_comm.append_left _

theorem contents_modify {value : List Box} (found : dict.get? key = some value)
    (change : List Box → List Box) :
    (contents (dict.modify key change)).Perm (change value ++ contents (dict.erase key)) :=
  contents_of_change (by rw [Dict.get?_modify, if_pos rfl, found, Option.map_some])
    fun name differs => by rw [Dict.get?_modify, if_neg differs]

theorem contents_insert (isKey : key ∈ dict.keys) (caption : Box) :
    (contents (dict.modify key (caption :: ·))).Perm (caption :: contents dict) := by
  obtain ⟨value, found⟩ := Dict.mem_keys.mp isKey
  apply (contents_modify found _).trans
  have whole := contents_perm dict key
  rw [found] at whole
  exact (whole.symm.cons caption)

structure Visited (need_image : Bool) (boxes : List Box) (found : Found) : Prop where
  left : found.boxes = boxes.filter fun box => !takes need_image box
  taken : (contents found.tables ++ contents found.figures).Perm
    (boxes.filter fun box => takes need_image box && !dataSource box)
  filled : ∀ entry ∈ found.tables.items, entry.2 ≠ []

theorem visit_cases (need_image : Bool) (found : Found) (box : Box) :
    (takes need_image box = false ∧ (visit need_image found box).boxes = found.boxes ++ [box] ∧
      (visit need_image found box).tables = found.tables ∧
      (visit need_image found box).figures = found.figures) ∨
    (takes need_image box = true ∧ (visit need_image found box).boxes = found.boxes ∧
      ((dataSource box = true ∧ (visit need_image found box).tables = found.tables ∧
          (visit need_image found box).figures = found.figures) ∨
        (dataSource box = false ∧ ∃ key,
          ((visit need_image found box).tables = add found.tables key box ∧
            (visit need_image found box).figures = found.figures ∨
          (visit need_image found box).tables = found.tables ∧
            (visit need_image found box).figures = add found.figures key box)))) := by
  cases layout : box.layoutno with
  | none => simp [takes, visit, layout]
  | some no =>
    simp only [takes, visit, layout, Option.isSome_some, Bool.true_and]
    by_cases isTable : layoutType box = "table"
    · cases isSource : dataSource box with
      | true => simp [isTable]
      | false => simpa [isTable] using ⟨_, _, .inl rfl⟩
    · cases isFigure : need_image && decide (layoutType box = "figure") with
      | false => simp [isTable]
      | true =>
        cases isSource : dataSource box with
        | true => simp [isTable]
        | false => simpa [isTable, isFigure] using ⟨_, _, .inr rfl⟩

theorem filled_add (filled : ∀ entry ∈ dict.items, entry.2 ≠ []) (key : Key) (box : Box) :
    ∀ entry ∈ (add dict key box).items, entry.2 ≠ [] := by
  intro entry isEntry
  have found := Dict.mem_items.mp isEntry
  rw [add, Dict.get?_upsert] at found
  split_ifs at found with isKey
  · rw [← Option.some.inj found]
    exact List.append_ne_nil_of_right_ne_nil _ (List.cons_ne_nil box [])
  · exact filled entry (Dict.mem_items.mpr found)

theorem visited (need_image : Bool) (boxes : List Box) :
    Visited need_image boxes (boxes.foldl (visit need_image) ⟨[], .empty, .empty, none, []⟩) := by
  induction boxes using List.reverseRecOn with
  | nil => exact ⟨rfl, .refl _, by simp [Dict.empty]⟩
  | append_singleton boxes box ih =>
    rw [List.foldl_append, List.foldl_cons, List.foldl_nil]
    obtain ⟨left, taken, filled⟩ := ih
    generalize boxes.foldl (visit need_image) ⟨[], .empty, .empty, none, []⟩ = found
      at left taken filled ⊢
    obtain ⟨notTaken, isLeft, sameTables, sameFigures⟩ | ⟨isTaken, isLeft, kept⟩ :=
      visit_cases need_image found box
    · refine ⟨?_, ?_, by rwa [sameTables]⟩
      · rw [isLeft, left, List.filter_append]
        simp [notTaken]
      · rw [sameTables, sameFigures, List.filter_append]
        simpa [notTaken] using taken
    · have sameLeft : (visit need_image found box).boxes =
          (boxes ++ [box]).filter fun box => !takes need_image box := by
        rw [isLeft, left, List.filter_append]
        simp [isTaken]
      rcases kept with ⟨isSource, sameTables, sameFigures⟩ | ⟨noSource, key, added⟩
      · refine ⟨sameLeft, ?_, by rwa [sameTables]⟩
        rw [sameTables, sameFigures, List.filter_append]
        simpa [isSource] using taken
      · have more : (boxes ++ [box]).filter (fun box => takes need_image box && !dataSource box) =
            (boxes.filter fun box => takes need_image box && !dataSource box) ++ [box] := by
          rw [List.filter_append]
          simp [isTaken, noSource]
        rcases added with ⟨tables, figures⟩ | ⟨tables, figures⟩
        · refine ⟨sameLeft, ?_, ?_⟩
          · rw [tables, figures, more]
            apply ((contents_add found.tables key box).append_right _).trans
            rw [List.append_assoc]
            apply (List.perm_append_comm.append_left _).trans
            rw [← List.append_assoc]
            exact taken.append_right _
          · rw [tables]
            exact filled_add filled key box
        · refine ⟨sameLeft, ?_, by rwa [tables]⟩
          rw [tables, figures, more]
          apply ((contents_add found.figures key box).append_left _).trans
          rw [← List.append_assoc]
          exact taken.append_right _

theorem contents_join {first second : List Box} {other : Key} (differs : other ≠ key)
    (isFirst : dict.get? key = some first) (isSecond : dict.get? other = some second) :
    (contents ((dict.modify key (· ++ second)).erase other)).Perm (contents dict) := by
  have removed := contents_perm (dict.modify key (· ++ second)) other
  rw [Dict.get?_modify, if_neg differs, isSecond, Option.getD_some] at removed
  have joined := contents_modify isFirst (· ++ second)
  have whole := contents_perm dict key
  rw [isFirst, Option.getD_some] at whole
  apply (List.perm_append_left_iff second).mp
  apply removed.symm.trans (joined.trans _)
  apply List.Perm.trans _ (whole.symm.append_left second)
  rw [← List.append_assoc]
  exact List.perm_append_comm.append_right _

theorem continues_isSome (mean_height : Nat → ℚ) (nomerge : List (Option Key))
    {above_ below : Key × List Box}
    (aboveFilled : above_.2 ≠ []) (belowFilled : below.2 ≠ []) :
    (continues mean_height nomerge above_ below).isSome := by
  obtain ⟨start, later, isAbove⟩ := List.exists_cons_of_ne_nil aboveFilled
  obtain ⟨next, others, isBelow⟩ := List.exists_cons_of_ne_nil belowFilled
  rw [continues, isAbove, isBelow]
  split_ifs
  · rfl
  · simp [List.getLast?_cons]

/-- Joining never fails and keeps all boxes; only tables behind the first are joined to another. -/
theorem joinTables_spec (mean_height : Nat → ℚ) (nomerge : List (Option Key)) (tables : Boxes)
    {entries : List (Key × List Box)} (filled : ∀ entry ∈ entries, entry.2 ≠ [])
    (distinct : (entries.map Prod.fst).Nodup) (present : ∀ entry ∈ entries, entry.1 ∈ tables.keys) :
    ∃ joined, joinTables mean_height nomerge tables entries = some joined ∧
      (contents joined).Perm (contents tables) ∧
      ∀ key ∈ tables.keys, key ∉ entries.tail.map Prod.fst → key ∈ joined.keys := by
  match entries with
  | [] | [_] => exact ⟨tables, rfl, .refl _, fun _ isKey _ => isKey⟩
  | above_ :: below :: rest =>
    rw [List.forall_mem_cons] at filled present
    rw [List.map_cons, List.nodup_cons] at distinct
    obtain ⟨joined, returns, perm, keys⟩ :=
      joinTables_spec mean_height nomerge tables filled.2 distinct.2 present.2
    obtain ⟨goesOn, isContinued⟩ := Option.isSome_iff_exists.mp
      (continues_isSome mean_height nomerge filled.1
        (filled.2 below List.mem_cons_self))
    have belowDistinct := distinct.2
    rw [List.map_cons, List.nodup_cons] at belowDistinct
    rw [List.map_cons, List.mem_cons, not_or] at distinct
    rw [joinTables, returns, Option.bind_some, joinStep, isContinued, Option.bind_some]
    cases goesOn with
    | false => exact ⟨joined, rfl, perm, fun key isKey notBehind => keys key isKey fun behind =>
      notBehind (List.mem_cons_of_mem _ behind)⟩
    | true =>
      obtain ⟨first, isFirst⟩ := Dict.mem_keys.mp (keys above_.1 present.1 distinct.1.2)
      obtain ⟨second, isSecond⟩ := Dict.mem_keys.mp
        (keys below.1 (present.2 below List.mem_cons_self) belowDistinct.1)
      refine ⟨(joined.modify above_.1 (· ++ second)).erase below.1, ?_, ?_, ?_⟩
      · rw [if_pos rfl, isFirst, isSecond]
        rfl
      · exact (contents_join (Ne.symm distinct.1.1) isFirst isSecond).trans perm
      · intro key isKey notBehind
        rw [List.tail_cons, List.map_cons, List.mem_cons, not_or] at notBehind
        rw [Dict.mem_keys_erase, Dict.keys_modify]
        exact ⟨keys key isKey notBehind.2, notBehind.1⟩

theorem scan_nearest (caption : Box) (entries : List (Key × Box)) :
    let best := entries.foldl (fun (best : Option Key × ℚ) entry =>
      if distance caption entry.2 < best.2 then (some entry.1, distance caption entry.2) else best)
      (none, 1000000000)
    (best = (none, 1000000000) ∧ ∀ entry ∈ entries, 1000000000 ≤ distance caption entry.2) ∨
    ∃ entry ∈ entries, best = (some entry.1, distance caption entry.2) ∧
      distance caption entry.2 < 1000000000 := by
  induction entries using List.reverseRecOn with
  | nil => exact .inl ⟨rfl, by simp⟩
  | append_singleton entries entry ih =>
    rw [List.foldl_append, List.foldl_cons, List.foldl_nil]
    rcases ih with ⟨isBest, far⟩ | ⟨found, isEntry, isBest, isNear⟩
    · rw [isBest]
      by_cases near : distance caption entry.2 < 1000000000
      · exact .inr ⟨entry, by simp, if_pos near, near⟩
      · refine .inl ⟨if_neg near, fun other isOther => ?_⟩
        rcases List.mem_append.mp isOther with before | last
        · exact far other before
        · rw [List.mem_singleton.mp last]
          exact not_lt.mp near
    · rw [isBest]
      by_cases nearer : distance caption entry.2 < distance caption found.2
      · exact .inr ⟨entry, by simp, if_pos nearer, nearer.trans isNear⟩
      · exact .inr ⟨found, List.mem_append_left _ isEntry, if_neg nearer, isNear⟩

theorem nearest_spec (caption : Box) (dict : Boxes) :
    (nearest caption dict = (none, 1000000000) ∧ ¬ ∃ box ∈ contents dict, Near caption box) ∨
    ((∃ key ∈ dict.keys, (nearest caption dict).1 = some key) ∧
      (nearest caption dict).2 < 1000000000 ∧ ∃ box ∈ contents dict, Near caption box) := by
  rcases scan_nearest caption (dict.items.flatMap fun entry =>
    (entry.2.filter (!captionType ·)).map (entry.1, ·)) with
    ⟨isBest, far⟩ | ⟨found, isFound, isBest, near⟩
  · refine .inl ⟨isBest, ?_⟩
    rintro ⟨box, isBox, noCaption, near⟩
    obtain ⟨entry, isEntry, inEntry⟩ := List.mem_flatMap.mp isBox
    exact absurd near (not_lt.mpr (far (entry.1, box) (List.mem_flatMap.mpr ⟨entry, isEntry,
      List.mem_map_of_mem (List.mem_filter.mpr ⟨inEntry, by rw [noCaption]; rfl⟩)⟩)))
  · obtain ⟨entry, isEntry, inEntry⟩ := List.mem_flatMap.mp isFound
    obtain ⟨box, isBox, rfl⟩ := List.mem_map.mp inEntry
    obtain ⟨isBox, noCaption⟩ := List.mem_filter.mp isBox
    refine .inr ⟨⟨entry.1, List.mem_map_of_mem isEntry, congrArg Prod.fst isBest⟩, ?_, box,
      List.mem_flatMap.mpr ⟨entry, isEntry, isBox⟩, by simpa using noCaption, near⟩
    exact (congrArg Prod.snd isBest).trans_lt near

theorem attach_spec (caption : Box) (tables figures : Boxes) :
    ((∃ box ∈ contents tables ++ contents figures, Near caption box) ∧
      (contents (attach caption tables figures).1 ++
        contents (attach caption tables figures).2).Perm
        (caption :: (contents tables ++ contents figures))) ∨
    ((¬ ∃ box ∈ contents tables ++ contents figures, Near caption box) ∧
      attach caption tables figures = (tables, figures)) := by
  have inTable {key : Key} (isKey : key ∈ tables.keys) :
      (contents (tables.modify key (caption :: ·)) ++ contents figures).Perm
        (caption :: (contents tables ++ contents figures)) :=
    (contents_insert isKey caption).append_right _
  have inFigure {key : Key} (isKey : key ∈ figures.keys) :
      (contents tables ++ contents (figures.modify key (caption :: ·))).Perm
        (caption :: (contents tables ++ contents figures)) :=
    ((contents_insert isKey caption).append_left _).trans List.perm_middle
  obtain ⟨noTable, farTables⟩ | ⟨⟨key, isKey, isTable⟩, tableNear, table, inTables, near⟩ :=
    nearest_spec caption tables
  · obtain ⟨noFigure, farFigures⟩ | ⟨⟨figure, isFigureKey, isFigure⟩, -, box, inFigures, near⟩ :=
      nearest_spec caption figures
    · refine .inr ⟨?_, by rw [attach, noTable, noFigure]⟩
      rintro ⟨box, isBox, near⟩
      exact (List.mem_append.mp isBox).elim (fun inTables => farTables ⟨box, inTables, near⟩)
        fun inFigures => farFigures ⟨box, inFigures, near⟩
    · refine .inl ⟨⟨box, List.mem_append_right _ inFigures, near⟩, ?_⟩
      rw [attach, noTable]
      simp only [isFigure]
      exact inFigure isFigureKey
  · refine .inl ⟨⟨table, List.mem_append_left _ inTables, near⟩, ?_⟩
    obtain ⟨noFigure, -⟩ | ⟨⟨figure, isFigureKey, isFigure⟩, -⟩ := nearest_spec caption figures
    · rw [attach, noFigure]
      simp only [isTable, tableNear, if_true]
      exact inTable isKey
    · rw [attach]
      simp only [isTable, isFigure]
      split_ifs
      · exact inTable isKey
      · exact inFigure isFigureKey

theorem inReach_congr {other : List Box} (same : ∀ box, box ∈ placed ↔ box ∈ other) :
    InReach placed boxes ↔ InReach other boxes := by
  induction boxes generalizing placed other with
  | nil => exact Iff.rfl
  | cons box boxes ih =>
    rw [InReach, InReach]
    split_ifs
    · have sameMore (item : Box) : item ∈ box :: placed ↔ item ∈ box :: other := by
        rw [List.mem_cons, List.mem_cons, same]
      rw [ih sameMore]
      simp only [same]
    · exact ih same

def Extracted.all (extracted : Extracted) : List Box :=
  contents extracted.tables ++ contents extracted.figures ++ extracted.boxes

theorem attachCaptions_spec (tables figures : Boxes) (boxes : List Box) :
    (attachCaptions tables figures boxes).boxes.Sublist boxes ∧
    (attachCaptions tables figures boxes).all.length ≤
      (contents tables ++ contents figures ++ boxes).length ∧
    ((attachCaptions tables figures boxes).all.Perm (contents tables ++ contents figures ++ boxes) ↔
      InReach (contents tables ++ contents figures) boxes) := by
  induction boxes generalizing tables figures with
  | nil => exact ⟨.refl _, Nat.le_refl _, iff_of_true (.refl _) trivial⟩
  | cons box boxes ih =>
    rw [attachCaptions, InReach]
    split_ifs with isCaption
    · obtain ⟨near, attached⟩ | ⟨far, same⟩ := attach_spec box tables figures
      · obtain ⟨inOrder, shorter, placed⟩ := ih (attach box tables figures).1
          (attach box tables figures).2
        have more : (contents (attach box tables figures).1 ++
            contents (attach box tables figures).2 ++ boxes).Perm
            (contents tables ++ contents figures ++ box :: boxes) :=
          (attached.append_right boxes).trans List.perm_middle.symm
        refine ⟨inOrder.cons box, more.length_eq ▸ shorter, ?_⟩
        rw [and_iff_right near, ← inReach_congr fun _ => attached.mem_iff, ← placed]
        exact ⟨fun all => all.trans more.symm, fun all => all.trans more⟩
      · obtain ⟨inOrder, shorter, placed⟩ := ih tables figures
        rw [same]
        have less : (contents tables ++ contents figures ++ boxes).length <
            (contents tables ++ contents figures ++ box :: boxes).length := by simp
        exact ⟨inOrder.cons box, shorter.trans less.le, iff_of_false
          (fun all => absurd (all.length_eq ▸ shorter) (Nat.not_le.mpr less)) fun near => far near.1⟩
    · obtain ⟨inOrder, shorter, placed⟩ := ih tables figures
      have kept : ({ attachCaptions tables figures boxes with
          boxes := box :: (attachCaptions tables figures boxes).boxes } : Extracted).all.Perm
          (box :: (attachCaptions tables figures boxes).all) := List.perm_middle
      have more : (contents tables ++ contents figures ++ box :: boxes).Perm
          (box :: (contents tables ++ contents figures ++ boxes)) := List.perm_middle
      refine ⟨inOrder.cons_cons box, ?_, ?_⟩
      · rw [kept.length_eq, more.length_eq]
        exact Nat.succ_le_succ shorter
      · rw [← placed]
        exact ⟨fun all => (List.perm_cons box).mp ((kept.symm.trans all).trans more),
          fun all => (kept.trans ((List.perm_cons box).mpr all)).trans more.symm⟩

theorem perm_distributed (need_image : Bool) (boxes : List Box) :
    ((boxes.filter fun box => takes need_image box && !dataSource box) ++
      boxes.filter fun box => !takes need_image box).Perm
      (boxes.filter fun box => !(takes need_image box && dataSource box)) := by
  have parts := List.filter_append_perm (takes need_image)
    (boxes.filter fun box => !(takes need_image box && dataSource box))
  rw [List.filter_filter, List.filter_filter] at parts
  refine List.Perm.trans (.of_eq ?_) parts
  congr 1
  · exact List.filter_congr fun box _ => by cases takes need_image box <;> rfl
  · exact List.filter_congr fun box _ => by cases takes need_image box <;> rfl

/-- All boxes are in exactly one place, and the joining never fails, exactly where every caption has
a near box of a table or a figure, or a near caption before it. -/
theorem losesNone_iff (mean_height : Nat → ℚ) (need_image : Bool) (boxes : List Box) :
    LosesNone mean_height need_image boxes ↔ CaptionsInReach need_image boxes := by
  obtain ⟨left, taken, filled⟩ := visited need_image boxes
  rw [LosesNone, extract_table_figure, CaptionsInReach, ← left]
  generalize boxes.foldl (visit need_image) ⟨[], .empty, .empty, none, []⟩ = found
    at left taken filled ⊢
  have sorted := List.mergeSort_perm found.tables.items earlier
  obtain ⟨joined, returns, perm, -⟩ := joinTables_spec mean_height
    found.nomerge_lout_no found.tables
    (fun entry isEntry => filled entry (sorted.mem_iff.mp isEntry))
    ((sorted.map Prod.fst).nodup_iff.mpr found.tables.nodup)
    fun entry isEntry => List.mem_map_of_mem (sorted.mem_iff.mp isEntry)
  obtain ⟨inOrder, -, placed⟩ := attachCaptions_spec joined found.figures found.boxes
  have inTables := (perm.append_right (contents found.figures)).trans taken
  rw [inReach_congr fun _ => inTables.mem_iff] at placed
  have target := (inTables.append_right found.boxes).trans
    ((List.Perm.of_eq (by rw [left])).trans (perm_distributed need_image boxes))
  simp only [returns, Option.map_some, Option.some.injEq, exists_eq_left']
  rw [← placed]
  constructor
  · exact fun keeps => keeps.placed.trans target.symm
  · intro all
    refine ⟨inOrder.trans ?_, all.trans target⟩
    rw [left]
    exact List.filter_sublist

def lonelyCaption : Box :=
  ⟨1, 0, 100, 0, 10, "Table 1".toList, none, some "table caption-0", some "table caption"⟩

/-- A caption on a page without tables and figures. -/
theorem not_losesNone_caption : ¬ LosesNone (fun _ => 10) true [lonelyCaption] := by
  rintro ⟨extracted, returns, -, placed⟩
  have isCaption : is_caption lonelyCaption = true := by decide +kernel
  have visitedBox : visit true ⟨[], .empty, .empty, none, []⟩ lonelyCaption =
      ⟨[lonelyCaption], .empty, .empty, none, [none]⟩ := by
    simp [visit, lonelyCaption, layoutType]
  have isExtracted : extract_table_figure (fun _ => 10) true [lonelyCaption] =
      some ⟨[], .empty, .empty⟩ := by
    rw [extract_table_figure, List.foldl_cons, List.foldl_nil, visitedBox]
    simp [Dict.empty, joinTables, attachCaptions, isCaption, attach, nearest]
  rw [isExtracted] at returns
  obtain rfl := Option.some.inj returns
  have lengths := placed.length_eq
  rw [List.filter_cons_of_pos (by decide +kernel)] at lengths
  simp [contents, Dict.empty] at lengths

end RagFlow.Pdf.TableFigures
