import Mathlib.Algebra.Ring.Nat
import Mathlib.Data.List.Induction
import Mathlib.Data.List.TakeWhile
import RagFlow.Lib.Paging
import RagFlow.Lib.PyString

/-!
# Sections of HTML documents

`read_text_recursively` lists the texts and the tables of a document, `merge_block_text` joins the
texts of a block element, and `chunk_block` packs blocks into chunks of a number of tokens.
-/

namespace RagFlow.Chunking.HtmlSections

open RagFlow.Lib

abbrev Text := List Char

inductive Node
  | text (content : Text)
  | tag (name : String) (children : List Node)

/-- `str.lower`.  The names of a parsed document are in lower case already. -/
def lower (name : String) : String := String.ofList (name.toList.map Char.toLower)

def blockTags : List String :=
  ["h1", "h2", "h3", "h4", "h5", "h6", "p", "div", "article", "section", "aside", "ul", "ol", "li",
    "table", "pre", "code", "blockquote", "figure", "figcaption"]

def titleTags : List (String × Text) :=
  [("h1", ['#']), ("h2", ['#', '#']), ("h3", ['#', '#', '#']), ("h4", ['#', '#', '#', '#']),
    ("h5", ['#', '#', '#', '#', '#']), ("h6", ['#', '#', '#', '#', '#', '#'])]

/-- An entry of `parser_result`.  A block is known by the number of its `uuid1`. -/
structure Info where
  content : Text
  tagName : String
  blockId : Option Nat
  deriving DecidableEq

section Reading

-- `html.unescape(str(element))`
variable (html : Node → Text)

mutual

/-- `read_text_recursively`: what it returns, `parser_result` and the number of `uuid1` calls. -/
def readText (parserResult : List Info) (uuids : Nat) (parentName : Option String)
    (blockId : Option Nat) : Node → List Info × List Info × Nat
  | .text content =>
    if PyString.stripChars content = [] then
      ([], parserResult, uuids)
    else
      ([⟨PyString.stripChars content, parentName.getD "inner_text", blockId⟩], parserResult,
        uuids)
  | .tag name children =>
    if lower name = "table" then
      ([⟨html (.tag name children), "table", none⟩], parserResult, uuids + 1)
    else if lower name ∈ blockTags then
      ([], readChildren parserResult (uuids + 1) name (some uuids) children)
    else
      ([], readChildren parserResult uuids name blockId children)

def readChildren (parserResult : List Info) (uuids : Nat) (name : String)
    (blockId : Option Nat) : List Node → List Info × Nat
  | [] => (parserResult, uuids)
  | child :: rest =>
    let (childInfo, parserResult, uuids) := readText parserResult uuids (some name) blockId child
    readChildren (parserResult ++ childInfo) uuids name blockId rest

end

/-- `temp_sections` of a document with these nodes in its body. -/
def sectionsOf (body : List Node) : List Info :=
  (readText html [] 0 none none (.tag "body" body)).2.1

end Reading

section Merging

def marked (tagName : String) (content : Text) : Text :=
  match titleTags.lookup tagName with
  | some mark => mark ++ ' ' :: content
  | none => content

structure Merge where
  blockContent : List Text
  currentContent : Text
  tableInfoList : List Info
  lastBlockId : Option Nat

/-- `current_content += (" " if current_content else "") + content` -/
def joinTo (separator : Char) (currentContent content : Text) : Text :=
  (if currentContent = [] then [] else currentContent ++ [separator]) ++ content

def Merge.item (merge : Merge) (item : Info) : Merge :=
  match item.blockId with
  | some blockId =>
    if merge.lastBlockId ≠ some blockId then
      { merge with
        blockContent :=
          if merge.lastBlockId ≠ none then merge.blockContent ++ [merge.currentContent]
          else merge.blockContent
        currentContent := marked item.tagName item.content
        lastBlockId := some blockId }
    else
      { merge with
        currentContent := joinTo ' ' merge.currentContent (marked item.tagName item.content) }
  | none =>
    if item.tagName = "table" then
      { merge with tableInfoList := merge.tableInfoList ++ [item] }
    else
      { merge with currentContent := joinTo ' ' merge.currentContent item.content }

def mergeBlockText (parserResult : List Info) : List Text × List Info :=
  let merge := parserResult.foldl Merge.item ⟨[], [], [], none⟩
  (if merge.currentContent = [] then merge.blockContent
    else merge.blockContent ++ [merge.currentContent], merge.tableInfoList)

end Merging

section Chunking

variable (tokenize : Text → Text) (chunkTokenNum : Nat)

def tokensOf (block : Text) : List Text :=
  if tokenize block = [] then [] else (tokenize block).splitOnP (· = ' ')

structure Packing where
  chunks : List Text
  currentBlock : Text
  currentTokenCount : Nat

def Packing.flush (packing : Packing) : List Text :=
  if packing.currentBlock = [] then packing.chunks else packing.chunks ++ [packing.currentBlock]

def Packing.block (packing : Packing) (block : Text) : Packing :=
  if chunkTokenNum < (tokensOf tokenize block).length then
    ⟨packing.flush ++ (Paging.batches chunkTokenNum (tokensOf tokenize block)).map
      [' '].intercalate, [], 0⟩
  else if packing.currentTokenCount + (tokensOf tokenize block).length ≤ chunkTokenNum then
    ⟨packing.chunks,
      joinTo '\n' packing.currentBlock block,
      packing.currentTokenCount + (tokensOf tokenize block).length⟩
  else
    ⟨packing.chunks ++ [packing.currentBlock], block, (tokensOf tokenize block).length⟩

def chunkBlock (blockTxtList : List Text) : List Text :=
  (blockTxtList.foldl (Packing.block tokenize chunkTokenNum) ⟨[], [], 0⟩).flush

/-- `parser_txt` of a document with these nodes in its body. -/
def parserTxt (html : Node → Text) (body : List Node) : List Text :=
  let merged := mergeBlockText (sectionsOf html body)
  chunkBlock tokenize chunkTokenNum merged.1 ++ merged.2.map Info.content

end Chunking

structure Shown where
  text : Text
  inBlock : Bool

mutual

def shown (parentName : String) (inBlock : Bool) : Node → List Shown
  | .text content =>
    if PyString.stripChars content = [] then []
    else if inBlock then [⟨marked parentName (PyString.stripChars content), true⟩]
    else [⟨PyString.stripChars content, false⟩]
  | .tag name children =>
    if lower name = "table" then []
    else shownIn name (inBlock || lower name ∈ blockTags) children

def shownIn (name : String) (inBlock : Bool) : List Node → List Shown
  | [] => []
  | child :: rest => shown name inBlock child ++ shownIn name inBlock rest

end

mutual

def tables (html : Node → Text) : Node → List Text
  | .text _ => []
  | .tag name children =>
    if lower name = "table" then [html (.tag name children)] else tablesIn html children

def tablesIn (html : Node → Text) : List Node → List Text
  | [] => []
  | child :: rest => tables html child ++ tablesIn html rest

end

inductive Chunk
  | joined (blocks : List Text)
  | part (tokens : List Text)

def Chunk.text : Chunk → Text
  | joined blocks => ['\n'].intercalate blocks
  | part tokens => [' '].intercalate tokens

def Chunk.entries : Chunk → List Text
  | joined blocks => blocks
  | part tokens => tokens

def Chunk.size (tokenize : Text → Text) : Chunk → Nat
  | joined blocks => (blocks.map fun block => (tokensOf tokenize block).length).sum
  | part tokens => tokens.length

def keptBlock (tokenize : Text → Text) (chunkTokenNum : Nat) (block : Text) : List Text :=
  if chunkTokenNum < (tokensOf tokenize block).length then tokensOf tokenize block else [block]

/-- The chunks hold the blocks in order, and none has too many tokens. -/
structure Keeps (tokenize : Text → Text) (chunkTokenNum : Nat) (blocks : List Text)
    (chunks : List Chunk) : Prop where
  entries : chunks.flatMap Chunk.entries = blocks.flatMap (keptBlock tokenize chunkTokenNum)
  within : ∀ chunk ∈ chunks, chunk.size tokenize ≤ chunkTokenNum

/-- Each text is in one section, in order, the chunks hold the sections, and each table follows. -/
structure Conserves (html : Node → Text) (body : List Node) : Prop where
  sections : ∃ groups : List (List Text),
    groups.flatten = (shownIn "body" false body).map Shown.text ∧
      (mergeBlockText (sectionsOf html body)).1 = groups.map [' '].intercalate
  chunks : ∀ tokenize chunkTokenNum, 1 ≤ chunkTokenNum → ∃ chunks : List Chunk,
    parserTxt tokenize chunkTokenNum html body = chunks.map Chunk.text ++ tablesIn html body ∧
      Keeps tokenize chunkTokenNum (mergeBlockText (sectionsOf html body)).1 chunks

section ReadingLemmas

def Info.shown (item : Info) : Option Shown :=
  match item.blockId with
  | some _ => some ⟨marked item.tagName item.content, true⟩
  | none => if item.tagName = "table" then none else some ⟨item.content, false⟩

def Info.table (item : Info) : Option Text :=
  if item.blockId = none ∧ item.tagName = "table" then some item.content else none

theorem ne_table {name : String} (notTable : ¬ lower name = "table") : name ≠ "table" := by
  rintro rfl
  exact notTable (by decide +kernel)

variable (html : Node → Text)

mutual

theorem readText_spec (parserResult : List Info) (uuids : Nat) {parentName : String}
    (notTable : parentName ≠ "table") (blockId : Option Nat) (node : Node) :
    ∃ news, (readText html parserResult uuids (some parentName) blockId node).2.1 ++
        (readText html parserResult uuids (some parentName) blockId node).1 =
          parserResult ++ news ∧
      news.filterMap Info.shown = shown parentName blockId.isSome node ∧
      news.filterMap Info.table = tables html node := by
  cases node with
  | text content =>
    rw [readText, shown, tables]
    split
    · exact ⟨[], by simp⟩
    · apply Exists.intro [⟨PyString.stripChars content, parentName, blockId⟩]
      cases blockId with
      | none => simp [Info.shown, Info.table, notTable]
      | some blockId => simp [Info.shown, Info.table]
  | tag name children =>
    rw [readText, shown, tables]
    split
    case isTrue => exact ⟨[⟨html (.tag name children), "table", none⟩], rfl, rfl, rfl⟩
    case isFalse isOther =>
      split
      case isTrue isBlock =>
        obtain ⟨news, isResult, isShown, isTable⟩ := readChildren_spec parserResult (uuids + 1)
          (ne_table isOther) (some uuids) children
        exact ⟨news, by simpa using isResult, by simpa [isBlock] using isShown, isTable⟩
      case isFalse notBlock =>
        obtain ⟨news, isResult, isShown, isTable⟩ :=
          readChildren_spec parserResult uuids (ne_table isOther) blockId children
        exact ⟨news, by simpa using isResult, by simpa [notBlock] using isShown, isTable⟩

theorem readChildren_spec (parserResult : List Info) (uuids : Nat) {name : String}
    (notTable : name ≠ "table") (blockId : Option Nat) (children : List Node) :
    ∃ news, (readChildren html parserResult uuids name blockId children).1 =
        parserResult ++ news ∧
      news.filterMap Info.shown = shownIn name blockId.isSome children ∧
      news.filterMap Info.table = tablesIn html children := by
  cases children with
  | nil => exact ⟨[], by simp [readChildren, shownIn, tablesIn]⟩
  | cons child rest =>
    obtain ⟨first, isFirst, firstShown, firstTable⟩ :=
      readText_spec parserResult uuids notTable blockId child
    have unfolded : readChildren html parserResult uuids name blockId (child :: rest) =
        readChildren html ((readText html parserResult uuids (some name) blockId child).2.1 ++
            (readText html parserResult uuids (some name) blockId child).1)
          (readText html parserResult uuids (some name) blockId child).2.2 name blockId rest := by
      rw [readChildren]
    rw [unfolded, isFirst]
    obtain ⟨later, isLater, laterShown, laterTable⟩ :=
      readChildren_spec (parserResult ++ first)
        (readText html parserResult uuids (some name) blockId child).2.2 notTable blockId rest
    apply Exists.intro (first ++ later)
    rw [isLater, List.append_assoc, List.filterMap_append, List.filterMap_append, firstShown,
      laterShown, firstTable, laterTable, shownIn, tablesIn]
    exact ⟨rfl, rfl, rfl⟩

end

theorem sectionsOf_spec (body : List Node) :
    (sectionsOf html body).filterMap Info.shown = shownIn "body" false body ∧
      (sectionsOf html body).filterMap Info.table = tablesIn html body := by
  have isRead : sectionsOf html body = (readChildren html [] 0 "body" none body).1 := by
    have notTable : ¬ lower "body" = "table" := by decide +kernel
    have notBlock : ¬ lower "body" ∈ blockTags := by decide +kernel
    rw [sectionsOf, readText, if_neg notTable, if_neg notBlock]
  obtain ⟨news, isResult, isShown, isTable⟩ :=
    readChildren_spec html [] 0 (show "body" ≠ "table" by decide) none body
  rw [isRead, isResult]
  exact ⟨isShown, isTable⟩

end ReadingLemmas

section MergingLemmas

def solid (text : Text) : Nat := text.countP (· ≠ ' ')

theorem solid_joinTo (current text : Text) :
    solid (joinTo ' ' current text) = solid current + solid text := by
  unfold joinTo solid
  split
  case isTrue isNil => simp [isNil]
  case isFalse => simp

theorem intercalate_ne_nil (separator : Char) {texts : List Text}
    (solids : ∀ text ∈ texts, text ≠ []) (nonempty : texts ≠ []) :
    [separator].intercalate texts ≠ [] := by
  match texts with
  | [] => exact absurd rfl nonempty
  | [first] => simpa using solids
  | first :: second :: rest => simp [List.intercalate_cons_cons]

theorem intercalate_concat (separator : Char) {texts : List Text}
    (solids : ∀ text ∈ texts, text ≠ []) (text : Text) :
    [separator].intercalate (texts ++ [text]) =
      joinTo separator ([separator].intercalate texts) text := by
  induction texts with
  | nil => simp [joinTo]
  | cons first rest ih =>
    have isFirst := solids first List.mem_cons_self
    cases rest with
    | nil => simp [joinTo, isFirst, List.intercalate_cons_cons]
    | cons second rest =>
      have later := ih fun text member => solids text (List.mem_cons_of_mem _ member)
      rw [List.cons_append] at later ⊢
      rw [List.cons_append, List.intercalate_cons_cons, later, List.intercalate_cons_cons]
      have nonempty := intercalate_ne_nil separator
        (fun text member => solids text (List.mem_cons_of_mem _ member))
        (List.cons_ne_nil second rest)
      simp [joinTo, nonempty]

theorem solid_intercalate (texts : List Text) :
    solid ([' '].intercalate texts) = (texts.map solid).sum := by
  induction texts with
  | nil => rfl
  | cons first rest ih =>
    cases rest with
    | nil => simp
    | cons second rest =>
      rw [List.intercalate_cons_cons, List.map_cons, List.sum_cons, ← ih]
      simp [solid]

theorem sum_solid_sections (groups : List (List Text)) :
    ((groups.map [' '].intercalate).map solid).sum = (groups.flatten.map solid).sum := by
  induction groups with
  | nil => rfl
  | cons first rest ih => simp_all [solid_intercalate]

/-- No text of a block comes after texts that are all outside blocks. -/
def LosesNone (texts : List Shown) : Prop :=
  ∀ first rest, texts = first :: rest → first.inBlock = true ∨ ∀ text ∈ rest, text.inBlock = false

def totalOf (texts : List Shown) : Nat := (texts.map fun text => solid text.text).sum

def Merge.total (merge : Merge) : Nat :=
  (merge.blockContent.map solid).sum + solid merge.currentContent

structure Merge.Holds (merge : Merge) (texts : List Shown) (groups : List (List Text))
    (group : List Text) : Prop where
  closed : merge.blockContent = groups.map [' '].intercalate
  current : merge.currentContent = [' '].intercalate group
  all : groups.flatten ++ group = texts.map Shown.text
  nonempty : ∀ group ∈ groups, group ≠ []
  outside : merge.lastBlockId = none → groups = [] ∧ ∀ text ∈ texts, text.inBlock = false
  inside : merge.lastBlockId ≠ none → group ≠ [] ∧ ∃ text ∈ texts, text.inBlock = true

theorem Merge.item_cases {item : Info} {text : Shown} (isShown : item.shown = some text)
    (merge : Merge) :
    (text.inBlock = true ∧ ∃ blockId, merge.item item =
      ⟨if merge.lastBlockId ≠ none then merge.blockContent ++ [merge.currentContent]
        else merge.blockContent, text.text, merge.tableInfoList, some blockId⟩) ∨
    (text.inBlock = true → merge.lastBlockId ≠ none) ∧
      merge.item item =
        { merge with currentContent := joinTo ' ' merge.currentContent text.text } := by
  unfold Info.shown at isShown
  cases isBlock : item.blockId with
  | none =>
    rw [isBlock] at isShown
    simp only at isShown
    split at isShown
    case isTrue => cases isShown
    case isFalse notTable =>
      cases isShown
      right
      simp [Merge.item, isBlock, notTable]
  | some blockId =>
    rw [isBlock] at isShown
    cases isShown
    by_cases isNew : merge.lastBlockId = some blockId
    · right
      simp [Merge.item, isBlock, isNew]
    · left
      exact ⟨rfl, blockId, by simp [Merge.item, isBlock, isNew]⟩

theorem Merge.item_table {item : Info} (isTable : item.shown = none) (merge : Merge) :
    merge.item item = { merge with tableInfoList := merge.tableInfoList ++ [item] } := by
  unfold Info.shown at isTable
  cases isBlock : item.blockId with
  | none =>
    rw [isBlock] at isTable
    simp only at isTable
    split at isTable
    case isTrue isName => simp [Merge.item, isBlock, isName]
    case isFalse => cases isTable
  | some blockId =>
    rw [isBlock] at isTable
    cases isTable

theorem total_item_le {item : Info} {text : Shown} (isShown : item.shown = some text)
    (merge : Merge) : (merge.item item).total ≤ merge.total + solid text.text ∧
      (merge.lastBlockId = none → text.inBlock = true → 0 < solid merge.currentContent →
        (merge.item item).total < merge.total + solid text.text) := by
  rcases merge.item_cases isShown with ⟨_, blockId, opens⟩ | ⟨isOpen, continues⟩
  · rw [opens]
    simp only [Merge.total]
    split
    · simp only [List.map_append, List.map_singleton, List.sum_append, List.sum_singleton]
      exact ⟨by omega, fun noBlock => absurd noBlock ‹_›⟩
    · exact ⟨by omega, by omega⟩
  · rw [continues]
    simp only [Merge.total, solid_joinTo]
    exact ⟨by omega, fun noBlock inBlock => absurd noBlock (isOpen inBlock)⟩

theorem Merge.Holds.item {merge : Merge} {texts : List Shown} {groups : List (List Text)}
    {group : List Text} (holds : merge.Holds texts groups group)
    (solids : ∀ text ∈ texts, text.text ≠ []) {item : Info} {text : Shown}
    (isShown : item.shown = some text)
    (kept : merge.lastBlockId = none → text.inBlock = true → texts = []) :
    ∃ groups group, (merge.item item).Holds (texts ++ [text]) groups group := by
  have groupSolids : ∀ text ∈ group, text ≠ [] := by
    intro content member
    have isText : content ∈ texts.map Shown.text := holds.all ▸ List.mem_append_right _ member
    obtain ⟨other, isOther, rfl⟩ := List.mem_map.mp isText
    exact solids other isOther
  rcases merge.item_cases isShown with ⟨inBlock, blockId, opens⟩ | ⟨isOpen, continues⟩
  · rw [opens]
    by_cases isFirst : merge.lastBlockId = none
    · obtain rfl := kept isFirst inBlock
      obtain ⟨rfl, _⟩ := holds.outside isFirst
      apply Exists.intro []
      apply Exists.intro [text.text]
      constructor
      case closed => simp [isFirst, holds.closed]
      case outside => simp
      case inside => simp [inBlock]
      all_goals simp
    · apply Exists.intro (groups ++ [group])
      apply Exists.intro [text.text]
      constructor
      case closed => simp [isFirst, holds.closed, holds.current]
      case current => simp
      case all => simp [← holds.all]
      case nonempty =>
        intro group member
        rcases List.mem_append.mp member with before | isGroup
        · exact holds.nonempty group before
        · obtain rfl := List.mem_singleton.mp isGroup
          exact (holds.inside isFirst).1
      case outside => simp
      case inside => simp [inBlock]
  · rw [continues]
    apply Exists.intro groups
    apply Exists.intro (group ++ [text.text])
    constructor
    case closed => exact holds.closed
    case current => rw [intercalate_concat _ groupSolids, ← holds.current]
    case all => rw [← List.append_assoc, holds.all, List.map_append, List.map_singleton]
    case nonempty => exact holds.nonempty
    case outside =>
      intro isFirst
      obtain ⟨isNil, loose⟩ := holds.outside isFirst
      apply And.intro isNil
      intro other member
      rcases List.mem_append.mp member with before | isText
      · exact loose other before
      · obtain rfl := List.mem_singleton.mp isText
        exact Bool.eq_false_iff.mpr fun inBlock => isOpen inBlock isFirst
    case inside =>
      intro isLater
      obtain ⟨_, other, member, inBlock⟩ := holds.inside isLater
      exact ⟨by simp, other, List.mem_append_left _ member, inBlock⟩

theorem Merge.Holds.total_eq {merge : Merge} {texts : List Shown} {groups : List (List Text)}
    {group : List Text} (holds : merge.Holds texts groups group) : merge.total = totalOf texts := by
  have all : totalOf texts = ((groups.flatten ++ group).map solid).sum := by
    rw [holds.all, List.map_map]
    rfl
  rw [all, Merge.total, holds.closed, holds.current, sum_solid_sections, solid_intercalate,
    List.map_append, List.sum_append]

theorem Merge.Holds.sections {items : List Info} {texts : List Shown} {groups : List (List Text)}
    {group : List Text}
    (holds : (items.foldl Merge.item ⟨[], [], [], none⟩).Holds texts groups group)
    (solids : ∀ text ∈ texts, text.text ≠ []) :
    ∃ groups : List (List Text), groups.flatten = texts.map Shown.text ∧
      (mergeBlockText items).1 = groups.map [' '].intercalate ∧
      ∀ block ∈ (mergeBlockText items).1, block ≠ [] := by
  have contents : ∀ content ∈ groups.flatten ++ group, content ≠ [] := by
    rw [holds.all]
    intro content member
    obtain ⟨text, isText, rfl⟩ := List.mem_map.mp member
    exact solids text isText
  have closed : ∀ block ∈ groups.map [' '].intercalate, block ≠ [] := by
    intro block member
    obtain ⟨group, isGroup, rfl⟩ := List.mem_map.mp member
    apply intercalate_ne_nil ' ' _ (holds.nonempty group isGroup)
    intro content inGroup
    exact contents content (List.mem_append_left _ (List.mem_flatten_of_mem isGroup inGroup))
  unfold mergeBlockText
  simp only [holds.closed, holds.current]
  split
  case isTrue isNil =>
    have noGroup : group = [] := by
      by_contra nonempty
      exact intercalate_ne_nil ' '
        (fun content member => contents content (List.mem_append_right _ member)) nonempty isNil
    exact ⟨groups, by rw [← holds.all, noGroup, List.append_nil], rfl, closed⟩
  case isFalse nonempty =>
    apply Exists.intro (groups ++ [group])
    rw [List.flatten_append, List.flatten_singleton, List.map_append, List.map_singleton]
    apply And.intro holds.all
    apply And.intro rfl
    intro block member
    rcases List.mem_append.mp member with before | isLast
    · exact closed block before
    · exact List.mem_singleton.mp isLast ▸ nonempty

theorem LosesNone.of_concat {texts : List Shown} {text : Shown}
    (losesNone : LosesNone (texts ++ [text])) : LosesNone texts := by
  rintro first rest rfl
  rcases losesNone first (rest ++ [text]) rfl with inBlock | loose
  · exact .inl inBlock
  · exact .inr fun other member => loose other (List.mem_append_left _ member)

theorem Merge.Holds.eq_nil {merge : Merge} {texts : List Shown} {groups : List (List Text)}
    {group : List Text} (holds : merge.Holds texts groups group) {text : Shown}
    (losesNone : LosesNone (texts ++ [text])) (isFirst : merge.lastBlockId = none)
    (inBlock : text.inBlock = true) : texts = [] := by
  by_contra nonempty
  obtain ⟨first, rest, rfl⟩ := List.exists_cons_of_ne_nil nonempty
  have loose := (holds.outside isFirst).2 first List.mem_cons_self
  rcases losesNone first (rest ++ [text]) rfl with inFirst | looseRest
  · rw [loose] at inFirst
    cases inFirst
  · rw [looseRest text (by simp)] at inBlock
    cases inBlock

theorem Merge.Holds.loses {merge : Merge} {texts : List Shown} {groups : List (List Text)}
    {group : List Text} (holds : merge.Holds texts groups group) {text : Shown}
    (before : LosesNone texts) (loses : ¬ LosesNone (texts ++ [text])) :
    merge.lastBlockId = none ∧ text.inBlock = true ∧ texts ≠ [] := by
  simp only [LosesNone, not_forall, not_or] at loses
  obtain ⟨first, rest, isCons, outFirst, other, isOther, inOther⟩ := loses
  cases texts with
  | nil =>
    obtain ⟨rfl, rfl⟩ := List.cons_eq_cons.mp isCons
    cases isOther
  | cons head tail =>
    obtain ⟨rfl, rfl⟩ := List.cons_eq_cons.mp isCons
    have loose := (before head tail rfl).resolve_left outFirst
    refine ⟨?_, ?_, List.cons_ne_nil head tail⟩
    · by_contra isLater
      obtain ⟨_, found, member, inFound⟩ := holds.inside isLater
      rcases List.mem_cons.mp member with rfl | inTail
      · exact outFirst inFound
      · rw [loose found inTail] at inFound
        cases inFound
    · rcases List.mem_append.mp isOther with inTail | isText
      · exact absurd (loose other inTail) inOther
      · obtain rfl := List.mem_singleton.mp isText
        exact Bool.eq_true_of_not_eq_false inOther

theorem merged (items : List Info)
    (solids : ∀ text ∈ items.filterMap Info.shown, 0 < solid text.text) :
    let merge := items.foldl Merge.item ⟨[], [], [], none⟩
    let texts := items.filterMap Info.shown
    (LosesNone texts → ∃ groups group, merge.Holds texts groups group) ∧
      (¬ LosesNone texts → merge.total < totalOf texts) := by
  induction items using List.reverseRecOn with
  | nil =>
    constructor
    · intro _
      exact ⟨[], [], rfl, rfl, rfl, by simp, by simp, by simp⟩
    · intro loses
      exact absurd (fun _ _ isCons => nomatch isCons) loses
  | append_singleton items item ih =>
    rw [List.filterMap_append] at solids ⊢
    rw [List.foldl_append, List.foldl_cons, List.foldl_nil]
    obtain ⟨keeps, loses⟩ := ih fun text member => solids text (List.mem_append_left _ member)
    cases isShown : item.shown with
    | none =>
      rw [Merge.item_table isShown]
      simp only [List.filterMap_cons, isShown, List.filterMap_nil, List.append_nil]
      constructor
      · intro losesNone
        obtain ⟨groups, group, holds⟩ := keeps losesNone
        exact ⟨groups, group, { holds with }⟩
      · exact loses
    | some text =>
      simp only [List.filterMap_cons, isShown, List.filterMap_nil] at solids ⊢
      generalize items.filterMap Info.shown = texts at *
      generalize items.foldl Merge.item ⟨[], [], [], none⟩ = merge at *
      obtain ⟨atMost, less⟩ := total_item_le isShown merge
      have added : totalOf (texts ++ [text]) = totalOf texts + solid text.text := by
        simp [totalOf]
      rw [added]
      by_cases before : LosesNone texts
      · obtain ⟨groups, group, holds⟩ := keeps before
        have isTotal := holds.total_eq
        constructor
        · intro losesNone
          apply holds.item _ isShown
          · exact holds.eq_nil losesNone
          · intro other member isNil
            have := solids other (List.mem_append_left _ member)
            rw [isNil] at this
            exact absurd this (by decide)
        · intro loses
          obtain ⟨isFirst, inBlock, nonempty⟩ := holds.loses before loses
          obtain ⟨head, tail, rfl⟩ := List.exists_cons_of_ne_nil nonempty
          have positive := solids head List.mem_cons_self
          have isCurrent : merge.total = solid merge.currentContent := by
            rw [Merge.total, holds.closed, (holds.outside isFirst).1]
            simp
          have isSum : totalOf (head :: tail) = solid head.text + totalOf tail := rfl
          have := less isFirst inBlock (by omega)
          omega
      · have := loses before
        constructor
        · intro losesNone
          exact absurd losesNone.of_concat before
        · intro _
          omega

theorem tables_merged (items : List Info) :
    (items.foldl Merge.item ⟨[], [], [], none⟩).tableInfoList.map Info.content =
      items.filterMap Info.table := by
  induction items using List.reverseRecOn with
  | nil => rfl
  | append_singleton items item ih =>
    rw [List.filterMap_append, ← ih, List.foldl_append, List.foldl_cons, List.foldl_nil]
    generalize items.foldl Merge.item ⟨[], [], [], none⟩ = merge
    cases isBlock : item.blockId with
    | none =>
      by_cases isName : item.tagName = "table"
      · simp [Merge.item, isBlock, isName, Info.table]
      · simp [Merge.item, isBlock, isName, Info.table]
    | some blockId =>
      simp only [Merge.item, isBlock, Info.table]
      split <;> simp [isBlock, Info.table]

end MergingLemmas

section ChunkingLemmas

variable {tokenize : Text → Text} {chunkTokenNum : Nat}

theorem Keeps.append {blocks others : List Text} {chunks later : List Chunk}
    (keeps : Keeps tokenize chunkTokenNum blocks chunks)
    (keepsOthers : Keeps tokenize chunkTokenNum others later) :
    Keeps tokenize chunkTokenNum (blocks ++ others) (chunks ++ later) := by
  constructor
  case entries => rw [List.flatMap_append, List.flatMap_append, keeps.entries, keepsOthers.entries]
  case within =>
    intro chunk member
    rcases List.mem_append.mp member with before | after
    · exact keeps.within chunk before
    · exact keepsOthers.within chunk after

theorem keeps_batches (positive : 1 ≤ chunkTokenNum) {block : Text}
    (tooLong : chunkTokenNum < (tokensOf tokenize block).length) :
    Keeps tokenize chunkTokenNum [block]
      ((Paging.batches chunkTokenNum (tokensOf tokenize block)).map .part) := by
  constructor
  case entries =>
    rw [List.flatMap_map, List.flatMap_singleton, keptBlock, if_pos tooLong]
    exact List.flatMap_id.trans (Paging.flatten_batches positive _)
  case within =>
    intro chunk member
    obtain ⟨tokens, isBatch, rfl⟩ := List.mem_map.mp member
    obtain ⟨index, _, rfl⟩ := List.mem_map.mp isBatch
    exact Paging.slice_length_le _ _ _

structure Packing.Holds (tokenize : Text → Text) (chunkTokenNum : Nat) (packing : Packing)
    (blocks : List Text) (chunks : List Chunk) (waiting : List Text) : Prop where
  closed : packing.chunks = chunks.map Chunk.text
  current : packing.currentBlock = ['\n'].intercalate waiting
  count : packing.currentTokenCount = (Chunk.joined waiting).size tokenize
  solids : ∀ block ∈ waiting, block ≠ []
  keeps : Keeps tokenize chunkTokenNum blocks (chunks ++ [.joined waiting])

theorem Packing.Holds.flush {packing : Packing} {blocks : List Text} {chunks : List Chunk}
    {waiting : List Text} (holds : packing.Holds tokenize chunkTokenNum blocks chunks waiting) :
    ∃ chunks : List Chunk, packing.flush = chunks.map Chunk.text ∧
      Keeps tokenize chunkTokenNum blocks chunks := by
  unfold Packing.flush
  cases waiting with
  | nil =>
    have isNil : packing.currentBlock = [] := holds.current
    rw [if_pos isNil]
    apply Exists.intro chunks
    apply And.intro holds.closed
    constructor
    case entries => simpa [Chunk.entries] using holds.keeps.entries
    case within => exact fun chunk member =>
      holds.keeps.within chunk (List.mem_append_left _ member)
  | cons first rest =>
    have nonempty : packing.currentBlock ≠ [] := by
      rw [holds.current]
      exact intercalate_ne_nil '\n' holds.solids (List.cons_ne_nil first rest)
    rw [if_neg nonempty]
    apply Exists.intro (chunks ++ [.joined (first :: rest)])
    apply And.intro _ holds.keeps
    rw [List.map_append, holds.closed, holds.current]
    rfl

theorem Packing.Holds.block (positive : 1 ≤ chunkTokenNum) {packing : Packing}
    {blocks : List Text} {chunks : List Chunk} {waiting : List Text}
    (holds : packing.Holds tokenize chunkTokenNum blocks chunks waiting) {block : Text}
    (nonempty : block ≠ []) :
    ∃ chunks waiting, (packing.block tokenize chunkTokenNum block).Holds tokenize chunkTokenNum
      (blocks ++ [block]) chunks waiting := by
  unfold Packing.block
  split
  case isTrue tooLong =>
    obtain ⟨flushed, isFlush, keeps⟩ := holds.flush
    apply Exists.intro
      (flushed ++ (Paging.batches chunkTokenNum (tokensOf tokenize block)).map .part)
    apply Exists.intro []
    constructor
    case closed => simp [isFlush, Chunk.text]
    case keeps =>
      have empty : Keeps tokenize chunkTokenNum [] [.joined []] := ⟨rfl, by simp [Chunk.size]⟩
      simpa using (keeps.append (keeps_batches positive tooLong)).append empty
    case current => rfl
    case count => rfl
    case solids => simp
  case isFalse notTooLong =>
    have isKept : keptBlock tokenize chunkTokenNum block = [block] := if_neg notTooLong
    split
    case isTrue fits =>
      apply Exists.intro chunks
      apply Exists.intro (waiting ++ [block])
      constructor
      case closed => exact holds.closed
      case current => rw [intercalate_concat '\n' holds.solids, ← holds.current]
      case count => simp [holds.count, Chunk.size]
      case solids =>
        intro other member
        rcases List.mem_append.mp member with before | isBlock
        · exact holds.solids other before
        · exact List.mem_singleton.mp isBlock ▸ nonempty
      case keeps =>
        constructor
        case entries =>
          have entries : chunks.flatMap Chunk.entries ++ waiting =
              blocks.flatMap (keptBlock tokenize chunkTokenNum) := by
            simpa [Chunk.entries] using holds.keeps.entries
          simp [Chunk.entries, isKept, ← entries]
        case within =>
          intro chunk member
          rcases List.mem_append.mp member with before | isLast
          · exact holds.keeps.within chunk (List.mem_append_left _ before)
          · obtain rfl := List.mem_singleton.mp isLast
            rw [holds.count] at fits
            simpa [Chunk.size] using fits
    case isFalse =>
      apply Exists.intro (chunks ++ [.joined waiting])
      apply Exists.intro [block]
      constructor
      case closed => simp [holds.closed, holds.current, Chunk.text]
      case current => simp
      case count => simp [Chunk.size]
      case solids => simpa using nonempty
      case keeps =>
        have alone : Keeps tokenize chunkTokenNum [block] [.joined [block]] := by
          constructor
          case entries => simp [Chunk.entries, isKept]
          case within => simpa [Chunk.size] using notTooLong
        exact holds.keeps.append alone

variable (tokenize) in
theorem chunkBlock_keeps (positive : 1 ≤ chunkTokenNum) {blocks : List Text}
    (solids : ∀ block ∈ blocks, block ≠ []) :
    ∃ chunks : List Chunk, chunkBlock tokenize chunkTokenNum blocks = chunks.map Chunk.text ∧
      Keeps tokenize chunkTokenNum blocks chunks := by
  have run : ∃ chunks waiting, (blocks.foldl (Packing.block tokenize chunkTokenNum)
      ⟨[], [], 0⟩).Holds tokenize chunkTokenNum blocks chunks waiting := by
    induction blocks using List.reverseRecOn with
    | nil => exact ⟨[], [], rfl, rfl, rfl, by simp, rfl, by simp [Chunk.size]⟩
    | append_singleton blocks block ih =>
      obtain ⟨chunks, waiting, holds⟩ :=
        ih fun other member => solids other (List.mem_append_left _ member)
      rw [List.foldl_append]
      exact holds.block positive (solids block (by simp))
  obtain ⟨chunks, waiting, holds⟩ := run
  exact holds.flush

end ChunkingLemmas

theorem solid_stripChars {content : Text} (nonempty : PyString.stripChars content ≠ []) :
    0 < solid (PyString.stripChars content) := by
  by_contra noSolid
  have spaces : ∀ char ∈ PyString.stripChars content, char = ' ' := by
    simpa [solid, List.countP_eq_zero] using noSolid
  have isNil : (PyString.stripChars content).dropWhile PyString.isSpace = [] := by
    apply List.dropWhile_eq_nil_iff.mpr
    intro char member
    rw [spaces char member]
    rfl
  apply nonempty
  rw [← PyString.stripChars_stripChars, PyString.stripChars, isNil]
  rfl

theorem solid_marked (tagName : String) (content : Text) :
    solid content ≤ solid (marked tagName content) := by
  unfold marked
  split <;> simp [solid]

mutual

theorem shown_solid (parentName : String) (inBlock : Bool) (node : Node) :
    ∀ text ∈ shown parentName inBlock node, 0 < solid text.text := by
  intro text member
  cases node with
  | text content =>
    rw [shown] at member
    split at member
    case isTrue => cases member
    case isFalse nonempty =>
      have positive := solid_stripChars nonempty
      split at member
      · obtain rfl := List.mem_singleton.mp member
        exact positive.trans_le (solid_marked _ _)
      · obtain rfl := List.mem_singleton.mp member
        exact positive
  | tag name children =>
    rw [shown] at member
    split at member
    case isTrue => cases member
    case isFalse => exact shownIn_solid name _ children text member

theorem shownIn_solid (name : String) (inBlock : Bool) (children : List Node) :
    ∀ text ∈ shownIn name inBlock children, 0 < solid text.text := by
  intro text member
  cases children with
  | nil => cases member
  | cons child rest =>
    rw [shownIn] at member
    rcases List.mem_append.mp member with isFirst | isLater
    · exact shown_solid name inBlock child text isFirst
    · exact shownIn_solid name inBlock rest text isLater

end

theorem sum_mergeBlockText (items : List Info) : ((mergeBlockText items).1.map solid).sum =
    (items.foldl Merge.item ⟨[], [], [], none⟩).total := by
  unfold mergeBlockText Merge.total
  simp only
  split
  case isTrue isNil => simp [isNil, solid]
  case isFalse => simp

/-- The sections of a document hold all its texts exactly when no text outside the block elements
comes before all those inside them. -/
theorem conserves_iff_losesNone (html : Node → Text) (body : List Node) :
    Conserves html body ↔ LosesNone (shownIn "body" false body) := by
  obtain ⟨isShown, isTable⟩ := sectionsOf_spec html body
  have solids := shownIn_solid "body" false body
  obtain ⟨keeps, loses⟩ := merged (sectionsOf html body) (isShown ▸ solids)
  rw [isShown] at keeps loses
  constructor
  · intro conserves
    obtain ⟨groups, all, sections⟩ := conserves.sections
    by_contra isLost
    have less := loses isLost
    rw [← sum_mergeBlockText, sections, sum_solid_sections, all, List.map_map] at less
    exact absurd less (Nat.lt_irrefl _)
  · intro losesNone
    obtain ⟨groups, group, holds⟩ := keeps losesNone
    obtain ⟨groups, all, sections, nonempty⟩ := holds.sections fun text member isNil => by
      simpa [isNil, solid] using solids text member
    constructor
    case sections => exact ⟨groups, all, sections⟩
    case chunks =>
      intro tokenize chunkTokenNum positive
      obtain ⟨chunks, isChunks, keepsBlocks⟩ :=
        chunkBlock_keeps tokenize positive nonempty
      apply Exists.intro chunks
      apply And.intro _ keepsBlocks
      rw [parserTxt, isChunks, ← isTable, ← tables_merged]
      rfl

/-- The loose text is overwritten by the first block. -/
theorem not_conserves_loose : ¬ Conserves (fun _ => [])
    [.text ['H', 'e', 'l', 'l', 'o'], .tag "p" [.text ['W', 'o', 'r', 'l', 'd']]] := by
  intro conserves
  obtain ⟨groups, all, sections⟩ := conserves.sections
  have total := sum_solid_sections groups
  rw [all, ← sections] at total
  exact absurd total (by decide +kernel)

end RagFlow.Chunking.HtmlSections
