import Mathlib.Data.List.Basic
import Mathlib.Data.List.TakeWhile
import Mathlib.Data.List.Nodup

/-!
# Trees of headings

Lines with levels form a tree: a line down to a depth is a heading below the nearest heading before
it of a smaller level, a deeper line is content of the heading before it.  The tree is built on a
stack of open headings; it is also the recursive outline of the lines.
-/

namespace RagFlow.Lib

universe u

inductive Forest (Item : Type u)
  | nil
  | cons (level : Nat) (titles body : List Item) (children siblings : Forest Item)
  deriving DecidableEq

namespace Forest

variable {Item : Type u}

def append : Forest Item → Forest Item → Forest Item
  | nil, others => others
  | cons level titles body children siblings, others =>
    cons level titles body children (siblings.append others)

def items : Forest Item → List Item
  | nil => []
  | cons _ titles body children siblings => titles ++ body ++ children.items ++ siblings.items

@[simp] theorem append_nil (forest : Forest Item) : forest.append nil = forest := by
  induction forest with
  | nil => rfl
  | cons level titles body children siblings _ ih =>
    rw [append, ih]

def Holds : Forest Item → Item → Forest Item → Prop
  | nil, _, _ => False
  | cons _ _ body children siblings, item, below =>
    (item ∈ body ∧ children = below) ∨ Holds children item below ∨ Holds siblings item below

def Headed (kind : Nat → Prop) : Forest Item → Prop
  | nil => True
  | cons level titles _ children siblings =>
    kind level ∧ titles.length = 1 ∧ Headed kind children ∧ Headed kind siblings

def isNil : Forest Item → Bool
  | nil => true
  | cons .. => false

theorem eq_nil_of_isNil {forest : Forest Item} (isNil : forest.isNil = true) : forest = nil := by
  cases forest with
  | nil => rfl
  | cons => cases isNil

theorem append_assoc (first second third : Forest Item) :
    (first.append second).append third = first.append (second.append third) := by
  induction first with
  | nil => rfl
  | cons level titles body children siblings _ ih =>
    rw [append, append, append, ih]

theorem mem_items_of_holds {item : Item} {below forest : Forest Item}
    (holds : forest.Holds item below) : item ∈ forest.items := by
  induction forest with
  | nil => cases holds
  | cons level titles body children siblings inChildren inSiblings =>
    simp only [items, List.mem_append]
    rcases holds with ⟨isMem, -⟩ | holds | holds
    · exact .inl (.inl (.inr isMem))
    · exact .inl (.inr (inChildren holds))
    · exact .inr (inSiblings holds)

def leafPaths (titles : List Item) : Forest Item → List (List Item)
  | nil => []
  | cons _ own body children siblings =>
    let path := titles ++ own ++ body
    (if children.isNil then [path] else []) ++ leafPaths path children ++
      leafPaths titles siblings

def sectionPaths (titles : List Item) : Forest Item → List (List Item)
  | nil => []
  | cons _ own body children siblings =>
    let path := titles ++ own
    (if body ≠ [] then [path ++ body] else if children.isNil then [path] else []) ++
      sectionPaths path children ++ sectionPaths titles siblings

def leaves : Forest Item → Nat
  | nil => 0
  | cons _ _ _ children siblings => max 1 children.leaves + siblings.leaves

def Descends (titles : List Item) (forest : Forest Item) (path : List Item) : Prop :=
  ∃ rest, path = titles ++ rest ∧ rest.Sublist forest.items

variable {titles path : List Item} {forest below : Forest Item} {item : Item}

theorem Descends.mem_of_mem (descends : Descends titles forest path) (isMem : item ∈ path) :
    item ∈ titles ∨ item ∈ forest.items := by
  obtain ⟨rest, rfl, sublist⟩ := descends
  exact (List.mem_append.mp isMem).imp_right fun inRest => sublist.subset inRest

theorem Descends.mem (descends : Descends titles forest path) (isMem : item ∈ titles) :
    item ∈ path := by
  obtain ⟨rest, rfl, -⟩ := descends
  exact List.mem_append_left _ isMem

theorem Descends.sibling {level : Nat} {own body : List Item} {children : Forest Item}
    (descends : Descends titles forest path) :
    Descends titles (cons level own body children forest) path := by
  obtain ⟨rest, rfl, sublist⟩ := descends
  exact ⟨rest, rfl, sublist.trans (List.sublist_append_right _ _)⟩

theorem Descends.child {level : Nat} {own body taken : List Item} {siblings : Forest Item}
    (some : taken.Sublist body) (descends : Descends (titles ++ own ++ taken) forest path) :
    Descends titles (cons level own body forest siblings) path := by
  obtain ⟨rest, rfl, sublist⟩ := descends
  refine ⟨own ++ taken ++ rest, by simp, ?_⟩
  exact ((((List.Sublist.refl own).append some).append sublist).trans
    (List.sublist_append_left _ _))

theorem descends_of_mem_leafPaths (isPath : path ∈ leafPaths titles forest) :
    Descends titles forest path := by
  induction forest generalizing titles with
  | nil => cases isPath
  | cons level own body children siblings inChildren inSiblings =>
    simp only [leafPaths, List.mem_append] at isPath
    rcases isPath with (leaf | isPath) | isPath
    · split_ifs at leaf with isNil
      · have none : Descends (titles ++ own ++ body) children path :=
          ⟨[], by simpa using leaf, List.nil_sublist _⟩
        exact none.child (.refl body)
      · cases leaf
    · exact (inChildren isPath).child (.refl body)
    · exact (inSiblings isPath).sibling

theorem descends_of_mem_sectionPaths (isPath : path ∈ sectionPaths titles forest) :
    Descends titles forest path := by
  induction forest generalizing titles with
  | nil => cases isPath
  | cons level own body children siblings inChildren inSiblings =>
    simp only [sectionPaths, List.mem_append] at isPath
    rcases isPath with (here | isPath) | isPath
    · have ends (taken : List Item) (isPath : path = titles ++ own ++ taken)
          (some : taken.Sublist body) :
          Descends titles (cons level own body children siblings) path :=
        Descends.child some ⟨[], by simpa using isPath, List.nil_sublist _⟩
      split_ifs at here with noBody isNil
      · exact ends body (by simpa using here) (.refl body)
      · exact ends [] (by simpa using here) (List.nil_sublist body)
      · cases here
    · have fromTitle : Descends (titles ++ own ++ []) children path := by
        simpa using inChildren isPath
      exact fromTitle.child (List.nil_sublist body)
    · exact (inSiblings isPath).sibling

theorem exists_leafPath (nonempty : forest ≠ nil) (titles : List Item) :
    ∃ path, path ∈ leafPaths titles forest := by
  induction forest generalizing titles with
  | nil => exact absurd rfl nonempty
  | cons level own body children siblings inChildren inSiblings =>
    by_cases isNil : children.isNil = true
    · exact ⟨_, List.mem_append_left _ (List.mem_append_left _ (by
        rw [if_pos isNil]
        exact List.mem_singleton_self _))⟩
    · have hasChildren : children ≠ nil := by
        rintro rfl
        exact isNil rfl
      obtain ⟨path, isPath⟩ := inChildren hasChildren (titles ++ own ++ body)
      exact ⟨path, List.mem_append_left _ (List.mem_append_right _ isPath)⟩

theorem exists_sectionPath (nonempty : forest ≠ nil) (titles : List Item) :
    ∃ path, path ∈ sectionPaths titles forest := by
  induction forest generalizing titles with
  | nil => exact absurd rfl nonempty
  | cons level own body children siblings inChildren inSiblings =>
    by_cases noBody : body = []
    · by_cases isNil : children.isNil = true
      · exact ⟨_, List.mem_append_left _ (List.mem_append_left _ (by
          rw [if_neg (not_not.mpr noBody), if_pos isNil]
          exact List.mem_singleton_self _))⟩
      · have hasChildren : children ≠ nil := by
          rintro rfl
          exact isNil rfl
        obtain ⟨path, isPath⟩ := inChildren hasChildren (titles ++ own)
        exact ⟨path, List.mem_append_left _ (List.mem_append_right _ isPath)⟩
    · exact ⟨_, List.mem_append_left _ (List.mem_append_left _ (by
        rw [if_pos noBody]
        exact List.mem_singleton_self _))⟩

theorem exists_leafPath_of_mem (isMem : item ∈ forest.items) (titles : List Item) :
    ∃ path ∈ leafPaths titles forest, item ∈ path := by
  induction forest generalizing titles with
  | nil => cases isMem
  | cons level own body children siblings inChildren inSiblings =>
    simp only [items, List.mem_append] at isMem
    simp only [leafPaths, List.mem_append]
    rcases isMem with (own | isMem) | isMem
    · by_cases isNil : children.isNil = true
      · refine ⟨_, .inl (.inl (by rw [if_pos isNil]; exact List.mem_singleton_self _)), ?_⟩
        rw [List.append_assoc]
        exact List.mem_append_right _ (List.mem_append.mpr own)
      · have hasChildren : children ≠ nil := by
          rintro rfl
          exact isNil rfl
        obtain ⟨path, isPath⟩ := exists_leafPath hasChildren (titles ++ _ ++ body)
        refine ⟨path, .inl (.inr isPath), (descends_of_mem_leafPaths isPath).mem ?_⟩
        rw [List.append_assoc]
        exact List.mem_append_right _ (List.mem_append.mpr own)
    · obtain ⟨path, isPath, onPath⟩ := inChildren isMem (titles ++ own ++ body)
      exact ⟨path, .inl (.inr isPath), onPath⟩
    · obtain ⟨path, isPath, onPath⟩ := inSiblings isMem titles
      exact ⟨path, .inr isPath, onPath⟩

theorem exists_sectionPath_of_mem (isMem : item ∈ forest.items) (titles : List Item) :
    ∃ path ∈ sectionPaths titles forest, item ∈ path := by
  induction forest generalizing titles with
  | nil => cases isMem
  | cons level own body children siblings inChildren inSiblings =>
    simp only [items, List.mem_append] at isMem
    simp only [sectionPaths, List.mem_append]
    rcases isMem with ((inOwn | inBody) | isMem) | isMem
    · have onTitle : item ∈ titles ++ own := List.mem_append_right _ inOwn
      by_cases noBody : body = []
      · by_cases isNil : children.isNil = true
        · refine ⟨titles ++ own, .inl (.inl ?_), onTitle⟩
          rw [if_neg (not_not.mpr noBody), if_pos isNil]
          exact List.mem_singleton_self _
        · have hasChildren : children ≠ nil := by
            rintro rfl
            exact isNil rfl
          obtain ⟨path, isPath⟩ := exists_sectionPath hasChildren (titles ++ own)
          exact ⟨path, .inl (.inr isPath), (descends_of_mem_sectionPaths isPath).mem onTitle⟩
      · refine ⟨titles ++ own ++ body, .inl (.inl ?_), List.mem_append_left _ onTitle⟩
        rw [if_pos noBody]
        exact List.mem_singleton_self _
    · refine ⟨titles ++ own ++ body, .inl (.inl ?_), List.mem_append_right _ inBody⟩
      rw [if_pos (List.ne_nil_of_mem inBody)]
      exact List.mem_singleton_self _
    · obtain ⟨path, isPath, onPath⟩ := inChildren isMem (titles ++ own)
      exact ⟨path, .inl (.inr isPath), onPath⟩
    · obtain ⟨path, isPath, onPath⟩ := inSiblings isMem titles
      exact ⟨path, .inr isPath, onPath⟩

theorem length_leafPaths (forest : Forest Item) (titles : List Item) :
    (leafPaths titles forest).length = forest.leaves := by
  induction forest generalizing titles with
  | nil => rfl
  | cons level own body children siblings inChildren inSiblings =>
    simp only [leafPaths, leaves, List.length_append, inChildren, inSiblings]
    cases children with
    | nil => rfl
    | cons => simp only [isNil, leaves, Bool.false_eq_true, if_false, List.length_nil]; omega

section Counting

variable [DecidableEq Item]

theorem countP_eq_zero_of_descends {paths : List (List Item)}
    (descend : ∀ path ∈ paths, Descends titles forest path) (notTitle : item ∉ titles)
    (notBelow : item ∉ forest.items) : paths.countP (item ∈ ·) = 0 := by
  rw [List.countP_eq_zero]
  intro path isPath onPath
  rcases (descend path isPath).mem_of_mem (of_decide_eq_true onPath) with isTitle | isBelow
  · exact notTitle isTitle
  · exact notBelow isBelow

theorem countP_eq_length_of_descends {paths : List (List Item)}
    (descend : ∀ path ∈ paths, Descends titles forest path) (isTitle : item ∈ titles) :
    paths.countP (item ∈ ·) = paths.length := by
  rw [List.countP_eq_length]
  exact fun path isPath => decide_eq_true ((descend path isPath).mem isTitle)

theorem countP_singleton_eq_one (onPath : item ∈ path) : [path].countP (item ∈ ·) = 1 := by
  rw [List.countP_singleton, if_pos (decide_eq_true onPath)]

theorem countP_singleton_eq_zero (notOnPath : item ∉ path) : [path].countP (item ∈ ·) = 0 := by
  rw [List.countP_singleton, if_neg (by simpa using notOnPath)]

/-- The items of a tree below some titles are all different. -/
structure Distinct (titles own body : List Item) (children siblings : Forest Item) : Prop where
  path : (titles ++ own ++ body ++ children.items).Nodup
  next : (titles ++ siblings.items).Nodup
  child : ∀ item ∈ titles ++ own ++ body, item ∉ children.items
  sibling : ∀ item ∈ titles ++ own ++ body ++ children.items, item ∉ siblings.items
  title : ∀ item ∈ own ++ body ++ children.items, item ∉ titles
  ownTitle : ∀ item ∈ body ++ children.items, item ∉ titles ++ own

omit [DecidableEq Item] in
theorem Distinct.of_nodup {level : Nat} {own body : List Item} {children siblings : Forest Item}
    (distinct : (titles ++ (cons level own body children siblings).items).Nodup) :
    Distinct titles own body children siblings := by
  have parts : (titles ++ own ++ body ++ children.items ++ siblings.items).Nodup := by
    simpa [items] using distinct
  have path := parts.sublist (List.sublist_append_left _ _)
  have split : (titles ++ (own ++ body ++ children.items)).Nodup := by simpa using path
  have splitOwn : (titles ++ own ++ (body ++ children.items)).Nodup := by simpa using path
  refine ⟨path, ?_, ?_, ?_, ?_, ?_⟩
  · refine parts.sublist (List.Sublist.append ?_ (List.Sublist.refl _))
    simp
  · exact fun item isMem isChild => List.disjoint_of_nodup_append path isMem isChild
  · exact fun item isMem isSibling => List.disjoint_of_nodup_append parts isMem isSibling
  · exact fun item isMem isTitle => List.disjoint_of_nodup_append split isTitle isMem
  · exact fun item isMem isTitle => List.disjoint_of_nodup_append splitOwn isTitle isMem

theorem countP_leafPaths (distinct : (titles ++ forest.items).Nodup)
    (holds : forest.Holds item below) :
    (leafPaths titles forest).countP (item ∈ ·) = max 1 below.leaves := by
  induction forest generalizing titles with
  | nil => cases holds
  | cons level own body children siblings inChildren inSiblings =>
    have apart := Distinct.of_nodup distinct
    have inSiblingPaths (notTitle : item ∉ titles) (notSibling : item ∉ siblings.items) :
        (leafPaths titles siblings).countP (item ∈ ·) = 0 :=
      countP_eq_zero_of_descends (fun _ isPath => descends_of_mem_leafPaths isPath) notTitle
        notSibling
    simp only [leafPaths, List.countP_append]
    rcases holds with ⟨inBody, rfl⟩ | holds | holds
    · have onPath : item ∈ titles ++ own ++ body := List.mem_append_right _ inBody
      have inAll : (leafPaths (titles ++ own ++ body) children).countP (item ∈ ·) =
          children.leaves := by
        rw [← length_leafPaths children (titles ++ own ++ body)]
        exact countP_eq_length_of_descends
          (fun _ isPath => descends_of_mem_leafPaths isPath) onPath
      rw [inAll, inSiblingPaths (apart.title item (by simp [inBody]))
        (apart.sibling item (List.mem_append_left _ onPath))]
      cases children with
      | nil => simp only [isNil, if_true, countP_singleton_eq_one onPath]; rfl
      | cons => simp only [isNil, leaves, Bool.false_eq_true, if_false, List.countP_nil]; omega
    · have isChild := mem_items_of_holds holds
      have hasChildren : children.isNil = false := by
        cases children with
        | nil => cases holds
        | cons => rfl
      rw [inChildren apart.path holds, inSiblingPaths
        (apart.title item (List.mem_append_right _ isChild))
        (apart.sibling item (List.mem_append_right _ isChild)), hasChildren]
      simp
    · have isSibling := mem_items_of_holds holds
      have notPath : item ∉ titles ++ own ++ body := fun onPath =>
        apart.sibling item (List.mem_append_left _ onPath) isSibling
      have notChild : item ∉ children.items := fun isChild =>
        apart.sibling item (List.mem_append_right _ isChild) isSibling
      rw [inSiblings apart.next holds, countP_eq_zero_of_descends
        (fun _ isPath => descends_of_mem_leafPaths isPath) notPath notChild]
      split_ifs <;> simp only [countP_singleton_eq_zero notPath, List.countP_nil, Nat.zero_add]

theorem countP_sectionPaths (distinct : (titles ++ forest.items).Nodup)
    (holds : forest.Holds item below) :
    (sectionPaths titles forest).countP (item ∈ ·) = 1 := by
  induction forest generalizing titles with
  | nil => cases holds
  | cons level own body children siblings inChildren inSiblings =>
    have apart := Distinct.of_nodup distinct
    have inSiblingPaths (notTitle : item ∉ titles) (notSibling : item ∉ siblings.items) :
        (sectionPaths titles siblings).countP (item ∈ ·) = 0 :=
      countP_eq_zero_of_descends (fun _ isPath => descends_of_mem_sectionPaths isPath) notTitle
        notSibling
    have inChildPaths (notTitle : item ∉ titles ++ own) (notChild : item ∉ children.items) :
        (sectionPaths (titles ++ own) children).countP (item ∈ ·) = 0 :=
      countP_eq_zero_of_descends (fun _ isPath => descends_of_mem_sectionPaths isPath) notTitle
        notChild
    simp only [sectionPaths, List.countP_append]
    rcases holds with ⟨inBody, -⟩ | holds | holds
    · have onPath : item ∈ titles ++ own ++ body := List.mem_append_right _ inBody
      rw [if_pos (List.ne_nil_of_mem inBody),
        inChildPaths (apart.ownTitle item (List.mem_append_left _ inBody))
          (apart.child item onPath),
        inSiblingPaths (apart.title item (by simp [inBody]))
          (apart.sibling item (List.mem_append_left _ onPath))]
      rw [countP_singleton_eq_one onPath]
    · have isChild := mem_items_of_holds holds
      have notPath : item ∉ titles ++ own ++ body := fun onPath =>
        apart.child item onPath isChild
      have notTitle : item ∉ titles ++ own := fun isTitle =>
        notPath (List.mem_append_left _ isTitle)
      have distinctChildren : (titles ++ own ++ children.items).Nodup := by
        refine apart.path.sublist (List.Sublist.append ?_ (List.Sublist.refl _))
        exact List.sublist_append_left _ _
      rw [inChildren distinctChildren holds, inSiblingPaths
        (apart.title item (List.mem_append_right _ isChild))
        (apart.sibling item (List.mem_append_right _ isChild))]
      split_ifs <;>
        simp only [countP_singleton_eq_zero notPath, countP_singleton_eq_zero notTitle,
          List.countP_nil, Nat.zero_add]
    · have isSibling := mem_items_of_holds holds
      have notPath : item ∉ titles ++ own ++ body := fun onPath =>
        apart.sibling item (List.mem_append_left _ onPath) isSibling
      have notTitle : item ∉ titles ++ own := fun isTitle =>
        notPath (List.mem_append_left _ isTitle)
      have notChild : item ∉ children.items := fun isChild =>
        apart.sibling item (List.mem_append_right _ isChild) isSibling
      rw [inSiblings apart.next holds, inChildPaths notTitle notChild]
      split_ifs <;>
        simp only [countP_singleton_eq_zero notPath, countP_singleton_eq_zero notTitle,
          List.countP_nil, Nat.zero_add]

end Counting

end Forest

structure HeadingNode (Item : Type u) where
  level : Nat
  titles : List Item
  body : List Item
  children : Forest Item

namespace HeadingTree

variable {Item : Type u}

def addBody (node : HeadingNode Item) (item : Item) : HeadingNode Item :=
  { node with body := node.body ++ [item] }

def addChild (node child : HeadingNode Item) : HeadingNode Item :=
  { node with
    children := node.children.append
      (.cons child.level child.titles child.body child.children .nil) }

def root : HeadingNode Item where
  level := 0
  titles := []
  body := []
  children := .nil

def heading (level : Nat) (item : Item) : HeadingNode Item where
  level := level
  titles := [item]
  body := []
  children := .nil

def popTo (level : Nat) (top : HeadingNode Item) :
    List (HeadingNode Item) → HeadingNode Item × List (HeadingNode Item)
  | [] => (top, [])
  | parent :: below =>
    if level ≤ top.level then popTo level (addChild parent top) below else (top, parent :: below)

def addLine (depth : Nat) (stack : HeadingNode Item × List (HeadingNode Item))
    (line : Nat × Item) : HeadingNode Item × List (HeadingNode Item) :=
  if depth < line.1 then (addBody stack.1 line.2, stack.2)
  else
    let (top, below) := popTo line.1 stack.1 stack.2
    (heading line.1 line.2, top :: below)

def close (top : HeadingNode Item) : List (HeadingNode Item) → HeadingNode Item
  | [] => top
  | parent :: below => close (addChild parent top) below

def build (depth : Nat) (lines : List (Nat × Item)) : HeadingNode Item :=
  let (top, below) := lines.foldl (addLine depth) (root, [])
  close top below

def content (depth : Nat) (lines : List (Nat × Item)) : List Item :=
  (lines.takeWhile fun line => depth < line.1).map Prod.snd

def fromHeading (depth : Nat) (lines : List (Nat × Item)) : List (Nat × Item) :=
  lines.dropWhile fun line => depth < line.1

def scope (level : Nat) (lines : List (Nat × Item)) : List (Nat × Item) :=
  lines.takeWhile fun line => level < line.1

def afterScope (level : Nat) (lines : List (Nat × Item)) : List (Nat × Item) :=
  lines.dropWhile fun line => level < line.1

theorem scope_append_afterScope (level : Nat) (lines : List (Nat × Item)) :
    scope level lines ++ afterScope level lines = lines :=
  List.takeWhile_append_dropWhile

theorem length_scope_le (level : Nat) (lines : List (Nat × Item)) :
    (scope level lines).length ≤ lines.length :=
  (List.takeWhile_sublist _).length_le

theorem length_afterScope_le (level : Nat) (lines : List (Nat × Item)) :
    (afterScope level lines).length ≤ lines.length :=
  (List.dropWhile_sublist _).length_le

theorem length_fromHeading_le (depth : Nat) (lines : List (Nat × Item)) :
    (fromHeading depth lines).length ≤ lines.length :=
  (List.dropWhile_sublist _).length_le

def outline (depth : Nat) : List (Nat × Item) → Forest Item
  | [] => .nil
  | (level, item) :: rest =>
    .cons level [item] (content depth (scope level rest))
      (outline depth (fromHeading depth (scope level rest)))
      (outline depth (afterScope level rest))
  termination_by lines => lines.length
  decreasing_by
    · have := length_fromHeading_le depth (scope level rest)
      have := length_scope_le level rest
      simp only [List.length_cons]
      omega
    · have := length_afterScope_le level rest
      simp only [List.length_cons]
      omega

def Begins (depth : Nat) (lines : List (Nat × Item)) : Prop :=
  ∀ line ∈ lines.head?, line.1 ≤ depth

def finish (depth : Nat) (node : HeadingNode Item) (lines : List (Nat × Item)) : HeadingNode Item :=
  { node with
    body := node.body ++ content depth lines
    children := node.children.append (outline depth (fromHeading depth lines)) }

variable {depth level : Nat} {lines : List (Nat × Item)} {line : Nat × Item}

theorem begins_dropWhile (keep : Nat × Item → Bool)
    (bounded : ∀ line, keep line = false → line.1 ≤ depth) (lines : List (Nat × Item)) :
    Begins depth (lines.dropWhile keep) := by
  intro line isHead
  apply bounded
  have nonempty : lines.dropWhile keep ≠ [] := List.ne_nil_of_mem (List.mem_of_head? isHead)
  have first := List.head_dropWhile_not keep nonempty
  rwa [List.head_eq_iff_head?_eq_some nonempty |>.mpr isHead] at first

theorem begins_fromHeading (depth : Nat) (lines : List (Nat × Item)) :
    Begins depth (fromHeading depth lines) :=
  begins_dropWhile _ (fun line deeper => by simpa using deeper) lines

theorem begins_afterScope (shallow : level ≤ depth) (lines : List (Nat × Item)) :
    Begins depth (afterScope level lines) :=
  begins_dropWhile _ (fun line deeper => Nat.le_trans (by simpa using deeper) shallow) lines

theorem content_of_begins (begins : Begins depth lines) : content depth lines = [] := by
  cases lines with
  | nil => rfl
  | cons line lines =>
    have shallow := begins line rfl
    simp [content, Nat.not_lt.mpr shallow]

theorem fromHeading_of_begins (begins : Begins depth lines) : fromHeading depth lines = lines := by
  cases lines with
  | nil => rfl
  | cons line lines =>
    have shallow := begins line rfl
    simp [fromHeading, Nat.not_lt.mpr shallow]

theorem content_cons_of_lt (deep : depth < line.1) :
    content depth (line :: lines) = line.2 :: content depth lines := by
  simp [content, deep]

theorem fromHeading_cons_of_lt (deep : depth < line.1) :
    fromHeading depth (line :: lines) = fromHeading depth lines := by
  simp [fromHeading, deep]

theorem scope_cons_of_lt (deep : level < line.1) :
    scope level (line :: lines) = line :: scope level lines := by
  simp [scope, deep]

theorem afterScope_cons_of_lt (deep : level < line.1) :
    afterScope level (line :: lines) = afterScope level lines := by
  simp [afterScope, deep]

theorem scope_of_begins (begins : Begins level lines) : scope level lines = [] := by
  cases lines with
  | nil => rfl
  | cons line lines =>
    have shallow := begins line rfl
    simp [scope, Nat.not_lt.mpr shallow]

theorem afterScope_of_begins (begins : Begins level lines) : afterScope level lines = lines := by
  cases lines with
  | nil => rfl
  | cons line lines =>
    have shallow := begins line rfl
    simp [afterScope, Nat.not_lt.mpr shallow]

theorem lt_of_mem_scope (isMem : line ∈ scope level lines) : level < line.1 := by
  simpa using List.mem_takeWhile_imp isMem

theorem scope_append (deep : ∀ line ∈ lines, level < line.1) (rest : List (Nat × Item)) :
    scope level (lines ++ rest) = lines ++ scope level rest :=
  List.takeWhile_append_of_pos fun line isMem => by simpa using deep line isMem

theorem afterScope_append (deep : ∀ line ∈ lines, level < line.1) (rest : List (Nat × Item)) :
    afterScope level (lines ++ rest) = afterScope level rest :=
  List.dropWhile_append_of_pos fun line isMem => by simpa using deep line isMem

theorem scope_eq_of_lt {outer : Nat} (lower : outer < level) :
    scope outer lines = scope level lines ++ scope outer (afterScope level lines) := by
  conv_lhs => rw [← scope_append_afterScope level lines]
  exact scope_append (fun line isMem => Nat.lt_trans lower (lt_of_mem_scope isMem)) _

theorem afterScope_eq_of_lt {outer : Nat} (lower : outer < level) :
    afterScope outer lines = afterScope outer (afterScope level lines) := by
  conv_lhs => rw [← scope_append_afterScope level lines]
  exact afterScope_append (fun line isMem => Nat.lt_trans lower (lt_of_mem_scope isMem)) _

theorem Begins.scope (begins : Begins depth lines) (level : Nat) :
    Begins depth (scope level lines) := by
  cases lines with
  | nil => exact begins
  | cons line lines =>
    by_cases deep : level < line.1
    · rw [scope_cons_of_lt deep]
      exact begins
    · rw [scope_of_begins fun other isHead => by
        obtain rfl : line = other := by simpa using isHead
        exact Nat.not_lt.mp deep]
      intro other isHead
      simp at isHead

theorem outline_cons (level : Nat) (item : Item) (rest : List (Nat × Item)) :
    outline depth ((level, item) :: rest) =
      .cons level [item] (content depth (scope level rest))
        (outline depth (fromHeading depth (scope level rest)))
        (outline depth (afterScope level rest)) := by
  rw [outline]

theorem content_append_fromHeading (depth : Nat) (lines : List (Nat × Item)) :
    content depth lines ++ (fromHeading depth lines).map Prod.snd = lines.map Prod.snd := by
  rw [content, fromHeading, ← List.map_append, List.takeWhile_append_dropWhile]

theorem begins_nil : Begins depth ([] : List (Nat × Item)) := by
  intro line isHead
  cases isHead

theorem begins_cons {item : Item} (shallow : level ≤ depth) :
    Begins depth ((level, item) :: lines) := by
  intro line isHead
  obtain rfl : (level, item) = line := by simpa using isHead
  exact shallow

theorem outline_induction {motive : (lines : List (Nat × Item)) → Begins depth lines → Prop}
    (nil : motive [] begins_nil)
    (cons : ∀ level item rest (shallow : level ≤ depth),
      motive (fromHeading depth (scope level rest)) (begins_fromHeading _ _) →
      motive (afterScope level rest) (begins_afterScope shallow rest) →
        motive ((level, item) :: rest) (begins_cons shallow))
    (lines : List (Nat × Item)) (begins : Begins depth lines) : motive lines begins := by
  induction size : lines.length using Nat.strongRecOn generalizing lines with
  | ind bound ih =>
    cases lines with
    | nil => exact nil
    | cons line rest =>
      obtain ⟨level, item⟩ := line
      have shallow : level ≤ depth := begins (level, item) rfl
      have inScope := length_fromHeading_le depth (scope level rest)
      have scopeShort := length_scope_le level rest
      have afterShort := length_afterScope_le level rest
      simp only [List.length_cons] at size
      refine cons level item rest shallow ?_ ?_
      · exact ih _ (by omega) _ (begins_fromHeading _ _) rfl
      · exact ih _ (by omega) _ (begins_afterScope shallow rest) rfl

theorem items_outline (begins : Begins depth lines) :
    (outline depth lines).items = lines.map Prod.snd := by
  induction lines, begins using outline_induction with
  | nil => simp [outline, Forest.items]
  | cons level item rest shallow inScope after =>
    rw [outline_cons, Forest.items, inScope, after, List.append_assoc [item],
      content_append_fromHeading, List.append_assoc, ← List.map_append, scope_append_afterScope]
    rfl

theorem headed_outline {kind : Nat → Prop} (begins : Begins depth lines)
    (kinds : ∀ line ∈ lines, line.1 ≤ depth → kind line.1) : (outline depth lines).Headed kind := by
  induction lines, begins using outline_induction with
  | nil => simp [outline, Forest.Headed]
  | cons level item rest shallow inScope after =>
    rw [outline_cons]
    refine ⟨kinds _ List.mem_cons_self shallow, rfl, inScope fun line isMem => ?_,
      after fun line isMem => ?_⟩
    · have inRest := (List.takeWhile_sublist _).subset ((List.dropWhile_sublist _).subset isMem)
      exact kinds line (List.mem_cons_of_mem _ inRest)
    · exact kinds line (List.mem_cons_of_mem _ ((List.dropWhile_sublist _).subset isMem))

theorem headed_fromHeading (depth : Nat) {lines : List (Nat × Item)}
    (positive : ∀ line ∈ lines, 1 ≤ line.1) :
    (outline depth (fromHeading depth lines)).Headed fun level => 1 ≤ level ∧ level ≤ depth :=
  headed_outline (begins_fromHeading depth lines) fun line isMem shallow =>
    ⟨positive line ((List.dropWhile_sublist _).subset isMem), shallow⟩

def RightBelow (depth : Nat) (lines : List (Nat × Item)) (item : Item)
    (below : List (Nat × Item)) : Prop :=
  ∃ before level title rest, lines = before ++ (level, title) :: rest ∧ level ≤ depth ∧
    item ∈ content depth (scope level rest) ∧ below = fromHeading depth (scope level rest)

theorem scope_append_of_begins (lines : List (Nat × Item)) {rest : List (Nat × Item)}
    (begins : Begins level rest) : scope level (lines ++ rest) = scope level lines := by
  induction lines with
  | nil => exact scope_of_begins begins
  | cons line lines ih =>
    by_cases deep : level < line.1
    · rw [List.cons_append, scope_cons_of_lt deep, scope_cons_of_lt deep, ih]
    · simp [scope, deep]

theorem RightBelow.append {item : Item} {below rest : List (Nat × Item)}
    (rightBelow : RightBelow depth lines item below) (deep : ∀ line ∈ lines, level < line.1)
    (begins : Begins level rest) (before : List (Nat × Item)) :
    RightBelow depth (before ++ (lines ++ rest)) item below := by
  obtain ⟨earlier, inner, title, later, rfl, shallow, isContent, isBelow⟩ := rightBelow
  have deeper : level < inner := deep (inner, title) (by simp)
  have beginsInner : Begins inner rest := fun line isHead =>
    Nat.le_trans (begins line isHead) (Nat.le_of_lt deeper)
  have same := scope_append_of_begins later beginsInner
  exact ⟨before ++ earlier, inner, title, later ++ rest, by simp, shallow, same ▸ isContent,
    same ▸ isBelow⟩

theorem RightBelow.of_append {item : Item} {below rest : List (Nat × Item)}
    (rightBelow : RightBelow depth (lines ++ rest) item below)
    (deep : ∀ line ∈ lines, level < line.1) (begins : Begins level rest) :
    RightBelow depth lines item below ∨ RightBelow depth rest item below := by
  obtain ⟨before, inner, title, later, split, shallow, isContent, isBelow⟩ := rightBelow
  rcases List.append_eq_append_iff.mp split with ⟨between, rfl, isRest⟩ | ⟨between, rfl, isLater⟩
  · exact .inr ⟨between, inner, title, later, isRest, shallow, isContent, isBelow⟩
  · cases between with
    | nil =>
      rw [List.append_nil] at deep
      exact .inr ⟨[], inner, title, later, isLater.symm, shallow, isContent, isBelow⟩
    | cons line between =>
      rw [List.cons_append, List.cons.injEq] at isLater
      obtain ⟨rfl, rfl⟩ := isLater
      have deeper : level < inner := deep (inner, title) (by simp)
      have beginsInner : Begins inner rest := fun line isHead =>
        Nat.le_trans (begins line isHead) (Nat.le_of_lt deeper)
      have same := scope_append_of_begins between beginsInner
      rw [same] at isContent isBelow
      exact .inl ⟨before, inner, title, between, rfl, shallow, isContent, isBelow⟩

theorem rightBelow_fromHeading {item : Item} {below : List (Nat × Item)} :
    RightBelow depth (fromHeading depth lines) item below ↔ RightBelow depth lines item below := by
  induction lines with
  | nil => rfl
  | cons line lines ih =>
    by_cases deep : depth < line.1
    · rw [fromHeading_cons_of_lt deep, ih]
      constructor
      · rintro ⟨before, level, title, rest, rfl, found⟩
        exact ⟨line :: before, level, title, rest, rfl, found⟩
      · rintro ⟨before, level, title, rest, split, shallow, found⟩
        cases before with
        | nil =>
          obtain rfl : line = (level, title) := List.head_eq_of_cons_eq split
          exact absurd shallow (Nat.not_le.mpr deep)
        | cons other before =>
          exact ⟨before, level, title, rest, List.tail_eq_of_cons_eq split, shallow, found⟩
    · rw [fromHeading_of_begins fun other isHead => by
        obtain rfl : line = other := by simpa using isHead
        exact Nat.not_lt.mp deep]

theorem holds_outline_iff {item : Item} {below : Forest Item} (begins : Begins depth lines) :
    (outline depth lines).Holds item below ↔
      ∃ inner, RightBelow depth lines item inner ∧ below = outline depth inner := by
  induction lines, begins using outline_induction with
  | nil =>
    simp only [outline, Forest.Holds, RightBelow, false_iff]
    rintro ⟨inner, ⟨before, level, title, rest, split, -⟩, -⟩
    simp at split
  | cons level title rest shallow inScope after =>
    rw [outline_cons, Forest.Holds, inScope, after]
    have inScopeDeep : ∀ line ∈ scope level rest, level < line.1 :=
      fun line isMem => lt_of_mem_scope isMem
    have begins := begins_afterScope (Nat.le_refl level) rest
    constructor
    · rintro (⟨isContent, rfl⟩ | ⟨inner, rightBelow, rfl⟩ | ⟨inner, rightBelow, rfl⟩)
      · exact ⟨_, ⟨[], level, title, rest, rfl, shallow, isContent, rfl⟩, rfl⟩
      · refine ⟨inner, ?_, rfl⟩
        have inAll := (rightBelow_fromHeading.mp rightBelow).append inScopeDeep begins
          [(level, title)]
        rwa [scope_append_afterScope] at inAll
      · obtain ⟨before, found⟩ := rightBelow
        obtain ⟨inside, heading, later, split, found⟩ := found
        refine ⟨inner, ⟨(level, title) :: scope level rest ++ before, inside, heading, later, ?_,
          found⟩, rfl⟩
        conv_lhs => rw [← scope_append_afterScope level rest, split]
        simp
    · rintro ⟨inner, ⟨before, inside, heading, later, split, found⟩, rfl⟩
      cases before with
      | nil =>
        rw [List.nil_append, List.cons.injEq, Prod.mk.injEq] at split
        obtain ⟨⟨rfl, rfl⟩, rfl⟩ := split
        exact .inl ⟨found.2.1, by rw [found.2.2]⟩
      | cons line before =>
        have inRest : RightBelow depth rest item inner :=
          ⟨before, inside, heading, later, List.tail_eq_of_cons_eq split, found⟩
        rw [← scope_append_afterScope level rest] at inRest
        rcases inRest.of_append inScopeDeep begins with inScope | after
        · exact .inr (.inl ⟨inner, rightBelow_fromHeading.mpr inScope, rfl⟩)
        · exact .inr (.inr ⟨inner, after, rfl⟩)

theorem RightBelow.exists_line {item : Item} {below : List (Nat × Item)}
    (rightBelow : RightBelow depth lines item below) :
    ∃ line ∈ lines, depth < line.1 ∧ line.2 = item := by
  obtain ⟨before, inner, title, rest, rfl, -, isContent, -⟩ := rightBelow
  obtain ⟨line, isMem, rfl⟩ := List.mem_map.mp isContent
  have inRest : line ∈ rest :=
    (List.takeWhile_sublist _).subset ((List.takeWhile_sublist _).subset isMem)
  have deep := List.mem_takeWhile_imp isMem
  exact ⟨line, List.mem_append_right _ (List.mem_cons_of_mem _ inRest), by simpa using deep, rfl⟩

theorem exists_rightBelow (begins : Begins depth lines) (isMem : line ∈ lines)
    (deep : depth < line.1) : ∃ below, RightBelow depth lines line.2 below := by
  have found : ∃ below, (outline depth lines).Holds line.2 below := by
    induction lines, begins using outline_induction with
    | nil => cases isMem
    | cons level title rest shallow inScope after =>
      rw [outline_cons]
      simp only [Forest.Holds]
      rcases List.mem_cons.mp isMem with rfl | inRest
      · exact absurd shallow (Nat.not_le.mpr deep)
      · rw [← scope_append_afterScope level rest, List.mem_append] at inRest
        rcases inRest with inRest | inRest
        · have parts : scope level rest =
              (scope level rest).takeWhile (fun line => depth < line.1) ++
                fromHeading depth (scope level rest) := List.takeWhile_append_dropWhile.symm
          rw [parts, List.mem_append] at inRest
          rcases inRest with isContent | inRest
          · exact ⟨_, .inl ⟨List.mem_map_of_mem isContent, rfl⟩⟩
          · obtain ⟨below, holds⟩ := inScope inRest
            exact ⟨below, .inr (.inl holds)⟩
        · obtain ⟨below, holds⟩ := after inRest
          exact ⟨below, .inr (.inr holds)⟩
  obtain ⟨below, holds⟩ := found
  obtain ⟨inner, rightBelow, -⟩ := (holds_outline_iff begins).mp holds
  exact ⟨inner, rightBelow⟩

def headingLevels (depth : Nat) (lines : List (Nat × Item)) : List Nat :=
  (lines.map Prod.fst).filter (· ≤ depth)

theorem headingLevels_fromHeading (depth : Nat) (lines : List (Nat × Item)) :
    headingLevels depth (fromHeading depth lines) = headingLevels depth lines := by
  induction lines with
  | nil => rfl
  | cons line lines ih =>
    by_cases deep : depth < line.1
    · rw [fromHeading_cons_of_lt deep, ih, headingLevels, headingLevels,
        List.map_cons, List.filter_cons_of_neg (by simpa using deep)]
    · rw [fromHeading_of_begins fun other isHead => by
        obtain rfl : line = other := by simpa using isHead
        exact Nat.not_lt.mp deep]

theorem leaves_outline_eq_zero (begins : Begins depth lines) :
    (outline depth lines).leaves = 0 ↔ lines = [] := by
  cases lines with
  | nil => simp [outline, Forest.leaves]
  | cons line rest =>
    obtain ⟨level, title⟩ := line
    rw [outline_cons, Forest.leaves]
    simp only [reduceCtorEq, iff_false]
    omega

theorem leaves_outline_le_one (begins : Begins depth lines) :
    (outline depth lines).leaves ≤ 1 ↔ (headingLevels depth lines).Pairwise (· < ·) := by
  induction lines, begins using outline_induction with
  | nil => simp [outline, Forest.leaves, headingLevels]
  | cons level title rest shallow inScope after =>
    have levels : headingLevels depth ((level, title) :: rest) =
        level :: headingLevels depth rest := by
      simp [headingLevels, shallow]
    have onlyScope : (outline depth ((level, title) :: rest)).leaves ≤ 1 ↔
        (outline depth (fromHeading depth (scope level rest))).leaves ≤ 1 ∧
          afterScope level rest = [] := by
      rw [outline_cons, Forest.leaves, ← leaves_outline_eq_zero (begins_afterScope shallow rest)]
      omega
    rw [onlyScope, inScope, headingLevels_fromHeading, levels, List.pairwise_cons]
    constructor
    · rintro ⟨increasing, noneAfter⟩
      have whole : scope level rest = rest := by
        have parts := scope_append_afterScope level rest
        rwa [noneAfter, List.append_nil] at parts
      rw [whole] at increasing
      refine ⟨fun other isMem => ?_, increasing⟩
      obtain ⟨line, inRest, rfl⟩ := List.mem_map.mp (List.mem_of_mem_filter isMem)
      rw [← whole] at inRest
      exact lt_of_mem_scope inRest
    · rintro ⟨above, increasing⟩
      have noneAfter : afterScope level rest = [] := by
        cases isAfter : afterScope level rest with
        | nil => rfl
        | cons line after =>
          have begins := begins_afterScope (Nat.le_refl level) rest
          rw [isAfter] at begins
          have upTo : line.1 ≤ level := begins line rfl
          have inRest : line ∈ rest := (List.dropWhile_sublist _).subset
            (isAfter ▸ List.mem_cons_self : line ∈ afterScope level rest)
          have isHeading : line.1 ∈ headingLevels depth rest :=
            List.mem_filter.mpr ⟨List.mem_map_of_mem inRest,
              decide_eq_true (Nat.le_trans upTo shallow)⟩
          exact absurd (above _ isHeading) (Nat.not_lt.mpr upTo)
      have whole : scope level rest = rest := by
        have parts := scope_append_afterScope level rest
        rwa [noneAfter, List.append_nil] at parts
      rw [whole]
      exact ⟨increasing, noneAfter⟩

def run (depth : Nat) (top : HeadingNode Item) (below : List (HeadingNode Item))
    (lines : List (Nat × Item)) : HeadingNode Item :=
  let (top, below) := lines.foldl (addLine depth) (top, below)
  close top below

theorem run_cons (top : HeadingNode Item) (below : List (HeadingNode Item)) :
    run depth top below (line :: lines) =
      run depth (addLine depth (top, below) line).1 (addLine depth (top, below) line).2 lines := rfl

theorem finish_nil (node : HeadingNode Item) : finish depth node [] = node := by
  simp [finish, content, fromHeading, outline]

theorem finish_addBody {node : HeadingNode Item} (deep : depth < line.1) :
    finish depth (addBody node line.2) lines = finish depth node (line :: lines) := by
  simp [finish, addBody, content_cons_of_lt deep, fromHeading_cons_of_lt deep]

theorem finish_addChild {node : HeadingNode Item} {item : Item} {rest : List (Nat × Item)}
    (shallow : level ≤ depth) (begins : Begins level rest)
    (deep : ∀ line ∈ lines, level < line.1) :
    finish depth (addChild node (finish depth (heading level item) lines)) rest =
      finish depth node ((level, item) :: (lines ++ rest)) := by
  have beginsRest : Begins depth rest := fun line isHead =>
    Nat.le_trans (begins line isHead) shallow
  have beginsAll : Begins depth ((level, item) :: (lines ++ rest)) := by
    intro line isHead
    obtain rfl : (level, item) = line := by simpa using isHead
    exact shallow
  have isScope : scope level (lines ++ rest) = lines := by
    rw [scope_append deep, scope_of_begins begins, List.append_nil]
  have isAfter : afterScope level (lines ++ rest) = rest := by
    rw [afterScope_append deep, afterScope_of_begins begins]
  simp only [finish, addChild, heading, content_of_begins beginsRest, content_of_begins beginsAll,
    fromHeading_of_begins beginsRest, fromHeading_of_begins beginsAll, outline_cons, isScope,
    isAfter, List.append_nil, List.nil_append, Forest.append_assoc, Forest.append]

theorem run_eq (bound : Nat) : ∀ lines : List (Nat × Item), lines.length ≤ bound →
    ∀ top : HeadingNode Item, top.level ≤ depth → top.children = .nil ∨ Begins depth lines →
      run depth top [] lines = finish depth top lines ∧
        ∀ parent below, run depth top (parent :: below) lines =
          run depth (addChild parent (finish depth top (scope top.level lines))) below
            (afterScope top.level lines) := by
  induction bound with
  | zero =>
    intro lines short top shallow _
    obtain rfl := List.eq_nil_of_length_eq_zero (Nat.le_zero.mp short)
    exact ⟨(finish_nil top).symm, fun parent below => by
      rw [scope_of_begins (by intro line isHead; simp at isHead),
        afterScope_of_begins (by intro line isHead; simp at isHead), finish_nil]
      rfl⟩
  | succ bound ih =>
    intro lines short top shallow leaf
    cases lines with
    | nil => exact ih [] (Nat.zero_le _) top shallow leaf
    | cons line lines =>
      have shorter : lines.length ≤ bound := Nat.le_of_succ_le_succ short
      by_cases deep : depth < line.1
      · -- content of the top
        have noChildren : top.children = .nil := by
          apply leaf.resolve_right
          intro begins
          exact Nat.not_lt.mpr (begins line rfl) deep
        have deeper : top.level < line.1 := Nat.lt_of_le_of_lt shallow deep
        obtain ⟨atBottom, above⟩ :=
          ih lines shorter (addBody top line.2) shallow (.inl noChildren)
        have step (below : List (HeadingNode Item)) : run depth top below (line :: lines) =
            run depth (addBody top line.2) below lines := by
          rw [run_cons, addLine, if_pos deep]
        refine ⟨?_, fun parent below => ?_⟩
        · rw [step, atBottom, finish_addBody deep]
        · rw [step, above, finish_addBody deep, scope_cons_of_lt deeper,
            afterScope_cons_of_lt deeper]
          rfl
      · -- a heading
        obtain ⟨level, item⟩ := line
        have isHeading : level ≤ depth := Nat.not_lt.mp deep
        have begins := begins_afterScope (Nat.le_refl level) lines
        have inScope : ∀ line ∈ scope level lines, level < line.1 :=
          fun line isMem => lt_of_mem_scope isMem
        let child := finish depth (heading level item) (scope level lines)
        have pushed (parent : HeadingNode Item) (below : List (HeadingNode Item)) :
            run depth (heading level item) (parent :: below) lines =
              run depth (addChild parent child) below (afterScope level lines) :=
          (ih lines shorter (heading level item) isHeading (.inl rfl)).2
            parent below
        have afterShorter : (afterScope level lines).length ≤ bound :=
          Nat.le_trans (length_afterScope_le level lines) shorter
        obtain ⟨atBottom, above⟩ := ih (afterScope level lines) afterShorter
          (addChild top child) shallow (.inr (begins_afterScope isHeading lines))
        refine ⟨?_, fun parent below => ?_⟩
        · calc run depth top [] ((level, item) :: lines)
              = run depth (heading level item) [top] lines := by
                rw [run_cons, addLine, if_neg deep]
                rfl
            _ = run depth (addChild top child) [] (afterScope level lines) := pushed top []
            _ = finish depth top ((level, item) :: lines) := by
                rw [atBottom, finish_addChild isHeading begins inScope,
                  scope_append_afterScope]
        · by_cases inTop : top.level < level
          · calc run depth top (parent :: below) ((level, item) :: lines)
                = run depth (heading level item) (top :: parent :: below) lines := by
                  rw [run_cons, addLine, if_neg deep]
                  simp only [popTo, if_neg (Nat.not_le.mpr inTop)]
              _ = run depth (addChild top child) (parent :: below) (afterScope level lines) :=
                pushed top (parent :: below)
              _ = _ := by
                rw [above, afterScope_cons_of_lt inTop, scope_cons_of_lt inTop,
                  scope_eq_of_lt inTop, afterScope_eq_of_lt inTop,
                  ← finish_addChild isHeading (begins.scope _) inScope]
                rfl
          · have notBelow : Begins top.level ((level, item) :: lines) := by
              intro line isHead
              obtain rfl : (level, item) = line := by simpa using isHead
              exact Nat.not_lt.mp inTop
            rw [scope_of_begins notBelow, afterScope_of_begins notBelow, finish_nil, run_cons,
              run_cons, addLine, addLine, if_neg deep, if_neg deep]
            simp only [popTo, if_pos (Nat.not_lt.mp inTop)]

theorem build_eq_finish (depth : Nat) (lines : List (Nat × Item)) :
    build depth lines = finish depth root lines :=
  (run_eq lines.length lines (Nat.le_refl _) root (Nat.zero_le _) (.inl rfl)).1

end HeadingTree

end RagFlow.Lib
