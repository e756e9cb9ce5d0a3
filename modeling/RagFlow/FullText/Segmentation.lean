import Mathlib.Algebra.Order.Ring.Rat
import Mathlib.Algebra.Ring.Nat
import RagFlow.Lib.PyString

/-!
# Chinese segmentation

`TokenizeInner` cuts a text into words of a dictionary from the left and from the right.  Where the
two directions agree their words are taken; a stretch on which they differ is cut again by `DFS`, a
search with a limited depth that keeps the segmentation with the best score.
-/

namespace RagFlow.FullText.Segmentation

open RagFlow.Lib

abbrev Text := List Char

abbrev Token := Text × Int

/-- `get` is -1 for a key that the trie does not hold. -/
structure Trie where
  hasKeysWithPrefix : Text → Bool
  get : Text → Int

def key (line : Text) : Text := line.map Char.toLower

def rKey (line : Text) : Text := 'D' :: 'D' :: line.reverse.map Char.toLower

/-- The trie of a list of words: each is entered as it is, and reversed with `Encode(1, 0)`. -/
def Trie.ofWords (words : List Token) : Trie :=
  let keys := words.flatMap fun word => [word, (rKey word.1, 1)]
  ⟨fun start => keys.any fun key => start.isPrefixOf key.1, fun key => (keys.lookup key).getD (-1)⟩

def unknown : Int := 2 ^ 23 + 12

def decodeFreq (value : Int) : Int :=
  let v1 := value % 2 ^ 24
  if 2 ^ 23 ≤ v1 then -(v1 - 2 ^ 23) else v1

def score (tokenFreqs : List Token) : List Text × ℚ :=
  let F := (tokenFreqs.map fun token => decodeFreq token.2).sum
  let L := tokenFreqs.countP fun token => 2 ≤ token.1.length
  (tokenFreqs.map Prod.fst, 30 / tokenFreqs.length + L / tokenFreqs.length + F)

def substr (line : Text) (start len : Nat) : Text := (line.drop start).take len

section Directions

/-- The first loop: longer as long as a key continues the text, `more` characters at most. -/
def grow (isOpen : Nat → Bool) : Nat → Nat → Nat
  | 0, size => size
  | more + 1, size => if isOpen size then grow isOpen more (size + 1) else size

def shrink (isWord : Nat → Bool) : Nat → Nat
  | size + 2 => if isWord (size + 2) then size + 2 else shrink isWord (size + 1)
  | size => size

def longest (isOpen isWord : Nat → Bool) (len : Nat) : Nat :=
  shrink isWord (grow isOpen (len - 1) 1)

theorem grow_within (isOpen : Nat → Bool) (more size : Nat) :
    size ≤ grow isOpen more size ∧ grow isOpen more size ≤ size + more := by
  induction more generalizing size with
  | zero => exact ⟨Nat.le_refl _, Nat.le_refl _⟩
  | succ more ih =>
    rw [grow]
    have := ih (size + 1)
    split <;> omega

theorem shrink_within (isWord : Nat → Bool) {size : Nat} (positive : 1 ≤ size) :
    1 ≤ shrink isWord size ∧ shrink isWord size ≤ size := by
  fun_induction shrink isWord size with
  | case1 size isKey => omega
  | case2 size notKey ih =>
    have := ih (by omega)
    omega
  | case3 size => omega

theorem longest_within (isOpen isWord : Nat → Bool) {len : Nat} (positive : 1 ≤ len) :
    1 ≤ longest isOpen isWord len ∧ longest isOpen isWord len ≤ len := by
  have grown := grow_within isOpen (len - 1) 1
  have shrunk := shrink_within isWord grown.1
  unfold longest
  omega

variable (trie : Trie)

def isWord (t : Text) : Bool := trie.get (key t) ≠ -1

def entry (t : Text) : Token := (t, if trie.get (key t) ≠ -1 then trie.get (key t) else 0)

def forwardSize (rest : Text) : Nat :=
  longest (fun size => trie.hasKeysWithPrefix (key (rest.take size)))
    (fun size => isWord trie (rest.take size)) rest.length

def backwardSize (front : Text) : Nat :=
  longest (fun size => trie.hasKeysWithPrefix (rKey (front.drop (front.length - size))))
    (fun size => isWord trie (front.drop (front.length - size))) front.length

theorem forwardSize_within {rest : Text} (nonempty : rest ≠ []) :
    1 ≤ forwardSize trie rest ∧ forwardSize trie rest ≤ rest.length :=
  longest_within _ _ (List.length_pos_iff.mpr nonempty)

theorem backwardSize_within {front : Text} (nonempty : front ≠ []) :
    1 ≤ backwardSize trie front ∧ backwardSize trie front ≤ front.length :=
  longest_within _ _ (List.length_pos_iff.mpr nonempty)

/-- The outer loop of `MaxForward` over what is left of the line. -/
def forwardFrom (rest : Text) : List Token :=
  if rest = [] then []
  else
    entry trie (rest.take (forwardSize trie rest)) ::
      forwardFrom (rest.drop (forwardSize trie rest))
termination_by rest.length
decreasing_by
  have := forwardSize_within trie ‹_›
  rw [List.length_drop]
  omega

/-- The outer loop of `MaxBackward` over what is left of the line. -/
def backwardFrom (front : Text) : List Token :=
  if front = [] then []
  else
    entry trie (front.drop (front.length - backwardSize trie front)) ::
      backwardFrom (front.take (front.length - backwardSize trie front))
termination_by front.length
decreasing_by
  have := backwardSize_within trie ‹_›
  rw [List.length_take]
  omega

def maxForward (line : Text) : List Text × ℚ := score (forwardFrom trie line)

def maxBackward (line : Text) : List Text × ℚ := score (backwardFrom trie line).reverse

end Directions

section Search

/-- What `DFS` writes to: `token_list`, `best_tokens` and `max_score`, which starts below all
scores. -/
structure Found where
  tokenList : List (List Token)
  bestTokens : List Text
  maxScore : Option ℚ

def Found.record (memoAll : Bool) (found : Found) (tokens : List Token) : Found :=
  if memoAll then { found with tokenList := found.tokenList ++ [tokens] }
  else if found.maxScore.all fun maxScore => maxScore < (score tokens).2 then
    { found with bestTokens := (score tokens).1, maxScore := some (score tokens).2 }
  else found

variable (trie : Trie) (chars : Text)

/-- Three single characters stand last, and a key starts with the last of them and `next`. -/
def joinsSingles (preTokens : List Token) (next : Text) : Bool :=
  match preTokens.reverse with
  | last :: second :: third :: _ =>
    last.1.length = 1 && second.1.length = 1 && third.1.length = 1 &&
      trie.hasKeysWithPrefix (key (last.1 ++ next))
  | _ => false

/-- `S`, after the pruning. -/
def firstEnd (preTokens : List Token) (s : Nat) : Nat :=
  if joinsSingles trie preTokens (substr chars s 1) then s + 2
  else if s + 2 ≤ chars.length ∧ trie.hasKeysWithPrefix (key (substr chars s 1)) ∧
      ¬ trie.hasKeysWithPrefix (key (substr chars s 2)) then s + 2
  else s + 1

/-- The ends `e` at which the loop finds a word. -/
def wordEnds (preTokens : List Token) (s : Nat) : List Nat :=
  ((List.range' (firstEnd trie chars preTokens s)
    (chars.length + 1 - firstEnd trie chars preTokens s)).takeWhile fun e =>
      e ≤ s + 1 || trie.hasKeysWithPrefix (key (substr chars s (e - s)))).filter fun e =>
        isWord trie (substr chars s (e - s))

def wordAt (s e : Nat) : Token :=
  (substr chars s (e - s), trie.get (key (substr chars s (e - s))))

def single (s : Nat) : Token :=
  (substr chars s 1,
    if isWord trie (substr chars s 1) then trie.get (key (substr chars s 1)) else unknown)

/-- One round of the loop: `res` and what has been found. -/
def tryEnd (deeper : Nat → Found → Nat × Found) (state : Nat × Found) (e : Nat) : Nat × Found :=
  (max state.1 (deeper e state.2).1, (deeper e state.2).2)

/-- `DFS`; `budget` levels are left before the depth exceeds `MAX_DFS_DEPTH`. -/
def dfs (memoAll : Bool) : Nat → Nat → List Token → Found → Nat × Found
  | 0, s, preTokens, found =>
    (chars.length,
      if s < chars.length then
        found.record memoAll (preTokens ++ [(substr chars s (chars.length - s), unknown)])
      else found)
  | budget + 1, s, preTokens, found =>
    if chars.length ≤ s then (s, found.record memoAll preTokens)
    else
      let tried := (wordEnds trie chars preTokens s).foldl (tryEnd fun e =>
        dfs memoAll budget e (preTokens ++ [wordAt trie chars s e])) (s, found)
      if tried.1 > s then tried
      else dfs memoAll budget (s + 1) (preTokens ++ [single trie chars s]) tried.2

/-- `DFS` as `TokenizeInner` calls it: `best_tokens` of the whole stretch. -/
def bestTokens : List Text :=
  (dfs trie chars false 11 0 [] ⟨[], [], none⟩).2.bestTokens

end Search

section Reconciliation

def joined (tokens : List Text) (start stop : Nat) : Text := ((tokens.take stop).drop start).flatten

def byteLength (text : Text) : Nat := (text.map Char.utf8Size).sum

def same : List Text → List Text → Nat
  | first :: rest, first' :: rest' => if first = first' then same rest rest' + 1 else 0
  | _, _ => 0

/-- What the loop of `TokenizeInner` makes of a text: tokens that both directions have, and
stretches that are left to `DFS`. -/
inductive Piece
  | agreed (tokens : List Text)
  | differs (chars : Text)
  deriving DecidableEq

/-- The loop of `TokenizeInner`; `i'` and `j'` stand for `_i` and `_j`. -/
def piecesFrom (tks tks1 : List Text) (i j i' j' : Nat) : List Piece :=
  if i < tks1.length ∧ j < tks.length then
    if joined tks1 i' i ≠ joined tks j' j then
      if byteLength (joined tks1 i' i) > byteLength (joined tks j' j) then
        piecesFrom tks tks1 i (j + 1) i' j'
      else
        piecesFrom tks tks1 (i + 1) j i' j'
    else if tks1[i]? ≠ tks[j]? then
      piecesFrom tks tks1 (i + 1) (j + 1) i' j'
    else
      let same := same (tks1.drop (i + 1)) (tks.drop (j + 1)) + 1
      .differs (joined tks j' j) :: .agreed ((tks.drop j).take same) ::
        piecesFrom tks tks1 (i + same + 1) (j + same + 1) (i + same) (j + same)
  else if i' < tks1.length then [.differs (joined tks j' tks.length)]
  else []
termination_by (tks1.length - i) + (tks.length - j)

def pieces (tks tks1 : List Text) : List Piece :=
  let same := same tks1 tks
  (if 0 < same then [.agreed (tks.take same)] else []) ++
    piecesFrom tks tks1 (same + 1) (same + 1) same same

variable (trie : Trie)

def Piece.text : Piece → Text
  | agreed tokens => [' '].intercalate tokens
  | differs chars => [' '].intercalate (bestTokens trie chars)

/-- `TokenizeInner`: the strings it pushes. -/
def tokenizeInner (L : Text) : List Text :=
  (pieces (maxForward trie L).1 (maxBackward trie L).1).map (Piece.text trie)

end Reconciliation

def textOf (tokens : List Token) : Text := (tokens.map Prod.fst).flatten

section DirectionLemmas

variable (trie : Trie)

theorem textOf_forwardFrom (rest : Text) : textOf (forwardFrom trie rest) = rest := by
  fun_induction forwardFrom trie rest with
  | case1 => rfl
  | case2 rest _ ih =>
    simp only [textOf, List.map_cons, List.flatten_cons] at ih ⊢
    rw [ih]
    exact List.take_append_drop ..

theorem textOf_backwardFrom (front : Text) :
    textOf (backwardFrom trie front).reverse = front := by
  fun_induction backwardFrom trie front with
  | case1 => rfl
  | case2 front _ ih =>
    simp only [textOf, List.reverse_cons, List.map_append, List.flatten_append] at ih ⊢
    rw [ih]
    simp [entry]

end DirectionLemmas

section SearchLemmas

variable (trie : Trie) (chars : Text)

/-- The tokens that the search tries after `preTokens`, each with its end. -/
def choices (preTokens : List Token) (s : Nat) : List (Nat × Token) :=
  if wordEnds trie chars preTokens s = [] then [(s + 1, single trie chars s)]
  else (wordEnds trie chars preTokens s).map fun e => (e, wordAt trie chars s e)

theorem choices_ne_nil (preTokens : List Token) (s : Nat) :
    choices trie chars preTokens s ≠ [] := by
  unfold choices
  split
  · simp
  · simpa

theorem lt_of_mem_wordEnds {preTokens : List Token} {s e : Nat}
    (isEnd : e ∈ wordEnds trie chars preTokens s) : s < e ∧ e ≤ chars.length := by
  have inRange := List.mem_range'_1.mp
    ((List.takeWhile_sublist _).mem (List.mem_of_mem_filter isEnd))
  have first : s < firstEnd trie chars preTokens s := by
    unfold firstEnd
    split
    · omega
    · split <;> omega
  omega

theorem choices_spec {preTokens : List Token} {s : Nat} (inside : s < chars.length)
    {choice : Nat × Token} (isChoice : choice ∈ choices trie chars preTokens s) :
    s < choice.1 ∧ choice.1 ≤ chars.length ∧ choice.2.1 = substr chars s (choice.1 - s) := by
  unfold choices at isChoice
  split at isChoice
  · obtain rfl := List.mem_singleton.mp isChoice
    exact ⟨by omega, by omega, by simp [single]⟩
  · obtain ⟨e, isEnd, rfl⟩ := List.mem_map.mp isChoice
    have := lt_of_mem_wordEnds trie chars isEnd
    exact ⟨this.1, this.2, rfl⟩

/-- What `DFS` records, in order. -/
def leaves : Nat → Nat → List Token → List (List Token)
  | 0, s, preTokens =>
    if s < chars.length then [preTokens ++ [(substr chars s (chars.length - s), unknown)]]
    else []
  | budget + 1, s, preTokens =>
    if chars.length ≤ s then [preTokens]
    else (choices trie chars preTokens s).flatMap fun choice =>
      leaves budget choice.1 (preTokens ++ [choice.2])

/-- The segmentations that the search would come to without a limit on its depth. -/
def segmentations : Nat → Nat → List Token → List (List Token)
  | 0, _, preTokens => [preTokens]
  | fuel + 1, s, preTokens =>
    if chars.length ≤ s then [preTokens]
    else (choices trie chars preTokens s).flatMap fun choice =>
      segmentations fuel choice.1 (preTokens ++ [choice.2])

theorem foldl_tryEnd {memoAll : Bool} {deeper : Nat → Found → Nat × Found}
    {records : Nat → List (List Token)} {ends : List Nat}
    (each : ∀ e ∈ ends, ∀ found, (deeper e found).2 =
      (records e).foldl (Found.record memoAll) found ∧ e ≤ (deeper e found).1)
    (state : Nat × Found) :
    (ends.foldl (tryEnd deeper) state).2 =
        (ends.flatMap records).foldl (Found.record memoAll) state.2 ∧
      state.1 ≤ (ends.foldl (tryEnd deeper) state).1 ∧
      ∀ e ∈ ends, e ≤ (ends.foldl (tryEnd deeper) state).1 := by
  induction ends generalizing state with
  | nil => simp
  | cons first rest ih =>
    obtain ⟨recorded, passed⟩ := each first List.mem_cons_self state.2
    obtain ⟨later, kept, all⟩ :=
      ih (fun e member => each e (List.mem_cons_of_mem _ member)) (tryEnd deeper state first)
    have isFirst : (tryEnd deeper state first).2 =
        (records first).foldl (Found.record memoAll) state.2 := recorded
    have isMax : (tryEnd deeper state first).1 =
        max state.1 (deeper first state.2).1 := rfl
    rw [isMax] at kept
    rw [List.foldl_cons, List.flatMap_cons, List.foldl_append, later, isFirst]
    apply And.intro rfl
    constructor
    · omega
    · intro e member
      rcases List.mem_cons.mp member with rfl | member
      · omega
      · exact all e member

theorem dfs_eq (memoAll : Bool) (budget s : Nat) (preTokens : List Token) (found : Found)
    (inside : s ≤ chars.length) :
    (dfs trie chars memoAll budget s preTokens found).2 =
        (leaves trie chars budget s preTokens).foldl (Found.record memoAll) found ∧
      s ≤ (dfs trie chars memoAll budget s preTokens found).1 := by
  induction budget generalizing s preTokens found with
  | zero =>
    unfold dfs leaves
    split
    · exact ⟨rfl, inside⟩
    · exact ⟨rfl, inside⟩
  | succ budget ih =>
    unfold dfs leaves
    split
    · exact ⟨rfl, Nat.le_refl s⟩
    case isFalse notEnd =>
      obtain ⟨looped, kept, all⟩ := foldl_tryEnd
        (fun e (isEnd : e ∈ wordEnds trie chars preTokens s) found =>
          ih e (preTokens ++ [wordAt trie chars s e]) found
            (lt_of_mem_wordEnds trie chars isEnd).2) (s, found)
      rcases List.eq_nil_or_concat' (wordEnds trie chars preTokens s) with none | ⟨_, e, some⟩
      · obtain ⟨recorded, passed⟩ := ih (s + 1) (preTokens ++ [single trie chars s]) found
          (by omega)
        simp only [none, choices, List.foldl_nil, gt_iff_lt, lt_irrefl, if_false, if_true,
          List.flatMap_singleton]
        exact ⟨recorded, by omega⟩
      · have isEnd : e ∈ wordEnds trie chars preTokens s := by simp [some]
        have beyond := all e isEnd
        have positive := (lt_of_mem_wordEnds trie chars isEnd).1
        rw [if_pos (by omega), choices, if_neg (List.ne_nil_of_mem isEnd), List.flatMap_map]
        exact ⟨looped, kept⟩

theorem textOf_concat {s stop : Nat} {preTokens : List Token} {token : Token}
    (before : textOf preTokens = chars.take s) (le : s ≤ stop)
    (isText : token.1 = substr chars s (stop - s)) :
    textOf (preTokens ++ [token]) = chars.take stop := by
  have isSplit : chars.take (s + (stop - s)) = chars.take s ++ substr chars s (stop - s) :=
    List.take_add
  rw [Nat.add_sub_cancel' le] at isSplit
  rw [isSplit, ← before, ← isText]
  simp [textOf]

theorem textOf_of_mem_leaves {budget s : Nat} {preTokens : List Token}
    (before : textOf preTokens = chars.take s) {leaf : List Token}
    (isLeaf : leaf ∈ leaves trie chars budget s preTokens) : textOf leaf = chars := by
  induction budget generalizing s preTokens with
  | zero =>
    rw [leaves] at isLeaf
    split at isLeaf
    case isTrue inside =>
      obtain rfl := List.mem_singleton.mp isLeaf
      rw [textOf_concat chars before inside.le rfl, List.take_length]
    case isFalse => cases isLeaf
  | succ budget ih =>
    rw [leaves] at isLeaf
    split at isLeaf
    case isTrue isEnd =>
      obtain rfl := List.mem_singleton.mp isLeaf
      rw [before, List.take_of_length_le isEnd]
    case isFalse notEnd =>
      obtain ⟨choice, isChoice, isLeaf⟩ := List.mem_flatMap.mp isLeaf
      obtain ⟨lower, _, isText⟩ := choices_spec trie chars (by omega) isChoice
      exact ih (textOf_concat chars before lower.le isText) isLeaf

theorem segmentations_of_end {fuel s : Nat} {preTokens : List Token} (isEnd : chars.length ≤ s) :
    segmentations trie chars fuel s preTokens = [preTokens] := by
  cases fuel with
  | zero => rfl
  | succ fuel => rw [segmentations, if_pos isEnd]

theorem le_length_of_mem_segmentations {fuel s : Nat} {preTokens full : List Token}
    (isFull : full ∈ segmentations trie chars fuel s preTokens) :
    preTokens.length ≤ full.length := by
  induction fuel generalizing s preTokens with
  | zero => exact (congrArg List.length (List.mem_singleton.mp isFull)).ge
  | succ fuel ih =>
    rw [segmentations] at isFull
    split at isFull
    · exact (congrArg List.length (List.mem_singleton.mp isFull)).ge
    · obtain ⟨choice, _, isFull⟩ := List.mem_flatMap.mp isFull
      have := ih isFull
      rw [List.length_append, List.length_singleton] at this
      omega

theorem exists_segmentation (fuel s : Nat) (preTokens : List Token) :
    ∃ full, full ∈ segmentations trie chars fuel s preTokens := by
  induction fuel generalizing s preTokens with
  | zero => exact ⟨_, List.mem_singleton_self _⟩
  | succ fuel ih =>
    rw [segmentations]
    split
    · exact ⟨_, List.mem_singleton_self _⟩
    · obtain ⟨choice, isChoice⟩ :=
        List.exists_mem_of_ne_nil _ (choices_ne_nil trie chars preTokens s)
      obtain ⟨full, isFull⟩ := ih choice.1 (preTokens ++ [choice.2])
      exact ⟨full, List.mem_flatMap.mpr ⟨choice, isChoice, isFull⟩⟩

theorem leaves_eq_nil_iff {budget fuel s : Nat} {preTokens : List Token}
    (depth : preTokens.length + budget = 11) (enough : chars.length ≤ s + fuel) :
    leaves trie chars budget s preTokens = [] ↔
      ∀ full ∈ segmentations trie chars fuel s preTokens, full.length = 11 := by
  induction budget generalizing fuel s preTokens with
  | zero =>
    rw [leaves]
    split
    case isTrue inside =>
      cases fuel with
      | zero => omega
      | succ fuel =>
        rw [segmentations, if_neg (by omega)]
        obtain ⟨choice, isChoice⟩ :=
          List.exists_mem_of_ne_nil _ (choices_ne_nil trie chars preTokens s)
        obtain ⟨full, isFull⟩ :=
          exists_segmentation trie chars fuel choice.1 (preTokens ++ [choice.2])
        have isLonger := le_length_of_mem_segmentations trie chars isFull
        rw [List.length_append, List.length_singleton] at isLonger
        constructor
        · intro isNil
          cases isNil
        · intro all
          have := all full (List.mem_flatMap.mpr ⟨choice, isChoice, isFull⟩)
          omega
    case isFalse isEnd =>
      rw [segmentations_of_end trie chars (by omega)]
      simp [← depth]
  | succ budget ih =>
    rw [leaves]
    split
    case isTrue isEnd =>
      rw [segmentations_of_end trie chars isEnd]
      constructor
      · intro isNil
        cases isNil
      · intro all
        have := all preTokens (List.mem_singleton_self _)
        omega
    case isFalse notEnd =>
      cases fuel with
      | zero => omega
      | succ fuel =>
        rw [segmentations, if_neg notEnd, List.flatMap_eq_nil_iff]
        have below {choice : Nat × Token}
            (isChoice : choice ∈ choices trie chars preTokens s) :
            leaves trie chars budget choice.1 (preTokens ++ [choice.2]) = [] ↔
              ∀ full ∈ segmentations trie chars fuel choice.1 (preTokens ++ [choice.2]),
                full.length = 11 := by
          have := choices_spec trie chars (by omega) isChoice
          apply ih
          · rw [List.length_append, List.length_singleton]
            omega
          · omega
        constructor
        · intro none full isFull
          obtain ⟨choice, isChoice, isFull⟩ := List.mem_flatMap.mp isFull
          exact (below isChoice).mp (none choice isChoice) full isFull
        · intro all choice isChoice
          apply (below isChoice).mpr
          intro full isFull
          exact all full (List.mem_flatMap.mpr ⟨choice, isChoice, isFull⟩)

theorem bestTokens_foldl (tokens : List Token) (records : List (List Token)) (found : Found)
    (isBest : found.bestTokens = tokens.map Prod.fst) :
    ∃ kept ∈ tokens :: records,
      (records.foldl (Found.record false) found).bestTokens = kept.map Prod.fst := by
  induction records generalizing tokens found with
  | nil => exact ⟨tokens, List.mem_cons_self, isBest⟩
  | cons first rest ih =>
    rw [List.foldl_cons]
    by_cases better : found.maxScore.all fun maxScore => maxScore < (score first).2
    · obtain ⟨kept, member, isKept⟩ := ih first (found.record false first)
        (by simp only [Found.record, better, Bool.false_eq_true, if_false, if_true]; rfl)
      exact ⟨kept, List.mem_cons_of_mem _ member, isKept⟩
    · obtain ⟨kept, member, isKept⟩ := ih tokens (found.record false first)
        (by simp [Found.record, better, isBest])
      apply Exists.intro kept
      apply And.intro _ isKept
      rcases List.mem_cons.mp member with rfl | later
      · exact List.mem_cons_self
      · exact List.mem_cons_of_mem _ (List.mem_cons_of_mem _ later)

/-- Some segmentation that the search explores has not exactly eleven tokens. -/
def Recorded : Prop :=
  ∃ full ∈ segmentations trie chars chars.length 0 [], full.length ≠ 11

theorem flatten_bestTokens :
    (Recorded trie chars → (bestTokens trie chars).flatten = chars) ∧
      (¬ Recorded trie chars → bestTokens trie chars = []) := by
  have isFold := (dfs_eq trie chars false 11 0 [] ⟨[], [], none⟩ (Nat.zero_le _)).1
  have isNil : leaves trie chars 11 0 [] = [] ↔ ¬ Recorded trie chars := by
    rw [leaves_eq_nil_iff trie chars rfl (by omega : chars.length ≤ 0 + chars.length)]
    simp [Recorded]
  rw [bestTokens, isFold]
  constructor
  · intro recorded
    obtain ⟨first, rest, isLeaves⟩ :=
      List.exists_cons_of_ne_nil (mt isNil.mp (not_not.mpr recorded))
    obtain ⟨kept, member, isKept⟩ := bestTokens_foldl first rest
      (Found.record false ⟨[], [], none⟩ first) (by simp [Found.record, score])
    rw [isLeaves, List.foldl_cons, isKept]
    rw [← isLeaves] at member
    exact textOf_of_mem_leaves trie chars rfl member
  · intro notRecorded
    rw [isNil.mpr notRecorded]
    rfl

end SearchLemmas

def blankSeparated (text : Text) : List Text := (text.splitOnP (· = ' ')).filter (· ≠ [])

def Piece.source : Piece → Text
  | agreed tokens => tokens.flatten
  | differs chars => chars

section ReconciliationLemmas

theorem take_same (first second : List Text) :
    first.take (same first second) = second.take (same first second) := by
  fun_induction same first second with
  | case1 rest head rest' ih => rw [List.take_succ_cons, List.take_succ_cons, ih]
  | case2 => rfl
  | case3 => rfl

theorem flatten_take {tokens : List Text} {start stop : Nat} (le : start ≤ stop) :
    (tokens.take stop).flatten = (tokens.take start).flatten ++ joined tokens start stop := by
  rw [joined, ← List.flatten_append]
  congr 1
  have isSplit := List.take_append_drop start (tokens.take stop)
  rw [List.take_take, Nat.min_eq_left le] at isSplit
  exact isSplit.symm

theorem flatten_piecesFrom {tks tks1 : List Text} (sameText : tks1.flatten = tks.flatten)
    {i j i' j' : Nat} (left : i' ≤ i) (right : j' ≤ j)
    (aligned : (tks1.take i').flatten = (tks.take j').flatten) :
    (piecesFrom tks tks1 i j i' j').flatMap Piece.source = (tks.drop j').flatten := by
  fun_induction piecesFrom tks tks1 i j i' j' with
  | case1 i j i' j' _ _ _ ih => exact ih left (by omega) aligned
  | case2 i j i' j' _ _ _ ih => exact ih (by omega) right aligned
  | case3 i j i' j' _ _ _ ih => exact ih (by omega) (by omega) aligned
  | case4 i j i' j' inside equal sameToken size ih =>
    have tokens : (tks1.drop i).take size = (tks.drop j).take size := by
      obtain ⟨first, second⟩ := inside
      rw [List.getElem?_eq_getElem first, List.getElem?_eq_getElem second] at sameToken
      rw [List.drop_eq_getElem_cons first, List.drop_eq_getElem_cons second, List.take_succ_cons,
        List.take_succ_cons, take_same, Option.some.inj (not_not.mp sameToken)]
    clear_value size
    have later : (tks1.take (i + size)).flatten = (tks.take (j + size)).flatten := by
      rw [List.take_add, List.take_add, List.flatten_append, List.flatten_append, tokens,
        flatten_take left, flatten_take right, aligned, not_not.mp equal]
    rw [List.flatMap_cons, List.flatMap_cons, ih (by omega) (by omega) later]
    simp only [Piece.source]
    apply List.append_right_inj (tks.take j').flatten |>.mp
    rw [← List.append_assoc, ← flatten_take right, ← List.flatten_append, ← List.drop_drop,
      List.take_append_drop, ← List.flatten_append, ← List.flatten_append,
      List.take_append_drop, List.take_append_drop]
  | case5 i j i' j' _ isOpen =>
    simp [Piece.source, joined]
  | case6 i j i' j' _ notOpen =>
    rw [List.take_of_length_le (by omega), sameText] at aligned
    have isSplit := congrArg List.flatten (List.take_append_drop j' tks)
    rw [List.flatten_append, ← aligned] at isSplit
    exact (List.append_right_eq_self.mp isSplit).symm

theorem flatten_pieces {tks tks1 : List Text} (sameText : tks1.flatten = tks.flatten) :
    (pieces tks tks1).flatMap Piece.source = tks.flatten := by
  have isFirst : (if 0 < same tks1 tks then [Piece.agreed (tks.take (same tks1 tks))]
      else []).flatMap Piece.source = (tks.take (same tks1 tks)).flatten := by
    split
    · simp [Piece.source]
    · simp [show same tks1 tks = 0 by omega]
  rw [pieces, List.flatMap_append, isFirst,
    flatten_piecesFrom sameText (by omega) (by omega) (congrArg List.flatten (take_same tks1 tks)),
    ← List.flatten_append, List.take_append_drop]

theorem filter_intercalate (tokens : List Text) :
    ([' '].intercalate tokens).filter (· ≠ ' ') = tokens.flatten.filter (· ≠ ' ') := by
  induction tokens with
  | nil => rfl
  | cons first rest ih =>
    cases rest with
    | nil => simp
    | cons second rest =>
      rw [List.intercalate_cons_cons, List.filter_append, List.filter_append, ih,
        List.flatten_cons (l := first), List.filter_append]
      simp

theorem flatten_blankSeparated (text : Text) :
    (blankSeparated text).flatten = text.filter (· ≠ ' ') := by
  rw [blankSeparated, List.flatten_filter_ne_nil, PyString.flatten_splitOnP]
  simp

end ReconciliationLemmas

structure Run where
  text : Text
  noBlank : ' ' ∉ text

/-- The tokens of both directions and those of the strings that are pushed are the text, one
after the other. -/
structure Conserves (trie : Trie) (L : Text) : Prop where
  forward : (maxForward trie L).1.flatten = L
  backward : (maxBackward trie L).1.flatten = L
  inner : ((tokenizeInner trie L).flatMap blankSeparated).flatten = L

section Conservation

variable (trie : Trie)

theorem flatten_maxForward (L : Text) : (maxForward trie L).1.flatten = L :=
  textOf_forwardFrom trie L

theorem flatten_maxBackward (L : Text) : (maxBackward trie L).1.flatten = L :=
  textOf_backwardFrom trie L

def Piece.kept (piece : Piece) : Text := (blankSeparated (piece.text trie)).flatten

theorem kept_of_recorded {piece : Piece}
    (recorded : ∀ chars, piece = .differs chars → Recorded trie chars) :
    piece.kept trie = piece.source.filter (· ≠ ' ') := by
  rw [Piece.kept, flatten_blankSeparated]
  cases piece with
  | agreed tokens => exact filter_intercalate tokens
  | differs chars =>
    rw [Piece.text, filter_intercalate,
      (flatten_bestTokens trie chars).1 (recorded chars rfl), Piece.source]

theorem length_kept_le (piece : Piece) : (piece.kept trie).length ≤ piece.source.length := by
  by_cases recorded : ∀ chars, piece = .differs chars → Recorded trie chars
  · rw [kept_of_recorded trie recorded]
    exact List.length_filter_le ..
  · obtain ⟨chars, rfl, notRecorded⟩ : ∃ chars, piece = .differs chars ∧ ¬ Recorded trie chars := by
      simpa using recorded
    rw [Piece.kept, Piece.text, (flatten_bestTokens trie chars).2 notRecorded]
    exact Nat.zero_le _

theorem length_kept_lt {chars : Text} (notRecorded : ¬ Recorded trie chars) :
    ((Piece.differs chars).kept trie).length < chars.length := by
  rw [Piece.kept, Piece.text, (flatten_bestTokens trie chars).2 notRecorded]
  apply List.length_pos_iff.mpr
  rintro rfl
  exact notRecorded ⟨[], List.mem_singleton_self _, by decide⟩

theorem flatten_tokenizeInner (L : Text) :
    ((tokenizeInner trie L).flatMap blankSeparated).flatten =
      (pieces (maxForward trie L).1 (maxBackward trie L).1).flatMap (Piece.kept trie) := by
  rw [tokenizeInner, List.flatMap_map]
  induction pieces (maxForward trie L).1 (maxBackward trie L).1 with
  | nil => rfl
  | cons piece rest ih =>
    rw [List.flatMap_cons, List.flatMap_cons, List.flatten_append, ih]
    rfl

theorem flatMap_source (L : Text) :
    (pieces (maxForward trie L).1 (maxBackward trie L).1).flatMap Piece.source = L := by
  rw [flatten_pieces ((flatten_maxBackward trie L).trans (flatten_maxForward trie L).symm),
    flatten_maxForward]

theorem length_flatMap_lt {found : List Piece} {chars : Text} (member : .differs chars ∈ found)
    (notRecorded : ¬ Recorded trie chars) :
    (found.flatMap (Piece.kept trie)).length < (found.flatMap Piece.source).length := by
  have atMost (others : List Piece) :
      (others.flatMap (Piece.kept trie)).length ≤ (others.flatMap Piece.source).length := by
    induction others with
    | nil => exact Nat.le_refl _
    | cons piece rest ih =>
      have := length_kept_le trie piece
      simp only [List.flatMap_cons, List.length_append]
      omega
  obtain ⟨before, after, rfl⟩ := List.append_of_mem member
  have first := atMost before
  have last := atMost after
  have lost := length_kept_lt trie notRecorded
  simp only [List.flatMap_append, List.flatMap_cons, List.length_append, Piece.source]
  omega

/-- A stretch on which the directions differ is lost if every segmentation that is explored has
eleven tokens. -/
theorem conserves_iff_recorded (run : Run) : Conserves trie run.text ↔
    ∀ chars, .differs chars ∈ pieces (maxForward trie run.text).1 (maxBackward trie run.text).1 →
      Recorded trie chars := by
  constructor
  · intro conserves chars member
    by_contra notRecorded
    have shorter := length_flatMap_lt trie member notRecorded
    rw [← flatten_tokenizeInner, conserves.inner, flatMap_source] at shorter
    exact lt_irrefl _ shorter
  · intro recorded
    apply Conserves.mk (flatten_maxForward trie run.text) (flatten_maxBackward trie run.text)
    have isKept (piece : Piece)
        (member : piece ∈ pieces (maxForward trie run.text).1 (maxBackward trie run.text).1) :
        piece.kept trie = piece.source.filter (· ≠ ' ') := by
      apply kept_of_recorded
      rintro chars rfl
      exact recorded chars member
    rw [flatten_tokenizeInner, List.flatMap_congr isKept, ← List.filter_flatMap, flatMap_source]
    apply List.filter_eq_self.mpr
    intro char isIn
    apply decide_eq_true
    rintro rfl
    exact run.noBlank isIn

def alphabet : Trie := .ofWords [(['a', 'b'], 5), (['b', 'c'], 5), (['b', 'c', 'd'], 5)]

/-- "abcabcabcabcabcd" is two tokens for each "abc", and three at the end. -/
theorem not_conserves_alphabet :
    ¬ Conserves alphabet "abcabcabcabcabcd".toList := by
  intro conserves
  have inner := conserves.inner
  revert inner
  decide +kernel

end Conservation

end RagFlow.FullText.Segmentation
