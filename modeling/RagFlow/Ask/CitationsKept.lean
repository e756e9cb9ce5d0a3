import Mathlib.Data.List.FinRange
import Mathlib.Data.List.Induction
import Mathlib.Data.List.Nodup
import RagFlow.Lib.Regex

/-!
# Citations written by the dealer

`Dealer.insert_citations` of `rag/nlp/search.py`: an answer is split into sentences and code blocks,
each of them is compared with the chunks, and markers are written behind it.  The embedding model
and the similarities are parameters, and so is the order of a Python set.
-/

namespace RagFlow.Ask.Dealer

open Lib

abbrev Text := List Char

def fence : Text := "```".toList

/-- `[^\\|][；。？!！،؛؟۔\n]|[a-z\u0600-\u06FF][.?;!،؛؟][ \n]` -/
def sentenceEnd : Regex :=
  .alt (.seq (.noneOf "|") (.oneOf "；。？!！،؛؟۔\n"))
    (.seq (.alt (.between 'a' 'z') (.between '\u0600' '\u06FF'))
      (.seq (.oneOf ".?;!،؛؟") (.oneOf " \n")))

structure Block where
  isCode : Bool
  text : Text
  deriving DecidableEq

def blocksFrom : Option Text → List Text → List Block
  | none, [] => []
  | some code, [] => [⟨true, code⟩]
  | none, piece :: pieces =>
    if piece = fence then blocksFrom (some fence) pieces
    else ⟨false, piece⟩ :: blocksFrom none pieces
  | some code, piece :: pieces =>
    if piece = fence then ⟨true, code ++ fence⟩ :: blocksFrom none pieces
    else blocksFrom (some (code ++ piece)) pieces

def fencePieces (answer : Text) : List Text := (Regex.literal "```").split answer

def Block.pieces (block : Block) : List Text :=
  if block.isCode then [block.text ++ ['\n']] else sentenceEnd.split block.text

def splitPieces (answer : Text) : List Text :=
  if 3 ≤ (fencePieces answer).length then
    (blocksFrom none (fencePieces answer)).flatMap Block.pieces
  else sentenceEnd.split answer

def endsSentence (piece : Text) : Bool := (sentenceEnd.matchAt piece).isSome

def rejoinAfter (piece : Text) : List Text → List Text
  | [] => [piece]
  | next :: pieces =>
    if endsSentence next then (piece ++ next.take 1) :: rejoinAfter (next.drop 1) pieces
    else piece :: rejoinAfter next pieces

def rejoin : List Text → List Text
  | [] => []
  | piece :: pieces => rejoinAfter piece pieces

def answerPieces (answer : Text) : List Text := rejoin (splitPieces answer)

def longPieces (answer : Text) : List (Text × Nat) :=
  (answerPieces answer).zipIdx.filter fun piece => 5 ≤ piece.1.length

structure Comparison (count : Nat) where
  hybrid_similarity : List Text → Nat → Fin count → Float
  listOfSet : List (Fin count) → List (Fin count)
  perm : ∀ ids, (listOfSet ids).Perm ids

variable {count : Nat} (comparison : Comparison count)

/-- `np.max`, which is no number if one of the values is none. -/
def maximum : List Float → Float
  | [] => 0
  | first :: rest =>
    rest.foldl (fun best value => if best < value || value.isNaN then value else best) first

def matches? (thr : Float) (sim : Fin count → Float) : Option (List (Fin count)) :=
  let mx := maximum ((List.finRange count).map sim) * 0.99
  if mx < thr then none
  else some ((comparison.listOfSet ((List.finRange count).filter fun ii => mx < sim ii)).take 4)

def citesAt (thr : Float) (pieces : List (Text × Nat)) : List (Nat × List (Fin count)) :=
  pieces.zipIdx.filterMap fun (piece, i) =>
    let sim := comparison.hybrid_similarity (pieces.map Prod.fst) i
    (matches? comparison thr sim).map fun cites => (piece.2, cites)

/-- The loop that lowers the threshold; no result means that more rounds are needed. -/
def lowered (pieces : List (Text × Nat)) : Nat → Float → Option (List (Nat × List (Fin count)))
  | 0, _ => none
  | rounds + 1, thr =>
    if 0.3 < thr then
      let cites := citesAt comparison thr pieces
      if cites = [] then lowered pieces rounds (thr * 0.8) else some cites
    else some []

structure Cited (count : Nat) where
  parts : List (Text × List (Fin count))
  seted : List (Fin count)

def unchanged (answer : Text) : Cited count where
  parts := [(answer, [])]
  seted := []

def marker (chunk : Fin count) : Text := (" [ID:" ++ toString chunk.val ++ "]").toList

def Cited.res (cited : Cited count) : Text :=
  cited.parts.flatMap fun part => part.1 ++ part.2.flatMap marker

def newCites (seted : List (Fin count)) : List (Fin count) → List (Fin count)
  | [] => []
  | c :: cites =>
    if c ∈ seted then newCites seted cites else c :: newCites (c :: seted) cites

def writePiece (cites : List (Nat × List (Fin count))) (cited : Cited count) (piece : Text × Nat) :
    Cited count :=
  let new := newCites cited.seted ((cites.lookup piece.2).getD [])
  { parts := cited.parts ++ [(piece.1, new)]
    seted := cited.seted ++ new }

def insert_citations (rounds : Nat) (answer : Text) : Option (Cited count) :=
  if count = 0 then some (unchanged answer)
  else if longPieces answer = [] then some (unchanged answer)
  else
    (lowered comparison (longPieces answer) rounds 0.63).map fun cites =>
      (answerPieces answer).zipIdx.foldl (writePiece cites) ⟨[], []⟩

end RagFlow.Ask.Dealer

/-!
# What citations leave of an answer

Sentences stay as they are and every code block is one piece with a newline behind it, so that no
marker is in it.  A chunk is cited once, and four at most behind one piece.
-/

namespace RagFlow.Ask.Dealer

open Lib

variable {count : Nat} {comparison : Comparison count}

def blocks (answer : Text) : List Block := blocksFrom none (fencePieces answer)

def Compared (count : Nat) (answer : Text) : Prop := count ≠ 0 ∧ longPieces answer ≠ []

def Block.spaced (block : Block) : Text := block.text ++ if block.isCode then ['\n'] else []

def Block.Shown (block : Block) (pieces : List Text) : Prop :=
  if block.isCode then pieces = [block.spaced] else pieces.flatten = block.text

/-- The blocks of an answer are code from fence to fence, or to the end, and text without fences. -/
structure SplitAtFences (answer : Text) (blocks : List Block) : Prop where
  whole : blocks.flatMap Block.text = answer
  code : ∀ before block after, blocks = before ++ block :: after → block.isCode = true →
    ∃ inner, block.text = fence ++ inner ++ fence ∨ after = [] ∧ block.text = fence ++ inner
  text : ∀ block ∈ blocks, block.isCode = false → ¬ fence <:+: block.text

/-- Markers stand only behind the pieces of the answer. -/
structure Keeps (answer : Text) (cited : Cited count) : Prop where
  shown : Compared count answer → ∃ groups,
    cited.parts.map Prod.fst = groups.flatten ∧ List.Forall₂ Block.Shown (blocks answer) groups
  conserved : Compared count answer →
    (cited.parts.map Prod.fst).flatten = (blocks answer).flatMap Block.spaced
  same : ¬ Compared count answer → cited = unchanged answer
  once : (cited.parts.flatMap Prod.snd).Nodup
  reported : cited.seted = cited.parts.flatMap Prod.snd
  few : ∀ part ∈ cited.parts, part.2.length ≤ 4

theorem flatMap_blocksFrom (code : Option Text) (pieces : List Text) :
    (blocksFrom code pieces).flatMap Block.text = code.getD [] ++ pieces.flatten := by
  induction pieces generalizing code with
  | nil => cases code <;> simp [blocksFrom]
  | cons piece pieces ih =>
    cases code with
    | none =>
      rw [blocksFrom]
      split_ifs with isFence
      · rw [ih, isFence]
        rfl
      · rw [List.flatMap_cons, ih]
        rfl
    | some code =>
      rw [blocksFrom]
      split_ifs with isFence
      · rw [List.flatMap_cons, ih, isFence]
        simp
      · rw [ih]
        simp

theorem code_blocksFrom {code : Option Text} (begun : ∀ text ∈ code, fence <+: text)
    (pieces : List Text) : ∀ before block after, blocksFrom code pieces = before ++ block :: after →
      block.isCode = true →
      ∃ inner, block.text = fence ++ inner ++ fence ∨ after = [] ∧ block.text = fence ++ inner := by
  induction pieces generalizing code with
  | nil =>
    intro before block after split isCode
    cases code with
    | none => cases before <;> cases split
    | some code =>
      obtain ⟨inner, rfl⟩ := begun code rfl
      cases before with
      | nil =>
        obtain ⟨rfl, rfl⟩ := List.cons.inj split
        exact ⟨inner, Or.inr ⟨rfl, rfl⟩⟩
      | cons first before => cases before <;> cases split
  | cons piece pieces ih =>
    intro before block after split isCode
    cases code with
    | none =>
      rw [blocksFrom] at split
      split_ifs at split
      · exact ih (by simp) before block after split isCode
      · cases before with
        | nil =>
          obtain ⟨rfl, -⟩ := List.cons.inj split
          cases isCode
        | cons first before =>
          exact ih (by simp) before block after (List.cons.inj split).2
            isCode
    | some code =>
      obtain ⟨inner, rfl⟩ := begun code rfl
      rw [blocksFrom] at split
      split_ifs at split
      · cases before with
        | nil =>
          obtain ⟨rfl, -⟩ := List.cons.inj split
          exact ⟨inner, Or.inl rfl⟩
        | cons first before =>
          exact ih (by simp) before block after (List.cons.inj split).2
            isCode
      · refine ih ?_ before block after split isCode
        simp

theorem text_blocksFrom {pieces : List Text}
    (open_ : ∀ piece ∈ pieces, piece = fence ∨ ¬ fence <:+: piece) (code : Option Text) :
    ∀ block ∈ blocksFrom code pieces, block.isCode = false → ¬ fence <:+: block.text := by
  induction pieces generalizing code with
  | nil => cases code <;> simp [blocksFrom]
  | cons piece pieces ih =>
    obtain ⟨here, later⟩ := List.forall_mem_cons.mp open_
    intro block isBlock noCode
    cases code with
    | none =>
      rw [blocksFrom] at isBlock
      split_ifs at isBlock with isFence
      · exact ih later _ block isBlock noCode
      · rcases List.mem_cons.mp isBlock with rfl | isBlock
        · exact here.resolve_left isFence
        · exact ih later _ block isBlock noCode
    | some code =>
      rw [blocksFrom] at isBlock
      split_ifs at isBlock with isFence
      · rcases List.mem_cons.mp isBlock with rfl | isBlock
        · cases noCode
        · exact ih later _ block isBlock noCode
      · exact ih later _ block isBlock noCode

theorem fence_consumes : (Regex.literal "```").Consumes := Regex.consumes_literal (by decide)

theorem mem_fencePieces {answer piece : Text} (isPiece : piece ∈ fencePieces answer) :
    piece = fence ∨ ¬ fence <:+: piece := by
  obtain ⟨first, others, parts, ⟨rest, -, unmatched⟩, later⟩ :=
    Regex.split_cases fence_consumes answer
  rw [fencePieces, parts] at isPiece
  rcases List.mem_cons.mp isPiece with rfl | isOther
  · exact Or.inr (unmatched.not_infix (by decide))
  · rcases later piece isOther with ⟨rest, length, matched⟩ | ⟨rest, unmatched⟩
    · exact Or.inl (Regex.eq_of_matchAt_literal matched)
    · exact Or.inr (unmatched.not_infix (by decide))

theorem splitAtFences (answer : Text) : SplitAtFences answer (blocks answer) where
  whole := by
    rw [blocks, flatMap_blocksFrom, fencePieces, Regex.flatten_split fence_consumes]
    rfl
  code := code_blocksFrom (by simp) _
  text := text_blocksFrom (fun _ isPiece => mem_fencePieces isPiece) none

theorem sentenceEnd_consumes : sentenceEnd.Consumes :=
  ((Regex.consumes_char _).seq _).alt
    (((Regex.consumes_char _).alt (Regex.consumes_char _)).seq _)

theorem sentenceEnd_extends : sentenceEnd.Extends :=
  ((Regex.extends_char _).seq (Regex.extends_char _)).alt
    (((Regex.extends_char _).alt (Regex.extends_char _)).seq
      ((Regex.extends_char _).seq (Regex.extends_char _)))

theorem block_pieces_cases {block : Block} (isFence : block.isCode = true → fence <+: block.text) :
    ∃ first others, block.pieces = first :: others ∧ endsSentence first = false := by
  unfold Block.pieces
  split_ifs with isCode
  · obtain ⟨inner, whole⟩ := isFence isCode
    refine ⟨_, _, rfl, ?_⟩
    rw [← whole]
    rfl
  · obtain ⟨first, others, parts, ⟨rest, -, unmatched⟩, -⟩ :=
      Regex.split_cases sentenceEnd_consumes block.text
    refine ⟨first, others, parts, ?_⟩
    by_cases isEmpty : first = []
    · rw [isEmpty]
      rfl
    · have missed := sentenceEnd_extends.matchAt_eq_none
        (unmatched first isEmpty List.suffix_rfl)
      rw [endsSentence, missed]
      rfl

theorem rejoinAfter_append (piece : Text) (pieces : List Text) {next : Text} (more : List Text)
    (notEnd : endsSentence next = false) :
    rejoinAfter piece (pieces ++ next :: more) =
      rejoinAfter piece pieces ++ rejoinAfter next more := by
  induction pieces generalizing piece with
  | nil => simp [rejoinAfter, notEnd]
  | cons other pieces ih =>
    rw [List.cons_append, rejoinAfter, rejoinAfter]
    split_ifs
    · rw [ih, List.cons_append]
    · rw [ih, List.cons_append]

theorem flatten_rejoinAfter (piece : Text) (pieces : List Text) :
    (rejoinAfter piece pieces).flatten = piece ++ pieces.flatten := by
  induction pieces generalizing piece with
  | nil => simp [rejoinAfter]
  | cons next pieces ih =>
    rw [rejoinAfter]
    split_ifs
    · rw [List.flatten_cons, ih, List.flatten_cons, List.append_assoc,
        ← List.append_assoc (next.take 1), List.take_append_drop]
    · rw [List.flatten_cons, ih, List.flatten_cons]

theorem flatten_rejoin (pieces : List Text) : (rejoin pieces).flatten = pieces.flatten := by
  cases pieces with
  | nil => rfl
  | cons piece pieces => exact flatten_rejoinAfter piece pieces

theorem shown_rejoin (block : Block) : block.Shown (rejoin block.pieces) := by
  unfold Block.Shown Block.pieces
  split_ifs with isCode
  · rw [Block.spaced, if_pos isCode]
    rfl
  · rw [flatten_rejoin, Regex.flatten_split sentenceEnd_consumes]

theorem rejoin_flatMap {blocks : List Block}
    (fenced : ∀ block ∈ blocks, block.isCode = true → fence <+: block.text) :
    rejoin (blocks.flatMap Block.pieces) =
      (blocks.map fun block => rejoin block.pieces).flatten := by
  induction blocks with
  | nil => rfl
  | cons block blocks ih =>
    obtain ⟨here, later⟩ := List.forall_mem_cons.mp fenced
    obtain ⟨first, others, pieces, -⟩ := block_pieces_cases here
    rw [List.map_cons, List.flatten_cons, ← ih later, List.flatMap_cons, pieces]
    cases blocks with
    | nil => simp [rejoin]
    | cons next blocks =>
      obtain ⟨nextFirst, nextOthers, nextPieces, notEnd⟩ :=
        block_pieces_cases (later next List.mem_cons_self)
      rw [List.flatMap_cons, nextPieces]
      exact rejoinAfter_append first others _ notEnd

theorem fenced_blocks (answer : Text) :
    ∀ block ∈ blocks answer, block.isCode = true → fence <+: block.text := by
  intro block isBlock isCode
  obtain ⟨before, after, split⟩ := List.append_of_mem isBlock
  obtain ⟨inner, closed | ⟨-, opened⟩⟩ :=
    (splitAtFences answer).code before block after split isCode
  · exact ⟨inner ++ fence, by rw [closed, List.append_assoc]⟩
  · exact ⟨inner, opened.symm⟩

theorem blocks_of_few {answer : Text} (few : ¬ 3 ≤ (fencePieces answer).length) :
    blocks answer = [⟨false, answer⟩] := by
  have lengths : (fencePieces answer).length = 2 * _ + 1 := Regex.length_pieces _
  obtain ⟨piece, alone⟩ := List.length_eq_one_iff.mp
    (show (fencePieces answer).length = 1 by omega)
  have whole : (fencePieces answer).flatten = answer := Regex.flatten_split fence_consumes answer
  rw [alone, List.flatten_singleton] at whole
  have notFence : answer ≠ fence := by
    rintro rfl
    exact few (by decide)
  rw [blocks, alone, whole, blocksFrom, if_neg notFence]
  rfl

theorem splitPieces_eq (answer : Text) :
    splitPieces answer = (blocks answer).flatMap Block.pieces := by
  unfold splitPieces
  split_ifs with several
  · rfl
  · rw [blocks_of_few several]
    exact (List.append_nil _).symm

theorem answerPieces_eq (answer : Text) :
    answerPieces answer = ((blocks answer).map fun block => rejoin block.pieces).flatten := by
  rw [answerPieces, splitPieces_eq, rejoin_flatMap (fenced_blocks answer)]

theorem shown_answerPieces (answer : Text) :
    List.Forall₂ Block.Shown (blocks answer)
      ((blocks answer).map fun block => rejoin block.pieces) := by
  rw [List.forall₂_map_right_iff, List.forall₂_same]
  exact fun block _ => shown_rejoin block

theorem flatten_of_shown {blocks : List Block} {groups : List (List Text)}
    (shown : List.Forall₂ Block.Shown blocks groups) :
    groups.flatten.flatten = blocks.flatMap Block.spaced := by
  induction shown with
  | nil => rfl
  | @cons block pieces blocks groups here _ ih =>
    rw [List.flatten_cons, List.flatten_append, ih, List.flatMap_cons]
    unfold Block.Shown at here
    split_ifs at here with isCode
    · rw [here, List.flatten_singleton]
    · rw [here, Block.spaced, if_neg isCode, List.append_nil]

theorem lowered_five (comparison : Comparison count) (pieces : List (Text × Nat)) (rounds : Nat) :
    ∃ cites, lowered comparison pieces 5 0.63 = some cites ∧
      lowered comparison pieces (5 + rounds) 0.63 = some cites := by
  have low : ¬ (0.3 : Float) < 0.63 * 0.8 * 0.8 * 0.8 * 0.8 := by decide +kernel
  rw [Nat.add_comm 5 rounds]
  simp only [lowered, if_neg low]
  split_ifs
  all_goals exact ⟨_, rfl, rfl⟩

theorem few_citesAt {thr : Float} {pieces : List (Text × Nat)} {place : Nat}
    {cites : List (Fin count)} (isCited : (place, cites) ∈ citesAt comparison thr pieces) :
    cites.length ≤ 4 := by
  obtain ⟨⟨piece, i⟩, -, matched⟩ := List.mem_filterMap.mp isCited
  obtain ⟨found, isFound, same⟩ := Option.map_eq_some_iff.mp matched
  obtain rfl : found = cites := (Prod.mk.inj same).2
  rw [matches?] at isFound
  split_ifs at isFound
  rw [← Option.some.inj isFound]
  exact List.length_take_le ..

theorem few_lowered {rounds : Nat} {thr : Float} {pieces : List (Text × Nat)}
    {cites : List (Nat × List (Fin count))}
    (isLowered : lowered comparison pieces rounds thr = some cites) :
    ∀ entry ∈ cites, entry.2.length ≤ 4 := by
  induction rounds generalizing thr with
  | zero => cases isLowered
  | succ rounds ih =>
    rw [lowered] at isLowered
    dsimp only at isLowered
    split_ifs at isLowered
    · exact ih isLowered
    · obtain rfl := Option.some.inj isLowered
      exact fun entry isEntry => few_citesAt isEntry
    · obtain rfl := Option.some.inj isLowered
      simp

theorem mem_newCites {seted cites : List (Fin count)} {c : Fin count}
    (isNew : c ∈ newCites seted cites) : c ∉ seted := by
  induction cites generalizing seted with
  | nil => cases isNew
  | cons first cites ih =>
    rw [newCites] at isNew
    split_ifs at isNew with isSeted
    · exact ih isNew
    · rcases List.mem_cons.mp isNew with rfl | later
      · exact isSeted
      · exact fun isOld => ih later (List.mem_cons_of_mem first isOld)

theorem nodup_newCites (seted cites : List (Fin count)) : (newCites seted cites).Nodup := by
  induction cites generalizing seted with
  | nil => exact List.nodup_nil
  | cons first cites ih =>
    rw [newCites]
    split_ifs
    · exact ih seted
    · exact List.nodup_cons.mpr
        ⟨fun again => mem_newCites again List.mem_cons_self, ih _⟩

theorem length_newCites_le (seted cites : List (Fin count)) :
    (newCites seted cites).length ≤ cites.length := by
  induction cites generalizing seted with
  | nil => exact Nat.le_refl _
  | cons first cites ih =>
    rw [newCites]
    split_ifs
    · exact (ih seted).trans (Nat.le_succ _)
    · exact Nat.succ_le_succ (ih _)

structure Written (pieces : List (Text × Nat)) (cited : Cited count) : Prop where
  texts : cited.parts.map Prod.fst = pieces.map Prod.fst
  reported : cited.seted = cited.parts.flatMap Prod.snd
  once : cited.seted.Nodup
  few : ∀ part ∈ cited.parts, part.2.length ≤ 4

theorem Written.writePiece {cites : List (Nat × List (Fin count))}
    (few : ∀ entry ∈ cites, entry.2.length ≤ 4) {pieces : List (Text × Nat)} {cited : Cited count}
    (written : Written pieces cited) (piece : Text × Nat) :
    Written (pieces ++ [piece]) (writePiece cites cited piece) := by
  have fewHere : ((cites.lookup piece.2).getD []).length ≤ 4 := by
    cases found : cites.lookup piece.2 with
    | none => exact Nat.zero_le 4
    | some cited =>
      obtain ⟨before, after, split, -⟩ := List.lookup_eq_some_iff.mp found
      exact few (piece.2, cited) (by simp [split])
  constructor
  · simp [Dealer.writePiece, written.texts]
  · simp [Dealer.writePiece, written.reported]
  · refine List.nodup_append.mpr ⟨written.once, nodup_newCites _ _, ?_⟩
    rintro c isOld _ isNew rfl
    exact mem_newCites isNew isOld
  · intro part isPart
    rcases List.mem_append.mp isPart with isOld | isNew
    · exact written.few part isOld
    · rw [List.mem_singleton.mp isNew]
      exact (length_newCites_le _ _).trans fewHere

theorem written_foldl {cites : List (Nat × List (Fin count))}
    (few : ∀ entry ∈ cites, entry.2.length ≤ 4) (pieces : List (Text × Nat)) :
    Written pieces (pieces.foldl (writePiece cites) ⟨[], []⟩) := by
  induction pieces using List.reverseRecOn with
  | nil => exact ⟨rfl, rfl, List.nodup_nil, by simp⟩
  | append_singleton pieces piece ih =>
    rw [List.foldl_append]
    exact ih.writePiece few piece

theorem written_answer {cites : List (Nat × List (Fin count))}
    (few : ∀ entry ∈ cites, entry.2.length ≤ 4) (answer : Text) :
    let cited := (answerPieces answer).zipIdx.foldl (writePiece cites) ⟨[], []⟩
    cited.parts.map Prod.fst = answerPieces answer ∧
      Written (answerPieces answer).zipIdx cited := by
  have written := written_foldl few (answerPieces answer).zipIdx
  exact ⟨by rw [written.texts, List.zipIdx_map_fst], written⟩

theorem keeps_unchanged {answer : Text} (notCompared : ¬ Compared count answer) :
    Keeps answer (unchanged answer : Cited count) where
  shown := fun compared => absurd compared notCompared
  conserved := fun compared => absurd compared notCompared
  same := fun _ => rfl
  once := List.nodup_nil
  reported := rfl
  few := by simp [unchanged]

def PreservesAnswer (comparison : Comparison count) (answer : Text) : Prop :=
  ∃ rounds cited, insert_citations comparison rounds answer = some cited ∧
    (cited.parts.map Prod.fst).flatten = answer

def unlike : Comparison 1 where
  hybrid_similarity := fun _ _ _ => 0
  listOfSet := id
  perm := fun _ => .refl _

def listing : Text := "```code```".toList

end RagFlow.Ask.Dealer
