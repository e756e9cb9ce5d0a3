import Mathlib.Data.List.Nodup
import RagFlow.Lib.GoString

/-!
# Citations in an answer

`internal/service/citation.go`: an answer is cut into sentences and code blocks, the sentences are
compared with the chunks, and markers are written behind the sentences.  An answer is valid UTF-8.
-/

namespace RagFlow.Ask

open RagFlow.Lib

def fence : List Char := "```".toList

def endMarks : List Char := ['；', '。', '？', '!', '！', ',', '؛', '؟', '.', '\n']

def isLetter (char : Char) : Bool :=
  ('a' ≤ char && char ≤ 'z') || (0x600 ≤ char.toNat && char.toNat ≤ 0x6FF)

/-- `sentenceSplitRE`: a mark that does not follow a bar, else a letter with a mark and a space. -/
def sentenceSplitRE : List Char → Option (List Char × Nat)
  | first :: second :: rest =>
    if first ≠ '|' ∧ second ∈ endMarks then some ([first, second], 2)
    else
      match rest with
      | third :: _ =>
        if isLetter first ∧ second ∈ ['.', '?', ';', '!', '،', '؛', '؟'] ∧
            third ∈ [' ', '\n'] then
          some ([first, second, third], 3)
        else none
      | [] => none
  | _ => none

def findAll (text : List Char) : List (Char ⊕ List Char) := Scan.scan sentenceSplitRE 0 text

def sentenceSplit (text : List Char) : List (List Char) :=
  if Scan.found (findAll text) = [] then [text] else Scan.cutBehind id [] (findAll text)

def blockPieces (code : Bool) : List (List Char) → List (List Char)
  | [] => []
  | block :: blocks =>
    (if code then [fence ++ block ++ fence ++ ['\n']] else sentenceSplit block) ++
      blockPieces (!code) blocks

def rejoinAfter (piece : List Char) : List (List Char) → List (List Char)
  | [] => [piece]
  | next :: pieces =>
    if Scan.found (findAll next) = [] then piece :: rejoinAfter next pieces
    else (piece ++ next.take 1) :: rejoinAfter (next.drop 1) pieces

def rejoin : List (List Char) → List (List Char)
  | [] => []
  | piece :: pieces => rejoinAfter piece pieces

def rawPieces (answer : List Char) : List (List Char) :=
  rejoin (blockPieces false (GoString.split fence answer))

def minSentenceLen : Nat := 5

def byteCount (text : List Char) : Nat :=
  text.foldl (fun count char => count + char.utf8Size) 0

def splitAnswer (answer : List Char) : List (List Char × Nat) :=
  (rawPieces answer).zipIdx.filter fun piece =>
    minSentenceLen ≤ byteCount (GoString.trimSpace piece.1)

def dot (first second : List Float) : Float :=
  (List.zipWith (· * ·) first second).foldl (· + ·) 0

def vecNorm (vector : List Float) : Float :=
  Float.sqrt ((vector.map fun value => value * value).foldl (· + ·) 0)

def cosineSimMatrix (sentenceVecs chunkVectors : List (List Float)) : List (List Float) :=
  sentenceVecs.map fun sentence =>
    chunkVectors.map fun chunk =>
      if vecNorm sentence == 0 || vecNorm chunk == 0 then 0
      else dot sentence chunk / (vecNorm sentence * vecNorm chunk)

def maxRow : List Float → Float
  | [] => 0
  | first :: rest => rest.foldl (fun best value => if best < value then value else best) first

def rowMatches (threshold : Float) (row : List Float) : Option (List Nat) :=
  let nearest := maxRow row * 0.99
  if nearest < threshold then none
  else
    match ((row.zipIdx.filter fun value => nearest < value.1).map Prod.snd).take 4 with
    | [] => none
    | near => some near

def descend (rounds : Nat) (threshold : Float) (sim : List (List Float)) :
    List (Option (List Nat)) :=
  match rounds with
  | 0 => sim.map fun _ => none
  | rounds + 1 =>
    if 0.3 < threshold then
      let cites := sim.map (rowMatches threshold)
      if cites.all Option.isNone then descend rounds (threshold * 0.8) sim else cites
    else sim.map fun _ => none

def findCitations (sim : List (List Float)) : List (Option (List Nat)) := descend 4 0.63 sim

structure SourcedChunk where
  ID : String

inductive Piece where
  | original (text : List Char)
  | marker (chunk : Nat)

structure Decorated where
  pieces : List Piece
  cited : List Nat

def uncited (chunkCount : Nat) (seenChunks : List Nat) : List Nat → List Nat
  | [] => []
  | chunk :: chunks =>
    if chunk < chunkCount ∧ chunk ∉ seenChunks then
      chunk :: uncited chunkCount (chunk :: seenChunks) chunks
    else uncited chunkCount seenChunks chunks

def citedChunks (chunkCount : Nat) (seenChunks : List Nat) :
    List (Nat × Option (List Nat)) → List (Nat × List Nat)
  | [] => []
  | (_, none) :: sentences => citedChunks chunkCount seenChunks sentences
  | (place, some chunks) :: sentences =>
    let markers := uncited chunkCount seenChunks chunks
    (place, markers) :: citedChunks chunkCount (markers ++ seenChunks) sentences

def applyCitations (answer : List Char) (sentences : List (List Char × Nat))
    (cites : List (Option (List Nat))) (chunks : List SourcedChunk) : Decorated :=
  let cited := citedChunks chunks.length [] ((sentences.map Prod.snd).zip cites)
  { pieces := (rawPieces answer).zipIdx.flatMap fun piece =>
      .original piece.1 :: ((cited.lookup piece.2).getD []).map Piece.marker
    cited := cited.flatMap Prod.snd }

def InsertCitationsWithVectors (answer : List Char) (chunks : List SourcedChunk)
    (sentenceVecs chunkVectors : List (List Float)) (sentences : List (List Char × Nat)) :
    Decorated :=
  applyCitations answer (sentences.take sentenceVecs.length)
    (findCitations (cosineSimMatrix sentenceVecs chunkVectors)) chunks

def unchanged (answer : List Char) : Decorated where
  pieces := [.original answer]
  cited := []

/-- `Encode` may fail. -/
def InsertCitations (answer : List Char) (chunks : List SourcedChunk)
    (encode : List (List Char) → Option (List (List Float))) (chunkVectors : List (List Float)) :
    Decorated :=
  let sentences := splitAnswer answer
  if sentences = [] ∨ chunks = [] ∨ chunkVectors = [] then unchanged answer
  else
    match encode (sentences.map Prod.fst) with
    | none | some [] => unchanged answer
    | some sentenceVecs =>
      InsertCitationsWithVectors answer chunks sentenceVecs chunkVectors sentences

namespace Piece

def kept : Piece → List Char
  | .original text => text
  | .marker _ => []

def chunk? : Piece → Option Nat
  | .original _ => none
  | .marker chunk => some chunk

def text (chunks : List SourcedChunk) : Piece → List Char
  | .original text => text
  | .marker chunk => " [ID:".toList ++ ((chunks[chunk]?).elim [] fun c => c.ID.toList) ++ [']']

end Piece

def Decorated.text (chunks : List SourcedChunk) (decorated : Decorated) : List Char :=
  decorated.pieces.flatMap (Piece.text chunks)

def OutsideFences (before after : List Char) : Prop :=
  ∃ earlier here there later,
    GoString.split fence (before ++ after) = earlier ++ (here ++ there) :: later ∧
      earlier.length % 2 = 0 ∧ before = fence.intercalate (earlier ++ [here])

/-- Without the markers the answer is there; they stand outside its code blocks, and cite chunks that
exist, each once. -/
structure PreservesAnswer (answer : List Char) (chunks : List SourcedChunk)
    (decorated : Decorated) : Prop where
  conserved : decorated.pieces.flatMap Piece.kept = answer
  outside : ∀ before chunk after, decorated.pieces = before ++ .marker chunk :: after →
    OutsideFences (before.flatMap Piece.kept) (after.flatMap Piece.kept)
  reported : decorated.pieces.filterMap Piece.chunk? = decorated.cited
  exists_chunk : ∀ chunk ∈ decorated.cited, chunk < chunks.length
  once : decorated.cited.Nodup

/-- There are sentences and chunks, and both have vectors. -/
structure Compared (answer : List Char) (chunks : List SourcedChunk)
    (encode : List (List Char) → Option (List (List Float))) (chunkVectors : List (List Float)) :
    Prop where
  sentences : splitAnswer answer ≠ []
  chunks : chunks ≠ []
  chunkVectors : chunkVectors ≠ []
  encoded : ∃ vector vectors,
    encode ((splitAnswer answer).map Prod.fst) = some (vector :: vectors)

theorem fence_ne_nil : fence ≠ [] := by decide

theorem reads_sentenceSplitRE : Scan.Reads sentenceSplitRE id := by
  have shape : ∀ symbols item length, sentenceSplitRE symbols = some (item, length) →
      (length = item.length ∧ ∃ rest, symbols = item ++ rest) ∧ item ≠ [] := by
    intro symbols item length matched
    unfold sentenceSplitRE at matched
    split at matched
    · rename_i first second rest
      split_ifs at matched with short
      · obtain ⟨rfl, rfl⟩ := Prod.mk.inj (Option.some.inj matched)
        exact ⟨⟨rfl, rest, rfl⟩, by simp⟩
      · cases rest with
        | nil => simp at matched
        | cons third rest =>
          simp only at matched
          split_ifs at matched
          obtain ⟨rfl, rfl⟩ := Prod.mk.inj (Option.some.inj matched)
          exact ⟨⟨rfl, rest, rfl⟩, by simp⟩
    · simp at matched
  exact ⟨fun symbols item length matched => (shape symbols item length matched).1,
    fun symbols item length matched => (shape symbols item length matched).2⟩

@[simp] theorem flatten_sentenceSplit (text : List Char) : (sentenceSplit text).flatten = text := by
  unfold sentenceSplit
  split_ifs
  · simp
  · rw [Scan.flatten_cutBehind, List.nil_append]
    exact reads_sentenceSplitRE.replace_scan text

theorem flatten_rejoinAfter (piece : List Char) (pieces : List (List Char)) :
    (rejoinAfter piece pieces).flatten = piece ++ pieces.flatten := by
  induction pieces generalizing piece with
  | nil => simp [rejoinAfter]
  | cons next pieces ih =>
    unfold rejoinAfter
    split_ifs
    · rw [List.flatten_cons, ih, List.flatten_cons]
    · rw [List.flatten_cons, ih, List.flatten_cons, List.append_assoc,
        ← List.append_assoc (next.take 1), List.take_append_drop]

@[simp] theorem flatten_rejoin (pieces : List (List Char)) :
    (rejoin pieces).flatten = pieces.flatten := by
  cases pieces with
  | nil => rfl
  | cons piece pieces => exact flatten_rejoinAfter piece pieces

theorem length_blockPieces (blocks : List (List Char)) (nonempty : blocks ≠ []) :
    (fence.intercalate blocks).length + 4 ≤ (blockPieces true blocks).flatten.length ∧
      (fence.intercalate blocks).length ≤ (blockPieces false blocks).flatten.length ∧
      (1 < blocks.length →
        (fence.intercalate blocks).length < (blockPieces false blocks).flatten.length) := by
  have fenceLength : fence.length = 3 := by decide
  induction blocks with
  | nil => contradiction
  | cons block blocks ih =>
    cases blocks with
    | nil =>
      simp only [blockPieces, List.append_nil, List.intercalate_singleton, reduceIte,
        List.flatten_singleton, List.length_append, fenceLength, flatten_sentenceSplit,
        List.length_singleton, Bool.false_eq_true]
      omega
    | cons next blocks =>
      obtain ⟨code, prose, -⟩ := ih (by simp)
      have codeFirst : blockPieces true (block :: next :: blocks) =
          (fence ++ block ++ fence ++ ['\n']) :: blockPieces false (next :: blocks) := rfl
      have proseFirst : blockPieces false (block :: next :: blocks) =
          sentenceSplit block ++ blockPieces true (next :: blocks) := rfl
      rw [List.intercalate_cons_cons, codeFirst, proseFirst]
      simp only [List.flatten_append, List.flatten_cons, List.length_append,
        flatten_sentenceSplit, fenceLength, List.length_singleton]
      omega

theorem length_rawPieces {answer : List Char} (fenced : fence <:+: answer) :
    answer.length < (rawPieces answer).flatten.length := by
  have several := GoString.one_lt_length_split fenced fence_ne_nil
  have longer := (length_blockPieces (GoString.split fence answer)
    (List.length_pos_iff.mp (Nat.zero_lt_of_lt several))).2.2 several
  rw [GoString.intercalate_split fence_ne_nil] at longer
  rwa [rawPieces, flatten_rejoin]

theorem flatten_rawPieces {answer : List Char} (unfenced : ¬ fence <:+: answer) :
    (rawPieces answer).flatten = answer := by
  rw [rawPieces, flatten_rejoin, GoString.split_of_not_infix unfenced]
  simp [blockPieces]

theorem outsideFences {before after : List Char} (unfenced : ¬ fence <:+: before ++ after) :
    OutsideFences before after :=
  ⟨[], before, after, [], GoString.split_of_not_infix unfenced, rfl, by simp⟩

theorem kept_applyCitations (answer : List Char) (sentences : List (List Char × Nat))
    (cites : List (Option (List Nat))) (chunks : List SourcedChunk) :
    (applyCitations answer sentences cites chunks).pieces.flatMap Piece.kept =
      (rawPieces answer).flatten := by
  have noText : ∀ markers : List Nat, (markers.map Piece.marker).flatMap Piece.kept = [] := by
    intro markers
    rw [List.flatMap_map]
    exact List.flatMap_eq_nil_iff.mpr fun _ _ => rfl
  simp only [applyCitations, List.flatMap_assoc, List.flatMap_cons, Piece.kept, noText,
    List.append_nil]
  rw [List.flatMap_def, List.zipIdx_map_fst]

theorem mem_uncited {count chunk : Nat} {seen chunks : List Nat}
    (new : chunk ∈ uncited count seen chunks) : chunk < count ∧ chunk ∉ seen := by
  induction chunks generalizing seen with
  | nil => simp [uncited] at new
  | cons first chunks ih =>
    unfold uncited at new
    split_ifs at new with isNew
    · rcases List.mem_cons.mp new with rfl | later
      · exact isNew
      · obtain ⟨below, unseen⟩ := ih later
        exact ⟨below, fun isSeen => unseen (List.mem_cons_of_mem first isSeen)⟩
    · exact ih new

theorem nodup_uncited (count : Nat) (seen chunks : List Nat) :
    (uncited count seen chunks).Nodup := by
  induction chunks generalizing seen with
  | nil => exact List.nodup_nil
  | cons first chunks ih =>
    unfold uncited
    split_ifs
    · refine List.nodup_cons.mpr ⟨fun again => ?_, ih _⟩
      exact (mem_uncited again).2 List.mem_cons_self
    · exact ih seen

theorem citedChunks_spec (count : Nat) (seen : List Nat)
    (sentences : List (Nat × Option (List Nat))) :
    (∀ chunk ∈ (citedChunks count seen sentences).flatMap Prod.snd,
        chunk < count ∧ chunk ∉ seen) ∧
      ((citedChunks count seen sentences).flatMap Prod.snd).Nodup ∧
      ((citedChunks count seen sentences).map Prod.fst).Sublist (sentences.map Prod.fst) := by
  induction sentences generalizing seen with
  | nil => exact ⟨by simp [citedChunks], List.nodup_nil, List.Sublist.refl _⟩
  | cons sentence sentences ih =>
    obtain ⟨place, cites⟩ := sentence
    cases cites with
    | none =>
      obtain ⟨unseen, distinct, places⟩ := ih seen
      exact ⟨unseen, distinct, places.trans (List.sublist_cons_self _ _)⟩
    | some chunks =>
      obtain ⟨unseen, distinct, places⟩ :=
        ih (uncited count seen chunks ++ seen)
      simp only [citedChunks, List.flatMap_cons, List.map_cons]
      refine ⟨fun chunk member => ?_, ?_, places.cons_cons place⟩
      · rcases List.mem_append.mp member with here | later
        · exact mem_uncited here
        · obtain ⟨below, notSeen⟩ := unseen chunk later
          exact ⟨below, fun isSeen => notSeen (List.mem_append_right _ isSeen)⟩
      · refine List.nodup_append.mpr ⟨nodup_uncited count seen chunks, distinct, ?_⟩
        rintro chunk here _ later rfl
        exact (unseen chunk later).2 (List.mem_append_left _ here)

theorem flatMap_lookup {places : List Nat} {entries : List (Nat × List Nat)}
    (ordered : (entries.map Prod.fst).Sublist places) (distinct : places.Nodup) :
    places.flatMap (fun place => (entries.lookup place).getD []) = entries.flatMap Prod.snd := by
  induction places generalizing entries with
  | nil =>
    obtain rfl := List.map_eq_nil_iff.mp (List.sublist_nil.mp ordered)
    rfl
  | cons place places ih =>
    obtain ⟨notLater, distinctLater⟩ := List.nodup_cons.mp distinct
    rw [List.flatMap_cons]
    rcases List.sublist_cons_iff.mp ordered with skipped | ⟨keys, isHead, orderedKeys⟩
    · have missing : entries.lookup place = none := by
        apply List.lookup_eq_none_iff.mpr
        intro entry member
        have later := skipped.subset (List.mem_map_of_mem member)
        simpa using fun same : place = entry.1 => notLater (same ▸ later)
      rw [missing, ih skipped distinctLater]
      rfl
    · obtain ⟨entry, others, rfl, rfl, rfl⟩ := List.map_eq_cons_iff.mp isHead
      have same : places.flatMap (fun place => ((entry :: others).lookup place).getD []) =
          places.flatMap (fun place => (others.lookup place).getD []) := by
        apply List.flatMap_congr
        intro other member
        have different : other ≠ entry.1 := fun isEntry => notLater (isEntry ▸ member)
        rw [List.lookup_cons, beq_eq_false_iff_ne.mpr different]
      rw [same, ih orderedKeys distinctLater, List.lookup_cons]
      simp

theorem map_fst_zip_sublist (places : List Nat) (cites : List (Option (List Nat))) :
    ((places.zip cites).map Prod.fst).Sublist places := by
  induction places generalizing cites with
  | nil => exact List.Sublist.refl _
  | cons place places ih =>
    cases cites with
    | nil => exact List.nil_sublist _
    | cons found cites => exact (ih cites).cons_cons place

theorem reported_applyCitations (answer : List Char) (count : Nat)
    (cites : List (Option (List Nat))) (chunks : List SourcedChunk) :
    (applyCitations answer ((splitAnswer answer).take count) cites chunks).pieces.filterMap
        Piece.chunk? =
      (applyCitations answer ((splitAnswer answer).take count) cites chunks).cited := by
  have onlyMarkers : ∀ (text : List Char) (markers : List Nat),
      (Piece.original text :: markers.map Piece.marker).filterMap Piece.chunk? = markers := by
    intro text markers
    rw [List.filterMap_cons_none rfl, List.filterMap_map]
    exact List.filterMap_some
  have places : (((splitAnswer answer).take count).map Prod.snd).Sublist
      (List.range (rawPieces answer).length) := by
    have inOrder : ((splitAnswer answer).take count).Sublist (rawPieces answer).zipIdx :=
      (List.take_sublist count (splitAnswer answer)).trans List.filter_sublist
    have inRange := inOrder.map Prod.snd
    rwa [List.zipIdx_map_snd, ← List.range_eq_range'] at inRange
  have entries := ((citedChunks_spec chunks.length []
    ((((splitAnswer answer).take count).map Prod.snd).zip cites)).2.2.trans
      (map_fst_zip_sublist _ cites)).trans places
  simp only [applyCitations, List.filterMap_flatMap, onlyMarkers]
  rw [← flatMap_lookup entries List.nodup_range, List.range_eq_range', ← List.zipIdx_map_snd 0,
    List.flatMap_map]

variable {answer : List Char} {chunks : List SourcedChunk}
  {encode : List (List Char) → Option (List (List Float))} {chunkVectors : List (List Float)}

theorem insertCitations_of_compared (compared : Compared answer chunks encode chunkVectors) :
    ∃ count cites, InsertCitations answer chunks encode chunkVectors =
      applyCitations answer ((splitAnswer answer).take count) cites chunks := by
  obtain ⟨vector, vectors, encoded⟩ := compared.encoded
  refine ⟨(vector :: vectors).length,
    findCitations (cosineSimMatrix (vector :: vectors) chunkVectors), ?_⟩
  have present : ¬(splitAnswer answer = [] ∨ chunks = [] ∨ chunkVectors = []) := by
    simp [compared.sentences, compared.chunks, compared.chunkVectors]
  simp only [InsertCitations, if_neg present, encoded]
  rfl

theorem insertCitations_of_not_compared
    (notCompared : ¬ Compared answer chunks encode chunkVectors) :
    InsertCitations answer chunks encode chunkVectors = unchanged answer := by
  unfold InsertCitations
  simp only
  split_ifs with missing
  · rfl
  · obtain ⟨sentences, hasChunks, vectors⟩ : splitAnswer answer ≠ [] ∧ chunks ≠ [] ∧
        chunkVectors ≠ [] := by simpa only [not_or] using missing
    split
    · rfl
    · rfl
    · rename_i sentenceVecs nonempty encoded
      obtain ⟨vector, others, rfl⟩ := List.exists_cons_of_ne_nil nonempty
      exact absurd ⟨sentences, hasChunks, vectors, vector, others, encoded⟩ notCompared

theorem preservesAnswer_unchanged : PreservesAnswer answer chunks (unchanged answer) where
  conserved := by simp [unchanged, Piece.kept]
  outside before chunk after split := by
    have member : Piece.marker chunk ∈ (unchanged answer).pieces := by rw [split]; simp
    simp [unchanged] at member
  reported := rfl
  exists_chunk := by simp [unchanged]
  once := List.nodup_nil

theorem preservesAnswer_applyCitations (unfenced : ¬ fence <:+: answer) (count : Nat)
    (cites : List (Option (List Nat))) :
    PreservesAnswer answer chunks
      (applyCitations answer ((splitAnswer answer).take count) cites chunks) := by
  have conserved : (applyCitations answer ((splitAnswer answer).take count) cites
      chunks).pieces.flatMap Piece.kept = answer := by
    rw [kept_applyCitations, flatten_rawPieces unfenced]
  obtain ⟨unseen, distinct, -⟩ := citedChunks_spec chunks.length []
    ((((splitAnswer answer).take count).map Prod.snd).zip cites)
  refine ⟨conserved, fun before chunk after split => ?_, reported_applyCitations _ _ _ _,
    fun chunk member => (unseen chunk member).1, distinct⟩
  apply outsideFences
  rw [split, List.flatMap_append, List.flatMap_cons] at conserved
  rwa [← conserved] at unfenced

/-- An answer that is compared is preserved exactly where it has no fence. -/
theorem preservesAnswer_iff (answer : List Char) (chunks : List SourcedChunk)
    (encode : List (List Char) → Option (List (List Float))) (chunkVectors : List (List Float)) :
    PreservesAnswer answer chunks (InsertCitations answer chunks encode chunkVectors) ↔
      (Compared answer chunks encode chunkVectors → ¬ fence <:+: answer) := by
  by_cases compared : Compared answer chunks encode chunkVectors
  · obtain ⟨count, cites, decorated⟩ := insertCitations_of_compared compared
    rw [decorated]
    constructor
    · intro preserves _ fenced
      have longer := length_rawPieces fenced
      rw [← kept_applyCitations answer _ cites chunks, preserves.conserved] at longer
      exact absurd longer (lt_irrefl _)
    · intro unfenced
      exact preservesAnswer_applyCitations (unfenced compared) count cites
  · rw [insertCitations_of_not_compared compared]
    exact ⟨fun _ isCompared => absurd isCompared compared, fun _ => preservesAnswer_unchanged⟩

def listing : List Char := "See this:\n```x```".toList

def listingVectors : List (List Char) → Option (List (List Float)) := fun _ => some [[1], [0]]

/-- The citation of the line splits the fence, which gets a new line behind its end. -/
theorem not_preservesAnswer_listing :
    (InsertCitations listing [⟨"c"⟩] listingVectors [[1]]).text [⟨"c"⟩] =
        "See this:\n` [ID:c]``x```\n".toList ∧
      ¬ PreservesAnswer listing [⟨"c"⟩]
        (InsertCitations listing [⟨"c"⟩] listingVectors [[1]]) := by
  refine ⟨by decide +kernel, fun preserves => ?_⟩
  have kept : (InsertCitations listing [⟨"c"⟩] listingVectors [[1]]).pieces.flatMap Piece.kept =
      "See this:\n```x```\n".toList := by decide +kernel
  have same := kept.symm.trans preserves.conserved
  exact absurd same (by decide +kernel)

end RagFlow.Ask
