import Mathlib.Algebra.BigOperators.Group.List.Basic
import Mathlib.Algebra.Order.Ring.Rat
import Mathlib.Data.Nat.Cast.Order.Ring
import Mathlib.Tactic.NormNum
import RagFlow.Agent.References
import RagFlow.Lib.Regex

/-!
# The knowledge of a prompt

`kb_prompt` renders retrieved chunks up to a number of tokens.  The loop that counts the tokens
passes over empty chunks; the chunks that are rendered are a prefix as long as it has counted.
-/

namespace RagFlow.Prompts

open RagFlow.Lib RagFlow.Agent

/-- What the code calls outside of the repository. -/
structure Host where
  numTokens : String → Nat
  numTokens_empty : numTokens "" = 0
  /-- Whether a number literal is not zero. -/
  nonzero : String → Bool
  str : Json → String

variable (host : Host)

def Host.truthy : Json → Bool
  | .null => false
  | .bool value => value
  | .number literal => host.nonzero literal
  | .string text => text ≠ ""
  | .array items => !items.isEmpty
  | .object fields => !fields.isEmpty

/-- `num_tokens_from_string`, where only a text can be encoded. -/
def Host.numTokensFromString : Json → Nat
  | .string text => host.numTokens text
  | _ => 0

def content (ck : Fields) : Json := get_value ck "content" "content_with_weight"

/-- The loop over the contents, with `used_token_count` and `chunks_num`. -/
def countChunks (budget : ℚ) : List Json → Nat → Nat → Nat
  | [], _, chunksNum => chunksNum
  | c :: contents, used, chunksNum =>
    if host.truthy c then
      let used := used + host.numTokensFromString c
      if budget < used then chunksNum + 1
      else countChunks budget contents used (chunksNum + 1)
    else countChunks budget contents used chunksNum

def oneLine (line : String) : String :=
  String.ofList (Regex.sub (.plus (.char (· = '\n'))) [' '] line.toList)

def drawNode (k : String) (line : Json) : String :=
  let text := match line with
    | .null => ""
    | .string text => text
    | value => host.str value
  if text = "" then "" else "\n├── " ++ k ++ ": " ++ oneLine text

def metadata (ck : Fields) : Option Fields :=
  let value := (ck.get "document_metadata").getD .null
  if host.truthy value then asDict value else some []

def printedId (hashId : Bool) (index : Nat) (ck : Fields) : Option Nat :=
  if hashId then promptId ck else some index

/-- Nothing where an error is raised, as for a content that is no text. -/
def renderChunk (hashId : Bool) (index : Nat) (ck : Fields) : Option String := do
  let id ← printedId hashId index ck
  let title := drawNode host "Title" (get_value ck "docnm_kwd" "document_name")
  let url := drawNode host "URL" ((ck.get "url").getD (.string ""))
  let items ← metadata host ck
  let nodes := String.join (items.map fun item => drawNode host item.1 item.2)
  match content ck with
  | .string text =>
    return "\nID: " ++ toString id ++ title ++ url ++ nodes ++ "\n└── Content:\n" ++ text
  | _ => none

def renderChunks (hashId : Bool) : Nat → List Fields → Option (List String)
  | _, [] => some []
  | index, ck :: chunks => do
    let text ← renderChunk host hashId index ck
    let texts ← renderChunks hashId (index + 1) chunks
    return text :: texts

def kbPrompt (chunks : List Fields) (maxTokens : ℚ) (hashId : Bool) : Option (List String) :=
  let chunksNum := countChunks host (maxTokens * (97 / 100)) (chunks.map content) 0 0
  renderChunks host hashId 0 (chunks.take chunksNum)

def contentTokens (contents : List Json) : Nat := (contents.map host.numTokensFromString).sum

def ContentsFit (budget : ℚ) (contents : List Json) (kept : Nat) : Prop :=
  (contentTokens host (contents.take kept) : ℚ) ≤ budget

/-- The longest prefix that stays within the budget, and the empty one if none does. -/
structure Longest (budget : ℚ) (contents : List Json) (kept : Nat) : Prop where
  within : kept ≤ contents.length
  fits : kept = 0 ∨ ContentsFit host budget contents kept
  longest : ∀ length ≤ contents.length, ContentsFit host budget contents length → length ≤ kept

def keptLength (budget : ℚ) : List Json → Nat → Nat
  | [], _ => 0
  | c :: contents, used =>
    let used := used + host.numTokensFromString c
    if used ≤ budget then keptLength budget contents used + 1 else 0

variable {host}

@[simp] theorem contentTokens_nil : contentTokens host [] = 0 := rfl

@[simp] theorem contentTokens_cons (c : Json) (contents : List Json) :
    contentTokens host (c :: contents) =
      host.numTokensFromString c + contentTokens host contents := by
  simp [contentTokens]

theorem keptLength_le (budget : ℚ) (contents : List Json) (used : Nat) :
    keptLength host budget contents used ≤ contents.length := by
  induction contents generalizing used with
  | nil => exact Nat.le_refl 0
  | cons c contents ih =>
    unfold keptLength
    simp only
    split_ifs
    · exact Nat.succ_le_succ (ih _)
    · exact Nat.zero_le _

theorem le_keptLength_iff {budget : ℚ} {contents : List Json} {used length : Nat}
    (positive : 0 < length) (within : length ≤ contents.length) :
    length ≤ keptLength host budget contents used ↔
      ((used + contentTokens host (contents.take length) : Nat) : ℚ) ≤ budget := by
  induction contents generalizing used length with
  | nil => exact absurd (positive.trans_le within) (Nat.lt_irrefl 0)
  | cons c contents ih =>
    obtain ⟨rest, rfl⟩ := Nat.exists_eq_add_of_lt positive
    rw [Nat.zero_add] at within ⊢
    rw [List.take_succ_cons, contentTokens_cons, ← Nat.add_assoc]
    unfold keptLength
    simp only
    split_ifs with first
    · rw [Nat.succ_le_succ_iff]
      rcases Nat.eq_zero_or_pos rest with rfl | more
      · simpa using first
      · exact ih more (Nat.le_of_succ_le_succ within)
    · refine iff_of_false (Nat.not_succ_le_zero rest) fun all => first (le_trans ?_ all)
      exact_mod_cast Nat.le_add_right _ _

theorem longest_iff {budget : ℚ} {contents : List Json} {kept : Nat} :
    Longest host budget contents kept ↔ kept = keptLength host budget contents 0 := by
  have fits_iff : ∀ length, 0 < length → length ≤ contents.length →
      (ContentsFit host budget contents length ↔ length ≤ keptLength host budget contents 0) := by
    intro length positive within
    rw [le_keptLength_iff positive within, Nat.zero_add]
    exact Iff.rfl
  have bound : keptLength host budget contents 0 ≤ contents.length := keptLength_le _ _ 0
  constructor
  · rintro ⟨within, fits, longest⟩
    refine Nat.le_antisymm ?_ ?_
    · rcases Nat.eq_zero_or_pos kept with rfl | positive
      · exact Nat.zero_le _
      · exact (fits_iff kept positive within).mp (fits.resolve_left (Nat.ne_of_gt positive))
    · rcases Nat.eq_zero_or_pos (keptLength host budget contents 0) with none | positive
      · exact none.le.trans (Nat.zero_le kept)
      · exact longest _ bound ((fits_iff _ positive bound).mpr (Nat.le_refl _))
  · rintro rfl
    refine ⟨bound, ?_, fun length within fits => ?_⟩
    · rcases Nat.eq_zero_or_pos (keptLength host budget contents 0) with none | positive
      · exact .inl none
      · exact .inr ((fits_iff _ positive bound).mpr (Nat.le_refl _))
    · rcases Nat.eq_zero_or_pos length with rfl | positive
      · exact Nat.zero_le _
      · exact (fits_iff length positive within).mp fits

theorem numTokensFromString_of_not_truthy {c : Json} (isEmpty : host.truthy c = false) :
    host.numTokensFromString c = 0 := by
  cases c with
  | string text =>
    have none : text = "" := by simpa [Host.truthy] using isEmpty
    rw [none, Host.numTokensFromString, host.numTokens_empty]
  | _ => rfl

theorem countChunks_eq {budget : ℚ} {contents : List Json} {used : Nat} (fits : (used : ℚ) ≤ budget)
    (chunksNum : Nat) :
    countChunks host budget contents used chunksNum =
      chunksNum + (contents.take (keptLength host budget contents used)).countP host.truthy +
        if keptLength host budget contents used < contents.length then 1 else 0 := by
  induction contents generalizing used chunksNum with
  | nil => simp [countChunks, keptLength]
  | cons c contents ih =>
    unfold countChunks keptLength
    cases isTruthy : host.truthy c with
    | false =>
      rw [numTokensFromString_of_not_truthy isTruthy]
      simp [fits, ih fits, isTruthy]
    | true =>
      by_cases more : ((used + host.numTokensFromString c : Nat) : ℚ) ≤ budget
      · have counted := ih more (chunksNum + 1)
        simp only [if_true, if_pos more, if_neg (not_lt.mpr more), counted,
          List.take_succ_cons, List.countP_cons, isTruthy, List.length_cons,
          Nat.succ_lt_succ_iff]
        omega
      · simp only [if_true, if_neg more, if_pos (not_le.mp more), List.take_zero,
          List.countP_nil, List.length_cons, Nat.succ_pos]

theorem countChunks_le (budget : ℚ) (contents : List Json) (used chunksNum : Nat) :
    countChunks host budget contents used chunksNum ≤ chunksNum + contents.length := by
  induction contents generalizing used chunksNum with
  | nil => exact Nat.le_refl chunksNum
  | cons c contents ih =>
    have others := ih (used + host.numTokensFromString c) (chunksNum + 1)
    have passed := ih used chunksNum
    unfold countChunks
    simp only [List.length_cons]
    split_ifs <;> omega

theorem countChunks_of_negative {budget : ℚ} (negative : budget < 0) (contents : List Json)
    (used chunksNum : Nat) :
    countChunks host budget contents used chunksNum =
      chunksNum + if contents.any host.truthy then 1 else 0 := by
  induction contents with
  | nil => rfl
  | cons c contents ih =>
    unfold countChunks
    cases isTruthy : host.truthy c with
    | false => simp [isTruthy, ih]
    | true =>
      have exceeds : budget < ((used + host.numTokensFromString c : Nat) : ℚ) :=
        negative.trans_le (Nat.cast_nonneg _)
      rw [if_pos rfl, if_pos exceeds]
      simp [isTruthy]

variable (host)

/-- One empty chunk evens out the one that exceeds, and without that one none is empty. -/
def EmptyEvened (budget : ℚ) (contents : List Json) : Prop :=
  if budget < 0 then contents.any host.truthy = false
  else
    (contents.take (keptLength host budget contents 0)).countP (fun c => !host.truthy c) =
      if keptLength host budget contents 0 < contents.length then 1 else 0

variable {host}

theorem keptLength_of_negative {budget : ℚ} (negative : budget < 0) (contents : List Json)
    (used : Nat) : keptLength host budget contents used = 0 := by
  cases contents with
  | nil => rfl
  | cons c contents =>
    rw [keptLength]
    exact if_neg (not_le.mpr (negative.trans_le (Nat.cast_nonneg _)))

theorem countChunks_eq_keptLength_iff {budget : ℚ} {contents : List Json} :
    countChunks host budget contents 0 0 = keptLength host budget contents 0 ↔
      EmptyEvened host budget contents := by
  unfold EmptyEvened
  by_cases negative : budget < 0
  · rw [if_pos negative, countChunks_of_negative negative, keptLength_of_negative negative]
    simp
  · have fits : ((0 : Nat) : ℚ) ≤ budget := by simpa using negative
    have split := (contents.take (keptLength host budget contents 0)).length_eq_countP_add_countP
      host.truthy
    rw [List.length_take_of_le (keptLength_le budget contents 0)] at split
    simp only [Bool.not_eq_true, Bool.decide_eq_false] at split
    rw [if_neg negative, countChunks_eq fits]
    omega

variable (host)

structure Readable (ck : Fields) : Prop where
  metadata : ∃ items, metadata host ck = some items
  content : ∃ text, content ck = .string text

variable {host}

theorem isSome_renderChunk {hashId : Bool} {index : Nat} {ck : Fields} :
    (renderChunk host hashId index ck).isSome ↔
      (∃ id, printedId hashId index ck = some id) ∧ Readable host ck := by
  unfold renderChunk
  constructor
  · intro rendered
    obtain ⟨text, rendered⟩ := Option.isSome_iff_exists.mp rendered
    simp only [Option.bind_eq_bind, Option.bind_eq_some_iff] at rendered
    obtain ⟨id, printed, items, read, rendered⟩ := rendered
    refine ⟨⟨id, printed⟩, ⟨items, read⟩, ?_⟩
    split at rendered
    · exact ⟨_, ‹_›⟩
    · cases rendered
  · rintro ⟨⟨id, printed⟩, ⟨items, read⟩, text, isText⟩
    simp [printed, read, isText]

theorem isSome_renderChunks {hashId : Bool} {start : Nat} {chunks : List Fields} :
    (renderChunks host hashId start chunks).isSome ↔
      ∀ index ck, chunks[index]? = some ck →
        (renderChunk host hashId (start + index) ck).isSome := by
  induction chunks generalizing start with
  | nil => simp [renderChunks]
  | cons ck chunks ih =>
    have both : (renderChunks host hashId start (ck :: chunks)).isSome ↔
        (renderChunk host hashId start ck).isSome ∧
          (renderChunks host hashId (start + 1) chunks).isSome := by
      rw [renderChunks]
      cases renderChunk host hashId start ck with
      | none => simp
      | some text => cases renderChunks host hashId (start + 1) chunks <;> simp
    rw [both, ih]
    constructor
    · rintro ⟨first, others⟩ index other isThere
      cases index with
      | zero =>
        cases isThere
        exact first
      | succ index =>
        rw [Nat.add_comm index, ← Nat.add_assoc]
        exact others index other isThere
    · intro all
      refine ⟨all 0 ck rfl, fun index other isThere => ?_⟩
      rw [Nat.add_assoc, Nat.add_comm 1]
      exact all (index + 1) other isThere

theorem length_of_renderChunks {hashId : Bool} {start : Nat} {chunks : List Fields}
    {texts : List String} (rendered : renderChunks host hashId start chunks = some texts) :
    texts.length = chunks.length := by
  induction chunks generalizing start texts with
  | nil =>
    cases rendered
    rfl
  | cons ck chunks ih =>
    simp only [renderChunks, Option.bind_eq_bind, Option.bind_eq_some_iff] at rendered
    obtain ⟨text, _, others, renderedOthers, isList⟩ := rendered
    cases isList
    exact congrArg (· + 1) (ih renderedOthers)

structure Retrieval where
  chunks : List Fields
  doc_infos : List Json
  earlier : List AddReference
  later : List AddReference

def Retrieval.calls (retrieval : Retrieval) : List AddReference :=
  retrieval.earlier ++
    ⟨retrieval.chunks.map .object, retrieval.doc_infos⟩ :: retrieval.later

def resolve (hashId : Bool) (retrieval : Retrieval) (id : Nat) : Option Fields :=
  if hashId then (turn retrieval.calls).chunks.get? id
  else retrieval.chunks[id]?.map chunkFormat

def lastAdded (calls : List AddReference) (id : Nat) : Option Fields :=
  (addedChunks calls).findRev? fun chunk => formattedId (chunkFormat chunk) = some id

theorem get?_storeAll_writes (stored : Dict Nat Fields) (chunks : List Fields) (id : Nat) :
    (storeAll stored (writes chunks)).get? id =
      ((chunks.findRev? fun chunk => formattedId (chunkFormat chunk) = some id).map
        chunkFormat).or (stored.get? id) := by
  induction chunks generalizing stored with
  | nil => rfl
  | cons chunk chunks ih =>
    rw [List.findRev?_eq_find?_reverse, List.reverse_cons, List.find?_append, Option.map_or,
      Option.or_assoc, ← List.findRev?_eq_find?_reverse]
    cases hashed : formattedId (chunkFormat chunk) with
    | none => simpa [writes, hashed] using ih stored
    | some cid =>
      have isWritten : writes (chunk :: chunks) =
          (cid, chunkFormat chunk) :: writes chunks := by simp [writes, hashed]
      rw [isWritten, storeAll, List.foldl_cons, ← storeAll, ih,
        Dict.get?_upsert]
      by_cases same : id = cid
      · simp [same, hashed]
      · simp [same, hashed, Ne.symm same]

theorem get?_turn_eq_lastAdded (calls : List AddReference) (id : Nat) :
    (turn calls).chunks.get? id = (lastAdded calls id).map chunkFormat := by
  rw [chunks_turn, get?_storeAll_writes]
  simp [lastAdded]

variable (host)

def Retrieval.contents (retrieval : Retrieval) : List Json := retrieval.chunks.map content

/-- The chunks that are rendered are the longest prefix that stays within the budget, and the id of
each leads to it. -/
structure Rendered (retrieval : Retrieval) (maxTokens : ℚ) (hashId : Bool) (kept : Nat)
    (texts : List String) : Prop where
  longest : Longest host (maxTokens * (97 / 100)) retrieval.contents kept
  rendered : kbPrompt host retrieval.chunks maxTokens hashId = some texts
  ofPrefix : renderChunks host hashId 0 (retrieval.chunks.take kept) = some texts
  resolved : ∀ index ck, (retrieval.chunks.take kept)[index]? = some ck →
    ∃ id, printedId hashId index ck = some id ∧
      resolve hashId retrieval id = some (chunkFormat ck)

def Retrieval.kept (retrieval : Retrieval) (maxTokens : ℚ) : List Fields :=
  retrieval.chunks.take (keptLength host (maxTokens * (97 / 100)) retrieval.contents 0)

def Cited (retrieval : Retrieval) (maxTokens : ℚ) : Prop :=
  ∀ ck ∈ retrieval.kept host maxTokens, ∃ id, promptId ck = some id ∧
    (lastAdded retrieval.calls id).map chunkFormat = some (chunkFormat ck)

structure Regular (retrieval : Retrieval) (maxTokens : ℚ) (hashId : Bool) : Prop where
  evened : EmptyEvened host (maxTokens * (97 / 100)) retrieval.contents
  readable : ∀ ck ∈ retrieval.kept host maxTokens, Readable host ck
  cited : hashId = true → Cited host retrieval maxTokens

variable {host}

theorem Rendered.evened {retrieval : Retrieval} {maxTokens : ℚ} {hashId : Bool} {kept : Nat}
    {texts : List String} (rendered : Rendered host retrieval maxTokens hashId kept texts) :
    EmptyEvened host (maxTokens * (97 / 100)) retrieval.contents := by
  -- both lists of texts are the same, so as many chunks were counted as the prefix has
  have sameLength := (length_of_renderChunks rendered.rendered).symm.trans
    (length_of_renderChunks rendered.ofPrefix)
  have counted : countChunks host (maxTokens * (97 / 100)) retrieval.contents 0 0 ≤
      0 + retrieval.contents.length := countChunks_le _ _ 0 0
  have within := rendered.longest.within
  rw [← countChunks_eq_keptLength_iff, ← longest_iff.mp rendered.longest]
  simp only [List.length_take, Retrieval.contents, List.length_map] at sameLength counted within ⊢
  omega

theorem resolved_iff {retrieval : Retrieval} {maxTokens : ℚ} {hashId : Bool} :
    (∀ index ck, (retrieval.kept host maxTokens)[index]? = some ck →
      ∃ id, printedId hashId index ck = some id ∧
        resolve hashId retrieval id = some (chunkFormat ck)) ↔
      (hashId = true → Cited host retrieval maxTokens) := by
  cases hashId with
  | false =>
    refine iff_of_true (fun index ck isThere => ⟨index, rfl, ?_⟩) fun isHash => nomatch isHash
    rw [Retrieval.kept, List.getElem?_take] at isThere
    split_ifs at isThere
    simp [resolve, isThere]
  | true =>
    simp only [printedId, resolve, if_true, get?_turn_eq_lastAdded, forall_const]
    constructor
    · intro resolved ck isKept
      obtain ⟨index, isThere⟩ := List.mem_iff_getElem?.mp isKept
      exact resolved index ck isThere
    · exact fun cited index ck isThere => cited ck (List.mem_of_getElem? isThere)

theorem exists_rendered_iff (retrieval : Retrieval) (maxTokens : ℚ) (hashId : Bool) :
    (∃ kept texts, Rendered host retrieval maxTokens hashId kept texts) ↔
      Regular host retrieval maxTokens hashId := by
  constructor
  · rintro ⟨kept, texts, rendered⟩
    have isLongest := longest_iff.mp rendered.longest
    refine ⟨rendered.evened, fun ck isKept => ?_, resolved_iff.mp ?_⟩
    · obtain ⟨index, isThere⟩ := List.mem_iff_getElem?.mp isKept
      have all := isSome_renderChunks.mp (Option.isSome_iff_exists.mpr ⟨texts, rendered.ofPrefix⟩)
      rw [isLongest] at all
      exact (isSome_renderChunk.mp (all index ck isThere)).2
    · have resolved := rendered.resolved
      rw [isLongest] at resolved
      exact resolved
  · intro regular
    have resolved := resolved_iff.mpr regular.cited
    have renders : (renderChunks host hashId 0 (retrieval.kept host maxTokens)).isSome := by
      refine isSome_renderChunks.mpr fun index ck isThere => isSome_renderChunk.mpr ⟨?_, ?_⟩
      · obtain ⟨id, printed, _⟩ := resolved index ck isThere
        exact ⟨id, (Nat.zero_add index).symm ▸ printed⟩
      · exact regular.readable ck (List.mem_of_getElem? isThere)
    obtain ⟨texts, isTexts⟩ := Option.isSome_iff_exists.mp renders
    refine ⟨_, texts, longest_iff.mpr rfl, ?_, isTexts, resolved⟩
    unfold kbPrompt
    simp only
    rw [← Retrieval.contents, countChunks_eq_keptLength_iff.mpr regular.evened]
    exact isTexts

def characterHost : Host where
  numTokens := String.length
  numTokens_empty := rfl
  nonzero _ := true
  str _ := ""

def emptyFirst : Retrieval where
  chunks := [[("content", .string "")], [("content", .string "a")]]
  doc_infos := []
  earlier := []
  later := []

/-- Both chunks fit, and the second is left out. -/
theorem not_rendered_emptyFirst :
    ¬ ∃ kept texts, Rendered characterHost emptyFirst 100 false kept texts := by
  rintro ⟨kept, texts, rendered⟩
  have evened := rendered.evened
  have contents : emptyFirst.contents = [.string "", .string "a"] := rfl
  have one : "a".length = 1 := by decide
  rw [EmptyEvened, contents] at evened
  norm_num [keptLength, Host.numTokensFromString, characterHost, Host.truthy, one] at evened

end RagFlow.Prompts
