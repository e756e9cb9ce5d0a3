import Mathlib.Data.Option.Basic
import RagFlow.Lib.Dict
import RagFlow.Lib.Json
import RagFlow.Lib.Sha1

/-!
# References of a turn

The chunks that the tools of a canvas retrieve are stored under a number that is made of their id;
`kb_prompt` shows the model the same kind of number to cite them by.
-/

namespace RagFlow.Agent

open RagFlow.Lib

def hash_str2int (line : String) (mod : Nat) : Nat :=
  Sha1.sha1 (line.toUTF8.data.toList.map UInt8.toNat) % mod

/-- `hash_str2int(value, 500)`; only a text can be encoded. -/
def citationId : Json → Option Nat
  | .string text => some (hash_str2int text 500)
  | _ => none

/-- `d.get(k1, d.get(k2))` -/
def get_value (d : Fields) (k1 k2 : String) : Json :=
  ((d.get k1).orElse fun _ => d.get k2).getD .null

def chunkFormat (chunk : Fields) : Fields :=
  [("id", get_value chunk "chunk_id" "id"),
    ("content", get_value chunk "content" "content_with_weight"),
    ("document_id", get_value chunk "doc_id" "document_id"),
    ("document_name", get_value chunk "docnm_kwd" "document_name"),
    ("dataset_id", get_value chunk "kb_id" "dataset_id"),
    ("image_id", get_value chunk "image_id" "img_id"),
    ("positions", get_value chunk "positions" "position_int"),
    ("url", (chunk.get "url").getD .null),
    ("similarity", (chunk.get "similarity").getD .null),
    ("vector_similarity", (chunk.get "vector_similarity").getD .null),
    ("term_similarity", (chunk.get "term_similarity").getD .null),
    ("row_id", (chunk.get "row_id").getD .null),
    ("doc_type", get_value chunk "doc_type_kwd" "doc_type"),
    ("document_metadata", (chunk.get "document_metadata").getD .null)]

def asDict : Json → Option Fields
  | .object fields => some fields
  | _ => none

def chunks_format (chunks : List Json) : List Fields := (chunks.filterMap asDict).map chunkFormat

/-- The ids in `kb_prompt` with `hash_id`. -/
def promptId (chunk : Fields) : Option Nat := citationId (get_value chunk "id" "chunk_id")

structure Reference where
  chunks : Dict Nat Fields
  doc_aggs : Dict String Fields

inductive ReferenceKey where
  | number (value : Nat)
  | text (value : String)
  deriving DecidableEq

namespace Reference

def empty : Reference where
  chunks := .empty
  doc_aggs := .empty

def keys : List ReferenceKey := [.text "chunks", .text "doc_aggs"]

end Reference

def formattedId (ck : Fields) : Option Nat := citationId ((ck.get "id").getD .null)

def addChunks (r : Reference) : List Fields → Reference × Bool
  | [] => (r, true)
  | ck :: chunks =>
    match formattedId ck with
    | none => (r, false)
    | some cid =>
      if .number cid ∈ Reference.keys then addChunks r chunks
      else addChunks { r with chunks := r.chunks.upsert cid fun _ => ck } chunks

def docName (doc : Json) : Option (String × Fields) :=
  match asDict doc with
  | none => none
  | some fields =>
    match fields.get "doc_name" with
    | some (.string name) => some (name, fields)
    | _ => none

def addDocs (r : Reference) : List Json → Reference
  | [] => r
  | doc :: docs =>
    match docName doc with
    | none => r
    | some (name, fields) =>
      if .text name ∈ Reference.keys then addDocs r docs
      else addDocs { r with doc_aggs := r.doc_aggs.upsert name fun _ => fields } docs

/-- A call of `add_reference`; it ends at the first id or document name that is no text. -/
structure AddReference where
  chunks : List Json
  doc_infos : List Json

def add_reference (r : Reference) (call : AddReference) : Reference :=
  let stored := addChunks r (chunks_format call.chunks)
  if stored.2 then addDocs stored.1 call.doc_infos else stored.1

def turn (calls : List AddReference) : Reference := calls.foldl add_reference .empty

def AddReference.added (call : AddReference) : List Fields :=
  (call.chunks.filterMap asDict).takeWhile fun chunk => (formattedId (chunkFormat chunk)).isSome

def addedChunks (calls : List AddReference) : List Fields := calls.flatMap AddReference.added

/-- Every chunk stays where its citation leads, different chunks have different citations, and what
a citation leads to does not change. -/
structure KeepsCitations (calls : List AddReference) : Prop where
  retrievable : ∀ chunk ∈ addedChunks calls, ∃ cid, promptId chunk = some cid ∧
    (turn calls).chunks.get? cid = some (chunkFormat chunk)
  apart : ∀ chunk ∈ addedChunks calls, ∀ other ∈ addedChunks calls,
    promptId chunk = promptId other → chunkFormat chunk = chunkFormat other
  lasts : ∀ earlier, earlier <+: calls → ∀ cid chunk,
    (turn earlier).chunks.get? cid = some chunk → (turn calls).chunks.get? cid = some chunk

/-- The prompt and the store read the same id, and no two different chunks collide. -/
structure NoCollision (calls : List AddReference) : Prop where
  sameId : ∀ chunk ∈ addedChunks calls, promptId chunk = formattedId (chunkFormat chunk)
  distinct : ∀ chunk ∈ addedChunks calls, ∀ other ∈ addedChunks calls,
    formattedId (chunkFormat chunk) = formattedId (chunkFormat other) →
      chunkFormat chunk = chunkFormat other

theorem number_not_mem_keys (cid : Nat) : ReferenceKey.number cid ∉ Reference.keys := by
  simp [Reference.keys]

theorem chunks_addDocs (r : Reference) (docs : List Json) : (addDocs r docs).chunks = r.chunks := by
  induction docs generalizing r with
  | nil => rfl
  | cons doc docs ih =>
    unfold addDocs
    cases docName doc with
    | none => rfl
    | some named =>
      simp only
      split_ifs
      · exact ih r
      · exact ih _

def writes (chunks : List Fields) : List (Nat × Fields) :=
  chunks.filterMap fun chunk =>
    (formattedId (chunkFormat chunk)).map fun cid => (cid, chunkFormat chunk)

def storeAll (stored : Dict Nat Fields) (written : List (Nat × Fields)) : Dict Nat Fields :=
  written.foldl (fun stored write => stored.upsert write.1 fun _ => write.2) stored

theorem mem_writes {chunks : List Fields} {cid : Nat} {ck : Fields} :
    (cid, ck) ∈ writes chunks ↔
      ∃ chunk ∈ chunks, formattedId (chunkFormat chunk) = some cid ∧ chunkFormat chunk = ck := by
  simp [writes]

theorem chunks_addChunks (r : Reference) (dicts : List Fields) :
    (addChunks r (dicts.map chunkFormat)).1.chunks = storeAll r.chunks
      (writes (dicts.takeWhile fun chunk => (formattedId (chunkFormat chunk)).isSome)) := by
  induction dicts generalizing r with
  | nil => rfl
  | cons chunk dicts ih =>
    rw [List.map_cons, addChunks]
    cases hashed : formattedId (chunkFormat chunk) with
    | none => simp [hashed, writes, storeAll]
    | some cid =>
      simp only [if_neg (number_not_mem_keys cid), ih]
      rw [List.takeWhile_cons_of_pos (by simp [hashed])]
      simp [writes, hashed, storeAll]

theorem chunks_add_reference (r : Reference) (call : AddReference) :
    (add_reference r call).chunks = storeAll r.chunks (writes call.added) := by
  have stored := chunks_addChunks r (call.chunks.filterMap asDict)
  unfold add_reference
  simp only
  split_ifs
  · rw [chunks_addDocs]
    exact stored
  · exact stored

theorem chunks_turn (calls : List AddReference) :
    (turn calls).chunks = storeAll .empty (writes (addedChunks calls)) := by
  have run : ∀ r : Reference, (calls.foldl add_reference r).chunks =
      storeAll r.chunks (writes (addedChunks calls)) := by
    induction calls with
    | nil => exact fun r => rfl
    | cons call calls ih =>
      intro r
      rw [List.foldl_cons, ih, chunks_add_reference]
      simp [storeAll, writes, addedChunks]
  exact run .empty

theorem mem_of_get?_storeAll {written : List (Nat × Fields)} {stored : Dict Nat Fields} {cid : Nat}
    {ck : Fields} (found : (storeAll stored written).get? cid = some ck) :
    (cid, ck) ∈ written ∨ stored.get? cid = some ck := by
  induction written generalizing stored with
  | nil => exact Or.inr found
  | cons write written ih =>
    rcases ih found with later | before
    · exact Or.inl (List.mem_cons_of_mem write later)
    · rw [Dict.get?_upsert] at before
      split_ifs at before with same
      · refine Or.inl (List.mem_cons.mpr (Or.inl ?_))
        rw [same, ← Option.some.inj before]
      · exact Or.inr before

theorem get?_storeAll {written : List (Nat × Fields)} {stored : Dict Nat Fields} {cid : Nat}
    {ck : Fields} (agree : ∀ other, (cid, other) ∈ written → other = ck)
    (isWritten : (cid, ck) ∈ written ∨ stored.get? cid = some ck) :
    (storeAll stored written).get? cid = some ck := by
  induction written generalizing stored with
  | nil => exact isWritten.resolve_left List.not_mem_nil
  | cons write written ih =>
    apply ih (fun other member => agree other (List.mem_cons_of_mem _ member))
    rw [Dict.get?_upsert]
    split_ifs with same
    · exact Or.inr (congrArg some (agree write.2 (by simp [same])))
    · rcases isWritten with isWritten | before
      · rcases List.mem_cons.mp isWritten with rfl | later
        · exact absurd rfl same
        · exact Or.inl later
      · exact Or.inr before

theorem formattedId_of_get?_turn {calls : List AddReference} {cid : Nat} {ck : Fields}
    (found : (turn calls).chunks.get? cid = some ck) :
    formattedId ck = some cid ∧ (cid, ck) ∈ writes (addedChunks calls) := by
  rw [chunks_turn] at found
  rcases mem_of_get?_storeAll found with written | before
  · obtain ⟨_, _, hashed, rfl⟩ := mem_writes.mp written
    exact ⟨hashed, written⟩
  · simp at before

theorem get?_turn {calls : List AddReference} (noCollision : NoCollision calls) {cid : Nat}
    {ck : Fields} (written : (cid, ck) ∈ writes (addedChunks calls)) :
    (turn calls).chunks.get? cid = some ck := by
  rw [chunks_turn]
  refine get?_storeAll (fun other otherWritten => ?_) (Or.inl written)
  obtain ⟨chunk, added, hashed, rfl⟩ := mem_writes.mp written
  obtain ⟨otherChunk, otherAdded, otherHashed, rfl⟩ := mem_writes.mp otherWritten
  exact noCollision.distinct _ otherAdded _ added (otherHashed.trans hashed.symm)

/-- A turn keeps its citations exactly where no two different chunks collide and the prompt reads
the id that is stored. -/
theorem keepsCitations_iff (calls : List AddReference) :
    KeepsCitations calls ↔ NoCollision calls := by
  constructor
  · intro keeps
    have sameId : ∀ chunk ∈ addedChunks calls,
        promptId chunk = formattedId (chunkFormat chunk) := by
      intro chunk added
      obtain ⟨cid, prompted, found⟩ := keeps.retrievable chunk added
      rw [prompted, (formattedId_of_get?_turn found).1]
    refine ⟨sameId, fun chunk added other otherAdded same => ?_⟩
    rw [← sameId chunk added, ← sameId other otherAdded] at same
    exact keeps.apart chunk added other otherAdded same
  · intro noCollision
    refine ⟨fun chunk added => ?_, fun chunk added other otherAdded same => ?_, ?_⟩
    · have hashed : (formattedId (chunkFormat chunk)).isSome := by
        obtain ⟨call, _, inCall⟩ := List.mem_flatMap.mp added
        exact List.all_eq_true.mp List.all_takeWhile chunk inCall
      obtain ⟨cid, isId⟩ := Option.isSome_iff_exists.mp hashed
      refine ⟨cid, (noCollision.sameId chunk added).trans isId, ?_⟩
      exact get?_turn noCollision (mem_writes.mpr ⟨chunk, added, isId, rfl⟩)
    · rw [noCollision.sameId chunk added, noCollision.sameId other otherAdded] at same
      exact noCollision.distinct chunk added other otherAdded same
    · rintro earlier ⟨later, rfl⟩ cid ck found
      obtain ⟨chunk, added, hashed, rfl⟩ := mem_writes.mp (formattedId_of_get?_turn found).2
      refine get?_turn noCollision (mem_writes.mpr ⟨chunk, ?_, hashed, rfl⟩)
      rw [addedChunks, List.flatMap_append]
      exact List.mem_append_left _ added

def collidingCalls : List AddReference :=
  ["chunk-13", "chunk-43"].map fun id =>
    { chunks := [.object [("chunk_id", .string id), ("content", .string id)]], doc_infos := [] }

/-- The second chunk takes the place of the first. -/
theorem not_keepsCitations_collidingCalls : ¬ KeepsCitations collidingCalls := by
  intro keeps
  have isFirst : citationId (.string "chunk-13") = some 411 := by decide +kernel
  have isSecond : citationId (.string "chunk-43") = some 411 := by decide +kernel
  have same := keeps.apart [("chunk_id", .string "chunk-13"), ("content", .string "chunk-13")]
    ?_ [("chunk_id", .string "chunk-43"), ("content", .string "chunk-43")] ?_ ?_
  · simp [chunkFormat, get_value, Fields.get] at same
  all_goals
    simp [collidingCalls, addedChunks, AddReference.added, asDict, formattedId, chunkFormat,
      get_value, Fields.get, promptId, isFirst, isSecond]

end RagFlow.Agent
