import Mathlib.Data.List.Basic
import Mathlib.Data.List.Infix
import RagFlow.Chunking.Delimiters
import RagFlow.Lib.Fallible

/-!
# Images of chunks

`concat_img` of `rag/nlp/__init__.py` and `LazyImage` of `rag/utils/lazy_image.py`: an image is an
opened picture, or blobs that are opened when the picture is needed.  Opening a blob, the bytes of
a picture and pasting two pictures below each other are Pillow's.
-/

namespace RagFlow.Chunking

structure Pillow (Blob Picture : Type) where
  openRGB : Blob → Option Picture
  tobytes : Picture → List UInt8
  /-- A new picture with the second one below the first. -/
  paste : Picture → Picture → Picture

inductive Image (Blob Picture : Type)
  | lazy (blobs : List Blob)
  | picture (picture : Picture)

section

variable {Blob Picture : Type} (pillow : Pillow Blob Picture)

def concatPictures (first second : Picture) : Picture :=
  if pillow.tobytes first = pillow.tobytes second then first else pillow.paste first second

def to_pil (blobs : List Blob) : Option Picture :=
  match blobs.filterMap pillow.openRGB with
  | [] => none
  | first :: pictures => some (pictures.foldl (concatPictures pillow) first)

def isTrue : Option (Image Blob Picture) → Bool
  | none => false
  | some (.lazy blobs) => !blobs.isEmpty
  | some (.picture _) => true

def isPicture : Option (Image Blob Picture) → Bool
  | some (.picture _) => true
  | _ => false

/-- `ensure_pil_image(img) or img` -/
def ensured : Option (Image Blob Picture) → Option (Image Blob Picture)
  | some (.lazy blobs) =>
    match to_pil pillow blobs with
    | some picture => some (.picture picture)
    | none => some (.lazy blobs)
  | image => image

def blobsOf : Option (Image Blob Picture) → List Blob
  | some (.lazy blobs) => blobs
  | _ => []

def mergeLazy (a b : Option (Image Blob Picture)) : Option (Image Blob Picture) :=
  if blobsOf a ++ blobsOf b = [] then none else some (.lazy (blobsOf a ++ blobsOf b))

def joinImages (join : Option (Option (Image Blob Picture)))
    (img1 img2 : Option (Image Blob Picture)) : Option (Option (Image Blob Picture)) :=
  if isTrue img1 && !isTrue img2 then some img1
  else if !isTrue img1 && isTrue img2 then some img2
  else if !isTrue img1 && !isTrue img2 then some none
  else join

/-- No result is an `AttributeError`: a lazy image without a picture has no size. -/
def concat_img (img1 img2 : Option (Image Blob Picture)) : Option (Option (Image Blob Picture)) :=
  if !isPicture img1 && !isPicture img2 then
    joinImages (some (mergeLazy img1 img2)) img1 img2
  else
    let img1 := ensured pillow img1
    let img2 := ensured pillow img2
    joinImages
      (match img1, img2 with
      | some (.picture first), some (.picture second) =>
        some (some (.picture (concatPictures pillow first second)))
      | _, _ => none) img1 img2

inductive Shows : Picture → Picture → Prop
  | refl (picture : Picture) : Shows picture picture
  | same {picture whole other : Picture} (shown : Shows picture whole)
      (same : pillow.tobytes whole = pillow.tobytes other) : Shows picture other
  | onTop {picture upper : Picture} (lower : Picture) (shown : Shows picture upper) :
      Shows picture (pillow.paste upper lower)
  | under {picture lower : Picture} (upper : Picture) (shown : Shows picture lower) :
      Shows picture (pillow.paste upper lower)

def pictures : Option (Image Blob Picture) → List Picture
  | none => []
  | some (.lazy blobs) => blobs.filterMap pillow.openRGB
  | some (.picture picture) => [picture]

def Attached (image whole : Option (Image Blob Picture)) : Prop :=
  ∀ picture ∈ pictures pillow image, ∃ other ∈ pictures pillow whole, Shows pillow picture other

variable {pillow} {image whole img1 img2 : Option (Image Blob Picture)}

theorem attached_refl (image : Option (Image Blob Picture)) : Attached pillow image image :=
  fun picture isMem => ⟨picture, isMem, .refl picture⟩

theorem Shows.trans {first second third : Picture} (left : Shows pillow first second)
    (right : Shows pillow second third) : Shows pillow first third := by
  induction right with
  | refl => exact left
  | same _ same ih => exact .same ih same
  | onTop lower _ ih => exact .onTop lower ih
  | under upper _ ih => exact .under upper ih

theorem Attached.trans {larger : Option (Image Blob Picture)} (left : Attached pillow image whole)
    (right : Attached pillow whole larger) : Attached pillow image larger := by
  intro picture isMem
  obtain ⟨other, isOther, shown⟩ := left picture isMem
  obtain ⟨last, isLast, shownLast⟩ := right other isOther
  exact ⟨last, isLast, shown.trans shownLast⟩

theorem shows_concatPictures_left (first second : Picture) :
    Shows pillow first (concatPictures pillow first second) := by
  unfold concatPictures
  split_ifs
  · exact .refl first
  · exact .onTop second (.refl first)

theorem shows_concatPictures_right (first second : Picture) :
    Shows pillow second (concatPictures pillow first second) := by
  unfold concatPictures
  split_ifs with same
  · exact .same (.refl second) same.symm
  · exact .under first (.refl second)

theorem shows_foldl (pictures : List Picture) (first : Picture) :
    ∀ picture ∈ first :: pictures,
      Shows pillow picture (pictures.foldl (concatPictures pillow) first) := by
  induction pictures generalizing first with
  | nil => simpa using Shows.refl first
  | cons second pictures ih =>
    rw [List.foldl_cons]
    intro picture isMem
    have shown := ih (concatPictures pillow first second)
    rcases List.mem_cons.mp isMem with rfl | isMem
    · exact (shows_concatPictures_left picture second).trans (shown _ List.mem_cons_self)
    · rcases List.mem_cons.mp isMem with rfl | isMem
      · exact (shows_concatPictures_right first picture).trans (shown _ List.mem_cons_self)
      · exact shown picture (List.mem_cons_of_mem _ isMem)

theorem attached_ensured (image : Option (Image Blob Picture)) :
    Attached pillow image (ensured pillow image) := by
  match image with
  | none => exact attached_refl none
  | some (.picture picture) => exact attached_refl _
  | some (.lazy blobs) =>
    cases opened : to_pil pillow blobs with
    | none =>
      simp only [ensured, opened]
      exact attached_refl _
    | some whole =>
      simp only [ensured, opened]
      intro picture isMem
      refine ⟨whole, List.mem_singleton_self _, ?_⟩
      simp only [pictures] at isMem
      cases all : blobs.filterMap pillow.openRGB with
      | nil =>
        rw [all] at isMem
        cases isMem
      | cons first others =>
        rw [to_pil, all, Option.some.injEq] at opened
        rw [all] at isMem
        exact opened ▸ shows_foldl others first picture isMem

theorem attached_of_isTrue_eq_false (notTrue : isTrue image = false)
    (whole : Option (Image Blob Picture)) : Attached pillow image whole := by
  intro picture isMem
  match image, notTrue with
  | none, _ => cases isMem
  | some (.lazy blobs), notTrue =>
    have noBlobs : blobs = [] := by simpa [isTrue] using notTrue
    rw [noBlobs] at isMem
    cases isMem

theorem attached_joinImages {join : Option (Option (Image Blob Picture))}
    (joined : isTrue img1 = true → isTrue img2 = true → ∀ both ∈ join,
      Attached pillow img1 both ∧ Attached pillow img2 both)
    (isWhole : joinImages join img1 img2 = some whole) :
    Attached pillow img1 whole ∧ Attached pillow img2 whole := by
  unfold joinImages at isWhole
  cases isTrue1 : isTrue img1 with
  | true =>
    cases isTrue2 : isTrue img2 with
    | true =>
      simp only [isTrue1, isTrue2, Bool.not_true, Bool.and_false, Bool.false_and,
        Bool.false_eq_true, if_false] at isWhole
      exact joined isTrue1 isTrue2 whole isWhole
    | false =>
      simp only [isTrue1, isTrue2, Bool.not_false, Bool.and_self, if_true,
        Option.some.injEq] at isWhole
      exact ⟨isWhole ▸ attached_refl _, attached_of_isTrue_eq_false isTrue2 whole⟩
  | false =>
    cases isTrue2 : isTrue img2 with
    | true =>
      simp only [isTrue1, isTrue2, Bool.not_true, Bool.and_self, Bool.false_eq_true, if_false,
        Bool.not_false, if_true, Option.some.injEq] at isWhole
      exact ⟨attached_of_isTrue_eq_false isTrue1 whole, isWhole ▸ attached_refl _⟩
    | false =>
      exact ⟨attached_of_isTrue_eq_false isTrue1 whole,
        attached_of_isTrue_eq_false isTrue2 whole⟩

theorem attached_mergeLazy (notPicture1 : isPicture img1 = false)
    (notPicture2 : isPicture img2 = false) :
    Attached pillow img1 (mergeLazy img1 img2) ∧ Attached pillow img2 (mergeLazy img1 img2) := by
  have pictures_eq {image : Option (Image Blob Picture)} (notPicture : isPicture image = false) :
      pictures pillow image = (blobsOf image).filterMap pillow.openRGB := by
    match image, notPicture with
    | none, _ => rfl
    | some (.lazy blobs), _ => rfl
  have merged : pictures pillow (mergeLazy img1 img2) =
      (blobsOf img1 ++ blobsOf img2).filterMap pillow.openRGB := by
    unfold mergeLazy
    split_ifs with isEmpty
    · rw [isEmpty]
      rfl
    · rfl
  constructor
  · intro picture isMem
    rw [pictures_eq notPicture1] at isMem
    refine ⟨picture, ?_, .refl picture⟩
    rw [merged, List.filterMap_append]
    exact List.mem_append_left _ isMem
  · intro picture isMem
    rw [pictures_eq notPicture2] at isMem
    refine ⟨picture, ?_, .refl picture⟩
    rw [merged, List.filterMap_append]
    exact List.mem_append_right _ isMem

theorem attached_concat_img (isWhole : concat_img pillow img1 img2 = some whole) :
    Attached pillow img1 whole ∧ Attached pillow img2 whole := by
  unfold concat_img at isWhole
  split_ifs at isWhole with lazy
  · rw [Bool.and_eq_true, Bool.not_eq_true', Bool.not_eq_true'] at lazy
    refine attached_joinImages (fun _ _ both isBoth => ?_) isWhole
    exact Option.some.inj isBoth ▸ attached_mergeLazy lazy.1 lazy.2
  · have joined : Attached pillow (ensured pillow img1) whole ∧
        Attached pillow (ensured pillow img2) whole := by
      refine attached_joinImages (fun _ _ both isBoth => ?_) isWhole
      split at isBoth
      · next first second same1 same2 =>
          rw [same1, same2]
          cases isBoth
          refine ⟨fun picture isMem => ?_, fun picture isMem => ?_⟩
          · rw [List.mem_singleton.mp isMem]
            exact ⟨_, List.mem_singleton_self _, shows_concatPictures_left first second⟩
          · rw [List.mem_singleton.mp isMem]
            exact ⟨_, List.mem_singleton_self _, shows_concatPictures_right first second⟩
      · cases isBoth
    exact ⟨(attached_ensured img1).trans joined.1, (attached_ensured img2).trans joined.2⟩

def IsReadable (pillow : Pillow Blob Picture) (image : Option (Image Blob Picture)) : Prop :=
  isTrue image = true → pictures pillow image ≠ []

theorem joinImages_isSome (kind : Option (Image Blob Picture) → Prop) (isNone : kind none)
    {join : Option (Option (Image Blob Picture))} (kind1 : kind img1) (kind2 : kind img2)
    (joined : isTrue img1 = true → isTrue img2 = true → ∃ both, join = some both ∧ kind both) :
    ∃ both, joinImages join img1 img2 = some both ∧ kind both := by
  unfold joinImages
  split_ifs with first second neither
  · exact ⟨img1, rfl, kind1⟩
  · exact ⟨img2, rfl, kind2⟩
  · exact ⟨none, rfl, isNone⟩
  · cases isTrue1 : isTrue img1 <;> cases isTrue2 : isTrue img2 <;>
      simp only [isTrue1, isTrue2, Bool.not_true, Bool.not_false, Bool.and_self, Bool.and_false,
        Bool.and_true, not_true_eq_false] at first second neither
    exact joined isTrue1 isTrue2

theorem ensured_of_isReadable (readable : IsReadable pillow image)
    (present : isTrue image = true) :
    ∃ picture, ensured pillow image = some (.picture picture) := by
  match image, readable, present with
  | some (.picture picture), _, _ => exact ⟨picture, rfl⟩
  | some (.lazy blobs), readable, present =>
    have nonempty : blobs.filterMap pillow.openRGB ≠ [] := readable present
    obtain ⟨first, others, all⟩ := List.exists_cons_of_ne_nil nonempty
    exact ⟨_, by simp only [ensured, to_pil, all]; rfl⟩

theorem isTrue_ensured (image : Option (Image Blob Picture)) :
    isTrue (ensured pillow image) = isTrue image := by
  match image with
  | none => rfl
  | some (.picture picture) => rfl
  | some (.lazy blobs) =>
    cases opened : to_pil pillow blobs with
    | none => simp only [ensured, opened]
    | some picture =>
      have nonempty : blobs ≠ [] := by
        rintro rfl
        cases opened
      simpa [ensured, opened, isTrue] using nonempty

theorem isReadable_ensured (readable : IsReadable pillow image) :
    IsReadable pillow (ensured pillow image) := by
  intro present
  rw [isTrue_ensured] at present
  obtain ⟨picture, isPicture⟩ := ensured_of_isReadable readable present
  rw [isPicture]
  exact List.cons_ne_nil _ _

theorem isReadable_none : IsReadable pillow none := fun present => by cases present

theorem isReadable_concat_img (readable1 : IsReadable pillow img1)
    (readable2 : IsReadable pillow img2) :
    ∃ both, concat_img pillow img1 img2 = some both ∧ IsReadable pillow both := by
  unfold concat_img
  split_ifs with lazy
  · rw [Bool.and_eq_true, Bool.not_eq_true', Bool.not_eq_true'] at lazy
    refine joinImages_isSome (IsReadable pillow) isReadable_none readable1 readable2
      fun present _ => ⟨_, rfl, fun _ isEmpty => ?_⟩
    obtain ⟨picture, isMem⟩ := List.exists_mem_of_ne_nil _ (readable1 present)
    obtain ⟨other, isOther, -⟩ := (attached_mergeLazy lazy.1 lazy.2).1 picture isMem
    rw [isEmpty] at isOther
    cases isOther
  · refine joinImages_isSome (IsReadable pillow) isReadable_none (isReadable_ensured readable1)
      (isReadable_ensured readable2) fun present1 present2 => ?_
    rw [isTrue_ensured] at present1 present2
    obtain ⟨first, isFirst⟩ := ensured_of_isReadable readable1 present1
    obtain ⟨second, isSecond⟩ := ensured_of_isReadable readable2 present2
    rw [isFirst, isSecond]
    exact ⟨_, rfl, fun _ => List.cons_ne_nil _ _⟩

theorem concat_img_of_lazy (lazy1 : isPicture img1 = false) (lazy2 : isPicture img2 = false) :
    ∃ both, concat_img pillow img1 img2 = some both ∧ isPicture both = false := by
  unfold concat_img
  rw [if_pos (by rw [lazy1, lazy2]; rfl)]
  refine joinImages_isSome (isPicture · = false) rfl lazy1 lazy2 fun _ _ => ⟨_, rfl, ?_⟩
  unfold mergeLazy
  split_ifs <;> rfl

def Openable (pillow : Pillow Blob Picture) (images : List (Option (Image Blob Picture))) : Prop :=
  (∀ image ∈ images, IsReadable pillow image) ∨ ∀ image ∈ images, isPicture image = false

theorem Openable.exists_kind {images : List (Option (Image Blob Picture))}
    (openable : Openable pillow images) :
    ∃ kind : Option (Image Blob Picture) → Prop, kind none ∧ (∀ image ∈ images, kind image) ∧
      ∀ img1 img2, kind img1 → kind img2 →
        ∃ both, concat_img pillow img1 img2 = some both ∧ kind both := by
  rcases openable with readable | lazy
  · exact ⟨IsReadable pillow, isReadable_none, readable, fun _ _ => isReadable_concat_img⟩
  · exact ⟨(isPicture · = false), rfl, lazy, fun _ _ => concat_img_of_lazy⟩

end

end RagFlow.Chunking

/-!
# Sections merged by size

`rag/nlp/__init__.py`: `naive_merge` and `naive_merge_with_images`.  Sections are put together until
a chunk has enough tokens, or split at custom delimiters; the second function takes an image for
each section.
-/

namespace RagFlow.Chunking

open Lib

structure Positioned where
  text : Text
  pos : Text
  deriving DecidableEq

structure MergeSettings where
  num_tokens : Text → Nat
  chunk_token_num : Int
  delimiter : Text
  overlapped_percent : Int

variable (settings : MergeSettings)

def isFull (tk_num : Nat) : Prop :=
  settings.chunk_token_num * (100 - settings.overlapped_percent) < tk_num * 100

instance (tk_num : Nat) : Decidable (isFull settings tk_num) := Int.decLt _ _

def sliceFrom (text : Text) (index : Int) : Text :=
  if index < 0 then text.drop (text.length + index).toNat else text.drop index.toNat

def remove_tag (text : Text) : Text :=
  let position : Regex := .char fun symbol => "\t.-".toList.contains symbol || symbol.isDigit
  (Regex.inOrder [.literal "@@", .plus position, .literal "##"]).sub [] text

def overlap (chunk : Text) : Text :=
  let overlapped := remove_tag chunk
  sliceFrom overlapped ((overlapped.length * (100 - settings.overlapped_percent)).tdiv 100)

def shownPosition (text pos : Text) : Text := if settings.num_tokens text < 8 then [] else pos

def appendPosition (chunk text pos : Text) : Text := if pos <:+: chunk then text else text ++ pos

/-- `cks` and `tk_nums`, with their last items apart. -/
structure Chunks where
  finished : List Text
  last : Text
  tk_num : Nat

def Chunks.cks (chunks : Chunks) : List Text := chunks.finished ++ [chunks.last]

def add_chunk (chunks : Chunks) (t pos : Text) : Chunks :=
  let tnum := settings.num_tokens t
  let pos := shownPosition settings t pos
  if chunks.last = [] ∨ isFull settings chunks.tk_num then
    let t := overlap settings chunks.last ++ t
    ⟨chunks.cks, appendPosition t t pos, tnum⟩
  else
    { chunks with
      last := chunks.last ++ appendPosition chunks.last t pos
      tk_num := chunks.tk_num + tnum }

def splitChunks (sec : Positioned) : List Text :=
  (splitSection (customDelimiters settings.delimiter) sec.text).map fun sub_sec =>
    let text := '\n' :: sub_sec
    let local_pos := shownPosition settings text sec.pos
    if local_pos ≠ [] ∧ ¬ local_pos <:+: text then text ++ local_pos else text

def naive_merge (sections : List Positioned) : List Text :=
  if sections = [] then []
  else if customDelimiters settings.delimiter ≠ [] then sections.flatMap (splitChunks settings)
  else
    (sections.foldl (fun chunks sec => add_chunk settings chunks ('\n' :: sec.text) sec.pos)
      ⟨[], [], 0⟩).cks

section Images

variable {Blob Picture : Type} (pillow : Pillow Blob Picture)

/-- `cks`, `tk_nums` and `result_images`, with their last items apart. -/
structure ImageChunks (Blob Picture : Type) where
  finished : List Text
  last : Text
  tk_num : Nat
  finishedImages : List (Option (Image Blob Picture))
  lastImage : Option (Image Blob Picture)

def ImageChunks.cks (chunks : ImageChunks Blob Picture) : List Text :=
  chunks.finished ++ [chunks.last]

def ImageChunks.result_images (chunks : ImageChunks Blob Picture) :
    List (Option (Image Blob Picture)) :=
  chunks.finishedImages ++ [chunks.lastImage]

def addImageChunk (chunks : ImageChunks Blob Picture) (t : Text)
    (image : Option (Image Blob Picture)) (pos : Text) : Option (ImageChunks Blob Picture) :=
  let tnum := settings.num_tokens t
  let pos := shownPosition settings t pos
  if chunks.last = [] ∨ isFull settings chunks.tk_num then
    let t := overlap settings chunks.last ++ t
    some ⟨chunks.cks, appendPosition t t pos, tnum, chunks.result_images, image⟩
  else
    (if chunks.lastImage.isNone then some image
      else concat_img pillow chunks.lastImage image).map fun lastImage => {
        chunks with
        last := chunks.last ++ appendPosition chunks.last t pos
        lastImage
        tk_num := chunks.tk_num + tnum }

def splitImageChunks (sec : Positioned) (image : Option (Image Blob Picture)) :
    List (Text × Option (Image Blob Picture)) :=
  (splitSection (customDelimiters settings.delimiter) sec.text).map fun sub_sec =>
    let text_seg := '\n' :: sub_sec
    let local_pos := shownPosition settings text_seg sec.pos
    (if local_pos ≠ [] ∧ ¬ local_pos <:+: text_seg then text_seg ++ local_pos else text_seg, image)

/-- No result is an exception. -/
def naive_merge_with_images (texts : List Positioned)
    (images : List (Option (Image Blob Picture))) :
    Option (List Text × List (Option (Image Blob Picture))) :=
  if texts = [] ∨ texts.length ≠ images.length then some ([], [])
  else if customDelimiters settings.delimiter ≠ [] then
    some ((texts.zip images).flatMap fun (text, image) =>
      splitImageChunks settings text image).unzip
  else
    ((texts.zip images).foldlM (fun chunks (sec : Positioned × Option (Image Blob Picture)) =>
      addImageChunk settings pillow chunks ('\n' :: sec.1.text) sec.2 sec.1.pos)
        ⟨[], [], 0, [], none⟩).map fun chunks => (chunks.cks, chunks.result_images)

def textParts (sec : Positioned) : List Text :=
  if customDelimiters settings.delimiter = [] then [sec.text]
  else splitSection (customDelimiters settings.delimiter) sec.text

def HeldWith (cks : List Text) (result_images : List (Option (Image Blob Picture))) (text : Text)
    (image : Option (Image Blob Picture)) : Prop :=
  ∃ chunk attached, (chunk, attached) ∈ cks.zip result_images ∧ text <:+: chunk ∧
    Attached pillow image attached

variable {settings pillow} {sections : List Positioned}
  {images : List (Option (Image Blob Picture))}

theorem map_fst_splitImageChunks (sec : Positioned) (image : Option (Image Blob Picture)) :
    (splitImageChunks settings sec image).map Prod.fst = splitChunks settings sec := by
  rw [splitImageChunks, List.map_map]
  rfl

theorem textParts_ne_nil (sec : Positioned) : textParts settings sec ≠ [] := by
  unfold textParts
  split_ifs
  · exact List.cons_ne_nil _ _
  · exact splitSection_ne_nil (fun _ => ne_nil_of_mem_customDelimiters) sec.text

theorem split_agrees (sameLength : sections.length = images.length) :
    ((sections.zip images).flatMap fun sec => splitImageChunks settings sec.1 sec.2).map Prod.fst =
      sections.flatMap (splitChunks settings) := by
  rw [List.map_flatMap]
  simp only [map_fst_splitImageChunks]
  conv_rhs => rw [← List.map_fst_zip (Nat.le_of_eq sameLength), List.flatMap_map]

theorem infix_splitChunk (settings : MergeSettings) (sec : Positioned) (part : Text) :
    '\n' :: part <:+:
      if shownPosition settings ('\n' :: part) sec.pos ≠ [] ∧
          ¬ shownPosition settings ('\n' :: part) sec.pos <:+: '\n' :: part then
        '\n' :: part ++ shownPosition settings ('\n' :: part) sec.pos
      else '\n' :: part := by
  split_ifs
  · exact (List.prefix_append _ _).isInfix
  · exact List.infix_refl _

def ImageChunks.texts (chunks : ImageChunks Blob Picture) : Chunks where
  finished := chunks.finished
  last := chunks.last
  tk_num := chunks.tk_num

theorem prefix_appendPosition (chunk text pos : Text) : text <+: appendPosition chunk text pos := by
  unfold appendPosition
  split_ifs
  · exact List.prefix_refl text
  · exact List.prefix_append text pos

/-- The chunks so far are those of the loop over the texts alone, and the sections are placed. -/
structure InStep (settings : MergeSettings) (pillow : Pillow Blob Picture)
    (kind : Option (Image Blob Picture) → Prop)
    (done : List (Positioned × Option (Image Blob Picture)))
    (chunks : ImageChunks Blob Picture) : Prop where
  texts : chunks.texts = (done.map Prod.fst).foldl
    (fun chunks sec => add_chunk settings chunks ('\n' :: sec.text) sec.pos) ⟨[], [], 0⟩
  aligned : chunks.finished.length = chunks.finishedImages.length
  isKind : kind chunks.lastImage
  placed : ∀ sec ∈ done, HeldWith pillow chunks.cks chunks.result_images ('\n' :: sec.1.text) sec.2

theorem zip_cks (chunks : ImageChunks Blob Picture)
    (aligned : chunks.finished.length = chunks.finishedImages.length) :
    chunks.cks.zip chunks.result_images =
      chunks.finished.zip chunks.finishedImages ++ [(chunks.last, chunks.lastImage)] := by
  rw [ImageChunks.cks, ImageChunks.result_images, List.zip_append aligned]
  rfl

theorem InStep.step {kind : Option (Image Blob Picture) → Prop}
    {done : List (Positioned × Option (Image Blob Picture))} {chunks : ImageChunks Blob Picture}
    (inStep : InStep settings pillow kind done chunks)
    (concat : ∀ img1 img2, kind img1 → kind img2 →
      ∃ both, concat_img pillow img1 img2 = some both ∧ kind both)
    (sec : Positioned) {image : Option (Image Blob Picture)} (isKind : kind image) :
    ∃ next, addImageChunk settings pillow chunks ('\n' :: sec.text) image sec.pos = some next ∧
      InStep settings pillow kind (done ++ [(sec, image)]) next := by
  have texts (next : ImageChunks Blob Picture)
      (same : next.texts = add_chunk settings chunks.texts ('\n' :: sec.text) sec.pos) :
      next.texts = ((done ++ [(sec, image)]).map Prod.fst).foldl
        (fun chunks sec => add_chunk settings chunks ('\n' :: sec.text) sec.pos) ⟨[], [], 0⟩ := by
    rw [same, inStep.texts, List.map_append, List.foldl_append]
    rfl
  have held_mono {text : Text} {other : Option (Image Blob Picture)}
      {larger : ImageChunks Blob Picture}
      (held : HeldWith pillow chunks.cks chunks.result_images text other)
      (kept : ∀ chunk attached, (chunk, attached) ∈ chunks.cks.zip chunks.result_images →
        ∃ more whole, (more, whole) ∈ larger.cks.zip larger.result_images ∧ chunk <:+: more ∧
          Attached pillow attached whole) :
      HeldWith pillow larger.cks larger.result_images text other := by
    obtain ⟨chunk, attached, isMem, isInfix, isAttached⟩ := held
    obtain ⟨more, whole, isMore, chunkInfix, isWhole⟩ := kept chunk attached isMem
    exact ⟨more, whole, isMore, isInfix.trans chunkInfix, isAttached.trans isWhole⟩
  unfold addImageChunk
  by_cases begins : chunks.last = [] ∨ isFull settings chunks.tk_num
  · rw [if_pos begins]
    have alignedNext : chunks.cks.length = chunks.result_images.length := by
      simp [ImageChunks.cks, ImageChunks.result_images, inStep.aligned]
    let next : ImageChunks Blob Picture := {
      finished := chunks.cks
      last := appendPosition (overlap settings chunks.last ++ '\n' :: sec.text)
        (overlap settings chunks.last ++ '\n' :: sec.text)
        (shownPosition settings ('\n' :: sec.text) sec.pos)
      tk_num := settings.num_tokens ('\n' :: sec.text)
      finishedImages := chunks.result_images
      lastImage := image }
    have zip_next := zip_cks next alignedNext
    refine ⟨next, rfl, texts next ?_, alignedNext, isKind, ?_⟩
    · rw [add_chunk, if_pos (show chunks.texts.last = [] ∨
        isFull settings chunks.texts.tk_num from begins)]
      rfl
    · intro other isMem
      rcases List.mem_append.mp isMem with old | new
      · refine held_mono (inStep.placed other old) fun chunk attached isMem =>
          ⟨chunk, attached, ?_, List.infix_refl _, attached_refl _⟩
        rw [zip_next]
        exact List.mem_append_left _ isMem
      · rw [List.mem_singleton.mp new]
        refine ⟨next.last, image, ?_, ?_, attached_refl image⟩
        · rw [zip_next]
          exact List.mem_append_right _ List.mem_cons_self
        · exact (List.suffix_append _ _).isInfix.trans (prefix_appendPosition _ _ _).isInfix
  · rw [if_neg begins]
    obtain ⟨whole, isWhole, wholeKind, attachedLast, attachedImage⟩ : ∃ whole,
        (if chunks.lastImage.isNone then some image
          else concat_img pillow chunks.lastImage image) = some whole ∧ kind whole ∧
            Attached pillow chunks.lastImage whole ∧ Attached pillow image whole := by
      split_ifs with noImage
      · refine ⟨image, rfl, isKind, ?_, attached_refl image⟩
        rw [Option.isNone_iff_eq_none.mp noImage]
        exact attached_of_isTrue_eq_false rfl image
      · obtain ⟨both, isBoth, bothKind⟩ := concat chunks.lastImage image inStep.isKind isKind
        exact ⟨both, isBoth, bothKind, attached_concat_img isBoth⟩
    let next : ImageChunks Blob Picture := {
      chunks with
      last := chunks.last ++ appendPosition chunks.last ('\n' :: sec.text)
        (shownPosition settings ('\n' :: sec.text) sec.pos)
      lastImage := whole
      tk_num := chunks.tk_num + settings.num_tokens ('\n' :: sec.text) }
    have zip_next := zip_cks next inStep.aligned
    rw [isWhole, Option.map_some]
    refine ⟨next, rfl, texts next ?_, inStep.aligned, wholeKind, ?_⟩
    · rw [add_chunk, if_neg (show ¬ (chunks.texts.last = [] ∨
        isFull settings chunks.texts.tk_num) from begins)]
      rfl
    · intro other isMem
      rcases List.mem_append.mp isMem with old | new
      · apply held_mono (inStep.placed other old)
        intro chunk attached isMem
        rw [zip_cks chunks inStep.aligned] at isMem
        rw [zip_next]
        rcases List.mem_append.mp isMem with isFinished | isLast
        · exact ⟨chunk, attached, List.mem_append_left _ isFinished, List.infix_refl _,
            attached_refl _⟩
        · rw [List.mem_singleton, Prod.mk.injEq] at isLast
          obtain ⟨rfl, rfl⟩ := isLast
          exact ⟨_, whole, List.mem_append_right _ List.mem_cons_self,
            (List.prefix_append _ _).isInfix, attachedLast⟩
      · rw [List.mem_singleton.mp new]
        refine ⟨next.last, whole, ?_, ?_, attachedImage⟩
        · rw [zip_next]
          exact List.mem_append_right _ List.mem_cons_self
        · exact (prefix_appendPosition _ _ _).isInfix.trans (List.suffix_append _ _).isInfix

theorem loop_agrees (sameLength : sections.length = images.length)
    (openable : Openable pillow images) :
    ∃ chunks : ImageChunks Blob Picture,
      (sections.zip images).foldlM (fun chunks (sec : Positioned × Option (Image Blob Picture)) =>
        addImageChunk settings pillow chunks ('\n' :: sec.1.text) sec.2 sec.1.pos)
          ⟨[], [], 0, [], none⟩ = some chunks ∧
      chunks.texts = sections.foldl
        (fun chunks sec => add_chunk settings chunks ('\n' :: sec.text) sec.pos) ⟨[], [], 0⟩ ∧
      chunks.cks.length = chunks.result_images.length ∧
      ∀ sec ∈ sections.zip images,
        HeldWith pillow chunks.cks chunks.result_images ('\n' :: sec.1.text) sec.2 := by
  obtain ⟨kind, isNone, kinds, concat⟩ := openable.exists_kind
  have start : InStep settings pillow kind [] ⟨[], [], 0, [], none⟩ :=
    ⟨rfl, rfl, isNone, by simp⟩
  have steps : ∀ before (sec : Positioned × Option (Image Blob Picture)) after chunks,
      sections.zip images = before ++ sec :: after →
      InStep settings pillow kind before chunks →
        ∃ next, addImageChunk settings pillow chunks ('\n' :: sec.1.text) sec.2 sec.1.pos =
          some next ∧ InStep settings pillow kind (before ++ [sec]) next := by
    intro before sec after chunks split inStep
    have isMem : sec ∈ sections.zip images := split ▸ by simp
    exact inStep.step concat sec.1 (kinds sec.2 (List.of_mem_zip isMem).2)
  obtain ⟨chunks, ran, inStep⟩ := Fallible.foldlM_invariant steps start
  refine ⟨chunks, ran, ?_, ?_, inStep.placed⟩
  · rw [inStep.texts, List.map_fst_zip (Nat.le_of_eq sameLength)]
  · simp [ImageChunks.cks, ImageChunks.result_images, inStep.aligned]

end Images

/-- With images of the sections the texts are the same, and all parts of a section are in chunks
that its image is attached to. -/
def AgreesWithImages (settings : MergeSettings) (sections : List Positioned) : Prop :=
  ∀ (Blob Picture : Type) (pillow : Pillow Blob Picture)
    (images : List (Option (Image Blob Picture))),
    sections.length = images.length → Openable pillow images →
      ∃ result_images, naive_merge_with_images settings pillow sections images =
          some (naive_merge settings sections, result_images) ∧
        (naive_merge settings sections).length = result_images.length ∧
        ∀ sec ∈ sections.zip images, textParts settings sec.1 ≠ [] ∧
          ∀ part ∈ textParts settings sec.1,
            HeldWith pillow (naive_merge settings sections) result_images ('\n' :: part) sec.2

/-- Without overlap and custom delimiters the chunks are the sections, some with their position. -/
def KeepsTexts (settings : MergeSettings) (sections : List Positioned) : Prop :=
  settings.overlapped_percent = 0 → customDelimiters settings.delimiter = [] →
    ∃ pieces, List.Forall₂ (fun sec piece => piece = '\n' :: sec.text ∨
        piece = '\n' :: sec.text ++ sec.pos) sections pieces ∧
      (naive_merge settings sections).flatten = pieces.flatten

variable {settings} {sections : List Positioned}

theorem agreesWithImages (settings : MergeSettings) (sections : List Positioned) :
    AgreesWithImages settings sections := by
  intro Blob Picture pillow images sameLength openable
  unfold naive_merge naive_merge_with_images
  by_cases noSections : sections = []
  · rw [if_pos noSections, if_pos (.inl noSections)]
    exact ⟨[], rfl, rfl, by simp [noSections]⟩
  rw [if_neg noSections, if_neg (by simp [noSections, sameLength])]
  by_cases custom : customDelimiters settings.delimiter = []
  · rw [if_neg (by simpa using custom), if_neg (by simpa using custom)]
    obtain ⟨chunks, ran, texts, aligned, held⟩ := loop_agrees sameLength openable
    rw [ran, ← texts]
    refine ⟨chunks.result_images, rfl, aligned, fun sec isMem => ⟨textParts_ne_nil _, ?_⟩⟩
    intro part isPart
    rw [textParts, if_pos custom, List.mem_singleton] at isPart
    exact isPart ▸ held sec isMem
  · rw [if_pos custom, if_pos custom]
    let chunks := (sections.zip images).flatMap fun sec => splitImageChunks settings sec.1 sec.2
    have texts : chunks.unzip.1 = sections.flatMap (splitChunks settings) := by
      rw [List.unzip_fst]
      exact split_agrees sameLength
    refine ⟨chunks.unzip.2, ?_, ?_, fun sec isMem => ⟨textParts_ne_nil _, fun part isPart => ?_⟩⟩
    · rw [← texts]
    · rw [← texts]
      simp
    · rw [textParts, if_neg custom] at isPart
      refine ⟨_, sec.2, ?_, infix_splitChunk settings sec.1 part, attached_refl sec.2⟩
      rw [← texts, List.zip_unzip]
      exact List.mem_flatMap.mpr ⟨sec, isMem, List.mem_map.mpr ⟨part, isPart, rfl⟩⟩

theorem overlap_eq_nil (noOverlap : settings.overlapped_percent = 0) (chunk : Text) :
    overlap settings chunk = [] := by
  have whole : (((remove_tag chunk).length : Int) * (100 - 0)).tdiv 100 =
      (remove_tag chunk).length := by
    rw [Int.sub_zero, Int.mul_tdiv_cancel _ (by decide)]
  rw [overlap, noOverlap, whole, sliceFrom, if_neg (by omega), Int.toNat_natCast, List.drop_length]

theorem flatten_add_chunk (noOverlap : settings.overlapped_percent = 0) (chunks : Chunks)
    (t pos : Text) : ∃ piece, (piece = t ∨ piece = t ++ pos) ∧
      (add_chunk settings chunks t pos).cks.flatten = chunks.cks.flatten ++ piece := by
  have positioned (chunk : Text) : appendPosition chunk t (shownPosition settings t pos) = t ∨
      appendPosition chunk t (shownPosition settings t pos) = t ++ pos := by
    unfold appendPosition shownPosition
    split_ifs <;> simp
  unfold add_chunk
  dsimp only
  split_ifs with begins
  · rw [overlap_eq_nil noOverlap, List.nil_append]
    exact ⟨_, positioned t, by simp [Chunks.cks]⟩
  · exact ⟨_, positioned chunks.last, by simp [Chunks.cks]⟩

theorem keepsTexts (settings : MergeSettings) (sections : List Positioned) :
    KeepsTexts settings sections := by
  intro noOverlap noCustom
  have added (chunks : Chunks) : ∃ pieces,
      List.Forall₂ (fun sec piece => piece = '\n' :: sec.text ∨
        piece = '\n' :: sec.text ++ sec.pos) sections pieces ∧
      (sections.foldl (fun chunks sec => add_chunk settings chunks ('\n' :: sec.text) sec.pos)
        chunks).cks.flatten = chunks.cks.flatten ++ pieces.flatten := by
    induction sections generalizing chunks with
    | nil => exact ⟨[], .nil, by simp⟩
    | cons sec sections ih =>
      obtain ⟨piece, isPiece, first⟩ :=
        flatten_add_chunk noOverlap chunks ('\n' :: sec.text) sec.pos
      obtain ⟨pieces, arePieces, others⟩ :=
        ih (add_chunk settings chunks ('\n' :: sec.text) sec.pos)
      refine ⟨piece :: pieces, .cons isPiece arePieces, ?_⟩
      rw [List.foldl_cons, others, first, List.flatten_cons, List.append_assoc]
  obtain ⟨pieces, arePieces, whole⟩ := added ⟨[], [], 0⟩
  refine ⟨pieces, arePieces, ?_⟩
  unfold naive_merge
  split_ifs with noSections custom
  · subst noSections
    cases arePieces
    rfl
  · exact absurd noCustom custom
  · simpa [Chunks.cks] using whole

end RagFlow.Chunking
