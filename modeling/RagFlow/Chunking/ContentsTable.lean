import RagFlow.Lib.PyString
import RagFlow.Lib.Regex

/-!
# Tables of contents removed

The loop of `remove_contents_table` and of the parser's filter of contents pages.  Behind a heading
such as "contents" the entries are removed up to the section that begins like the first of them. 
Python's `re.compile` is a parameter.
-/

namespace RagFlow.Chunking

open Lib

namespace ContentsTable

/-- How the tables of contents are told from the other items.  What an item behind a heading begins
with may depend on the heading. -/
structure Scheme (Item : Type) where
  isContents : Item → Bool
  entryPrefix : Item → Item → String
  searched : Item → String
  re_compile : String → Option (String → Bool)

variable {Item : Type} (scheme : Scheme Item)

/-- `sections.pop(i)` with the sections from `i` on; no result is an `IndexError`. -/
def pop : List Item → Option (List Item)
  | [] => none
  | _ :: sections => some sections

/-- `while not prefix`: the sections from the first entry on, and its beginning. -/
def skipBlanks (heading : Item) : List Item → List Item × String
  | [] => ([], "")
  | item :: sections =>
    if scheme.entryPrefix heading item = "" then skipBlanks heading sections
    else (item :: sections, scheme.entryPrefix heading item)

/-- The sections from `i` on after those of a table are popped, and whether the loop goes on. -/
def behindHeading (heading : Item) (sections : List Item) : Option (List Item × Bool) :=
  if sections = [] then some ([], false)
  else
    let (entries, beginning) := skipBlanks scheme heading sections
    (pop entries).bind fun remaining =>
      if remaining = [] ∨ beginning = "" then some (remaining, false)
      else
        (scheme.re_compile beginning).map fun isMatch =>
          match (remaining.take 128).findIdx? fun entry => isMatch (scheme.searched entry) with
          | none => (remaining, true)
          | some popped => (remaining.drop popped, true)

theorem length_skipBlanks_le (heading : Item) (sections : List Item) :
    (skipBlanks scheme heading sections).1.length ≤ sections.length := by
  induction sections with
  | nil => exact Nat.le_refl _
  | cons item sections ih =>
    rw [skipBlanks]
    split_ifs
    · exact Nat.le_succ_of_le ih
    · exact Nat.le_refl _

theorem length_of_behindHeading {heading : Item} {sections remaining : List Item} {continues : Bool}
    (isBehind : behindHeading scheme heading sections = some (remaining, continues)) :
    remaining.length ≤ sections.length := by
  unfold behindHeading at isBehind
  split_ifs at isBehind with isEmpty
  · cases isBehind
    exact Nat.zero_le _
  · have shorter := length_skipBlanks_le scheme heading sections
    obtain ⟨left, popped, isBehind⟩ := Option.bind_eq_some_iff.mp isBehind
    cases entries : (skipBlanks scheme heading sections).1 with
    | nil =>
      rw [entries] at popped
      cases popped
    | cons first others =>
      rw [entries] at popped shorter
      obtain rfl := Option.some.inj popped
      rw [List.length_cons] at shorter
      split_ifs at isBehind
      · cases isBehind
        omega
      · obtain ⟨isMatch, -, found⟩ := Option.map_eq_some_iff.mp isBehind
        split at found
        · cases found
          omega
        · cases found
          rw [List.length_drop]
          omega

/-- The sections before `i` are kept; no result is an exception. -/
def remove : List Item → Option (List Item)
  | [] => some []
  | item :: sections =>
    if !scheme.isContents item then (remove sections).map (item :: ·)
    else
      match _left : behindHeading scheme item sections with
      | none => none
      | some (remaining, continues) =>
        if continues then remove remaining else some remaining
  termination_by sections => sections.length
  decreasing_by
    · exact Nat.lt_succ_self _
    · exact Nat.lt_succ_of_le (length_of_behindHeading scheme _left)

def Repeats (beginning : String) (item : Item) : Prop :=
  ∃ isMatch ∈ scheme.re_compile beginning, isMatch (scheme.searched item) = true

/-- A table of contents before the rest of the sections: it ends at the first section that begins
like its first entry, or behind that entry if none of the next 128 does. -/
structure IsTable (heading : Item) (blanks : List Item) (first : Item)
    (entries rest : List Item) : Prop where
  isHeading : scheme.isContents heading = true
  blank : ∀ item ∈ blanks, scheme.entryPrefix heading item = ""
  isFirst : scheme.entryPrefix heading first ≠ ""
  different : ∀ entry ∈ entries, ¬ Repeats scheme (scheme.entryPrefix heading first) entry
  ends : (entries.length < 128 ∧
      ∃ item ∈ rest.head?, Repeats scheme (scheme.entryPrefix heading first) item) ∨
    (entries = [] ∧
      ∀ item ∈ rest.take 128, ¬ Repeats scheme (scheme.entryPrefix heading first) item)

inductive Stripped : List Item → List Item → Prop
  | nil : Stripped [] []
  | keep {item : Item} {sections kept : List Item} (noHeading : scheme.isContents item = false)
      (stripped : Stripped sections kept) : Stripped (item :: sections) (item :: kept)
  | table {heading first : Item} {blanks entries rest kept : List Item}
      (isTable : IsTable scheme heading blanks first entries rest)
      (stripped : Stripped rest kept) :
      Stripped (heading :: (blanks ++ first :: (entries ++ rest))) kept
  | unfinished {heading : Item} {blanks : List Item} (isHeading : scheme.isContents heading = true)
      (blank : ∀ item ∈ blanks, scheme.entryPrefix heading item = "") :
    Stripped (heading :: blanks) []

inductive Reached : List Item → List Item → Prop
  | here (sections : List Item) : Reached sections sections
  | keep {item : Item} {sections suffix : List Item} (noHeading : scheme.isContents item = false)
      (reached : Reached sections suffix) : Reached (item :: sections) suffix
  | table {heading first : Item} {blanks entries rest suffix : List Item}
      (isTable : IsTable scheme heading blanks first entries rest)
      (reached : Reached rest suffix) :
      Reached (heading :: (blanks ++ first :: (entries ++ rest))) suffix

/-- No heading is followed by blank sections only, and the first entries begin with patterns. -/
structure Removable (sections : List Item) : Prop where
  closed : ∀ heading blanks, Reached scheme sections (heading :: blanks) →
    scheme.isContents heading = true → (∀ item ∈ blanks, scheme.entryPrefix heading item = "") →
      blanks = []
  valid : ∀ heading blanks first rest,
    Reached scheme sections (heading :: (blanks ++ first :: rest)) →
    scheme.isContents heading = true → (∀ item ∈ blanks, scheme.entryPrefix heading item = "") →
      scheme.entryPrefix heading first ≠ "" → rest ≠ [] →
        (scheme.re_compile (scheme.entryPrefix heading first)).isSome

variable {scheme} {heading first : Item} {blanks entries rest sections kept suffix : List Item}

theorem Stripped.sublist (stripped : Stripped scheme sections kept) : kept.Sublist sections := by
  induction stripped with
  | nil => exact List.Sublist.refl _
  | keep _ _ ih => exact ih.cons_cons _
  | table _ _ ih =>
    refine (ih.trans ?_).cons _
    exact ((List.sublist_append_right _ _).cons _).trans (List.sublist_append_right _ _)
  | unfinished _ _ => exact List.nil_sublist _

theorem skipBlanks_append (blank : ∀ item ∈ blanks, scheme.entryPrefix heading item = "")
    (rest : List Item) :
    skipBlanks scheme heading (blanks ++ rest) = skipBlanks scheme heading rest := by
  induction blanks with
  | nil => rfl
  | cons item blanks ih =>
    rw [List.forall_mem_cons] at blank
    rw [List.cons_append, skipBlanks, if_pos blank.1, ih blank.2]

theorem behindHeading_blanks (blank : ∀ item ∈ blanks, scheme.entryPrefix heading item = "")
    (nonempty : blanks ≠ []) : behindHeading scheme heading blanks = none := by
  have skipped := skipBlanks_append blank []
  rw [List.append_nil] at skipped
  rw [behindHeading, if_neg nonempty, skipped]
  rfl

theorem behindHeading_entries (blank : ∀ item ∈ blanks, scheme.entryPrefix heading item = "")
    (isFirst : scheme.entryPrefix heading first ≠ "") :
    behindHeading scheme heading (blanks ++ first :: rest) =
      if rest = [] then some ([], false)
      else (scheme.re_compile (scheme.entryPrefix heading first)).map fun isMatch =>
        (rest.drop (((rest.take 128).findIdx? fun entry => isMatch (scheme.searched entry)).getD 0),
          true) := by
  have nonempty : blanks ++ first :: rest ≠ [] := by simp
  rw [behindHeading, if_neg nonempty, skipBlanks_append blank, skipBlanks, if_neg isFirst]
  simp only [pop, Option.bind_some, isFirst, or_false]
  split_ifs with noRest
  · rw [noRest]
  · congr 1
    funext isMatch
    cases (rest.take 128).findIdx? fun entry => isMatch (scheme.searched entry) <;> rfl

theorem remove_keep {item : Item} (noHeading : scheme.isContents item = false) :
    remove scheme (item :: sections) =
      (remove scheme sections).map (item :: ·) := by
  rw [remove, if_pos (by rw [noHeading, Bool.not_false])]

theorem remove_heading (isHeading : scheme.isContents heading = true) :
    remove scheme (heading :: sections) =
      (behindHeading scheme heading sections).bind fun left =>
        if left.2 then remove scheme left.1 else some left.1 := by
  rw [remove, if_neg (by rw [isHeading, Bool.not_true]; exact Bool.false_ne_true)]
  split
  · next isBehind => rw [isBehind, Option.bind_none]
  · next isBehind => rw [isBehind, Option.bind_some]

theorem repeats_iff {beginning : String} {isMatch : String → Bool}
    (compiled : scheme.re_compile beginning = some isMatch) (item : Item) :
    Repeats scheme beginning item ↔ isMatch (scheme.searched item) = true := by
  constructor
  · rintro ⟨other, isOther, matched⟩
    obtain rfl := Option.some.inj (compiled.symm.trans isOther)
    exact matched
  · exact fun matched => ⟨isMatch, compiled, matched⟩

theorem IsTable.drop_eq {isMatch : String → Bool}
    (isTable : IsTable scheme heading blanks first entries rest)
    (compiled : scheme.re_compile (scheme.entryPrefix heading first) = some isMatch) :
    (entries ++ rest).drop ((((entries ++ rest).take 128).findIdx? fun entry =>
      isMatch (scheme.searched entry)).getD 0) = rest := by
  have repeats_iff := repeats_iff compiled
  rcases isTable.ends with ⟨short, item, isHead, repeats⟩ | ⟨rfl, none⟩
  · obtain ⟨later, rfl⟩ := List.head?_eq_some_iff.mp isHead
    have noneBefore : entries.findIdx? (fun entry => isMatch (scheme.searched entry)) = none := by
      rw [List.findIdx?_eq_none_iff]
      exact fun entry isEntry => Bool.eq_false_iff.mpr fun matched =>
        isTable.different entry isEntry ((repeats_iff entry).mpr matched)
    have window : (entries ++ item :: later).take 128 =
        entries ++ item :: later.take (127 - entries.length) := by
      rw [List.take_append, List.take_of_length_le (Nat.le_of_lt short)]
      obtain ⟨left, isLeft⟩ : ∃ left, 128 - entries.length = left + 1 :=
        ⟨127 - entries.length, by omega⟩
      rw [isLeft, List.take_succ_cons, show left = 127 - entries.length by omega]
    rw [window, List.findIdx?_append, noneBefore, List.findIdx?_cons,
      if_pos ((repeats_iff item).mp repeats)]
    simp
  · have noMatch : (([] ++ rest).take 128).findIdx? (fun entry => isMatch (scheme.searched entry)) =
        Option.none := by
      rw [List.findIdx?_eq_none_iff]
      exact fun entry isEntry => Bool.eq_false_iff.mpr fun matched =>
        none entry isEntry ((repeats_iff entry).mpr matched)
    rw [noMatch]
    rfl

theorem remove_table (isTable : IsTable scheme heading blanks first entries rest) :
    remove scheme (heading :: (blanks ++ first :: (entries ++ rest))) =
      if entries ++ rest = [] then some []
      else (scheme.re_compile (scheme.entryPrefix heading first)).bind fun _ =>
        remove scheme rest := by
  rw [remove_heading isTable.isHeading, behindHeading_entries isTable.blank isTable.isFirst]
  split_ifs with noRest
  · rfl
  · cases compiled : scheme.re_compile (scheme.entryPrefix heading first) with
    | none => rfl
    | some isMatch =>
      simp only [Option.map_some, Option.bind_some, if_true]
      rw [isTable.drop_eq compiled]

theorem remove_blanks (isHeading : scheme.isContents heading = true)
    (blank : ∀ item ∈ blanks, scheme.entryPrefix heading item = "") (nonempty : blanks ≠ []) :
    remove scheme (heading :: blanks) = none := by
  rw [remove_heading isHeading, behindHeading_blanks blank nonempty]
  rfl

theorem remove_invalid (isHeading : scheme.isContents heading = true)
    (blank : ∀ item ∈ blanks, scheme.entryPrefix heading item = "")
    (isFirst : scheme.entryPrefix heading first ≠ "") (nonempty : rest ≠ [])
    (invalid : scheme.re_compile (scheme.entryPrefix heading first) = none) :
    remove scheme (heading :: (blanks ++ first :: rest)) = none := by
  rw [remove_heading isHeading, behindHeading_entries blank isFirst, if_neg nonempty, invalid]
  rfl

theorem isSome_of_reached (reached : Reached scheme sections suffix)
    (returns : (remove scheme sections).isSome) :
    (remove scheme suffix).isSome := by
  induction reached with
  | here => exact returns
  | keep noHeading _ ih =>
    rw [remove_keep noHeading, Option.isSome_map] at returns
    exact ih returns
  | @table heading first blanks entries rest suffix isTable reached ih =>
    rw [remove_table isTable] at returns
    split_ifs at returns with isEmpty
    · apply ih
      rw [(List.append_eq_nil_iff.mp isEmpty).2, remove]
      rfl
    · cases compiled : scheme.re_compile (scheme.entryPrefix heading first) with
      | none =>
        rw [compiled] at returns
        cases returns
      | some isMatch =>
        rw [compiled] at returns
        exact ih returns

theorem exists_blanks (scheme : Scheme Item) (heading : Item) (sections : List Item) :
    ∃ blanks tail, sections = blanks ++ tail ∧
      (∀ item ∈ blanks, scheme.entryPrefix heading item = "") ∧
      ∀ first ∈ tail.head?, scheme.entryPrefix heading first ≠ "" := by
  induction sections with
  | nil => exact ⟨[], [], rfl, by simp, by simp⟩
  | cons item sections ih =>
    by_cases blank : scheme.entryPrefix heading item = ""
    · obtain ⟨blanks, tail, rfl, allBlank, isFirst⟩ := ih
      exact ⟨item :: blanks, tail, rfl, by simpa [blank] using allBlank, isFirst⟩
    · exact ⟨[], item :: sections, rfl, by simp, by simpa using blank⟩

theorem exists_first {found : Item → Prop} (exists_ : ∃ item ∈ sections, found item) :
    ∃ before item after, sections = before ++ item :: after ∧ found item ∧
      ∀ earlier ∈ before, ¬ found earlier := by
  induction sections with
  | nil => simp at exists_
  | cons item sections ih =>
    by_cases here : found item
    · exact ⟨[], item, sections, rfl, here, by simp⟩
    · obtain ⟨before, later, after, rfl, isFound, different⟩ :=
        ih (by simpa [here] using exists_)
      exact ⟨item :: before, later, after, rfl, isFound,
        List.forall_mem_cons.mpr ⟨here, different⟩⟩

theorem exists_entries (isHeading : scheme.isContents heading = true)
    (blank : ∀ item ∈ blanks, scheme.entryPrefix heading item = "")
    (isFirst : scheme.entryPrefix heading first ≠ "") (tail : List Item) :
    ∃ entries rest, tail = entries ++ rest ∧ IsTable scheme heading blanks first entries rest := by
  by_cases found : ∃ item ∈ tail.take 128, Repeats scheme (scheme.entryPrefix heading first) item
  · obtain ⟨before, item, after, split, repeats, different⟩ := exists_first found
    have short : before.length < 128 := by
      have lengths := congrArg List.length split
      simp only [List.length_take, List.length_append, List.length_cons] at lengths
      omega
    refine ⟨before, item :: (after ++ tail.drop 128), ?_, isHeading, blank, isFirst, different,
      .inl ⟨short, item, rfl, repeats⟩⟩
    rw [← List.cons_append, ← List.append_assoc, ← split, List.take_append_drop]
  · exact ⟨[], tail, rfl, isHeading, blank, isFirst, by simp,
      .inr ⟨rfl, fun item isMem repeats => found ⟨item, isMem, repeats⟩⟩⟩

theorem Removable.of_reached {left : List Item} (removable : Removable scheme sections)
    (reached : ∀ suffix, Reached scheme left suffix → Reached scheme sections suffix) :
    Removable scheme left :=
  ⟨fun heading blanks isReached => removable.closed heading blanks (reached _ isReached),
    fun heading blanks first rest isReached =>
      removable.valid heading blanks first rest (reached _ isReached)⟩

theorem exists_stripped (removable : Removable scheme sections) :
    ∃ kept, remove scheme sections = some kept ∧
      Stripped scheme sections kept := by
  induction size : sections.length using Nat.strongRecOn generalizing sections with
  | ind size ih =>
    cases sections with
    | nil => exact ⟨[], by rw [remove], .nil⟩
    | cons item sections =>
      cases isHeading : scheme.isContents item with
      | false =>
        obtain ⟨kept, returns, stripped⟩ := ih sections.length
          (by simp [← size]) (removable.of_reached fun _ => .keep isHeading) rfl
        exact ⟨item :: kept, by rw [remove_keep isHeading, returns, Option.map_some],
          .keep isHeading stripped⟩
      | true =>
        obtain ⟨blanks, tail, rfl, blank, isFirst⟩ := exists_blanks scheme item sections
        cases tail with
        | nil =>
          rw [List.append_nil] at removable ⊢
          obtain rfl := removable.closed item blanks (.here _) isHeading blank
          refine ⟨[], ?_, .unfinished isHeading blank⟩
          rw [remove_heading isHeading]
          rfl
        | cons first tail =>
          have filled := isFirst first rfl
          obtain ⟨entries, rest, rfl, isTable⟩ :=
            exists_entries isHeading blank filled tail
          obtain ⟨kept, returns, stripped⟩ := ih rest.length
            (by simp only [← size, List.length_cons, List.length_append]; omega)
            (removable.of_reached fun _ => .table isTable) rfl
          refine ⟨kept, ?_, .table isTable stripped⟩
          rw [remove_table isTable]
          split_ifs with isEmpty
          · rw [(List.append_eq_nil_iff.mp isEmpty).2, remove] at returns
            exact returns
          · obtain ⟨isMatch, compiled⟩ := Option.isSome_iff_exists.mp
              (removable.valid item blanks first _ (.here _) isHeading blank filled isEmpty)
            rw [compiled, Option.bind_some, returns]

theorem removable_of_isSome (returns : (remove scheme sections).isSome) :
    Removable scheme sections := by
  constructor
  · intro heading blanks reached isHeading blank
    by_contra nonempty
    have raised := isSome_of_reached reached returns
    rw [remove_blanks isHeading blank nonempty] at raised
    cases raised
  · intro heading blanks first rest reached isHeading blank isFirst nonempty
    by_contra invalid
    have raised := isSome_of_reached reached returns
    rw [remove_invalid isHeading blank isFirst nonempty
      (Option.not_isSome_iff_eq_none.mp invalid)] at raised
    cases raised

structure Reading (Item : Type) where
  text : Item → String
  re_compile : String → Option (String → Bool)
  eng : Bool

/-- `text.split("@@")[0]` -/
def untagged : List Char → List Char
  | '@' :: '@' :: _ => []
  | [] => []
  | char :: text => char :: untagged text

variable (reading : Reading Item)

def titles : Regex :=
  .anyOf (["contents", "目录", "目次", "table of contents", "致谢", "acknowledge"].map .literal)

def get (item : Item) : String := PyString.strip (reading.text item)

@[irreducible] def isContents (item : Item) : Bool :=
  (Regex.seq titles .atEnd).isMatch
    (String.ofList ((untagged (get reading item).toList).filter fun char =>
      char ≠ ' ' && char ≠ '\u3000'))

def entryPrefix (item : Item) : String :=
  if reading.eng then " ".intercalate ((PyString.split (get reading item)).take 2)
  else String.ofList ((get reading item).toList.take 3)

def Reading.tables (reading : Reading Item) : Scheme Item where
  isContents := isContents reading
  entryPrefix := fun _ => entryPrefix reading
  searched := get reading
  re_compile := reading.re_compile

def remove_contents_table (sections : List Item) : Option (List Item) :=
  remove reading.tables sections

def RemovesTables (sections : List Item) : Prop :=
  ∃ kept, remove_contents_table reading sections = some kept ∧
    Stripped reading.tables sections kept ∧ kept.Sublist sections

/-- The function returns, with all sections kept but those of tables, exactly for sections without
a table that is blank to the end or begins with an invalid pattern. -/
theorem removesTables_iff (reading : Reading Item) (sections : List Item) :
    RemovesTables reading sections ↔ Removable reading.tables sections := by
  constructor
  · rintro ⟨kept, returns, -⟩
    exact removable_of_isSome (Option.isSome_of_eq_some returns)
  · intro removable
    obtain ⟨kept, returns, stripped⟩ := exists_stripped removable
    exact ⟨kept, returns, stripped, stripped.sublist⟩

/-- Texts with a compiler for patterns without special characters, or with a parenthesis that
closes nothing, which it rejects. -/
def plainReading : Reading String where
  text := id
  re_compile := fun pattern =>
    if pattern.toList.contains ')' then none else some (pattern.isPrefixOf ·)
  eng := false

/-- Acknowledgements that are only a heading and a blank section, and entries with numbers that a
parenthesis follows. -/
theorem not_removesTables_plain : ¬ RemovesTables plainReading ["致谢", " "] ∧
    ¬ RemovesTables plainReading ["目录", "1) 概述", "2) 范围", "1) 概述"] := by
  have isThanks : isContents plainReading "致谢" = true := by
    unfold isContents
    decide +kernel
  have isTitle : isContents plainReading "目录" = true := by
    unfold isContents
    decide +kernel
  constructor
  · rintro ⟨kept, returns, -⟩
    have blank : ∀ item ∈ [" "], plainReading.tables.entryPrefix "致谢" item = "" := by
      decide +kernel
    have raised : remove_contents_table plainReading ["致谢", " "] = none :=
      remove_blanks isThanks blank (by simp)
    rw [raised] at returns
    cases returns
  · rintro ⟨kept, returns, -⟩
    have filled : plainReading.tables.entryPrefix "目录" "1) 概述" ≠ "" := by decide +kernel
    have noBlanks : ∀ item ∈ [], plainReading.tables.entryPrefix "目录" item = "" := by simp
    have invalid : plainReading.tables.re_compile
        (plainReading.tables.entryPrefix "目录" "1) 概述") = none := by
      decide +kernel
    have raised : remove_contents_table plainReading ["目录", "1) 概述", "2) 范围", "1) 概述"] = none :=
      remove_invalid isTitle noBlanks filled (by simp) invalid
    rw [raised] at returns
    cases returns

end ContentsTable

end RagFlow.Chunking
