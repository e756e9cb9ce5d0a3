import Mathlib.Data.List.TakeWhile
import Mathlib.Logic.Function.Iterate
import RagFlow.Lib.FreshName
import RagFlow.Lib.PyString

/-!
# Free names

What `duplicate_name` of the API server and `getUniqueFilename` of the Go server make of a name that
is taken.
-/

namespace RagFlow.Names

open Lib

abbrev Text := List Char

/-- `PurePath(path).name`: the last part that is neither empty nor a single point. -/
def pathName (path : Text) : Text :=
  ((path.splitOn '/').filter (· ∉ [[], ['.']])).getLast?.getD []

/-- `stem` and `suffix` of a name. -/
def stemSuffix (name : Text) : Text × Text :=
  let behind := (name.reverse.takeWhile (· ≠ '.')).reverse
  let before := name.take (name.length - behind.length - 1)
  if before = [] ∨ behind = [] then (name, []) else (before, '.' :: behind)

def decimalValue (char : Char) : ℕ :=
  char.toNat - (PyString.decimalZeros.find? fun first =>
    first ≤ char.toNat && char.toNat < first + 10).getD char.toNat

/-- `^(.*?)\((\d+)\)$`, read from behind. -/
def split_name_counter (filename : Text) : Text × Option ℕ :=
  let backwards := match filename.reverse with
    | '\n' :: backwards => backwards
    | backwards => backwards
  match backwards with
  | ')' :: backwards =>
    let digits := (backwards.takeWhile PyString.isDecimal).reverse
    match backwards.dropWhile PyString.isDecimal with
    | '(' :: main =>
      if digits ≠ [] ∧ '\n' ∉ main then
        ((main.dropWhile PyString.isSpace).reverse,
          some (digits.foldl (fun value char => 10 * value + decimalValue char) 0))
      else (filename, none)
    | _ => (filename, none)
  | _ => (filename, none)

def next_name (current_name : Text) : Text :=
  let (stem, suffix) := stemSuffix (pathName current_name)
  let (main_part, counter) := split_name_counter stem
  let counter := match counter with
    | some counter => counter + 1
    | none => 1
  main_part ++ '(' :: Nat.toDigits 10 counter ++ ')' :: suffix

def MAX_RETRIES : ℕ := 1000

def freeName (query : Text → Bool) : ℕ → Text → Option Text
  | 0, _ => none
  | retries + 1, current_name =>
    if query current_name then freeName query retries (next_name current_name)
    else some current_name

def duplicate_name (query : Text → Bool) (name : Text) : Except Text Text :=
  match freeName query MAX_RETRIES name with
  | some name => .ok name
  | none => .error ("Failed to generate unique name within 1000 attempts. Original: ".toList ++ name)

def filepathBase (name : Text) : Text :=
  if name = [] then ['.']
  else
    let last := ((name.reverse.dropWhile (· = '/')).takeWhile (· ≠ '/')).reverse
    if last = [] then ['/'] else last

def filepathExt (name : Text) : Text :=
  let isInside : Char → Bool := fun char => char ≠ '.' ∧ char ≠ '/'
  match name.reverse.dropWhile isInside with
  | '.' :: _ => '.' :: (name.reverse.takeWhile isInside).reverse
  | _ => []

def trimEnd (name ending : Text) : Text :=
  if ending <:+ name then name.take (name.length - ending.length) else name

def newName (name : Text) (counter : ℕ) : Text :=
  let ext := filepathExt name
  trimEnd (filepathBase name) ext ++ '_' :: Nat.toDigits 10 counter ++ ext

def getUniqueFilename (query : Text → Bool) (bound : ℕ) (name : Text) : Text :=
  if query name then
    newName name (firstFree (query ∘ newName name) (· + 1) (bound + 1) 1)
  else name

theorem newName_injective (name : Text) : Function.Injective (newName name) := by
  intro first second same
  have digits := List.cons.inj (List.append_cancel_left (List.append_cancel_right same))
  have values := congrArg (Nat.ofDigitChars 10 · 0) digits.2
  simpa using values

/-- Whatever names are taken, the loop over the counters ends with a free one. -/
theorem getUniqueFilename_free {query : Text → Bool} {names : List Text}
    (all : ∀ name, query name = true → name ∈ names) (name : Text) :
    query (getUniqueFilename query names.length name) = false := by
  rw [getUniqueFilename]
  by_cases isTaken : query name = true
  · rw [if_pos isTaken]
    have distinct : Function.Injective fun index => (· + 1)^[index] 1 := by
      have counted (index : ℕ) : (· + 1)^[index] 1 = index + 1 := by
        induction index with
        | zero => rfl
        | succ index ih => rw [Function.iterate_succ_apply', ih]
      intro first second same
      simp only [counted] at same
      exact Nat.succ_injective same
    have counters : ∀ counter, (query ∘ newName name) counter = true →
        counter ∈ names.map (Function.invFun (newName name)) := by
      intro counter taken
      refine List.mem_map.mpr ⟨_, all _ taken, ?_⟩
      exact Function.leftInverse_invFun (newName_injective name) counter
    apply firstFree_free distinct counters
    rw [List.length_map]
    exact Nat.lt_succ_self _
  · rw [if_neg isTaken]
    exact Bool.eq_false_iff.mpr isTaken

theorem getUniqueFilename_free_second :
    let names := ["a.md".toList, "a_1.md".toList]
    decide (getUniqueFilename (· ∈ names) names.length "a.md".toList ∈ names) = false :=
  getUniqueFilename_free (fun _ => of_decide_eq_true) _

theorem exists_last_point {name : Text} (isMem : '.' ∈ name) :
    ∃ before behind, name = before ++ '.' :: behind ∧ '.' ∉ behind := by
  obtain ⟨behind, before, reversed, isLast⟩ :=
    List.eq_append_cons_of_mem (List.mem_reverse.mpr isMem)
  refine ⟨before.reverse, behind.reverse, ?_, fun isMem => isLast (List.mem_reverse.mp isMem)⟩
  rw [← List.reverse_reverse name, reversed]
  simp

section Points

variable {before behind name : Text} (isLast : '.' ∉ behind)
include isLast

theorem takeWhile_reverse_append :
    (before ++ '.' :: behind).reverse.takeWhile (· ≠ '.') = behind.reverse := by
  rw [List.reverse_append, List.reverse_cons, List.append_assoc,
    List.takeWhile_append_of_pos fun char isMem => ?_]
  · simp
  · rw [decide_eq_true_eq]
    rintro rfl
    exact isLast (List.mem_reverse.mp isMem)

theorem stemSuffix_append :
    stemSuffix (before ++ '.' :: behind) =
      if before = [] ∨ behind = [] then (before ++ '.' :: behind, [])
      else (before, '.' :: behind) := by
  have taken : (before ++ '.' :: behind).length - behind.length - 1 = before.length := by
    simp only [List.length_append, List.length_cons]
    omega
  simp only [stemSuffix, takeWhile_reverse_append isLast, List.reverse_reverse, taken]
  simp

omit isLast in
theorem stemSuffix_of_not_mem (without : '.' ∉ name) : stemSuffix name = (name, []) := by
  have taken : (name.reverse.takeWhile (· ≠ '.')).reverse = name := by
    rw [List.takeWhile_eq_self_iff.mpr fun char isMem => ?_, List.reverse_reverse]
    rw [decide_eq_true_eq]
    rintro rfl
    exact without (List.mem_reverse.mp isMem)
  simp only [stemSuffix, taken]
  simp

end Points

theorem pathName_of_not_mem {name : Text} (plain : '/' ∉ name) :
    pathName name = if name = [] ∨ name = ['.'] then [] else name := by
  rw [pathName, List.splitOn_eq_singleton plain]
  by_cases isNone : name = [] ∨ name = ['.']
  · rw [if_pos isNone, List.filter_cons_of_neg (by simpa [or_iff_not_imp_left] using isNone)]
    rfl
  · rw [if_neg isNone, List.filter_cons_of_pos (by simpa [not_or] using isNone)]
    rfl

theorem split_name_counter_spec (stem : Text) :
    (split_name_counter stem).1 = stem ∨ ∃ main rest, stem = main ++ '(' :: rest ∧
      (split_name_counter stem).1 = (main.reverse.dropWhile PyString.isSpace).reverse := by
  obtain ⟨ending, backwards, isReversed, isBackwards⟩ : ∃ ending backwards,
      stem.reverse = ending ++ backwards ∧ (match stem.reverse with
        | '\n' :: backwards => backwards
        | backwards => backwards) = backwards := by
    split
    · exact ⟨['\n'], _, ‹_›, rfl⟩
    · exact ⟨[], _, rfl, rfl⟩
  simp only [split_name_counter, isBackwards]
  split
  · rename_i inside
    split
    · rename_i main isMain
      split
      · right
        refine ⟨main.reverse, (ending ++ ')' :: inside.takeWhile PyString.isDecimal).reverse, ?_,
          by rw [List.reverse_reverse]⟩
        have whole : stem.reverse = ending ++ ')' ::
            (inside.takeWhile PyString.isDecimal ++ '(' :: main) := by
          rw [isReversed, ← isMain, List.takeWhile_append_dropWhile]
        rw [← List.reverse_reverse stem, whole]
        simp
      · exact .inl rfl
    · exact .inl rfl
  · exact .inl rfl

theorem next_name_eq (name : Text) : ∃ counted,
    next_name name = (split_name_counter (stemSuffix (pathName name)).1).1 ++ '(' ::
      Nat.toDigits 10 counted ++ ')' :: (stemSuffix (pathName name)).2 :=
  ⟨_, rfl⟩

theorem mem_of_mem_stem {stem : Text} {char : Char}
    (isMem : char ∈ (split_name_counter stem).1) : char ∈ stem := by
  rcases split_name_counter_spec stem with same | ⟨main, rest, rfl, same⟩
  · exact same ▸ isMem
  · rw [same, List.mem_reverse] at isMem
    exact List.mem_append_left _ (List.mem_reverse.mp ((List.dropWhile_sublist _).subset isMem))

theorem stemSuffix_join (name : Text) : (stemSuffix name).1 ++ (stemSuffix name).2 = name := by
  by_cases isMem : '.' ∈ name
  · obtain ⟨before, behind, rfl, isLast⟩ := exists_last_point isMem
    rw [stemSuffix_append isLast]
    split <;> simp
  · rw [stemSuffix_of_not_mem isMem, List.append_nil]

theorem stem_ne_nil {name : Text} (nonempty : name ≠ []) : (stemSuffix name).1 ≠ [] := by
  by_cases isMem : '.' ∈ name
  · obtain ⟨before, behind, rfl, isLast⟩ := exists_last_point isMem
    rw [stemSuffix_append isLast]
    split
    · exact nonempty
    · rename_i isCut
      exact fun isEmpty => isCut (.inl isEmpty)
  · rwa [stemSuffix_of_not_mem isMem]

theorem not_mem_next_name {name : Text} (plain : '/' ∉ name) : '/' ∉ next_name name := by
  have plainPath : '/' ∉ pathName name := by
    rw [pathName_of_not_mem plain]
    split
    · exact List.not_mem_nil
    · exact plain
  rw [← stemSuffix_join (pathName name), List.mem_append, not_or] at plainPath
  obtain ⟨counted, isNext⟩ := next_name_eq name
  rw [isNext]
  simp only [List.mem_append, List.mem_cons, not_or]
  refine ⟨⟨fun isMem => plainPath.1 (mem_of_mem_stem isMem), by decide, fun isMem => ?_⟩,
    by decide, plainPath.2⟩
  exact absurd (Nat.isDigit_of_mem_toDigits (by decide) (by decide) isMem) (by decide)

def Ends (ending name : Text) : Prop :=
  '/' ∉ name ∧ ∃ before, name = before ++ ')' :: ending

theorem Ends.next_of_suffix {name : Text} (plain : '/' ∉ name) :
    Ends (stemSuffix (pathName name)).2 (next_name name) := by
  obtain ⟨counted, isNext⟩ := next_name_eq name
  exact ⟨not_mem_next_name plain, _, isNext⟩

theorem pathName_of_ends {before behind : Text} (plain : '/' ∉ before ++ ')' :: behind) :
    pathName (before ++ ')' :: behind) = before ++ ')' :: behind := by
  rw [pathName_of_not_mem plain, if_neg]
  rintro (isEmpty | isPoint)
  · simp at isEmpty
  · cases before with
    | nil => simp at isPoint
    | cons symbol before => simp at isPoint

theorem Ends.iterate_suffix {name before behind : Text} (isName : name = before ++ '.' :: behind)
    (plain : '/' ∉ name) (isLast : '.' ∉ behind) (stem : before ≠ []) (suffix : behind ≠ [])
    (index : ℕ) : Ends ('.' :: behind) (next_name^[index + 1] name) := by
  induction index with
  | zero =>
    have whole : pathName name = before ++ '.' :: behind := by
      obtain ⟨symbol, init, rfl⟩ := List.exists_cons_of_ne_nil stem
      rw [pathName_of_not_mem plain, if_neg (by simp [isName]), isName]
    have ends := Ends.next_of_suffix plain
    rwa [whole, stemSuffix_append isLast, if_neg (by simp [stem, suffix])] at ends
  | succ index ih =>
    rw [Function.iterate_succ_apply']
    obtain ⟨plain, later, isLater⟩ := ih
    have ends := Ends.next_of_suffix plain
    have whole : pathName (next_name^[index + 1] name) = (later ++ [')']) ++ '.' :: behind := by
      rw [isLater, pathName_of_ends (isLater ▸ plain)]
      simp
    rwa [whole, stemSuffix_append isLast, if_neg (by simp [suffix])] at ends

theorem Ends.iterate {name : Text} (plain : '/' ∉ name)
    (without : (stemSuffix (pathName name)).2 = []) (index : ℕ) :
    Ends [] (next_name^[index + 1] name) := by
  induction index with
  | zero => exact without ▸ Ends.next_of_suffix plain
  | succ index ih =>
    rw [Function.iterate_succ_apply']
    obtain ⟨plain, later, isLater⟩ := ih
    obtain ⟨isPlain, before, isNext⟩ := Ends.next_of_suffix plain
    refine ⟨isPlain, ?_⟩
    have whole := stemSuffix_join (pathName (next_name^[index + 1] name))
    rw [isLater, pathName_of_ends (isLater ▸ plain), ← isLater] at whole
    rw [isLater, pathName_of_ends (isLater ▸ plain), ← isLater] at isNext
    -- the suffix is empty or has the closing parenthesis at its end
    rcases List.eq_nil_or_concat (stemSuffix (next_name^[index + 1] name)).2 with
      isEmpty | ⟨init, last, isSuffix⟩
    · exact ⟨before, by rw [isNext, isEmpty]⟩
    · have lasts := congrArg List.getLast? whole
      rw [isSuffix, isLater] at lasts
      obtain rfl : last = ')' := by simpa using lasts
      exact ⟨before ++ ')' :: init, by rw [isNext, isSuffix]; simp⟩

theorem next_name_starts {rest : Text} (plain : '/' ∉ '.' :: rest) (nonempty : rest ≠ []) :
    ∃ later, next_name ('.' :: rest) = '.' :: later ∧ later ≠ [] := by
  have whole : pathName ('.' :: rest) = '.' :: rest := by
    rw [pathName_of_not_mem plain, if_neg (by simp [nonempty])]
  obtain ⟨counted, isNext⟩ := next_name_eq ('.' :: rest)
  have joined := stemSuffix_join ('.' :: rest)
  have isStem := stem_ne_nil (List.cons_ne_nil '.' rest)
  rw [whole] at isNext
  obtain ⟨symbol, stem, stemIs⟩ := List.exists_cons_of_ne_nil isStem
  rw [stemIs, List.cons_append] at joined
  obtain rfl : symbol = '.' := (List.cons.inj joined).1
  rw [stemIs] at isNext
  have starts : ∃ later, (split_name_counter ('.' :: stem)).1 = '.' :: later := by
    rcases split_name_counter_spec ('.' :: stem) with same | ⟨main, behind, isMain, same⟩
    · exact ⟨stem, same⟩
    · cases main with
      | nil => exact absurd (List.cons.inj isMain).1 (by decide)
      | cons symbol main =>
        obtain rfl : '.' = symbol := (List.cons.inj isMain).1
        rw [same, List.reverse_cons, List.dropWhile_append]
        split
        · exact ⟨[], rfl⟩
        · exact ⟨_, by rw [List.reverse_append]; rfl⟩
  obtain ⟨later, isLater⟩ := starts
  rw [isLater] at isNext
  exact ⟨_, isNext, by simp⟩

theorem iterate_starts {rest : Text} (plain : '/' ∉ '.' :: rest) (nonempty : rest ≠ [])
    (index : ℕ) : ∃ later, next_name^[index] ('.' :: rest) = '.' :: later ∧ later ≠ [] ∧
      '/' ∉ '.' :: later := by
  induction index with
  | zero => exact ⟨rest, rfl, nonempty, plain⟩
  | succ index ih =>
    obtain ⟨later, isLater, laterNonempty, plainLater⟩ := ih
    obtain ⟨next, isNext, nextNonempty⟩ := next_name_starts plainLater laterNonempty
    refine ⟨next, ?_, nextNonempty, isNext ▸ not_mem_next_name plainLater⟩
    rw [Function.iterate_succ_apply', isLater, isNext]

theorem trimEnd_append (name ending : Text) : trimEnd (name ++ ending) ending = name := by
  rw [trimEnd, if_pos (List.suffix_append _ _), List.length_append, Nat.add_sub_cancel,
    List.take_left]

theorem filepathBase_of_not_mem {name : Text} (plain : '/' ∉ name) (nonempty : name ≠ []) :
    filepathBase name = name := by
  have others : ∀ char ∈ name.reverse, char ≠ '/' := by
    rintro char isMem rfl
    exact plain (List.mem_reverse.mp isMem)
  have kept : name.reverse.dropWhile (· = '/') = name.reverse := by
    cases reversed : name.reverse with
    | nil => rfl
    | cons symbol rest =>
      have isOther := others symbol (reversed ▸ List.mem_cons_self)
      exact List.dropWhile_cons_of_neg (by simpa using isOther)
  have taken : name.reverse.takeWhile (· ≠ '/') = name.reverse :=
    List.takeWhile_eq_self_iff.mpr fun char isMem => by simpa using others char isMem
  simp only [filepathBase, kept, taken, List.reverse_reverse]
  rw [if_neg nonempty, if_neg nonempty]

theorem newName_of_not_mem {name : Text} (plain : '/' ∉ name) (nonempty : name ≠ [])
    (without : '.' ∉ name) (counter : ℕ) :
    newName name counter = name ++ '_' :: Nat.toDigits 10 counter := by
  have dropped : name.reverse.dropWhile (fun char => decide (char ≠ '.' ∧ char ≠ '/')) = [] := by
    rw [List.dropWhile_eq_nil_iff]
    intro char isMem
    rw [decide_eq_true_eq]
    constructor
    · rintro rfl
      exact without (List.mem_reverse.mp isMem)
    · rintro rfl
      exact plain (List.mem_reverse.mp isMem)
  have ext : filepathExt name = [] := by
    simp only [filepathExt, dropped]
  have trimmed := trimEnd_append name []
  rw [List.append_nil] at trimmed
  simp only [newName, ext, filepathBase_of_not_mem plain nonempty, trimmed, List.append_nil]

theorem newName_append {before behind : Text} (plain : '/' ∉ before ++ '.' :: behind)
    (isLast : '.' ∉ behind) (counter : ℕ) :
    newName (before ++ '.' :: behind) counter =
      before ++ '_' :: Nat.toDigits 10 counter ++ '.' :: behind := by
  have inside : ∀ char ∈ behind.reverse, decide (char ≠ '.' ∧ char ≠ '/') = true := by
    intro char isMem
    have isBehind := List.mem_reverse.mp isMem
    rw [decide_eq_true_eq]
    constructor
    · rintro rfl
      exact isLast isBehind
    · rintro rfl
      exact plain (List.mem_append_right _ (List.mem_cons_of_mem _ isBehind))
  have reversed : (before ++ '.' :: behind).reverse = behind.reverse ++ '.' :: before.reverse := by
    simp
  have ext : filepathExt (before ++ '.' :: behind) = '.' :: behind := by
    simp only [filepathExt, reversed, List.dropWhile_append_of_pos inside,
      List.takeWhile_append_of_pos inside]
    simp
  simp only [newName, ext, filepathBase_of_not_mem plain (by simp), trimEnd_append]

/-- The servers never give the same name to a file whose name is taken. -/
theorem iterate_ne_newName {name : Text} (plain : '/' ∉ name) (nonempty : name ≠ [])
    (index counter : ℕ) : next_name^[index + 1] name ≠ newName name counter := by
  obtain ⟨digits, last, isDigits, isOther⟩ : ∃ digits last,
      Nat.toDigits 10 counter = digits ++ [last] ∧ last ≠ ')' := by
    rcases List.eq_nil_or_concat (Nat.toDigits 10 counter) with isEmpty | ⟨digits, last, isDigits⟩
    · exact absurd isEmpty Nat.toDigits_ne_nil
    · rw [List.concat_eq_append] at isDigits
      refine ⟨digits, last, isDigits, ?_⟩
      rintro rfl
      have isMem : ')' ∈ Nat.toDigits 10 counter := isDigits ▸ by simp
      exact absurd (Nat.isDigit_of_mem_toDigits (by decide) (by decide) isMem) (by decide)
  -- without a suffix the one ends with a parenthesis, the other does not
  have closed (without : (stemSuffix (pathName name)).2 = []) {init : Text} {char : Char}
      (isOther : char ≠ ')') : next_name^[index + 1] name ≠ init ++ [char] := by
    obtain ⟨-, before, isNext⟩ := Ends.iterate plain without index
    rw [isNext]
    intro same
    exact isOther (List.append_inj' same rfl |>.2 |> List.cons.inj |>.1).symm
  by_cases isMem : '.' ∈ name
  · obtain ⟨before, behind, rfl, isLast⟩ := exists_last_point isMem
    rw [newName_append plain isLast, isDigits]
    by_cases suffix : behind = []
    · rw [suffix] at closed ⊢
      refine closed ?_ (by decide)
      have notInside : '.' ∉ ([] : Text) := List.not_mem_nil
      rw [pathName_of_not_mem (suffix ▸ plain)]
      split
      · rfl
      · rw [stemSuffix_append notInside, if_pos (.inr rfl)]
    · by_cases stem : before = []
      · subst stem
        obtain ⟨later, isNext, -⟩ := iterate_starts plain suffix (index + 1)
        rw [List.nil_append, isNext]
        exact fun same => absurd (List.cons.inj same).1 (by decide)
      · obtain ⟨-, init, isNext⟩ := Ends.iterate_suffix rfl plain isLast stem suffix index
        rw [isNext, ← List.singleton_append, ← List.append_assoc]
        intro same
        have ends := List.append_cancel_right same
        rw [← List.cons_append, ← List.append_assoc] at ends
        exact isOther (List.append_inj' ends rfl |>.2 |> List.cons.inj |>.1).symm
  · rw [newName_of_not_mem plain nonempty isMem, isDigits, ← List.cons_append, ← List.append_assoc]
    refine closed ?_ isOther
    rw [pathName_of_not_mem plain]
    split
    · rfl
    · rw [stemSuffix_of_not_mem isMem]

theorem exists_iterate_of_freeName {query : Text → Bool} {retries : ℕ} {name found : Text}
    (isFound : freeName query retries name = some found) :
    ∃ index, next_name^[index] name = found := by
  induction retries generalizing name with
  | zero => cases isFound
  | succ retries ih =>
    rw [freeName] at isFound
    split at isFound
    · obtain ⟨index, isNext⟩ := ih isFound
      exact ⟨index + 1, isNext⟩
    · exact ⟨0, Option.some.inj isFound⟩

theorem duplicate_name_of_free {query : Text → Bool} {name : Text} (isFree : query name = false) :
    duplicate_name query name = .ok name := by
  rw [duplicate_name, MAX_RETRIES, freeName, isFree]
  rfl

theorem duplicate_name_ne {query : Text → Bool} {name found : Text} (plain : '/' ∉ name)
    (nonempty : name ≠ []) (isTaken : query name = true)
    (isFound : duplicate_name query name = .ok found) (bound : ℕ) :
    found ≠ getUniqueFilename query bound name := by
  rw [duplicate_name, MAX_RETRIES, freeName, if_pos isTaken] at isFound
  rw [getUniqueFilename, if_pos isTaken]
  split at isFound
  · rename_i other isOther
    obtain ⟨index, isNext⟩ := exists_iterate_of_freeName isOther
    rw [← Except.ok.inj isFound, ← isNext, ← Function.iterate_succ_apply]
    exact iterate_ne_newName plain nonempty index _
  · cases isFound

end RagFlow.Names
