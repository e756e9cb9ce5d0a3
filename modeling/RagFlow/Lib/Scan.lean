import Mathlib.Data.List.Basic

/-!
# Scanning for matches

Going through a text from left to right, a matcher is asked at every position that is not part of
an earlier match what it finds there and how long that is.
-/

namespace RagFlow.Lib.Scan

universe u v

variable {Symbol : Type u} {Found : Type v}

/-- The symbols outside all matches, and what was found, in order.  The symbols that are still to
be skipped belong to the last match. -/
def scan (matchAt : List Symbol → Option (Found × Nat)) :
    Nat → List Symbol → List (Symbol ⊕ Found)
  | _, [] => []
  | skip + 1, _ :: rest => scan matchAt skip rest
  | 0, symbol :: rest =>
    match matchAt (symbol :: rest) with
    | some (found, length) => .inr found :: scan matchAt (length - 1) rest
    | none => .inl symbol :: scan matchAt 0 rest

def replace (write : Found → List Symbol) (tokens : List (Symbol ⊕ Found)) : List Symbol :=
  tokens.flatMap fun token => token.elim (fun symbol => [symbol]) write

def found (tokens : List (Symbol ⊕ Found)) : List Found :=
  tokens.filterMap Sum.getRight?

def between : List (Symbol ⊕ Found) → List (List Symbol)
  | [] => [[]]
  | .inl symbol :: tokens => (between tokens).modifyHead (symbol :: ·)
  | .inr _ :: tokens => [] :: between tokens

def cutBehind (read : Found → List Symbol) (pending : List Symbol) :
    List (Symbol ⊕ Found) → List (List Symbol)
  | [] => if pending = [] then [] else [pending]
  | .inl symbol :: tokens => cutBehind read (pending ++ [symbol]) tokens
  | .inr item :: tokens => (pending ++ read item) :: cutBehind read [] tokens

variable {matchAt : List Symbol → Option (Found × Nat)} {write : Found → List Symbol}

@[simp] theorem scan_nil (skip : Nat) : scan matchAt skip [] = [] := by
  cases skip <;> rfl

@[simp] theorem replace_nil : replace write ([] : List (Symbol ⊕ Found)) = [] := rfl

@[simp] theorem replace_inl (symbol : Symbol) (tokens : List (Symbol ⊕ Found)) :
    replace write (.inl symbol :: tokens) = symbol :: replace write tokens := rfl

@[simp] theorem replace_inr (item : Found) (tokens : List (Symbol ⊕ Found)) :
    replace write (.inr item :: tokens) = write item ++ replace write tokens := rfl

@[simp] theorem found_nil : found ([] : List (Symbol ⊕ Found)) = [] := rfl

@[simp] theorem found_inl (symbol : Symbol) (tokens : List (Symbol ⊕ Found)) :
    found (.inl symbol :: tokens) = found tokens := rfl

@[simp] theorem found_inr (item : Found) (tokens : List (Symbol ⊕ Found)) :
    found (.inr item :: tokens) = item :: found tokens := rfl

theorem replace_append (first second : List (Symbol ⊕ Found)) :
    replace write (first ++ second) = replace write first ++ replace write second :=
  List.flatMap_append

@[simp] theorem replace_map_inl (text : List Symbol) :
    replace write (text.map .inl) = text := by
  induction text with
  | nil => rfl
  | cons symbol rest ih =>
    rw [List.map_cons, replace_inl, ih]

@[simp] theorem found_map_inl (text : List Symbol) :
    found (text.map .inl : List (Symbol ⊕ Found)) = [] := by
  induction text with
  | nil => rfl
  | cons symbol rest ih => rw [List.map_cons, found_inl, ih]

theorem found_append (first second : List (Symbol ⊕ Found)) :
    found (first ++ second) = found first ++ found second := List.filterMap_append ..

theorem replace_congr {other : Found → List Symbol} {tokens : List (Symbol ⊕ Found)}
    (same : ∀ item ∈ found tokens, write item = other item) :
    replace write tokens = replace other tokens := by
  induction tokens with
  | nil => rfl
  | cons token tokens ih =>
    cases token with
    | inl symbol => exact congrArg (symbol :: ·) (ih same)
    | inr item =>
      rw [found_inr, List.forall_mem_cons] at same
      rw [replace_inr, replace_inr, same.1, ih same.2]

theorem scan_skip (skip : Nat) (text : List Symbol) :
    scan matchAt skip text = scan matchAt 0 (text.drop skip) := by
  induction text generalizing skip with
  | nil => simp
  | cons symbol rest ih =>
    cases skip with
    | zero => rfl
    | succ skip => exact ih skip

theorem scan_of_none {symbol : Symbol} {rest : List Symbol}
    (missed : matchAt (symbol :: rest) = none) :
    scan matchAt 0 (symbol :: rest) = .inl symbol :: scan matchAt 0 rest := by
  simp [scan, missed]

theorem scan_of_some {text rest : List Symbol} {item : Found} {length : Nat}
    (matched : matchAt (text ++ rest) = some (item, length)) (isLength : text.length = length)
    (nonempty : text ≠ []) :
    scan matchAt 0 (text ++ rest) = .inr item :: scan matchAt 0 rest := by
  obtain ⟨symbol, tail, rfl⟩ := List.exists_cons_of_ne_nil nonempty
  rw [List.cons_append] at matched ⊢
  simp only [scan, matched]
  rw [scan_skip, ← isLength]
  simp

theorem exists_matchAt_of_mem_found {text : List Symbol} {skip : Nat} {item : Found}
    (isFound : item ∈ found (scan matchAt skip text)) :
    ∃ rest length, rest <:+ text ∧ matchAt rest = some (item, length) := by
  induction text generalizing skip with
  | nil => simp at isFound
  | cons symbol rest ih =>
    have later (skip : Nat) (isFound : item ∈ found (scan matchAt skip rest)) :
        ∃ tail length, tail <:+ symbol :: rest ∧ matchAt tail = some (item, length) := by
      obtain ⟨tail, length, isSuffix, matched⟩ := ih isFound
      exact ⟨tail, length, isSuffix.trans (List.suffix_cons symbol rest), matched⟩
    cases skip with
    | succ skip => exact later skip isFound
    | zero =>
      cases here : matchAt (symbol :: rest) with
      | none =>
        rw [scan_of_none here] at isFound
        exact later 0 isFound
      | some result =>
        simp only [scan, here, found_inr, List.mem_cons] at isFound
        rcases isFound with rfl | isFound
        · exact ⟨_, result.2, List.suffix_refl _, here⟩
        · exact later (result.2 - 1) isFound

/-- A matcher whose matches begin the text and are not empty. -/
structure Reads (matchAt : List Symbol → Option (Found × Nat)) (text : Found → List Symbol) :
    Prop where
  begins : ∀ symbols item length, matchAt symbols = some (item, length) →
    length = (text item).length ∧ ∃ rest, symbols = text item ++ rest
  nonempty : ∀ symbols item length, matchAt symbols = some (item, length) → text item ≠ []

theorem Reads.induction {text : Found → List Symbol} (reads : Reads matchAt text)
    {motive : List Symbol → Prop} (nil : motive [])
    (missed : ∀ symbol rest, matchAt (symbol :: rest) = none → motive rest →
      motive (symbol :: rest))
    (matched : ∀ item rest,
      matchAt (text item ++ rest) = some (item, (text item).length) → motive rest →
        motive (text item ++ rest))
    (symbols : List Symbol) : motive symbols := by
  induction size : symbols.length using Nat.strongRecOn generalizing symbols with
  | ind size ih =>
    subst size
    cases symbols with
    | nil => exact nil
    | cons symbol rest =>
      cases here : matchAt (symbol :: rest) with
      | none => exact missed symbol rest here (ih _ (by simp) rest rfl)
      | some result =>
        obtain ⟨item, length⟩ := result
        obtain ⟨rfl, after, split⟩ := reads.begins _ item length here
        have shorter : after.length < (symbol :: rest).length := by
          have positive := List.length_pos_iff.mpr (reads.nonempty _ item _ here)
          simp only [split, List.length_append]
          exact Nat.lt_add_of_pos_left positive
        rw [split] at here ⊢
        exact matched item after here (ih _ shorter after rfl)

theorem Reads.replace_scan {text : Found → List Symbol} (reads : Reads matchAt text)
    (symbols : List Symbol) : replace text (scan matchAt 0 symbols) = symbols := by
  induction symbols using reads.induction with
  | nil => simp
  | missed symbol rest here ih =>
    rw [scan_of_none here, replace_inl, ih]
  | matched item rest here ih =>
    rw [scan_of_some here rfl (reads.nonempty _ _ _ here), replace_inr, ih]

theorem between_ne_nil (tokens : List (Symbol ⊕ Found)) : between tokens ≠ [] := by
  induction tokens with
  | nil => simp [between]
  | cons token tokens ih =>
    cases token with
    | inl symbol => simpa [between] using ih
    | inr item => simp [between]

theorem intercalate_between (separator : List Symbol) (tokens : List (Symbol ⊕ Found)) :
    separator.intercalate (between tokens) = replace (fun _ => separator) tokens := by
  induction tokens with
  | nil => simp [between]
  | cons token tokens ih =>
    obtain ⟨first, others, parts⟩ := List.exists_cons_of_ne_nil (between_ne_nil tokens)
    cases token with
    | inl symbol =>
      rw [replace_inl, ← ih, between, parts, List.modifyHead_cons]
      cases others <;> simp
    | inr item =>
      rw [replace_inr, ← ih, between, parts, List.intercalate_cons_cons,
        List.nil_append]

theorem length_between (tokens : List (Symbol ⊕ Found)) :
    (between tokens).length = (found tokens).length + 1 := by
  induction tokens with
  | nil => rfl
  | cons token tokens ih =>
    cases token with
    | inl symbol => simpa [between] using ih
    | inr item => simpa [between] using ih

theorem flatten_cutBehind (read : Found → List Symbol) (pending : List Symbol)
    (tokens : List (Symbol ⊕ Found)) :
    (cutBehind read pending tokens).flatten = pending ++ replace read tokens := by
  induction tokens generalizing pending with
  | nil =>
    unfold cutBehind
    split_ifs with empty
    · simp [empty]
    · simp
  | cons token tokens ih =>
    cases token with
    | inl symbol => simp [cutBehind, ih]
    | inr item => simp [cutBehind, ih]

theorem scan_of_unmatched {text : List Symbol}
    (missed : ∀ inside, inside ≠ [] → inside <:+ text → matchAt inside = none) :
    scan matchAt 0 text = text.map .inl := by
  induction text with
  | nil => rfl
  | cons symbol rest ih =>
    rw [scan_of_none (missed _ (List.cons_ne_nil _ _) (List.suffix_refl _)), List.map_cons,
      ih fun inside nonempty isSuffix =>
        missed inside nonempty (isSuffix.trans (List.suffix_cons symbol rest))]

theorem scan_append {read : Found → List Symbol} (reads : Reads matchAt read)
    {text rest : List Symbol}
    (same : ∀ inside, inside ≠ [] → inside <:+ text → matchAt (inside ++ rest) = matchAt inside) :
    scan matchAt 0 (text ++ rest) = scan matchAt 0 text ++ scan matchAt 0 rest := by
  induction text using reads.induction with
  | nil => simp
  | missed symbol text here ih =>
    have whole := same (symbol :: text) (List.cons_ne_nil _ _) (List.suffix_refl _)
    rw [here, List.cons_append] at whole
    rw [List.cons_append, scan_of_none whole, scan_of_none here, List.cons_append,
      ih fun inside nonempty isSuffix =>
        same inside nonempty (isSuffix.trans (List.suffix_cons symbol text))]
  | matched item text here ih =>
    have nonempty := reads.nonempty _ _ _ here
    have whole := same (read item ++ text) (by simp [nonempty]) (List.suffix_refl _)
    rw [here, List.append_assoc] at whole
    rw [List.append_assoc, scan_of_some whole rfl nonempty, scan_of_some here rfl nonempty,
      List.cons_append, ih fun inside isInside isSuffix =>
        same inside isInside (isSuffix.trans (List.suffix_append ..))]

end RagFlow.Lib.Scan
