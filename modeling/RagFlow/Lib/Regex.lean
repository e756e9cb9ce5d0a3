import Mathlib.Data.List.Infix
import Mathlib.Data.List.TakeWhile
import RagFlow.Lib.Scan

/-!
# Regular expressions

Backtracking regular expressions as Python's `re` has them, without captures inside and without
looking around: what may be left of a text after a match, the match that is tried first at the
front.
-/

namespace RagFlow.Lib

inductive Regex
  | empty
  | char (accepts : Char → Bool)
  | seq (first second : Regex)
  | alt (first second : Regex)
  | star (body : Regex)
  | upTo (most : Nat) (body : Regex)
  | atEnd

namespace Regex

def iterate (step : List Char → List (List Char)) : Nat → List Char → List (List Char)
  | 0, text => [text]
  | most + 1, text => (step text).flatMap (iterate step most) ++ [text]

def remainders : Regex → List Char → List (List Char)
  | empty, text => [text]
  | char accepts, text =>
    match text with
    | [] => []
    | symbol :: rest => if accepts symbol then [rest] else []
  | seq first second, text => (first.remainders text).flatMap second.remainders
  | alt first second, text => first.remainders text ++ second.remainders text
  | star body, text => iterate body.remainders text.length text
  | upTo most body, text => iterate body.remainders most text
  -- `$` also stands before a newline that ends the text
  | atEnd, text => if text = [] ∨ text = ['\n'] then [text] else []

def isMatch (regex : Regex) (text : String) : Bool := !(regex.remainders text.toList).isEmpty

def isFullmatch (regex : Regex) (text : List Char) : Bool := (regex.remainders text).contains []

def isFound (regex : Regex) (text : String) : Bool :=
  text.toList.tails.any fun rest => !(regex.remainders rest).isEmpty

def matchAt (regex : Regex) (text : List Char) : Option (List Char × Nat) :=
  (regex.remainders text).head?.map fun rest =>
    (text.take (text.length - rest.length), text.length - rest.length)

def pieces : List (Char ⊕ List Char) → List (List Char)
  | [] => [[]]
  | .inl symbol :: tokens => (pieces tokens).modifyHead (symbol :: ·)
  | .inr found :: tokens => [] :: found :: pieces tokens

/-- `re.split` with the expression in parentheses. -/
def split (regex : Regex) (text : List Char) : List (List Char) :=
  pieces (Scan.scan regex.matchAt 0 text)

def findall (regex : Regex) (text : List Char) : List (List Char) :=
  Scan.found (Scan.scan regex.matchAt 0 text)

/-- `re.sub` with a text that refers to no group. -/
def sub (regex : Regex) (new text : List Char) : List Char :=
  Scan.replace (fun _ => new) (Scan.scan regex.matchAt 0 text)

def oneOf (symbols : String) : Regex := char fun symbol => symbols.toList.contains symbol

def noneOf (symbols : String) : Regex := char fun symbol => !symbols.toList.contains symbol

/-- `[a-b]` -/
def between (first last : Char) : Regex := char fun symbol => first ≤ symbol && symbol ≤ last

def literal (text : String) : Regex :=
  text.toList.foldr (fun symbol rest => seq (char (· = symbol)) rest) empty

def anyOf : List Regex → Regex
  | [] => char fun _ => false
  | [regex] => regex
  | regex :: others => alt regex (anyOf others)

def inOrder : List Regex → Regex
  | [] => empty
  | [regex] => regex
  | regex :: others => seq regex (inOrder others)

def plus (body : Regex) : Regex := seq body (star body)

def optional (body : Regex) : Regex := upTo 1 body

theorem suffix_of_mem_iterate {step : List Char → List (List Char)}
    (leaves : ∀ text, ∀ rest ∈ step text, rest <:+ text) (most : Nat) (text : List Char) :
    ∀ rest ∈ iterate step most text, rest <:+ text := by
  induction most generalizing text with
  | zero => simp [iterate]
  | succ most ih =>
    intro rest isMem
    rw [iterate, List.mem_append, List.mem_flatMap, List.mem_singleton] at isMem
    rcases isMem with ⟨next, isNext, isRest⟩ | rfl
    · exact (ih next rest isRest).trans (leaves text next isNext)
    · exact List.suffix_refl _

theorem suffix_of_mem_remainders (regex : Regex) (text : List Char) :
    ∀ rest ∈ regex.remainders text, rest <:+ text := by
  induction regex generalizing text with
  | empty => simp [remainders]
  | char accepts =>
    intro rest isMem
    cases text with
    | nil => cases isMem
    | cons symbol tail =>
      rw [remainders] at isMem
      split_ifs at isMem
      · rw [List.mem_singleton.mp isMem]
        exact List.suffix_cons symbol tail
      · cases isMem
  | seq first second inFirst inSecond =>
    intro rest isMem
    obtain ⟨next, isNext, isRest⟩ := List.mem_flatMap.mp isMem
    exact (inSecond next rest isRest).trans (inFirst text next isNext)
  | alt first second inFirst inSecond =>
    intro rest isMem
    rcases List.mem_append.mp isMem with isRest | isRest
    · exact inFirst text rest isRest
    · exact inSecond text rest isRest
  | star body inBody => exact suffix_of_mem_iterate inBody _ text
  | upTo most body inBody => exact suffix_of_mem_iterate inBody _ text
  | atEnd =>
    intro rest isMem
    rw [remainders] at isMem
    by_cases ends : text = [] ∨ text = ['\n']
    · rw [if_pos ends, List.mem_singleton] at isMem
      exact isMem ▸ List.suffix_refl text
    · rw [if_neg ends] at isMem
      cases isMem

theorem mem_remainders_literal {literal_ : String} {text rest : List Char} :
    rest ∈ (literal literal_).remainders text ↔ text = literal_.toList ++ rest := by
  rw [literal]
  induction literal_.toList generalizing text with
  | nil => simp [remainders, eq_comm]
  | cons symbol symbols ih =>
    rw [List.foldr_cons, remainders, List.mem_flatMap]
    constructor
    · rintro ⟨next, isNext, isRest⟩
      cases text with
      | nil => cases isNext
      | cons first text =>
        rw [remainders] at isNext
        split_ifs at isNext with same
        · rw [List.mem_singleton.mp isNext] at isRest
          rw [ih.mp isRest, of_decide_eq_true same, List.cons_append]
        · cases isNext
    · rintro rfl
      exact ⟨symbols ++ rest, by simp [remainders], ih.mpr rfl⟩

theorem mem_remainders_anyOf {regexes : List Regex} {text rest : List Char} :
    rest ∈ (anyOf regexes).remainders text ↔ ∃ regex ∈ regexes, rest ∈ regex.remainders text := by
  induction regexes with
  | nil =>
    simp only [List.not_mem_nil, false_and, exists_false, iff_false]
    cases text <;> simp [anyOf, remainders]
  | cons regex others ih =>
    cases others with
    | nil => simp [anyOf]
    | cons other others =>
      rw [anyOf, remainders, List.mem_append, ih]
      simp only [List.mem_cons, or_and_right, exists_or, exists_eq_left]
      simp

def Consumes (regex : Regex) : Prop := ∀ text, text ∉ regex.remainders text

theorem Consumes.length_lt {regex : Regex} (consumes : regex.Consumes) {text rest : List Char}
    (isMem : rest ∈ regex.remainders text) : rest.length < text.length := by
  have isSuffix := regex.suffix_of_mem_remainders text rest isMem
  apply Nat.lt_of_le_of_ne isSuffix.length_le
  intro same
  rw [isSuffix.eq_of_length same] at isMem
  exact consumes text isMem

theorem consumes_char (accepts : Char → Bool) : (char accepts).Consumes := by
  intro text isMem
  cases text with
  | nil => cases isMem
  | cons symbol rest =>
    rw [remainders] at isMem
    split_ifs at isMem
    · have lengths := congrArg List.length (List.mem_singleton.mp isMem)
      simp at lengths
    · cases isMem

theorem Consumes.seq {first : Regex} (consumes : first.Consumes) (second : Regex) :
    (seq first second).Consumes := by
  intro text isMem
  obtain ⟨next, isNext, isRest⟩ := List.mem_flatMap.mp isMem
  have shorter := consumes.length_lt isNext
  exact absurd (second.suffix_of_mem_remainders next text isRest).length_le (Nat.not_le.mpr shorter)

theorem Consumes.alt {first second : Regex} (consumesFirst : first.Consumes)
    (consumesSecond : second.Consumes) : (alt first second).Consumes := by
  intro text isMem
  rcases List.mem_append.mp isMem with isRest | isRest
  · exact consumesFirst text isRest
  · exact consumesSecond text isRest

theorem consumes_literal {text : String} (nonempty : text ≠ "") : (literal text).Consumes := by
  have nonempty : text.toList ≠ [] := by simpa using nonempty
  rw [literal]
  cases chars : text.toList with
  | nil => exact absurd chars nonempty
  | cons symbol rest => exact (consumes_char _).seq _

theorem Consumes.reads {regex : Regex} (consumes : regex.Consumes) :
    Scan.Reads regex.matchAt id := by
  have matched (text found : List Char) (length : Nat)
      (isMatch : regex.matchAt text = some (found, length)) :
      ∃ rest ∈ regex.remainders text, found = text.take length ∧
        length + rest.length = text.length ∧ 0 < length := by
    obtain ⟨rest, isHead, same⟩ := Option.map_eq_some_iff.mp isMatch
    have isMem := List.mem_of_head? isHead
    have shorter := consumes.length_lt isMem
    rw [Prod.mk.injEq] at same
    obtain ⟨rfl, rfl⟩ := same
    exact ⟨rest, isMem, rfl, by omega, by omega⟩
  constructor
  · intro text found length isMatch
    obtain ⟨rest, -, rfl, lengths, -⟩ := matched text found length isMatch
    refine ⟨?_, text.drop length, (List.take_append_drop length text).symm⟩
    rw [id, List.length_take]
    omega
  · intro text found length isMatch isEmpty
    obtain ⟨rest, -, rfl, lengths, positive⟩ := matched text found length isMatch
    have lengthZero := congrArg List.length isEmpty
    rw [id, List.length_take, List.length_nil] at lengthZero
    omega

theorem pieces_ne_nil (tokens : List (Char ⊕ List Char)) : pieces tokens ≠ [] := by
  induction tokens with
  | nil => simp [pieces]
  | cons token tokens ih =>
    cases token with
    | inl symbol => simpa [pieces] using ih
    | inr found => simp [pieces]

theorem length_pieces (tokens : List (Char ⊕ List Char)) :
    (pieces tokens).length = 2 * (Scan.found tokens).length + 1 := by
  induction tokens with
  | nil => rfl
  | cons token tokens ih =>
    cases token with
    | inl symbol => rw [pieces, List.length_modifyHead, Scan.found_inl, ih]
    | inr found =>
      rw [pieces, Scan.found_inr, List.length_cons, List.length_cons, List.length_cons,
        ih]
      omega

theorem flatten_pieces (tokens : List (Char ⊕ List Char)) :
    (pieces tokens).flatten = Scan.replace id tokens := by
  induction tokens with
  | nil => rfl
  | cons token tokens ih =>
    cases token with
    | inl symbol =>
      obtain ⟨first, others, parts⟩ := List.exists_cons_of_ne_nil (pieces_ne_nil tokens)
      rw [Scan.replace_inl, ← ih, pieces, parts]
      rfl
    | inr found =>
      rw [Scan.replace_inr, ← ih]
      rfl

theorem scan_char (accepts : Char → Bool) (text : List Char) :
    Scan.scan (char accepts).matchAt 0 text =
      text.map fun symbol => if accepts symbol then .inr [symbol] else .inl symbol := by
  induction text with
  | nil => rfl
  | cons symbol text ih =>
    rw [List.map_cons, ← ih]
    cases accepted : accepts symbol with
    | true =>
      have matched : (char accepts).matchAt (symbol :: text) = some ([symbol], 1) := by
        simp [matchAt, remainders, accepted]
      simp [Scan.scan, matched]
    | false =>
      have missed : (char accepts).matchAt (symbol :: text) = none := by
        simp [matchAt, remainders, accepted]
      simp [Scan.scan, missed]

theorem isFullmatch_char {accepts : Char → Bool} {text : List Char} :
    (char accepts).isFullmatch text = true ↔ ∃ symbol, accepts symbol = true ∧ text = [symbol] := by
  rcases text with _ | ⟨symbol, rest⟩
  · simp [isFullmatch, remainders]
  · cases accepted : accepts symbol with
    | true => cases rest <;> simp [isFullmatch, remainders, accepted]
    | false => cases rest <;> simp [isFullmatch, remainders, accepted]

theorem flatten_split {regex : Regex} (consumes : regex.Consumes) (text : List Char) :
    (regex.split text).flatten = text := by
  rw [split, flatten_pieces, consumes.reads.replace_scan]

def Extends (regex : Regex) : Prop :=
  ∀ text rest more, rest ∈ regex.remainders text → rest ++ more ∈ regex.remainders (text ++ more)

theorem extends_char (accepts : Char → Bool) : (char accepts).Extends := by
  intro text rest more isMem
  cases text with
  | nil => cases isMem
  | cons symbol text =>
    rw [remainders] at isMem
    rw [List.cons_append, remainders]
    split_ifs at isMem ⊢
    · rw [List.mem_singleton.mp isMem]
      exact List.mem_singleton_self _
    · cases isMem

theorem Extends.seq {first second : Regex} (extendsFirst : first.Extends)
    (extendsSecond : second.Extends) : (seq first second).Extends := by
  intro text rest more isMem
  obtain ⟨next, isNext, isRest⟩ := List.mem_flatMap.mp isMem
  exact List.mem_flatMap.mpr
    ⟨next ++ more, extendsFirst _ _ _ isNext, extendsSecond _ _ _ isRest⟩

theorem Extends.alt {first second : Regex} (extendsFirst : first.Extends)
    (extendsSecond : second.Extends) : (alt first second).Extends := by
  intro text rest more isMem
  rcases List.mem_append.mp isMem with isRest | isRest
  · exact List.mem_append_left _ (extendsFirst _ _ _ isRest)
  · exact List.mem_append_right _ (extendsSecond _ _ _ isRest)

theorem Extends.matchAt_eq_none {regex : Regex} (isExtended : regex.Extends)
    {text more : List Char} (missed : regex.matchAt (text ++ more) = none) :
    regex.matchAt text = none := by
  rw [matchAt, Option.map_eq_none_iff, List.head?_eq_none_iff] at missed ⊢
  apply List.eq_nil_iff_forall_not_mem.mpr
  intro rest isMem
  have longer := isExtended text rest more isMem
  rw [missed] at longer
  cases longer

def Unmatched (regex : Regex) (part rest : List Char) : Prop :=
  ∀ inside, inside ≠ [] → inside <:+ part → regex.matchAt (inside ++ rest) = none

theorem unmatched_cons {regex : Regex} {symbol : Char} {part rest : List Char}
    (missed : regex.matchAt (symbol :: part ++ rest) = none) (later : regex.Unmatched part rest) :
    regex.Unmatched (symbol :: part) rest := by
  intro inside nonempty isSuffix
  rcases List.suffix_cons_iff.mp isSuffix with rfl | isSuffix
  · exact missed
  · exact later inside nonempty isSuffix

theorem split_cases {regex : Regex} (consumes : regex.Consumes) (text : List Char) :
    ∃ first others, regex.split text = first :: others ∧
      (∃ rest, text = first ++ rest ∧ regex.Unmatched first rest) ∧
      ∀ part ∈ others, (∃ rest length, regex.matchAt rest = some (part, length)) ∨
        ∃ rest, regex.Unmatched part rest := by
  have nothing (rest : List Char) : regex.Unmatched [] rest := fun inside nonempty isSuffix =>
    absurd (List.suffix_nil.mp isSuffix) nonempty
  induction text using consumes.reads.induction with
  | nil => exact ⟨[], [], rfl, ⟨[], rfl, nothing []⟩, by simp⟩
  | missed symbol text here ih =>
    obtain ⟨first, others, parts, ⟨rest, whole, unmatched⟩, later⟩ := ih
    refine ⟨symbol :: first, others, ?_, ⟨rest, by rw [whole, List.cons_append], ?_⟩, later⟩
    · rw [split] at parts ⊢
      rw [Scan.scan_of_none here, pieces, parts]
      rfl
    · exact unmatched_cons (by rwa [List.cons_append, ← whole]) unmatched
  | matched found text here ih =>
    obtain ⟨first, others, parts, ⟨rest, whole, unmatched⟩, later⟩ := ih
    refine ⟨[], found :: first :: others, ?_, ⟨_, rfl, nothing _⟩, ?_⟩
    · rw [split] at parts ⊢
      have scanned := Scan.scan_of_some here rfl (consumes.reads.nonempty _ _ _ here)
      rw [id] at scanned ⊢
      rw [scanned, pieces, parts]
    · intro part isPart
      rcases List.mem_cons.mp isPart with rfl | isPart
      · exact Or.inl ⟨_, _, here⟩
      · rcases List.mem_cons.mp isPart with rfl | isPart
        · exact Or.inr ⟨rest, unmatched⟩
        · exact later part isPart

theorem eq_of_matchAt_literal {word : String} {text found : List Char} {length : Nat}
    (matched : (literal word).matchAt text = some (found, length)) : found = word.toList := by
  obtain ⟨rest, isHead, same⟩ := Option.map_eq_some_iff.mp matched
  obtain rfl := mem_remainders_literal.mp (List.mem_of_head? isHead)
  rw [← (Prod.mk.inj same).1, List.length_append, Nat.add_sub_cancel, List.take_left']
  rfl

theorem Unmatched.not_infix {word : String} {part rest : List Char}
    (unmatched : (literal word).Unmatched part rest) (nonempty : word ≠ "") :
    ¬ word.toList <:+: part := by
  rintro ⟨before, after, rfl⟩
  have missed := unmatched (word.toList ++ after) (by simp [nonempty])
    ⟨before, (List.append_assoc ..).symm⟩
  have isMem : after ++ rest ∈ (literal word).remainders (word.toList ++ after ++ rest) :=
    mem_remainders_literal.mpr (List.append_assoc ..)
  rw [matchAt, Option.map_eq_none_iff, List.head?_eq_none_iff] at missed
  rw [missed] at isMem
  cases isMem

theorem remainders_star_char {accepts : Char → Bool} {run rest : List Char}
    (accepted : ∀ char ∈ run, accepts char = true)
    (stops : ∀ char ∈ rest.head?, accepts char = false) :
    (star (char accepts)).remainders (run ++ rest) = (run.tails.map (· ++ rest)).reverse := by
  have iterated (most : Nat) (enough : run.length ≤ most) :
      iterate (char accepts).remainders most (run ++ rest) =
        (run.tails.map (· ++ rest)).reverse := by
    induction run generalizing most with
    | nil =>
      cases most with
      | zero => rfl
      | succ most =>
        cases rest with
        | nil => rfl
        | cons symbol rest =>
          have rejected : accepts symbol = false := stops symbol rfl
          simp [iterate, remainders, rejected]
    | cons symbol run ih =>
      rw [List.forall_mem_cons] at accepted
      cases most with
      | zero => cases enough
      | succ most =>
        rw [List.cons_append, iterate, remainders, if_pos accepted.1, List.flatMap_singleton,
          ih accepted.2 most (Nat.le_of_succ_le_succ enough)]
        simp
  exact iterated _ (by simp)

theorem remainders_star_char_eq_cons {accepts : Char → Bool} {run rest : List Char}
    (accepted : ∀ char ∈ run, accepts char = true)
    (stops : ∀ char ∈ rest.head?, accepts char = false) :
    ∃ others, (star (char accepts)).remainders (run ++ rest) = rest :: others := by
  rw [remainders_star_char accepted stops]
  clear accepted
  induction run with
  | nil => exact ⟨[], rfl⟩
  | cons symbol run ih =>
    obtain ⟨others, same⟩ := ih
    refine ⟨others ++ [symbol :: run ++ rest], ?_⟩
    rw [List.tails_cons, List.map_cons, List.reverse_cons, same, List.cons_append]

theorem remainders_plus_char {accepts : Char → Bool} {next : Regex} {run rest : List Char}
    (nonempty : run ≠ []) (accepted : ∀ char ∈ run, accepts char = true)
    (stops : ∀ char ∈ rest.head?, accepts char = false)
    (missed : ∀ inside, inside ≠ [] → inside <:+ run → next.remainders (inside ++ rest) = []) :
    (seq (plus (char accepts)) next).remainders (run ++ rest) = next.remainders rest := by
  obtain ⟨symbol, run, rfl⟩ := List.exists_cons_of_ne_nil nonempty
  rw [List.forall_mem_cons] at accepted
  have first : (plus (char accepts)).remainders (symbol :: run ++ rest) =
      (run.tails.map (· ++ rest)).reverse := by
    rw [plus, remainders, List.cons_append, remainders, if_pos accepted.1, List.flatMap_singleton,
      remainders_star_char accepted.2 stops]
  have others : ∀ inside ∈ run.tails, inside ≠ [] → next.remainders (inside ++ rest) = [] :=
    fun inside isTail isInside => missed inside isInside
      (((List.mem_tails _ _).mp isTail).trans (List.suffix_cons symbol run))
  rw [remainders, first]
  clear missed first accepted nonempty
  induction run with
  | nil => simp
  | cons second run ih =>
    have whole := others (second :: run) (by simp) (by simp)
    rw [List.tails_cons, List.map_cons, List.reverse_cons, List.flatMap_append,
      List.flatMap_singleton, whole, List.append_nil]
    exact ih fun inside isTail => others inside (by simp [isTail])

theorem remainders_plus_char_eq_nil {accepts : Char → Bool} {next : Regex} {run rest : List Char}
    (accepted : ∀ char ∈ run, accepts char = true)
    (stops : ∀ char ∈ rest.head?, accepts char = false)
    (missed : ∀ inside, inside <:+ run → next.remainders (inside ++ rest) = []) :
    (seq (plus (char accepts)) next).remainders (run ++ rest) = [] := by
  cases run with
  | nil =>
    cases rest with
    | nil => rfl
    | cons symbol rest =>
      have rejected : accepts symbol = false := stops symbol rfl
      simp [remainders, plus, rejected]
  | cons symbol run =>
    rw [remainders_plus_char (List.cons_ne_nil _ _) accepted stops
      fun inside _ isSuffix => missed inside isSuffix]
    exact missed [] List.nil_suffix

def Stops (regex : Regex) (boundary : Char) : Prop :=
  ∀ text rest, regex.remainders (text ++ boundary :: rest) =
    (regex.remainders text).map (· ++ boundary :: rest)

variable {boundary : Char}

theorem stops_char {accepts : Char → Bool} (rejected : accepts boundary = false) :
    (char accepts).Stops boundary := by
  intro text rest
  cases text with
  | nil => simp [remainders, rejected]
  | cons symbol text =>
    rw [List.cons_append, remainders, remainders]
    split_ifs <;> rfl

theorem Stops.seq {first second : Regex} (stopsFirst : first.Stops boundary)
    (stopsSecond : second.Stops boundary) : (seq first second).Stops boundary := by
  intro text rest
  rw [remainders, remainders, stopsFirst, List.flatMap_map, List.map_flatMap]
  exact congrArg (List.flatMap · (first.remainders text)) (funext fun next => stopsSecond next rest)

theorem Stops.star {body : Regex} (stops : body.Stops boundary) (consumes : body.Consumes) :
    (star body).Stops boundary := by
  have iterated (length : Nat) (text rest : List Char) (isLength : text.length = length)
      (most more : Nat) (enough : length ≤ most) (enoughMore : length ≤ more) :
      iterate body.remainders more (text ++ boundary :: rest) =
        (iterate body.remainders most text).map (· ++ boundary :: rest) := by
    induction length using Nat.strongRecOn generalizing text most more with
    | _ length ih =>
      have nothing : text = [] → body.remainders text = [] := by
        rintro rfl
        apply List.eq_nil_iff_forall_not_mem.mpr
        intro next isNext
        exact absurd (consumes.length_lt isNext) (Nat.not_lt_zero _)
      cases more with
      | zero =>
        obtain rfl : text = [] := List.eq_nil_of_length_eq_zero (by omega)
        cases most <;> simp [iterate, nothing rfl]
      | succ more =>
        cases most with
        | zero =>
          obtain rfl : text = [] := List.eq_nil_of_length_eq_zero (by omega)
          have stopped := stops [] rest
          rw [nothing rfl, List.nil_append] at stopped
          simp [iterate, stopped]
        | succ most =>
          rw [iterate, iterate, stops, List.flatMap_map, List.map_append, List.map_flatMap]
          refine congrArg₂ (· ++ ·) ?_ rfl
          apply List.flatMap_congr
          intro next isNext
          have shorter := consumes.length_lt isNext
          exact ih next.length (by omega) next rfl most more (by omega)
            (by omega)
  intro text rest
  exact iterated _ text rest rfl _ _ (Nat.le_refl _) (by simp)

theorem Stops.plus {body : Regex} (stops : body.Stops boundary) (consumes : body.Consumes) :
    (plus body).Stops boundary := stops.seq (stops.star consumes)

theorem matchAt_append_of_remainders {regex : Regex} {text more : List Char}
    (same : regex.remainders (text ++ more) = (regex.remainders text).map (· ++ more)) :
    regex.matchAt (text ++ more) = regex.matchAt text := by
  rw [matchAt, matchAt, same, List.head?_map]
  cases ends : (regex.remainders text).head? with
  | none => rfl
  | some rest =>
    have isSuffix := regex.suffix_of_mem_remainders text rest (List.mem_of_head? ends)
    have length : (text ++ more).length - (rest ++ more).length = text.length - rest.length := by
      simp only [List.length_append]
      omega
    simp only [Option.map_some, length]
    rw [List.take_append_of_le_length (Nat.sub_le ..)]

theorem matchAt_eq_none {regex : Regex} {text : List Char} :
    regex.matchAt text = none ↔ regex.remainders text = [] := by
  rw [matchAt, Option.map_eq_none_iff, List.head?_eq_none_iff]

theorem matchAt_of_cons {regex : Regex} {text rest : List Char} {others : List (List Char)}
    (remainders_eq : regex.remainders (text ++ rest) = rest :: others) :
    regex.matchAt (text ++ rest) = some (text, text.length) := by
  simp [matchAt, remainders_eq]

theorem matchAt_of_remainders {regex : Regex} {text rest : List Char}
    (remainders_eq : regex.remainders (text ++ rest) = [rest]) :
    regex.matchAt (text ++ rest) = some (text, text.length) := matchAt_of_cons remainders_eq

theorem matchAt_of_unique {regex : Regex} {text rest : List Char}
    (isMem : rest ∈ regex.remainders (text ++ rest))
    (unique : ∀ other ∈ regex.remainders (text ++ rest), other = rest) :
    regex.matchAt (text ++ rest) = some (text, text.length) := by
  obtain ⟨first, others, same⟩ := List.exists_cons_of_ne_nil (List.ne_nil_of_mem isMem)
  obtain rfl := unique first (same ▸ List.mem_cons_self)
  exact matchAt_of_cons same

theorem stops_literal {text : String} (rejected : boundary ∉ text.toList) :
    (literal text).Stops boundary := by
  rw [literal]
  generalize text.toList = symbols at rejected
  induction symbols with
  | nil => intro text rest; simp [remainders]
  | cons symbol symbols ih =>
    rw [List.mem_cons, not_or] at rejected
    exact (stops_char (by simp [rejected.1])).seq (ih rejected.2)

theorem mem_remainders_seq {first second : Regex} {text rest : List Char} :
    rest ∈ (seq first second).remainders text ↔
      ∃ next ∈ first.remainders text, rest ∈ second.remainders next := List.mem_flatMap

theorem mem_remainders_char {accepts : Char → Bool} {text rest : List Char} :
    rest ∈ (char accepts).remainders text ↔
      ∃ symbol, accepts symbol = true ∧ text = symbol :: rest := by
  cases text with
  | nil => simp [remainders]
  | cons symbol tail =>
    rw [remainders]
    split_ifs with accepted
    · simp only [List.mem_singleton, List.cons.injEq]
      exact ⟨fun same => ⟨symbol, accepted, rfl, same.symm⟩, fun ⟨_, _, _, same⟩ => same.symm⟩
    · simp only [List.not_mem_nil, List.cons.injEq, false_iff]
      rintro ⟨_, accepted', rfl, _⟩
      exact accepted accepted'

theorem mem_remainders_star_char {accepts : Char → Bool} {text rest : List Char} :
    rest ∈ (star (char accepts)).remainders text ↔
      ∃ run, (∀ char ∈ run, accepts char = true) ∧ text = run ++ rest := by
  have stops : ∀ text : List Char, ∀ char ∈ (text.dropWhile accepts).head?,
      accepts char = false := by
    intro text char isHead
    have rejected := List.head?_dropWhile_not accepts text
    rw [Option.mem_def.mp isHead] at rejected
    simpa using rejected
  have taken : ∀ text : List Char, ∀ char ∈ text.takeWhile accepts, accepts char = true :=
    fun text char isMem => List.mem_takeWhile_imp isMem
  constructor
  · intro isMem
    rw [← text.takeWhile_append_dropWhile (p := accepts),
      remainders_star_char (taken text) (stops text), List.mem_reverse, List.mem_map] at isMem
    obtain ⟨inside, isTail, rfl⟩ := isMem
    obtain ⟨run, split⟩ := (List.mem_tails _ _).mp isTail
    refine ⟨run, fun char isMem => taken text char ?_, ?_⟩
    · exact split ▸ List.mem_append_left _ isMem
    · rw [← List.append_assoc, split, List.takeWhile_append_dropWhile]
  · rintro ⟨run, accepted, rfl⟩
    have whole : run ++ rest = run ++ rest.takeWhile accepts ++ rest.dropWhile accepts := by
      rw [List.append_assoc, List.takeWhile_append_dropWhile]
    rw [whole, remainders_star_char ?_ (stops rest), List.mem_reverse, List.mem_map]
    · refine ⟨rest.takeWhile accepts, (List.mem_tails _ _).mpr (List.suffix_append ..), ?_⟩
      exact List.takeWhile_append_dropWhile
    · exact List.forall_mem_append.mpr ⟨accepted, taken rest⟩

theorem mem_remainders_plus_char {accepts : Char → Bool} {text rest : List Char} :
    rest ∈ (plus (char accepts)).remainders text ↔
      ∃ run, run ≠ [] ∧ (∀ char ∈ run, accepts char = true) ∧ text = run ++ rest := by
  rw [plus, mem_remainders_seq]
  constructor
  · rintro ⟨next, isNext, isRest⟩
    obtain ⟨symbol, accepted, rfl⟩ := mem_remainders_char.mp isNext
    obtain ⟨run, all, rfl⟩ := mem_remainders_star_char.mp isRest
    exact ⟨symbol :: run, List.cons_ne_nil _ _, List.forall_mem_cons.mpr ⟨accepted, all⟩, rfl⟩
  · rintro ⟨run, nonempty, all, rfl⟩
    obtain ⟨symbol, run, rfl⟩ := List.exists_cons_of_ne_nil nonempty
    rw [List.forall_mem_cons] at all
    exact ⟨run ++ rest, mem_remainders_char.mpr ⟨symbol, all.1, rfl⟩,
      mem_remainders_star_char.mpr ⟨run, all.2, rfl⟩⟩

def Ignores (change : Char → Char) : Regex → Prop
  | empty => True
  | char accepts => ∀ symbol, accepts (change symbol) = accepts symbol
  | seq first second => first.Ignores change ∧ second.Ignores change
  | alt first second => first.Ignores change ∧ second.Ignores change
  | star body => body.Ignores change
  | upTo _ body => body.Ignores change
  | atEnd => ∀ symbol, change symbol = '\n' ↔ symbol = '\n'

theorem ignores_literal {change : Char → Char} {text : String}
    (ignored : ∀ symbol ∈ text.toList, (char (· = symbol)).Ignores change) :
    (literal text).Ignores change := by
  rw [literal]
  generalize text.toList = symbols at ignored
  induction symbols with
  | nil => exact trivial
  | cons symbol symbols ih =>
    rw [List.forall_mem_cons] at ignored
    exact ⟨ignored.1, ih ignored.2⟩

theorem iterate_map {change : Char → Char} {step : List Char → List (List Char)}
    (commutes : ∀ text, step (text.map change) = (step text).map (List.map change))
    (most : Nat) (text : List Char) :
    iterate step most (text.map change) = (iterate step most text).map (List.map change) := by
  induction most generalizing text with
  | zero => rfl
  | succ most ih =>
    simp only [iterate, commutes, List.flatMap_map, ih, List.map_append,
      List.map_flatMap, List.map_cons, List.map_nil]

theorem remainders_map {change : Char → Char} {regex : Regex} (ignores : regex.Ignores change)
    (text : List Char) :
    regex.remainders (text.map change) = (regex.remainders text).map (List.map change) := by
  induction regex generalizing text with
  | empty => rfl
  | char accepts =>
    cases text with
    | nil => rfl
    | cons symbol rest =>
      rw [List.map_cons, remainders, remainders, ignores symbol]
      split_ifs <;> rfl
  | seq first second inFirst inSecond =>
    simp only [remainders, inFirst ignores.1, List.flatMap_map, inSecond ignores.2,
      List.map_flatMap]
  | alt first second inFirst inSecond =>
    simp only [remainders, inFirst ignores.1, inSecond ignores.2, List.map_append]
  | star body inBody =>
    simp only [remainders, List.length_map]
    exact iterate_map (inBody ignores) _ text
  | upTo most body inBody => exact iterate_map (inBody ignores) most text
  | atEnd =>
    have same : (text.map change = [] ∨ text.map change = ['\n']) ↔
        (text = [] ∨ text = ['\n']) := by
      cases text with
      | nil => simp
      | cons symbol rest => simp [ignores symbol]
    rw [remainders, remainders]
    simp only [same]
    split_ifs <;> rfl

theorem matchAt_map {change : Char → Char} {regex : Regex} (ignores : regex.Ignores change)
    (text : List Char) :
    regex.matchAt (text.map change) =
      (regex.matchAt text).map fun (found, length) => (found.map change, length) := by
  rw [matchAt, matchAt, remainders_map ignores, List.head?_map]
  cases (regex.remainders text).head? with
  | none => rfl
  | some rest => simp [List.map_take]

end Regex

end RagFlow.Lib
