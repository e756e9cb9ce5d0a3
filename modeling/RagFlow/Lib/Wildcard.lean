import Mathlib.Data.List.Infix

/-!
# Wildcard patterns

In a pattern `*` stands for any text, `?` for any character and `\` makes the character behind it
stand for itself.  Characters are compared after `fold`, which may forget their case.
-/

namespace RagFlow.Lib.Wildcard

variable (fold : Char → Char)

def reads (accepts : Char → Bool) (rest : List Char → Bool) : List Char → Bool
  | [] => false
  | char :: text => accepts char && rest text

def matchText : List Char → List Char → Bool
  | [], text => text.isEmpty
  | '*' :: pattern, text => text.tails.any fun rest => matchText pattern rest
  | '?' :: pattern, text => reads (fun _ => true) (fun rest => matchText pattern rest) text
  | '\\' :: escaped :: pattern, text =>
    reads (fun char => fold escaped = fold char) (fun rest => matchText pattern rest) text
  | char :: pattern, text =>
    reads (fun other => fold char = fold other) (fun rest => matchText pattern rest) text

def special (char : Char) : Bool := char = '\\' || char = '*' || char = '?'

def escapeChar (char : Char) : List Char :=
  if special char then ['\\', char] else [char]

def escape (text : List Char) : List Char := text.flatMap escapeChar

variable {fold}

@[simp] theorem matchText_nil {text : List Char} : matchText fold [] text = true ↔ text = [] := by
  simp [matchText]

theorem matchText_star {pattern text : List Char} :
    matchText fold ('*' :: pattern) text = true ↔
      ∃ rest, rest <:+ text ∧ matchText fold pattern rest = true := by
  simp only [matchText, List.any_eq_true, List.mem_tails]

@[simp] theorem matchText_star_nil {text : List Char} : matchText fold ['*'] text = true := by
  apply matchText_star.mpr
  exact ⟨[], List.nil_suffix, by simp⟩

theorem matchText_escapeChar_append (char : Char) (pattern text : List Char) :
    matchText fold (escapeChar char ++ pattern) text =
      reads (fun other => fold char = fold other) (fun rest => matchText fold pattern rest)
        text := by
  by_cases isSpecial : special char = true
  · simp [escapeChar, isSpecial, matchText]
  · have plain : char ≠ '\\' ∧ char ≠ '*' ∧ char ≠ '?' := by
      simpa [special, and_assoc] using isSpecial
    simp only [escapeChar, isSpecial, Bool.false_eq_true, if_false, List.singleton_append]
    rw [matchText]
    · exact plain.2.1
    · exact plain.2.2
    · exact fun _ _ isEscape _ => plain.1 isEscape

theorem matchText_escape_append {literal pattern text : List Char} :
    matchText fold (escape literal ++ pattern) text = true ↔
      ∃ found rest, text = found ++ rest ∧ found.map fold = literal.map fold ∧
        matchText fold pattern rest = true := by
  induction literal generalizing text with
  | nil => simp [escape]
  | cons char literal ih =>
    have split : escape (char :: literal) ++ pattern =
        escapeChar char ++ (escape literal ++ pattern) := by simp [escape]
    rw [split, matchText_escapeChar_append]
    cases text with
    | nil => simp [reads]
    | cons other text =>
      simp only [reads, Bool.and_eq_true, decide_eq_true_eq, ih,
        List.map_cons]
      constructor
      · rintro ⟨sameChar, found, rest, rfl, sameText, matched⟩
        exact ⟨other :: found, rest, rfl, by simp [sameChar, sameText], matched⟩
      · rintro ⟨found, rest, isText, sameText, matched⟩
        cases found with
        | nil => simp at sameText
        | cons first found =>
          obtain ⟨rfl, rfl⟩ := List.cons.inj isText
          obtain ⟨sameChar, sameRest⟩ := List.cons.inj sameText
          exact ⟨sameChar.symm, found, rest, rfl, sameRest, matched⟩

theorem matchText_star_escape {literal text : List Char} :
    matchText fold ('*' :: escape literal) text = true ↔
      literal.map fold <:+ text.map fold := by
  have whole : escape literal = escape literal ++ [] := by simp
  rw [matchText_star, whole]
  simp only [matchText_escape_append, matchText_nil]
  constructor
  · rintro ⟨_, ⟨before, rfl⟩, found, rest, rfl, same, rfl⟩
    exact ⟨before.map fold, by simp [same]⟩
  · rintro ⟨before, isText⟩
    obtain ⟨first, found, rfl, _, same⟩ := List.map_eq_append_iff.mp isText.symm
    exact ⟨found, List.suffix_append first found, found, [], by simp, same, rfl⟩

theorem matchText_star_escape_star {literal text : List Char} :
    matchText fold ('*' :: (escape literal ++ ['*'])) text = true ↔
      literal.map fold <:+: text.map fold := by
  rw [matchText_star]
  simp only [matchText_escape_append, matchText_star_nil, and_true]
  constructor
  · rintro ⟨_, ⟨before, rfl⟩, found, rest, rfl, same⟩
    exact ⟨before.map fold, rest.map fold, by simp [same]⟩
  · rintro ⟨before, after, isText⟩
    obtain ⟨first, rest, rfl, firstIs, restIs⟩ := List.map_eq_append_iff.mp isText.symm
    obtain ⟨_, found, rfl, _, same⟩ := List.map_eq_append_iff.mp firstIs
    refine ⟨found ++ rest, ?_, found, rest, rfl, same⟩
    rw [List.append_assoc]
    exact List.suffix_append _ _

end RagFlow.Lib.Wildcard
