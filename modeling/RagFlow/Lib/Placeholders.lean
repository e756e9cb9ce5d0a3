import Mathlib.Logic.Function.Basic
import Mathlib.Order.Basic
import RagFlow.Lib.PyString

/-!
# Placeholders filled one after the other

A template is made of characters and of names, each written in some form.  Replacing the form of one
name in the whole text fills the places of that name, as long as the form stands nowhere else.
-/

namespace RagFlow.Lib.Placeholders

universe u

variable {Name : Type u} [DecidableEq Name]

abbrev Template (Name : Type u) := List (Char ⊕ Name)

def write (form : Name → List Char) (template : Template Name) : List Char :=
  template.flatMap fun token => token.elim (fun char => [char]) form

/-- Where the name stands in the text, counted from a start. -/
def places (form : Name → List Char) (name : Name) : Nat → Template Name → List Nat
  | _, [] => []
  | start, .inl _ :: rest => places form name (start + 1) rest
  | start, .inr other :: rest =>
    (if other = name then [start] else []) ++
      places form name (start + (form other).length) rest

def OnlyAt (pattern : List Char) (form : Name → List Char) (name : Name)
    (template : Template Name) : Prop :=
  ∀ place ∈ List.range (write form template).length,
    pattern <+: (write form template).drop place → place ∈ places form name 0 template

instance (pattern : List Char) (form : Name → List Char) (name : Name)
    (template : Template Name) : Decidable (OnlyAt pattern form name template) :=
  inferInstanceAs (Decidable (∀ place ∈ List.range (write form template).length,
    pattern <+: (write form template).drop place → place ∈ places form name 0 template))

def Undisturbed (pattern value : Name → List Char) (template : Template Name) :
    (Name → List Char) → List Name → Prop
  | _, [] => True
  | form, name :: names =>
    OnlyAt (pattern name) form name template ∧
      Undisturbed pattern value template (Function.update form name (value name)) names

instance decidableUndisturbed (pattern value : Name → List Char) (template : Template Name) :
    (form : Name → List Char) → (names : List Name) →
      Decidable (Undisturbed pattern value template form names)
  | _, [] => inferInstanceAs (Decidable True)
  | form, name :: names =>
    have := decidableUndisturbed pattern value template
      (Function.update form name (value name)) names
    inferInstanceAs (Decidable (_ ∧ _))

def replaceEach (pattern value : Name → List Char) (names : List Name) (text : List Char) :
    List Char :=
  names.foldl (fun text name => PyString.replace (pattern name) (value name) text) text

variable {pattern text : List Char} {form value : Name → List Char} {name : Name}

omit [DecidableEq Name] in
@[simp] theorem write_nil : write form ([] : Template Name) = [] := rfl

omit [DecidableEq Name] in
@[simp] theorem write_inl (char : Char) (rest : Template Name) :
    write form (.inl char :: rest) = char :: write form rest := rfl

omit [DecidableEq Name] in
@[simp] theorem write_inr (other : Name) (rest : Template Name) :
    write form (.inr other :: rest) = form other ++ write form rest := rfl

omit [DecidableEq Name] in
theorem write_congr {other : Name → List Char} {template : Template Name}
    (same : ∀ name, .inr name ∈ template → form name = other name) :
    write form template = write other template := by
  induction template with
  | nil => rfl
  | cons token rest ih =>
    have later := ih fun name membership => same name (by simp [membership])
    cases token with
    | inl char => rw [write_inl, write_inl, later]
    | inr name => rw [write_inr, write_inr, later, same name (by simp)]

theorem le_of_mem_places {template : Template Name} {start place : Nat}
    (membership : place ∈ places form name start template) : start ≤ place := by
  induction template generalizing start with
  | nil => simp [places] at membership
  | cons token rest ih =>
    cases token with
    | inl char => exact Nat.le_of_succ_le (ih membership)
    | inr other =>
      rcases List.mem_append.mp membership with here | later
      · split_ifs at here
        · exact Nat.le_of_eq (List.mem_singleton.mp here).symm
        · contradiction
      · exact Nat.le_trans (Nat.le_add_right _ _) (ih later)

theorem replace_append_of_absent {new run : List Char} (nonempty : pattern ≠ [])
    (absent : ∀ place < run.length, ¬ pattern <+: (run ++ text).drop place) :
    PyString.replace pattern new (run ++ text) = run ++ PyString.replace pattern new text := by
  simp only [PyString.replace, if_neg nonempty]
  induction run with
  | nil => rfl
  | cons char run ih =>
    have missed : PyString.matchPrefix pattern (char :: (run ++ text)) = none := by
      have notHere := absent 0 (by simp)
      simpa [PyString.matchPrefix] using notHere
    rw [List.cons_append, Scan.scan_of_none missed, Scan.replace_inl, List.cons_append,
      ih]
    intro place inside
    exact absent (place + 1) (by simpa using inside)

theorem replace_append_of_pattern {new : List Char} (nonempty : pattern ≠ []) :
    PyString.replace pattern new (pattern ++ text) = new ++ PyString.replace pattern new text := by
  simp only [PyString.replace, if_neg nonempty]
  have matched : PyString.matchPrefix pattern (pattern ++ text) =
      some (pattern, pattern.length) := by
    simp [PyString.matchPrefix]
  rw [Scan.scan_of_some matched rfl nonempty, Scan.replace_inr]

theorem replace_write {new : List Char} {template : Template Name} (nonempty : form name ≠ [])
    (only : OnlyAt (form name) form name template) :
    PyString.replace (form name) new (write form template) =
      write (Function.update form name new) template := by
  have onlyFrom : ∀ place, form name <+: (write form template).drop place →
      0 + place ∈ places form name 0 template := by
    intro place here
    rw [Nat.zero_add]
    apply only place _ here
    rw [List.mem_range]
    by_contra beyond
    rw [List.drop_eq_nil_of_le (Nat.le_of_not_lt beyond)] at here
    exact nonempty (List.prefix_nil.mp here)
  clear only
  generalize 0 = start at onlyFrom
  induction template generalizing start with
  | nil => simp [PyString.replace, nonempty]
  | cons token rest ih =>
    cases token with
    | inl char =>
      rw [write_inl, write_inl, ← ih (start + 1)]
      · apply @replace_append_of_absent _ _ _ [char] nonempty
        intro place inside here
        obtain rfl : place = 0 := by simpa using inside
        have after : start + 1 ≤ start + 0 := le_of_mem_places (onlyFrom 0 here)
        omega
      · intro place here
        have found := onlyFrom (place + 1) here
        rwa [← Nat.add_assoc, Nat.add_right_comm] at found
    | inr other =>
      rw [write_inr, write_inr]
      have later : ∀ place, form name <+: (write form rest).drop place →
          start + (form other).length + place ∈
            places form name (start + (form other).length) rest := by
        intro place here
        have found := onlyFrom ((form other).length + place) (by
          rw [write_inr, List.drop_length_add_append]
          exact here)
        rw [← Nat.add_assoc] at found
        rcases List.mem_append.mp found with first | rest
        · have positive := List.length_pos_iff.mpr nonempty
          split_ifs at first with isName
          · rw [isName] at first
            have same := List.mem_singleton.mp first
            omega
          · contradiction
        · exact rest
      by_cases isName : other = name
      · subst isName
        rw [replace_append_of_pattern nonempty, Function.update_self,
          ih _ later]
      · rw [Function.update_of_ne isName, ← ih _ later]
        apply replace_append_of_absent nonempty
        intro place inside here
        have found := onlyFrom place here
        rw [places, if_neg isName, List.nil_append] at found
        have after := le_of_mem_places found
        omega

theorem replaceEach_write {names : List Name} {template : Template Name} (nodup : names.Nodup)
    {patterns : Name → List Char} (nonempty : ∀ name ∈ names, patterns name ≠ [])
    (unfilled : ∀ name ∈ names, form name = patterns name)
    (undisturbed : Undisturbed patterns value template form names) :
    replaceEach patterns value names (write form template) =
      write (fun name => if name ∈ names then value name else form name) template := by
  induction names generalizing form with
  | nil => simp [replaceEach]
  | cons name names ih =>
    obtain ⟨only, later⟩ := undisturbed
    have here := unfilled name List.mem_cons_self
    rw [← here] at only
    have hasForm : form name ≠ [] := here ▸ nonempty name List.mem_cons_self
    have nonemptyLater : ∀ other ∈ names, patterns other ≠ [] :=
      fun other membership => nonempty other (List.mem_cons_of_mem _ membership)
    rw [replaceEach, List.foldl_cons, ← here, replace_write hasForm only]
    rw [← replaceEach, ih (List.nodup_cons.mp nodup).2 nonemptyLater _ later]
    · apply write_congr
      intro other _
      by_cases isName : other = name
      · subst isName
        simp [(List.nodup_cons.mp nodup).1]
      · simp [isName]
    · intro other membership
      have different : other ≠ name := by
        rintro rfl
        exact (List.nodup_cons.mp nodup).1 membership
      rw [Function.update_of_ne different]
      exact unfilled other (List.mem_cons_of_mem _ membership)

end RagFlow.Lib.Placeholders
