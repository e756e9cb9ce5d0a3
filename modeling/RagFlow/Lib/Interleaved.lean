import Mathlib.Data.List.Basic

/-!
# Symbols with marks between them

A track has symbols and marks in one order.  What comes before and behind each mark, and how many
symbols the marks have before them, tell whether symbols have been carried past a mark.
-/

namespace RagFlow.Lib.Interleaved

universe u v

variable {Symbol : Type u} {Mark : Type v}

def symbols (track : List (Symbol ⊕ Mark)) : List Symbol := track.filterMap Sum.getLeft?

def marks (track : List (Symbol ⊕ Mark)) : List Mark := track.filterMap Sum.getRight?

def ofSymbols (word : List Symbol) : List (Symbol ⊕ Mark) := word.map .inl

def places (before : List Symbol) : List (Symbol ⊕ Mark) → List (List Symbol × List Symbol)
  | [] => []
  | .inl symbol :: track => places (before ++ [symbol]) track
  | .inr _ :: track => (before, symbols track) :: places before track

def lag (before : Nat) : List (Symbol ⊕ Mark) → Nat
  | [] => 0
  | .inl _ :: track => lag (before + 1) track
  | .inr _ :: track => before + lag before track

variable {first second track : List (Symbol ⊕ Mark)} {word : List Symbol}

@[simp] theorem symbols_append : symbols (first ++ second) = symbols first ++ symbols second :=
  List.filterMap_append

@[simp] theorem symbols_ofSymbols : symbols (ofSymbols word : List (Symbol ⊕ Mark)) = word := by
  induction word with
  | nil => rfl
  | cons symbol word ih => exact congrArg (symbol :: ·) ih

@[simp] theorem symbols_mark (mark : Mark) :
    symbols ([.inr mark] : List (Symbol ⊕ Mark)) = [] := rfl

@[simp] theorem ofSymbols_append (first second : List Symbol) :
    (ofSymbols (first ++ second) : List (Symbol ⊕ Mark)) = ofSymbols first ++ ofSymbols second :=
  List.map_append

@[simp] theorem ofSymbols_nil : (ofSymbols [] : List (Symbol ⊕ Mark)) = [] := rfl

theorem places_ofSymbols_append (before word : List Symbol) :
    places before (ofSymbols word ++ track) = places (before ++ word) track := by
  induction word generalizing before with
  | nil => rw [ofSymbols_nil, List.nil_append, List.append_nil]
  | cons symbol word ih =>
    rw [List.append_cons]
    exact ih (before ++ [symbol])

theorem lag_append (before : Nat) :
    lag before (first ++ second) =
      lag before first + lag (before + (symbols first).length) second := by
  induction first generalizing before with
  | nil => simp [lag, symbols]
  | cons token first ih =>
    cases token with
    | inl symbol =>
      have count : (symbols (.inl symbol :: first)).length = (symbols first).length + 1 := rfl
      rw [List.cons_append, lag, lag, ih, count]
      congr 2
      omega
    | inr mark =>
      have count : (symbols (.inr mark :: first)).length = (symbols first).length := rfl
      rw [List.cons_append, lag, lag, ih, count, Nat.add_assoc]

theorem lag_ofSymbols (before : Nat) (word : List Symbol) :
    lag before (ofSymbols word : List (Symbol ⊕ Mark)) = 0 := by
  induction word generalizing before with
  | nil => rfl
  | cons symbol word ih => exact ih (before + 1)

theorem lag_mark (before : Nat) (mark : Mark) :
    lag before ([.inr mark] : List (Symbol ⊕ Mark)) = before := rfl

theorem lag_add (before more : Nat) :
    lag (before + more) track = lag before track + more * (marks track).length := by
  induction track generalizing before with
  | nil => simp [lag, marks]
  | cons token track ih =>
    cases token with
    | inl symbol =>
      have count : marks (.inl symbol :: track) = marks track := rfl
      rw [lag, lag, count, ← ih (before + 1)]
      congr 1
      omega
    | inr mark =>
      have count : (marks (.inr mark :: track)).length = (marks track).length + 1 := rfl
      rw [lag, lag, ih, count, Nat.mul_succ]
      omega

end RagFlow.Lib.Interleaved
