import Mathlib.Algebra.Order.Floor.Semiring
import Mathlib.Data.NNRat.Floor

/-!
# Printed numbers

Numbers as programs print them, and the decimal numbers among them.
-/

namespace RagFlow.Lib

def roundHalfEven (value : ℚ≥0) : ℕ :=
  let whole := ⌊value⌋₊
  if value < whole + 1 / 2 ∨ (value = whole + 1 / 2 ∧ whole % 2 = 0) then whole else whole + 1

def fixedDigits (places scaled : ℕ) : List Char :=
  let fraction := Nat.toDigits 10 (scaled % 10 ^ places)
  Nat.toDigits 10 (scaled / 10 ^ places) ++
    '.' :: (List.replicate (places - fraction.length) '0' ++ fraction)

theorem isDigit_of_mem_toDigits {char : Char} {number : ℕ}
    (member : char ∈ Nat.toDigits 10 number) :
    char.isDigit = true :=
  Nat.isDigit_of_mem_toDigits (by decide) (by decide) member

end RagFlow.Lib
