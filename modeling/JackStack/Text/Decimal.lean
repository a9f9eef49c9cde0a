/-!
# Text/Decimal — numbers written in decimal digits

`value` reads digits as a number, leading zeros allowed; `word?` reads the operand of a machine
command, which may carry a plus sign and has to fit in 64 bits.
-/

namespace JackStack.Text.Decimal

/-- The number that one digit stands for. -/
def digitValue (c : Char) : Nat :=
  c.toNat - '0'.toNat

/-- **The value of a run of digits**, read from the left. -/
def value (digits : List Char) : Nat :=
  digits.foldl (fun n c => 10 * n + digitValue c) 0

theorem value_nil : value [] = 0 := rfl

/-- A digit written behind others is worth itself, and the others ten times as much as before. -/
theorem value_concat (digits : List Char) (c : Char) :
    value (digits ++ [c]) = 10 * value digits + digitValue c := by
  simp [value]

/-- Operands are below this bound, the 64th power of two. -/
def wordBound : Nat := 18446744073709551616

/-- **An operand**: at least one digit, all digits, after at most one plus sign, below `2 ^ 64`. -/
def word? (text : List Char) : Option Nat :=
  let digits := match text with
    | '+' :: ds => ds
    | ds => ds
  if digits ≠ [] ∧ digits.all Char.isDigit ∧ value digits < wordBound then some (value digits)
  else none

end JackStack.Text.Decimal
