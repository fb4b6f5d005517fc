/-!
# Counts as text

The decimal numeral of a count, which may have a plus sign before it and zeros at its
start.
-/

namespace StopMotion.Number

/-- The value of a list of decimal digits. -/
def ofDigits (digits : List Char) : Nat :=
  digits.foldl (fun value digit => 10 * value + (digit.toNat - '0'.toNat)) 0

/-- The decimal digits of a natural number. -/
def digitsOf (value : Nat) : List Char :=
  Nat.toDigits 10 value

/-- The count that a text spells, if it is at most `greatest`. -/
def count? (greatest : Nat) (text : List Char) : Option Nat :=
  let digits := if text.head? = some '+' then text.tail else text
  if digits.isEmpty || !digits.all Char.isDigit then none
  else
    let value := ofDigits digits
    if value ≤ greatest then some value else none

/-- The greatest count of 32 bits. -/
def greatest32 : Nat := Nat.pow 2 32 - 1

/-- The greatest count of 64 bits. -/
def greatest64 : Nat := Nat.pow 2 64 - 1

/-- A count that is read is in range. -/
theorem le_of_count? {greatest value : Nat} {text : List Char}
    (read : count? greatest text = some value) : value ≤ greatest := by
  simp only [count?] at read
  grind

end StopMotion.Number
