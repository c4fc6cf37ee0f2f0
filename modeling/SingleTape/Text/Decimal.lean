/-!
# Decimal numbers

Numbers written with decimal digits and nothing else. Leading zeros are allowed.
-/

namespace SingleTape.Text

def ofDigits (digits : List Char) : Nat :=
  digits.foldl (fun n d => 10 * n + (d.toNat - '0'.toNat)) 0

/-- The first number that is too large for an unsigned machine word. -/
def wordLimit : Nat := 0x10000000000000000

def word? (text : List Char) : Option Nat :=
  if text ≠ [] ∧ text.all Char.isDigit ∧ ofDigits text < wordLimit then some (ofDigits text)
  else none

end SingleTape.Text
