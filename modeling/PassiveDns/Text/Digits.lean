/-
  PassiveDns.Text.Digits

  Numbers in digits, in any base up to sixteen. Letters count from ten on, in
  either case.
-/

namespace PassiveDns.Text

/-- The value of a digit in base sixteen. -/
def digitValue? (c : Char) : Option Nat :=
  if c.isDigit then some (c.toNat - 48)
  else if 'a' ≤ c ∧ c ≤ 'f' then some (c.toNat - 87)
  else if 'A' ≤ c ∧ c ≤ 'F' then some (c.toNat - 55)
  else none

/-- Whether a character is a digit in a base. -/
def isDigitIn (base : Nat) (c : Char) : Bool := (digitValue? c).any (· < base)

/-- The number that digits spell in a base, the first of them counting most. -/
def numberOf (base : Nat) (digits : List Char) : Nat :=
  digits.foldl (fun n c => n * base + (digitValue? c).getD 0) 0

/-- The number that a text spells that holds digits only, and at least one. -/
def number? (base : Nat) (text : List Char) : Option Nat :=
  if !text.isEmpty && text.all (isDigitIn base) then some (numberOf base text) else none

end PassiveDns.Text
