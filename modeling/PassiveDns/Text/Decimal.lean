/-
  PassiveDns.Text.Decimal

  Whole numbers as double precision stores and shows them: `nearestDouble` rounds
  to 53 significant bits, and `shortest` writes the fewest significant digits that
  still round to the same double.
-/

namespace PassiveDns.Text.Decimal

/-- The significant bits of a double. -/
def precision : Nat := 53

/-- The number of binary digits of a number. -/
def bitLength (n : Nat) : Nat :=
  if n = 0 then 0 else n.log2 + 1

/-- The whole double nearest to a number; of two that are equally near, the one
    whose last significant bit is zero. -/
def nearestDouble (n : Nat) : Nat :=
  let ulp := 1 <<< (bitLength n - precision)
  let low := n / ulp
  let rest := n % ulp
  if ulp < rest * 2 ∨ (rest * 2 = ulp ∧ low % 2 = 1) then (low + 1) * ulp else low * ulp

/-- Whether a number rounds to a double. -/
def roundsTo (double n : Nat) : Bool := nearestDouble n = double

/-- The multiple of `10 ^ k` next to a double that rounds to it, the nearer one
    if both neighbours do. -/
def onGrid? (double k : Nat) : Option Nat :=
  let unit := Nat.pow 10 k
  let below := double / unit * unit
  let above := below + unit
  match roundsTo double below, roundsTo double above with
  | true, true => some (if above - double < double - below then above else below)
  | true, false => some below
  | false, true => some above
  | false, false => none

/-- The number with the most zeros at its end, of those that end in at most `k`
    of them, that rounds to a double. -/
def coarsest (double : Nat) : Nat → Nat
  | 0 => double
  | k + 1 => (onGrid? double (k + 1)).getD (coarsest double k)

/-- The digits of the double nearest to a number. -/
def shortest (n : Nat) : String :=
  let double := nearestDouble n
  toString (coarsest double (Nat.toDigits 10 double).length)

/-- The digits of the double nearest to an integer, behind its sign. -/
def shortestInt (n : Int) : String :=
  if n < 0 then "-" ++ shortest n.natAbs else shortest n.natAbs

end PassiveDns.Text.Decimal
