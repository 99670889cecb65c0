/-
  PassiveDns.Config.Ratio

  Sampling ratios `A:B`, by which A packets out of every B are looked at: their
  text in both directions, and what is wrong with a text that is none.
-/
import PassiveDns.Text.Digits
import PassiveDns.Text.Quoted
import PassiveDns.Text.Split

namespace PassiveDns.Config

/-- A out of B. -/
structure Ratio where
  accept : Nat
  outOf : Nat
deriving Repr, DecidableEq, Inhabited

/-- What is wrong with a ratio. -/
inductive RatioFault where
  | notAPair
  | acceptNotANumber
  | outOfNotANumber
  | outOfZero
  | acceptTooLarge
deriving Repr, DecidableEq, Inhabited

/-- What is reported for a fault. -/
def RatioFault.message : RatioFault → String
  | notAPair => "expected A:B"
  | acceptNotANumber => "A is not a number"
  | outOfNotANumber => "B is not a number"
  | outOfZero => "B must be positive"
  | acceptTooLarge => "A must not exceed B"

/-- A text that is no ratio, and why. -/
structure RatioError where
  value : String
  fault : RatioFault
deriving Repr, DecidableEq, Inhabited

/-- What is reported for a text that is no ratio. -/
def RatioError.message (error : RatioError) : String :=
  "invalid sample ratio " ++ Text.quoted error.value ++ ": " ++ error.fault.message

/-- Decimal digits, at least one, as a number below a bound. One plus sign may
    stand in front. -/
def unsigned? (bound : Nat) (text : List Char) : Option Nat :=
  let digits := match text with
    | '+' :: rest => rest
    | _ => text
  (Text.number? 10 digits).filter (· < bound)

/-- A number of 32 bits. -/
def word? (text : List Char) : Option Nat := unsigned? 4294967296 text

namespace Ratio

/-- Every packet. -/
def all : Ratio := ⟨1, 1⟩

/-- Whether nothing is left out. -/
def isPassthrough (ratio : Ratio) : Bool := ratio.accept = ratio.outOf

/-- The text of a ratio. -/
def text (ratio : Ratio) : String :=
  toString ratio.accept ++ ":" ++ toString ratio.outOf

/-- The ratio that a text says, blanks around either number being ignored. -/
def parse (text : String) : Except RatioError Ratio :=
  let fault (f : RatioFault) : Except RatioError Ratio := .error ⟨text, f⟩
  match Text.splitOn ':' (Text.trim text.toList) with
  | [a, b] =>
    match word? (Text.trim a), word? (Text.trim b) with
    | none, _ => fault .acceptNotANumber
    | _, none => fault .outOfNotANumber
    | some accept, some outOf =>
      if outOf = 0 then fault .outOfZero
      else if outOf < accept then fault .acceptTooLarge
      else .ok ⟨accept, outOf⟩
  | _ => fault .notAPair

end Ratio

end PassiveDns.Config
