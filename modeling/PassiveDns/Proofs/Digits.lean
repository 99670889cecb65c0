/-
  PassiveDns.Proofs.Digits

  Decimal numbers: a text is read as one exactly if it holds digits, at least one, whatever
  zeros stand in front (`number?_ten_iff`), and the digits of a number are read as that number.
-/
import Mathlib.Tactic.Common
import PassiveDns.Text.Digits

namespace PassiveDns.Text

/-! ## Digits -/

theorem le_iff_toNat_le {c d : Char} : c ≤ d ↔ c.toNat ≤ d.toNat :=
  UInt32.le_iff_toNat_le

theorem isDigit_iff {c : Char} : c.isDigit = true ↔ 48 ≤ c.toNat ∧ c.toNat ≤ 57 := by
  rw [Char.isDigit, Bool.and_eq_true, decide_eq_true_eq, decide_eq_true_eq]
  exact Iff.rfl

/-- What is no digit is not one of them. -/
theorem ne_of_isDigit {c d : Char} (hc : c.isDigit = true) (hd : d.isDigit = false) : c ≠ d := by
  rintro rfl
  rw [hc] at hd
  cases hd

theorem digitValue?_of_isDigit {c : Char} (h : c.isDigit = true) :
    digitValue? c = some (c.toNat - 48) := by
  rw [digitValue?, if_pos h]

/-- The digits of base ten are the decimal ones, as letters count more. -/
theorem isDigitIn_ten (c : Char) : isDigitIn 10 c = c.isDigit := by
  by_cases h : c.isDigit = true
  · have hc := isDigit_iff.mp h
    rw [isDigitIn, digitValue?_of_isDigit h, h]
    exact decide_eq_true (show c.toNat - 48 < 10 by omega)
  · rw [Bool.not_eq_true] at h
    rw [isDigitIn, digitValue?, h, if_neg Bool.false_ne_true]
    split_ifs with hlower hupper
    · have hc : 97 ≤ c.toNat := le_iff_toNat_le.mp hlower.1
      exact decide_eq_false (show ¬c.toNat - 87 < 10 by omega)
    · have hc : 65 ≤ c.toNat := le_iff_toNat_le.mp hupper.1
      exact decide_eq_false (show ¬c.toNat - 55 < 10 by omega)
    · rfl

/-! ## Numbers -/

/-- The value of decimal digits is the usual one. -/
theorem numberOf_ten {digits : List Char} (h : ∀ c ∈ digits, c.isDigit = true) :
    numberOf 10 digits = Nat.ofDigitChars 10 digits 0 := by
  have hfrom (front : Nat) : digits.foldl (fun n c => n * 10 + (digitValue? c).getD 0) front =
      Nat.ofDigitChars 10 digits front := by
    induction digits generalizing front with
    | nil => rfl
    | cons c digits ih =>
      rw [List.foldl_cons, Nat.ofDigitChars_cons, digitValue?_of_isDigit (h c List.mem_cons_self),
        ih (fun d hd => h d (List.mem_cons_of_mem _ hd)), Nat.mul_comm front]
      rfl
  exact hfrom 0

/-- What is read as a decimal number: digits, at least one. -/
theorem number?_ten_iff {text : List Char} {n : Nat} :
    number? 10 text = some n ↔
      text ≠ [] ∧ (∀ c ∈ text, c.isDigit = true) ∧ n = Nat.ofDigitChars 10 text 0 := by
  have hdigits : text.all (isDigitIn 10) = true ↔ ∀ c ∈ text, c.isDigit = true := by
    rw [List.all_eq_true]
    simp only [isDigitIn_ten]
  have hsome : (!text.isEmpty && text.all (isDigitIn 10)) = true ↔
      text ≠ [] ∧ ∀ c ∈ text, c.isDigit = true := by
    rw [Bool.and_eq_true, hdigits, Bool.not_eq_true', List.isEmpty_eq_false_iff]
  rw [number?]
  constructor
  · intro h
    split at h
    · rename_i hcondition
      obtain ⟨hne, hall⟩ := hsome.mp hcondition
      exact ⟨hne, hall, by rw [← numberOf_ten hall, Option.some.inj h]⟩
    · cases h
  · rintro ⟨hne, hall, rfl⟩
    rw [if_pos (hsome.mpr ⟨hne, hall⟩), numberOf_ten hall]

theorem isDigit_of_mem_toDigits {n : Nat} {c : Char} (h : c ∈ Nat.toDigits 10 n) :
    c.isDigit = true :=
  Nat.isDigit_of_mem_toDigits (by decide) (by decide) h

/-- There is at least one. -/
theorem toDigits_eq_cons (n : Nat) :
    ∃ c rest, Nat.toDigits 10 n = c :: rest ∧ c.isDigit = true := by
  obtain ⟨c, rest, hc⟩ := List.exists_cons_of_ne_nil (Nat.toDigits_ne_nil (n := n) (b := 10))
  exact ⟨c, rest, hc, isDigit_of_mem_toDigits (hc ▸ List.mem_cons_self)⟩

/-- A number is read from its digits. -/
theorem number?_toDigits (n : Nat) : number? 10 (Nat.toDigits 10 n) = some n :=
  number?_ten_iff.mpr ⟨Nat.toDigits_ne_nil, fun _ => isDigit_of_mem_toDigits,
    (Nat.ofDigitChars_toDigits (by decide) (by decide)).symm⟩

end PassiveDns.Text
