/-
  PassiveDns.Proofs.Utf8

  Text that was encoded is read back: the first octet of a character announces as
  many octets as follow it, and each of those lies in the range in which it is
  looked for.
-/
import Mathlib.Tactic.Common
import PassiveDns.Proofs.Octets
import PassiveDns.Text.Utf8

namespace PassiveDns.Text.Utf8

/-! ## First octets -/

theorem lead?_one : ∀ n < 128, lead? (UInt8.ofNat n) = some (n, []) := by
  decide +kernel

theorem lead?_two {n : Nat} (hlo : 2 ≤ n) (hhi : n < 32) :
    lead? (UInt8.ofNat (n + 192)) = some (n, [(0x80, 0xBF)]) := by
  have hb : (UInt8.ofNat (n + 192)).toNat = n + 192 := by
    rw [Octets.toNat_ofNat]
    omega
  rw [lead?, hb]
  show (if _ then _ else _) = _
  rw [if_neg (by omega), if_neg (by omega), if_pos (by omega), Nat.add_sub_cancel]

/-- Behind the lowest first octet of three no overlong form is let in, and behind
    one of the others no surrogate. -/
theorem lead?_three :
    ∀ n < 16, lead? (UInt8.ofNat (n + 224)) =
      some (n, [(if n = 0 then 0xA0 else 0x80, if n = 13 then 0x9F else 0xBF), (0x80, 0xBF)]) := by
  decide +kernel

theorem lead?_four :
    ∀ n < 5, lead? (UInt8.ofNat (n + 240)) =
      some (n, [(if n = 0 then 0x90 else 0x80, if n = 4 then 0x8F else 0xBF), (0x80, 0xBF),
        (0x80, 0xBF)]) := by
  decide +kernel

/-! ## Characters -/

/-- An octet that follows brings six bits. -/
theorem follow_ofNat {bits lo hi m : Nat} {ranges : List (Nat × Nat)} {rest : Octets}
    (hm : m < 64) (hlo : lo ≤ m + 128) (hhi : m + 128 ≤ hi) :
    follow bits ((lo, hi) :: ranges) (UInt8.ofNat (m + 128) :: rest) =
      follow (bits * 64 + m) ranges rest := by
  have hb : (UInt8.ofNat (m + 128)).toNat = m + 128 := by
    rw [Octets.toNat_ofNat]
    omega
  rw [follow, hb, if_pos ⟨hlo, hhi⟩]
  congr 2
  omega

theorem decodeLossy_cons {b : UInt8} {bits : Nat} {ranges : List (Nat × Nat)} {rest tail : Octets}
    {c : Char} (hlead : lead? b = some (bits, ranges))
    (hfollow : follow bits ranges rest = (c, tail)) :
    decodeLossy (b :: rest) = c :: decodeLossy tail := by
  rw [decodeLossy, hlead]
  dsimp only
  rw [hfollow]

/-- A character is no surrogate and at most 10FFFF. -/
theorem toNat_char (c : Char) :
    c.val.toNat < 0xD800 ∨ 0xDFFF < c.val.toNat ∧ c.val.toNat < 0x110000 := by
  have h := c.valid
  simpa [UInt32.isValidChar, Nat.isValidChar] using h

/-- The four forms of a character, from one octet to four. -/
theorem decodeLossy_char (c : Char) (rest : Octets) :
    decodeLossy (String.utf8EncodeChar c ++ rest) = c :: decodeLossy rest := by
  have hc := toNat_char c
  have hback : Char.ofNat c.val.toNat = c := c.ofNat_toNat
  rw [String.utf8EncodeChar]
  generalize c.val.toNat = v at hc hback
  show decodeLossy ((if v ≤ 127 then _ else _) ++ rest) = _
  split_ifs with h1 h2 h3 <;> simp only [List.cons_append, List.nil_append]
  · apply decodeLossy_cons (lead?_one v (by omega))
    rw [follow, hback]
  · have hbits : v / 64 % 32 * 64 + v % 64 = v := by omega
    apply decodeLossy_cons (lead?_two (by omega) (by omega))
    rw [follow_ofNat (by omega) (by omega) (by omega), hbits, follow, hback]
  · have hbits : (v / 4096 % 16 * 64 + v / 64 % 64) * 64 + v % 64 = v := by omega
    apply decodeLossy_cons (lead?_three _ (by omega))
    rw [follow_ofNat (by omega) (by split <;> omega) (by split <;> omega),
      follow_ofNat (by omega) (by omega) (by omega), hbits, follow, hback]
  · have hbits : ((v / 262144 % 8 * 64 + v / 4096 % 64) * 64 + v / 64 % 64) * 64 + v % 64 = v := by
      omega
    apply decodeLossy_cons (lead?_four _ (by omega))
    rw [follow_ofNat (by omega) (by split <;> omega) (by split <;> omega),
      follow_ofNat (by omega) (by omega) (by omega),
      follow_ofNat (by omega) (by omega) (by omega), hbits, follow, hback]

/-! ## Texts -/

theorem encode_append (first second : List Char) :
    encode (first ++ second) = encode first ++ encode second :=
  List.flatMap_append

theorem decodeLossy_encode (text : List Char) : decodeLossy (encode text) = text := by
  induction text with
  | nil => rw [encode, List.flatMap_nil, decodeLossy]
  | cons c text ih => rw [encode, List.flatMap_cons, decodeLossy_char, ← encode, ih]

/-- The text of a string's octets is the string. -/
theorem toStringLossy_ofString (s : String) : toStringLossy (ofString s) = s := by
  rw [toStringLossy, ofString, decodeLossy_encode, String.ofList_toList]

theorem ofString_ne_nil {s : String} (h : s ≠ "") : ofString s ≠ [] := by
  intro hnil
  apply h
  rw [← toStringLossy_ofString s, hnil, toStringLossy, decodeLossy]

end PassiveDns.Text.Utf8
