/-
  PassiveDns.Proofs.Octets

  Words in octet strings are read back as they were written, wherever they stand.
-/
import Mathlib.Data.List.GetD
import Mathlib.Tactic.Common
import Mathlib.Tactic.Ring
import PassiveDns.Octets

namespace PassiveDns.Octets

/-! ## Numbers -/

theorem toNat_ofNat (n : Nat) : (UInt8.ofNat n).toNat = n % 256 :=
  UInt8.toNat_ofNat'

theorem foldl_toNatBE (octets : Octets) (start : Nat) :
    octets.foldl (fun n b => n * 256 + b.toNat) start =
      start * 256 ^ octets.length + octets.toNatBE := by
  induction octets generalizing start with
  | nil => simp [toNatBE]
  | cons b rest ih =>
    have hrest : toNatBE (b :: rest) = b.toNat * 256 ^ rest.length + toNatBE rest := by
      rw [toNatBE, List.foldl_cons, ih]
      simp
    rw [List.foldl_cons, ih, hrest, List.length_cons, Nat.pow_succ]
    ring

theorem toNatBE_cons (b : UInt8) (rest : Octets) :
    toNatBE (b :: rest) = b.toNat * 256 ^ rest.length + rest.toNatBE := by
  rw [toNatBE, List.foldl_cons, foldl_toNatBE]
  simp

@[simp] theorem length_ofNatBE (count n : Nat) : (ofNatBE count n).length = count := by
  rw [ofNatBE, List.length_map, List.length_reverse, List.length_range]

theorem ofNatBE_succ (count n : Nat) :
    ofNatBE (count + 1) n = UInt8.ofNat (n >>> (8 * count)) :: ofNatBE count n := by
  rw [ofNatBE, List.range_succ, List.reverse_append]
  rfl

/-- A number is read back, less what does not fit. -/
theorem toNatBE_ofNatBE (count n : Nat) : (ofNatBE count n).toNatBE = n % 256 ^ count := by
  induction count with
  | zero =>
    rw [Nat.pow_zero, Nat.mod_one]
    rfl
  | succ count ih =>
    rw [ofNatBE_succ, toNatBE_cons, length_ofNatBE, ih, toNat_ofNat, Nat.shiftRight_eq_div_pow,
      Nat.pow_mul]
    rw [show (2 ^ 8) = 256 from rfl, Nat.pow_succ, Nat.mod_mul]
    ring

/-- Bits are read back if they fit exactly. -/
theorem ofNat_toNatBE {width count : Nat} (hwidth : 2 ^ width = 256 ^ count) (bits : BitVec width) :
    BitVec.ofNat width (ofNatBE count bits.toNat).toNatBE = bits := by
  rw [toNatBE_ofNatBE, ← hwidth, Nat.mod_eq_of_lt bits.isLt, BitVec.ofNat_toNat,
    BitVec.setWidth_eq]

/-- The bit that a number has at a place. -/
theorem testBit_of_mod {n i : Nat} {b : Bool} (h : n / 2 ^ i % 2 = b.toNat) : n.testBit i = b := by
  rw [Nat.testBit_eq_decide_div_mod_eq, h]
  cases b <;> rfl

/-! ## Words -/

theorem toNat_word16 (hi lo : UInt8) : (word16 hi lo).toNat = hi.toNat * 256 + lo.toNat := by
  have hhi := hi.toNat_lt
  have hlo := lo.toNat_lt
  rw [word16, UInt16.toNat_ofNat']
  omega

theorem toNat_word32 (a b c d : UInt8) :
    (word32 a b c d).toNat = ((a.toNat * 256 + b.toNat) * 256 + c.toNat) * 256 + d.toNat := by
  have ha := a.toNat_lt
  have hb := b.toNat_lt
  have hc := c.toNat_lt
  have hd := d.toNat_lt
  rw [word32, UInt32.toNat_ofNat']
  omega

theorem toNat_word32_eq_toNatBE (a b c d : UInt8) :
    (word32 a b c d).toNat = toNatBE [a, b, c, d] := by
  rw [toNat_word32]
  simp [toNatBE]

/-- The number that the octets of a 16-bit word spell. -/
theorem toNat_ofWord16 (w : UInt16) :
    (UInt8.ofNat (w.toNat / 256)).toNat * 256 + (UInt8.ofNat w.toNat).toNat = w.toNat := by
  have hw := w.toNat_lt
  rw [toNat_ofNat, toNat_ofNat]
  omega

/-- A 16-bit word is read back. -/
theorem word16_ofNat (w : UInt16) :
    word16 (UInt8.ofNat (w.toNat / 256)) (UInt8.ofNat w.toNat) = w := by
  apply UInt16.toNat_inj.mp
  rw [toNat_word16, toNat_ofWord16]

/-- A 16-bit word is written as the octets that it was read from. -/
theorem ofWord16_word16 (hi lo : UInt8) : ofWord16 (word16 hi lo) = [hi, lo] := by
  have hhi := hi.toNat_lt
  have hlo := lo.toNat_lt
  have hfirst : UInt8.ofNat ((word16 hi lo).toNat / 256) = hi := by
    apply UInt8.toNat_inj.mp
    rw [toNat_ofNat, toNat_word16]
    omega
  have hsecond : UInt8.ofNat (word16 hi lo).toNat = lo := by
    apply UInt8.toNat_inj.mp
    rw [toNat_ofNat, toNat_word16]
    omega
  rw [ofWord16, hfirst, hsecond]

/-- The number that the octets of a 32-bit word spell. -/
theorem toNat_ofWord32 (w : UInt32) :
    ((UInt8.ofNat (w.toNat / 16777216)).toNat * 256 + (UInt8.ofNat (w.toNat / 65536)).toNat) *
        65536 +
      ((UInt8.ofNat (w.toNat / 256)).toNat * 256 + (UInt8.ofNat w.toNat).toNat) = w.toNat := by
  have hw := w.toNat_lt
  rw [toNat_ofNat, toNat_ofNat, toNat_ofNat, toNat_ofNat]
  omega

/-- A 32-bit word is read back. -/
theorem word32_ofNat (w : UInt32) :
    word32 (UInt8.ofNat (w.toNat / 16777216)) (UInt8.ofNat (w.toNat / 65536))
      (UInt8.ofNat (w.toNat / 256)) (UInt8.ofNat w.toNat) = w := by
  apply UInt32.toNat_inj.mp
  have hw := w.toNat_lt
  rw [toNat_word32, toNat_ofNat, toNat_ofNat, toNat_ofNat, toNat_ofNat]
  omega

/-- A 32-bit word is written as the octets that it was read from. -/
theorem ofWord32_word32 (a b c d : UInt8) : ofWord32 (word32 a b c d) = [a, b, c, d] := by
  have ha := a.toNat_lt
  have hb := b.toNat_lt
  have hc := c.toNat_lt
  have hd := d.toNat_lt
  have hoctet {n : Nat} (octet : UInt8) (h : n % 256 = octet.toNat) : UInt8.ofNat n = octet := by
    apply UInt8.toNat_inj.mp
    rw [toNat_ofNat, h]
  rw [ofWord32, toNat_word32, hoctet a (by omega), hoctet b (by omega), hoctet c (by omega),
    hoctet d (by omega)]

/-! ## Places -/

theorem at0_eq_getElem {octets : Octets} {i : Nat} (h : i < octets.length) :
    octets.at0 i = octets[i].toNat := by
  rw [at0, List.getD_eq_getElem _ _ h]

theorem nat16At_eq_getElem {octets : Octets} {i : Nat} (h : i + 1 < octets.length) :
    octets.nat16At i = octets[i].toNat * 256 + octets[i + 1].toNat := by
  rw [nat16At, at0_eq_getElem h, at0_eq_getElem (Nat.lt_of_succ_lt h)]

theorem at0_append_right (front back : Octets) (i : Nat) :
    (front ++ back).at0 (front.length + i) = back.at0 i := by
  rw [at0, at0, List.getD_append_right _ _ _ _ (Nat.le_add_right ..), Nat.add_sub_cancel_left]

theorem getD_append_left {front : Octets} {i : Nat} (h : i < front.length) (back : Octets) :
    (front ++ back).getD i 0 = front.getD i 0 :=
  List.getD_append _ _ _ _ h

theorem at0_append_left {front : Octets} {i : Nat} (h : i < front.length) (back : Octets) :
    (front ++ back).at0 i = front.at0 i := by
  rw [at0, at0, getD_append_left h]

theorem nat16At_append_left {front : Octets} {i : Nat} (h : i + 1 < front.length)
    (back : Octets) : (front ++ back).nat16At i = front.nat16At i := by
  rw [nat16At, nat16At, at0_append_left (Nat.lt_of_succ_lt h), at0_append_left h]

theorem slice_append_left {front : Octets} {start count : Nat} (h : start + count ≤ front.length)
    (back : Octets) : (front ++ back).slice start count = front.slice start count := by
  rw [slice, slice, List.drop_append_of_le_length (by omega),
    List.take_append_of_le_length (by rw [List.length_drop]; omega)]

theorem nat16At_append_right (front back : Octets) (i : Nat) :
    (front ++ back).nat16At (front.length + i) = back.nat16At i := by
  rw [nat16At, nat16At, Nat.add_assoc, at0_append_right, at0_append_right]

theorem nat16At_ofWord16 (w : UInt16) (rest : Octets) : (ofWord16 w ++ rest).nat16At 0 = w.toNat :=
  toNat_ofWord16 w

end PassiveDns.Octets
