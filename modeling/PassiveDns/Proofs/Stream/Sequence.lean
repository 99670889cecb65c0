/-
  PassiveDns.Proofs.Stream.Sequence

  Windows of an octet string, and sequence numbers on their circle. A sequence
  number names an offset only up to 2^32; `offsetOf_eq` says that it is read
  right as long as the offset is within 2^31 of the next one to be handed out.
-/
import Mathlib.Order.Basic
import Mathlib.Tactic.Common
import PassiveDns.Stream.Reorder

namespace PassiveDns

/-! ## Windows -/

namespace Octets

theorem slice_zero (octets : Octets) (start : Nat) : octets.slice start 0 = [] := by
  simp [slice]

theorem length_slice (octets : Octets) (start count : Nat) (h : start + count ≤ octets.length) :
    (octets.slice start count).length = count := by
  simp only [slice, List.length_take, List.length_drop]
  omega

/-- A window is told by the octets that it has. -/
theorem slice_length_slice (octets : Octets) (start count : Nat) :
    octets.slice start (octets.slice start count).length = octets.slice start count := by
  unfold slice
  rw [List.length_take, List.take_eq_take_iff]
  omega

/-- Two windows, one behind the other, make one. -/
theorem slice_append (octets : Octets) (start m n : Nat) :
    octets.slice start m ++ octets.slice (start + m) n = octets.slice start (m + n) := by
  simp only [slice]
  rw [List.take_add, List.drop_drop]

theorem drop_slice (octets : Octets) (start count k : Nat) :
    (octets.slice start count).drop k = octets.slice (start + k) (count - k) := by
  simp only [slice]
  rw [List.drop_take, List.drop_drop]

/-- The window that reaches up to the end. -/
theorem slice_to_end (octets : Octets) (start count : Nat) (h : octets.length ≤ start + count) :
    octets.slice start count = octets.drop start := by
  unfold slice
  apply List.take_of_length_le
  rw [List.length_drop]
  omega

/-- A window of a beginning is a window of the whole. -/
theorem slice_take (octets : Octets) (limit start count : Nat) (h : start + count ≤ limit) :
    slice (octets.take limit) start count = octets.slice start count := by
  simp only [slice]
  rw [List.drop_take, List.take_take]
  congr 1
  omega

end Octets

namespace Stream

/-! ## The circle of sequence numbers -/

/-- Half of the circle. -/
def halfCircle : Nat := 2147483648

/-- An offset that a sequence number names without doubt, as seen from `here`. -/
def Near (offset here : Nat) : Prop :=
  here ≤ offset + halfCircle ∧ offset < here + halfCircle

theorem bmod_eq_self {d : Int} (low : -2147483648 ≤ d) (high : d < 2147483648) :
    Int.bmod d 4294967296 = d := by
  apply Int.bmod_eq_of_le
  · omega
  · omega

/-- How far two sequence numbers lie apart follows from how far their offsets
    do. -/
theorem ahead_add (origin : UInt32) (offset here : Nat) (h : Near offset here) :
    ahead (origin + UInt32.ofNat offset) (origin + UInt32.ofNat here) =
      (offset : Int) - here := by
  obtain ⟨hlow, hhigh⟩ := h
  unfold halfCircle at hlow hhigh
  have key : Int.bmod (((origin + UInt32.ofNat offset).toNat : Int) -
      (origin + UInt32.ofNat here).toNat) 4294967296 =
      Int.bmod ((offset : Int) - here) 4294967296 := by
    rw [UInt32.toNat_add, UInt32.toNat_add, UInt32.toNat_ofNat', UInt32.toNat_ofNat',
      Int.bmod_eq_bmod_iff_bmod_sub_eq_zero]
    rw [← Int.dvd_iff_bmod_eq_zero]
    omega
  unfold ahead
  rw [key, bmod_eq_self (by omega) (by omega)]

/-- A sequence number that lies half of the circle ahead, or more, is taken for one that lies
    behind. -/
theorem ahead_of_far (origin : UInt32) {offset : Nat} (hfar : halfCircle ≤ offset)
    (hround : offset < 4294967296) :
    ahead (origin + UInt32.ofNat offset) origin = (offset : Int) - 4294967296 := by
  unfold halfCircle at hfar
  have key : Int.bmod (((origin + UInt32.ofNat offset).toNat : Int) - origin.toNat) 4294967296 =
      Int.bmod ((offset : Int) - 4294967296) 4294967296 := by
    have horigin := origin.toNat_lt
    rw [UInt32.toNat_add, UInt32.toNat_ofNat', Int.bmod_eq_bmod_iff_bmod_sub_eq_zero,
      ← Int.dvd_iff_bmod_eq_zero]
    omega
  unfold ahead
  rw [key, bmod_eq_self (by omega) (by omega)]

/-- A sequence number is read as the offset that it stands for, counted from the
    `anchor` at which the stream starts. -/
theorem Reorder.offsetOf_eq (stream : Reorder) (origin : UInt32) (anchor offset : Nat)
    (h : Near offset (anchor + stream.next)) :
    stream.offsetOf (origin + UInt32.ofNat anchor) (origin + UInt32.ofNat offset) =
      (offset : Int) - anchor := by
  have hadd : origin + UInt32.ofNat anchor + UInt32.ofNat stream.next =
      origin + UInt32.ofNat (anchor + stream.next) := by
    rw [UInt32.add_assoc, ← UInt32.ofNat_add]
  unfold Reorder.offsetOf
  rw [hadd, ahead_add origin offset _ h]
  push_cast
  omega

end Stream

end PassiveDns
