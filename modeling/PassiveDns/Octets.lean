/-
  PassiveDns.Octets

  Octet strings in the order in which they travel, the big-endian words in
  them, and the 64-bit FNV-1a hash that identifies frames and connections.
-/

namespace PassiveDns

/-- Octets in the order in which they travel. -/
abbrev Octets := List UInt8

namespace Octets

/-! ## Big-endian words -/

/-- The 16-bit word whose octets are `hi` and `lo`. -/
def word16 (hi lo : UInt8) : UInt16 :=
  UInt16.ofNat (hi.toNat * 256 + lo.toNat)

/-- The 32-bit word whose octets are `a`, `b`, `c` and `d`. -/
def word32 (a b c d : UInt8) : UInt32 :=
  UInt32.ofNat (((a.toNat * 256 + b.toNat) * 256 + c.toNat) * 256 + d.toNat)

/-- The two octets of a 16-bit word, the high one first. -/
def ofWord16 (w : UInt16) : Octets :=
  [UInt8.ofNat (w.toNat / 256), UInt8.ofNat w.toNat]

/-- The four octets of a 32-bit word, the highest first. -/
def ofWord32 (w : UInt32) : Octets :=
  [UInt8.ofNat (w.toNat / 16777216), UInt8.ofNat (w.toNat / 65536),
    UInt8.ofNat (w.toNat / 256), UInt8.ofNat w.toNat]

/-- The number that the octets spell, the most significant one first. -/
def toNatBE (octets : Octets) : Nat :=
  octets.foldl (fun n b => n * 256 + b.toNat) 0

/-- The number that the octets spell, the least significant one first. -/
def toNatLE (octets : Octets) : Nat :=
  octets.foldr (fun b n => n * 256 + b.toNat) 0

/-- The `count` octets of `n`, the most significant one first; what does not
    fit is cut off at the top. -/
def ofNatBE (count n : Nat) : Octets :=
  (List.range count).reverse.map fun i => UInt8.ofNat (n >>> (8 * i))

/-- The octet at an offset, zero past the end. -/
def at0 (octets : Octets) (i : Nat) : Nat :=
  (octets.getD i 0).toNat

/-- The big-endian 16-bit number at an offset, octets past the end being zero. -/
def nat16At (octets : Octets) (i : Nat) : Nat :=
  octets.at0 i * 256 + octets.at0 (i + 1)

/-- The `count` octets from `start` on, or those of them that exist. -/
def slice (octets : Octets) (start count : Nat) : Octets :=
  (octets.drop start).take count

/-- Whether there are at least `count` octets; only that many are looked at. -/
def reaches (octets : Octets) : Nat → Bool
  | 0 => true
  | n + 1 => !(octets.drop n).isEmpty

@[simp] theorem reaches_iff (octets : Octets) (count : Nat) :
    octets.reaches count = true ↔ count ≤ octets.length := by
  cases count with
  | zero => simp [reaches]
  | succ n =>
    simp only [reaches, Bool.not_eq_true', List.isEmpty_eq_false_iff, ne_eq, List.drop_eq_nil_iff]
    omega

@[simp] theorem length_ofWord16 (w : UInt16) : (ofWord16 w).length = 2 := rfl

@[simp] theorem length_ofWord32 (w : UInt32) : (ofWord32 w).length = 4 := rfl

/-! ## Hash -/

/-- The 64-bit FNV-1a hash: each octet is mixed in by exclusive or and then
    multiplied through, modulo 2^64. -/
def fnv1a64 (octets : Octets) : UInt64 :=
  octets.foldl (fun h b => (h ^^^ b.toUInt64) * 0x100000001b3) 0xcbf29ce484222325

end Octets

end PassiveDns
