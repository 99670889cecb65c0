/-
  PassiveDns.Proofs.Masking

  What a mask leaves of an address: the bits of the prefix are as before, and all behind them are
  zero (`Address.bit_mask`). So addresses that begin with the same prefix are recorded alike, and
  with them all that is observed of a payload (`Observer.host_bits_hidden`).
-/
import Mathlib.Tactic.Common
import PassiveDns.Observation

namespace PassiveDns

/-- Of two lengths the one for a version. -/
def IpVersion.prefixLength (length4 length6 : Nat) : IpVersion → Nat
  | .v4 => length4
  | .v6 => length6

namespace Address

variable {address other : Address} {length4 length6 : Nat}

/-- The bit of an address at a place; the first to travel is at place 0. -/
def bit : Address → Nat → Bool
  | v4 bits => bits.getMsbD
  | v6 bits => bits.getMsbD

/-- Addresses of one version with the same first bits. -/
structure SharePrefix (length : Nat) (address other : Address) : Prop where
  version : address.version = other.version
  bits : ∀ i < length, address.bit i = other.bit i

theorem getMsbD_keepPrefix {width : Nat} (length : Nat) (bits : BitVec width) (i : Nat) :
    (keepPrefix length bits).getMsbD i = (decide (i < length) && bits.getMsbD i) := by
  rw [keepPrefix, BitVec.getMsbD_shiftLeft, BitVec.getMsbD_ushiftRight, Nat.add_sub_cancel]
  by_cases hi : i < width
  · have hplace : (i + (width - length) < width) = (i < length) := propext (by omega)
    have hbehind : ¬i + (width - length) < width - length := by omega
    rw [decide_eq_false hbehind, Bool.not_false, Bool.true_and]
    simp only [hplace]
  · -- there are no bits there
    rw [BitVec.getMsbD_of_ge bits i (Nat.le_of_not_lt hi), Bool.and_false, Bool.and_false,
      Bool.and_false]

@[simp] theorem version_mask (address : Address) (length4 length6 : Nat) :
    (address.mask length4 length6).version = address.version := by
  cases address <;> rfl

/-- A mask keeps the bits of the prefix and clears all others. -/
theorem bit_mask (address : Address) (length4 length6 i : Nat) :
    (address.mask length4 length6).bit i =
      (decide (i < address.version.prefixLength length4 length6) && address.bit i) := by
  cases address with
  | v4 bits => exact getMsbD_keepPrefix length4 bits i
  | v6 bits => exact getMsbD_keepPrefix length6 bits i

/-- An address is told by its version and its bits. -/
theorem ext_bit (hversion : address.version = other.version)
    (hbits : ∀ i, address.bit i = other.bit i) : address = other := by
  cases address with
  | v4 bits =>
    cases other with
    | v4 others => exact congrArg v4 (BitVec.eq_of_getMsbD_eq fun i _ => hbits i)
    | v6 => cases hversion
  | v6 bits =>
    cases other with
    | v4 => cases hversion
    | v6 others => exact congrArg v6 (BitVec.eq_of_getMsbD_eq fun i _ => hbits i)

/-- Addresses with a common prefix are the same behind a mask that keeps this prefix. -/
theorem SharePrefix.mask_eq
    (h : SharePrefix (address.version.prefixLength length4 length6) address other) :
    address.mask length4 length6 = other.mask length4 length6 := by
  refine ext_bit (by simpa using h.version) fun i => ?_
  rw [bit_mask, bit_mask, ← h.version]
  by_cases hi : i < address.version.prefixLength length4 length6
  · rw [h.bits i hi]
  · rw [decide_eq_false hi, Bool.false_and, Bool.false_and]

/-- A mask behind another one that keeps at least as much clears what it would clear alone. -/
theorem mask_mask (address : Address) {longer4 longer6 : Nat} (h4 : length4 ≤ longer4)
    (h6 : length6 ≤ longer6) :
    (address.mask longer4 longer6).mask length4 length6 = address.mask length4 length6 := by
  refine SharePrefix.mask_eq ⟨version_mask .., fun i hi => ?_⟩
  rw [version_mask] at hi
  have hle : address.version.prefixLength length4 length6 ≤
      address.version.prefixLength longer4 longer6 := by
    cases address.version with
    | v4 => exact h4
    | v6 => exact h6
  rw [bit_mask, decide_eq_true (Nat.lt_of_lt_of_le hi hle), Bool.true_and]

end Address

namespace Observer

section Observed

variable {observer : Observer} {header other : IpHeader}

/-- The length of the prefix that is kept of addresses of a version. -/
def prefixLength (observer : Observer) (version : IpVersion) : Nat :=
  version.prefixLength observer.mask4 observer.mask6

/-- Headers of one version, with addresses of that version, that differ only behind the prefixes
    that are kept, or in the protocol. -/
structure Alike (observer : Observer) (header other : IpHeader) : Prop where
  version : header.version = other.version
  source_version : header.source.version = header.version
  destination_version : header.destination.version = header.version
  source : Address.SharePrefix (observer.prefixLength header.version) header.source other.source
  destination : Address.SharePrefix (observer.prefixLength header.version) header.destination
    other.destination

/-- What is recorded of an address. -/
structure Recorded (observer : Observer) (address recorded : Address) : Prop where
  version : recorded.version = address.version
  /-- The bits of the prefix are kept. -/
  kept : ∀ i < observer.prefixLength address.version, recorded.bit i = address.bit i
  /-- All others are cleared. -/
  cleared : ∀ i, observer.prefixLength address.version ≤ i → recorded.bit i = false
  /-- It is recorded as it is. -/
  again : recorded.mask observer.mask4 observer.mask6 = recorded
  /-- Cutting more off leaves what is left if that is cut off at once. -/
  shorter : ∀ length4 ≤ observer.mask4, ∀ length6 ≤ observer.mask6,
    recorded.mask length4 length6 = address.mask length4 length6

theorem recorded_mask (observer : Observer) (address : Address) :
    observer.Recorded address (address.mask observer.mask4 observer.mask6) where
  version := Address.version_mask ..
  kept := fun i hi => by
    rw [prefixLength] at hi
    rw [Address.bit_mask, decide_eq_true hi, Bool.true_and]
  cleared := fun i hi => by
    rw [prefixLength] at hi
    rw [Address.bit_mask, decide_eq_false (Nat.not_lt_of_le hi), Bool.false_and]
  again := address.mask_mask (Nat.le_refl _) (Nat.le_refl _)
  shorter := fun _ h4 _ h6 => address.mask_mask h4 h6

/-- What is recorded of the addresses is what a mask leaves of them. -/
theorem observe_inv {now : Timestamp} {transport : Transport} {carried : Carried}
    {observation : Observation} (h : observer.observe now transport carried = .ok observation) :
    observation.source = carried.header.source.mask observer.mask4 observer.mask6 ∧
      observation.destination = carried.header.destination.mask observer.mask4 observer.mask6 := by
  rw [observe] at h
  cases hmessage : Dns.Message.ofOctets carried.payload with
  | error fault =>
    rw [hmessage] at h
    cases h
  | ok message =>
    rw [hmessage] at h
    obtain rfl := Except.ok.inj h
    exact ⟨rfl, rfl⟩

/-- **No bit behind the prefixes is told.** Whatever is carried with a time, over whatever
    transport and ports: two headers that an observer sees alike give the same observation, or
    the same fault. Of each address the prefix is recorded, and zeros behind it. -/
theorem host_bits_hidden (h : observer.Alike header other) (transport : Transport)
    (sourcePort destinationPort : UInt16) (payload : Octets) (time now now' : Timestamp) :
    let one : Carried := ⟨header, sourcePort, destinationPort, payload, some time⟩
    let another : Carried := ⟨other, sourcePort, destinationPort, payload, some time⟩
    observer.observe now transport one = observer.observe now' transport another ∧
      ∀ observation, observer.observe now transport one = .ok observation →
        observer.Recorded header.source observation.source ∧
          observer.Recorded header.destination observation.destination := by
  intro one another
  constructor
  · have hsource := h.source
    have hdestination := h.destination
    rw [prefixLength, ← h.source_version] at hsource
    rw [prefixLength, ← h.destination_version] at hdestination
    rw [observe, observe]
    dsimp only [one, another]
    rw [hsource.mask_eq, hdestination.mask_eq, h.version]
    rfl
  · intro observation hobservation
    obtain ⟨hsource, hdestination⟩ := observe_inv hobservation
    rw [hsource, hdestination]
    exact ⟨recorded_mask observer _, recorded_mask observer _⟩

end Observed

/-! ### Two hosts of one network -/

namespace Neighbours

/-- Three octets are kept of addresses of version 4, and six of those of version 6. -/
def observer : Observer := ⟨24, 48, none⟩

/-- From `2001:db8:abcd:12::1` to `::1`. -/
def header : IpHeader :=
  ⟨.v6, .v6 0x20010db8abcd00120000000000000001#128, .v6 1#128, 17⟩

/-- From `2001:db8:abcd:ffff::2` to `::8000:0:2`. -/
def other : IpHeader :=
  ⟨.v6, .v6 0x20010db8abcdffff0000000000000002#128, .v6 0x800000000002#128, 17⟩

/-- A message without questions or records. -/
def payload : Octets := List.replicate 12 0

/-- What is observed of either host is the same, and is from `2001:db8:abcd::`. -/
theorem host_bits_hidden_neighbours :
    observer.Alike header other ∧
      let one : Carried := ⟨header, 40000, 53, payload, some ⟨1700000000, 0⟩⟩
      let another : Carried := ⟨other, 40000, 53, payload, some ⟨1700000000, 0⟩⟩
      observer.observe ⟨1, 0⟩ .udp one = observer.observe ⟨2, 0⟩ .udp another ∧
        ∃ observation, observer.observe ⟨1, 0⟩ .udp one = .ok observation ∧
          observer.Recorded header.source observation.source ∧
          observation.source = .v6 0x20010db8abcd00000000000000000000#128 := by
  have halike : observer.Alike header other :=
    ⟨rfl, rfl, rfl, ⟨rfl, by decide⟩, ⟨rfl, by decide⟩⟩
  obtain ⟨hsame, hrecorded⟩ := host_bits_hidden halike .udp 40000 53 payload
    ⟨1700000000, 0⟩ ⟨1, 0⟩ ⟨2, 0⟩
  refine ⟨halike, hsame, ?_⟩
  have hreads : (observer.observe ⟨1, 0⟩ .udp
      ⟨header, 40000, 53, payload, some ⟨1700000000, 0⟩⟩).isOk = true := by
    decide
  cases hobservation : observer.observe ⟨1, 0⟩ .udp
      ⟨header, 40000, 53, payload, some ⟨1700000000, 0⟩⟩ with
  | error fault =>
    rw [hobservation] at hreads
    cases hreads
  | ok observation =>
    refine ⟨observation, rfl, (hrecorded observation hobservation).1, ?_⟩
    rw [(observe_inv hobservation).1]
    decide

end Neighbours

end Observer

end PassiveDns
