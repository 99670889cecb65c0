/-
  PassiveDns.Capture.Classic

  The classic capture format: a header that says in which order octets stand,
  how fine time is and what frames begin with, and then one record per frame.
-/
import PassiveDns.Capture.Window
import PassiveDns.Packet.Basic

namespace PassiveDns.Capture.Classic

/-- What the header decides for all records. -/
structure Layout where
  bigEndian : Bool
  nanoseconds : Bool
deriving Repr, DecidableEq, Inhabited

/-- The layout that the first four octets, read with the lowest first, announce. -/
def Layout.ofMagic? (magic : Nat) : Option Layout :=
  match magic with
  | 0xa1b2c3d4 => some ⟨false, false⟩
  | 0xa1b23c4d => some ⟨false, true⟩
  | 0xd4c3b2a1 => some ⟨true, false⟩
  | 0x4d3cb2a1 => some ⟨true, true⟩
  | _ => none

/-- The number of octets still missing for the field that ends short, if the
    fields, whose sizes are given, do not all fit into what is on hand. -/
def missingFor (onHand : Nat) : List Nat → Option Nat
  | [] => none
  | size :: sizes =>
    if onHand < size then some (size - onHand) else missingFor (onHand - size) sizes

/-- Reads the header, whose link number has a sign. -/
def header (layout : Layout) (data : Octets) (onHand : Nat) : Parsed Int :=
  match missingFor onHand [4, 2, 2, 4, 4, 4, 4] with
  | some count => .missing count
  | none => .ok (signed32 (numberAt layout.bigEndian data 20 4)) 24

/-- The nanoseconds of a record. Microseconds are multiplied in 32 bits, and the
    largest number stands for what does not fit. -/
def nanosOf (layout : Layout) (fraction : Nat) : Nat :=
  if layout.nanoseconds then fraction else min (fraction * 1000) 4294967295

/-- Reads a record: time, two lengths, and the frame, which is as long as the
    first of them says. -/
def record (layout : Layout) (data : Octets) (onHand : Nat) : Parsed Frame :=
  let field (i : Nat) : Nat := numberAt layout.bigEndian data (4 * i) 4
  match missingFor onHand [4, 4, 4, 4] with
  | some count => .missing count
  | none =>
    let length := field 2
    if onHand - 16 < length then .missing (length - (onHand - 16))
    else
      .ok ⟨data.slice 16 length, Timestamp.ofParts? (field 0) (nanosOf layout (field 1))⟩
        (16 + length)

end PassiveDns.Capture.Classic
