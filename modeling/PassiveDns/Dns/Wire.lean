/-
  PassiveDns.Dns.Wire

  The octets of a DNS message under a cursor: reading steps (`Reader`), which
  only move the cursor, and writing steps (`Writer`), which also change the
  octets and remember where name suffixes were written. A step that fails keeps
  whatever it did before it failed.

  A message is either a view of captured octets, whose cursor never leaves it
  and which refuses writes, or a draft that grows.
-/
import PassiveDns.Octets
import PassiveDns.Text.Utf8

namespace PassiveDns.Dns

/-- Why a message cannot be read or written. -/
inductive WireError where
  | endOfBuffer
  | readOnly
  | labelTooLong
  | badLabel
  | nameTooLong
  | tooManyJumps
deriving Repr, DecidableEq, Inhabited

namespace WireError

/-- What is reported for each cause. -/
def message : WireError → String
  | endOfBuffer => "end of buffer"
  | readOnly => "buffer is read only"
  | labelTooLong => "label longer than 63 bytes"
  | badLabel => "reserved label type"
  | nameTooLong => "name longer than 255 bytes"
  | tooManyJumps => "too many compression pointers"

end WireError

/-- What may be done to a message: a view has a fixed extent, which its cursor
    never leaves, and a draft is written to and lets its cursor stand anywhere. -/
inductive Access where
  | view
  | draft
deriving Repr, DecidableEq, Inhabited

/-- What two steps come to can be compared. -/
instance decEqResult {ε σ α : Type} [DecidableEq ε] [DecidableEq σ] [DecidableEq α] :
    DecidableEq (EStateM.Result ε σ α)
  | .ok a s, .ok b t => decidable_of_iff (a = b ∧ s = t) (by simp)
  | .error a s, .error b t => decidable_of_iff (a = b ∧ s = t) (by simp)
  | .ok .., .error .. => .isFalse (by simp)
  | .error .., .ok .. => .isFalse (by simp)

/-! ## Reading -/

/-- What a reading step sees. -/
structure Source where
  octets : Array UInt8
  access : Access
deriving Repr, DecidableEq, Inhabited

/-- A step that reads at a cursor and moves it. -/
abbrev Reader := ReaderT Source (EStateM WireError Nat)

namespace Reader

/-- Where the cursor stands. -/
def position : Reader Nat := get

/-- The octet at a position; the cursor stays. -/
def octetAt (i : Nat) : Reader UInt8 := do
  match (← read).octets[i]? with
  | some b => pure b
  | none => throw .endOfBuffer

/-- The octets of a range that lies in the message; the cursor stays. -/
def range (start count : Nat) : Reader Octets := do
  let octets := (← read).octets
  if start + count ≤ octets.size then pure (octets.extract start (start + count)).toList
  else throw .endOfBuffer

/-- Puts the cursor at a position. In a view the position must not lie past the
    end. -/
def seek (i : Nat) : Reader Unit := do
  let source ← read
  match source.access with
  | .view => if i ≤ source.octets.size then set i else throw .endOfBuffer
  | .draft => set i

/-- Moves the cursor ahead. -/
def skip (count : Nat) : Reader Unit := do
  seek ((← position) + count)

/-- The next octet. -/
def octet : Reader UInt8 := do
  let i ← position
  let b ← octetAt i
  set (i + 1)
  pure b

/-- The next 16-bit word. -/
def word16 : Reader UInt16 := do
  let hi ← octet
  let lo ← octet
  pure (Octets.word16 hi lo)

/-- The next 32-bit word. -/
def word32 : Reader UInt32 := do
  let a ← octet
  let b ← octet
  let c ← octet
  let d ← octet
  pure (Octets.word32 a b c d)

/-- Takes the same step `count` times and collects the values. -/
def times {α : Type} (count : Nat) (step : Reader α) : Reader (List α) :=
  match count with
  | 0 => pure []
  | n + 1 => do
    let value ← step
    let values ← times n step
    pure (value :: values)

end Reader

/-! ## Writing -/

/-- A message under a cursor. `suffixes` says where a name suffix was written,
    the newest entry first. -/
structure Wire where
  octets : Array UInt8
  position : Nat
  access : Access
  suffixes : List (String × Nat)
deriving Repr, DecidableEq, Inhabited

namespace Wire

/-- A draft without octets. -/
def empty : Wire := ⟨#[], 0, .draft, []⟩

/-- A view of captured octets, at their start. -/
def ofCaptured (octets : Octets) : Wire := ⟨octets.toArray, 0, .view, []⟩

/-- The number of octets between the cursor and the end. -/
def remaining (wire : Wire) : Nat := wire.octets.size - wire.position

/-- What reading steps see of the message. -/
def source (wire : Wire) : Source := ⟨wire.octets, wire.access⟩

/-- Takes a reading step at the cursor. -/
def read {α : Type} (step : Reader α) (wire : Wire) :
    EStateM.Result WireError Wire α :=
  match step wire.source wire.position with
  | .ok value position => .ok value { wire with position }
  | .error cause position => .error cause { wire with position }

end Wire

/-- A step that writes into a message. -/
abbrev Writer := EStateM WireError Wire

namespace Writer

/-- Writes one octet at the cursor: over the one that stands there, or else
    behind the last one. -/
def octet (b : UInt8) : Writer Unit := fun wire =>
  match wire.access with
  | .view => .error .readOnly wire
  | .draft =>
    .ok () { wire with
      octets :=
        if wire.position < wire.octets.size then wire.octets.setIfInBounds wire.position b
        else wire.octets.push b
      position := wire.position + 1 }

/-- Writes octets one after the other. -/
def octets : Octets → Writer Unit
  | [] => pure ()
  | b :: rest => do
    octet b
    octets rest

/-- Writes a 16-bit word. -/
def word16 (w : UInt16) : Writer Unit := octets (Octets.ofWord16 w)

/-- Writes a 32-bit word. -/
def word32 (w : UInt32) : Writer Unit := octets (Octets.ofWord32 w)

/-- Replaces the octet at a position; the cursor stays. -/
def setOctet (i : Nat) (b : UInt8) : Writer Unit := fun wire =>
  match wire.access with
  | .view => .error .readOnly wire
  | .draft =>
    if i < wire.octets.size then
      .ok () { wire with octets := wire.octets.setIfInBounds i b }
    else .error .endOfBuffer wire

/-- Replaces the 16-bit word at a position; the cursor stays. -/
def setWord16 (i : Nat) (w : UInt16) : Writer Unit := do
  setOctet i (UInt8.ofNat (w.toNat / 256))
  setOctet (i + 1) (UInt8.ofNat w.toNat)

/-- Where the cursor stands. -/
def position : Writer Nat := return (← get).position

/-- Where a suffix was written. A view remembers none. -/
def suffix? (suffix : String) : Writer (Option Nat) := do
  let wire ← get
  match wire.access with
  | .view => pure none
  | .draft => pure (wire.suffixes.lookup suffix)

/-- Remembers where a suffix is written. A view does not. -/
def remember (suffix : String) (i : Nat) : Writer Unit :=
  modify fun wire =>
    match wire.access with
    | .view => wire
    | .draft => { wire with suffixes := (suffix, i) :: wire.suffixes }

end Writer

end PassiveDns.Dns
