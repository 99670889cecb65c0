/-
  PassiveDns.Dns.Name

  Domain names: their text, in which each label is followed by a dot, and their
  two forms on the wire, plain labels and pointers to labels written before.
  `Name.walk` follows labels and pointers to the end of a name and is the whole
  of reading one; `Writer.name` writes one and points at the longest suffix that
  is remembered.
-/
import PassiveDns.Dns.Wire
import PassiveDns.Text.Split

namespace PassiveDns.Dns

namespace Name

/-- The most pointers that are followed in one name. -/
def maxJumps : Nat := 32

/-- The most octets in a name, one being counted for the dot after each label. -/
def maxLength : Nat := 255

/-- The longest label. -/
def maxLabel : Nat := 63

/-- Offsets from here on do not fit a pointer. -/
def pointerLimit : Nat := 0x3FFF

/-! ## Text -/

/-- The labels of a name's text: the pieces between dots that are not empty. -/
def labels (name : String) : List String :=
  ((Text.splitOn '.' name.toList).filter fun piece => !piece.isEmpty).map String.ofList

/-- The labels, each followed by a dot. -/
def dotted (labels : List String) : String :=
  String.ofList (labels.flatMap fun label => label.toList ++ ['.'])

/-- The labels with dots between them, under which a suffix is remembered. -/
def joined (labels : List String) : String :=
  ".".intercalate labels

/-! ## Following a name -/

/-- How following a name ends: the labels or why there are none, and where
    reading goes on, if the walk got far enough to say. -/
structure Walk where
  labels : Except WireError (List Octets)
  resume : Option Nat
deriving Inhabited

/-- Whether the first octet of a label is that of a pointer. -/
def isPointer (b : UInt8) : Bool := 192 ≤ b.toNat

/-- The offset that a pointer's two octets name. -/
def target (hi lo : UInt8) : Nat := (hi.toNat - 192) * 256 + lo.toNat

/-- Follows labels and pointers from `start`, when `jumps` pointers have been
    followed and the labels so far take `used` octets. Reading goes on behind
    the first pointer, or behind the closing zero if there is no pointer. -/
def walk (octets : Array UInt8) (start jumps used : Nat) : Walk :=
  match octets[start]? with
  | none => ⟨.error .endOfBuffer, none⟩
  | some b =>
    if isPointer b then
      if maxJumps ≤ jumps then ⟨.error .tooManyJumps, none⟩
      else
        match octets[start + 1]? with
        | none => ⟨.error .endOfBuffer, none⟩
        | some lo =>
          ⟨(walk octets (target b lo) (jumps + 1) used).labels, some (start + 2)⟩
    else if 64 ≤ b.toNat then ⟨.error .badLabel, none⟩
    else if b.toNat = 0 then ⟨.ok [], some (start + 1)⟩
    else if maxLength < used + (b.toNat + 1) then ⟨.error .nameTooLong, none⟩
    else if start + 1 + b.toNat ≤ octets.size then
      let label := (octets.extract (start + 1) (start + 1 + b.toNat)).toList
      let rest := walk octets (start + 1 + b.toNat) jumps (used + (b.toNat + 1))
      ⟨rest.labels.map (label :: ·), rest.resume⟩
    else ⟨.error .endOfBuffer, none⟩
termination_by (maxJumps - jumps) + (maxLength - used)

end Name

/-- Reads a name. Its labels, each followed by a dot, come behind the text
    `before`; if there is still no text, the name is that of the root, a dot. -/
def Reader.nameAfter (before : String) : Reader String := do
  let walk := Name.walk (← read).octets (← Reader.position) 0 0
  match walk.resume with
  | some i => Reader.seek i
  | none => pure ()
  match walk.labels with
  | .error cause => throw cause
  | .ok labels =>
    let name := before ++ Name.dotted (labels.map Text.Utf8.toStringLossy)
    pure (if name.isEmpty then "." else name)

/-- Reads a name. -/
def Reader.name : Reader String := Reader.nameAfter ""

/-- Writes labels. From the first one on whose suffix is remembered, a pointer
    stands for the rest; every suffix written in full is remembered before it is
    written, as long as its offset fits a pointer. -/
def Writer.labels : List String → Writer Unit
  | [] => Writer.octet 0
  | label :: rest => do
    let octets := Text.Utf8.ofString label
    if Name.maxLabel < octets.length then throw .labelTooLong
    let suffix := Name.joined (label :: rest)
    match ← Writer.suffix? suffix with
    | some i => Writer.word16 (UInt16.ofNat i ||| 0xC000)
    | none =>
      let i ← Writer.position
      if i < Name.pointerLimit then Writer.remember suffix i
      Writer.octet (UInt8.ofNat octets.length)
      Writer.octets octets
      Writer.labels rest

/-- Writes a name. -/
def Writer.name (name : String) : Writer Unit := Writer.labels (Name.labels name)

end PassiveDns.Dns
