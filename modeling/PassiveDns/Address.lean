/-
  PassiveDns.Address

  Internet addresses: their octets, their text, and masks that clear all bits
  behind a prefix. Addresses are written in their canonical form and read in any
  form.
-/
import PassiveDns.Octets
import PassiveDns.Text.Digits
import PassiveDns.Text.Split

namespace PassiveDns

/-- The two versions of the Internet protocol. -/
inductive IpVersion where
  | v4
  | v6
deriving Repr, DecidableEq, Inhabited

namespace IpVersion

/-- The number of a version. -/
def number : IpVersion → Nat
  | v4 => 4
  | v6 => 6

/-- The name of a version. -/
def label : IpVersion → String
  | v4 => "ipv4"
  | v6 => "ipv6"

end IpVersion

/-- An address of version 4. -/
abbrev IPv4 := BitVec 32

/-- An address of version 6. -/
abbrev IPv6 := BitVec 128

/-- An Internet address. -/
inductive Address where
  | v4 (bits : IPv4)
  | v6 (bits : IPv6)
deriving Repr, DecidableEq, Inhabited

namespace Address

/-- The version of an address. -/
def version : Address → IpVersion
  | v4 _ => .v4
  | v6 _ => .v6

/-- The octets of an address, as they travel. -/
def octets : Address → Octets
  | v4 bits => Octets.ofNatBE 4 bits.toNat
  | v6 bits => Octets.ofNatBE 16 bits.toNat

/-- The version 4 address that four octets spell. -/
def v4OfOctets (octets : Octets) : Address := .v4 (BitVec.ofNat 32 octets.toNatBE)

/-- The version 6 address that sixteen octets spell. -/
def v6OfOctets (octets : Octets) : Address := .v6 (BitVec.ofNat 128 octets.toNatBE)

/-! ## Text -/

/-- Four decimal numbers with dots between them. -/
def dottedQuad (n : Nat) : String :=
  ".".intercalate ((Octets.ofNatBE 4 n).map fun b => toString b.toNat)

/-- The eight 16-bit groups of a version 6 address. -/
def groups (bits : IPv6) : List Nat :=
  (List.range 8).map fun i => (bits.toNat >>> (16 * (7 - i))) % 65536

/-- The length of the run of zeros that a list of groups begins with. -/
def zeroRun (groups : List Nat) : Nat :=
  (groups.takeWhile (· = 0)).length

/-- Start and length of the longest run of zero groups, the first of equals. -/
def longestZeroRun (groups : List Nat) : Nat × Nat :=
  (List.range 8).foldl (fun best i =>
    let run := zeroRun (groups.drop i)
    if best.2 < run then (i, run) else best) (0, 0)

/-- Groups in hexadecimal with colons between them. -/
def colonHex (groups : List Nat) : String :=
  ":".intercalate (groups.map fun g => String.ofList (Nat.toDigits 16 g))

/-- The canonical text of a version 6 address: the longest run of at least two
    zero groups becomes a double colon, and an address that embeds a version 4
    address behind ten zero octets and two of ones shows that with dots. -/
def textV6 (bits : IPv6) : String :=
  if bits.toNat / 4294967296 = 0xFFFF then "::ffff:" ++ dottedQuad (bits.toNat % 4294967296)
  else
    let all := groups bits
    let (start, run) := longestZeroRun all
    if 1 < run then colonHex (all.take start) ++ "::" ++ colonHex (all.drop (start + run))
    else colonHex all

/-- The text of an address. -/
def text : Address → String
  | v4 bits => dottedQuad bits.toNat
  | v6 bits => textV6 bits

/-! ## Reading -/

/-- A decimal number of an octet. -/
def octetNumber? (digits : List Char) : Option Nat :=
  if digits.length ≤ 3 then (Text.number? 10 digits).filter (· < 256) else none

/-- Four octets with dots between them, as one number. -/
def quad? (text : List Char) : Option Nat := do
  let pieces := Text.splitOn '.' text
  if pieces.length = 4 then
    let octets ← pieces.mapM octetNumber?
    some (octets.foldl (fun n octet => n * 256 + octet) 0)
  else none

/-- The groups that a piece between colons stands for: one, or two if it is a
    version 4 address, which only the last piece may be. -/
def groupsOfPiece? (isLast : Bool) (piece : List Char) : Option (List Nat) :=
  if isLast && piece.contains '.' then (quad? piece).map fun n => [n / 65536, n % 65536]
  else if piece.length ≤ 4 then (Text.number? 16 piece).map fun n => [n]
  else none

/-- The groups of the pieces between colons. -/
def groupsOfPieces? (isEnd : Bool) : List (List Char) → Option (List Nat)
  | [] => some []
  | piece :: rest => do
    let first ← groupsOfPiece? (isEnd && rest.isEmpty) piece
    let others ← groupsOfPieces? isEnd rest
    some (first ++ others)

/-- The groups of a text without a double colon. -/
def groups? (isEnd : Bool) (text : List Char) : Option (List Nat) :=
  if text.isEmpty then some [] else groupsOfPieces? isEnd (Text.splitOn ':' text)

/-- What stands in front of the first double colon, and what behind it. -/
def cutDoubleColon : List Char → Option (List Char × List Char)
  | ':' :: ':' :: rest => some ([], rest)
  | c :: rest => (cutDoubleColon rest).map fun (front, back) => (c :: front, back)
  | [] => none

/-- The number of a version 6 address. A double colon stands for all the zero
    groups that are missing, at least one. -/
def numberV6? (text : List Char) : Option Nat := do
  let all ← match cutDoubleColon text with
    | none => (groups? true text).filter (·.length = 8)
    | some (front, back) => do
      let front ← groups? false front
      let back ← groups? true back
      let missing := 8 - (front.length + back.length)
      if 0 < missing then some (front ++ List.replicate missing 0 ++ back) else none
  some (all.foldl (fun n group => n * 65536 + group) 0)

/-- The address that a text says, if it says one. -/
def ofText? (text : String) : Option Address :=
  match quad? text.toList with
  | some n => some (.v4 (BitVec.ofNat 32 n))
  | none => (numberV6? text.toList).map fun n => .v6 (BitVec.ofNat 128 n)

/-! ## Masks -/

/-- Keeps the first `length` bits and clears the rest. A prefix longer than the
    address leaves it as it is. -/
def keepPrefix {width : Nat} (length : Nat) (bits : BitVec width) : BitVec width :=
  (bits >>> (width - length)) <<< (width - length)

/-- Keeps a prefix whose length depends on the version. -/
def mask (length4 length6 : Nat) : Address → Address
  | v4 bits => .v4 (keepPrefix length4 bits)
  | v6 bits => .v6 (keepPrefix length6 bits)

end Address

end PassiveDns
