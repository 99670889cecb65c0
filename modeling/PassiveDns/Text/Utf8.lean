/-
  PassiveDns.Text.Utf8

  UTF-8 in both directions. Reading never fails: each longest piece that begins
  like an encoded character but is none becomes one U+FFFD, and reading goes on
  at the octet that broke it.
-/
import PassiveDns.Octets

namespace PassiveDns.Text.Utf8

/-- The UTF-8 octets of a text. -/
def encode (text : List Char) : Octets :=
  text.flatMap String.utf8EncodeChar

/-- The character that stands for octets that are no text. -/
def replacement : Char := '\uFFFD'

/-- What a first octet announces: the bits it contributes and, for each octet
    that has to follow, the range it must lie in. The first range is narrower
    where it keeps out overlong forms, surrogates and numbers above 10FFFF. -/
def lead? (b : UInt8) : Option (Nat × List (Nat × Nat)) :=
  let n := b.toNat
  if n < 0x80 then some (n, [])
  else if n < 0xC2 then none
  else if n < 0xE0 then some (n - 0xC0, [(0x80, 0xBF)])
  else if n = 0xE0 then some (0, [(0xA0, 0xBF), (0x80, 0xBF)])
  else if n = 0xED then some (13, [(0x80, 0x9F), (0x80, 0xBF)])
  else if n < 0xF0 then some (n - 0xE0, [(0x80, 0xBF), (0x80, 0xBF)])
  else if n = 0xF0 then some (0, [(0x90, 0xBF), (0x80, 0xBF), (0x80, 0xBF)])
  else if n < 0xF4 then some (n - 0xF0, [(0x80, 0xBF), (0x80, 0xBF), (0x80, 0xBF)])
  else if n = 0xF4 then some (4, [(0x80, 0x8F), (0x80, 0xBF), (0x80, 0xBF)])
  else none

/-- Reads the octets that have to follow, six bits from each. Stops at the first
    octet out of its range, which stays unread. -/
def follow (bits : Nat) : List (Nat × Nat) → Octets → Char × Octets
  | [], rest => (Char.ofNat bits, rest)
  | _ :: _, [] => (replacement, [])
  | (lo, hi) :: ranges, b :: rest =>
    if lo ≤ b.toNat ∧ b.toNat ≤ hi then follow (bits * 64 + b.toNat % 64) ranges rest
    else (replacement, b :: rest)

theorem length_follow_le (bits : Nat) (ranges : List (Nat × Nat)) (rest : Octets) :
    (follow bits ranges rest).2.length ≤ rest.length := by
  fun_induction follow bits ranges rest with
  | case1 => simp
  | case2 => simp
  | case3 _ _ _ _ _ _ _ ih => simp only [List.length_cons]; omega
  | case4 => simp

/-- The text that the octets spell, with U+FFFD for what spells none. -/
def decodeLossy : Octets → List Char
  | [] => []
  | b :: rest =>
    match lead? b with
    | none => replacement :: decodeLossy rest
    | some (bits, ranges) =>
      (follow bits ranges rest).1 :: decodeLossy (follow bits ranges rest).2
termination_by octets => octets.length
decreasing_by
  · simp
  · have := length_follow_le bits ranges rest
    simp only [List.length_cons]
    omega

/-- The text of octets as a string. -/
def toStringLossy (octets : Octets) : String :=
  String.ofList (decodeLossy octets)

/-- The UTF-8 octets of a string. -/
def ofString (s : String) : Octets :=
  encode s.toList

/-- The text of octets that are valid UTF-8, which are those that reading and
    writing again leaves as they are. -/
def decode? (octets : Octets) : Option String :=
  let text := decodeLossy octets
  if encode text = octets then some (String.ofList text) else none

end PassiveDns.Text.Utf8
