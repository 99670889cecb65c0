/-
  PassiveDns.Capture.Blocks

  The block format of captures: sections, each with its own order of octets and
  its own interfaces, and blocks of several types, most of which are skipped.
  Every block gives its length before its content and again behind it.
-/
import PassiveDns.Capture.Window
import PassiveDns.Packet.Basic

namespace PassiveDns.Capture.Blocks

/-- The blocks that matter. -/
inductive Block where
  | sectionStart (bigEndian : Bool)
  | interface (link : Int)
  | enhanced (interface : Nat) (micros : Nat) (octets : Octets)
  | simple (octets : Octets)
  | other
deriving Repr, DecidableEq, Inhabited

/-- The type of a section header, the same in both orders of octets. -/
def sectionType : Nat := 0x0a0d0d0a

/-- The number in a section header that shows the order of octets. -/
def orderMark : Nat := 0x1a2b3c4d

/-- What the content of a block yields: the block, octets that its content lacks,
    or a refusal that shows what was left to read. -/
inductive Content where
  | block (block : Block)
  | missing (count : Nat)
  | refused (input : Octets)
deriving Repr, DecidableEq, Inhabited

/-- Reads a block of at least `least` octets; `content` reads what stands between
    the two lengths, and is told both. -/
def framed (bigEndian : Bool) (least : Nat) (content : Octets → Nat → Nat → Content)
    (data : Octets) (onHand : Nat) : Parsed Block :=
  if onHand < least then .missing (least - onHand)
  else
    let length := numberAt bigEndian data 4 4
    let body := length - 12
    if length < least then .bad (.refused ((data.take onHand).drop 8))
    else if onHand - 8 < body then .missing (body - (onHand - 8))
    else if onHand < length then .missing (length - onHand)
    else
      match content (data.slice 8 body) length (numberAt bigEndian data (8 + body) 4) with
      | .block block => .ok block length
      | .missing count => .missing count
      | .refused input => .bad (.refused input)

/-- A block whose two lengths must agree; `rest` is what its content leaves unread. -/
def agreeing (block : Block) (rest : Octets) (length again : Nat) : Content :=
  if again = length then .block block else .refused rest

/-- The number of octets rounded up to a multiple of four. -/
def padded (n : Nat) : Nat := (n + 3) / 4 * 4

/-- How many of its first `n` octets a content lacks. -/
def lacking (octets : Octets) (n : Nat) : Nat := n - (octets.take n).length

/-- What a content yields that lacks so many octets: `whole` if it lacks none. -/
def complete (lack : Nat) (whole : Content) : Content :=
  if lack = 0 then whole else .missing lack

/-- What a content yields that has `count` octets of padded data behind its first
    `ahead` octets. A count that could not be rounded up within 32 bits is refused,
    and `unread` is shown. -/
def holding (content : Octets) (ahead count : Nat) (unread : Octets) (whole : Content) :
    Content :=
  if 4294967291 ≤ count then .refused unread
  else complete (lacking content (ahead + padded count)) whole

/-- The content of an enhanced packet. -/
def enhanced (bigEndian : Bool) (content : Octets) (length again : Nat) : Content :=
  let field (i : Nat) : Nat := numberAt bigEndian content (4 * i) 4
  let captured := field 3
  holding content 20 captured content
    (agreeing (.enhanced (field 0) (field 1 * 4294967296 + field 2) (content.slice 20 captured))
      [] length again)

/-- The content of a block of decryption secrets: their kind, their length and they
    themselves. -/
def secrets (bigEndian : Bool) (content : Octets) (length again : Nat) : Content :=
  holding content 8 (numberAt bigEndian content 4 4) (content.drop 8)
    (agreeing .other [] length again)

/-- The number of octets that the records of a name resolution lack: 0 if an end
    record, of type and length 0, stands behind them. A record has its type, its
    length and a padded value, and the first of these that is cut tells what lacks. -/
def namesLack (bigEndian : Bool) (octets : Octets) : Nat :=
  let record := 4 + padded (numberAt bigEndian octets 2 2)
  if (octets.take 4).all (· == 0) then lacking octets 4
  else if lacking octets 2 ≠ 0 then lacking octets 2
  else if lacking octets 4 ≠ 0 then lacking octets 4
  else if lacking octets record ≠ 0 then lacking octets record
  else namesLack bigEndian (octets.drop record)
termination_by octets.length
decreasing_by
  simp only [lacking, List.length_take, List.length_drop] at *
  omega

/-- The content of a name resolution: records up to an end record, then options. -/
def names (bigEndian : Bool) (content : Octets) (length again : Nat) : Content :=
  complete (namesLack bigEndian content) (agreeing .other [] length again)

/-- The content of a process information: the number of the process, then options. -/
def process (content : Octets) (length again : Nat) : Content :=
  complete (lacking content 4) (agreeing .other [] length again)

/-- The content of a custom block: the number of an enterprise, then data that only
    the enterprise can read. -/
def custom (content : Octets) (length again : Nat) : Content :=
  agreeing .other (content.drop 4) length again

/-- The content of a simple packet: the length of the frame before it was cut,
    and what was kept of it. -/
def simple (bigEndian : Bool) (content : Octets) : Content :=
  .block (.simple (content.slice 4 (numberAt bigEndian content 0 4)))

/-- Reads a section header, which shows the order of octets itself. -/
def sectionHeader (data : Octets) (onHand : Nat) : Parsed Block :=
  if onHand < 12 then .missing (12 - onHand)
  else
    let ofOrder (bigEndian : Bool) : Parsed Block :=
      framed bigEndian 28 (fun _ _ _ => .block (.sectionStart bigEndian)) data onHand
    if numberAt false data 8 4 = orderMark then ofOrder false
    else if numberAt true data 8 4 = orderMark then ofOrder true
    else .bad .notRecognized

/-- Reads a block of a section whose order of octets is known. Blocks of other types
    than those listed are skipped, whatever they hold. -/
def block (bigEndian : Bool) (data : Octets) (onHand : Nat) : Parsed Block :=
  if onHand < 4 then .missing (4 - onHand)
  else
    let type := numberAt bigEndian data 0 4
    let read (least : Nat) (content : Octets → Nat → Nat → Content) : Parsed Block :=
      framed bigEndian least content data onHand
    if type = sectionType then sectionHeader data onHand
    else if type = 1 then
      read 20 fun content => agreeing (.interface (numberAt bigEndian content 0 2)) []
    else if type = 3 then read 16 fun content _ _ => simple bigEndian content
    else if type = 4 then read 12 (names bigEndian)
    else if type = 5 then read 24 fun _ => agreeing .other []
    else if type = 6 then read 32 (enhanced bigEndian)
    else if type = 10 then read 20 (secrets bigEndian)
    else if type = 0xbad || type = 0x40000bad then read 16 custom
    else if type = 0x80000001 then read 12 process
    else read 12 fun _ _ _ => .block .other

/-- The point in time that many microseconds after the start of 1970. -/
def timeOfMicros (micros : Nat) : Option Timestamp :=
  Timestamp.ofParts? (micros / 1000000 : Nat) (micros % 1000000 * 1000)

/-- What is known of a section while it is read: the order of octets, and the
    link number of each interface so far. -/
structure Knowledge where
  bigEndian : Bool
  interfaces : List Int
deriving Repr, DecidableEq, Inhabited

/-- The knowledge after a block. -/
def Knowledge.after (known : Knowledge) : Block → Knowledge
  | .sectionStart bigEndian => ⟨bigEndian, []⟩
  | .interface link => { known with interfaces := known.interfaces ++ [link] }
  | _ => known

/-- The frame in a block, if it was taken on an interface whose link number is
    `link`. A simple packet belongs to the first interface and has no time. -/
def frame? (known : Knowledge) (link : Int) : Block → Option Frame
  | .enhanced interface micros octets =>
    if known.interfaces[interface]? = some link then some ⟨octets, timeOfMicros micros⟩
    else none
  | .simple octets =>
    if known.interfaces.head? = some link then some ⟨octets, none⟩ else none
  | _ => none

end PassiveDns.Capture.Blocks
