/-
  PassiveDns.Dns.Record

  Resource records: reading, writing, and the document of each kind. A record
  whose type has no reader, or whose length does not suit its type, is kept with
  its type number and length; writing such a record writes nothing.
-/
import PassiveDns.Address
import PassiveDns.Dns.Code
import PassiveDns.Dns.Name

namespace PassiveDns.Dns

open Text (Json)

/-- What a record says about its owner. -/
inductive RecordData where
  | a (address : IPv4)
  | aaaa (address : IPv6)
  | ns (host : String)
  | cname (host : String)
  | ptr (host : String)
  | mx (preference : UInt16) (host : String)
  | srv (priority weight port : UInt16) (host : String)
  | soa (primary mailbox : String) (serial refresh retry expire minimum : UInt32)
  | txt (chunks : List String)
  | other (type length : UInt16)
deriving Repr, DecidableEq, Inhabited

/-- A resource record. The options of a message have no owner, and the fields
    for class and time to live hold the sender's packet size and its flags. -/
inductive Record where
  | resource (owner : String) (ttl : UInt32) (data : RecordData)
  | options (packetSize : UInt16) (flags : UInt32) (length : UInt16)
deriving Repr, DecidableEq, Inhabited

namespace RecordData

/-- The type under which data are written. -/
def type : RecordData → RecordType
  | a _ => .a
  | aaaa _ => .aaaa
  | ns _ => .ns
  | cname _ => .cname
  | ptr _ => .ptr
  | mx _ _ => .mx
  | srv _ _ _ _ => .srv
  | soa _ _ _ _ _ _ _ => .soa
  | txt _ => .txt
  | other type _ => .other type

end RecordData

namespace Record

/-- The type of a record. -/
def type : Record → RecordType
  | resource _ _ data => data.type
  | options _ _ _ => .opt

/-- Whom a record is about. -/
def owner? : Record → Option String
  | resource owner _ _ => some owner
  | options _ _ _ => none

/-- How long a record may be kept, in seconds. -/
def ttl : Record → UInt32
  | resource _ ttl _ => ttl
  | options _ _ _ => 0

end Record

/-! ## Reading -/

/-- The texts of a TXT record between two offsets: a length and that many
    octets each, the last one cut at the end of the record. -/
def Reader.chunks (start stop : Nat) : Reader (List String) :=
  if h : start < stop then do
    let length ← Reader.octetAt start
    let next := min (start + 1 + length.toNat) stop
    let chunk ← Reader.range (start + 1) (next - (start + 1))
    let chunks ← Reader.chunks next stop
    pure (Text.Utf8.toStringLossy chunk :: chunks)
  else pure []
termination_by stop - start

/-- The data of a record of type `type`, which take `length` octets from
    `start` on. -/
def Reader.recordData (type : RecordType) (start : Nat) (length : UInt16) :
    Reader RecordData :=
  let rest : Reader RecordData := pure (.other type.toNumber length)
  match type with
  | .a =>
    if length = 4 then do
      let address ← Reader.word32
      pure (.a (BitVec.ofNat 32 address.toNat))
    else rest
  | .aaaa =>
    if length = 16 then do
      let octets ← Reader.range start 16
      pure (.aaaa (BitVec.ofNat 128 octets.toNatBE))
    else rest
  | .ns => do
    let host ← Reader.name
    pure (.ns host)
  | .cname => do
    let host ← Reader.name
    pure (.cname host)
  | .ptr => do
    let host ← Reader.name
    pure (.ptr host)
  | .srv => do
    let priority ← Reader.word16
    let weight ← Reader.word16
    let port ← Reader.word16
    let host ← Reader.name
    pure (.srv priority weight port host)
  | .mx => do
    let preference ← Reader.word16
    let host ← Reader.name
    pure (.mx preference host)
  | .soa => do
    let primary ← Reader.name
    let mailbox ← Reader.name
    let serial ← Reader.word32
    let refresh ← Reader.word32
    let retry ← Reader.word32
    let expire ← Reader.word32
    let minimum ← Reader.word32
    pure (.soa primary mailbox serial refresh retry expire minimum)
  | .txt => do
    let chunks ← Reader.chunks start (start + length.toNat)
    pure (.txt chunks)
  | _ => rest

/-- Reads a record. Its data must lie in the message; whatever reading them
    consumes, the cursor then stands behind them. -/
def Reader.record : Reader Record := do
  let owner ← Reader.name
  let type ← Reader.word16
  let cls ← Reader.word16
  let ttl ← Reader.word32
  let length ← Reader.word16
  let start ← Reader.position
  let _ ← Reader.range start length.toNat
  let record ← match RecordType.ofNumber type with
    | .opt => pure (Record.options cls ttl length)
    | known => do
      let data ← Reader.recordData known start length
      pure (Record.resource owner ttl data)
  Reader.seek (start + length.toNat)
  pure record

/-! ## Writing -/

/-- Writes a body behind a 16-bit word, which then receives the body's length. -/
def Writer.measured (body : Writer Unit) : Writer Unit := do
  let start ← Writer.position
  Writer.word16 0
  body
  let stop ← Writer.position
  Writer.setWord16 start (UInt16.ofNat (stop - (start + 2)))

/-- Writes the texts of a TXT record, a length before each. Of a longer text
    only the first 255 octets are written. -/
def Writer.chunks : List String → Writer Unit
  | [] => pure ()
  | chunk :: rest => do
    let octets := (Text.Utf8.ofString chunk).take 255
    Writer.octet (UInt8.ofNat octets.length)
    Writer.octets octets
    Writer.chunks rest

/-- The length and the octets of a record's data. -/
def Writer.recordData : RecordData → Writer Unit
  | .a address => do
    Writer.word16 4
    Writer.octets (Octets.ofNatBE 4 address.toNat)
  | .aaaa address => do
    Writer.word16 16
    Writer.octets (Octets.ofNatBE 16 address.toNat)
  | .ns host => Writer.measured (Writer.name host)
  | .cname host => Writer.measured (Writer.name host)
  | .ptr host => Writer.measured (Writer.name host)
  | .mx preference host => Writer.measured do
    Writer.word16 preference
    Writer.name host
  | .srv priority weight port host => Writer.measured do
    Writer.word16 priority
    Writer.word16 weight
    Writer.word16 port
    Writer.name host
  | .soa primary mailbox serial refresh retry expire minimum => Writer.measured do
    Writer.name primary
    Writer.name mailbox
    Writer.word32 serial
    Writer.word32 refresh
    Writer.word32 retry
    Writer.word32 expire
    Writer.word32 minimum
  | .txt chunks => Writer.measured (Writer.chunks chunks)
  | .other _ _ => pure ()

/-- Writes a record of the Internet class. Data of an unread type are left out
    with all their record. -/
def Writer.record : Record → Writer Unit
  | .resource _ _ (.other _ _) => pure ()
  | .resource owner ttl data => do
    Writer.name owner
    Writer.word16 data.type.toNumber
    Writer.word16 1
    Writer.word32 ttl
    Writer.recordData data
  | .options packetSize flags _ => do
    Writer.octet 0
    Writer.word16 RecordType.opt.toNumber
    Writer.word16 packetSize
    Writer.word32 flags
    Writer.word16 0

/-! ## Documents -/

namespace RecordData

/-- The kind under which the document of data goes. -/
def kind : RecordData → String
  | other _ _ => "Unknown"
  | known => known.type.label

/-- The members that describe data, between the owner and the time to live. -/
def members : RecordData → List (String × Json)
  | a address => [("addr", .str (Address.v4 address).text)]
  | aaaa address => [("addr", .str (Address.v6 address).text)]
  | ns host => [("host", .str host)]
  | cname host => [("host", .str host)]
  | ptr host => [("host", .str host)]
  | mx preference host => [("priority", .num preference.toNat), ("host", .str host)]
  | srv priority weight port host =>
    [("priority", .num priority.toNat), ("weight", .num weight.toNat),
      ("port", .num port.toNat), ("host", .str host)]
  | soa primary mailbox serial refresh retry expire minimum =>
    [("m_name", .str primary), ("r_name", .str mailbox), ("serial", .num serial.toNat),
      ("refresh", .num refresh.toNat), ("retry", .num retry.toNat),
      ("expire", .num expire.toNat), ("minimum", .num minimum.toNat)]
  | txt chunks => [("data", .arr (chunks.map .str))]
  | other type length => [("qtype", .num type.toNat), ("data_len", .num length.toNat)]

end RecordData

namespace Record

/-- The document of a record. -/
def toJson : Record → Json
  | resource owner ttl data =>
    .obj ([("type", .str data.kind), ("domain", .str owner)] ++ data.members ++
      [("ttl", .num ttl.toNat)])
  | options packetSize flags length =>
    .obj [("type", .str "Opt"), ("packet_len", .num packetSize.toNat),
      ("flags", .num flags.toNat), ("data_len", .num length.toNat)]

end Record

end PassiveDns.Dns
