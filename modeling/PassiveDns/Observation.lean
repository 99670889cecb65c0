/-
  PassiveDns.Observation

  Observed DNS messages: a payload that parses, together with who exchanged it
  and when. Addresses are cut to a prefix before anything is recorded.
-/
import PassiveDns.Config.Settings
import PassiveDns.Dns.Message
import PassiveDns.Packet.Basic

namespace PassiveDns

open Text (Json)

/-- An observed DNS message. -/
structure Observation where
  time : Timestamp
  message : Dns.Message
  version : IpVersion
  source : Address
  destination : Address
  sourcePort : Option UInt16
  destinationPort : Option UInt16
  transport : Transport
  /-- The octets of the message as it travelled. -/
  length : Nat
  /-- Who observed it. -/
  server : Option String
deriving Repr, DecidableEq, Inhabited

namespace Observation

/-- The document of an observation. -/
def toJson (observation : Observation) : Json :=
  let port := Json.ofOption fun p : UInt16 => .num p.toNat
  .obj [("timestamp", .str observation.time.text),
    ("dns", observation.message.toJson),
    ("ip_version", .num observation.version.number),
    ("src_ip", .str observation.source.text),
    ("dst_ip", .str observation.destination.text),
    ("src_port", port observation.sourcePort),
    ("dst_port", port observation.destinationPort),
    ("protocol", .str observation.transport.label),
    ("packet_length", .num observation.length),
    ("server", Json.ofOption .str observation.server)]

end Observation

/-- How payloads are observed: what is kept of addresses, and as whom. -/
structure Observer where
  mask4 : Nat
  mask6 : Nat
  server : Option String
deriving Repr, DecidableEq, Inhabited

namespace Observer

/-- The observer that the settings describe. An empty name is none. -/
def ofSettings (settings : Settings) : Observer where
  mask4 := settings.mask4
  mask6 := settings.mask6
  server := if settings.serverName.isEmpty then none else some settings.serverName

/-- The observation that a payload gives, if it is a DNS message. A payload that
    was captured without a time counts as captured at `now`. -/
def observe (observer : Observer) (now : Timestamp) (transport : Transport)
    (carried : Carried) : Except Dns.WireError Observation := do
  let message ← Dns.Message.ofOctets carried.payload
  pure {
    time := carried.time.getD now
    message
    version := carried.header.version
    source := carried.header.source.mask observer.mask4 observer.mask6
    destination := carried.header.destination.mask observer.mask4 observer.mask6
    sourcePort := some carried.sourcePort
    destinationPort := some carried.destinationPort
    transport
    length := carried.payload.length
    server := observer.server }

end Observer

end PassiveDns
