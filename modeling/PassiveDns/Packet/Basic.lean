/-
  PassiveDns.Packet.Basic

  What is captured and what it turns out to be: frames, link types, Internet
  headers, fragments, and the payloads that UDP datagrams and TCP connections
  carry.
-/
import PassiveDns.Address
import PassiveDns.Timestamp

namespace PassiveDns

/-- A captured frame. -/
structure Frame where
  octets : Octets
  time : Option Timestamp
deriving Repr, DecidableEq, Inhabited

/-- What frames of a capture begin with. -/
inductive LinkType where
  | ethernet
  | rawIp
  | linuxCooked
deriving Repr, DecidableEq, Inhabited

/-- The link type with a number of the capture file formats. -/
def LinkType.ofNumber? (number : Nat) : Option LinkType :=
  match number with
  | 1 => some .ethernet
  | 12 | 14 | 101 | 228 | 229 => some .rawIp
  | 113 => some .linuxCooked
  | _ => none

/-- The transports over which DNS is observed. -/
inductive Transport where
  | udp
  | tcp
deriving Repr, DecidableEq, Inhabited

/-- The name of a transport. -/
def Transport.label : Transport → String
  | .udp => "udp"
  | .tcp => "tcp"

/-- Who sends to whom, and the protocol of what is sent. -/
structure IpHeader where
  version : IpVersion
  source : Address
  destination : Address
  protocol : UInt8
deriving Repr, DecidableEq, Inhabited

/-- A piece of an Internet datagram. Its offset counts units of eight octets. -/
structure Fragment where
  header : IpHeader
  id : UInt32
  offset : Nat
  more : Bool
  payload : Octets
  time : Option Timestamp
deriving Repr, DecidableEq, Inhabited

/-- A datagram put together from its fragments. -/
structure Datagram where
  header : IpHeader
  payload : Octets
  time : Option Timestamp
deriving Repr, DecidableEq, Inhabited

/-- A payload for the DNS port, or from it, and the hosts that exchanged it. -/
structure Carried where
  header : IpHeader
  sourcePort : UInt16
  destinationPort : UInt16
  payload : Octets
  time : Option Timestamp
deriving Repr, DecidableEq, Inhabited

/-- A TCP segment to or from the DNS port. -/
structure TcpSegment where
  header : IpHeader
  sourcePort : UInt16
  destinationPort : UInt16
  sequence : UInt32
  syn : Bool
  fin : Bool
  rst : Bool
  payload : Octets
  time : Option Timestamp
deriving Repr, DecidableEq, Inhabited

end PassiveDns
