/-
  PassiveDns.Packet.Header

  Reading the headers of a packet, outermost first, and what is reported where
  one is cut short or contradicts itself. No checksum is looked at.
-/
import PassiveDns.Packet.Basic

namespace PassiveDns.Packet

/-- Headers of fixed layout. -/
inductive HeaderKind where
  | ethernet
  | ipv4
  | ipv6
  | udp
  | tcp
deriving Repr, DecidableEq, Inhabited

/-- The name of a header inside a reason. -/
def HeaderKind.title : HeaderKind → String
  | ethernet => "Ethernet 2"
  | ipv4 => "IPv4"
  | ipv6 => "IPv6"
  | udp => "UDP"
  | tcp => "TCP"

/-- The parts of a packet in which an error is located. -/
inductive Layer where
  | ethernet
  | vlan
  | linuxCooked
  | ip
  | ipv4
  | ipv6
  | ipv6Extension
  | ipv6Fragment
  | udp
  | tcp
  | vxlan
deriving Repr, DecidableEq, Inhabited

/-- The name of a layer. -/
def Layer.label : Layer → String
  | ethernet => "ethernet"
  | vlan => "vlan"
  | linuxCooked => "sll"
  | ip => "ip"
  | ipv4 => "ipv4"
  | ipv6 => "ipv6"
  | ipv6Extension => "ipv6 extension"
  | ipv6Fragment => "ipv6 fragment"
  | udp => "udp"
  | tcp => "tcp"
  | vxlan => "vxlan"

/-- What is wrong with a header. -/
inductive Fault where
  | tooShort (kind : HeaderKind) (needed available : Nat)
  | wrongVersion (kind : HeaderKind) (expected found : Nat)
  | headerLengthTooSmall (words : Nat)
  | dataOffsetTooSmall (words : Nat)
  | unknownVersion (version : Nat)
  | noNetworkIdentifier
  | nestedFragment
deriving Repr, DecidableEq, Inhabited

/-- What is reported for a fault. -/
def Fault.message : Fault → String
  | tooShort kind needed available =>
    kind.title ++ " Header Error: Not enough data to decode '" ++ kind.title ++
      " header'. " ++ toString needed ++ " byte(s) would be required, but only " ++
      toString available ++ " byte(s) are available based on the slice length."
  | wrongVersion kind expected found =>
    kind.title ++ " Header Error: Encountered '" ++ toString found ++
      "' as IP version number in the " ++ kind.title ++ " header (must be '" ++
      toString expected ++ "' in an " ++ kind.title ++ " header)."
  | headerLengthTooSmall words =>
    "IPv4 Header Error: The 'internet header length' value '" ++ toString words ++
      "' present in the IPv4 header is smaller than the minimum size of an IPv4 header." ++
      " The minimum allowed value is '5'."
  | dataOffsetTooSmall words =>
    "TCP Header Error: 'data offset' too small (" ++ toString words ++
      "). The 'data offset' must be at least 5 so the data is not overlapping with the" ++
      " TCP header itself."
  | unknownVersion version => "unknown version " ++ toString version
  | noNetworkIdentifier => "VNI flag not set"
  | nestedFragment => "fragment header inside reassembled datagram"

/-- Tunnels inside tunnels are followed this far. -/
def maxTunnels : Nat := 4

/-- Why a packet cannot be read. -/
inductive PacketError where
  | truncated (layer : Layer)
  | malformed (layer : Layer) (fault : Fault)
  | tooDeep
deriving Repr, DecidableEq, Inhabited

/-- What is reported for each cause. -/
def PacketError.message : PacketError → String
  | truncated layer => "truncated " ++ layer.label ++ " header"
  | malformed layer fault =>
    "malformed " ++ layer.label ++ " header: " ++ fault.message
  | tooDeep => "tunnels nested deeper than " ++ toString maxTunnels

/-! ## Link headers -/

/-- Whether an ethertype announces a tag for a virtual network. -/
def isTag (etherType : Nat) : Bool :=
  etherType = 0x8100 || etherType = 0x88A8 || etherType = 0x9100

/-- Takes off tags, each of which ends in the next ethertype. -/
def untag (etherType : Nat) : Octets → Except PacketError (Nat × Octets)
  | a :: b :: hi :: lo :: rest =>
    if isTag etherType then untag (hi.toNat * 256 + lo.toNat) rest
    else .ok (etherType, a :: b :: hi :: lo :: rest)
  | short => if isTag etherType then .error (.truncated .vlan) else .ok (etherType, short)

/-- Ethertype and content of an Ethernet frame. -/
def ofEthernet (frame : Octets) : Except PacketError (Nat × Octets) :=
  if frame.length < 14 then
    .error (.malformed .ethernet (.tooShort .ethernet 14 frame.length))
  else untag (frame.nat16At 12) (frame.drop 14)

/-- Ethertype and content of a Linux cooked capture. -/
def ofLinuxCooked (frame : Octets) : Except PacketError (Nat × Octets) :=
  if frame.length < 16 then .error (.truncated .linuxCooked)
  else .ok (frame.nat16At 14, frame.drop 16)

/-! ## Internet headers -/

/-- The fields of a version 4 header, with what it carries. -/
structure IPv4Packet where
  header : IpHeader
  id : Nat
  keepWhole : Bool
  more : Bool
  offset : Nat
  payload : Octets
deriving Repr, DecidableEq, Inhabited

/-- Reads a version 4 packet. What lies beyond its declared length is padding
    of the link and no part of it. -/
def ofIPv4 (data : Octets) : Except PacketError IPv4Packet :=
  let fault (f : Fault) : Except PacketError IPv4Packet := .error (.malformed .ipv4 f)
  let version := data.at0 0 / 16
  let words := data.at0 0 % 16
  if data.length < 20 then fault (.tooShort .ipv4 20 data.length)
  else if version ≠ 4 then fault (.wrongVersion .ipv4 4 version)
  else if words < 5 then fault (.headerLengthTooSmall words)
  else if data.length < words * 4 then fault (.tooShort .ipv4 (words * 4) data.length)
  else
    let flags := data.at0 6
    .ok {
      header := {
        version := .v4
        source := Address.v4OfOctets (data.slice 12 4)
        destination := Address.v4OfOctets (data.slice 16 4)
        protocol := data.getD 9 0 }
      id := data.nat16At 4
      keepWhole := flags.testBit 6
      more := flags.testBit 5
      offset := data.nat16At 6 % 8192
      payload := (data.take (data.nat16At 2)).drop (words * 4) }

/-- Addresses, first following protocol and body of a version 6 packet. -/
structure IPv6Packet where
  source : Address
  destination : Address
  next : UInt8
  body : Octets
deriving Repr, DecidableEq, Inhabited

/-- Reads the fixed header of a version 6 packet. -/
def ofIPv6 (data : Octets) : Except PacketError IPv6Packet :=
  let fault (f : Fault) : Except PacketError IPv6Packet := .error (.malformed .ipv6 f)
  let version := data.at0 0 / 16
  if data.length < 40 then fault (.tooShort .ipv6 40 data.length)
  else if version ≠ 6 then fault (.wrongVersion .ipv6 6 version)
  else
    .ok {
      source := Address.v6OfOctets (data.slice 8 16)
      destination := Address.v6OfOctets (data.slice 24 16)
      next := data.getD 6 0
      body := data.slice 40 (data.nat16At 4) }

/-! ## Extension headers -/

/-- The fields of a fragment header. -/
structure FragmentFields where
  id : UInt32
  offset : Nat
  more : Bool
deriving Repr, DecidableEq, Inhabited

/-- A chain of extension headers: the protocol behind it, its length, and the
    fragment header if it ends in one. -/
structure ExtensionChain where
  next : UInt8
  length : Nat
  fragment : Option FragmentFields
deriving Repr, DecidableEq, Inhabited

/-- The chain with `count` octets more in front. -/
def ExtensionChain.behind (chain : ExtensionChain) (count : Nat) : ExtensionChain :=
  { chain with length := count + chain.length }

/-- Whether a protocol number is that of an extension header to skip. -/
def isExtension (protocol : UInt8) : Bool :=
  protocol = 0 || protocol = 43 || protocol = 51 || protocol = 60

/-- The protocol number of a fragment header. -/
def fragmentProtocol : UInt8 := 44

/-- The length of an extension header whose length field is `field`. The
    authentication header counts units of four octets less two, the others
    units of eight less one. -/
def extensionLength (protocol field : UInt8) : Nat :=
  if protocol = 51 then (field.toNat + 2) * 4 else (field.toNat + 1) * 8

/-- A fragment header at the front of `data`. -/
def fragmentHeader (data : Octets) : Except PacketError ExtensionChain :=
  match data with
  | next :: _ :: hi :: lo :: a :: b :: c :: d :: _ =>
    let word := hi.toNat * 256 + lo.toNat
    .ok ⟨next, 8, some ⟨Octets.word32 a b c d, word / 8, word.testBit 0⟩⟩
  | _ => .error (.truncated .ipv6Fragment)

/-- Walks the extension headers at the front of `data`, the first of which has
    the number `protocol`. Nothing behind a fragment header is looked at. -/
def extensionChain (protocol : UInt8) (data : Octets) : Except PacketError ExtensionChain :=
  if isExtension protocol then
    match data with
    | next :: field :: rest =>
      let length := extensionLength protocol field
      if length ≤ (next :: field :: rest).length then
        (extensionChain next ((next :: field :: rest).drop length)).map (·.behind length)
      else .error (.truncated .ipv6Extension)
    | _ => .error (.truncated .ipv6Extension)
  else if protocol = fragmentProtocol then fragmentHeader data
  else .ok ⟨protocol, 0, none⟩
termination_by data.length
decreasing_by
  have : 8 ≤ extensionLength protocol field := by
    unfold extensionLength
    split <;> omega
  simp only [List.length_drop, List.length_cons]
  omega

/-! ## Transport headers -/

/-- Ports and data of a UDP datagram. -/
structure UdpPacket where
  sourcePort : UInt16
  destinationPort : UInt16
  payload : Octets
deriving Repr, DecidableEq, Inhabited

/-- Reads a UDP datagram. A length field of at least eight bounds its data. -/
def ofUdp (data : Octets) : Except PacketError UdpPacket :=
  if data.length < 8 then .error (.malformed .udp (.tooShort .udp 8 data.length))
  else
    let length := data.nat16At 4
    .ok {
      sourcePort := UInt16.ofNat (data.nat16At 0)
      destinationPort := UInt16.ofNat (data.nat16At 2)
      payload := (if 8 ≤ length then data.take length else data).drop 8 }

/-- Ports, flags and data of a TCP segment. -/
structure TcpPacket where
  sourcePort : UInt16
  destinationPort : UInt16
  sequence : UInt32
  syn : Bool
  fin : Bool
  rst : Bool
  payload : Octets
deriving Repr, DecidableEq, Inhabited

/-- Reads a TCP segment. -/
def ofTcp (data : Octets) : Except PacketError TcpPacket :=
  let fault (f : Fault) : Except PacketError TcpPacket := .error (.malformed .tcp f)
  let words := data.at0 12 / 16
  let flags := data.at0 13
  if data.length < 20 then fault (.tooShort .tcp 20 data.length)
  else if words < 5 then fault (.dataOffsetTooSmall words)
  else if data.length < words * 4 then fault (.tooShort .tcp (words * 4) data.length)
  else
    .ok {
      sourcePort := UInt16.ofNat (data.nat16At 0)
      destinationPort := UInt16.ofNat (data.nat16At 2)
      sequence := UInt32.ofNat (data.nat16At 4 * 65536 + data.nat16At 6)
      syn := flags.testBit 1
      fin := flags.testBit 0
      rst := flags.testBit 2
      payload := data.drop (words * 4) }

end PassiveDns.Packet
