/-
  PassiveDns.Packet.Classify

  What a captured frame is: a fragment, a payload on the DNS port, a TCP segment
  on the DNS port, or nothing of interest. VXLAN tunnels are opened, up to four
  inside each other. A datagram put together from fragments is classified by the
  same transport rules.
-/
import PassiveDns.Packet.Header

namespace PassiveDns.Packet

/-- Where a packet goes next. -/
inductive Classified where
  | fragment (fragment : Fragment)
  | udp (datagram : Carried)
  | tcp (segment : TcpSegment)
  | ignored
deriving Repr, DecidableEq, Inhabited

/-- What classifying a packet yields. -/
abbrev Verdict := Except PacketError Classified

/-- The ports that matter. -/
structure Ports where
  dns : UInt16
  vxlan : UInt16
deriving Repr, DecidableEq, Inhabited

/-- The UDP protocol number. -/
def udpProtocol : UInt8 := 17

/-- The TCP protocol number. -/
def tcpProtocol : UInt8 := 6

/-- Classifies the payload of a datagram; `tunnel` classifies what is found
    behind a UDP header to the VXLAN port. -/
def ofTransport (ports : Ports) (time : Option Timestamp) (tunnel : Octets → Verdict)
    (header : IpHeader) (payload : Octets) : Verdict :=
  if header.protocol = udpProtocol then do
    let udp ← ofUdp payload
    if udp.sourcePort = ports.dns ∨ udp.destinationPort = ports.dns then
      pure (.udp ⟨header, udp.sourcePort, udp.destinationPort, udp.payload, time⟩)
    else if udp.destinationPort = ports.vxlan then tunnel udp.payload
    else pure .ignored
  else if header.protocol = tcpProtocol then do
    let tcp ← ofTcp payload
    if tcp.sourcePort = ports.dns ∨ tcp.destinationPort = ports.dns then
      pure (.tcp {
        header
        sourcePort := tcp.sourcePort
        destinationPort := tcp.destinationPort
        sequence := tcp.sequence
        syn := tcp.syn
        fin := tcp.fin
        rst := tcp.rst
        payload := tcp.payload
        time })
    else pure .ignored
  else .ok .ignored

/-- Classifies a version 4 packet. One that must not be fragmented is taken to
    be whole. -/
def classifyIPv4 (ports : Ports) (time : Option Timestamp) (tunnel : Octets → Verdict)
    (data : Octets) : Verdict := do
  let packet ← ofIPv4 data
  if !packet.keepWhole && (packet.more || packet.offset ≠ 0) then
    pure (.fragment {
      header := packet.header
      id := UInt32.ofNat packet.id
      offset := packet.offset
      more := packet.more
      payload := packet.payload
      time })
  else ofTransport ports time tunnel packet.header packet.payload

/-- Classifies a version 6 packet. Its protocol is the one behind the extension
    headers. -/
def classifyIPv6 (ports : Ports) (time : Option Timestamp) (tunnel : Octets → Verdict)
    (data : Octets) : Verdict := do
  let packet ← ofIPv6 data
  let chain ← extensionChain packet.next packet.body
  let header : IpHeader := ⟨.v6, packet.source, packet.destination, chain.next⟩
  let payload := packet.body.drop chain.length
  match chain.fragment with
  | some fields =>
    pure (.fragment ⟨header, fields.id, fields.offset, fields.more, payload, time⟩)
  | none => ofTransport ports time tunnel header payload

/-- Classifies what stands behind a link header. -/
def classifyEtherType (ports : Ports) (time : Option Timestamp) (tunnel : Octets → Verdict)
    (etherType : Nat) (data : Octets) : Verdict :=
  if etherType = 0x0800 then classifyIPv4 ports time tunnel data
  else if etherType = 0x86DD then classifyIPv6 ports time tunnel data
  else .ok .ignored

/-- Classifies an Ethernet frame. -/
def classifyEthernet (ports : Ports) (time : Option Timestamp) (tunnel : Octets → Verdict)
    (frame : Octets) : Verdict := do
  let (etherType, data) ← ofEthernet frame
  classifyEtherType ports time tunnel etherType data

/-- Classifies a packet without a link header by its version. -/
def classifyRawIp (ports : Ports) (time : Option Timestamp) (tunnel : Octets → Verdict)
    (data : Octets) : Verdict :=
  match data with
  | [] => .error (.truncated .ip)
  | b :: _ =>
    let version := b.toNat / 16
    if version = 4 then classifyIPv4 ports time tunnel data
    else if version = 6 then classifyIPv6 ports time tunnel data
    else .error (.malformed .ip (.unknownVersion version))

/-- Opens a VXLAN tunnel, behind which stands an Ethernet frame, when `depth`
    tunnels may still be entered. -/
def openTunnel (ports : Ports) (time : Option Timestamp) : Nat → Octets → Verdict
  | 0, _ => .error .tooDeep
  | depth + 1, data =>
    if data.length < 8 then .error (.truncated .vxlan)
    else if !(data.at0 0).testBit 3 then .error (.malformed .vxlan .noNetworkIdentifier)
    else classifyEthernet ports time (openTunnel ports time depth) (data.drop 8)

/-- Classifies a captured frame. -/
def classify (link : LinkType) (ports : Ports) (frame : Frame) : Verdict :=
  let tunnel := openTunnel ports frame.time maxTunnels
  match link with
  | .ethernet => classifyEthernet ports frame.time tunnel frame.octets
  | .rawIp => classifyRawIp ports frame.time tunnel frame.octets
  | .linuxCooked => do
    let (etherType, data) ← ofLinuxCooked frame.octets
    classifyEtherType ports frame.time tunnel etherType data

/-- Classifies a datagram put together from fragments. Extension headers behind
    the fragment header are skipped; a second fragment header is refused. -/
def classifyDatagram (ports : Ports) (datagram : Datagram) : Verdict :=
  let tunnel := openTunnel ports datagram.time maxTunnels
  match datagram.header.version with
  | .v4 => ofTransport ports datagram.time tunnel datagram.header datagram.payload
  | .v6 => do
    let chain ← extensionChain datagram.header.protocol datagram.payload
    match chain.fragment with
    | some _ => .error (.malformed .ipv6 .nestedFragment)
    | none =>
      ofTransport ports datagram.time tunnel { datagram.header with protocol := chain.next }
        (datagram.payload.drop chain.length)

end PassiveDns.Packet
