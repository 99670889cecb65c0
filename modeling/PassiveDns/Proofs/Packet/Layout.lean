/-
  PassiveDns.Proofs.Packet.Layout

  How packets are laid out, and that reading finds what was laid out: the Internet headers
  of both versions (`ofIPv4_packet`, `ofIPv6_packet`), and the headers in front of them in
  the frames of each link type (`classify_framed`). Padding behind a packet is no part of it.
-/
import PassiveDns.Packet.Classify
import PassiveDns.Proofs.Octets

namespace PassiveDns.Packet

open Octets

/-! ## Internet headers -/

/-- Who sends something to whom, and its protocol. -/
structure Route (α : Type) where
  source : α
  destination : α
  protocol : UInt8

/-- The fields of a version 4 header that are read. -/
def Route.v4 (route : Route IPv4) : IpHeader :=
  ⟨.v4, .v4 route.source, .v4 route.destination, route.protocol⟩

/-- The fields of a version 6 header that are read. -/
def Route.v6 (route : Route IPv6) : IpHeader :=
  ⟨.v6, .v6 route.source, .v6 route.destination, route.protocol⟩

/-- The fields of a version 4 header that are not, but for its length. -/
structure IPv4Fields where
  service : UInt8
  reserved : Bool
  lifetime : UInt8
  checksum : UInt16
  options : Octets
  aligned : options.length % 4 = 0
  short : options.length ≤ 40

namespace IPv4Fields

/-- The length of the header. -/
def length (fields : IPv4Fields) : Nat := 20 + fields.options.length

/-- The flags of a packet and the offset of a fragment. -/
def position (fields : IPv4Fields) (keepWhole more : Bool) (offset : Nat) : Nat :=
  fields.reserved.toNat * 32768 + keepWhole.toNat * 16384 + more.toNat * 8192 + offset

/-- A packet. -/
def packet (fields : IPv4Fields) (route : Route IPv4) (id : UInt16) (keepWhole more : Bool)
    (offset : Nat) (payload : Octets) : Octets :=
  [UInt8.ofNat (64 + fields.length / 4), fields.service] ++
    (ofWord16 (UInt16.ofNat (fields.length + payload.length)) ++ (ofWord16 id ++
    (ofWord16 (UInt16.ofNat (fields.position keepWhole more offset)) ++
    ([fields.lifetime, route.protocol] ++ (ofWord16 fields.checksum ++
    (ofNatBE 4 route.source.toNat ++ (ofNatBE 4 route.destination.toNat ++
    (fields.options ++ payload))))))))

theorem length_packet (fields : IPv4Fields) (route : Route IPv4) (id : UInt16)
    (keepWhole more : Bool) (offset : Nat) (payload : Octets) :
    (fields.packet route id keepWhole more offset payload).length =
      fields.length + payload.length := by
  simp only [packet, List.length_append, length_ofWord16, length_ofNatBE, List.length_cons,
    List.length_nil, length]
  omega

theorem drop_packet (fields : IPv4Fields) (route : Route IPv4) (id : UInt16)
    (keepWhole more : Bool) (offset : Nat) (payload : Octets) :
    (fields.packet route id keepWhole more offset payload).drop fields.length = payload := by
  rw [length, ← List.drop_drop]
  exact List.drop_left

end IPv4Fields

/-- The fields of a version 6 header that are not read. -/
structure IPv6Fields where
  traffic : Fin 16
  flow : UInt8 × UInt8 × UInt8
  hopLimit : UInt8

/-- A packet. -/
def IPv6Fields.packet (fields : IPv6Fields) (route : Route IPv6) (body : Octets) : Octets :=
  [UInt8.ofNat (96 + fields.traffic), fields.flow.1, fields.flow.2.1, fields.flow.2.2] ++
    (ofWord16 (UInt16.ofNat body.length) ++ ([route.protocol, fields.hopLimit] ++
    (ofNatBE 16 route.source.toNat ++ (ofNatBE 16 route.destination.toNat ++ body))))

theorem IPv6Fields.length_packet (fields : IPv6Fields) (route : Route IPv6) (body : Octets) :
    (fields.packet route body).length = 40 + body.length := by
  simp only [packet, List.length_append, length_ofWord16, length_ofNatBE, List.length_cons,
    List.length_nil]
  omega

theorem v4OfOctets_ofNatBE (bits : IPv4) :
    Address.v4OfOctets (ofNatBE 4 bits.toNat) = .v4 bits := by
  rw [Address.v4OfOctets, ofNat_toNatBE (by decide)]

theorem v6OfOctets_ofNatBE (bits : IPv6) :
    Address.v6OfOctets (ofNatBE 16 bits.toNat) = .v6 bits := by
  rw [Address.v6OfOctets, ofNat_toNatBE (by decide)]

/-- The number that the octets of a length spell. -/
theorem toNat_ofWord16_of_lt {n : Nat} (h : n < 65536) :
    (UInt8.ofNat ((UInt16.ofNat n).toNat / 256)).toNat * 256 +
      (UInt8.ofNat (UInt16.ofNat n).toNat).toNat = n := by
  rw [toNat_ofWord16, UInt16.toNat_ofNat', Nat.mod_eq_of_lt h]

/-- A version 4 packet begins with its version and the length of its header. -/
theorem IPv4Fields.at0_packet (fields : IPv4Fields) (route : Route IPv4) (id : UInt16)
    (keepWhole more : Bool) (offset : Nat) (payload padding : Octets) :
    (fields.packet route id keepWhole more offset payload ++ padding).at0 0 =
      64 + fields.length / 4 := by
  have hshort := fields.short
  show (UInt8.ofNat (64 + fields.length / 4)).toNat = _
  rw [toNat_ofNat, length]
  omega

/-- A version 6 packet begins with its version. -/
theorem IPv6Fields.at0_packet (fields : IPv6Fields) (route : Route IPv6) (body padding : Octets) :
    (fields.packet route body ++ padding).at0 0 = 96 + fields.traffic := by
  have htraffic := fields.traffic.isLt
  show (UInt8.ofNat (96 + fields.traffic)).toNat = _
  rw [toNat_ofNat]
  omega

theorem IPv4Fields.version_packet (fields : IPv4Fields) (route : Route IPv4) (id : UInt16)
    (keepWhole more : Bool) (offset : Nat) (payload padding : Octets) :
    (fields.packet route id keepWhole more offset payload ++ padding).at0 0 / 16 = 4 := by
  have hshort := fields.short
  rw [fields.at0_packet, length]
  omega

theorem IPv6Fields.version_packet (fields : IPv6Fields) (route : Route IPv6)
    (body padding : Octets) : (fields.packet route body ++ padding).at0 0 / 16 = 6 := by
  have htraffic := fields.traffic.isLt
  rw [fields.at0_packet]
  omega

/-- A version 4 packet is read as it was laid out. -/
theorem ofIPv4_packet (fields : IPv4Fields) (route : Route IPv4) (id : UInt16)
    (keepWhole more : Bool) {offset : Nat} (hoffset : offset < 8192) {payload : Octets}
    (hfits : fields.length + payload.length < 65536) (padding : Octets) :
    ofIPv4 (fields.packet route id keepWhole more offset payload ++ padding) =
      .ok ⟨route.v4, id.toNat, keepWhole, more, offset, payload⟩ := by
  have hshort := fields.short
  have haligned := fields.aligned
  have hlength : fields.length = 20 + fields.options.length := rfl
  have hpacket := fields.length_packet route id keepWhole more offset payload
  have hdrop := fields.drop_packet route id keepWhole more offset payload
  have hreserved := fields.reserved.toNat_le
  have hkeepWhole := keepWhole.toNat_le
  have hmore := more.toNat_le
  have hposition : fields.position keepWhole more offset < 65536 := by
    rw [IPv4Fields.position]
    omega
  obtain ⟨data, hdata⟩ : ∃ data, data = fields.packet route id keepWhole more offset payload ++
    padding := ⟨_, rfl⟩
  have hsize : data.length = fields.length + payload.length + padding.length := by
    rw [hdata, List.length_append, hpacket]
  have hfirst : data.at0 0 = 64 + fields.length / 4 := by
    rw [hdata, fields.at0_packet]
  have htotal : data.nat16At 2 = fields.length + payload.length := by
    rw [hdata]
    exact toNat_ofWord16_of_lt hfits
  have hid : data.nat16At 4 = id.toNat := by
    rw [hdata]
    exact toNat_ofWord16 id
  have hflags : data.nat16At 6 = fields.position keepWhole more offset := by
    rw [hdata]
    exact toNat_ofWord16_of_lt hposition
  have hbits : data.at0 6 = fields.position keepWhole more offset / 256 := by
    have hlow := (data.getD 7 0).toNat_lt
    have hsum : data.at0 6 * 256 + (data.getD 7 0).toNat = _ := hflags
    omega
  have hsource : data.slice 12 4 = ofNatBE 4 route.source.toNat := by
    rw [hdata]
    rfl
  have hdestination : data.slice 16 4 = ofNatBE 4 route.destination.toNat := by
    rw [hdata]
    rfl
  have hprotocol : data.getD 9 0 = route.protocol := by
    rw [hdata]
    rfl
  have hpayload : (data.take (data.nat16At 2)).drop (data.at0 0 % 16 * 4) = payload := by
    have hwords : data.at0 0 % 16 * 4 = fields.length := by
      omega
    rw [hwords, htotal, hdata, List.take_left' hpacket, hdrop]
  rw [← hdata, ofIPv4]
  dsimp only
  rw [if_neg (by omega), if_neg (by omega), if_neg (by omega), if_neg (by omega), hpayload, hid,
    hsource, hdestination, hprotocol, v4OfOctets_ofNatBE, v4OfOctets_ofNatBE, hflags, hbits]
  have hoffset' : fields.position keepWhole more offset % 8192 = offset := by
    rw [IPv4Fields.position]
    omega
  have hkeep : (fields.position keepWhole more offset / 256).testBit 6 = keepWhole := by
    apply testBit_of_mod
    rw [IPv4Fields.position]
    omega
  have hfollowed : (fields.position keepWhole more offset / 256).testBit 5 = more := by
    apply testBit_of_mod
    rw [IPv4Fields.position]
    omega
  rw [hoffset', hkeep, hfollowed]
  rfl

/-- A version 6 packet is read as it was laid out. -/
theorem ofIPv6_packet (fields : IPv6Fields) (route : Route IPv6) {body : Octets}
    (hfits : body.length < 65536) (padding : Octets) :
    ofIPv6 (fields.packet route body ++ padding) =
      .ok ⟨.v6 route.source, .v6 route.destination, route.protocol, body⟩ := by
  have hpacket := fields.length_packet route body
  have htraffic := fields.traffic.isLt
  obtain ⟨data, hdata⟩ : ∃ data, data = fields.packet route body ++ padding := ⟨_, rfl⟩
  have hsize : data.length = 40 + body.length + padding.length := by
    rw [hdata, List.length_append, hpacket]
  have hfirst : data.at0 0 = 96 + fields.traffic := by
    rw [hdata, fields.at0_packet]
  have hlength : data.nat16At 4 = body.length := by
    rw [hdata]
    exact toNat_ofWord16_of_lt hfits
  have hnext : data.getD 6 0 = route.protocol := by
    rw [hdata]
    rfl
  have hsource : data.slice 8 16 = ofNatBE 16 route.source.toNat := by
    rw [hdata]
    rfl
  have hdestination : data.slice 24 16 = ofNatBE 16 route.destination.toNat := by
    rw [hdata]
    rfl
  have hbody : data.slice 40 body.length = body := by
    rw [hdata]
    exact List.take_left
  rw [← hdata, ofIPv6]
  dsimp only
  rw [if_neg (by omega), if_neg (by omega), hlength, hbody, hnext, hsource, hdestination,
    v6OfOctets_ofNatBE, v6OfOctets_ofNatBE]

/-! ## TCP headers -/

/-- The fields of a TCP header that are not read, but for its length. -/
structure TcpFields where
  acknowledged : UInt32
  reserved : BitVec 4
  otherFlags : BitVec 5
  window : UInt16
  checksum : UInt16
  urgent : UInt16
  options : Octets
  aligned : options.length % 4 = 0
  short : options.length ≤ 40

namespace TcpFields

/-- The length of the header. -/
def length (fields : TcpFields) : Nat := 20 + fields.options.length

/-- The flags, of which three are read. -/
def flags (fields : TcpFields) (packet : TcpPacket) : Nat :=
  fields.otherFlags.toNat * 8 + packet.rst.toNat * 4 + packet.syn.toNat * 2 + packet.fin.toNat

/-- A segment. -/
def segment (fields : TcpFields) (packet : TcpPacket) : Octets :=
  ofWord16 packet.sourcePort ++ (ofWord16 packet.destinationPort ++
    (ofWord32 packet.sequence ++ (ofWord32 fields.acknowledged ++
    ([UInt8.ofNat (fields.length / 4 * 16 + fields.reserved.toNat),
      UInt8.ofNat (fields.flags packet)] ++
    (ofWord16 fields.window ++ (ofWord16 fields.checksum ++ (ofWord16 fields.urgent ++
    (fields.options ++ packet.payload))))))))

theorem length_segment (fields : TcpFields) (packet : TcpPacket) :
    (fields.segment packet).length = fields.length + packet.payload.length := by
  simp only [segment, List.length_append, length_ofWord16, length_ofWord32, List.length_cons,
    List.length_nil, length]
  omega

theorem drop_segment (fields : TcpFields) (packet : TcpPacket) :
    (fields.segment packet).drop fields.length = packet.payload := by
  rw [length, ← List.drop_drop]
  exact List.drop_left

end TcpFields

/-- A segment is read as it was laid out. -/
theorem ofTcp_segment (fields : TcpFields) (packet : TcpPacket) :
    ofTcp (fields.segment packet) = .ok packet := by
  have hshort := fields.short
  have haligned := fields.aligned
  have hlength : fields.length = 20 + fields.options.length := rfl
  have hsegment := fields.length_segment packet
  have hdrop := fields.drop_segment packet
  have hreserved := fields.reserved.isLt
  have hother := fields.otherFlags.isLt
  have hrst := packet.rst.toNat_le
  have hsyn := packet.syn.toNat_le
  have hfin := packet.fin.toNat_le
  obtain ⟨data, hdata⟩ : ∃ data, data = fields.segment packet := ⟨_, rfl⟩
  have hflags : data.at0 13 = fields.flags packet := by
    rw [hdata]
    show (UInt8.ofNat (fields.flags packet)).toNat = _
    rw [toNat_ofNat, TcpFields.flags]
    omega
  have hwords : data.at0 12 / 16 = fields.length / 4 := by
    rw [hdata]
    show (UInt8.ofNat (fields.length / 4 * 16 + fields.reserved.toNat)).toNat / 16 = _
    rw [toNat_ofNat]
    omega
  have hsource : UInt16.ofNat (data.nat16At 0) = packet.sourcePort := by
    rw [hdata, TcpFields.segment, nat16At_ofWord16, UInt16.ofNat_toNat]
  have hdestination : UInt16.ofNat (data.nat16At 2) = packet.destinationPort := by
    have hword : data.nat16At 2 = packet.destinationPort.toNat := by
      rw [hdata]
      exact toNat_ofWord16 packet.destinationPort
    rw [hword, UInt16.ofNat_toNat]
  have hsequence : UInt32.ofNat (data.nat16At 4 * 65536 + data.nat16At 6) = packet.sequence := by
    have hword : data.nat16At 4 * 65536 + data.nat16At 6 = packet.sequence.toNat := by
      rw [hdata]
      exact toNat_ofWord32 packet.sequence
    rw [hword, UInt32.ofNat_toNat]
  have hbit (i : Nat) (b : Bool) (h : fields.flags packet / 2 ^ i % 2 = b.toNat) :
      (fields.flags packet).testBit i = b :=
    testBit_of_mod h
  have hsynBit := hbit 1 packet.syn (by rw [TcpFields.flags]; omega)
  have hfinBit := hbit 0 packet.fin (by rw [TcpFields.flags]; omega)
  have hrstBit := hbit 2 packet.rst (by rw [TcpFields.flags]; omega)
  have hpayload : data.drop (data.at0 12 / 16 * 4) = packet.payload := by
    have hstart : data.at0 12 / 16 * 4 = fields.length := by
      omega
    rw [hstart, hdata, hdrop]
  have hsize : data.length = fields.length + packet.payload.length := by
    rw [hdata, hsegment]
  rw [← hdata, ofTcp]
  dsimp only
  rw [if_neg (by omega), if_neg (by omega), if_neg (by omega), hpayload, hsource, hdestination,
    hsequence, hflags, hsynBit, hfinBit, hrstBit]

/-- A whole version 4 packet with a segment to or from the DNS port in it is that segment. -/
theorem classifyIPv4_segment (fields : IPv4Fields) {route : Route IPv4}
    (hroute : route.protocol = tcpProtocol) (id : UInt16) (keepWhole : Bool)
    (tcpFields : TcpFields) {segment : TcpPacket} {ports : Ports}
    (hdns : segment.sourcePort = ports.dns ∨ segment.destinationPort = ports.dns)
    (hfits : fields.length + (tcpFields.length + segment.payload.length) < 65536)
    (time : Option Timestamp) (tunnel : Octets → Verdict) :
    classifyIPv4 ports time tunnel
        (fields.packet route id keepWhole false 0 (tcpFields.segment segment)) =
      .ok (.tcp ⟨route.v4, segment.sourcePort, segment.destinationPort, segment.sequence,
        segment.syn, segment.fin, segment.rst, segment.payload, time⟩) := by
  have hoffset : 0 < 8192 := by decide
  have hlength : fields.length + (tcpFields.segment segment).length < 65536 := by
    rw [tcpFields.length_segment]
    exact hfits
  have hread := ofIPv4_packet fields route id keepWhole false hoffset hlength []
  rw [List.append_nil] at hread
  have hwhole : (!keepWhole && (false || decide (0 ≠ 0))) = false := Bool.and_false _
  have hheader : route.v4.protocol = tcpProtocol := hroute
  have hother : tcpProtocol ≠ udpProtocol := by decide
  rw [classifyIPv4, hread]
  show (if (!keepWhole && (false || decide (0 ≠ 0))) = true then _ else
    ofTransport ports time tunnel route.v4 (tcpFields.segment segment)) = _
  rw [hwhole, if_neg Bool.false_ne_true, ofTransport, hheader, if_neg hother, if_pos rfl,
    ofTcp_segment]
  show (if _ then _ else _) = _
  rw [if_pos hdns]
  rfl

/-! ## Link headers -/

/-- The ethertype of a version. -/
def etherTypeOf : IpVersion → UInt16
  | .v4 => 0x0800
  | .v6 => 0x86DD

/-- A tag for a virtual network. -/
structure Tag where
  protocol : UInt16
  control : UInt16
  known : isTag protocol.toNat = true

/-- Tags one behind the other. -/
def tagOctets (tags : List Tag) : Octets :=
  tags.flatMap fun tag => ofWord16 tag.protocol ++ ofWord16 tag.control

/-- The frames that a packet makes with the link headers of a link type. -/
inductive Framed (version : IpVersion) (packet : Octets) : LinkType → Octets → Prop
  | ethernet (addresses : Octets) (haddresses : addresses.length = 12) (tags : List Tag) :
    Framed version packet .ethernet
      (addresses ++ (tagOctets tags ++ (ofWord16 (etherTypeOf version) ++ packet)))
  | rawIp : Framed version packet .rawIp packet
  | linuxCooked (fields : Octets) (hfields : fields.length = 14) :
    Framed version packet .linuxCooked (fields ++ (ofWord16 (etherTypeOf version) ++ packet))

/-- Classifies a packet of a version. -/
def classifyInternet : IpVersion → Ports → Option Timestamp → (Octets → Verdict) → Octets → Verdict
  | .v4 => classifyIPv4
  | .v6 => classifyIPv6

section Link

variable {ports : Ports} {time : Option Timestamp} {tunnel : Octets → Verdict}
  {version : IpVersion} {packet : Octets}

theorem isTag_etherTypeOf (version : IpVersion) : isTag (etherTypeOf version).toNat = false := by
  cases version <;> rfl

theorem untag_of_not_tag {etherType : Nat} (h : isTag etherType = false) (data : Octets) :
    untag etherType data = .ok (etherType, data) := by
  rw [untag.eq_def]
  split
  · rw [if_neg (by simp [h])]
  · rw [if_neg (by simp [h])]

/-- Tags are taken off, however many they are. -/
theorem untag_tags (tags : List Tag) (version : IpVersion) (packet : Octets) :
    untag ((tagOctets tags ++ (ofWord16 (etherTypeOf version) ++ packet)).nat16At 0)
      ((tagOctets tags ++ (ofWord16 (etherTypeOf version) ++ packet)).drop 2) =
        .ok ((etherTypeOf version).toNat, packet) := by
  induction tags with
  | nil =>
    show untag ((ofWord16 (etherTypeOf version) ++ packet).nat16At 0) packet = _
    rw [nat16At_ofWord16, untag_of_not_tag (isTag_etherTypeOf version)]
  | cons tag rest ih =>
    obtain ⟨hi, lo, more, hrest⟩ : ∃ hi lo more,
        tagOctets rest ++ (ofWord16 (etherTypeOf version) ++ packet) = hi :: lo :: more := by
      cases rest with
      | nil => exact ⟨_, _, _, rfl⟩
      | cons next others => exact ⟨_, _, _, rfl⟩
    rw [hrest] at ih
    have htags : tagOctets (tag :: rest) ++ (ofWord16 (etherTypeOf version) ++ packet) =
        ofWord16 tag.protocol ++ (ofWord16 tag.control ++ hi :: lo :: more) := by
      rw [tagOctets, List.flatMap_cons, List.append_assoc, List.append_assoc, ← hrest]
      rfl
    rw [htags, nat16At_ofWord16]
    show untag tag.protocol.toNat (UInt8.ofNat (tag.control.toNat / 256) ::
      UInt8.ofNat tag.control.toNat :: hi :: lo :: more) = _
    rw [untag, if_pos tag.known]
    exact ih

theorem classifyEtherType_eq (version : IpVersion) (packet : Octets) :
    classifyEtherType ports time tunnel (etherTypeOf version).toNat packet =
      classifyInternet version ports time tunnel packet := by
  cases version <;> rfl

/-- An Ethernet frame has behind its tags what was put there. -/
theorem ofEthernet_tagged {addresses : Octets} (haddresses : addresses.length = 12)
    (tags : List Tag) (version : IpVersion) (packet : Octets) :
    ofEthernet (addresses ++ (tagOctets tags ++ (ofWord16 (etherTypeOf version) ++ packet))) =
      .ok ((etherTypeOf version).toNat, packet) := by
  have huntag := untag_tags tags version packet
  generalize htagged : tagOctets tags ++ (ofWord16 (etherTypeOf version) ++ packet) = tagged
    at huntag ⊢
  have hlength : ¬(addresses ++ tagged).length < 14 := by
    have := congrArg List.length htagged
    simp only [List.length_append, length_ofWord16] at this ⊢
    omega
  rw [ofEthernet, if_neg hlength]
  have hword := nat16At_append_right addresses tagged 0
  rw [haddresses] at hword
  rw [hword, List.drop_append, haddresses, List.drop_of_length_le (by omega), List.nil_append]
  exact huntag

theorem classifyEthernet_framed {octets : Octets} (h : Framed version packet .ethernet octets) :
    classifyEthernet ports time tunnel octets =
      classifyInternet version ports time tunnel packet := by
  cases h with
  | ethernet addresses haddresses tags =>
    rw [classifyEthernet, ofEthernet_tagged haddresses]
    exact classifyEtherType_eq version packet

/-- A frame is classified as the packet in it. -/
theorem classify_framed {link : LinkType} {octets : Octets} (h : Framed version packet link octets)
    (hversion : packet.at0 0 / 16 = version.number) (ports : Ports) (time : Option Timestamp) :
    classify link ports ⟨octets, time⟩ =
      classifyInternet version ports time (openTunnel ports time maxTunnels) packet := by
  cases h with
  | ethernet addresses haddresses tags =>
    exact classifyEthernet_framed (.ethernet addresses haddresses tags)
  | rawIp =>
    show classifyRawIp ports time _ packet = _
    cases packet with
    | nil => cases version <;> cases hversion
    | cons b rest =>
      have hb : b.toNat / 16 = version.number := hversion
      rw [classifyRawIp]
      dsimp only
      rw [hb]
      cases version <;> rfl
  | linuxCooked fields hfields =>
    have hlength : ¬(fields ++ (ofWord16 (etherTypeOf version) ++ packet)).length < 16 := by
      simp only [List.length_append, length_ofWord16]
      omega
    have hread : ofLinuxCooked (fields ++ (ofWord16 (etherTypeOf version) ++ packet)) =
        .ok ((etherTypeOf version).toNat, packet) := by
      rw [ofLinuxCooked, if_neg hlength]
      have hword := nat16At_append_right fields (ofWord16 (etherTypeOf version) ++ packet) 0
      rw [hfields] at hword
      rw [hword, nat16At_ofWord16, List.drop_append, hfields,
        List.drop_of_length_le (by omega), List.nil_append]
      rfl
    rw [classify]
    dsimp only
    rw [hread]
    exact classifyEtherType_eq version packet

/-- A frame with a whole version 4 packet, in which there is a segment to or from the DNS port,
    is classified as that segment. -/
theorem classify_segment {link : LinkType} {octets : Octets} {fields : IPv4Fields}
    {route : Route IPv4} {id : UInt16} {keepWhole : Bool} {tcpFields : TcpFields}
    {segment : TcpPacket}
    (h : Framed .v4 (fields.packet route id keepWhole false 0 (tcpFields.segment segment)) link
      octets)
    (hroute : route.protocol = tcpProtocol)
    (hdns : segment.sourcePort = ports.dns ∨ segment.destinationPort = ports.dns)
    (hfits : fields.length + (tcpFields.length + segment.payload.length) < 65536)
    (time : Option Timestamp) :
    classify link ports ⟨octets, time⟩ =
      .ok (.tcp ⟨route.v4, segment.sourcePort, segment.destinationPort, segment.sequence,
        segment.syn, segment.fin, segment.rst, segment.payload, time⟩) := by
  have hversion := fields.version_packet route id keepWhole false 0 (tcpFields.segment segment) []
  rw [List.append_nil] at hversion
  rw [classify_framed h hversion]
  exact classifyIPv4_segment fields hroute id keepWhole tcpFields hdns hfits time _

end Link

end PassiveDns.Packet
