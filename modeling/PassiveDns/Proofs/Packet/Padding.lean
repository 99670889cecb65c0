/-
  PassiveDns.Proofs.Packet.Padding

  What a link adds behind a packet is no part of it. An Internet packet says itself how long it
  is, and is read alike whatever stands behind that (`ofIPv4_append`, `ofIPv6_append`); link
  headers are taken off from the front. So a frame that has all of its packet is classified
  alike with any octets behind it (`padding_ignored`).
-/
import PassiveDns.Proofs.Packet.Layout
import PassiveDns.Proofs.Verdict

namespace PassiveDns.Packet

open Octets

/-! ## Packets -/

/-- The length of an Internet packet as its header declares it. -/
def declaredLength : IpVersion → Octets → Nat
  | .v4, packet => packet.nat16At 2
  | .v6, packet => 40 + packet.nat16At 4

/-- The header of a packet of some version can be read. -/
def HasHeader : IpVersion → Octets → Prop
  | .v4, packet => ∃ read, ofIPv4 packet = .ok read
  | .v6, packet => ∃ read, ofIPv6 packet = .ok read

section Padding

variable {packet : Octets}

theorem ofIPv4_append (hheader : HasHeader .v4 packet)
    (hdeclared : declaredLength .v4 packet ≤ packet.length) (padding : Octets) :
    ofIPv4 (packet ++ padding) = ofIPv4 packet := by
  obtain ⟨read, hread⟩ := hheader
  obtain ⟨hfixed, hversion, hwords, hwhole, -, -⟩ := ofIPv4_inv hread
  have hlength : (packet ++ padding).length = packet.length + padding.length :=
    List.length_append
  have hfirst : (packet ++ padding).at0 0 = packet.at0 0 := at0_append_left (by omega) padding
  have hflags : (packet ++ padding).at0 6 = packet.at0 6 := at0_append_left (by omega) padding
  have hprotocol : (packet ++ padding).getD 9 0 = packet.getD 9 0 :=
    getD_append_left (by omega) padding
  have htotal : (packet ++ padding).nat16At 2 = packet.nat16At 2 :=
    nat16At_append_left (by omega) padding
  have hid : (packet ++ padding).nat16At 4 = packet.nat16At 4 :=
    nat16At_append_left (by omega) padding
  have hposition : (packet ++ padding).nat16At 6 = packet.nat16At 6 :=
    nat16At_append_left (by omega) padding
  have hsource : (packet ++ padding).slice 12 4 = packet.slice 12 4 :=
    slice_append_left (by omega) padding
  have hdestination : (packet ++ padding).slice 16 4 = packet.slice 16 4 :=
    slice_append_left (by omega) padding
  -- the payload ends where the header says
  have hpayload : (packet ++ padding).take (packet.nat16At 2) = packet.take (packet.nat16At 2) :=
    List.take_append_of_le_length hdeclared
  rw [ofIPv4, ofIPv4]
  dsimp only
  rw [hfirst, hflags, hprotocol, htotal, hid, hposition, hsource, hdestination, hpayload]
  rw [if_neg (by omega), if_neg (by omega), if_neg (by omega), if_neg (by omega),
    if_neg (by omega), if_neg (by omega), if_neg (by omega), if_neg (by omega)]

theorem ofIPv6_append (hheader : HasHeader .v6 packet)
    (hdeclared : declaredLength .v6 packet ≤ packet.length) (padding : Octets) :
    ofIPv6 (packet ++ padding) = ofIPv6 packet := by
  obtain ⟨read, hread⟩ := hheader
  obtain ⟨hfixed, hversion, -, -⟩ := ofIPv6_inv hread
  have hlength : (packet ++ padding).length = packet.length + padding.length :=
    List.length_append
  have hfirst : (packet ++ padding).at0 0 = packet.at0 0 := at0_append_left (by omega) padding
  have hnext : (packet ++ padding).getD 6 0 = packet.getD 6 0 :=
    getD_append_left (by omega) padding
  have hfield : (packet ++ padding).nat16At 4 = packet.nat16At 4 :=
    nat16At_append_left (by omega) padding
  have hsource : (packet ++ padding).slice 8 16 = packet.slice 8 16 :=
    slice_append_left (by omega) padding
  have hdestination : (packet ++ padding).slice 24 16 = packet.slice 24 16 :=
    slice_append_left (by omega) padding
  -- the body ends where the header says
  have hbody : (packet ++ padding).slice 40 (packet.nat16At 4) =
      packet.slice 40 (packet.nat16At 4) :=
    slice_append_left hdeclared padding
  rw [ofIPv6, ofIPv6]
  dsimp only
  rw [hfirst, hnext, hfield, hsource, hdestination, hbody]
  rw [if_neg (by omega), if_neg (by omega), if_neg (by omega)]

/-- A packet that is all there is classified alike whatever stands behind it. -/
theorem classifyInternet_append {version : IpVersion} (hheader : HasHeader version packet)
    (hdeclared : declaredLength version packet ≤ packet.length) (padding : Octets) (ports : Ports)
    (time : Option Timestamp) (tunnel : Octets → Verdict) :
    classifyInternet version ports time tunnel (packet ++ padding) =
      classifyInternet version ports time tunnel packet := by
  cases version with
  | v4 =>
    show classifyIPv4 ports time tunnel _ = classifyIPv4 ports time tunnel _
    rw [classifyIPv4, classifyIPv4, ofIPv4_append hheader hdeclared]
  | v6 =>
    show classifyIPv6 ports time tunnel _ = classifyIPv6 ports time tunnel _
    rw [classifyIPv6, classifyIPv6, ofIPv6_append hheader hdeclared]

/-- The version of a packet is in its first octet. -/
theorem version_of_hasHeader {version : IpVersion} (h : HasHeader version packet) :
    0 < packet.length ∧ packet.at0 0 / 16 = version.number := by
  cases version with
  | v4 =>
    obtain ⟨read, hread⟩ := h
    obtain ⟨hfixed, hversion, -⟩ := ofIPv4_inv hread
    exact ⟨by omega, hversion⟩
  | v6 =>
    obtain ⟨read, hread⟩ := h
    obtain ⟨hfixed, hversion, -⟩ := ofIPv6_inv hread
    exact ⟨by omega, hversion⟩

/-! ## Frames -/

/-- A frame has a packet of some version behind its link headers, and from there on. -/
def Bears (link : LinkType) (octets : Octets) (version : IpVersion) (packet : Octets) : Prop :=
  match link with
  | .ethernet => ofEthernet octets = .ok ((etherTypeOf version).toNat, packet)
  | .linuxCooked => ofLinuxCooked octets = .ok ((etherTypeOf version).toNat, packet)
  | .rawIp => octets = packet

theorem untag_append {etherType last : Nat} {data rest : Octets}
    (h : untag etherType data = .ok (last, rest)) (padding : Octets) :
    untag etherType (data ++ padding) = .ok (last, rest ++ padding) := by
  fun_induction untag etherType data with
  | case1 etherType a b hi lo behind htag ih =>
    show untag etherType (a :: b :: hi :: lo :: (behind ++ padding)) = _
    rw [untag, if_pos htag]
    exact ih h
  | case2 etherType a b hi lo behind htag =>
    cases h
    exact untag_of_not_tag (Bool.eq_false_of_not_eq_true htag) _
  | case3 etherType short _ htag => cases h
  | case4 etherType short _ htag =>
    cases h
    exact untag_of_not_tag (Bool.eq_false_of_not_eq_true htag) _

theorem ofEthernet_append {octets : Octets} {etherType : Nat}
    (h : ofEthernet octets = .ok (etherType, packet)) (padding : Octets) :
    ofEthernet (octets ++ padding) = .ok (etherType, packet ++ padding) := by
  rw [ofEthernet] at h
  split at h
  · cases h
  · rw [ofEthernet, if_neg (by rw [List.length_append]; omega), nat16At_append_left (by omega),
      List.drop_append_of_le_length (by omega)]
    exact untag_append h padding

theorem ofLinuxCooked_append {octets : Octets} {etherType : Nat}
    (h : ofLinuxCooked octets = .ok (etherType, packet)) (padding : Octets) :
    ofLinuxCooked (octets ++ padding) = .ok (etherType, packet ++ padding) := by
  rw [ofLinuxCooked] at h
  split at h
  · cases h
  · cases h
    rw [ofLinuxCooked, if_neg (by rw [List.length_append]; omega), nat16At_append_left (by omega),
      List.drop_append_of_le_length (by omega)]

/-- What stands behind a packet stands behind its frame. -/
theorem Bears.append {link : LinkType} {octets : Octets} {version : IpVersion}
    (h : Bears link octets version packet) (padding : Octets) :
    Bears link (octets ++ padding) version (packet ++ padding) := by
  cases link with
  | ethernet => exact ofEthernet_append h padding
  | linuxCooked => exact ofLinuxCooked_append h padding
  | rawIp => exact congrArg (· ++ padding) h

/-- A frame is classified as the packet that it bears. -/
theorem Bears.classify_eq {link : LinkType} {octets : Octets} {version : IpVersion}
    (h : Bears link octets version packet)
    (hversion : packet.at0 0 / 16 = version.number) (ports : Ports) (time : Option Timestamp) :
    classify link ports ⟨octets, time⟩ =
      classifyInternet version ports time (openTunnel ports time maxTunnels) packet := by
  cases link with
  | ethernet =>
    show classifyEthernet ports time _ octets = _
    rw [classifyEthernet, show ofEthernet octets = _ from h]
    exact classifyEtherType_eq version packet
  | linuxCooked =>
    rw [classify]
    dsimp only
    rw [show ofLinuxCooked octets = _ from h]
    exact classifyEtherType_eq version packet
  | rawIp =>
    obtain rfl : octets = packet := h
    exact classify_framed .rawIp hversion ports time

/-- A frame whose Internet packet is all there, by the length that its header declares, is
    classified alike with any octets behind it, whatever the packet holds. -/
theorem padding_ignored {link : LinkType} {octets packet : Octets} {version : IpVersion}
    (hbears : Bears link octets version packet) (hheader : HasHeader version packet)
    (hdeclared : declaredLength version packet ≤ packet.length) (padding : Octets) (ports : Ports)
    (time : Option Timestamp) :
    classify link ports ⟨octets ++ padding, time⟩ = classify link ports ⟨octets, time⟩ := by
  obtain ⟨hpos, hversion⟩ := version_of_hasHeader hheader
  have hpadded : (packet ++ padding).at0 0 / 16 = version.number := by
    rw [at0_append_left hpos, hversion]
  rw [(hbears.append padding).classify_eq hpadded, hbears.classify_eq hversion,
    classifyInternet_append hheader hdeclared]

end Padding

/-! ### A datagram without room for its header -/

namespace ShortDatagram

/-- A packet of 23 octets, in which only three are left for a UDP header. -/
def packet : Octets :=
  [0x45, 0, 0, 23, 0, 7, 0, 0, 64, 17, 0, 0, 10, 0, 0, 1, 10, 0, 0, 53] ++ [0x9C, 0x40, 0]

/-- The packet in a tagged frame. -/
def frame : Octets := List.replicate 12 2 ++ ([0x81, 0, 0, 20, 0x08, 0] ++ packet)

/-- However far a link fills the frame, no more than three octets are found for the header. -/
theorem padding_ignored_filled :
    Bears .ethernet frame .v4 packet ∧ HasHeader .v4 packet ∧
      declaredLength .v4 packet ≤ packet.length ∧
      classify .ethernet ⟨53, 4789⟩ ⟨frame ++ List.replicate 23 0, none⟩ =
        .error (.malformed .udp (.tooShort .udp 8 3)) := by
  have hbears : Bears .ethernet frame .v4 packet := by
    show ofEthernet frame = .ok (0x0800, packet)
    cbv
  have hheader : HasHeader .v4 packet := by
    refine ⟨⟨⟨.v4, .v4 0x0a000001, .v4 0x0a000035, 17⟩, 7, false, false, 0, [0x9C, 0x40, 0]⟩, ?_⟩
    cbv
  have hdeclared : declaredLength .v4 packet ≤ packet.length := by decide
  refine ⟨hbears, hheader, hdeclared, ?_⟩
  rw [padding_ignored hbears hheader hdeclared]
  cbv

end ShortDatagram

end PassiveDns.Packet
