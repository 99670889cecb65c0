/-
  PassiveDns.Proofs.Verdict

  What holds of everything that a captured frame is classified as. Of each header it is told
  once what was there if it could be read (`ofIPv4_inv` and the like). The version of a header
  is that of its addresses, so a flow and the key of a fragment tell it. A segment is of the
  TCP protocol, and its payload is shorter than the largest datagram (`sound_classify`).
-/
import Mathlib.Tactic.Common
import PassiveDns.Packet.Classify

namespace PassiveDns.Packet

/-- The octets that a datagram has at most. -/
def maxDatagram : Nat := 65535

theorem nat16At_le (octets : Octets) (i : Nat) : octets.nat16At i ≤ maxDatagram := by
  have hhigh := (octets.getD i 0).toNat_lt
  have hlow := (octets.getD (i + 1) 0).toNat_lt
  show (octets.getD i 0).toNat * 256 + (octets.getD (i + 1) 0).toNat ≤ 65535
  omega

/-! ## Headers that could be read -/

/-- A version 4 packet, and the octets that it was read from. -/
structure IPv4Packet.ReadFrom (packet : IPv4Packet) (data : Octets) : Prop where
  fixed : 20 ≤ data.length
  version : data.at0 0 / 16 = 4
  words : 5 ≤ data.at0 0 % 16
  whole : data.at0 0 % 16 * 4 ≤ data.length
  family : packet.header.version = packet.header.source.version
  payload : packet.payload = (data.take (data.nat16At 2)).drop (data.at0 0 % 16 * 4)

/-- A version 6 packet, and the octets that it was read from. -/
structure IPv6Packet.ReadFrom (packet : IPv6Packet) (data : Octets) : Prop where
  fixed : 40 ≤ data.length
  version : data.at0 0 / 16 = 6
  family : packet.source.version = .v6
  body : packet.body = data.slice 40 (data.nat16At 4)

/-- A UDP datagram, and the octets that it was read from. -/
structure UdpPacket.ReadFrom (packet : UdpPacket) (data : Octets) : Prop where
  fixed : 8 ≤ data.length
  payload : packet.payload =
    (if 8 ≤ data.nat16At 4 then data.take (data.nat16At 4) else data).drop 8

/-- A TCP segment, and the octets that it was read from. -/
structure TcpPacket.ReadFrom (packet : TcpPacket) (data : Octets) : Prop where
  fixed : 20 ≤ data.length
  words : 5 ≤ data.at0 12 / 16
  whole : data.at0 12 / 16 * 4 ≤ data.length
  payload : packet.payload = data.drop (data.at0 12 / 16 * 4)

variable {data : Octets}

theorem ofIPv4_inv {packet : IPv4Packet} (h : ofIPv4 data = .ok packet) : packet.ReadFrom data := by
  rw [ofIPv4] at h
  dsimp only at h
  split at h
  · cases h
  · split at h
    · cases h
    · split at h
      · cases h
      · split at h
        · cases h
        · cases h
          exact ⟨by omega, by omega, by omega, by omega, rfl, rfl⟩

theorem ofIPv6_inv {packet : IPv6Packet} (h : ofIPv6 data = .ok packet) : packet.ReadFrom data := by
  rw [ofIPv6] at h
  dsimp only at h
  split at h
  · cases h
  · split at h
    · cases h
    · cases h
      exact ⟨by omega, by omega, rfl, rfl⟩

theorem ofUdp_inv {packet : UdpPacket} (h : ofUdp data = .ok packet) : packet.ReadFrom data := by
  rw [ofUdp] at h
  split at h
  · cases h
  · cases h
    exact ⟨by omega, rfl⟩

theorem ofTcp_inv {packet : TcpPacket} (h : ofTcp data = .ok packet) : packet.ReadFrom data := by
  rw [ofTcp] at h
  dsimp only at h
  split at h
  · cases h
  · split at h
    · cases h
    · split at h
      · cases h
      · cases h
        exact ⟨by omega, by omega, by omega, rfl⟩

/-! ## Verdicts -/

/-- What holds of a classified packet. -/
def Classified.Sound : Classified → Prop
  | .fragment f => f.header.version = f.header.source.version
  | .tcp s => s.header.version = s.header.source.version ∧ s.header.protocol = tcpProtocol ∧
      s.payload.length ≤ maxDatagram
  | _ => True

/-- What holds of every verdict that is no error. -/
def Verdict.Sound (verdict : Verdict) : Prop :=
  ∀ classified, verdict = .ok classified → classified.Sound

namespace Verdict

theorem sound_error (cause : PacketError) : Verdict.Sound (.error cause) :=
  nofun

theorem sound_ok {classified : Classified} (h : classified.Sound) :
    Verdict.Sound (.ok classified) := by
  intro other heq
  rw [← Except.ok.inj heq]
  exact h

/-- A verdict that depends on something read before. -/
theorem sound_bind {α : Type} {read : Except PacketError α} {next : α → Verdict}
    (h : ∀ a, read = .ok a → (next a).Sound) : Verdict.Sound (read >>= next) := by
  cases read with
  | error cause => exact sound_error cause
  | ok a => exact h a rfl

end Verdict

open Verdict

variable {ports : Ports} {time : Option Timestamp} {tunnel : Octets → Verdict}

theorem length_ofTcp {tcp : TcpPacket} (h : ofTcp data = .ok tcp) :
    tcp.payload.length ≤ data.length := by
  rw [(ofTcp_inv h).payload]
  exact (List.drop_sublist ..).length_le

theorem sound_ofTransport {header : IpHeader} {payload : Octets}
    (hversion : header.version = header.source.version) (hlength : payload.length ≤ maxDatagram)
    (htunnel : ∀ data, (tunnel data).Sound) :
    (ofTransport ports time tunnel header payload).Sound := by
  unfold ofTransport
  split
  · refine sound_bind fun udp _ => ?_
    split
    · exact sound_ok trivial
    · split
      · exact htunnel _
      · exact sound_ok trivial
  · split
    · rename_i hprotocol
      refine sound_bind fun tcp htcp => ?_
      split
      · exact sound_ok ⟨hversion, hprotocol, Nat.le_trans (length_ofTcp htcp) hlength⟩
      · exact sound_ok trivial
    · exact sound_ok trivial

/-- The length field bounds the payload, and has two octets. -/
theorem length_ofIPv4 {packet : IPv4Packet} (h : ofIPv4 data = .ok packet) :
    packet.payload.length ≤ maxDatagram := by
  rw [(ofIPv4_inv h).payload]
  refine Nat.le_trans ?_ (nat16At_le data 2)
  exact Nat.le_trans (List.drop_sublist ..).length_le (List.length_take_le ..)

theorem length_ofIPv6 {packet : IPv6Packet} (h : ofIPv6 data = .ok packet) :
    packet.body.length ≤ maxDatagram := by
  rw [(ofIPv6_inv h).body]
  exact Nat.le_trans (List.length_take_le ..) (nat16At_le data 4)

theorem sound_classifyIPv4 (htunnel : ∀ data, (tunnel data).Sound) (data : Octets) :
    (classifyIPv4 ports time tunnel data).Sound := by
  refine sound_bind fun packet hpacket => ?_
  have hversion := (ofIPv4_inv hpacket).family
  have hlength := length_ofIPv4 hpacket
  split
  · exact sound_ok hversion
  · exact sound_ofTransport hversion hlength htunnel

theorem sound_classifyIPv6 (htunnel : ∀ data, (tunnel data).Sound) (data : Octets) :
    (classifyIPv6 ports time tunnel data).Sound := by
  refine sound_bind fun packet hpacket => sound_bind fun chain _ => ?_
  have hversion := (ofIPv6_inv hpacket).family
  have hlength := length_ofIPv6 hpacket
  dsimp only
  split
  · exact sound_ok hversion.symm
  · exact sound_ofTransport hversion.symm
      (Nat.le_trans (List.drop_sublist ..).length_le hlength) htunnel

theorem sound_classifyEtherType (htunnel : ∀ data, (tunnel data).Sound) (etherType : Nat)
    (data : Octets) : (classifyEtherType ports time tunnel etherType data).Sound := by
  unfold classifyEtherType
  split
  · exact sound_classifyIPv4 htunnel data
  · split
    · exact sound_classifyIPv6 htunnel data
    · exact sound_ok trivial

theorem sound_classifyEthernet (htunnel : ∀ data, (tunnel data).Sound) (frame : Octets) :
    (classifyEthernet ports time tunnel frame).Sound :=
  sound_bind fun (etherType, data) _ => sound_classifyEtherType htunnel etherType data

/-- Nothing changes in tunnels inside tunnels. -/
theorem sound_openTunnel (ports : Ports) (time : Option Timestamp) (depth : Nat) (data : Octets) :
    (openTunnel ports time depth data).Sound := by
  induction depth generalizing data with
  | zero => exact sound_error _
  | succ depth ih =>
    unfold openTunnel
    split
    · exact sound_error _
    · split
      · exact sound_error _
      · exact sound_classifyEthernet ih _

theorem sound_classify (link : LinkType) (ports : Ports) (frame : Frame) :
    (classify link ports frame).Sound := by
  have htunnel := sound_openTunnel ports frame.time maxTunnels
  unfold classify
  cases link with
  | ethernet => exact sound_classifyEthernet htunnel _
  | linuxCooked =>
    exact sound_bind fun (etherType, data) _ => sound_classifyEtherType htunnel etherType data
  | rawIp =>
    dsimp only
    unfold classifyRawIp
    split
    · exact sound_error _
    · dsimp only
      split
      · exact sound_classifyIPv4 htunnel _
      · split
        · exact sound_classifyIPv6 htunnel _
        · exact sound_error _

end PassiveDns.Packet
