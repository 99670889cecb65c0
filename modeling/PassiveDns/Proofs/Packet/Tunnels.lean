/-
  PassiveDns.Proofs.Packet.Tunnels

  What a packet is does not depend on how it travels: on the link header in front of it, on
  the tags in that, or on tunnels around the frame. Classifying hands what is found behind a
  VXLAN header on to a tunnel and adds nothing (`classifyEthernet_wraps`), so tunnels come
  off one by one until none may be entered any more (`classifyEthernet_nested`).
-/
import Mathlib.Data.Fin.Tuple.Basic
import PassiveDns.Proofs.Fragments.Transparency

namespace PassiveDns.Packet

open Octets

/-! ## Whether a tunnel is entered -/

/-- Octets are handed on to a tunnel: the verdict is whatever is found in there. -/
def Enters (classify : (Octets → Verdict) → Verdict) (payload : Octets) : Prop :=
  ∀ tunnel, classify tunnel = tunnel payload

/-- No tunnel is asked: the verdict is the same whatever would be found in one. -/
def Plain (classify : (Octets → Verdict) → Verdict) : Prop :=
  ∃ verdict, ∀ tunnel, classify tunnel = verdict

/-- A way of classifying that asks a tunnel at most once, and then has its verdict from there. -/
def Passes (classify : (Octets → Verdict) → Verdict) : Prop :=
  Plain classify ∨ ∃ payload, Enters classify payload

section Passes

variable {ports : Ports} {time : Option Timestamp}

theorem passes_of_verdict (verdict : Verdict) : Passes fun _ => verdict :=
  .inl ⟨verdict, fun _ => rfl⟩

/-- Headers are read without a tunnel; what matters is what is done behind them. -/
theorem passes_bind {α : Type} (read : Except PacketError α)
    {next : α → (Octets → Verdict) → Verdict} (h : ∀ a, Passes (next a)) :
    Passes fun tunnel => read >>= fun a => next a tunnel := by
  cases read with
  | error cause => exact passes_of_verdict (.error cause)
  | ok a => exact h a

theorem passes_ite {condition : Prop} [Decidable condition]
    {yes no : (Octets → Verdict) → Verdict} (hyes : Passes yes) (hno : Passes no) :
    Passes fun tunnel => if condition then yes tunnel else no tunnel := by
  by_cases hcondition : condition
  · simpa only [if_pos hcondition] using hyes
  · simpa only [if_neg hcondition] using hno

theorem passes_ofTransport (header : IpHeader) (payload : Octets) :
    Passes fun tunnel => ofTransport ports time tunnel header payload := by
  unfold ofTransport
  refine passes_ite (passes_bind _ fun udp => ?_) (passes_of_verdict _)
  refine passes_ite (passes_of_verdict _) (passes_ite ?_ (passes_of_verdict _))
  exact .inr ⟨udp.payload, fun _ => rfl⟩

theorem passes_classifyInternet (version : IpVersion) (data : Octets) :
    Passes fun tunnel => classifyInternet version ports time tunnel data := by
  cases version with
  | v4 =>
    refine passes_bind _ fun packet => ?_
    exact passes_ite (passes_of_verdict _) (passes_ofTransport _ _)
  | v6 =>
    refine passes_bind _ fun packet => passes_bind _ fun chain => ?_
    cases hfragment : chain.fragment with
    | some fields => exact passes_of_verdict _
    | none => exact passes_ofTransport _ _

/-- An Ethernet frame enters one tunnel, or none. -/
theorem passes_classifyEthernet (frame : Octets) :
    Passes fun tunnel => classifyEthernet ports time tunnel frame := by
  refine passes_bind _ fun (etherType, data) => ?_
  refine passes_ite (passes_classifyInternet .v4 data) ?_
  exact passes_ite (passes_classifyInternet .v6 data) (passes_of_verdict _)

/-- What enters no tunnel is classified alike whatever stands behind one. -/
theorem Passes.eq_of_plain {classify : (Octets → Verdict) → Verdict} (h : Passes classify)
    (hplain : ∀ payload, ¬Enters classify payload) (tunnel other : Octets → Verdict) :
    classify tunnel = classify other := by
  rcases h with ⟨verdict, hverdict⟩ | ⟨payload, henters⟩
  · rw [hverdict, hverdict]
  · exact absurd henters (hplain payload)

end Passes

/-! ## Frames in tunnels -/

/-- What stands between an Internet header and a frame in a tunnel, but for ports and lengths:
    of the UDP header its source port and checksum, of the VXLAN header the flags, among
    which is the one that announces a network, and the seven octets behind them. -/
structure TunnelFields where
  sourcePort : UInt16
  checksum : UInt16
  flags : UInt8
  network : Octets
  announced : flags.toNat.testBit 3 = true
  exact : network.length = 7

namespace TunnelFields

/-- A frame behind its VXLAN header. -/
def tunnelled (fields : TunnelFields) (frame : Octets) : Octets :=
  fields.flags :: (fields.network ++ frame)

/-- The UDP datagram that carries it to a port. -/
def datagram (fields : TunnelFields) (port : UInt16) (frame : Octets) : Octets :=
  ofWord16 fields.sourcePort ++ (ofWord16 port ++
    (ofWord16 (UInt16.ofNat (8 + (fields.tunnelled frame).length)) ++
      (ofWord16 fields.checksum ++ fields.tunnelled frame)))

theorem length_tunnelled (fields : TunnelFields) (frame : Octets) :
    (fields.tunnelled frame).length = 8 + frame.length := by
  have hexact := fields.exact
  simp only [tunnelled, List.length_cons, List.length_append]
  omega

theorem length_datagram (fields : TunnelFields) (port : UInt16) (frame : Octets) :
    (fields.datagram port frame).length = 16 + frame.length := by
  have hlength := fields.length_tunnelled frame
  simp only [datagram, List.length_append, length_ofWord16]
  omega

/-- The datagram is read as it was laid out. -/
theorem ofUdp_datagram (fields : TunnelFields) (port : UInt16) {frame : Octets}
    (hfits : (fields.datagram port frame).length < 65536) :
    ofUdp (fields.datagram port frame) =
      .ok ⟨fields.sourcePort, port, fields.tunnelled frame⟩ := by
  have hlength := fields.length_datagram port frame
  have htunnelled := fields.length_tunnelled frame
  have hsource : UInt16.ofNat ((fields.datagram port frame).nat16At 0) = fields.sourcePort := by
    rw [datagram, nat16At_ofWord16, UInt16.ofNat_toNat]
  have hdestination : UInt16.ofNat ((fields.datagram port frame).nat16At 2) = port := by
    have hword : (fields.datagram port frame).nat16At 2 = port.toNat := toNat_ofWord16 port
    rw [hword, UInt16.ofNat_toNat]
  have hfield : (fields.datagram port frame).nat16At 4 = (fields.datagram port frame).length := by
    have hword : (fields.datagram port frame).nat16At 4 = 8 + (fields.tunnelled frame).length :=
      toNat_ofWord16_of_lt (by omega)
    omega
  rw [ofUdp, if_neg (by omega), hsource, hdestination, hfield]
  dsimp only
  rw [if_pos (by omega), List.take_length]
  rfl

/-- A tunnel that may be entered is left as the frame in it. -/
theorem openTunnel_tunnelled (fields : TunnelFields) (ports : Ports) (time : Option Timestamp)
    (depth : Nat) (frame : Octets) :
    openTunnel ports time (depth + 1) (fields.tunnelled frame) =
      classifyEthernet ports time (openTunnel ports time depth) frame := by
  have hlength := fields.length_tunnelled frame
  have hflag : ((fields.tunnelled frame).at0 0).testBit 3 = true := fields.announced
  have hframe : (fields.tunnelled frame).drop 8 = frame := by
    show (fields.network ++ frame).drop 7 = frame
    rw [← fields.exact, List.drop_left]
  rw [openTunnel, if_neg (by omega), hflag, hframe]
  rfl

end TunnelFields

/-- Frames that carry a frame through a tunnel, with padding perhaps: in a packet of either
    version that is no fragment, whatever options or extension headers it has, and between
    ports that are not those of DNS. -/
inductive Wraps (ports : Ports) (frame : Octets) : Octets → Prop
  | through (fields : TunnelFields) (header : IpHeader) (packet padding octets : Octets)
    (hsource : fields.sourcePort ≠ ports.dns) (hdestination : ports.vxlan ≠ ports.dns)
    (hudp : header.protocol = udpProtocol)
    (hcarries : CarriesWhole header (fields.datagram ports.vxlan frame) packet)
    (hframed : Framed header.version (packet ++ padding) .ethernet octets) :
    Wraps ports frame octets

/-- Frames with a frame inside so many tunnels. -/
inductive Nested (ports : Ports) (frame : Octets) : Nat → Octets → Prop
  | bare : Nested ports frame 0 frame
  | wrapped {depth : Nat} {inner outer : Octets} (hnested : Nested ports frame depth inner)
    (hwraps : Wraps ports inner outer) : Nested ports frame (depth + 1) outer

section Nested

variable {ports : Ports} {time : Option Timestamp} {tunnel : Octets → Verdict}

/-- A packet with a whole UDP datagram is classified as that. -/
theorem classifyInternet_udp {header : IpHeader} {part packet : Octets}
    (h : CarriesWhole header part packet) (hudp : header.protocol = udpProtocol)
    (padding : Octets) :
    classifyInternet header.version ports time tunnel (packet ++ padding) =
      ofTransport ports time tunnel header part := by
  cases h with
  | v4 fields route id keepWhole hheader hfits =>
    rw [hheader]
    show classifyIPv4 ports time tunnel _ = _
    rw [classifyIPv4, ofIPv4_packet fields route id keepWhole false (by decide) hfits]
    show (if (!keepWhole && (false || decide (0 ≠ 0))) = true then _ else _) = _
    rw [if_neg (by simp)]
  | v6 fields route front hheader hfits =>
    have hlast : extensionChain route.protocol part = .ok ⟨route.protocol, 0, none⟩ := by
      rw [hheader] at hudp
      have hprotocol : route.protocol = udpProtocol := hudp
      rw [hprotocol, extensionChain.eq_def, if_neg (by decide), if_neg (by decide)]
    rw [hheader]
    show classifyIPv6 ports time tunnel _ = _
    rw [classifyIPv6, ofIPv6_packet fields _ hfits]
    show (extensionChain (firstOf front route.protocol) _ >>= _) = _
    rw [extensionChain_append, hlast]
    show ofTransport ports time tunnel route.v6
      (List.drop ((chainOctets front route.protocol).length + 0) _) = _
    rw [Nat.add_zero, List.drop_left]

theorem length_lt_of_carriesWhole {header : IpHeader} {part packet : Octets}
    (h : CarriesWhole header part packet) : part.length < 65536 := by
  cases h with
  | v4 fields route id keepWhole hheader hfits => omega
  | v6 fields route front hheader hfits =>
    rw [List.length_append] at hfits
    omega

/-- A frame that carries another one through a tunnel is classified as the tunnel says. -/
theorem classifyEthernet_wraps (time : Option Timestamp) {inner outer : Octets}
    (h : Wraps ports inner outer) :
    ∃ fields : TunnelFields, ∀ tunnel,
      classifyEthernet ports time tunnel outer = tunnel (fields.tunnelled inner) := by
  cases h with
  | through fields header packet padding _ hsource hdestination hudp hcarries hframed =>
    refine ⟨fields, fun tunnel => ?_⟩
    rw [classifyEthernet_framed hframed, classifyInternet_udp hcarries hudp, ofTransport,
      if_pos hudp, fields.ofUdp_datagram _ (length_lt_of_carriesWhole hcarries)]
    show (if fields.sourcePort = ports.dns ∨ ports.vxlan = ports.dns then _
      else if ports.vxlan = ports.vxlan then tunnel (fields.tunnelled inner) else _) = _
    rw [if_neg (not_or.mpr ⟨hsource, hdestination⟩), if_pos rfl]

/-- Tunnels come off one by one, as long as a further one may be entered. -/
theorem classifyEthernet_nested {frame outer : Octets} {depth : Nat}
    (h : Nested ports frame depth outer)
    (hplain : ∀ payload, ¬Enters (fun tunnel => classifyEthernet ports time tunnel frame) payload)
    (limit : Nat) :
    classifyEthernet ports time (openTunnel ports time limit) outer =
      if depth ≤ limit then classifyEthernet ports time (openTunnel ports time limit) frame
      else .error .tooDeep := by
  induction h generalizing limit with
  | bare => rw [if_pos (Nat.zero_le limit)]
  | wrapped hnested hwraps ih =>
    obtain ⟨fields, hfields⟩ := classifyEthernet_wraps time hwraps
    rw [hfields]
    cases limit with
    | zero => rfl
    | succ limit =>
      rw [fields.openTunnel_tunnelled, ih]
      simp only [Nat.add_le_add_iff_right]
      -- the frame does not ask how many tunnels may still be entered
      rw [(passes_classifyEthernet frame).eq_of_plain hplain (openTunnel ports time limit)
        (openTunnel ports time (limit + 1))]

end Nested

/-! ## Transparency -/

/-- A packet of either version is classified alike with each link header and any number of
    tags in front of it. An Ethernet frame that enters no tunnel is classified alike inside up
    to four of them, and inside more it is refused. -/
theorem encapsulation_transparent (ports : Ports) (time : Option Timestamp) :
    (∀ (version : IpVersion) (packet : Octets), packet.at0 0 / 16 = version.number →
      ∀ (link : LinkType) (octets : Octets), Framed version packet link octets →
        classify link ports ⟨octets, time⟩ = classify .rawIp ports ⟨packet, time⟩) ∧
    ∀ frame : Octets,
      (∀ payload, ¬Enters (fun tunnel => classifyEthernet ports time tunnel frame) payload) →
      ∀ (depth : Nat) (outer : Octets), Nested ports frame depth outer →
        classify .ethernet ports ⟨outer, time⟩ =
          if depth ≤ 4 then classify .ethernet ports ⟨frame, time⟩ else .error .tooDeep := by
  refine ⟨fun version packet hversion link octets hframed => ?_,
    fun frame hplain depth outer hnested => ?_⟩
  · rw [classify_framed hframed hversion, classify_framed .rawIp hversion]
  · exact classifyEthernet_nested hnested hplain maxTunnels

/-! ### A query in tunnels of either version -/

namespace Overlay

/-- The ports of DNS and of tunnels. -/
def ports : Ports := ⟨53, 4789⟩

/-- A stub resolver asks a server, in a packet with options. -/
def packet : Octets :=
  IPv4Fields.packet ⟨0, false, 64, 0, [1, 1, 1, 0], rfl, by decide⟩ ⟨0x0a000001, 0x0a000035, 17⟩
    7 true false 0 ([0x9C, 0x40, 0, 53, 0, 20, 0, 0] ++ [0, 1, 1, 0, 0, 0, 0, 0, 0, 0, 0, 0])

/-- The packet in a frame. -/
def query : Octets := List.replicate 12 2 ++ (ofWord16 0x0800 ++ packet)

/-- The headers of each tunnel. -/
def fields : TunnelFields := ⟨49152, 0, 8, [0, 0, 0, 0, 0, 42, 0], by decide, rfl⟩

/-- The header of a version 4 packet around a tunnel. -/
def fields4 : IPv4Fields := ⟨0, false, 64, 0, [1, 1, 1, 0], rfl, by decide⟩

/-- The header of a version 6 packet around a tunnel. -/
def fields6 : IPv6Fields := ⟨⟨0, by decide⟩, (0, 0, 0), 64⟩

/-- Between which hosts a tunnel is in version 4. -/
def route4 : Route IPv4 := ⟨0xc0000201, 0xc0000202, 17⟩

/-- Between which hosts a tunnel is in version 6. -/
def route6 : Route IPv6 := ⟨1, 2, 17⟩

/-- Hop-by-hop options. -/
def front : List Extension := [⟨0, 0, [1, 4, 0, 0, 0, 0], by decide, by decide⟩]

/-- A tag for a virtual network. -/
def tags : List Tag := [⟨0x88A8, 20, rfl⟩]

/-- A frame in a tunnel over version 4. -/
def inV4 (frame : Octets) : Octets :=
  List.replicate 12 2 ++ (tagOctets tags ++ (ofWord16 0x0800 ++
    (fields4.packet route4 7 false false 0 (fields.datagram ports.vxlan frame) ++ [])))

/-- A frame in a tunnel over version 6. -/
def inV6 (frame : Octets) : Octets :=
  List.replicate 12 2 ++ (tagOctets [] ++ (ofWord16 0x86DD ++
    (fields6.packet { route6 with protocol := firstOf front route6.protocol }
      (chainOctets front route6.protocol ++ fields.datagram ports.vxlan frame) ++ [0, 0])))

theorem wraps_inV4 {frame : Octets} (h : frame.length < 60000) :
    Wraps ports frame (inV4 frame) := by
  have hlength := fields.length_datagram ports.vxlan frame
  refine .through fields route4.v4 _ [] _ (by decide) (by decide) rfl
    (.v4 fields4 route4 7 false rfl ?_) (.ethernet (List.replicate 12 2) rfl tags)
  show 24 + _ < 65536
  omega

theorem wraps_inV6 {frame : Octets} (h : frame.length < 60000) :
    Wraps ports frame (inV6 frame) := by
  have hlength := fields.length_datagram ports.vxlan frame
  refine .through fields route6.v6 _ [0, 0] _ (by decide) (by decide) rfl
    (.v6 fields6 route6 front rfl ?_) (.ethernet (List.replicate 12 2) rfl [])
  rw [List.length_append]
  show 8 + _ < 65536
  omega

theorem length_inV4 (frame : Octets) : (inV4 frame).length = 58 + frame.length := by
  have hlength := fields.length_datagram ports.vxlan frame
  simp only [inV4, List.length_append, List.length_replicate, fields4.length_packet, hlength]
  show 12 + (4 + (2 + (24 + (16 + frame.length) + 0))) = _
  omega

theorem length_inV6 (frame : Octets) : (inV6 frame).length = 80 + frame.length := by
  have hlength := fields.length_datagram ports.vxlan frame
  simp only [inV6, List.length_append, List.length_replicate, fields6.length_packet, hlength]
  show 12 + (0 + (2 + (40 + (8 + (16 + frame.length)) + 2))) = _
  omega

theorem nested_four : Nested ports query 4 (inV4 (inV6 (inV4 (inV6 query)))) := by
  have hquery : query.length = 58 := by decide
  refine .wrapped (.wrapped (.wrapped (.wrapped .bare (wraps_inV6 ?_)) (wraps_inV4 ?_))
    (wraps_inV6 ?_)) (wraps_inV4 ?_) <;> simp only [length_inV4, length_inV6, hquery] <;> decide

/-- What is found in the frame, whatever is found in tunnels. -/
theorem classifyEthernet_query (tunnel : Octets → Verdict) :
    classifyEthernet ports none tunnel query = .ok (.udp ⟨⟨.v4, .v4 0x0a000001, .v4 0x0a000035, 17⟩,
      40000, 53, [0, 1, 1, 0, 0, 0, 0, 0, 0, 0, 0, 0], none⟩) := by
  cbv

theorem not_enters_query (payload : Octets) :
    ¬Enters (fun tunnel => classifyEthernet ports none tunnel query) payload := by
  intro henters
  have hverdict := (classifyEthernet_query _).symm.trans (henters fun _ => .error .tooDeep)
  cases hverdict

/-- The query is found behind each link header and in four tunnels, and refused in a fifth. -/
theorem encapsulation_transparent_query :
    classify .linuxCooked ports ⟨List.replicate 14 0 ++ (ofWord16 0x0800 ++ packet), none⟩ =
        classify .rawIp ports ⟨packet, none⟩ ∧
      classify .ethernet ports ⟨inV4 (inV6 (inV4 (inV6 query))), none⟩ =
        classify .ethernet ports ⟨query, none⟩ ∧
      classify .ethernet ports ⟨inV6 (inV4 (inV6 (inV4 (inV6 query)))), none⟩ =
        .error .tooDeep := by
  obtain ⟨hlink, htunnel⟩ := encapsulation_transparent ports none
  have hlength : (inV4 (inV6 (inV4 (inV6 query)))).length < 60000 := by
    simp only [length_inV4, length_inV6]
    decide
  refine ⟨hlink .v4 packet (by decide) _ _ (.linuxCooked (List.replicate 14 0) rfl), ?_, ?_⟩
  · exact htunnel query not_enters_query 4 _ nested_four
  · exact htunnel query not_enters_query 5 _ (.wrapped nested_four (wraps_inV6 hlength))

end Overlay

end PassiveDns.Packet
