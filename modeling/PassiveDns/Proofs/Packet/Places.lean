/-
  PassiveDns.Proofs.Packet.Places

  Where in a frame a payload stands. `locate` classifies a frame without taking anything out
  of it: it goes on with the bounds of what is looked at next, uses no index before it was
  checked, and notes the packets and datagrams that it goes into. No check ever fails, and what
  is found is what `classify` says, with a place for its payload that is in all of those
  (`Finds`, which each step hands on to the next).
-/
import Mathlib.Tactic.Common
import PassiveDns.Proofs.Packet.Chain
import PassiveDns.Proofs.Packet.Layout
import PassiveDns.Proofs.Verdict

namespace PassiveDns.Packet

open Octets

/-! ## Stretches -/

/-- A stretch of octets, by its bounds. -/
structure Stretch (input : Octets) where
  start : Nat
  stop : Nat
  ordered : start ≤ stop
  inside : stop ≤ input.length

namespace Stretch

variable {input : Octets}

/-- All octets. -/
def all (input : Octets) : Stretch input := ⟨0, input.length, Nat.zero_le _, Nat.le_refl _⟩

/-- The length of a stretch. -/
def length (s : Stretch input) : Nat := s.stop - s.start

/-- The octets of a stretch. -/
def octets (s : Stretch input) : Octets := input.slice s.start s.length

/-- The part of a stretch from one index to another. -/
def part (s : Stretch input) (low high : Nat) (hlow : low ≤ high) (hhigh : high ≤ s.length) :
    Stretch input where
  start := s.start + low
  stop := s.start + high
  ordered := Nat.add_le_add_left hlow _
  inside := by
    have hordered := s.ordered
    have hinside := s.inside
    unfold length at hhigh
    omega

/-- The part from one index to another, if they are in order and in range. -/
def part? (s : Stretch input) (low high : Nat) : Option (Stretch input) :=
  if h : low ≤ high ∧ high ≤ s.length then some (s.part low high h.1 h.2) else none

@[simp] theorem octets_all (input : Octets) : (all input).octets = input := by
  show (input.drop 0).take (input.length - 0) = input
  rw [List.drop_zero, Nat.sub_zero, List.take_length]

@[simp] theorem length_octets (s : Stretch input) : s.octets.length = s.length := by
  have hinside := s.inside
  rw [octets, slice, List.length_take, List.length_drop, length]
  omega

theorem part?_eq (s : Stretch input) {low high : Nat} (hlow : low ≤ high)
    (hhigh : high ≤ s.length) : s.part? low high = some (s.part low high hlow hhigh) :=
  dif_pos ⟨hlow, hhigh⟩

/-- A part has as many octets as there are of those that are asked for. -/
theorem octets_part (s : Stretch input) {low high count : Nat} (hlow : low ≤ high)
    (hhigh : high ≤ s.length) (hcount : high - low = min count (s.length - low)) :
    (s.part low high hlow hhigh).octets = (s.octets.drop low).take count := by
  have hlength : (s.part low high hlow hhigh).length = high - low := by
    show s.start + high - (s.start + low) = _
    omega
  have hshort : (s.octets.drop low).length = s.length - low := by
    rw [List.length_drop, length_octets]
  rw [List.take_eq_take_min, hshort, ← hcount]
  rw [octets, octets, slice, slice, hlength, List.drop_take, List.drop_drop, List.take_take,
    Nat.min_eq_left (by omega)]
  rfl

/-- The part up to the end of a stretch. -/
theorem octets_rest (s : Stretch input) {low : Nat} (hlow : low ≤ s.length) :
    (s.part low s.length hlow (Nat.le_refl _)).octets = s.octets.drop low := by
  rw [s.octets_part hlow (Nat.le_refl _) (Nat.min_self _).symm]
  exact List.take_of_length_le (by rw [List.length_drop, length_octets])

theorem at0_octets (s : Stretch input) {i : Nat} (h : i < s.length) :
    s.octets.at0 i = input.at0 (s.start + i) := by
  rw [at0, at0, octets, slice, List.getD_eq_getElem?_getD, List.getD_eq_getElem?_getD,
    List.getElem?_take_of_lt h, List.getElem?_drop]

theorem nat16At_octets (s : Stretch input) {i : Nat} (h : i + 1 < s.length) :
    s.octets.nat16At i = input.nat16At (s.start + i) := by
  rw [nat16At, nat16At, s.at0_octets (Nat.lt_of_succ_lt h), s.at0_octets h, Nat.add_assoc]

end Stretch

/-! ## What a payload is in -/

/-- An Internet packet or a UDP datagram that is gone into, by the place of its header. -/
inductive Envelope where
  | ipv4 (start : Nat)
  | ipv6 (start : Nat)
  | udp (start : Nat)
deriving Repr, DecidableEq

namespace Envelope

/-- Where its header starts. -/
def start : Envelope → Nat
  | ipv4 start | ipv6 start | udp start => start

/-- Where it ends, as its length field declares. That of a UDP datagram declares nothing if it
    has no room for the header. -/
def stop? (input : Octets) : Envelope → Option Nat
  | ipv4 start => some (start + input.nat16At (start + 2))
  | ipv6 start => some (start + (40 + input.nat16At (start + 4)))
  | udp start =>
    if 8 ≤ input.nat16At (start + 4) then some (start + input.nat16At (start + 4)) else none

/-- All octets of a stretch are behind the start, and in front of the end if that is declared.
    Where there are no octets nothing is asked. -/
def Holds {input : Octets} (envelope : Envelope) (s : Stretch input) : Prop :=
  ∀ i, s.start ≤ i → i < s.stop →
    envelope.start ≤ i ∧ ∀ stop, envelope.stop? input = some stop → i < stop

/-- A part of what stands at its start is in it, unless it reaches over the declared end. -/
theorem holds_part {input : Octets} {envelope : Envelope} {s : Stretch input} {low high : Nat}
    (hstart : envelope.start = s.start) (hlow : low ≤ high) (hhigh : high ≤ s.length)
    (hstop : ∀ stop, envelope.stop? input = some stop → low = high ∨ s.start + high ≤ stop) :
    envelope.Holds (s.part low high hlow hhigh) := by
  intro i hfirst hlast
  have hfirst' : s.start + low ≤ i := hfirst
  have hlast' : i < s.start + high := hlast
  refine ⟨by omega, fun stop hdeclared => ?_⟩
  rcases hstop stop hdeclared with hempty | hreach
  · omega
  · omega

end Envelope

/-- A stretch is in all of these. -/
def Within {input : Octets} (envelopes : List Envelope) (s : Stretch input) : Prop :=
  ∀ envelope ∈ envelopes, envelope.Holds s

section Within

variable {input : Octets} {envelopes : List Envelope} {s : Stretch input}

theorem within_nil (s : Stretch input) : Within [] s := nofun

theorem Within.part (h : Within envelopes s) {low high : Nat} (hlow : low ≤ high)
    (hhigh : high ≤ s.length) : Within envelopes (s.part low high hlow hhigh) := by
  intro envelope henvelope i hstart hstop
  have hstart' : s.start + low ≤ i := hstart
  have hstop' : i < s.start + high := hstop
  have hlength : s.length = s.stop - s.start := rfl
  exact h envelope henvelope i (by omega) (by omega)

/-- One more is gone into. -/
theorem Within.append (h : Within envelopes s) {envelope : Envelope} (hlast : envelope.Holds s) :
    Within (envelopes ++ [envelope]) s := by
  intro other hother
  rcases List.mem_append.mp hother with hother | hother
  · exact h other hother
  · rw [List.mem_singleton.mp hother]
    exact hlast

end Within

/-! ## Payloads -/

/-- The payload of a classified packet. -/
def Classified.content? : Classified → Option Octets
  | .fragment f => some f.payload
  | .udp d => some d.payload
  | .tcp s => some s.payload
  | .ignored => none

/-- The envelopes around its payload that are not around a tunnel: an Internet packet, and in
    it perhaps a UDP datagram. -/
def Classified.layers : Classified → Nat
  | .fragment _ | .tcp _ => 1
  | .udp _ => 2
  | .ignored => 0

/-- A payload for DNS comes from its port or goes there. -/
def Classified.OnPort (port : UInt16) : Classified → Prop
  | .udp d => d.sourcePort = port ∨ d.destinationPort = port
  | .tcp s => s.sourcePort = port ∨ s.destinationPort = port
  | .fragment _ | .ignored => True

/-- What a packet is, where its payload stands, what that is in from the outside to the inside,
    and how many tunnels were entered. -/
structure Found (input : Octets) where
  verdict : Verdict
  place : Option (Stretch input)
  envelopes : List Envelope
  tunnels : Nat

/-- A verdict without a payload. -/
def Found.bare {input : Octets} (verdict : Verdict) : Found input := ⟨verdict, none, [], 0⟩

/-! ## The steps, checked -/

/-- Where the data of a UDP datagram ends: as its length field says if that has room for the
    header, and not behind the octets that there are. -/
def dataStop (field length : Nat) : Nat := if 8 ≤ field then min field length else length

/-- Where the content of a frame starts that has tags from `offset` on, and its ethertype. -/
def tagsEnd (frame : Octets) (etherType offset : Nat) : Except PacketError (Nat × Nat) :=
  if isTag etherType then
    if offset + 4 ≤ frame.length then tagsEnd frame (frame.nat16At (offset + 2)) (offset + 4)
    else .error (.truncated .vlan)
  else .ok (etherType, offset)
termination_by frame.length - offset

section Locate

variable {input : Octets}

/-- Goes on with what is read. -/
def reading {α : Type} (read : Except PacketError α) (next : α → Option (Found input)) :
    Option (Found input) :=
  match read with
  | .error cause => some (.bare (.error cause))
  | .ok a => next a

variable (ports : Ports) (time : Option Timestamp)
  (tunnel : List Envelope → Stretch input → Option (Found input)) (around : List Envelope)

/-- `ofTransport` with checked indices. -/
def locateTransport (header : IpHeader) (payload : Stretch input) : Option (Found input) :=
  if header.protocol = udpProtocol then
    reading (ofUdp payload.octets) fun udp => do
      let data ← payload.part? 8 (dataStop (payload.octets.nat16At 4) payload.length)
      let around := around ++ [.udp payload.start]
      if udp.sourcePort = ports.dns ∨ udp.destinationPort = ports.dns then
        some ⟨.ok (.udp ⟨header, udp.sourcePort, udp.destinationPort, data.octets, time⟩),
          some data, around, 0⟩
      else if udp.destinationPort = ports.vxlan then tunnel around data
      else some (.bare (.ok .ignored))
  else if header.protocol = tcpProtocol then
    reading (ofTcp payload.octets) fun tcp =>
      if tcp.sourcePort = ports.dns ∨ tcp.destinationPort = ports.dns then do
        let data ← payload.part? (payload.octets.at0 12 / 16 * 4) payload.length
        some ⟨.ok (.tcp ⟨header, tcp.sourcePort, tcp.destinationPort, tcp.sequence, tcp.syn,
          tcp.fin, tcp.rst, data.octets, time⟩), some data, around, 0⟩
      else some (.bare (.ok .ignored))
  else some (.bare (.ok .ignored))

/-- `classifyIPv4` with checked indices. -/
def locateIPv4 (data : Stretch input) : Option (Found input) :=
  reading (ofIPv4 data.octets) fun packet => do
    let header := data.octets.at0 0 % 16 * 4
    let payload ← data.part? header (max (min (data.octets.nat16At 2) data.length) header)
    let around := around ++ [.ipv4 data.start]
    if !packet.keepWhole && (packet.more || packet.offset ≠ 0) then
      some ⟨.ok (.fragment ⟨packet.header, UInt32.ofNat packet.id, packet.offset, packet.more,
        payload.octets, time⟩), some payload, around, 0⟩
    else locateTransport ports time tunnel around packet.header payload

/-- `classifyIPv6` with checked indices. -/
def locateIPv6 (data : Stretch input) : Option (Found input) :=
  reading (ofIPv6 data.octets) fun packet => do
    let body ← data.part? 40 (min (40 + data.octets.nat16At 4) data.length)
    reading (extensionChain packet.next body.octets) fun chain => do
      let header : IpHeader := ⟨.v6, packet.source, packet.destination, chain.next⟩
      let payload ← body.part? chain.length body.length
      let around := around ++ [.ipv6 data.start]
      match chain.fragment with
      | some fields =>
        some ⟨.ok (.fragment ⟨header, fields.id, fields.offset, fields.more, payload.octets, time⟩),
          some payload, around, 0⟩
      | none => locateTransport ports time tunnel around header payload

/-- `classifyEtherType` with checked indices. -/
def locateEtherType (etherType : Nat) (data : Stretch input) : Option (Found input) :=
  if etherType = 0x0800 then locateIPv4 ports time tunnel around data
  else if etherType = 0x86DD then locateIPv6 ports time tunnel around data
  else some (.bare (.ok .ignored))

/-- `classifyEthernet` with checked indices. -/
def locateEthernet (frame : Stretch input) : Option (Found input) :=
  if frame.length < 14 then
    some (.bare (.error (.malformed .ethernet (.tooShort .ethernet 14 frame.length))))
  else
    reading (tagsEnd frame.octets (frame.octets.nat16At 12) 14) fun (etherType, offset) => do
      let content ← frame.part? offset frame.length
      locateEtherType ports time tunnel around etherType content

/-- `classifyRawIp` with checked indices. -/
def locateRawIp (data : Stretch input) : Option (Found input) :=
  match data.octets[0]? with
  | none => some (.bare (.error (.truncated .ip)))
  | some first =>
    let version := first.toNat / 16
    if version = 4 then locateIPv4 ports time tunnel around data
    else if version = 6 then locateIPv6 ports time tunnel around data
    else some (.bare (.error (.malformed .ip (.unknownVersion version))))

/-- The frames of Linux cooked captures with checked indices. -/
def locateLinuxCooked (frame : Stretch input) : Option (Found input) :=
  if frame.length < 16 then some (.bare (.error (.truncated .linuxCooked)))
  else do
    let high ← frame.octets[14]?
    let low ← frame.octets[15]?
    let content ← frame.part? 16 frame.length
    locateEtherType ports time tunnel around (high.toNat * 256 + low.toNat) content

end Locate

section Locate

variable {input : Octets} (ports : Ports) (time : Option Timestamp)

/-- `openTunnel` with checked indices. -/
def locateTunnel : Nat → List Envelope → Stretch input → Option (Found input)
  | 0, _, _ => some (.bare (.error .tooDeep))
  | depth + 1, around, data =>
    if data.length < 8 then some (.bare (.error (.truncated .vxlan)))
    else do
      let flags ← data.octets[0]?
      if !flags.toNat.testBit 3 then
        some (.bare (.error (.malformed .vxlan .noNetworkIdentifier)))
      else
        let frame ← data.part? 8 data.length
        let found ← locateEthernet ports time (locateTunnel depth) around frame
        some { found with tunnels := found.tunnels + 1 }

end Locate

/-- `classify` with checked indices. -/
def locate (link : LinkType) (ports : Ports) (frame : Frame) : Option (Found frame.octets) :=
  let tunnel := locateTunnel ports frame.time maxTunnels
  match link with
  | .ethernet => locateEthernet ports frame.time tunnel [] (.all frame.octets)
  | .rawIp => locateRawIp ports frame.time tunnel [] (.all frame.octets)
  | .linuxCooked => locateLinuxCooked ports frame.time tunnel [] (.all frame.octets)

/-- `classifyDatagram` with checked indices. -/
def locateDatagram (ports : Ports) (datagram : Datagram) : Option (Found datagram.payload) :=
  let tunnel := locateTunnel ports datagram.time maxTunnels
  let payload := Stretch.all datagram.payload
  match datagram.header.version with
  | .v4 => locateTransport ports datagram.time tunnel [] datagram.header payload
  | .v6 =>
    reading (extensionChain datagram.header.protocol payload.octets) fun chain =>
      match chain.fragment with
      | some _ => some (.bare (.error (.malformed .ipv6 .nestedFragment)))
      | none => do
        let rest ← payload.part? chain.length payload.length
        locateTransport ports datagram.time tunnel []
          { datagram.header with protocol := chain.next } rest

/-! ## The parts of packets -/

section Parts

variable {input : Octets} {around : List Envelope} {s : Stretch input}

theorem ipv4_part {packet : IPv4Packet} (h : ofIPv4 s.octets = .ok packet)
    (hwithin : Within around s) :
    ∃ payload, s.part? (s.octets.at0 0 % 16 * 4)
        (max (min (s.octets.nat16At 2) s.length) (s.octets.at0 0 % 16 * 4)) = some payload ∧
      payload.octets = packet.payload ∧ Within (around ++ [.ipv4 s.start]) payload := by
  obtain ⟨hfixed, -, -, hwhole, -, hpayload⟩ := ofIPv4_inv h
  rw [Stretch.length_octets] at hfixed hwhole
  have hhigh : max (min (s.octets.nat16At 2) s.length) (s.octets.at0 0 % 16 * 4) ≤ s.length := by
    omega
  have htotal : s.octets.nat16At 2 = input.nat16At (s.start + 2) := s.nat16At_octets (by omega)
  refine ⟨_, s.part?_eq (Nat.le_max_right ..) hhigh, ?_, ?_⟩
  · rw [hpayload, List.drop_take]
    apply s.octets_part
    omega
  · apply (hwithin.part _ _).append
    apply Envelope.holds_part rfl
    intro stop hstop
    cases hstop
    -- nothing is left if the packet ends in its header
    omega

theorem ipv6_part {packet : IPv6Packet} (h : ofIPv6 s.octets = .ok packet)
    (hwithin : Within around s) :
    ∃ body, s.part? 40 (min (40 + s.octets.nat16At 4) s.length) = some body ∧
      body.octets = packet.body ∧ Within (around ++ [.ipv6 s.start]) body := by
  obtain ⟨hfixed, -, -, hbody⟩ := ofIPv6_inv h
  rw [Stretch.length_octets] at hfixed
  have hlow : 40 ≤ min (40 + s.octets.nat16At 4) s.length := by
    omega
  have hfield : s.octets.nat16At 4 = input.nat16At (s.start + 4) := s.nat16At_octets (by omega)
  refine ⟨_, s.part?_eq hlow (Nat.min_le_right ..), ?_, ?_⟩
  · rw [hbody]
    apply s.octets_part
    omega
  · apply (hwithin.part _ _).append
    apply Envelope.holds_part rfl
    intro stop hstop
    cases hstop
    omega

theorem udp_part {packet : UdpPacket} (h : ofUdp s.octets = .ok packet)
    (hwithin : Within around s) :
    ∃ data, s.part? 8 (dataStop (s.octets.nat16At 4) s.length) = some data ∧
      data.octets = packet.payload ∧ Within (around ++ [.udp s.start]) data := by
  obtain ⟨hfixed, hpayload⟩ := ofUdp_inv h
  rw [Stretch.length_octets] at hfixed
  have hfield : s.octets.nat16At 4 = input.nat16At (s.start + 4) := s.nat16At_octets (by omega)
  by_cases hroom : 8 ≤ s.octets.nat16At 4
  · have hstop : dataStop (s.octets.nat16At 4) s.length = min (s.octets.nat16At 4) s.length :=
      if_pos hroom
    rw [hstop]
    refine ⟨_, s.part?_eq (by omega) (Nat.min_le_right ..), ?_, ?_⟩
    · rw [hpayload, if_pos hroom, List.drop_take]
      apply s.octets_part
      omega
    · apply (hwithin.part _ _).append
      apply Envelope.holds_part rfl
      intro stop hdeclared
      rw [Envelope.stop?, ← hfield, if_pos hroom] at hdeclared
      cases hdeclared
      omega
  · have hstop : dataStop (s.octets.nat16At 4) s.length = s.length := if_neg hroom
    rw [hstop]
    refine ⟨_, s.part?_eq hfixed (Nat.le_refl _), ?_, ?_⟩
    · rw [hpayload, if_neg hroom]
      exact s.octets_rest hfixed
    · -- what has no room for the header bounds nothing
      apply (hwithin.part _ _).append
      apply Envelope.holds_part rfl
      intro stop hdeclared
      rw [Envelope.stop?, ← hfield, if_neg hroom] at hdeclared
      cases hdeclared

/-- What stands behind a header. -/
theorem rest_part {low : Nat} (h : low ≤ s.length) (hwithin : Within around s) :
    ∃ rest, s.part? low s.length = some rest ∧ rest.octets = s.octets.drop low ∧
      Within around rest :=
  ⟨_, s.part?_eq h (Nat.le_refl _), s.octets_rest h, hwithin.part _ _⟩

theorem tcp_part {packet : TcpPacket} (h : ofTcp s.octets = .ok packet)
    (hwithin : Within around s) :
    ∃ data, s.part? (s.octets.at0 12 / 16 * 4) s.length = some data ∧
      data.octets = packet.payload ∧ Within around data := by
  obtain ⟨-, -, hwhole, hpayload⟩ := ofTcp_inv h
  rw [Stretch.length_octets] at hwhole
  rw [hpayload]
  exact rest_part hwhole hwithin

end Parts

/-! ## Each step finds what it should -/

/-- What is found agrees with a verdict for a DNS port: at most `depth` tunnels were entered, a
    payload stands where it was found, and is in everything around it. There is one less of
    that than `base`, which counts what was around before, and two for each tunnel, a packet
    and a datagram, and the layers of the packet itself. -/
structure Found.Sound {input : Octets} (found : Found input) (port : UInt16) (verdict : Verdict)
    (depth base : Nat) : Prop where
  agrees : found.verdict = verdict
  tunnels_le : found.tunnels ≤ depth
  onPort : ∀ classified, verdict = .ok classified → classified.OnPort port
  placed : ∀ classified payload, verdict = .ok classified → classified.content? = some payload →
    ∃ place, found.place = some place ∧ place.octets = payload ∧ Within found.envelopes place ∧
      found.envelopes.length + 1 = base + 2 * found.tunnels + classified.layers

/-- No index was out of range, and what was found agrees with the verdict. -/
def Finds {input : Octets} (outcome : Option (Found input)) (port : UInt16) (verdict : Verdict)
    (depth base : Nat) : Prop :=
  ∃ found, outcome = some found ∧ found.Sound port verdict depth base

section Finds

variable {input : Octets} {port : UInt16} {depth base : Nat}

theorem finds_error (cause : PacketError) :
    Finds (some (.bare (.error cause)) : Option (Found input)) port (.error cause) depth base :=
  ⟨_, rfl, rfl, Nat.zero_le _, nofun, nofun⟩

theorem finds_ignored :
    Finds (some (.bare (.ok .ignored)) : Option (Found input)) port (.ok .ignored) depth base := by
  refine ⟨_, rfl, rfl, Nat.zero_le _, ?_, ?_⟩
  · intro other h
    cases h
    trivial
  · intro other octets h hoctets
    cases h
    cases hoctets

/-- A payload that stands within all that was gone into is found there. -/
theorem finds_placed {classified : Classified} {place : Stretch input}
    {envelopes : List Envelope} (hport : classified.OnPort port)
    (hpayload : classified.content? = some place.octets)
    (hwithin : Within envelopes place) (hcount : envelopes.length + 1 = base + classified.layers) :
    Finds (some ⟨.ok classified, some place, envelopes, 0⟩) port (.ok classified) depth base := by
  refine ⟨_, rfl, rfl, Nat.zero_le _, ?_, ?_⟩
  · intro other h
    cases h
    exact hport
  · intro other octets h hoctets
    cases h
    rw [hpayload] at hoctets
    cases hoctets
    exact ⟨place, rfl, rfl, hwithin, hcount⟩

theorem finds_reading {α : Type} {read : Except PacketError α} {next : α → Option (Found input)}
    {follow : α → Verdict} (h : ∀ a, read = .ok a → Finds (next a) port (follow a) depth base) :
    Finds (reading read next) port (read >>= follow) depth base := by
  cases read with
  | error cause => exact finds_error cause
  | ok a => exact h a rfl

theorem finds_ite {condition : Prop} [Decidable condition] {yes no : Option (Found input)}
    {yesVerdict noVerdict : Verdict}
    (hyes : condition → Finds yes port yesVerdict depth base)
    (hno : ¬condition → Finds no port noVerdict depth base) :
    Finds (if condition then yes else no) port (if condition then yesVerdict else noVerdict)
      depth base := by
  by_cases h : condition
  · rw [if_pos h, if_pos h]
    exact hyes h
  · rw [if_neg h, if_neg h]
    exact hno h

/-- An index was in range. -/
theorem finds_some {α : Type} {checked : Option α} {a : α} {next : α → Option (Found input)}
    {verdict : Verdict} (hsome : checked = some a) (h : Finds (next a) port verdict depth base) :
    Finds (checked >>= next) port verdict depth base := by
  rw [hsome]
  exact h

end Finds

section Steps

variable {input : Octets} {ports : Ports} (time : Option Timestamp)
  {tunnel : List Envelope → Stretch input → Option (Found input)} {inner : Octets → Verdict}
  {around : List Envelope} {depth : Nat}

/-- A tunnel finds what is in it, whatever is around it. -/
def TunnelFinds (tunnel : List Envelope → Stretch input → Option (Found input))
    (inner : Octets → Verdict) (port : UInt16) (depth : Nat) : Prop :=
  ∀ around data base, Within around data → around.length = base + 1 →
    Finds (tunnel around data) port (inner data.octets) depth base

theorem transport_finds (htunnel : TunnelFinds tunnel inner ports.dns depth)
    {payload : Stretch input} (hwithin : Within around payload) (header : IpHeader) :
    Finds (locateTransport ports time tunnel around header payload) ports.dns
      (ofTransport ports time inner header payload.octets) depth around.length := by
  rw [locateTransport, ofTransport]
  apply finds_ite
  · intro _
    apply finds_reading
    intro udp hudp
    obtain ⟨data, hpart, hoctets, hdata⟩ := udp_part hudp hwithin
    -- the packet is in `around` already, the datagram comes to it
    have hcount : (around ++ [Envelope.udp payload.start]).length = around.length + 1 :=
      List.length_append
    rw [← hoctets]
    apply finds_some hpart
    apply finds_ite
    · intro hport
      exact finds_placed hport rfl hdata (congrArg (· + 1) hcount)
    · intro _
      apply finds_ite
      · intro _
        exact htunnel _ data _ hdata hcount
      · intro _
        exact finds_ignored
  · intro _
    apply finds_ite
    · intro _
      apply finds_reading
      intro tcp htcp
      obtain ⟨data, hpart, hoctets, hdata⟩ := tcp_part htcp hwithin
      rw [← hoctets]
      apply finds_ite
      · intro hport
        apply finds_some hpart
        exact finds_placed hport rfl hdata rfl
      · intro _
        exact finds_ignored
    · intro _
      exact finds_ignored

theorem ipv4_finds (htunnel : TunnelFinds tunnel inner ports.dns depth) {data : Stretch input}
    (hwithin : Within around data) :
    Finds (locateIPv4 ports time tunnel around data) ports.dns
      (classifyIPv4 ports time inner data.octets) depth (around.length + 1) := by
  rw [locateIPv4, classifyIPv4]
  apply finds_reading
  intro packet hpacket
  obtain ⟨payload, hpart, hoctets, hpayload⟩ := ipv4_part hpacket hwithin
  have hcount : (around ++ [Envelope.ipv4 data.start]).length = around.length + 1 :=
    List.length_append
  rw [← hoctets, ← hcount]
  apply finds_some hpart
  apply finds_ite
  · intro _
    exact finds_placed trivial rfl hpayload rfl
  · intro _
    exact transport_finds time htunnel hpayload packet.header

theorem ipv6_finds (htunnel : TunnelFinds tunnel inner ports.dns depth) {data : Stretch input}
    (hwithin : Within around data) :
    Finds (locateIPv6 ports time tunnel around data) ports.dns
      (classifyIPv6 ports time inner data.octets) depth (around.length + 1) := by
  rw [locateIPv6, classifyIPv6]
  apply finds_reading
  intro packet hpacket
  obtain ⟨body, hpart, hbody, hwithin'⟩ := ipv6_part hpacket hwithin
  rw [← hbody]
  apply finds_some hpart
  apply finds_reading
  intro chain hchain
  -- a walk never passes the end of the body
  have hlength : chain.length ≤ body.length := by
    rw [← body.length_octets]
    exact length_le_of_walk hchain
  obtain ⟨payload, hrest, hoctets, hpayload⟩ := rest_part hlength hwithin'
  have hcount : (around ++ [Envelope.ipv6 data.start]).length = around.length + 1 :=
    List.length_append
  rw [← hoctets, ← hcount]
  apply finds_some hrest
  cases hfragment : chain.fragment with
  | some fields => exact finds_placed trivial rfl hpayload rfl
  | none => exact transport_finds time htunnel hpayload _

theorem etherType_finds (htunnel : TunnelFinds tunnel inner ports.dns depth)
    {data : Stretch input} (hwithin : Within around data) (etherType : Nat) :
    Finds (locateEtherType ports time tunnel around etherType data) ports.dns
      (classifyEtherType ports time inner etherType data.octets) depth (around.length + 1) :=
  finds_ite (fun _ => ipv4_finds time htunnel hwithin) fun _ =>
    finds_ite (fun _ => ipv6_finds time htunnel hwithin) fun _ => finds_ignored

theorem untag_short {etherType : Nat} (htag : isTag etherType = true) {data : Octets}
    (h : data.length < 4) : untag etherType data = .error (.truncated .vlan) := by
  rw [untag.eq_def]
  rcases data with _ | ⟨a, _ | ⟨b, _ | ⟨hi, _ | ⟨lo, rest⟩⟩⟩⟩
  · exact if_pos htag
  · exact if_pos htag
  · exact if_pos htag
  · exact if_pos htag
  · simp only [List.length_cons] at h
    omega

/-- Tags are taken off up to an index, which is in range. -/
theorem untag_drop (etherType : Nat) (frame : Octets) {offset : Nat} (h : offset ≤ frame.length) :
    untag etherType (frame.drop offset) =
        (tagsEnd frame etherType offset).map (fun p => (p.1, frame.drop p.2)) ∧
      ∀ p, tagsEnd frame etherType offset = .ok p → p.2 ≤ frame.length := by
  fun_induction tagsEnd frame etherType offset with
  | case1 etherType offset htag hroom ih =>
    have hcons : frame.drop offset = frame[offset] :: frame[offset + 1] :: frame[offset + 2] ::
        frame[offset + 3] :: frame.drop (offset + 4) := by
      rw [List.drop_eq_getElem_cons, List.drop_eq_getElem_cons, List.drop_eq_getElem_cons,
        List.drop_eq_getElem_cons]
    -- the last two octets of a tag are the next ethertype
    rw [hcons, untag, if_pos htag, ← nat16At_eq_getElem (by omega)]
    exact ih hroom
  | case2 etherType offset htag hroom =>
    have hshort : (frame.drop offset).length < 4 := by
      rw [List.length_drop]
      omega
    refine ⟨untag_short htag hshort, fun p hp => ?_⟩
    cases hp
  | case3 etherType offset htag =>
    refine ⟨?_, fun p hp => ?_⟩
    · exact untag_of_not_tag (Bool.eq_false_of_not_eq_true htag) _
    · cases hp
      exact h

theorem ethernet_finds (htunnel : TunnelFinds tunnel inner ports.dns depth)
    {frame : Stretch input} (hwithin : Within around frame) :
    Finds (locateEthernet ports time tunnel around frame) ports.dns
      (classifyEthernet ports time inner frame.octets) depth (around.length + 1) := by
  rw [classifyEthernet, ofEthernet, locateEthernet, Stretch.length_octets]
  by_cases hshort : frame.length < 14
  · rw [if_pos hshort, if_pos hshort]
    exact finds_error _
  · rw [if_neg hshort, if_neg hshort]
    have hlow : 14 ≤ frame.octets.length := by
      rw [Stretch.length_octets]
      omega
    obtain ⟨huntag, hend⟩ := untag_drop (frame.octets.nat16At 12) frame.octets hlow
    rw [huntag]
    cases htags : tagsEnd frame.octets (frame.octets.nat16At 12) 14 with
    | error cause => exact finds_error cause
    | ok p =>
      have hoffset : p.2 ≤ frame.length := by
        rw [← frame.length_octets]
        exact hend p htags
      obtain ⟨content, hpart, hoctets, hcontent⟩ := rest_part hoffset hwithin
      refine finds_some hpart ?_
      show Finds _ _ (classifyEtherType ports time inner p.1 (frame.octets.drop p.2)) _ _
      rw [← hoctets]
      exact etherType_finds time htunnel hcontent p.1

theorem rawIp_finds (htunnel : TunnelFinds tunnel inner ports.dns depth)
    {data : Stretch input} (hwithin : Within around data) :
    Finds (locateRawIp ports time tunnel around data) ports.dns
      (classifyRawIp ports time inner data.octets) depth (around.length + 1) := by
  rw [locateRawIp]
  cases hdata : data.octets with
  | nil => exact finds_error _
  | cons first rest =>
    have hipv4 := ipv4_finds time htunnel hwithin
    have hipv6 := ipv6_finds time htunnel hwithin
    rw [hdata] at hipv4 hipv6
    exact finds_ite (fun _ => hipv4) fun _ => finds_ite (fun _ => hipv6) fun _ => finds_error _

theorem linuxCooked_finds (htunnel : TunnelFinds tunnel inner ports.dns depth)
    {frame : Stretch input} (hwithin : Within around frame) :
    Finds (locateLinuxCooked ports time tunnel around frame) ports.dns
      (do let (etherType, data) ← ofLinuxCooked frame.octets
          classifyEtherType ports time inner etherType data) depth (around.length + 1) := by
  rw [ofLinuxCooked, locateLinuxCooked, Stretch.length_octets]
  by_cases hshort : frame.length < 16
  · rw [if_pos hshort, if_pos hshort]
    exact finds_error _
  · rw [if_neg hshort, if_neg hshort]
    have hlast : 15 < frame.octets.length := by
      rw [Stretch.length_octets]
      omega
    obtain ⟨content, hpart, hoctets, hcontent⟩ := rest_part (Nat.not_lt.mp hshort) hwithin
    refine finds_some (List.getElem?_eq_getElem (Nat.lt_of_succ_lt hlast)) ?_
    refine finds_some (List.getElem?_eq_getElem hlast) (finds_some hpart ?_)
    rw [← hoctets, nat16At_eq_getElem hlast]
    exact etherType_finds time htunnel hcontent _

end Steps

/-- One tunnel more was entered on the way. -/
theorem Finds.enter {input : Octets} {outcome : Option (Found input)} {port : UInt16}
    {verdict : Verdict} {depth base : Nat} (h : Finds outcome port verdict depth (base + 2)) :
    Finds (outcome >>= fun found => some { found with tunnels := found.tunnels + 1 }) port verdict
      (depth + 1) base := by
  obtain ⟨found, hfound, hsound⟩ := h
  refine finds_some hfound ⟨_, rfl, hsound.agrees, Nat.succ_le_succ hsound.tunnels_le,
    hsound.onPort, ?_⟩
  intro classified payload hok hpayload
  obtain ⟨place, hplace, hoctets, hwithin, hcount⟩ := hsound.placed classified payload hok hpayload
  refine ⟨place, hplace, hoctets, hwithin, ?_⟩
  show found.envelopes.length + 1 = base + 2 * (found.tunnels + 1) + classified.layers
  omega

theorem tunnel_finds (input : Octets) (ports : Ports) (time : Option Timestamp) (depth : Nat) :
    @TunnelFinds input (locateTunnel ports time depth) (openTunnel ports time depth) ports.dns
      depth := by
  -- by the tunnels that may still be entered
  induction depth with
  | zero =>
    intro around data base _ _
    exact finds_error _
  | succ depth ih =>
    intro around data base hwithin hbase
    rw [locateTunnel, openTunnel, Stretch.length_octets]
    apply finds_ite
    · intro _
      exact finds_error _
    · intro hroom
      have hfirst : 0 < data.octets.length := by
        rw [Stretch.length_octets]
        omega
      obtain ⟨frame, hpart, hoctets, hframe⟩ := rest_part (Nat.not_lt.mp hroom) hwithin
      rw [at0_eq_getElem hfirst, ← hoctets]
      apply finds_some (List.getElem?_eq_getElem hfirst)
      apply finds_ite
      · intro _
        exact finds_error _
      · intro _
        -- what is around the tunnel is around the frame in it
        have hfinds := ethernet_finds time ih hframe
        rw [hbase] at hfinds
        exact finds_some hpart hfinds.enter

theorem locate_finds (link : LinkType) (ports : Ports) (frame : Frame) :
    Finds (locate link ports frame) ports.dns (classify link ports frame) maxTunnels 1 := by
  have htunnel := tunnel_finds frame.octets ports frame.time maxTunnels
  have hwithin := within_nil (Stretch.all frame.octets)
  have hoctets := Stretch.octets_all frame.octets
  cases link with
  | ethernet =>
    have hfinds := ethernet_finds frame.time htunnel hwithin
    rwa [hoctets] at hfinds
  | rawIp =>
    have hfinds := rawIp_finds frame.time htunnel hwithin
    rwa [hoctets] at hfinds
  | linuxCooked =>
    have hfinds := linuxCooked_finds frame.time htunnel hwithin
    rwa [hoctets] at hfinds

/-- The packet is not around any more that the fragments were in. -/
theorem locateDatagram_finds (ports : Ports) (datagram : Datagram) :
    Finds (locateDatagram ports datagram) ports.dns (classifyDatagram ports datagram) maxTunnels
      0 := by
  have htunnel := tunnel_finds datagram.payload ports datagram.time maxTunnels
  have hwithin := within_nil (Stretch.all datagram.payload)
  have hoctets := Stretch.octets_all datagram.payload
  rw [locateDatagram, classifyDatagram]
  dsimp only
  cases datagram.header.version with
  | v4 =>
    have hfinds := transport_finds datagram.time htunnel hwithin datagram.header
    rwa [hoctets] at hfinds
  | v6 =>
    dsimp only
    rw [hoctets]
    refine finds_reading fun chain hchain => ?_
    cases hfragment : chain.fragment with
    | some fields => exact finds_error _
    | none =>
      have hlength : chain.length ≤ (Stretch.all datagram.payload).length := by
        rw [← Stretch.length_octets, hoctets]
        exact length_le_of_walk hchain
      obtain ⟨rest, hpart, hrest, hwithin'⟩ := rest_part hlength hwithin
      rw [hoctets] at hrest
      refine finds_some hpart ?_
      dsimp only
      rw [← hrest]
      exact transport_finds datagram.time htunnel hwithin' _

/-- For every frame of every link type, and every datagram put together from fragments, no index
    is out of range and at most four tunnels are entered. A payload for DNS is of its port. Any
    payload stands in one piece in what was captured, and within the declared length of every
    packet and datagram around it: of two for each tunnel, of the packet itself, and of its
    datagram if it is in one. A datagram put together has no packet around it any more. -/
theorem payload_within_declared (ports : Ports) :
    (∀ link frame, ∃ found, locate link ports frame = some found ∧
      found.verdict = classify link ports frame ∧ found.tunnels ≤ 4 ∧
      ∀ classified, classify link ports frame = .ok classified → classified.OnPort ports.dns ∧
        ∀ payload, classified.content? = some payload → ∃ place, found.place = some place ∧
          place.octets = payload ∧ Within found.envelopes place ∧
          found.envelopes.length = 2 * found.tunnels + classified.layers) ∧
    ∀ datagram, ∃ found, locateDatagram ports datagram = some found ∧
      found.verdict = classifyDatagram ports datagram ∧ found.tunnels ≤ 4 ∧
      ∀ classified, classifyDatagram ports datagram = .ok classified →
        classified.OnPort ports.dns ∧
        ∀ payload, classified.content? = some payload → ∃ place, found.place = some place ∧
          place.octets = payload ∧ Within found.envelopes place ∧
          found.envelopes.length + 1 = 2 * found.tunnels + classified.layers := by
  refine ⟨fun link frame => ?_, fun datagram => ?_⟩
  · obtain ⟨found, hfound, hsound⟩ := locate_finds link ports frame
    refine ⟨found, hfound, hsound.agrees, hsound.tunnels_le, fun classified hok => ?_⟩
    refine ⟨hsound.onPort classified hok, fun payload hpayload => ?_⟩
    obtain ⟨place, hplace, hoctets, hwithin, hcount⟩ :=
      hsound.placed classified payload hok hpayload
    exact ⟨place, hplace, hoctets, hwithin, by omega⟩
  · obtain ⟨found, hfound, hsound⟩ := locateDatagram_finds ports datagram
    refine ⟨found, hfound, hsound.agrees, hsound.tunnels_le, fun classified hok => ?_⟩
    refine ⟨hsound.onPort classified hok, fun payload hpayload => ?_⟩
    obtain ⟨place, hplace, hoctets, hwithin, hcount⟩ :=
      hsound.placed classified payload hok hpayload
    exact ⟨place, hplace, hoctets, hwithin, by omega⟩

/-- A query of two octets through a tunnel. Around it are the outer packet and its datagram, and
    the inner ones, which end in front of the padding. -/
example :
    (locate .rawIp ⟨53, 4789⟩ ⟨
      [0x45, 0, 0, 81, 0, 7, 0, 0, 64, 17, 0, 0, 10, 0, 0, 1, 10, 0, 0, 2] ++
      [0x9C, 0x40, 0x12, 0xB5, 0, 61, 0, 0] ++ [8, 0, 0, 0, 0, 0, 1, 0] ++
      [2, 0, 0, 0, 0, 1, 2, 0, 0, 0, 0, 2, 8, 0] ++
      [0x45, 0, 0, 30, 0, 7, 0, 0, 64, 17, 0, 0, 10, 0, 0, 3, 10, 0, 0, 4] ++
      [0x9C, 0x40, 0, 53, 0, 10, 0, 0] ++ [6, 7] ++ [0, 0, 0], none⟩).map (fun found =>
        (found.place.map fun place => (place.start, place.stop), found.envelopes, found.tunnels)) =
      some (some (78, 80), [.ipv4 0, .udp 20, .ipv4 50, .udp 70], 1) := by
  cbv

end PassiveDns.Packet
