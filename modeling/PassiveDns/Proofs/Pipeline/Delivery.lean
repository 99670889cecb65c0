/-
  PassiveDns.Proofs.Pipeline.Delivery

  Every sink gets one observation for each DNS message of the traffic, in whatever order
  reader, stations, hand-out and sinks act.
-/
import Mathlib.Data.List.ProdSigma
import PassiveDns.Proofs.Packet.Layout
import PassiveDns.Proofs.Pipeline.Progress
import PassiveDns.Proofs.Pipeline.SingleLane
import PassiveDns.Proofs.Pipeline.Traffic

namespace PassiveDns.Pipeline

open PassiveDns.Stream (Transmission messagesFor)

section Results

variable {plan : Plan} {frames : List Frame} {given : List Observation} {crew : Crew plan}
  {sets : List (FragmentKey × List Fragment)} {transmissions : List Transmission}

/-! ## What comes to the parser and to the hand-out -/

/-- The places where flows can belong. -/
def places (shards : Nat) : List (Nat × IpVersion) :=
  List.range shards ×ˢ [.v4, .v6]

theorem flatMap_places {α : Type} (shards : Nat) (f : Nat × IpVersion → List α) :
    (places shards).flatMap f =
      (List.range shards).flatMap fun index => f (index, .v4) ++ f (index, .v6) := by
  show ((List.range shards).flatMap fun index => [(index, IpVersion.v4), (index, .v6)]).flatMap f
      = _
  rw [List.flatMap_assoc]
  simp

/-- Each transmission belongs to one version in one shard. -/
theorem perm_places {shards : Nat} (hshards : 0 < shards) (transmissions : List Transmission) :
    transmissions.Perm ((places shards).flatMap fun place =>
      transmissions.filter fun t => t.flow.place shards = place) := by
  have hversion (version : IpVersion) : version ∈ [IpVersion.v4, .v6] := by
    cases version <;> simp
  refine perm_flatMap_filter _ (List.nodup_range.product (by decide)) fun t _ => ?_
  have hlt := Stream.shardOf_lt t.flow.opening hshards
  exact List.mem_product.mpr ⟨List.mem_range.mpr hlt, hversion _⟩

namespace Crew

/-- The shards have sent the messages of all transmissions. -/
theorem Done.sent_shards (done : crew.Done frames given)
    (traffic : Traffic plan frames sets transmissions)
    (short : ∀ t ∈ transmissions, t.Short plan.settings.maxBufferedSegments)
    (hshards : 0 < plan.settings.tcpShards) :
    ∃ carriedBy : Transmission → List Carried, (∀ t ∈ transmissions, t.Gives (carriedBy t)) ∧
      ((List.range plan.settings.tcpShards).flatMap fun index =>
        (crew.shard index).sent plan).Perm
          ((transmissions.flatMap carriedBy).map Parcel.message) := by
  have hshard : ∀ index, index < plan.settings.tcpShards → _ := fun index hindex =>
    done.sent_shard traffic short hindex
  choose! messages hsent hmessages using hshard
  refine ⟨fun t => messagesFor t.flow (messages (t.flow.place plan.settings.tcpShards).1
    (t.flow.place plan.settings.tcpShards).2), fun t ht => ?_, ?_⟩
  · have hlt := Stream.shardOf_lt t.flow.opening hshards
    exact (hmessages _ hlt _).2 t ht rfl
  · -- the transmissions are counted place by place
    refine List.Perm.trans ?_ (((perm_places hshards transmissions).symm.flatMap_right _).map _)
    rw [flatMap_places, List.flatMap_assoc, List.map_flatMap]
    refine List.Perm.flatMap_left _ fun index hindex => ?_
    have hlt := List.mem_range.mp hindex
    rw [List.flatMap_append]
    -- what a place gives is what its transmissions give
    have hgives (version : IpVersion) : (messages index version).Perm
        ((transmissions.filter fun t =>
          t.flow.place plan.settings.tcpShards = (index, version)).flatMap fun t =>
            messagesFor t.flow (messages (t.flow.place plan.settings.tcpShards).1
              (t.flow.place plan.settings.tcpShards).2)) := by
      refine (hmessages index hlt version).1.trans (List.Perm.of_eq ?_)
      refine List.flatMap_congr fun t ht => ?_
      rw [of_decide_eq_true (List.mem_filter.mp ht).2]
    exact (hsent index hlt).trans (((hgives .v4).append (hgives .v6)).map _)

/-- What the hand-out was given. -/
theorem Done.results (done : crew.Done frames given)
    (traffic : Traffic plan frames sets transmissions)
    (short : ∀ t ∈ transmissions, t.Short plan.settings.maxBufferedSegments)
    (hshards : 0 < plan.settings.tcpShards) :
    ∃ carriedBy : Transmission → List Carried, (∀ t ∈ transmissions, t.Gives (carriedBy t)) ∧
      given.Perm ((plan.payloadsIn frames ++ plan.payloadsOf sets).filterMap (resultOf plan .udp) ++
        (transmissions.flatMap carriedBy).filterMap (resultOf plan .tcp)) := by
  obtain ⟨carriedBy, hgives, hmessages⟩ := done.sent_shards traffic short hshards
  refine ⟨carriedBy, hgives, ?_⟩
  have hforgets : crew.parser.origin.Forgets plan := by
    rw [done.begins.parser]
    exact Role.parser_forgets
  -- the parser has observed every message of the shards
  have hparser : (crew.parser.sent plan).Perm
      (((transmissions.flatMap carriedBy).filterMap (resultOf plan .tcp)).map Parcel.result) := by
    rw [hforgets.sent (done.ended crew.parser (by simp [all])), done.begins.parser]
    refine ((done.passes.messages.symm.trans hmessages).flatMap_right _).trans (List.Perm.of_eq ?_)
    rw [List.flatMap_map, List.filterMap_eq_flatMap_toList (resultOf plan .tcp), List.map_flatMap]
    exact List.flatMap_congr fun message _ => Role.sendsOf_observe plan .tcp message
  -- and the decoders every payload of a frame or a datagram
  have hsecond := perm_ofChannel .results (done.sent_second traffic)
  rw [Plan.ofChannel_results] at hsecond
  have hdecoders := perm_ofChannel .results done.sent_decoders
  rw [Plan.ofChannel_results] at hdecoders
  have hresults := done.passes.results
  rw [ofChannel_append] at hresults
  have hinjective : Function.Injective Parcel.result := fun _ _ => Parcel.result.inj
  refine (List.map_perm_map_iff hinjective).mp (hresults.symm.trans ?_)
  refine (hparser.append (hsecond.append hdecoders)).trans ?_
  rw [List.filterMap_append, List.map_append, List.map_append]
  exact List.perm_append_comm.trans (List.perm_append_comm.append_right _)

end Crew

/-! ## What the sinks have at the end -/

/-- The observations of payloads that travelled over UDP and of messages that travelled over
    TCP; what is no DNS message gives none. -/
def Plan.observations (plan : Plan) (payloads messages : List Carried) : List Observation :=
  payloads.filterMap (resultOf plan .udp) ++ messages.filterMap (resultOf plan .tcp)

/-- Whether octets are a DNS message. -/
def isMessage (octets : Octets) : Bool := (Dns.Message.ofOctets octets).toOption.isSome

theorem isSome_resultOf (plan : Plan) (transport : Transport) (carried : Carried) :
    (resultOf plan transport carried).isSome = isMessage carried.payload := by
  unfold resultOf Observer.observe isMessage
  cases Dns.Message.ofOctets carried.payload <;> rfl

/-- There are as many observations as DNS messages. -/
theorem Plan.length_observations (plan : Plan) (payloads messages : List Carried) :
    (plan.observations payloads messages).length =
      ((payloads ++ messages).map Carried.payload).countP isMessage := by
  unfold observations
  rw [List.length_append, List.length_filterMap_eq_countP, List.length_filterMap_eq_countP,
    List.map_append, List.countP_append, List.countP_map, List.countP_map]
  simp only [isSome_resultOf]
  rfl

/-- The registered sinks have one observation for each DNS message of the traffic: each
    payload of a frame, each payload of a whole datagram, and each message of a stream. -/
structure Delivers (plan : Plan) (frames : List Frame) (sets : List (FragmentKey × List Fragment))
    (transmissions : List Transmission) (sinks : List Sink) (network : Network) : Prop where
  sinks : network.fanOut.sinks = sinks.filter Sink.usable
  live : ∀ outlet ∈ network.fanOut.outlets, outlet.live = true
  taken : ∃ carriedBy : Transmission → List Carried,
    (∀ t ∈ transmissions, t.Gives (carriedBy t)) ∧
      ∀ outlet ∈ network.fanOut.outlets, outlet.taken.toList.Perm
        (plan.observations (plan.payloadsIn frames ++ plan.payloadsOf sets)
          (transmissions.flatMap carriedBy))

/-- Once a run has ended the sinks have what its traffic carried. -/
theorem Ledger.Keeps.delivers {ledger : Ledger} {network : Network}
    (h : ledger.Keeps plan frames network) (hvalid : plan.settings.validate = .ok ())
    (traffic : Traffic plan frames sets transmissions)
    (short : ∀ t ∈ transmissions, t.Short plan.settings.maxBufferedSegments)
    (hfinished : network.isFinished = true)
    {sinks : List Sink} (hsinks : network.fanOut.sinks = sinks.filter Sink.usable) :
    Delivers plan frames sets transmissions sinks network := by
  have hshards := shards_pos hvalid
  obtain ⟨crew, done⟩ := (h.settled hvalid hfinished).exists_crew hshards
  obtain ⟨carriedBy, hgives, hgiven⟩ := done.results traffic short hshards
  have hended : network.fanOut.isFinished = true := by
    unfold Network.isFinished at hfinished
    exact (Bool.and_eq_true_iff.mp hfinished).2
  have htaken := h.serves.taken_of_finished hended
  refine ⟨hsinks, fun outlet houtlet => (htaken outlet houtlet).1, carriedBy, hgives,
    fun outlet houtlet => ?_⟩
  rw [(htaken outlet houtlet).2]
  exact hgiven

/-- Somebody can act until all have ended. -/
theorem exists_step_of_reaches {sinks : List Sink} {arrivals : List Arrival} {now : Instant}
    {network : Network} (hvalid : plan.settings.validate = .ok ())
    (hreaches : (Network.ofFrames plan sinks arrivals now).Reaches network) :
    network.isFinished = true ∨ ∃ after, network.Step after := by
  obtain ⟨log, hlogged⟩ := hreaches.exists_log
  have hsized := sized_of_validate hvalid
  have hwired := ((wired_ofFrames hsized sinks arrivals now).logged hsized hlogged).1
  by_cases hfinished : network.isFinished = true
  · exact .inl hfinished
  · exact .inr (hwired.exists_step hsized hfinished)

/-- A run that nothing disturbs can come to its end. -/
theorem exists_finished {sinks : List Sink} (arrivals : List Arrival) (now : Instant)
    (hvalid : plan.settings.validate = .ok ())
    (hratio : plan.settings.ratio.isPassthrough = true) (hdedup : plan.settings.dedup = false)
    (hlasting : ∀ sink ∈ sinks, ∀ n, sink.reply n ≠ .broken) :
    ∃ network, (Network.ofFrames plan sinks arrivals now).Reaches network ∧
      network.isFinished = true := by
  have hstart := keeps_ofFrames hvalid hratio hdedup hlasting arrivals now
  obtain ⟨run, hrun, hacts⟩ := exists_run (Network.ofFrames plan sinks arrivals now)
  obtain ⟨time, hfinished⟩ := eventually_finished hvalid hstart hrun fun time =>
    (exists_step_of_reaches hvalid (hrun.reaches time)).imp_right fun hstep =>
      ⟨time, Nat.le_refl _, hacts time hstep⟩
  exact ⟨run time, hrun.reaches time, hfinished⟩

/-- A run over traffic that nothing disturbs, with settings that take every packet, and sinks
    that do not break; where so many segments may be held that a stream could reach around half
    of the circle of sequence numbers, none does. In whatever order all take their turns,
    somebody can act until all have ended; if somebody acts again and again the end comes; and
    then every sink has exactly one observation for each DNS message of the traffic. -/
theorem delivered_once {sinks : List Sink} {arrivals : List Arrival} (now : Instant)
    (hvalid : plan.settings.validate = .ok ())
    (hratio : plan.settings.ratio.isPassthrough = true) (hdedup : plan.settings.dedup = false)
    (hlasting : ∀ sink ∈ sinks, ∀ n, sink.reply n ≠ .broken)
    (traffic : Traffic plan (arrivals.map Arrival.frame) sets transmissions)
    (short : ∀ t ∈ transmissions, t.Short plan.settings.maxBufferedSegments) :
    (∀ network, (Network.ofFrames plan sinks arrivals now).Reaches network →
      network.isFinished = true ∨ ∃ after, network.Step after) ∧
    (∀ run, Running (Network.ofFrames plan sinks arrivals now) run →
      (∀ time, (run time).isFinished = true ∨
        ∃ later, time ≤ later ∧ (run later).Step (run (later + 1))) →
      ∃ time, (run time).isFinished = true) ∧
    ∀ network, (Network.ofFrames plan sinks arrivals now).Reaches network →
      network.isFinished = true →
      Delivers plan (arrivals.map Arrival.frame) sets transmissions sinks network := by
  have hstart := keeps_ofFrames hvalid hratio hdedup hlasting arrivals now
  refine ⟨fun network hreaches => exists_step_of_reaches hvalid hreaches,
    fun run hrun hacts => eventually_finished hvalid hstart hrun hacts,
    fun network hreaches hfinished => ?_⟩
  obtain ⟨ledger, hkeeps⟩ := exists_ledger hvalid hstart hreaches
  refine hkeeps.delivers hvalid traffic short hfinished ?_
  rw [sinks_of_reaches hvalid hstart hreaches]
  exact Sink.FanOut.sinks_ofSinks plan.settings.sinkQueue sinks

end Results

/-! ### A message over UDP, one in fragments, and one over TCP -/

namespace Mixed

/-- A version 4 packet of a stub resolver to a server. `position` has the flags and the offset
    of a fragment. -/
def packet (id position : UInt16) (protocol : UInt8) (payload : Octets) : Arrival :=
  ⟨⟨[0x45, 0] ++ Octets.ofWord16 (20 + UInt16.ofNat payload.length) ++ Octets.ofWord16 id ++
    Octets.ofWord16 position ++ [64, protocol, 0, 0, 10, 0, 0, 1, 10, 0, 0, 53] ++ payload,
    some default⟩, 0⟩

/-- The ports of both. -/
def ports : Octets := Octets.ofWord16 40000 ++ Octets.ofWord16 53

/-- A DNS message without questions. -/
def message : Octets := [0, 1, 1, 0, 0, 0, 0, 0, 0, 0, 0, 0]

/-- The message in a UDP datagram. -/
def datagram : Octets := ports ++ [0, 20, 0, 0] ++ message

/-- The message in a TCP stream. -/
def stream : Octets := [0, 12] ++ message

/-- A TCP segment. -/
def segment (sequence : UInt32) (flags : UInt8) (payload : Octets) : Octets :=
  ports ++ Octets.ofWord32 sequence ++ [0, 0, 0, 0, 0x50, flags, 0, 0, 0, 0, 0, 0] ++ payload

/-- The end of the stream comes first, its SYN last; the fragments come the wrong way round; the
    first octets of the stream come twice. -/
def arrivals : List Arrival :=
  [packet 1 0 6 (segment 105 1 (stream.drop 4)), packet 7 2 17 (datagram.drop 16),
    packet 2 0 17 datagram, packet 3 0 6 (segment 101 0 (stream.take 8)), ⟨⟨[0x45], none⟩, 0⟩,
    packet 7 0x2000 17 (datagram.take 16), packet 4 0 6 (segment 101 0 (stream.take 8)),
    packet 5 0 6 (segment 100 2 [])]

/-- The settings: no queue has room for more than one parcel. -/
def narrow : Settings :=
  { noEthernet := true, tcpShards := 3, maxBufferedSegments := 3, packetQueue := 1, tcpQueue := 1,
    tcpReturnQueue := 1, defragQueue := 1, resultQueue := 1, sinkQueue := 1 }

/-- A run with these settings. -/
def narrowPlan : Plan := ⟨narrow, .ethernet, 0, default⟩

/-- A fragment of the datagram. -/
def fragment (offset : Nat) (more : Bool) (payload : Octets) : Fragment :=
  ⟨⟨.v4, .v4 0x0a000001, .v4 0x0a000035, 17⟩, 7, offset, more, payload, some default⟩

/-- The fragments, in order. -/
def fragments : List Fragment :=
  [fragment 0 true (datagram.take 16), fragment 2 false (datagram.drop 16)]

/-- A part of the stream. -/
def part (offset : Nat) (sequence : UInt32) (syn fin : Bool) (payload : Octets) : Stream.Part :=
  ⟨offset, { Stream.querySegment sequence syn fin payload with time := some default }⟩

/-- The stream in its parts. -/
def transmission : Transmission :=
  ⟨Stream.query, stream, 100,
    [part 4 105 false true (stream.drop 4), part 0 101 false false (stream.take 8),
      part 0 101 false false (stream.take 8), part 0 100 true false []]⟩

/-- A sink that writes all. -/
def sink : Sink := ⟨"sink", true, fun _ => .written⟩

/-- The fragments under the key of their datagram. -/
def sets : List (FragmentKey × List Fragment) :=
  [(⟨.v4 0x0a000001, .v4 0x0a000035, 17, 7⟩, fragments)]

theorem traffic : Traffic narrowPlan (arrivals.map Arrival.frame) sets [transmission] where
  fragments := by decide
  keys := by decide
  whole := by
    intro set hset
    obtain rfl := List.mem_singleton.mp hset
    exact ⟨.before rfl rfl (by decide) (.last rfl rfl), by decide, by decide, by decide⟩
  payload := by
    intro set hset datagram hdatagram
    obtain rfl := List.mem_singleton.mp hset
    rw [← Option.some.inj hdatagram]
    exact ⟨_, rfl⟩
  segments := by decide
  flows := by decide
  complete := by
    intro t ht
    obtain rfl := List.mem_singleton.mp ht
    exact ⟨by decide, by decide, by decide, by decide, by decide, by decide⟩

theorem short : ∀ t ∈ [transmission], t.Short narrowPlan.settings.maxBufferedSegments := by
  intro t _ hlarge
  exact absurd hlarge (by decide)

theorem valid : narrowPlan.settings.validate = .ok () := by decide

/-- There is a run that ends, and then the sink has three observations. -/
theorem delivered_once_mixed :
    ∃ network, (Network.ofFrames narrowPlan [sink] arrivals 0).Reaches network ∧
      network.isFinished = true ∧ network.fanOut.sinks = [sink] ∧
      ∀ outlet ∈ network.fanOut.outlets, outlet.taken.toList.length = 3 := by
  have hlasting : ∀ other ∈ [sink], ∀ n, other.reply n ≠ .broken := by simp [sink]
  obtain ⟨network, hreaches, hfinished⟩ := exists_finished arrivals 0 valid rfl rfl hlasting
  have hdelivered := (delivered_once 0 valid rfl rfl hlasting traffic short).2.2 network hreaches
    hfinished
  obtain ⟨carriedBy, hgives, htaken⟩ := hdelivered.taken
  refine ⟨network, hreaches, hfinished, hdelivered.sinks, fun outlet houtlet => ?_⟩
  -- one message over TCP
  have hpayloads : (carriedBy transmission).map Carried.payload = [message] := by
    rw [(hgives transmission (List.mem_singleton_self _)).payloads]
    decide +kernel
  -- one in a frame of its own, one in fragments
  have hothers : (narrowPlan.payloadsIn (arrivals.map Arrival.frame) ++
      narrowPlan.payloadsOf sets).map Carried.payload = [message, message] := by
    decide
  rw [(htaken outlet houtlet).length_eq, Plan.length_observations, List.map_append, hothers,
    List.flatMap_singleton, hpayloads]
  decide +kernel

end Mixed

/-! ### A stream that reaches around half of the circle -/

namespace Overlong

open PassiveDns.Stream (halfCircle messagesOf query querySegment)

/-- A DNS message, and behind it empty messages, in so many octets. -/
def stream (length : Nat) : Octets := Mixed.stream ++ List.replicate (length - 14) 0

/-- The SYN. -/
def syn : TcpSegment := querySegment 100 true false []

/-- The end, in a segment of its own. -/
def fin (length : Nat) : TcpSegment :=
  querySegment (100 + 1 + UInt32.ofNat length) false true []

/-- As many octets of the stream as a packet holds, from an offset on. -/
def slice (length offset : Nat) : TcpSegment :=
  querySegment (100 + 1 + UInt32.ofNat offset) false false ((stream length).slice offset 65495)

/-- The stream in slices of which each fills a packet. -/
def slices (length : Nat) : List Stream.Part :=
  (List.range (length / 65495 + 1)).map fun index =>
    ⟨index * 65495, slice length (index * 65495)⟩

/-- The SYN, the end, and then the slices. -/
def transmission (length : Nat) : Transmission :=
  ⟨query, stream length, 100, ⟨0, syn⟩ :: ⟨length, fin length⟩ :: slices length⟩

/-- The fields of the Internet headers. -/
def internet : Packet.IPv4Fields := ⟨0, false, 64, 0, [], rfl, by decide⟩

/-- The fields of the TCP headers. -/
def transport : Packet.TcpFields := ⟨0, 0#4, 2#5, 0, 0, 0, [], rfl, by decide⟩

/-- The packet in which a segment of the resolver is sent. -/
def packet (segment : TcpSegment) : Octets :=
  internet.packet ⟨0x0a000001, 0x0a000035, Packet.tcpProtocol⟩ 0 true false 0
    (transport.segment ⟨segment.sourcePort, segment.destinationPort, segment.sequence,
      segment.syn, segment.fin, segment.rst, segment.payload⟩)

/-- The frames of a transmission, in its order. -/
def arrivals (transmission : Transmission) : List Arrival :=
  transmission.segments.map fun segment => ⟨⟨packet segment, segment.time⟩, 0⟩

/-- One decoder, one shard, and room for many segments that come before a SYN. -/
def plan : Plan where
  settings := { noEthernet := true, decoderWorkers := 1, tcpShards := 1,
                maxBufferedSegments := 40000 }
  link := .ethernet
  dropped := 0
  clock := default

/-! #### What is in the frames -/

/-- A segment that fits a packet is found in its frame. -/
theorem classified_packet {sequence : UInt32} {syn fin : Bool} {payload : Octets}
    (hfits : payload.length ≤ 65495) :
    plan.classified? ⟨packet (querySegment sequence syn fin payload), none⟩ =
      some (.tcp (querySegment sequence syn fin payload)) := by
  have hframed : Packet.Framed .v4 (packet (querySegment sequence syn fin payload)) .rawIp _ :=
    .rawIp
  have hlength : internet.length + (transport.length + payload.length) < 65536 := by
    show 20 + (20 + payload.length) < 65536
    omega
  have hdns : (53 : UInt16) = plan.ports.dns := rfl
  exact congrArg Except.toOption (Packet.classify_segment hframed rfl (.inr hdns) hlength none)

variable {length : Nat}

theorem forall_slices {P : TcpSegment → Prop} (h : ∀ offset, P (slice length offset)) :
    ∀ segment ∈ (slices length).map Stream.Part.segment, P segment := by
  intro segment hsegment
  unfold slices at hsegment
  rw [List.map_map] at hsegment
  obtain ⟨index, _, rfl⟩ := List.mem_map.mp hsegment
  exact h (index * 65495)

theorem forall_segments {P : TcpSegment → Prop} (hsyn : P syn) (hfin : P (fin length))
    (h : ∀ offset, P (slice length offset)) :
    ∀ segment ∈ (transmission length).segments, P segment :=
  List.forall_mem_cons.mpr ⟨hsyn, List.forall_mem_cons.mpr ⟨hfin, forall_slices h⟩⟩

theorem classified_segments : ∀ segment ∈ (transmission length).segments,
    plan.classified? ⟨packet segment, segment.time⟩ = some (.tcp segment) :=
  forall_segments (classified_packet (Nat.zero_le _)) (classified_packet (Nat.zero_le _))
    fun _ => classified_packet (List.length_take_le ..)

/-- What the frames are. -/
theorem classified_arrivals :
    ((arrivals (transmission length)).map Arrival.frame).filterMap plan.classified? =
      (transmission length).segments.map Packet.Classified.tcp := by
  unfold arrivals
  rw [List.map_map, List.filterMap_map, ← List.filterMap_eq_map]
  exact List.filterMap_congr classified_segments

theorem segmentsIn_arrivals :
    plan.segmentsIn ((arrivals (transmission length)).map Arrival.frame) =
      (transmission length).segments := by
  unfold Plan.segmentsIn
  rw [classified_arrivals, List.filterMap_map]
  exact List.filterMap_some

theorem fragmentsIn_arrivals :
    plan.fragmentsIn ((arrivals (transmission length)).map Arrival.frame) = [] := by
  unfold Plan.fragmentsIn
  rw [classified_arrivals, List.filterMap_map]
  exact List.filterMap_eq_nil_iff.mpr fun _ _ => rfl

/-- What the decoder makes of them. -/
theorem decoded_arrivals :
    plan.decoded ((arrivals (transmission length)).map Arrival.frame) =
      (transmission length).segments.map (Parcel.segment 0) := by
  unfold Plan.decoded arrivals
  rw [List.map_map, List.flatMap_map, List.map_eq_flatMap]
  refine List.flatMap_congr fun segment hsegment => ?_
  show sendsOf (Role.decode plan ⟨packet segment, segment.time⟩) = _
  rw [Role.sendsOf_decode, classified_segments segment hsegment]
  rfl

/-! #### The transmission is complete -/

theorem length_stream (hlength : 14 ≤ length) : (stream length).length = length := by
  have hmessage : Mixed.stream.length = 14 := rfl
  rw [stream, List.length_append, List.length_replicate, hmessage]
  omega

/-- A slice has what is left of the stream, and no more than fits a packet. -/
theorem length_slice (hlength : 14 ≤ length) (offset : Nat) :
    (slice length offset).payload.length = min 65495 (length - offset) := by
  show (((stream length).drop offset).take 65495).length = _
  rw [List.length_take, List.length_drop, length_stream hlength]

theorem isOf (hlength : 14 ≤ length) :
    ∀ part ∈ (transmission length).parts, part.IsOf (stream length) 100 := by
  have hstop : Stream.Part.stop ⟨length, fin length⟩ = (stream length).length :=
    (length_stream hlength).symm
  refine List.forall_mem_cons.mpr ⟨?_, List.forall_mem_cons.mpr ⟨?_, fun part hpart => ?_⟩⟩
  · -- the SYN
    exact ⟨rfl, rfl, fun _ => rfl, Nat.zero_le _, (Octets.slice_zero ..).symm, nofun⟩
  · -- the end
    exact ⟨rfl, rfl, nofun, Nat.le_of_eq hstop, (Octets.slice_zero ..).symm, fun _ => hstop⟩
  · -- a slice
    obtain ⟨index, hindex, rfl⟩ := List.mem_map.mp hpart
    have hle : index * 65495 ≤ length := by
      have hlt := List.mem_range.mp hindex
      omega
    have hrest := Nat.min_le_right 65495 (length - index * 65495)
    rw [← length_slice hlength] at hrest
    refine ⟨rfl, rfl, nofun, ?_, (Octets.slice_length_slice ..).symm, nofun⟩
    rw [length_stream hlength]
    exact Nat.add_le_of_le_sub' hle hrest

/-- No more segments than these have to be held for a SYN. -/
theorem counts_le : ((transmission length).segments.filter Stream.Part.counts).length ≤
    length / 65495 + 2 := by
  have hsyn : Stream.Part.counts syn = false := rfl
  show ((syn :: (_ :: slices length).map Stream.Part.segment).filter _).length ≤ _
  rw [List.filter_cons, hsyn, if_neg Bool.false_ne_true]
  refine Nat.le_trans (List.length_filter_le ..) (Nat.le_of_eq ?_)
  rw [List.length_map, List.length_cons, slices, List.length_map, List.length_range]

theorem complete (hlength : 14 ≤ length) (hfew : length / 65495 + 2 ≤ 40000) :
    (transmission length).Complete 40000 where
  parts := isOf hlength
  flow := forall_segments rfl rfl fun _ => rfl
  oneSyn := by
    have hslices : ((slices length).map Stream.Part.segment).filter TcpSegment.syn = [] :=
      List.filter_eq_nil_iff.mpr (forall_slices fun _ => Bool.false_ne_true)
    show ((syn :: fin length :: _).filter TcpSegment.syn).length = 1
    rw [List.filter_cons_of_pos rfl, List.filter_cons_of_neg Bool.false_ne_true, hslices]
    rfl
  fin := ⟨fin length, List.mem_cons_of_mem _ (List.mem_cons_self ..), rfl⟩
  covers := by
    intro position hposition
    have hlt : position < (stream length).length := hposition
    rw [length_stream hlength] at hlt
    -- the slice in which the position lies
    refine ⟨⟨position / 65495 * 65495, slice length (position / 65495 * 65495)⟩, ?_, ?_, ?_⟩
    · refine List.mem_cons_of_mem _ (List.mem_cons_of_mem _ (List.mem_map.mpr ⟨position / 65495,
        List.mem_range.mpr ?_, rfl⟩))
      omega
    · show position / 65495 * 65495 ≤ position
      omega
    · show position < position / 65495 * 65495 +
        (slice length (position / 65495 * 65495)).payload.length
      rw [length_slice hlength]
      omega
  few := Nat.le_trans counts_le hfew

theorem traffic (hlength : 14 ≤ length) (hfew : length / 65495 + 2 ≤ 40000) :
    Traffic plan ((arrivals (transmission length)).map Arrival.frame) []
      [transmission length] where
  fragments := by rw [fragmentsIn_arrivals]; exact .nil
  keys := List.nodup_nil
  whole := fun _ h => absurd h List.not_mem_nil
  payload := fun _ h => absurd h List.not_mem_nil
  segments := by rw [segmentsIn_arrivals, List.flatMap_singleton]
  flows := List.nodup_singleton _
  complete := by
    intro t ht
    obtain rfl := List.mem_singleton.mp ht
    exact complete hlength hfew

/-! #### Nothing comes of it -/

/-- The first message of the stream is a DNS message. -/
theorem messagesOf_stream (length : Nat) :
    ∃ rest, messagesOf (stream length) = Mixed.message :: rest := by
  have hsplit : Stream.split Mixed.stream = ([Mixed.message], []) := by decide +kernel
  unfold messagesOf stream
  rw [Stream.split_append, hsplit]
  exact ⟨_, rfl⟩

theorem valid : plan.settings.validate = .ok () := by decide

theorem lasting : ∀ sink ∈ [Mixed.sink], ∀ n, sink.reply n ≠ .broken := by simp [Mixed.sink]

/-- The end seems to lie before the start of the stream, and all slices come too late. -/
theorem taken_nothing (hlong : halfCircle ≤ length) (hless : length < 4294967296)
    {network : Network}
    (hreaches : (Network.ofFrames plan [Mixed.sink] (arrivals (transmission length)) 0).Reaches
      network) (hfinished : network.isFinished = true) :
    ∀ outlet ∈ network.fanOut.outlets, outlet.taken.toList = [] := by
  have hround : length + (fin length).payload.length ≤ 4294967296 := Nat.le_of_lt hless
  have hsegments : ∀ s ∈ syn :: fin length :: (slices length).map Stream.Part.segment,
      Stream.Flow.ofSegment s = query ∧ s.header.version = .v4 ∧ s.rst = false :=
    forall_segments ⟨rfl, rfl, rfl⟩ ⟨rfl, rfl, rfl⟩ fun _ => ⟨rfl, rfl, rfl⟩
  have hothers : ∀ s ∈ fin length :: (slices length).map Stream.Part.segment, s.syn = false :=
    List.forall_mem_cons.mpr ⟨rfl, forall_slices fun _ => rfl⟩
  refine taken_of_silent valid ⟨rfl, rfl⟩ rfl rfl lasting ?_ ?_ hreaches hfinished
  · rw [decoded_arrivals]
    exact List.forall_mem_map.mpr fun _ _ => rfl
  · rw [decoded_arrivals]
    exact HasOnly.silent_of_far_end 40000 hsegments rfl rfl rfl hothers rfl rfl hlong hless hround

/-- What the traffic carries is not delivered. -/
theorem not_delivers (hlong : halfCircle ≤ length) (hless : length < 4294967296)
    {network : Network}
    (hreaches : (Network.ofFrames plan [Mixed.sink] (arrivals (transmission length)) 0).Reaches
      network) (hfinished : network.isFinished = true) :
    ¬Delivers plan ((arrivals (transmission length)).map Arrival.frame) [] [transmission length]
      [Mixed.sink] network := by
  intro hdelivers
  obtain ⟨carriedBy, hgives, htaken⟩ := hdelivers.taken
  -- there is a sink
  have hsinks : network.fanOut.outlets ≠ [] := by
    intro hnone
    have hsink := hdelivers.sinks
    unfold Sink.FanOut.sinks at hsink
    rw [hnone] at hsink
    cases hsink
  obtain ⟨outlet, houtlet⟩ := List.exists_mem_of_ne_nil _ hsinks
  -- which has nothing, although the stream has a message for it
  have hlength := (htaken outlet houtlet).length_eq
  rw [taken_nothing hlong hless hreaches hfinished outlet houtlet, Plan.length_observations,
    List.map_append, List.countP_append, List.flatMap_singleton,
    (hgives _ (List.mem_singleton_self _)).payloads] at hlength
  obtain ⟨rest, hrest⟩ := messagesOf_stream length
  have hmessage : isMessage Mixed.message = true := by decide
  rw [show messagesOf (transmission length).octets = _ from hrest,
    List.countP_cons_of_pos hmessage] at hlength
  simp at hlength

/-- Nothing restricts a stream of 2^31 + 100 octets where 40000 segments may be held. It comes
    completely, the run ends, and the sink has nothing. -/
theorem undelivered_past_half_circle : plan.settings.validate = .ok () ∧
    plan.settings.ratio.isPassthrough = true ∧ plan.settings.dedup = false ∧
    (∀ sink ∈ [Mixed.sink], ∀ n, sink.reply n ≠ .broken) ∧
    Traffic plan ((arrivals (transmission 2147483748)).map Arrival.frame) []
      [transmission 2147483748] ∧
    ∃ network, (Network.ofFrames plan [Mixed.sink]
        (arrivals (transmission 2147483748)) 0).Reaches network ∧
      network.isFinished = true ∧
      ¬Delivers plan ((arrivals (transmission 2147483748)).map Arrival.frame) []
        [transmission 2147483748] [Mixed.sink] network := by
  have hlong : halfCircle ≤ 2147483748 := by decide
  obtain ⟨network, hreaches, hfinished⟩ :=
    exists_finished (arrivals (transmission 2147483748)) 0 valid rfl rfl lasting
  exact ⟨valid, rfl, rfl, lasting, traffic (by decide) (by decide), network, hreaches, hfinished,
    not_delivers hlong (by decide) hreaches hfinished⟩

end Overlong

end PassiveDns.Pipeline
