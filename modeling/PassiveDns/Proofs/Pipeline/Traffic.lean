/-
  PassiveDns.Proofs.Pipeline.Traffic

  What captured frames contain: payloads, fragments of whole datagrams, and segments of
  complete transmissions, in any order. What each station of a settled run has sent for
  such traffic is the same in every run, up to the order.
-/
import PassiveDns.Proofs.Pipeline.Replay
import PassiveDns.Proofs.Verdict

namespace PassiveDns

/-! ## What is in a frame -/

namespace Packet.Classified

/-- The fragment that a packet is, if it is one. -/
def fragment? : Classified → Option Fragment
  | fragment f => some f
  | _ => none

/-- The payload that a packet carries over UDP. -/
def payload? : Classified → Option Carried
  | udp carried => some carried
  | _ => none

/-- The segment that a packet is. -/
def segment? : Classified → Option TcpSegment
  | tcp segment => some segment
  | _ => none

end Packet.Classified

/-! ## Where a flow goes -/

namespace Stream.Flow

/-- A segment that opens a flow. -/
def opening (flow : Flow) : TcpSegment where
  header := ⟨flow.source.version, flow.source, flow.destination, Packet.tcpProtocol⟩
  sourcePort := flow.sourcePort
  destinationPort := flow.destinationPort
  sequence := 0
  syn := true
  fin := false
  rst := false
  payload := []
  time := none

/-- The shard of a flow, and its version there. -/
def place (shards : Nat) (flow : Flow) : Nat × IpVersion :=
  (shardOf flow.opening shards, flow.source.version)

/-- All segments of a flow go to its place. -/
theorem place_ofSegment {segment : TcpSegment}
    (hprotocol : segment.header.protocol = Packet.tcpProtocol)
    (hversion : segment.header.version = segment.header.source.version) (shards : Nat) :
    (ofSegment segment).place shards = (shardOf segment shards, segment.header.version) := by
  unfold place shardOf
  rw [hversion, hprotocol]
  rfl

end Stream.Flow

namespace Pipeline

open PassiveDns.Packet (Classified)
open PassiveDns.Stream (Connections Flow Transmission messagesFor)

namespace Plan

/-- What a frame is, if it is not malformed. -/
def classified? (plan : Plan) (frame : Frame) : Option Classified :=
  (Packet.classify plan.frameLink plan.ports frame).toOption

/-- The fragments among frames. -/
def fragmentsIn (plan : Plan) (frames : List Frame) : List Fragment :=
  (frames.filterMap plan.classified?).filterMap Classified.fragment?

/-- The payloads that frames carry over UDP. -/
def payloadsIn (plan : Plan) (frames : List Frame) : List Carried :=
  (frames.filterMap plan.classified?).filterMap Classified.payload?

/-- The segments among frames. -/
def segmentsIn (plan : Plan) (frames : List Frame) : List TcpSegment :=
  (frames.filterMap plan.classified?).filterMap Classified.segment?

/-- The payload that a datagram carries over UDP. -/
def payloadOf (plan : Plan) (datagram : Datagram) : Option Carried :=
  (Packet.classifyDatagram plan.ports datagram).toOption.bind Classified.payload?

/-- The payloads of the datagrams that fragments make. -/
def payloadsOf (plan : Plan) (sets : List (FragmentKey × List Fragment)) : List Carried :=
  (sets.filterMap fun set => datagramOf set.2).filterMap plan.payloadOf

/-- The parcel in which a segment goes to its shard. -/
def toShard (plan : Plan) (segment : TcpSegment) : Parcel :=
  .segment (Stream.shardOf segment plan.settings.tcpShards) segment

variable {plan : Plan}

theorem mem_classified {frames : List Frame} {classified : Classified}
    (h : classified ∈ frames.filterMap plan.classified?) : classified.Sound := by
  obtain ⟨frame, _, heq⟩ := List.mem_filterMap.mp h
  refine Packet.sound_classify plan.frameLink plan.ports frame classified ?_
  unfold classified? at heq
  cases hverdict : Packet.classify plan.frameLink plan.ports frame with
  | error cause => rw [hverdict] at heq; cases heq
  | ok verdict =>
    rw [hverdict] at heq
    exact congrArg Except.ok (Option.some.inj heq)

theorem version_of_mem_fragmentsIn {frames : List Frame} {f : Fragment}
    (h : f ∈ plan.fragmentsIn frames) : f.header.version = f.header.source.version := by
  obtain ⟨classified, hmem, heq⟩ := List.mem_filterMap.mp h
  have hsound := mem_classified hmem
  cases classified with
  | fragment g => rwa [← Option.some.inj heq]
  | _ => cases heq

theorem sound_of_mem_segmentsIn {frames : List Frame} {s : TcpSegment}
    (h : s ∈ plan.segmentsIn frames) :
    s.header.version = s.header.source.version ∧ s.header.protocol = Packet.tcpProtocol ∧
      s.payload.length ≤ Packet.maxDatagram := by
  obtain ⟨classified, hmem, heq⟩ := List.mem_filterMap.mp h
  have hsound := mem_classified hmem
  cases classified with
  | tcp t => rwa [← Option.some.inj heq]
  | _ => cases heq

end Plan

/-! ## What decoders send -/

/-- What decoders send for fragments, segments and payloads. -/
def Plan.parcels (plan : Plan) (fragments : List Fragment) (segments : List TcpSegment)
    (payloads : List Carried) : List Parcel :=
  fragments.map Parcel.fragment ++
    (segments.map plan.toShard ++ (payloads.filterMap (resultOf plan .udp)).map Parcel.result)

namespace Role

theorem sendsOf_decode (plan : Plan) (frame : Frame) :
    sendsOf (decode plan frame) = (plan.classified? frame).toList.flatMap fun classified =>
      plan.parcels classified.fragment?.toList classified.segment?.toList
        classified.payload?.toList := by
  unfold decode Plan.classified?
  rcases Packet.classify plan.frameLink plan.ports frame with cause | f | carried | segment | _
  · rfl
  · rfl
  · show sendsOf [observe plan .udp carried] =
      ([carried].filterMap (resultOf plan .udp)).map Parcel.result ++ []
    rw [sendsOf_observe, List.append_nil, List.filterMap_cons]
    cases resultOf plan .udp carried <;> rfl
  · rfl
  · rfl

/-- What decoders send for frames, told by what is in them. -/
theorem perm_sendsOf_decode (plan : Plan) (frames : List Frame) :
    (frames.flatMap fun frame => sendsOf (decode plan frame)).Perm
      (plan.parcels (plan.fragmentsIn frames) (plan.segmentsIn frames)
        (plan.payloadsIn frames)) := by
  have heach : (frames.flatMap fun frame => sendsOf (decode plan frame)) =
      (frames.filterMap plan.classified?).flatMap fun classified =>
        plan.parcels classified.fragment?.toList classified.segment?.toList
          classified.payload?.toList := by
    rw [List.filterMap_eq_flatMap_toList, List.flatMap_assoc]
    exact List.flatMap_congr fun frame _ => sendsOf_decode plan frame
  rw [heach]
  unfold Plan.parcels Plan.fragmentsIn Plan.segmentsIn Plan.payloadsIn
  generalize frames.filterMap plan.classified? = packets
  rw [List.filterMap_eq_flatMap_toList Classified.fragment?,
    List.filterMap_eq_flatMap_toList Classified.segment?,
    List.filterMap_eq_flatMap_toList Classified.payload?, List.map_flatMap, List.map_flatMap,
    List.filterMap_flatMap, List.map_flatMap]
  -- the three kinds are taken apart, one after the other
  refine (List.flatMap_append_perm ..).symm.trans ?_
  exact (List.flatMap_append_perm ..).symm.append_left _

end Role

/-! ## What of it goes into each queue -/

theorem ofChannel_map {α : Type} (channel : Channel) (make : α → Parcel) (l : List α) :
    ofChannel channel (l.map make) = (l.filter fun a => (make a).channel = channel).map make :=
  List.filter_map ..

theorem ofChannel_map_nil {α : Type} {channel : Channel} {make : α → Parcel}
    (h : ∀ a, (make a).channel ≠ channel) (l : List α) : ofChannel channel (l.map make) = [] := by
  refine ofChannel_nil fun parcel hparcel => ?_
  obtain ⟨a, _, rfl⟩ := List.mem_map.mp hparcel
  exact h a

namespace Plan

variable (plan : Plan) (fragments : List Fragment) (segments : List TcpSegment)
  (payloads : List Carried)

theorem ofChannel_fragments (version : IpVersion) :
    ofChannel (.fragments version) (plan.parcels fragments segments payloads) =
      (fragments.filter fun f => f.header.version = version).map Parcel.fragment := by
  have hsegments : ofChannel (.fragments version) (segments.map plan.toShard) = [] :=
    ofChannel_map_nil (fun _ => by simp [toShard, Parcel.channel]) segments
  have hresults : ofChannel (.fragments version)
      ((payloads.filterMap (resultOf plan .udp)).map Parcel.result) = [] :=
    ofChannel_map_nil (fun _ => by simp [Parcel.channel]) _
  unfold parcels
  rw [ofChannel_append, ofChannel_append, hsegments, hresults, List.append_nil, List.append_nil,
    ofChannel_map]
  simp only [Parcel.channel, Channel.fragments.injEq]

theorem ofChannel_segments (index : Nat) :
    ofChannel (.segments index) (plan.parcels fragments segments payloads) =
      (segments.filter fun s => Stream.shardOf s plan.settings.tcpShards = index).map
        (Parcel.segment index) := by
  have hfragments : ofChannel (.segments index) (fragments.map Parcel.fragment) = [] :=
    ofChannel_map_nil (fun _ => by simp [Parcel.channel]) fragments
  have hresults : ofChannel (.segments index)
      ((payloads.filterMap (resultOf plan .udp)).map Parcel.result) = [] :=
    ofChannel_map_nil (fun _ => by simp [Parcel.channel]) _
  unfold parcels
  rw [ofChannel_append, ofChannel_append, hfragments, hresults, List.append_nil, List.nil_append,
    ofChannel_map]
  simp only [toShard, Parcel.channel, Channel.segments.injEq]
  refine List.map_congr_left fun s hs => ?_
  show Parcel.segment (Stream.shardOf s plan.settings.tcpShards) s = _
  rw [of_decide_eq_true (List.mem_filter.mp hs).2]

theorem ofChannel_results :
    ofChannel .results (plan.parcels fragments segments payloads) =
      (payloads.filterMap (resultOf plan .udp)).map Parcel.result := by
  have hfragments : ofChannel .results (fragments.map Parcel.fragment) = [] :=
    ofChannel_map_nil (fun _ => by simp [Parcel.channel]) fragments
  have hsegments : ofChannel .results (segments.map plan.toShard) = [] :=
    ofChannel_map_nil (fun _ => by simp [toShard, Parcel.channel]) segments
  unfold parcels
  rw [ofChannel_append, ofChannel_append, hfragments, hsegments, List.nil_append, List.nil_append]
  refine ofChannel_self fun parcel hparcel => ?_
  obtain ⟨observation, _, rfl⟩ := List.mem_map.mp hparcel
  rfl

end Plan

/-! ## Traffic of whole datagrams and complete transmissions -/

/-- Frames whose fragments make whole datagrams that carry payloads, and whose segments are
    those of complete transmissions. Whatever else is in the frames is a payload, or
    malformed, or nothing of interest. -/
structure Traffic (plan : Plan) (frames : List Frame) (sets : List (FragmentKey × List Fragment))
    (transmissions : List Transmission) : Prop where
  fragments : (plan.fragmentsIn frames).Perm (sets.flatMap Prod.snd)
  keys : (sets.map Prod.fst).Nodup
  whole : ∀ set ∈ sets, Whole (.ofVersion set.1.source.version) set.1 set.2
  payload : ∀ set ∈ sets, ∀ datagram, datagramOf set.2 = some datagram →
    ∃ carried, Packet.classifyDatagram plan.ports datagram = .ok (.udp carried)
  segments : (plan.segmentsIn frames).Perm (transmissions.flatMap Transmission.segments)
  flows : (transmissions.map Transmission.flow).Nodup
  complete : ∀ t ∈ transmissions, t.Complete plan.settings.maxBufferedSegments

variable {plan : Plan} {frames : List Frame} {given : List Observation} {crew : Crew plan}
  {sets : List (FragmentKey × List Fragment)} {transmissions : List Transmission}

theorem Role.answer_datagram {datagram : Datagram} {carried : Carried}
    (h : Packet.classifyDatagram plan.ports datagram = .ok (.udp carried)) :
    Role.secondDecoder.answer plan (.datagram datagram) =
      ((plan.payloadOf datagram).bind (resultOf plan .udp)).toList.map Parcel.result := by
  show sendsOf (decodeAgain plan datagram) = _
  unfold decodeAgain Plan.payloadOf
  rw [h]
  exact sendsOf_observe plan .udp carried

namespace Crew

/-! ## Decoders -/

/-- What the decoders have sent, taken together. -/
theorem Done.sent_decoders (done : crew.Done frames given) :
    (crew.decoders.flatMap (Track.sent plan)).Perm
      (plan.parcels (plan.fragmentsIn frames) (plan.segmentsIn frames)
        (plan.payloadsIn frames)) := by
  have hsent : crew.decoders.flatMap (Track.sent plan) =
      (crew.decoders.flatMap Track.taken).flatMap (Role.decoder.answer plan) := by
    rw [List.flatMap_assoc]
    refine List.flatMap_congr fun track htrack => ?_
    have horigin := done.begins.decoders track htrack
    -- a decoder answers each packet by itself
    have hforgets : track.origin.Forgets plan := by
      rw [horigin]
      exact Role.decoder_forgets
    rw [hforgets.sent (done.ended track (by simp [all, htrack])), horigin]
  rw [hsent]
  refine (done.passes.packets.symm.flatMap_right _).trans ?_
  rw [List.flatMap_map]
  exact Role.perm_sendsOf_decode plan frames

/-! ## Reassemblers and the second decoder -/

/-- A reassembler has sent the datagrams of its version. -/
theorem Done.sent_reassembler (done : crew.Done frames given)
    (traffic : Traffic plan frames sets transmissions) (version : IpVersion) :
    ((crew.reassembler version).sent plan).Perm
      (((sets.filter fun set => set.1.source.version = version).filterMap fun set =>
        datagramOf set.2).map Parcel.datagram) := by
  have htaken := (perm_ofChannel _ done.sent_decoders).symm.trans (done.passes.fragments version)
  rw [Plan.ofChannel_fragments] at htaken
  have hinjective : Function.Injective Parcel.fragment := fun _ _ => Parcel.fragment.inj
  obtain ⟨arrivals, hintake, harrivals⟩ := exists_arrivals hinjective htaken
  -- the fragments of a version are those of the sets of this version
  have hversion : ∀ set ∈ sets, ∀ f ∈ set.2,
      decide (f.header.version = version) = decide (set.1.source.version = version) := by
    intro set hset f hf
    have hmem := traffic.fragments.mem_iff.mpr (List.mem_flatMap_of_mem hset hf)
    rw [Plan.version_of_mem_fragmentsIn hmem, ← (traffic.whole set hset).keyed f hf]
    rfl
  have hfragments : (arrivals.map Prod.fst).Perm
      ((sets.filter fun set => set.1.source.version = version).flatMap Prod.snd) := by
    rw [← filter_flatMap_of_uniform hversion]
    exact harrivals.trans (traffic.fragments.filter _)
  have hwhole : ∀ set ∈ sets.filter fun set => set.1.source.version = version,
      Whole (.ofVersion version) set.1 set.2 := by
    intro set hset
    obtain ⟨hset, heq⟩ := List.mem_filter.mp hset
    rw [← of_decide_eq_true heq]
    exact traffic.whole set hset
  have hyields := Reassembly.yields_perm (traffic.keys.sublist (List.filter_sublist.map Prod.fst))
    hwhole hfragments
  have hfinished := done.ended (crew.reassembler version) (by cases version <;> simp [all])
  obtain ⟨hrole, hsends⟩ : _ ∧ _ :=
    Role.replay_reassembler plan version (.empty (.ofVersion version)) arrivals
  rw [Track.sent_of_finished hfinished, done.begins.reassembler version, hintake, hrole, hsends]
  show (_ ++ []).Perm _
  rw [List.append_nil]
  have hmapped := hyields.map Parcel.datagram
  rw [List.map_map] at hmapped
  exact hmapped

/-- The payloads that the datagrams of fragments carry over UDP. -/
theorem Done.sent_second (done : crew.Done frames given)
    (traffic : Traffic plan frames sets transmissions) :
    (crew.second.sent plan).Perm (plan.parcels [] [] (plan.payloadsOf sets)) := by
  -- the sets are those of version 4 and those of version 6
  have hsplit : (sets.filter (fun set => set.1.source.version = .v4) ++
      sets.filter fun set => set.1.source.version = .v6).Perm sets := by
    have hversions : sets.Perm ([IpVersion.v4, .v6].flatMap fun version =>
        sets.filter fun set => set.1.source.version = version) :=
      perm_flatMap_filter _ (by decide) fun set _ => by cases set.1.source.version <;> simp
    simpa using hversions.symm
  have htaken : crew.second.taken.Perm
      ((sets.filterMap fun set => datagramOf set.2).map Parcel.datagram) := by
    refine done.passes.datagrams.symm.trans ?_
    refine ((done.sent_reassembler traffic .v4).append (done.sent_reassembler traffic .v6)).trans ?_
    rw [← List.map_append, ← List.filterMap_append]
    exact (hsplit.filterMap _).map _
  have hforgets : crew.second.origin.Forgets plan := by
    rw [done.begins.second]
    exact Role.secondDecoder_forgets
  rw [hforgets.sent (done.ended crew.second (by simp [all])), done.begins.second]
  refine (htaken.flatMap_right _).trans (List.Perm.of_eq ?_)
  show _ = ((plan.payloadsOf sets).filterMap (resultOf plan .udp)).map Parcel.result
  unfold Plan.payloadsOf
  rw [List.flatMap_map, List.filterMap_filterMap,
    List.filterMap_eq_flatMap_toList fun datagram => (plan.payloadOf datagram).bind _,
    List.map_flatMap]
  -- every datagram carries a payload, so nothing else is sent
  refine List.flatMap_congr fun datagram hdatagram => ?_
  obtain ⟨set, hset, heq⟩ := List.mem_filterMap.mp hdatagram
  obtain ⟨carried, hcarried⟩ := traffic.payload set hset datagram heq
  exact Role.answer_datagram hcarried

/-! ## Shards -/

/-- A shard has sent the messages of the transmissions that belong to it. -/
theorem Done.sent_shard (done : crew.Done frames given)
    (traffic : Traffic plan frames sets transmissions)
    (short : ∀ t ∈ transmissions, t.Short plan.settings.maxBufferedSegments) {index : Nat}
    (hindex : index < plan.settings.tcpShards) :
    ∃ messages : IpVersion → List Carried,
      ((crew.shard index).sent plan).Perm ((messages .v4 ++ messages .v6).map Parcel.message) ∧
        ∀ version,
          (messages version).Perm ((transmissions.filter fun t =>
              t.flow.place plan.settings.tcpShards = (index, version)).flatMap fun t =>
            messagesFor t.flow (messages version)) ∧
          ∀ t ∈ transmissions, t.flow.place plan.settings.tcpShards = (index, version) →
            t.Gives (messagesFor t.flow (messages version)) := by
  have htaken := done.passes.segments index hindex
  have hsecond := perm_ofChannel (.segments index) (done.sent_second traffic)
  rw [Plan.ofChannel_segments] at hsecond
  have hdecoders := perm_ofChannel (.segments index) done.sent_decoders
  rw [Plan.ofChannel_segments] at hdecoders
  -- the second decoder sends no segments, so all are from the decoders
  rw [ofChannel_append, hsecond.eq_nil, List.nil_append] at htaken
  have hinjective : Function.Injective (Parcel.segment index) := fun _ _ heq =>
    (Parcel.segment.inj heq).2
  obtain ⟨arrivals, hintake, harrivals⟩ :=
    exists_arrivals hinjective (hdecoders.symm.trans htaken)
  -- the segments of a version in this shard are those of the transmissions that belong there
  have hplace (version : IpVersion) : ∀ t ∈ transmissions, ∀ s ∈ t.segments,
      (decide (s.header.version = version) &&
        decide (Stream.shardOf s plan.settings.tcpShards = index)) =
      decide (t.flow.place plan.settings.tcpShards = (index, version)) := by
    intro t ht s hs
    have hmem := traffic.segments.mem_iff.mpr (List.mem_flatMap_of_mem ht hs)
    obtain ⟨hversion, hprotocol, _⟩ := Plan.sound_of_mem_segmentsIn hmem
    rw [← (traffic.complete t ht).flow s hs, Flow.place_ofSegment hprotocol hversion]
    simp [Prod.mk.injEq, and_comm]
  have hsegments (version : IpVersion) : ((Role.ofVersion version arrivals).map Prod.fst).Perm
      ((transmissions.filter fun t =>
        t.flow.place plan.settings.tcpShards = (index, version)).flatMap
          Transmission.segments) := by
    rw [← filter_flatMap_of_uniform (hplace version), ← List.filter_filter]
    have hfiltered := harrivals.filter fun s => s.header.version = version
    rw [List.filter_map] at hfiltered
    exact hfiltered.trans ((traffic.segments.filter _).filter _)
  have hpayloads : ∀ t ∈ transmissions, ∀ s ∈ t.segments, s.payload.length ≤ 65535 := by
    intro t ht s hs
    have hmem := traffic.segments.mem_iff.mpr (List.mem_flatMap_of_mem ht hs)
    exact (Plan.sound_of_mem_segmentsIn hmem).2.2
  have hgives (version : IpVersion) := Stream.messages_of_transmissions
    (traffic.flows.sublist (List.filter_sublist.map Transmission.flow))
    (fun t ht => traffic.complete t (List.mem_of_mem_filter ht))
    (fun t ht => short t (List.mem_of_mem_filter ht))
    (fun t ht => hpayloads t (List.mem_of_mem_filter ht)) (hsegments version)
  refine ⟨fun version => (Connections.empty plan.settings.maxBufferedSegments).messages
    (Stream.inputsOf (Role.ofVersion version arrivals)), ?_, fun version => ⟨(hgives version).1,
      fun t ht hplace => (hgives version).2.1 t (List.mem_filter.mpr ⟨ht, decide_eq_true hplace⟩)⟩⟩
  have hfinished := done.ended (crew.shard index) (shard_mem hindex)
  obtain ⟨hrole, hsends⟩ : _ ∧ _ := Role.replay_shard plan index
    (.empty plan.settings.maxBufferedSegments) (.empty plan.settings.maxBufferedSegments) arrivals
  rw [Track.sent_of_finished hfinished, done.begins.shard index hindex, hintake, hrole,
    Role.sends_finish_of_closed (hgives .v4).2.2 (hgives .v6).2.2, List.append_nil]
  exact hsends

end Crew

end Pipeline

end PassiveDns
