/-
  PassiveDns.Pipeline.Station

  The stations between captured packets and finished observations, and what each
  of them does with what it receives:

    decoders         packets to fragments, segments and observations
    reassemblers     fragments to datagrams, one station for each version
    second decoder   datagrams to segments and observations
    shards           segments to messages
    parser           messages to observations

  A station answers every parcel with a list of errands, things to count and
  parcels to send on, and runs them before it receives the next.
-/
import PassiveDns.Metrics
import PassiveDns.Observation
import PassiveDns.Packet.Classify
import PassiveDns.Reassembly
import PassiveDns.Stream.Connections

namespace PassiveDns.Pipeline

open PassiveDns.Packet (Classified Ports)
open PassiveDns.Stream (Connections Outcome)

/-! ## What a run is set to -/

/-- What does not change during a run. `dropped` is the number of packets that
    the source lost, and `clock` the time of packets captured without one. -/
structure Plan where
  settings : Settings
  link : LinkType
  dropped : Nat
  clock : Timestamp
deriving Repr, Inhabited

namespace Plan

/-- What frames begin with. -/
def frameLink (plan : Plan) : LinkType :=
  if plan.settings.noEthernet then .rawIp else plan.link

/-- The ports that matter. -/
def ports (plan : Plan) : Ports :=
  ⟨UInt16.ofNat plan.settings.port, UInt16.ofNat plan.settings.vxlanPort⟩

/-- How payloads are observed. -/
def observer (plan : Plan) : Observer := .ofSettings plan.settings

/-- How often idle state is looked for, and how old it must be. -/
def gcInterval (plan : Plan) : Nat := plan.settings.gcIntervalSecs * 1000

/-- How long finishing may take. -/
def drainTimeout (plan : Plan) : Nat := plan.settings.drainTimeoutSecs * 1000

end Plan

/-! ## Queues and what travels through them -/

/-- The queues. -/
inductive Channel where
  | packets
  | fragments (version : IpVersion)
  | datagrams
  | segments (shard : Nat)
  | messages
  | results
deriving Repr, DecidableEq, Inhabited

/-- The number of parcels that a queue holds at most. -/
def Plan.capacity (plan : Plan) : Channel → Nat
  | .packets => plan.settings.packetQueue
  | .fragments _ => plan.settings.defragQueue
  | .datagrams => plan.settings.defragQueue
  | .segments _ => plan.settings.tcpQueue
  | .messages => plan.settings.tcpReturnQueue
  | .results => plan.settings.resultQueue

/-- What is sent from station to station. -/
inductive Parcel where
  | packet (frame : Frame)
  | fragment (fragment : Fragment)
  | datagram (datagram : Datagram)
  | segment (shard : Nat) (segment : TcpSegment)
  | message (message : Carried)
  | result (observation : Observation)
deriving Repr, DecidableEq, Inhabited

/-- The queue into which a parcel goes. -/
def Parcel.channel : Parcel → Channel
  | packet _ => .packets
  | fragment f => .fragments f.header.version
  | datagram _ => .datagrams
  | segment shard _ => .segments shard
  | message _ => .messages
  | result _ => .results

/-- What a station has to do before it receives again. -/
inductive Errand where
  | count (series : Series) (amount : Nat)
  | send (parcel : Parcel)
deriving Repr, DecidableEq, Inhabited

/-! ## What the stations know -/

/-- What a station does, with its state. -/
inductive Role where
  | decoder
  | reassembler (version : IpVersion) (state : Reassembly)
  | secondDecoder
  | shard (index : Nat) (v4 v6 : Connections)
  | parser
deriving Inhabited

namespace Role

/-- The queue from which a station receives. -/
def input : Role → Channel
  | decoder => .packets
  | reassembler version _ => .fragments version
  | secondDecoder => .datagrams
  | shard index _ _ => .segments index
  | parser => .messages

/-- The queues into which a station sends. -/
def feeds : Role → Channel → Bool
  | decoder, .fragments _ | decoder, .segments _ | decoder, .results => true
  | reassembler _ _, .datagrams => true
  | secondDecoder, .segments _ | secondDecoder, .results => true
  | shard _ _ _, .messages => true
  | parser, .results => true
  | _, _ => false

/-! ## Receiving -/

/-- Makes an observation of a payload and sends it on; what is no DNS message is
    counted instead. -/
def observe (plan : Plan) (transport : Transport) (carried : Carried) : Errand :=
  match plan.observer.observe plan.clock transport carried with
  | .ok observation => .send (.result observation)
  | .error _ => .count .parseErrors 1

/-- What is done with a payload or a segment on the DNS port. -/
def forward (plan : Plan) : Classified → List Errand
  | .udp datagram => [.count (.packets "udp") 1, observe plan .udp datagram]
  | .tcp segment =>
    [.count (.packets "tcp") 1,
      .send (.segment (Stream.shardOf segment plan.settings.tcpShards) segment)]
  | _ => []

/-- What a decoder does with a packet. -/
def decode (plan : Plan) (frame : Frame) : List Errand :=
  match Packet.classify plan.frameLink plan.ports frame with
  | .ok (.fragment fragment) => [.count (.packets "fragment") 1, .send (.fragment fragment)]
  | .ok .ignored => [.count (.packets "ignored") 1]
  | .ok classified => forward plan classified
  | .error _ => [.count (.decodeErrors "raw") 1]

/-- What the second decoder does with a datagram. -/
def decodeAgain (plan : Plan) (datagram : Datagram) : List Errand :=
  match Packet.classifyDatagram plan.ports datagram with
  | .ok classified => forward plan classified
  | .error _ => [.count (.decodeErrors "reassembled") 1]

/-- What is done after a fragment was submitted. -/
def afterSubmit (version : IpVersion) : Except FragmentError (Option Datagram) → List Errand
  | .ok (some datagram) =>
    [.count (.fragments version "reassembled") 1, .send (.datagram datagram)]
  | .ok none => [.count (.fragments version "buffered") 1]
  | .error (.hole _) => [.count (.fragments version "hole") 1]
  | .error _ => [.count (.fragments version "rejected") 1]

/-- The events of an outcome, to be counted. -/
def countEvents (version : IpVersion) (outcome : Outcome) : List Errand :=
  outcome.events.map fun event => .count (.streams version event.1.label) event.2

/-- The messages of an outcome, to be sent on. -/
def sendMessages (outcome : Outcome) : List Errand :=
  outcome.messages.map fun message => .send (.message message)

/-- What is done after a segment was taken, or streams were flushed. -/
def afterAssembly (version : IpVersion) (outcome : Outcome) : List Errand :=
  countEvents version outcome ++ sendMessages outcome

/-- Receives a parcel. Only those of a station's own queue concern it. -/
def receive (plan : Plan) (now : Instant) : Role → Parcel → Role × List Errand
  | decoder, .packet frame => (decoder, decode plan frame)
  | reassembler version state, .fragment fragment =>
    let (outcome, after) := state.submit fragment now
    (reassembler version after, afterSubmit version outcome)
  | secondDecoder, .datagram datagram => (secondDecoder, decodeAgain plan datagram)
  | shard index v4 v6, .segment _ segment =>
    match segment.header.version with
    | .v4 =>
      let (outcome, after) := v4.assemble segment now
      (shard index after v6, afterAssembly .v4 outcome)
    | .v6 =>
      let (outcome, after) := v6.assemble segment now
      (shard index v4 after, afterAssembly .v6 outcome)
  | parser, .message message => (parser, [observe plan .tcp message])
  | role, _ => (role, [])

/-! ## Ends and ticks -/

/-- What a station does once nothing can come any more: streams that are still
    open give what they have. -/
def finish : Role → Role × List Errand
  | shard index v4 v6 =>
    let (outcome4, after4) := v4.flushAll
    let (outcome6, after6) := v6.flushAll
    (shard index after4 after6, afterAssembly .v4 outcome4 ++ afterAssembly .v6 outcome6)
  | role => (role, [])

/-- Whether a station looks for idle state from time to time. -/
def ticks : Role → Bool
  | reassembler _ _ | shard _ _ _ => true
  | _ => false

/-- Whether a tick has to wait until all errands are run. -/
def tickWaits : Role → Bool
  | shard _ _ _ => true
  | _ => false

/-- Ends what was idle since before `cutoff`. -/
def tick (cutoff : Instant) : Role → Role × List Errand
  | reassembler version state =>
    let (discarded, after) := state.discardOlderThan cutoff
    (reassembler version after,
      if 0 < discarded then [.count (.fragments version "expired") discarded] else [])
  | shard index v4 v6 =>
    let (outcome4, after4) := v4.flushOlderThan cutoff
    let (outcome6, after6) := v6.flushOlderThan cutoff
    (shard index after4 after6,
      countEvents .v4 outcome4 ++ countEvents .v6 outcome6 ++
        (sendMessages outcome4 ++ sendMessages outcome6))
  | role => (role, [])

end Role

/-! ## Stations -/

/-- Where a station is in its life. -/
inductive Phase where
  | working
  | closing
  | finished
deriving Repr, DecidableEq, Inhabited

/-- A station: its role, the errands it still has to run, and when it looks for
    idle state next. -/
structure Station where
  role : Role
  outbox : List Errand
  phase : Phase
  nextTick : Instant
deriving Inhabited

namespace Station

/-- A station at the start. -/
def ofRole (role : Role) (nextTick : Instant) : Station := ⟨role, [], .working, nextTick⟩

/-- Whether a station will send nothing more into a queue. -/
def isDoneWith (channel : Channel) (station : Station) : Bool :=
  station.phase = .finished || !station.role.feeds channel

/-- The stations of a plan. Those that are nearer to the observations come
    first. -/
def ofPlan (plan : Plan) : List Station :=
  let shards := (List.range plan.settings.tcpShards).map fun index =>
    let none := Connections.empty plan.settings.maxBufferedSegments
    Role.shard index none none
  let reassembler (version : IpVersion) : Role :=
    .reassembler version (.empty (.ofVersion version))
  let roles := .parser :: (shards ++
    ([.secondDecoder, reassembler .v4, reassembler .v6] ++
      List.replicate plan.settings.decoderWorkers .decoder))
  roles.map fun role => .ofRole role plan.gcInterval

end Station

end PassiveDns.Pipeline
