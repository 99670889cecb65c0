/-
  PassiveDns.Pipeline.Network

  The reader, the stations and the sinks, joined by bounded queues, and the single
  moves of each of them. A move is possible or not; which possible move is made
  next is open. `settle` makes moves until none is possible.
-/
import PassiveDns.Admission
import PassiveDns.Capture.Error
import PassiveDns.Pipeline.Station
import PassiveDns.Sink.FanOut

namespace PassiveDns.Pipeline

open PassiveDns.Sink (FanOut)

/-! ## The reader -/

/-- How a source ends. -/
inductive SourceEnd where
  | exhausted
  | failed (error : Capture.Error)
deriving Repr, DecidableEq, Inhabited

/-- What the reader is about to do: look whether it should stop, wait for the
    source, queue a packet, or nothing any more. -/
inductive ReaderPhase where
  | deciding
  | asking
  | holding (frame : Frame)
  | finished
deriving Repr, DecidableEq, Inhabited

/-- The reader: which packets it admits, how many there were, and how the source
    failed if it did. -/
structure Reader where
  phase : ReaderPhase
  admission : Admission
  read : Nat
  accepted : Nat
  skipped : Nat
  duplicates : Nat
  failure : Option Capture.Error
deriving Repr, DecidableEq, Inhabited

namespace Reader

/-- A reader at the start. -/
def ofSettings (settings : Settings) (now : Instant) : Reader :=
  ⟨.deciding, .ofSettings settings now, 0, 0, 0, 0, none⟩

/-- Whether the reader has ended. -/
def isFinished (reader : Reader) : Bool := reader.phase = .finished

/-- Takes a packet: decides on it and counts it. -/
def take (reader : Reader) (frame : Frame) (arrival : Instant) : List (Series × Nat) × Reader :=
  let (decision, admission) := reader.admission.check frame.octets arrival
  let seen := { reader with admission, read := reader.read + 1 }
  match decision with
  | .accepted => ([], { seen with phase := .holding frame, accepted := seen.accepted + 1 })
  | .skipped =>
    ([(.rejected "ratio", 1)], { seen with phase := .deciding, skipped := seen.skipped + 1 })
  | .duplicate =>
    ([(.rejected "duplicate", 1)],
      { seen with phase := .deciding, duplicates := seen.duplicates + 1 })

end Reader

/-! ## The network -/

/-- A packet that waits in the source, and when it gets to the reader. -/
structure Arrival where
  frame : Frame
  time : Instant
deriving Repr, DecidableEq, Inhabited

/-- Everything that takes part in a run. `volume` counts the octets and packets
    that ever were in the source. -/
structure Network where
  plan : Plan
  now : Instant
  source : List Arrival
  sourceEnd : Option SourceEnd
  reader : Reader
  queues : Table Channel (List Parcel)
  stations : List Station
  fanOut : FanOut
  metrics : Metrics
  stopping : Bool
  volume : Nat
deriving Inhabited

/-- What can happen: the reader does something, a station runs an errand or
    receives a parcel, a station looks for idle state, observations are handed
    out, or a sink does something. -/
inductive Move where
  | read
  | work (station : Nat)
  | tick (station : Nat)
  | dispatch
  | write (sink : Nat)
deriving Repr, DecidableEq, Inhabited

namespace Network

/-- A network in which nothing has happened. -/
def ofPlan (plan : Plan) (sinks : FanOut) (now : Instant) : Network where
  plan
  now
  source := []
  sourceEnd := none
  reader := .ofSettings plan.settings now
  queues := .empty
  stations := Station.ofPlan plan
  fanOut := sinks
  metrics := .empty
  stopping := false
  volume := 0

/-! ### Queues -/

/-- The parcels in a queue. -/
def queue (network : Network) (channel : Channel) : List Parcel :=
  (network.queues.get? channel).getD []

/-- Whether a parcel can be sent now. -/
def hasRoom (network : Network) (channel : Channel) : Bool :=
  (network.queue channel).length < network.plan.capacity channel

/-- Puts a parcel into its queue. -/
def push (network : Network) (parcel : Parcel) : Network :=
  let channel := parcel.channel
  { network with queues := network.queues.set channel (network.queue channel ++ [parcel]) }

/-- Replaces the parcels in a queue. -/
def setQueue (network : Network) (channel : Channel) (parcels : List Parcel) : Network :=
  { network with queues := network.queues.set channel parcels }

/-- Whether nothing more can come into a queue. -/
def isClosed (network : Network) (channel : Channel) : Bool :=
  (channel ≠ .packets || network.reader.isFinished) &&
    network.stations.all (Station.isDoneWith channel)

/-- Whether somebody still receives packets. -/
def takesPackets (network : Network) : Bool :=
  network.stations.any fun station =>
    station.role.input = .packets && station.phase ≠ .finished

/-! ### Moves of the reader -/

/-- How often the counters of the source are looked at, in packets. -/
def sourceCountsEvery : Nat := 1024

/-- Sets the counters of the source. -/
def countSource (network : Network) : Network :=
  { network with metrics := network.metrics.putSource network.reader.read network.plan.dropped }

/-- The reader ends. -/
def endReader (network : Network) (failure : Option Capture.Error) : Network :=
  ({ network with reader := { network.reader with phase := .finished, failure } }).countSource

/-- The reader takes a packet. -/
def readFrame (network : Network) (arrival : Arrival) (rest : List Arrival) : Network :=
  let (tally, reader) := network.reader.take arrival.frame arrival.time
  let counted := { network with
    source := rest
    reader
    metrics := network.metrics.bump (.packets "captured") }
  let looked := if reader.read % sourceCountsEvery = 0 then counted.countSource else counted
  { looked with metrics := looked.metrics.addAll tally }

/-- What the reader does next, if it can do anything. It looks whether it should
    stop before it waits for the source, and while it waits for room. -/
def read? (network : Network) : Option Network :=
  match network.reader.phase with
  | .finished => none
  | .deciding =>
    if network.stopping then some (network.endReader none)
    else some { network with reader := { network.reader with phase := .asking } }
  | .asking =>
    match network.source, network.sourceEnd with
    | arrival :: rest, _ => some (network.readFrame arrival rest)
    | [], some .exhausted => some (network.endReader none)
    | [], some (.failed error) => some (network.endReader (some error))
    | [], none => none
  | .holding frame =>
    if !network.takesPackets then some (network.endReader none)
    else if network.hasRoom .packets then
      some { network.push (.packet frame) with
        reader := { network.reader with phase := .deciding } }
    else if network.stopping then some (network.endReader none)
    else none

/-! ### Moves of the stations -/

/-- Replaces a station. -/
def setStation (network : Network) (index : Nat) (station : Station) : Network :=
  { network with stations := network.stations.set index station }

/-- What a station does next, if it can do anything: the first of its errands,
    or the next parcel, or its end. -/
def work? (network : Network) (index : Nat) : Option Network :=
  match network.stations[index]? with
  | none => none
  | some station =>
    match station.outbox with
    | .count series amount :: rest =>
      some { network.setStation index { station with outbox := rest } with
        metrics := network.metrics.add series amount }
    | .send parcel :: rest =>
      if network.hasRoom parcel.channel then
        some ((network.push parcel).setStation index { station with outbox := rest })
      else none
    | [] =>
      match station.phase with
      | .finished => none
      | .closing => some (network.setStation index { station with phase := .finished })
      | .working =>
        let channel := station.role.input
        match network.queue channel with
        | parcel :: rest =>
          let (role, outbox) := station.role.receive network.plan network.now parcel
          some ((network.setQueue channel rest).setStation index { station with role, outbox })
        | [] =>
          if network.isClosed channel then
            let (role, outbox) := station.role.finish
            some (network.setStation index { station with role, outbox, phase := .closing })
          else none

/-- The first tick behind a point in time. -/
def tickAfter (interval now : Nat) : Instant := (now / interval + 1) * interval

/-- A station looks for idle state, if it is time. -/
def tick? (network : Network) (index : Nat) : Option Network :=
  match network.stations[index]? with
  | none => none
  | some station =>
    if station.role.ticks && station.phase = .working && station.nextTick ≤ network.now &&
        (station.outbox.isEmpty || !station.role.tickWaits) then
      let interval := network.plan.gcInterval
      let (role, errands) := station.role.tick (network.now - interval)
      some (network.setStation index { station with
        role
        outbox := errands ++ station.outbox
        nextTick := tickAfter interval network.now })
    else none

/-! ### Moves of the hand-out and the sinks -/

/-- Takes over what the hand-out or a sink did. -/
def withFanOut (network : Network) (step : List (Series × Nat) × FanOut) : Network :=
  { network with fanOut := step.2, metrics := network.metrics.addAll step.1 }

/-- What the hand-out does next, if it can do anything: it goes on with the
    observation in hand, or takes the next, or ends. -/
def dispatch? (network : Network) : Option Network :=
  match network.fanOut.hand with
  | some _ => network.fanOut.handOut?.map network.withFanOut
  | none =>
    if network.fanOut.closing then none
    else
      match network.queue .results with
      | .result observation :: rest =>
        some { network.setQueue .results rest with fanOut := network.fanOut.take observation }
      | _ :: rest => some (network.setQueue .results rest)
      | [] =>
        if network.isClosed .results then
          some { network with fanOut := network.fanOut.close }
        else none

/-- What a sink does next, if it can do anything. -/
def write? (network : Network) (index : Nat) : Option Network :=
  (network.fanOut.write? index).map network.withFanOut

/-! ### All moves -/

/-- Makes a move, if it is possible. -/
def fire? (network : Network) : Move → Option Network
  | .read => network.read?
  | .work station => network.work? station
  | .tick station => network.tick? station
  | .dispatch => network.dispatch?
  | .write sink => network.write? sink

/-- One network follows another by some move other than a tick. -/
def Step (before after : Network) : Prop :=
  ∃ move, (∀ station, move ≠ .tick station) ∧ before.fire? move = some after

/-- Whether all that takes part has ended. -/
def isFinished (network : Network) : Bool :=
  network.reader.isFinished && (network.stations.all fun station => station.phase = .finished) &&
    network.fanOut.isFinished

/-- The moves that are tried, in this order, when there is a choice: what is
    nearer to the end of the way goes first. -/
def moves (network : Network) : List Move :=
  (List.range network.fanOut.outlets.length).map .write ++
    (.dispatch :: ((List.range network.stations.length).map .work ++ [.read]))

/-- Makes at most `steps` moves, and none once it is enough. -/
def settleWithin (network : Network) (enough : Network → Bool) : Nat → Network
  | 0 => network
  | steps + 1 =>
    if enough network then network
    else
      match network.moves.findSome? network.fire? with
      | none => network
      | some after => after.settleWithin enough steps

/-- No more moves than these can be made: every packet and every octet leads to
    a few of them at each station and each sink. -/
def effort (network : Network) : Nat :=
  let parts := network.stations.length + network.fanOut.outlets.length + 1
  64 * parts * (network.volume + parts)

/-- Makes moves, ticks apart, as long as any is possible. -/
def settle (network : Network) : Network :=
  network.settleWithin (fun _ => false) network.effort

/-- Makes moves, ticks apart, until the reader has ended or none is possible. What
    the end of the reader leads to is left to do. -/
def settleReader (network : Network) : Network :=
  network.settleWithin (fun network => network.reader.isFinished) network.effort

/-- Lets every station look for idle state for which it is time. -/
def tickAll (network : Network) : Network :=
  (List.range network.stations.length).foldl
    (fun network index => (network.tick? index).getD network) network

/-- Adds packets to the source. A source that has ended, or whose reader has,
    gives no more. -/
def feed (network : Network) (arrivals : List Arrival) : Network :=
  if network.reader.isFinished || network.sourceEnd.isSome then network
  else { network with
    source := network.source ++ arrivals
    volume := arrivals.foldl (fun sum arrival => sum + arrival.frame.octets.length + 1)
      network.volume }

/-- Ends the source. -/
def endSource (network : Network) (sourceEnd : SourceEnd) : Network :=
  { network with sourceEnd := some (network.sourceEnd.getD sourceEnd) }

/-- Gives up what the stations and the hand-out still have to do. The reader and
    the sinks go on by themselves. -/
def abandon (network : Network) : Network :=
  { network with
    queues := .empty
    stations := network.stations.map fun station =>
      { station with outbox := [], phase := .finished }
    fanOut := network.fanOut.abandon }

end Network

end PassiveDns.Pipeline
