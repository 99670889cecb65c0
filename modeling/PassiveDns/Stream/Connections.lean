/-
  PassiveDns.Stream.Connections

  The TCP connections of one version of the Internet protocol, each direction by
  itself: opening, closing, expiry, and the messages that they carry. Both
  directions of a connection always belong to the same shard.
-/
import PassiveDns.Stream.Framing
import PassiveDns.Stream.Reorder
import PassiveDns.Table

namespace PassiveDns.Stream

/-- One direction of a connection. -/
structure Flow where
  source : Address
  destination : Address
  sourcePort : UInt16
  destinationPort : UInt16
deriving Repr, DecidableEq, Inhabited

/-- The flow to which a segment belongs. -/
def Flow.ofSegment (segment : TcpSegment) : Flow :=
  ⟨segment.header.source, segment.header.destination, segment.sourcePort,
    segment.destinationPort⟩

/-- What happens to flows. -/
inductive Event where
  | opened
  | closed
  | reset
  | late
  | segmentDropped
  | expired
  | flushed
deriving Repr, DecidableEq, Inhabited

/-- The name of an event. -/
def Event.label : Event → String
  | opened => "opened"
  | closed => "closed"
  | reset => "reset"
  | late => "late"
  | segmentDropped => "segment_dropped"
  | expired => "expired"
  | flushed => "flushed"

/-- A flow that is open. -/
structure Live where
  header : IpHeader
  sourcePort : UInt16
  destinationPort : UInt16
  order : Reorder
  framing : Framing
  lastSeen : Instant
deriving Repr, DecidableEq, Inhabited

namespace Live

/-- A flow that a segment opens. -/
def ofSegment (capacity : Nat) (segment : TcpSegment) (now : Instant) : Live :=
  ⟨segment.header, segment.sourcePort, segment.destinationPort, .empty capacity, .empty, now⟩

/-- Whether octets are left that no message has taken. -/
def holdsData (flow : Live) : Bool :=
  flow.order.hasPending || 0 < flow.framing.buffered

/-- Cuts chunks into messages. A message has the time of the chunk that
    completes it. -/
def frame (flow : Live) : List Chunk → List Carried × Live
  | [] => ([], flow)
  | chunk :: rest =>
    let (payloads, framing) := flow.framing.push chunk.octets
    let messages := payloads.map fun payload =>
      (⟨flow.header, flow.sourcePort, flow.destinationPort, payload, chunk.time⟩ : Carried)
    let (more, last) := { flow with framing }.frame rest
    (messages ++ more, last)

/-- Takes a segment. -/
def take (flow : Live) (segment : TcpSegment) : List Carried × Live :=
  let arrival : Arrival := ⟨segment.sequence, segment.fin, segment.payload, segment.time⟩
  let (chunks, order) := flow.order.push segment.syn arrival
  { flow with order }.frame chunks

/-- Ends a flow and gives what it still can: octets held for a SYN are cut from
    the earliest on; what lies behind a gap is lost. -/
def close (flow : Live) : List Carried × Live :=
  let (chunks, order) := flow.order.anchorAtEarliest
  { flow with order }.frame chunks

end Live

/-- All flows: those that are open, and when each of those was closed that were
    closed lately, so that a late segment does not open one anew. -/
structure Connections where
  capacity : Nat
  live : Table Flow Live
  closed : Table Flow Instant

/-- What a step yields: messages, and how often each event happened. -/
structure Outcome where
  messages : List Carried
  events : List (Event × Nat)
deriving Repr, DecidableEq, Inhabited

namespace Connections

/-- No flows. -/
def empty (capacity : Nat) : Connections := ⟨capacity, .empty, .empty⟩

instance : Inhabited Connections := ⟨empty 0⟩

/-- Ends a flow on a reset. -/
def reset (state : Connections) (flow : Flow) (now : Instant) : Outcome × Connections :=
  (⟨[], if state.live.contains flow then [(.reset, 1)] else []⟩,
    { state with live := state.live.erase flow, closed := state.closed.set flow now })

/-- Hands a segment to its flow, which it opens if need be, and closes a flow
    that has handed out everything up to its end. -/
def deliver (state : Connections) (segment : TcpSegment) (now : Instant) :
    Outcome × Connections :=
  let flow := Flow.ofSegment segment
  let (opening, before) := match state.live.get? flow with
    | some live => ([], live)
    | none => ([(Event.opened, 1)], Live.ofSegment state.capacity segment now)
  let (messages, after) := { before with lastSeen := now }.take segment
  let refusal :=
    if before.order.refused < after.order.refused then [(Event.segmentDropped, 1)] else []
  if after.order.isFinished then
    (⟨messages, opening ++ refusal ++ [(.closed, 1)]⟩,
      { state with live := state.live.erase flow, closed := state.closed.set flow now })
  else
    (⟨messages, opening ++ refusal⟩, { state with live := state.live.set flow after })

/-- Takes a segment. After a flow was closed only a SYN opens it again, and a
    bare acknowledgement opens none. -/
def assemble (state : Connections) (segment : TcpSegment) (now : Instant) :
    Outcome × Connections :=
  let flow := Flow.ofSegment segment
  if segment.rst then state.reset flow now
  else if !segment.syn && state.closed.contains flow then (⟨[], [(.late, 1)]⟩, state)
  else
    let reopened :=
      if segment.syn then { state with closed := state.closed.erase flow } else state
    if !state.live.contains flow && segment.payload.isEmpty && !segment.syn && !segment.fin
    then (⟨[], []⟩, reopened)
    else reopened.deliver segment now

/-- What is left of flows that end: their messages, and how many there were and
    how many of them still held octets. -/
def closeAll (flows : List (Flow × Live)) : Outcome :=
  let ended := flows.map fun entry => entry.2.close
  let flushed := (ended.filter fun e => e.2.holdsData).length
  { messages := ended.flatMap Prod.fst
    events := (if 0 < flows.length then [(.expired, flows.length)] else []) ++
      (if 0 < flushed then [(.flushed, flushed)] else []) }

/-- Ends the flows to which nothing came since before `cutoff`, and forgets the
    flows closed before it. -/
def flushOlderThan (state : Connections) (cutoff : Instant) : Outcome × Connections :=
  let stale := state.live.filter fun _ flow => flow.lastSeen < cutoff
  (closeAll stale.entries,
    { state with
      live := state.live.filter fun _ flow => cutoff ≤ flow.lastSeen
      closed := state.closed.filter fun _ time => cutoff ≤ time })

/-- Ends all flows and forgets all closed ones. -/
def flushAll (state : Connections) : Outcome × Connections :=
  (closeAll state.live.entries, empty state.capacity)

end Connections

namespace Outcome

/-- How often an event happened. -/
def count (outcome : Outcome) (event : Event) : Nat :=
  (outcome.events.filter fun e => e.1 = event).foldl (fun n e => n + e.2) 0

end Outcome

/-! ## Shards -/

/-- Address and port of one end of a connection. -/
def endpoint (address : Address) (port : UInt16) : Octets :=
  address.octets ++ Octets.ofWord16 port

/-- The shard of a segment, out of `shards` many: the hash of both ends, the
    lower one first, and of the protocol. -/
def shardOf (segment : TcpSegment) (shards : Nat) : Nat :=
  if shards ≤ 1 then 0
  else
    let a := endpoint segment.header.source segment.sourcePort
    let b := endpoint segment.header.destination segment.destinationPort
    let ends := if b < a then b ++ a else a ++ b
    (Octets.fnv1a64 (ends ++ [segment.header.protocol])).toNat % shards

theorem shardOf_lt (segment : TcpSegment) {shards : Nat} (h : 0 < shards) :
    shardOf segment shards < shards := by
  unfold shardOf
  split
  · exact h
  · exact Nat.mod_lt _ h

end PassiveDns.Stream
