/-
  PassiveDns.Stream.Reorder

  The octets of one direction of a TCP connection, in order. The SYN says where
  the stream starts. What comes before it is held, and replayed once the start
  is known; a stream whose SYN is never seen starts at the earliest octet held.
  Offsets count from the start and never wrap, however long the stream gets.
-/
import PassiveDns.Packet.Basic

namespace PassiveDns.Stream

/-- Octets of a stream with the time of the segment that brought them. -/
structure Chunk where
  octets : Octets
  time : Option Timestamp
deriving Repr, DecidableEq, Inhabited

/-- The part of a segment that matters to the stream: the sequence number of its
    first octet, whether it ends the stream, and its octets. -/
structure Arrival where
  sequence : UInt32
  fin : Bool
  chunk : Chunk
deriving Repr, DecidableEq, Inhabited

/-- Octets that wait for a gap before them to close. -/
structure Waiting where
  offset : Nat
  chunk : Chunk
deriving Repr, DecidableEq, Inhabited

namespace Waiting

/-- The offset behind the waiting octets. -/
def stop (w : Waiting) : Nat := w.offset + w.chunk.octets.length

end Waiting

/-- How far `a` lies ahead of `b` on the circle of sequence numbers, negative
    where it lies behind. -/
def ahead (a b : UInt32) : Int :=
  Int.bmod ((a.toNat : Int) - (b.toNat : Int)) 4294967296

/-- One direction of a connection. `start` is the sequence number of offset
    zero, `next` the offset of the first octet not handed out, `held` what came
    before the start was known, and `waiting` what lies behind a gap, in the
    order of offsets. -/
structure Reorder where
  capacity : Nat
  start : Option UInt32
  next : Nat
  held : List Arrival
  waiting : List Waiting
  finAt : Option Nat
  retransmits : Nat
  refused : Nat
deriving Repr, DecidableEq, Inhabited

namespace Reorder

/-- A stream of which nothing is known yet. -/
def empty (capacity : Nat) : Reorder := ⟨capacity, none, 0, [], [], none, 0, 0⟩

/-- The offset of a sequence number, within 2^31 of the next offset. It is
    negative for what precedes the stream. -/
def offsetOf (stream : Reorder) (start sequence : UInt32) : Int :=
  stream.next + ahead sequence (start + UInt32.ofNat stream.next)

/-- Takes from the waiting octets what follows on `next` without a gap. Gives
    the octets, those that still wait, and the next offset. -/
def release (next : Nat) : List Waiting → List Chunk × List Waiting × Nat
  | [] => ([], [], next)
  | w :: rest =>
    if next < w.offset then ([], w :: rest, next)
    else if w.stop ≤ next then release next rest
    else
      let (chunks, left, reached) := release w.stop rest
      (⟨w.chunk.octets.drop (next - w.offset), w.chunk.time⟩ :: chunks, left, reached)

/-- Puts octets among those that wait. Of two that start at one offset the
    longer stays, and the older of two equally long. -/
def wait (w : Waiting) : List Waiting → List Waiting
  | [] => [w]
  | v :: rest =>
    if v.offset < w.offset then v :: wait w rest
    else if v.offset = w.offset then
      (if w.chunk.octets.length ≤ v.chunk.octets.length then v else w) :: rest
    else w :: v :: rest

/-- Notes where the stream ends. -/
def noteFin (stream : Reorder) (fin : Bool) (stop : Int) : Reorder :=
  if fin then { stream with finAt := some stop.toNat } else stream

/-- Places octets that lie between two offsets of the stream. What was handed
    out before is cut off; what lies behind a gap waits, unless too much waits
    already, and then it is refused. -/
def place (stream : Reorder) (offset : Int) (chunk : Chunk) : List Chunk × Reorder :=
  let stop := offset + chunk.octets.length
  if stop ≤ stream.next then ([], { stream with retransmits := stream.retransmits + 1 })
  else if offset ≤ stream.next then
    let fresh : Chunk := ⟨chunk.octets.drop (stream.next - offset).toNat, chunk.time⟩
    let (chunks, left, reached) := release stop.toNat stream.waiting
    (fresh :: chunks, { stream with next := reached, waiting := left })
  else if stream.capacity ≤ stream.waiting.length then
    ([], { stream with refused := stream.refused + 1 })
  else ([], { stream with waiting := wait ⟨offset.toNat, chunk⟩ stream.waiting })

/-- Takes an arrival into a stream that starts at `start`. -/
def accept (stream : Reorder) (start : UInt32) (arrival : Arrival) : List Chunk × Reorder :=
  let offset := stream.offsetOf start arrival.sequence
  let noted := stream.noteFin arrival.fin (offset + arrival.chunk.octets.length)
  if arrival.chunk.octets.isEmpty then ([], noted) else noted.place offset arrival.chunk

/-- Takes arrivals one after the other. -/
def acceptAll (stream : Reorder) (start : UInt32) : List Arrival → List Chunk × Reorder
  | [] => ([], stream)
  | arrival :: rest =>
    let (chunks, after) := stream.accept start arrival
    let (more, last) := after.acceptAll start rest
    (chunks ++ more, last)

/-- Lets the stream start at a sequence number and takes what was held, in the
    order of the stream. -/
def anchor (stream : Reorder) (start : UInt32) : List Chunk × Reorder :=
  let held := stream.held.mergeSort fun a b => ahead a.sequence start ≤ ahead b.sequence start
  { stream with start := some start, held := [] }.acceptAll start held

/-- The earliest of the sequence numbers, as seen from `reference`. -/
def earliest (reference : UInt32) (numbers : List UInt32) : UInt32 :=
  numbers.foldl (fun best n => if ahead n reference < ahead best reference then n else best)
    reference

/-- Lets a stream without SYN start at the earliest octet held. -/
def anchorAtEarliest (stream : Reorder) : List Chunk × Reorder :=
  match stream.start, stream.held with
  | some _, _ => ([], stream)
  | none, [] => ([], stream)
  | none, first :: _ =>
    stream.anchor (earliest first.sequence (stream.held.map Arrival.sequence))

/-- Takes a segment. A SYN takes one sequence number before the data. While the
    start is unknown, what neither carries octets nor ends the stream is passed
    over, the rest is held, and a hold that overflows starts the stream. -/
def push (stream : Reorder) (syn : Bool) (segment : Arrival) : List Chunk × Reorder :=
  let arrival : Arrival :=
    { segment with sequence := if syn then segment.sequence + 1 else segment.sequence }
  match stream.start with
  | some start => stream.accept start arrival
  | none =>
    if syn then
      let (replayed, anchored) := stream.anchor arrival.sequence
      let (chunks, after) := anchored.accept arrival.sequence arrival
      (replayed ++ chunks, after)
    else if arrival.chunk.octets.isEmpty && !arrival.fin then ([], stream)
    else
      let holding := { stream with held := stream.held ++ [arrival] }
      if stream.capacity < holding.held.length then holding.anchorAtEarliest
      else ([], holding)

/-- Whether the stream ended and all of it was handed out. -/
def isFinished (stream : Reorder) : Bool :=
  match stream.finAt with
  | none => false
  | some stop => stop ≤ stream.next

/-- Whether octets wait, behind a gap or for the start. -/
def hasPending (stream : Reorder) : Bool :=
  !stream.waiting.isEmpty || !stream.held.isEmpty

/-- Whether the start is known. -/
def isAnchored (stream : Reorder) : Bool := stream.start.isSome

end Reorder

end PassiveDns.Stream
