/-
  PassiveDns.Proofs.Stream.Session

  What a stream is told and what it gave so far. A `Slice` is a part of an octet
  string as one segment carries it; a `Session` is a stream together with all
  that was done to it. `Session.Fits` is what the sender of a stream has to keep
  to so that 32-bit sequence numbers name offsets without doubt: a segment lies
  within 2^31 of the next octet when it is placed, and what is held for the start
  lies within 2^31 of it.
-/
import PassiveDns.Proofs.Stream.Sequence

namespace PassiveDns.Stream

/-- A part of a stream, as one segment carries it: where it starts and how long
    it is, and whether the segment opens the stream or ends it. -/
structure Slice where
  offset : Nat
  length : Nat
  syn : Bool
  fin : Bool
  time : Option Timestamp
deriving Repr, DecidableEq, Inhabited

namespace Slice

/-- The offset behind a slice. -/
def stop (slice : Slice) : Nat := slice.offset + slice.length

/-- The octets of a slice. -/
def octets (stream : Octets) (slice : Slice) : Octets :=
  stream.slice slice.offset slice.length

/-- Whether a stream without a start holds the slice: it has octets or ends the
    stream. -/
def counts (slice : Slice) : Bool := 0 < slice.length || slice.fin

/-- The segment that carries a slice, in a stream whose SYN has the sequence
    number `isn`. -/
def arrival (stream : Octets) (isn : UInt32) (slice : Slice) : Arrival :=
  ⟨if slice.syn then isn else isn + 1 + UInt32.ofNat slice.offset, slice.fin,
    ⟨slice.octets stream, slice.time⟩⟩

/-- The slice by the sequence number of its first octet. -/
def placed (stream : Octets) (isn : UInt32) (slice : Slice) : Arrival :=
  ⟨isn + 1 + UInt32.ofNat slice.offset, slice.fin, ⟨slice.octets stream, slice.time⟩⟩

/-- A slice lies inside the stream, and the one with the SYN at its start. -/
structure IsOf (stream : Octets) (slice : Slice) : Prop where
  stop_le : slice.stop ≤ stream.length
  syn_offset : slice.syn = true → slice.offset = 0

instance (stream : Octets) (slice : Slice) : Decidable (slice.IsOf stream) :=
  decidable_of_iff (slice.stop ≤ stream.length ∧ (slice.syn = true → slice.offset = 0))
    ⟨fun h => ⟨h.1, h.2⟩, fun h => ⟨h.stop_le, h.syn_offset⟩⟩

/-- Whether a slice has the octet at an offset of the stream. -/
def Has (slice : Slice) (position : Nat) : Prop :=
  slice.offset ≤ position ∧ position < slice.stop

instance (slice : Slice) (position : Nat) : Decidable (slice.Has position) :=
  inferInstanceAs (Decidable (slice.offset ≤ position ∧ position < slice.stop))

theorem length_octets {stream : Octets} {slice : Slice} (h : slice.stop ≤ stream.length) :
    (slice.octets stream).length = slice.length :=
  Octets.length_slice _ _ _ h

end Slice

/-- A call of a stream: a segment is pushed, or the stream is told to start with
    what it holds. -/
inductive Call where
  | push (slice : Slice)
  | anchor
deriving Repr, DecidableEq, Inhabited

namespace Call

/-- What a call does to a stream. -/
def perform (stream : Octets) (isn : UInt32) (order : Reorder) : Call → List Chunk × Reorder
  | push slice => order.push slice.syn (slice.arrival stream isn)
  | anchor => order.anchorAtEarliest

/-- The slice that a call brings. -/
def slices : Call → List Slice
  | push slice => [slice]
  | anchor => []

/-- Whether a call brings the SYN. -/
def opens : Call → Bool
  | push slice => slice.syn
  | anchor => false

end Call

/-- The slices that a stream without a start holds, out of all that were pushed. -/
def heldOf (pushed : List Slice) : List Slice := pushed.filter Slice.counts

theorem heldOf_append (slices more : List Slice) :
    heldOf (slices ++ more) = heldOf slices ++ heldOf more :=
  List.filter_append ..

theorem heldOf_singleton (slice : Slice) :
    heldOf [slice] = if slice.counts then [slice] else [] := by
  unfold heldOf
  rw [List.filter_cons, List.filter_nil]

/-- The smallest offset among slices. -/
def earliestOf (slices : List Slice) : Nat := ((slices.map Slice.offset).min?).getD 0

/-- Slices in the order of their offsets. -/
def byOffset (slices : List Slice) : List Slice :=
  slices.mergeSort fun a b => a.offset ≤ b.offset

/-- Whether slices have all octets from one offset up to another. -/
def Covers (slices : List Slice) (low high : Nat) : Prop :=
  ∀ position, low ≤ position → position < high → ∃ slice ∈ slices, slice.Has position

instance (slices : List Slice) (low high : Nat) : Decidable (Covers slices low high) :=
  decidable_of_iff (∀ position < high, low ≤ position → ∃ slice ∈ slices, slice.Has position)
    ⟨fun h position hlow hhigh => h position hhigh hlow,
      fun h position hhigh hlow => h position hlow hhigh⟩

/-- The offset at which a stream starts that holds `held` so far: zero if the SYN
    comes first, and the smallest offset held if the hold overflows or is flushed
    before that. -/
def startOf (capacity : Nat) (held : List Slice) : List Call → Option Nat
  | [] => none
  | .push slice :: rest =>
    if slice.syn then some 0
    else
      let holding := held ++ heldOf [slice]
      if capacity < holding.length then some (earliestOf holding)
      else startOf capacity holding rest
  | .anchor :: rest =>
    if held.isEmpty then startOf capacity held rest else some (earliestOf held)

/-- A stream, the chunks that it gave so far, the slices that were pushed, those
    of them that it did not refuse, and the offset at which it started once it
    did. -/
structure Session where
  order : Reorder
  output : List Chunk
  pushed : List Slice
  taken : List Slice
  anchor : Option Nat
deriving Repr, DecidableEq, Inhabited

/-- The octets of chunks, one after the other. -/
def joined (chunks : List Chunk) : Octets := chunks.flatMap Chunk.octets

namespace Session

/-- Before the first call. -/
def start (capacity : Nat) : Session := ⟨.empty capacity, [], [], [], none⟩

/-- The offset at which a stream starts that starts with a call: zero if the call
    brings the SYN, and else the smallest offset held. -/
def anchorBy (session : Session) (call : Call) : Nat :=
  if call.opens then 0 else earliestOf (heldOf (session.pushed ++ call.slices))

/-- One call. A slice is taken if no segment was refused in the call. -/
def step (stream : Octets) (isn : UInt32) (session : Session) (call : Call) : Session :=
  let (chunks, order) := call.perform stream isn session.order
  { order
    output := session.output ++ chunks
    pushed := session.pushed ++ call.slices
    taken :=
      if order.refused = session.order.refused then session.taken ++ call.slices
      else session.taken
    anchor := match session.anchor with
      | some anchor => some anchor
      | none => if order.isAnchored then some (session.anchorBy call) else none }

/-- Calls one after the other. -/
def run (stream : Octets) (isn : UInt32) (session : Session) (calls : List Call) : Session :=
  calls.foldl (step stream isn) session

/-- What is placed by a call with which the stream has a start, in this order:
    all that was held if it got its start just now, and then the slice of the
    call. -/
def queue (session : Session) (call : Call) : List Slice :=
  match session.anchor with
  | some _ => call.slices
  | none =>
    if call.opens then byOffset (heldOf session.pushed) ++ call.slices
    else byOffset (heldOf (session.pushed ++ call.slices))

/-- The stream as it starts at an anchor. -/
def anchored (session : Session) (isn : UInt32) (anchor : Nat) : Reorder :=
  { session.order with start := some (isn + 1 + UInt32.ofNat anchor), held := [] }

/-- Each slice is within reach of the next octet when it is placed. -/
def Reaches (stream : Octets) (isn : UInt32) (anchor : Nat) : Reorder → List Slice → Prop
  | _, [] => True
  | order, slice :: rest =>
    Near slice.offset (anchor + order.next) ∧
      Reaches stream isn anchor
        (order.accept (isn + 1 + UInt32.ofNat anchor) (slice.placed stream isn)).2 rest

/-- What a call has to keep to. -/
structure FitsCall (stream : Octets) (isn : UInt32) (session : Session) (call : Call) : Prop where
  isOf : ∀ slice ∈ call.slices, slice.IsOf stream
  reaches : ∀ anchor, (session.step stream isn call).anchor = some anchor →
    Reaches stream isn anchor (session.anchored isn anchor) (session.queue call)
  held : ∀ anchor, session.anchor = none →
    (session.step stream isn call).anchor = some anchor →
    ∀ slice ∈ session.queue call, slice.offset < anchor + halfCircle

/-- What the calls of a whole session have to keep to. -/
def Fits (stream : Octets) (isn : UInt32) (session : Session) : List Call → Prop
  | [] => True
  | call :: rest =>
    session.FitsCall stream isn call ∧ (session.step stream isn call).Fits stream isn rest

theorem queue_of_started {session : Session} {call : Call} {anchor : Nat}
    (h : session.anchor = some anchor) : session.queue call = call.slices := by
  unfold queue
  rw [h]

theorem queue_of_opens {session : Session} {call : Call} (h : session.anchor = none)
    (hopens : call.opens = true) :
    session.queue call = byOffset (heldOf session.pushed) ++ call.slices := by
  unfold queue
  rw [h]
  exact if_pos hopens

theorem queue_of_holds {session : Session} {call : Call} (h : session.anchor = none)
    (hopens : call.opens ≠ true) :
    session.queue call = byOffset (heldOf (session.pushed ++ call.slices)) := by
  unfold queue
  rw [h]
  exact if_neg hopens

theorem run_append (stream : Octets) (isn : UInt32) (session : Session) (calls more : List Call) :
    session.run stream isn (calls ++ more) = (session.run stream isn calls).run stream isn more :=
  List.foldl_append ..

theorem fits_append (stream : Octets) (isn : UInt32) (session : Session) (calls more : List Call) :
    session.Fits stream isn (calls ++ more) ↔
      session.Fits stream isn calls ∧ (session.run stream isn calls).Fits stream isn more := by
  induction calls generalizing session with
  | nil => simp [Fits, run]
  | cons call rest ih => simp only [List.cons_append, Fits, ih, run, List.foldl_cons, and_assoc]

end Session

end PassiveDns.Stream
