/-
  PassiveDns.Proofs.Stream.FarEnds

  Ends that lie half of the circle of sequence numbers ahead, or more. Such an end is taken
  for one that lies behind what was handed out, and the flow is closed at once
  (`assemble_far_end`).
-/
import PassiveDns.Proofs.Stream.Reopening

namespace PassiveDns.Stream

namespace Reorder

/-- An end that seems to lie behind what was handed out ends the stream there. -/
theorem accept_of_behind {stream : Reorder} {start : UInt32} {arrival : Arrival}
    (hfin : arrival.fin = true)
    (hbehind : stream.offsetOf start arrival.sequence + arrival.chunk.octets.length ≤ stream.next) :
    ∃ after : Reorder, after.isFinished = true ∧ stream.accept start arrival = ([], after) := by
  have hfinished (retransmits : Nat) : isFinished { stream with
      finAt := some (stream.offsetOf start arrival.sequence + arrival.chunk.octets.length).toNat
      retransmits } = true := by
    refine decide_eq_true ?_
    show (_ : Int).toNat ≤ stream.next
    omega
  unfold accept
  dsimp only
  rw [noteFin, if_pos hfin]
  split
  · exact ⟨_, hfinished stream.retransmits, rfl⟩
  · -- its octets count as sent again
    unfold place
    dsimp only
    rw [if_pos hbehind]
    exact ⟨_, hfinished (stream.retransmits + 1), rfl⟩

end Reorder

namespace Kept

/-- What is kept of a flow that a SYN opens at `time`. -/
def openedBy (capacity : Nat) (syn : TcpSegment) (time : Instant) : Kept where
  live := some { Live.ofSegment capacity syn time with
    order := { Reorder.empty capacity with start := some (syn.sequence + 1) } }
  closed := none

variable {syn segment : TcpSegment}

/-- A segment of which nothing is handed out. -/
theorem deliver_of_push (capacity : Nat) (kept : Kept) (segment : TcpSegment) (now : Instant)
    {order : Reorder}
    (hpush : (kept.live.getD (.ofSegment capacity segment now)).order.push segment.syn
      ⟨segment.sequence, segment.fin, segment.payload, segment.time⟩ = ([], order)) :
    kept.deliver capacity segment now = ([], if order.isFinished then closedAt now else
      ⟨some { kept.live.getD (.ofSegment capacity segment now) with order, lastSeen := now },
        kept.closed⟩) := by
  unfold deliver Live.take
  dsimp only
  rw [hpush, Live.frame]
  dsimp only
  split <;> rfl

/-- A SYN by itself opens its flow. -/
theorem assemble_syn_alone (capacity : Nat) (hsyn : syn.syn = true) (hfin : syn.fin = false)
    (hrst : syn.rst = false) (hpayload : syn.payload = []) (now : Instant) :
    nothing.assemble capacity syn now = ([], openedBy capacity syn now) := by
  have hpush : (Reorder.empty capacity).push syn.syn
      ⟨syn.sequence, syn.fin, syn.payload, syn.time⟩ =
      ([], { Reorder.empty capacity with start := some (syn.sequence + 1) }) := by
    simp [Reorder.push, Reorder.empty, Reorder.anchor, Reorder.acceptAll, Reorder.accept,
      Reorder.noteFin, hsyn, hfin, hpayload]
  rw [assemble, hrst, hsyn, hpayload]
  show nothing.deliver capacity syn now = _
  exact deliver_of_push capacity nothing syn now hpush

/-- An end that lies half of the circle ahead, or more, closes the flow at once. -/
theorem assemble_far_end (capacity : Nat) {offset : Nat} (time : Instant)
    (hsequence : segment.sequence = syn.sequence + 1 + UInt32.ofNat offset)
    (hfar : halfCircle ≤ offset) (hless : offset < 4294967296)
    (hround : offset + segment.payload.length ≤ 4294967296)
    (hsyn : segment.syn = false) (hfin : segment.fin = true) (hrst : segment.rst = false)
    (now : Instant) :
    (openedBy capacity syn time).assemble capacity segment now = ([], closedAt now) := by
  have hahead := ahead_of_far (syn.sequence + 1) hfar hless
  -- nothing was handed out yet, and the end seems to lie before that
  have hbehind : Reorder.offsetOf { Reorder.empty capacity with start := some (syn.sequence + 1) }
      (syn.sequence + 1) segment.sequence + segment.payload.length ≤ (0 : Nat) := by
    show ((0 : Nat) : Int) + ahead segment.sequence (syn.sequence + 1 + 0) + _ ≤ _
    rw [UInt32.add_zero, hsequence, hahead]
    omega
  obtain ⟨order, hfinished, haccept⟩ := Reorder.accept_of_behind
    (show (Arrival.mk segment.sequence segment.fin ⟨segment.payload, segment.time⟩).fin = true
      from hfin) hbehind
  have hpush : Reorder.push { Reorder.empty capacity with start := some (syn.sequence + 1) }
      segment.syn ⟨segment.sequence, segment.fin, segment.payload, segment.time⟩ = ([], order) := by
    unfold Reorder.push
    rw [hsyn]
    exact haccept
  rw [assemble, hrst, hsyn, hfin]
  show (openedBy capacity syn time).deliver capacity segment now = _
  rw [deliver_of_push capacity (openedBy capacity syn time) segment now hpush, if_pos hfinished]

end Kept

end PassiveDns.Stream
