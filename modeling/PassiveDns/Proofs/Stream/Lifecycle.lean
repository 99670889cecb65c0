/-
  PassiveDns.Proofs.Stream.Lifecycle

  How flows come and go. `Turn` says all that a segment does to the connections; a
  flow leaves on a reset, with its last octet, or in a flush (`leaving`). At any time
  no flow is both open and remembered as closed, no open flow is finished, and each
  is kept under its own addresses and ports (`after_proper`).
-/
import PassiveDns.Proofs.Stream.Isolation
import PassiveDns.Proofs.Stream.Soundness

namespace PassiveDns.Stream

/-! ## A flow and its stream -/

namespace Live

@[simp] theorem frame_order (flow : Live) (chunks : List Chunk) :
    (flow.frame chunks).2.order = flow.order := by
  induction chunks generalizing flow with
  | nil => rfl
  | cons chunk rest ih =>
    unfold frame
    exact ih _

@[simp] theorem frame_lastSeen (flow : Live) (chunks : List Chunk) :
    (flow.frame chunks).2.lastSeen = flow.lastSeen := by
  induction chunks generalizing flow with
  | nil => rfl
  | cons chunk rest ih =>
    unfold frame
    exact ih _

/-- The part of a segment that matters to the stream. -/
def arrivalOf (segment : TcpSegment) : Arrival :=
  ⟨segment.sequence, segment.fin, segment.payload, segment.time⟩

theorem take_order (flow : Live) (segment : TcpSegment) :
    (flow.take segment).2.order = (flow.order.push segment.syn (arrivalOf segment)).2 :=
  frame_order ..

theorem take_lastSeen (flow : Live) (segment : TcpSegment) :
    (flow.take segment).2.lastSeen = flow.lastSeen :=
  frame_lastSeen ..

theorem close_order (flow : Live) : flow.close.2.order = flow.order.anchorAtEarliest.2 :=
  frame_order ..

/-- How many segments the stream of a flow refused. -/
def refused (flow : Live) : Nat := flow.order.refused

/-- Ending a flow refuses nothing. -/
theorem refused_close {flow : Live} (sound : flow.order.Sound) :
    flow.close.2.refused = flow.refused := by
  unfold refused
  rw [close_order, Reorder.refused_anchorAtEarliest sound]

end Live

namespace Connections

variable {state : Connections} {segment : TcpSegment} {now : Instant}

/-! ## What a segment does -/

/-- Whether a segment is handed to its flow: it is no reset, does not come too late, and
    is more than an acknowledgement to a flow that is not open. -/
def takes (state : Connections) (segment : TcpSegment) : Bool :=
  !segment.rst && (segment.syn || !state.closed.contains (Flow.ofSegment segment)) &&
    (state.live.contains (Flow.ofSegment segment) || !segment.payload.isEmpty || segment.syn ||
      segment.fin)

/-- What is counted when a segment is handed to its flow: the flow is opened, and the
    segment is dropped. -/
def notes (state : Connections) (segment : TcpSegment) (now : Instant) : List (Event × Nat) :=
  (if state.live.contains (Flow.ofSegment segment) then [] else [(.opened, 1)]) ++
    if (state.flowFor segment now).refused < (state.taken segment now).2.refused
    then [(.segmentDropped, 1)] else []

/-- All that a segment does: what it counts, and what it leaves. -/
inductive Turn (state : Connections) (segment : TcpSegment) (now : Instant) :
    List (Event × Nat) → Connections → Prop
  | reset (hrst : segment.rst = true) :
    Turn state segment now
      (if state.live.contains (Flow.ofSegment segment) then [(.reset, 1)] else [])
      { state with
        live := state.live.erase (Flow.ofSegment segment)
        closed := state.closed.set (Flow.ofSegment segment) now }
  | passed {events : List (Event × Nat)} (hrst : segment.rst = false)
      (htakes : state.takes segment = false) (hevents : events = [] ∨ events = [(.late, 1)]) :
    Turn state segment now events state
  | stays (hrst : segment.rst = false) (htakes : state.takes segment = true)
      (hopen : (state.taken segment now).2.order.isFinished = false) :
    Turn state segment now (state.notes segment now)
      { state with
        live := state.live.set (Flow.ofSegment segment) (state.taken segment now).2
        closed := state.closed.erase (Flow.ofSegment segment) }
  | completes (hrst : segment.rst = false) (htakes : state.takes segment = true)
      (hfinished : (state.taken segment now).2.order.isFinished = true) :
    Turn state segment now (state.notes segment now ++ [(.closed, 1)])
      { state with
        live := state.live.erase (Flow.ofSegment segment)
        closed := state.closed.set (Flow.ofSegment segment) now }

/-- Handing a segment to its flow after it was forgotten that the flow was closed. -/
theorem turn_of_deliver (now : Instant) (hrst : segment.rst = false)
    (htakes : state.takes segment = true) :
    Turn state segment now
      (deliver { state with closed := state.closed.erase (Flow.ofSegment segment) } segment
        now).1.events
      (deliver { state with closed := state.closed.erase (Flow.ofSegment segment) } segment
        now).2 := by
  rw [deliver_events, (deliver_eq _ segment now).2]
  -- whether the flow was closed does not matter to the flow
  have htaken : taken { state with closed := state.closed.erase (Flow.ofSegment segment) } segment
      now = state.taken segment now := rfl
  rw [htaken]
  cases hfinished : (state.taken segment now).2.order.isFinished with
  | true =>
    simp only [if_true, Table.set_erase]
    exact .completes hrst htakes hfinished
  | false =>
    simp only [Bool.false_eq_true, if_false, List.append_nil]
    exact .stays hrst htakes hfinished

theorem turn (state : Connections) (segment : TcpSegment) (now : Instant) :
    Turn state segment now (state.assemble segment now).1.events
      (state.assemble segment now).2 := by
  have hcases := assembling state segment now
  generalize state.assemble segment now = result at hcases ⊢
  cases hcases with
  | reset hrst => exact .reset hrst
  | late hrst hsyn hclosed => exact .passed hrst (by simp [takes, hsyn, hclosed]) (.inr rfl)
  | ignored hrst hsyn hclosed hlive hpayload hfin =>
    exact .passed hrst (by simp [takes, hsyn, hlive, hpayload, hfin]) (.inl rfl)
  | delivered hrst hopen hlive =>
    have htakes : state.takes segment = true := by
      rcases hopen with hsyn | hclosed
      · simp [takes, hrst, hsyn]
      · rcases hlive with hlive | hpayload | hsyn | hfin
        · simp [takes, hrst, hclosed, hlive]
        · simp [takes, hrst, hclosed, hpayload]
        · simp [takes, hrst, hsyn]
        · simp [takes, hrst, hclosed, hfin]
    have hturn := turn_of_deliver now hrst htakes
    cases hsyn : segment.syn with
    | true => exact hturn
    | false =>
      -- without a SYN the flow is not remembered as closed
      have hnone : state.closed.get? (Flow.ofSegment segment) = none := by
        rcases hopen with hsyn' | hclosed
        · exact absurd (hsyn'.symm.trans hsyn) (by decide)
        · exact Option.not_isSome_iff_eq_none.mp (ne_true_of_eq_false hclosed)
      rw [Table.erase_of_none hnone] at hturn
      exact hturn

/-! ## What is true at any time -/

/-- What is true of connections at any time. -/
structure Proper (state : Connections) : Prop where
  keyed : state.Keyed
  apart : ∀ flow, state.live.contains flow = true → state.closed.contains flow = false
  unfinished : ∀ entry ∈ state.live.entries, entry.2.order.isFinished = false
  sound : ∀ entry ∈ state.live.entries, entry.2.order.Sound

theorem proper_empty (capacity : Nat) : (empty capacity).Proper :=
  ⟨keyed_empty capacity, fun _ h => absurd h Bool.false_ne_true,
    fun _ h => absurd h List.not_mem_nil, fun _ h => absurd h List.not_mem_nil⟩

theorem Proper.flowFor_sound (proper : state.Proper) (segment : TcpSegment) (now : Instant) :
    (state.flowFor segment now).order.Sound := by
  unfold flowFor
  split
  · rename_i live hlive
    exact proper.sound _ (Table.mem_of_get? hlive)
  · exact Reorder.sound_empty state.capacity

theorem Proper.taken_sound (proper : state.Proper) (segment : TcpSegment) (now : Instant) :
    (state.taken segment now).2.order.Sound := by
  unfold taken
  rw [Live.take_order]
  exact (Reorder.stepped_push (proper.flowFor_sound segment now) _ _).sound

/-- Taking a segment refuses one segment at most, whatever is replayed. -/
theorem Proper.refused_taken (proper : state.Proper) (segment : TcpSegment) (now : Instant) :
    (state.taken segment now).2.refused =
      (state.flowFor segment now).refused +
        if (state.flowFor segment now).refused < (state.taken segment now).2.refused
        then 1 else 0 := by
  have hspares := Reorder.spares (proper.flowFor_sound segment now)
    (.push segment.syn (Live.arrivalOf segment))
  have hle : (state.flowFor segment now).refused ≤ (state.taken segment now).2.refused := by
    unfold Live.refused taken
    rw [Live.take_order]
    exact hspares.refused_le
  have hlt : (state.taken segment now).2.refused ≤ (state.flowFor segment now).refused + 1 := by
    unfold Live.refused taken
    rw [Live.take_order]
    exact hspares.refused_le_succ
  split <;> omega

theorem assemble_proper (proper : state.Proper) (segment : TcpSegment) (now : Instant) :
    (state.assemble segment now).2.Proper := by
  have hkeyed : (state.assemble segment now).2.Keyed :=
    perform_keyed proper.keyed (.segment segment now)
  have hturn := state.turn segment now
  generalize (state.assemble segment now).1.events = events at hturn
  generalize (state.assemble segment now).2 = after at hturn hkeyed ⊢
  -- a flow that is erased from the open ones leaves the others as they were
  have hothers : ∀ flow, (state.live.erase (Flow.ofSegment segment)).contains flow = true →
      (state.closed.set (Flow.ofSegment segment) now).contains flow = false := by
    intro flow hlive
    have hapart := proper.apart flow
    unfold Table.contains at hlive hapart ⊢
    rw [Table.get?_erase] at hlive
    rw [Table.get?_set]
    split at hlive
    · cases hlive
    · rename_i hne
      rw [if_neg hne]
      exact hapart hlive
  cases hturn with
  | reset hrst =>
    exact ⟨hkeyed, hothers, fun entry h => proper.unfinished entry (Table.mem_filter.mp h).1,
      fun entry h => proper.sound entry (Table.mem_filter.mp h).1⟩
  | passed hrst htakes hevents => exact proper
  | completes hrst htakes hfinished =>
    exact ⟨hkeyed, hothers, fun entry h => proper.unfinished entry (Table.mem_filter.mp h).1,
      fun entry h => proper.sound entry (Table.mem_filter.mp h).1⟩
  | stays hrst htakes hopen =>
    refine ⟨hkeyed, fun flow hlive => ?_, fun entry hentry => ?_, fun entry hentry => ?_⟩
    · have hapart := proper.apart flow
      unfold Table.contains at hlive hapart ⊢
      rw [Table.get?_set] at hlive
      rw [Table.get?_erase]
      split
      · rfl
      · rename_i hne
        rw [if_neg hne] at hlive
        exact hapart hlive
    · rcases Table.mem_set.mp hentry with ⟨hentry, _⟩ | rfl
      · exact proper.unfinished entry hentry
      · exact hopen
    · rcases Table.mem_set.mp hentry with ⟨hentry, _⟩ | rfl
      · exact proper.sound entry hentry
      · exact proper.taken_sound segment now

theorem perform_proper (proper : state.Proper) (input : Input) :
    (state.perform input).2.Proper := by
  cases input with
  | segment segment now => exact assemble_proper proper segment now
  | flushOlderThan cutoff =>
    refine ⟨perform_keyed proper.keyed (.flushOlderThan cutoff), fun flow hlive => ?_,
      fun entry h => proper.unfinished entry (Table.mem_filter.mp h).1,
      fun entry h => proper.sound entry (Table.mem_filter.mp h).1⟩
    have hclosed := proper.apart flow (Table.contains_filter hlive)
    exact Bool.eq_false_iff.mpr fun h => ne_true_of_eq_false hclosed (Table.contains_filter h)
  | flushAll => exact proper_empty state.capacity

theorem after_proper (proper : state.Proper) (inputs : List Input) :
    (state.after inputs).Proper := by
  induction inputs generalizing state with
  | nil => exact proper
  | cons input rest ih => exact ih (perform_proper proper input)

/-! ## Which flows leave -/

/-- The flows that leave with a step, each as it is when it leaves. -/
def leaving (state : Connections) : Input → List Live
  | .segment segment now =>
    if segment.rst then (state.live.get? (Flow.ofSegment segment)).toList
    else if state.takes segment && (state.taken segment now).2.order.isFinished then
      [(state.taken segment now).2]
    else []
  | .flushOlderThan cutoff =>
    (state.live.filter fun _ flow => flow.lastSeen < cutoff).entries.map fun entry =>
      entry.2.close.2
  | .flushAll => state.live.entries.map fun entry => entry.2.close.2

end Connections

end PassiveDns.Stream
