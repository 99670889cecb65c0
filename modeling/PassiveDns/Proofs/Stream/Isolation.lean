/-
  PassiveDns.Proofs.Stream.Isolation

  Flows do not touch one another. A segment changes nothing but its own flow, and
  the messages it yields are of that flow; what a flush yields is of the flows that
  it ends.
-/
import PassiveDns.Proofs.Table
import PassiveDns.Proofs.Stream.Cutting

namespace PassiveDns.Stream

/-! ## What the connections are told -/

/-- A step of the connections. -/
inductive Input where
  | segment (segment : TcpSegment) (now : Instant)
  | flushOlderThan (cutoff : Instant)
  | flushAll
deriving Repr, DecidableEq, Inhabited

namespace Input

/-- The segment that a step takes. -/
def segments : Input → List TcpSegment
  | segment s _ => [s]
  | flushOlderThan _ => []
  | flushAll => []

end Input

/-- The flow whose addresses and ports a message has. -/
def Flow.ofCarried (message : Carried) : Flow :=
  ⟨message.header.source, message.header.destination, message.sourcePort, message.destinationPort⟩

/-- The messages of a flow among all messages. -/
def messagesFor (flow : Flow) (messages : List Carried) : List Carried :=
  messages.filter fun m => Flow.ofCarried m = flow

/-- The segments of a flow among all that comes. -/
def segmentsFor (flow : Flow) (inputs : List Input) : List TcpSegment :=
  (inputs.flatMap Input.segments).filter fun s => Flow.ofSegment s = flow

/-- The flow whose addresses and ports an open flow has. -/
def Live.key (live : Live) : Flow :=
  ⟨live.header.source, live.header.destination, live.sourcePort, live.destinationPort⟩

namespace Connections

/-- One step. -/
def perform (state : Connections) : Input → Outcome × Connections
  | .segment segment now => state.assemble segment now
  | .flushOlderThan cutoff => state.flushOlderThan cutoff
  | .flushAll => state.flushAll

/-- The connections after some steps. -/
def after (state : Connections) (inputs : List Input) : Connections :=
  inputs.foldl (fun state input => (state.perform input).2) state

/-- All messages of some steps. -/
def messages (state : Connections) : List Input → List Carried
  | [] => []
  | input :: rest => (state.perform input).1.messages ++ (state.perform input).2.messages rest

theorem messages_append (state : Connections) (inputs more : List Input) :
    state.messages (inputs ++ more) =
      state.messages inputs ++ (state.after inputs).messages more := by
  induction inputs generalizing state with
  | nil => rfl
  | cons input rest ih =>
    rw [List.cons_append, messages, messages, ih, List.append_assoc]
    rfl

/-- Each open flow is kept under its own addresses and ports. -/
def Keyed (state : Connections) : Prop :=
  ∀ entry ∈ state.live.entries, entry.2.key = entry.1

theorem keyed_empty (capacity : Nat) : (empty capacity).Keyed :=
  fun _ h => absurd h List.not_mem_nil

end Connections

theorem messagesFor_append (flow : Flow) (a b : List Carried) :
    messagesFor flow (a ++ b) = messagesFor flow a ++ messagesFor flow b :=
  List.filter_append ..

theorem segmentsFor_append (flow : Flow) (a b : List Input) :
    segmentsFor flow (a ++ b) = segmentsFor flow a ++ segmentsFor flow b := by
  unfold segmentsFor
  rw [List.flatMap_append, List.filter_append]

/-- Messages that are all of one flow. -/
theorem messagesFor_of_all {flow : Flow} {messages : List Carried}
    (h : ∀ m ∈ messages, Flow.ofCarried m = flow) : messagesFor flow messages = messages :=
  List.filter_eq_self.mpr fun m hm => decide_eq_true (h m hm)

theorem messagesFor_of_none {flow : Flow} {messages : List Carried}
    (h : ∀ m ∈ messages, Flow.ofCarried m ≠ flow) : messagesFor flow messages = [] :=
  List.filter_eq_nil_iff.mpr fun m hm => by simpa using h m hm

/-! ## Messages are of the flow that yields them -/

namespace Live

theorem frame_key (flow : Live) (chunks : List Chunk) : (flow.frame chunks).2.key = flow.key := by
  induction chunks generalizing flow with
  | nil => rfl
  | cons chunk rest ih =>
    unfold frame
    exact ih _

theorem ofCarried_frame (flow : Live) (chunks : List Chunk) :
    ∀ m ∈ (flow.frame chunks).1, Flow.ofCarried m = flow.key := by
  induction chunks generalizing flow with
  | nil => exact fun _ h => absurd h List.not_mem_nil
  | cons chunk rest ih =>
    intro m hm
    unfold frame at hm
    rcases List.mem_append.mp hm with hm | hm
    · obtain ⟨payload, _, rfl⟩ := List.mem_map.mp hm
      rfl
    · exact ih { flow with framing := (flow.framing.push chunk.octets).2 } m hm

theorem take_key (flow : Live) (segment : TcpSegment) : (flow.take segment).2.key = flow.key :=
  frame_key _ _

theorem ofCarried_take (flow : Live) (segment : TcpSegment) :
    ∀ m ∈ (flow.take segment).1, Flow.ofCarried m = flow.key :=
  ofCarried_frame _ _

theorem ofCarried_close (flow : Live) : ∀ m ∈ flow.close.1, Flow.ofCarried m = flow.key :=
  ofCarried_frame _ _

end Live

namespace Connections

variable {state : Connections} {segment : TcpSegment} {now : Instant} {flow : Flow}

/-- The open flow to which a segment is handed. -/
def flowFor (state : Connections) (segment : TcpSegment) (now : Instant) : Live :=
  match state.live.get? (Flow.ofSegment segment) with
  | some live => live
  | none => .ofSegment state.capacity segment now

theorem flowFor_key (keyed : state.Keyed) :
    (state.flowFor segment now).key = Flow.ofSegment segment := by
  unfold flowFor
  split
  · rename_i live hlive
    exact keyed _ (Table.mem_of_get? hlive)
  · rfl

/-- The flow to which a segment is handed, after it took the segment. -/
def taken (state : Connections) (segment : TcpSegment) (now : Instant) : List Carried × Live :=
  { state.flowFor segment now with lastSeen := now }.take segment

theorem taken_key (keyed : state.Keyed) :
    (state.taken segment now).2.key = Flow.ofSegment segment :=
  (Live.take_key _ _).trans (flowFor_key keyed)

/-- What handing a segment to its flow does. -/
theorem deliver_eq (state : Connections) (segment : TcpSegment) (now : Instant) :
    (state.deliver segment now).1.messages = (state.taken segment now).1 ∧
    (state.deliver segment now).2 =
      if (state.taken segment now).2.order.isFinished then
        { state with
          live := state.live.erase (Flow.ofSegment segment)
          closed := state.closed.set (Flow.ofSegment segment) now }
      else
        { state with
          live := state.live.set (Flow.ofSegment segment) (state.taken segment now).2 } := by
  unfold deliver taken flowFor
  dsimp only
  -- the flow is new, or open already
  cases state.live.get? (Flow.ofSegment segment) with
  | none =>
    dsimp only
    generalize Live.take _ segment = result
    cases result.2.order.isFinished <;> exact ⟨rfl, rfl⟩
  | some live =>
    dsimp only
    generalize Live.take _ segment = result
    cases result.2.order.isFinished <;> exact ⟨rfl, rfl⟩

/-- What handing a segment to its flow counts: the flow is opened, the segment is dropped, and
    the flow is closed. -/
theorem deliver_events (state : Connections) (segment : TcpSegment) (now : Instant) :
    (state.deliver segment now).1.events =
      (if state.live.contains (Flow.ofSegment segment) then [] else [(.opened, 1)]) ++
        (if (state.flowFor segment now).order.refused <
            (state.taken segment now).2.order.refused then [(.segmentDropped, 1)] else []) ++
        if (state.taken segment now).2.order.isFinished then [(.closed, 1)] else [] := by
  unfold deliver taken flowFor Table.contains
  dsimp only
  cases state.live.get? (Flow.ofSegment segment) with
  | none =>
    dsimp only
    generalize Live.take _ segment = result
    cases result.2.order.isFinished with
    | true => rfl
    | false => exact (List.append_nil _).symm
  | some live =>
    dsimp only
    generalize Live.take _ segment = result
    cases result.2.order.isFinished with
    | true => rfl
    | false => exact (List.append_nil _).symm

/-- What becomes of a segment: it resets its flow, comes too late, opens nothing, or is
    handed to its flow. -/
inductive Assembling (state : Connections) (segment : TcpSegment) (now : Instant) :
    Outcome × Connections → Prop
  | reset (hrst : segment.rst = true) :
    Assembling state segment now (state.reset (Flow.ofSegment segment) now)
  | late (hrst : segment.rst = false) (hsyn : segment.syn = false)
      (hclosed : state.closed.contains (Flow.ofSegment segment) = true) :
    Assembling state segment now (⟨[], [(.late, 1)]⟩, state)
  | ignored (hrst : segment.rst = false) (hsyn : segment.syn = false)
      (hclosed : state.closed.contains (Flow.ofSegment segment) = false)
      (hlive : state.live.contains (Flow.ofSegment segment) = false)
      (hpayload : segment.payload.isEmpty = true) (hfin : segment.fin = false) :
    Assembling state segment now (⟨[], []⟩, state)
  | delivered (hrst : segment.rst = false)
      (hopen : segment.syn = true ∨ state.closed.contains (Flow.ofSegment segment) = false)
      (hlive : state.live.contains (Flow.ofSegment segment) = true ∨
        segment.payload.isEmpty = false ∨ segment.syn = true ∨ segment.fin = true) :
    Assembling state segment now
      ((if segment.syn then { state with closed := state.closed.erase (Flow.ofSegment segment) }
        else state).deliver segment now)

theorem assembling (state : Connections) (segment : TcpSegment) (now : Instant) :
    Assembling state segment now (state.assemble segment now) := by
  unfold assemble
  dsimp only
  -- the tests of `assemble`, in its order
  by_cases hrst : segment.rst = true
  · rw [if_pos hrst]
    exact .reset hrst
  · rw [if_neg hrst]
    replace hrst := eq_false_of_ne_true hrst
    by_cases hsyn : segment.syn = true
    · rw [hsyn]
      simp only [Bool.not_true, Bool.false_and, Bool.and_false, Bool.false_eq_true, if_false,
        if_true]
      have h : Assembling state segment now _ :=
        .delivered hrst (.inl hsyn) (.inr (.inr (.inl hsyn)))
      rw [if_pos hsyn] at h
      exact h
    · replace hsyn := eq_false_of_ne_true hsyn
      cases hclosed : state.closed.contains (Flow.ofSegment segment) with
      | true =>
        rw [hsyn]
        exact .late hrst hsyn hclosed
      | false =>
        rw [hsyn]
        simp only [Bool.not_false, Bool.true_and, Bool.and_true, Bool.false_eq_true, if_false]
        split
        · rename_i hignored
          simp only [Bool.and_eq_true, Bool.not_eq_true'] at hignored
          exact .ignored hrst hsyn hclosed hignored.1.1 hignored.1.2 hignored.2
        · rename_i hignored
          have h : Assembling state segment now _ :=
            .delivered hrst (.inr hclosed) (by
              -- one of the conditions for opening nothing fails
              cases hlive : state.live.contains (Flow.ofSegment segment) <;>
                cases hpayload : segment.payload.isEmpty <;>
                cases hfin : segment.fin <;> simp_all)
          rw [if_neg (by rw [hsyn]; exact Bool.false_ne_true)] at h
          exact h

/-! ## One step -/

theorem deliver_keyed (keyed : state.Keyed) : (state.deliver segment now).2.Keyed := by
  have hkey : (state.taken segment now).2.key = Flow.ofSegment segment := taken_key keyed
  rw [(deliver_eq state segment now).2]
  split
  · exact fun entry hentry => keyed entry (Table.mem_filter.mp hentry).1
  · intro entry hentry
    rcases Table.mem_set.mp hentry with ⟨hentry, _⟩ | rfl
    · exact keyed entry hentry
    · exact hkey

theorem perform_keyed (keyed : state.Keyed) (input : Input) : (state.perform input).2.Keyed := by
  cases input with
  | segment segment now =>
    have hcases := assembling state segment now
    show (state.assemble segment now).2.Keyed
    generalize state.assemble segment now = result at hcases ⊢
    cases hcases with
    | reset => exact fun entry hentry => keyed entry (Table.mem_filter.mp hentry).1
    | late => exact keyed
    | ignored => exact keyed
    | delivered =>
      -- a SYN first forgets that the flow was closed; this leaves the open flows alone
      refine deliver_keyed ?_
      split <;> exact keyed
  | flushOlderThan cutoff => exact fun entry hentry => keyed entry (Table.mem_filter.mp hentry).1
  | flushAll => exact keyed_empty _

theorem after_keyed (keyed : state.Keyed) (inputs : List Input) : (state.after inputs).Keyed := by
  induction inputs generalizing state with
  | nil => exact keyed
  | cons input rest ih => exact ih (perform_keyed keyed input)

theorem perform_capacity (state : Connections) (input : Input) :
    (state.perform input).2.capacity = state.capacity := by
  cases input with
  | segment segment now =>
    have hcases := assembling state segment now
    show (state.assemble segment now).2.capacity = _
    generalize state.assemble segment now = result at hcases ⊢
    cases hcases with
    | reset => rfl
    | late => rfl
    | ignored => rfl
    | delivered =>
      rw [(deliver_eq _ segment now).2]
      split <;> split <;> rfl
  | flushOlderThan cutoff => rfl
  | flushAll => rfl

/-- What a segment yields is of its own flow. -/
theorem ofCarried_assemble (keyed : state.Keyed) :
    ∀ m ∈ (state.assemble segment now).1.messages, Flow.ofCarried m = Flow.ofSegment segment := by
  have hcases := assembling state segment now
  generalize state.assemble segment now = result at hcases ⊢
  cases hcases with
  | reset => exact fun _ h => absurd h List.not_mem_nil
  | late => exact fun _ h => absurd h List.not_mem_nil
  | ignored => exact fun _ h => absurd h List.not_mem_nil
  | delivered =>
    rw [(deliver_eq _ segment now).1]
    intro m hm
    have hkeyed : (if segment.syn then
        { state with closed := state.closed.erase (Flow.ofSegment segment) } else state).Keyed := by
      split <;> exact keyed
    exact (Live.ofCarried_take _ _ m hm).trans (flowFor_key hkeyed)

/-- A segment changes nothing but its own flow. -/
theorem assemble_other (hne : Flow.ofSegment segment ≠ flow) :
    (state.assemble segment now).2.live.get? flow = state.live.get? flow ∧
      (state.assemble segment now).2.closed.get? flow = state.closed.get? flow := by
  have hcases := assembling state segment now
  generalize state.assemble segment now = result at hcases ⊢
  cases hcases with
  | reset => simp [reset, hne.symm]
  | late => exact ⟨rfl, rfl⟩
  | ignored => exact ⟨rfl, rfl⟩
  | delivered =>
    rw [(deliver_eq _ segment now).2]
    split <;> split <;> simp [hne.symm]

/-- What is left of flows that end is of these flows. -/
theorem messagesFor_closeAll (flow : Flow) {entries : List (Flow × Live)}
    (keyed : ∀ entry ∈ entries, entry.2.key = entry.1)
    (distinct : (entries.map Prod.fst).Nodup) :
    ((∀ entry ∈ entries, entry.1 ≠ flow) → messagesFor flow (closeAll entries).messages = []) ∧
    ∀ live, (flow, live) ∈ entries →
      messagesFor flow (closeAll entries).messages = live.close.1 := by
  have hmessages : (closeAll entries).messages = entries.flatMap fun entry => entry.2.close.1 := by
    show (entries.map _).flatMap _ = _
    rw [List.flatMap_map]
  rw [hmessages]
  -- keys are distinct, so one entry at most is of the flow
  clear hmessages
  induction entries with
  | nil => exact ⟨fun _ => rfl, fun _ h => absurd h List.not_mem_nil⟩
  | cons entry rest ih =>
    rw [List.map_cons, List.nodup_cons] at distinct
    obtain ⟨hnone, hsome⟩ := ih (fun e he => keyed e (List.mem_cons_of_mem _ he)) distinct.2
    have hkey := keyed entry (List.mem_cons_self ..)
    have hentry : ∀ m ∈ entry.2.close.1, Flow.ofCarried m = entry.1 := fun m hm =>
      (Live.ofCarried_close _ m hm).trans hkey
    rw [List.flatMap_cons, messagesFor_append]
    refine ⟨fun hne => ?_, fun live hlive => ?_⟩
    · rw [messagesFor_of_none, hnone fun e he => hne e (List.mem_cons_of_mem _ he)]
      · rfl
      · exact fun m hm heq => hne entry (List.mem_cons_self ..) ((hentry m hm).symm.trans heq)
    · rcases List.mem_cons.mp hlive with rfl | hrest
      · rw [messagesFor_of_all hentry, hnone, List.append_nil]
        intro e he heq
        exact distinct.1 (List.mem_map.mpr ⟨e, he, heq⟩)
      · rw [messagesFor_of_none, hsome live hrest]
        · rfl
        · intro m hm heq
          have : entry.1 = flow := (hentry m hm).symm.trans heq
          exact distinct.1 (this ▸ List.mem_map_of_mem hrest)

/-- A step that is no segment of a flow, leaves the flow as it is, and yields nothing of
    it. -/
def Spares (state : Connections) (flow : Flow) (input : Input) : Prop :=
  (state.perform input).2.live.get? flow = state.live.get? flow ∧
    (state.perform input).2.closed.get? flow = state.closed.get? flow

/-- A flush that leaves a flow as it is yields nothing of it. -/
theorem messagesFor_flush (keyed : state.Keyed) {input : Input} (hflush : input.segments = [])
    (hspares : state.Spares flow input) :
    messagesFor flow (state.perform input).1.messages = [] := by
  cases input with
  | segment segment now => cases hflush
  | flushOlderThan cutoff =>
    refine (messagesFor_closeAll flow ?_ (state.live.filter _).distinct).1 ?_
    · exact fun entry hentry => keyed entry (Table.mem_filter.mp hentry).1
    · intro entry hentry heq
      obtain ⟨hmem, hstale⟩ := Table.mem_filter.mp hentry
      -- an entry that is ended is older than the cutoff, one that is kept is not
      have hbefore : state.live.get? flow = some entry.2 := Table.get?_of_mem (heq ▸ hmem)
      have hafter := hspares.1
      rw [hbefore] at hafter
      obtain ⟨_, hkept⟩ := Table.mem_filter.mp (Table.mem_of_get? hafter)
      exact absurd (of_decide_eq_true hkept) (Nat.not_le_of_lt (of_decide_eq_true hstale))
  | flushAll =>
    refine (messagesFor_closeAll flow keyed state.live.distinct).1 ?_
    -- nothing is open after this flush, so the flow was not open before
    have hbefore : state.live.get? flow = none := hspares.1.symm.trans (Table.get?_empty flow)
    exact Table.get?_eq_none_iff.mp hbefore

/-- A flush that ends a flow yields what the flow still can give. -/
theorem messagesFor_flush_of_live (keyed : state.Keyed) {input : Input}
    (hflush : input.segments = []) {live : Live} (hlive : state.live.get? flow = some live)
    (hends : (state.perform input).2.live.get? flow = none) :
    messagesFor flow (state.perform input).1.messages = live.close.1 := by
  have hmem := Table.mem_of_get? hlive
  cases input with
  | segment segment now => cases hflush
  | flushOlderThan cutoff =>
    refine (messagesFor_closeAll flow ?_ (state.live.filter _).distinct).2 live ?_
    · exact fun entry hentry => keyed entry (Table.mem_filter.mp hentry).1
    · refine Table.mem_filter.mpr ⟨hmem, ?_⟩
      -- if it were fresh it would be kept
      by_contra hfresh
      have hkept : (flow, live) ∈
          (state.live.filter fun _ flow => cutoff ≤ flow.lastSeen).entries := by
        refine Table.mem_filter.mpr ⟨hmem, decide_eq_true (Nat.le_of_not_lt fun hlt => ?_)⟩
        exact hfresh (decide_eq_true hlt)
      have hsome := Table.get?_of_mem hkept
      rw [show (state.live.filter fun _ flow => cutoff ≤ flow.lastSeen).get? flow = none from hends]
        at hsome
      cases hsome
  | flushAll => exact (messagesFor_closeAll flow keyed state.live.distinct).2 live hmem

/-- A flush yields nothing of a flow that is not open. -/
theorem messagesFor_flush_of_none (keyed : state.Keyed) {input : Input}
    (hflush : input.segments = []) (hlive : state.live.get? flow = none) :
    messagesFor flow (state.perform input).1.messages = [] := by
  have hnone := Table.get?_eq_none_iff.mp hlive
  cases input with
  | segment segment now => cases hflush
  | flushOlderThan cutoff =>
    refine (messagesFor_closeAll flow ?_ (state.live.filter _).distinct).1 ?_
    · exact fun entry hentry => keyed entry (Table.mem_filter.mp hentry).1
    · exact fun entry hentry => hnone entry (Table.mem_filter.mp hentry).1
  | flushAll => exact (messagesFor_closeAll flow keyed state.live.distinct).1 hnone

end Connections

end PassiveDns.Stream
