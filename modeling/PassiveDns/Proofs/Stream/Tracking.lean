/-
  PassiveDns.Proofs.Stream.Tracking

  The connections follow the stream of a flow. `Follows` relates what they keep of
  a flow to the session of the segments that came for it: the flow is not open yet,
  or it is open with the order and the cutting of that session, or it was closed
  when the session was finished. Every step keeps this.
-/
import PassiveDns.Proofs.Stream.Delivered
import PassiveDns.Proofs.Stream.Isolation

namespace PassiveDns.Stream

variable {stream : Octets} {isn : UInt32} {capacity : Nat}

/-! ## The segments of one stream -/

/-- The slice that a segment carries of a stream whose SYN has the sequence number
    `isn`. -/
def Slice.ofSegment (isn : UInt32) (segment : TcpSegment) : Slice :=
  ⟨if segment.syn then 0 else (segment.sequence - (isn + 1)).toNat, segment.payload.length,
    segment.syn, segment.fin, segment.time⟩

/-- A segment carries a slice of a stream: it is no reset, its octets are those of the
    stream at an offset below 2^31, and if it ends the stream it reaches its end. -/
structure Carries (stream : Octets) (isn : UInt32) (segment : TcpSegment) : Prop where
  rst : segment.rst = false
  syn : segment.syn = true → segment.sequence = isn
  near : (Slice.ofSegment isn segment).offset < halfCircle
  stop_near : (Slice.ofSegment isn segment).stop ≤ halfCircle
  stop_le : (Slice.ofSegment isn segment).stop ≤ stream.length
  payload : segment.payload = (Slice.ofSegment isn segment).octets stream
  fin : segment.fin = true → (Slice.ofSegment isn segment).stop = stream.length

instance (stream : Octets) (isn : UInt32) (segment : TcpSegment) :
    Decidable (Carries stream isn segment) :=
  decidable_of_iff
    (segment.rst = false ∧ (segment.syn = true → segment.sequence = isn) ∧
      (Slice.ofSegment isn segment).offset < halfCircle ∧
      (Slice.ofSegment isn segment).stop ≤ halfCircle ∧
      (Slice.ofSegment isn segment).stop ≤ stream.length ∧
      segment.payload = (Slice.ofSegment isn segment).octets stream ∧
      (segment.fin = true → (Slice.ofSegment isn segment).stop = stream.length))
    ⟨fun ⟨h1, h2, h3, h4, h5, h6, h7⟩ => ⟨h1, h2, h3, h4, h5, h6, h7⟩,
      fun ⟨h1, h2, h3, h4, h5, h6, h7⟩ => ⟨h1, h2, h3, h4, h5, h6, h7⟩⟩

namespace Carries

variable {segment : TcpSegment}

theorem isOf (h : Carries stream isn segment) : (Slice.ofSegment isn segment).IsOf stream :=
  ⟨h.stop_le, fun hsyn => if_pos hsyn⟩

/-- The slice stands for the segment as the stream takes it. -/
theorem arrival_eq (h : Carries stream isn segment) :
    (Slice.ofSegment isn segment).arrival stream isn =
      ⟨segment.sequence, segment.fin, segment.payload, segment.time⟩ := by
  -- the sequence number of a SYN is `isn`; any other one gives the offset back
  have hsequence : (if segment.syn then isn
      else isn + 1 + UInt32.ofNat (Slice.ofSegment isn segment).offset) = segment.sequence := by
    cases hsyn : segment.syn with
    | true => exact (h.syn hsyn).symm
    | false =>
      have hoffset : (Slice.ofSegment isn segment).offset = (segment.sequence - (isn + 1)).toNat :=
        if_neg (by rw [hsyn]; exact Bool.false_ne_true)
      rw [hoffset, UInt32.ofNat_toNat, UInt32.add_comm (isn + 1), UInt32.sub_add_cancel]
      rfl
  have hpayload := h.payload
  unfold Slice.arrival
  rw [← hpayload]
  show (⟨if segment.syn then isn else _, segment.fin, _⟩ : Arrival) = _
  rw [hsequence]
  rfl

end Carries

/-- The slices of segments. -/
def slicesOf (isn : UInt32) (own : List TcpSegment) : List Slice :=
  own.map (Slice.ofSegment isn)

/-- The calls that segments make to their stream. -/
def callsOf (isn : UInt32) (own : List TcpSegment) : List Call :=
  (slicesOf isn own).map Call.push

/-- The session of a stream to which segments came. -/
def sessionOf (stream : Octets) (isn : UInt32) (capacity : Nat) (own : List TcpSegment) : Session :=
  (Session.start capacity).run stream isn (callsOf isn own)

theorem slicesOf_append (isn : UInt32) (own more : List TcpSegment) :
    slicesOf isn (own ++ more) = slicesOf isn own ++ slicesOf isn more :=
  List.map_append

theorem callsOf_append (isn : UInt32) (own more : List TcpSegment) :
    callsOf isn (own ++ more) = callsOf isn own ++ callsOf isn more := by
  unfold callsOf
  rw [slicesOf_append, List.map_append]

theorem slices_callsOf (isn : UInt32) (own : List TcpSegment) :
    (callsOf isn own).flatMap Call.slices = slicesOf isn own := by
  unfold callsOf
  rw [List.flatMap_map]
  exact List.flatMap_singleton' _

theorem sessionOf_append (stream : Octets) (isn : UInt32) (capacity : Nat) (own : List TcpSegment)
    (segment : TcpSegment) :
    sessionOf stream isn capacity (own ++ [segment]) =
      (sessionOf stream isn capacity own).step stream isn (.push (.ofSegment isn segment)) := by
  unfold sessionOf
  rw [callsOf_append, Session.run_append]
  rfl

theorem sessionOf_pushed (stream : Octets) (isn : UInt32) (capacity : Nat) (own : List TcpSegment) :
    (sessionOf stream isn capacity own).pushed = slicesOf isn own := by
  unfold sessionOf
  rw [Session.run_pushed, slices_callsOf]
  rfl

/-- Segments of a short stream fit, and so does a flush after them. -/
theorem fits_callsOf {own : List TcpSegment} (hshort : stream.length ≤ halfCircle)
    (hown : ∀ s ∈ own, Carries stream isn s) (capacity : Nat) :
    (Session.start capacity).Fits stream isn (callsOf isn own ++ [.anchor]) := by
  -- the flush has no slice of its own
  have hslices : (callsOf isn own ++ [Call.anchor]).flatMap Call.slices = slicesOf isn own := by
    rw [List.flatMap_append, slices_callsOf]
    exact List.append_nil _
  refine Session.fits_of_short isn capacity hshort ?_ ?_
  · rw [hslices]
    intro slice hslice
    obtain ⟨s, hs, rfl⟩ := List.mem_map.mp hslice
    exact (hown s hs).isOf
  · rw [hslices]
    intro slice hslice
    obtain ⟨s, hs, rfl⟩ := List.mem_map.mp hslice
    exact (hown s hs).near

/-- The session of some segments holds, or it started where `startOf` says. -/
theorem sessionOf_cases {own : List TcpSegment} (hshort : stream.length ≤ halfCircle)
    (hown : ∀ s ∈ own, Carries stream isn s) (capacity : Nat) :
    (startOf capacity [] (callsOf isn own) = none ∧
      (sessionOf stream isn capacity own).Holding stream isn capacity) ∨
    ∃ anchor, startOf capacity [] (callsOf isn own) = some anchor ∧
      (sessionOf stream isn capacity own).Started stream isn capacity anchor :=
  (Session.holding_start stream isn capacity).run_cases
    ((Session.fits_append ..).mp (fits_callsOf hshort hown capacity)).1

/-! ## An open flow and its session -/

/-- What an open flow keeps is what the session of its stream keeps. -/
structure Live.Mirrors (live : Live) (session : Session) : Prop where
  order : live.order = session.order
  framing : live.framing = .ofRest (split (joined session.output)).2

/-- What an open flow makes of a call to its stream. -/
structure Live.Called (live : Live) (stream : Octets) (isn : UInt32) (session : Session)
    (call : Call) (result : List Carried × Live) : Prop where
  payloads : messagesOf (joined (session.step stream isn call).output) =
    messagesOf (joined session.output) ++ result.1.map Carried.payload
  mirrors : result.2.Mirrors (session.step stream isn call)
  header : result.2.header = live.header
  sent : ∀ m ∈ result.1, m.header = live.header ∧
    ∃ chunk ∈ (session.step stream isn call).output, m.time = chunk.time

theorem Live.Mirrors.call {live : Live} {session : Session} (h : live.Mirrors session)
    (call : Call) :
    live.Called stream isn session call
      ({ live with order := (call.perform stream isn live.order).2 }.frame
        (call.perform stream isn live.order).1) := by
  have framed := Live.frame_spec { live with order := (call.perform stream isn live.order).2 }
    (split (joined session.output)).2 (call.perform stream isn live.order).1 h.framing
    (split_left _)
  have hoffer : joined (session.step stream isn call).output =
      joined session.output ++ joined (call.perform stream isn live.order).1 := by
    rw [Session.step_output, joined_append, h.order]
  -- the cutting goes on where it stopped, so nothing is cut anew
  have hsplit := split_append (joined session.output)
    (joined (call.perform stream isn live.order).1)
  rw [← hoffer] at hsplit
  refine ⟨?_, ⟨?_, ?_⟩, ?_, ?_⟩
  · unfold messagesOf
    rw [hsplit, framed.payloads]
  · rw [framed.framing, h.order]
    rfl
  · rw [framed.framing, hsplit]
  · rw [framed.framing]
  · intro m hm
    obtain ⟨chunk, hchunk, heq⟩ := framed.sent m hm
    refine ⟨by rw [heq]; rfl, chunk, ?_, by rw [heq]; rfl⟩
    rw [Session.step_output, ← h.order]
    exact List.mem_append_right _ hchunk

theorem Live.Mirrors.take {live : Live} {session : Session} (h : live.Mirrors session)
    {segment : TcpSegment} (carries : Carries stream isn segment) (now : Instant) :
    live.Called stream isn session (.push (.ofSegment isn segment))
      ({ live with lastSeen := now }.take segment) := by
  have hmirrors : Live.Mirrors { live with lastSeen := now } session := ⟨h.order, h.framing⟩
  have hcalled : Live.Called _ stream isn session (.push (.ofSegment isn segment)) _ :=
    hmirrors.call _
  have hperform : Call.perform stream isn live.order (.push (.ofSegment isn segment)) =
      live.order.push segment.syn
        ⟨segment.sequence, segment.fin, segment.payload, segment.time⟩ := by
    rw [← carries.arrival_eq]
    rfl
  have htake : { live with lastSeen := now }.take segment =
      { { live with lastSeen := now } with
        order := (Call.perform stream isn live.order (.push (.ofSegment isn segment))).2 }.frame
        (Call.perform stream isn live.order (.push (.ofSegment isn segment))).1 := by
    rw [hperform]
    rfl
  rw [htake]
  exact ⟨hcalled.payloads, hcalled.mirrors, hcalled.header, hcalled.sent⟩

theorem Live.Mirrors.close {live : Live} {session : Session} (h : live.Mirrors session) :
    live.Called stream isn session .anchor live.close :=
  h.call .anchor

/-! ## The connections and the session of a flow -/

/-- What the connections keep of a flow, after its segments `own` came and its messages
    `sent` were given: nothing yet, or the flow is open and mirrors the session of its
    segments, or it was closed when that session was finished. -/
inductive Phase (stream : Octets) (isn : UInt32) (capacity : Nat) (flow : Flow)
    (state : Connections) (own : List TcpSegment) (sent : List Carried) : Prop
  | unopened (hlive : state.live.get? flow = none) (hclosed : state.closed.get? flow = none)
    (hheld : heldOf (slicesOf isn own) = []) (hsyn : ∀ s ∈ own, s.syn = false)
    (hsent : sent = [])
  | opened (live : Live) (hlive : state.live.get? flow = some live)
    (hclosed : state.closed.get? flow = none)
    (hmirrors : live.Mirrors (sessionOf stream isn capacity own))
    (hheader : live.header ∈ own.map TcpSegment.header)
    (hunfinished : (sessionOf stream isn capacity own).order.isFinished = false)
    (htaken : (sessionOf stream isn capacity own).taken = slicesOf isn own)
    (hsent : sent.map Carried.payload =
      messagesOf (joined (sessionOf stream isn capacity own).output))
  | closed (early : List TcpSegment) (hearly : early <+: own)
    (hlive : state.live.get? flow = none) (hclosed : state.closed.contains flow = true)
    (hfinished : (sessionOf stream isn capacity early).order.isFinished = true)
    (htaken : (sessionOf stream isn capacity early).taken = slicesOf isn early)
    (hsent : sent.map Carried.payload =
      messagesOf (joined (sessionOf stream isn capacity early).output))

/-- Each message has the header of a segment, and the time of one. -/
def Stamped (own : List TcpSegment) (sent : List Carried) : Prop :=
  ∀ m ∈ sent, m.header ∈ own.map TcpSegment.header ∧ m.time ∈ own.map TcpSegment.time

theorem Stamped.mono {own more : List TcpSegment} {sent : List Carried} (h : Stamped own sent) :
    Stamped (own ++ more) sent := by
  intro m hm
  obtain ⟨hheader, htime⟩ := h m hm
  rw [List.map_append, List.map_append]
  exact ⟨List.mem_append_left _ hheader, List.mem_append_left _ htime⟩

theorem Stamped.append {own : List TcpSegment} {sent more : List Carried} (h : Stamped own sent)
    (h' : Stamped own more) : Stamped own (sent ++ more) := by
  intro m hm
  rcases List.mem_append.mp hm with hm | hm
  · exact h m hm
  · exact h' m hm

/-- The connections follow the stream of a flow. -/
structure Follows (stream : Octets) (isn : UInt32) (capacity : Nat) (flow : Flow)
    (state : Connections) (own : List TcpSegment) (sent : List Carried) : Prop where
  phase : Phase stream isn capacity flow state own sent
  stamped : Stamped own sent

theorem follows_nil {flow : Flow} {state : Connections} (hlive : state.live.get? flow = none)
    (hclosed : state.closed.get? flow = none) :
    Follows stream isn capacity flow state [] [] :=
  ⟨.unopened hlive hclosed rfl (fun _ h => absurd h List.not_mem_nil) rfl,
    fun _ h => absurd h List.not_mem_nil⟩

/-- What other steps do to the connections does not matter. -/
theorem Phase.congr {flow : Flow} {state other : Connections} {own : List TcpSegment}
    {sent : List Carried} (h : Phase stream isn capacity flow state own sent)
    (hlive : other.live.get? flow = state.live.get? flow)
    (hclosed : other.closed.get? flow = state.closed.get? flow) :
    Phase stream isn capacity flow other own sent := by
  cases h with
  | unopened hl hc hheld hsyn hsent =>
    exact .unopened (hlive.trans hl) (hclosed.trans hc) hheld hsyn hsent
  | opened live hl hc hmirrors hheader hunfinished htaken hsent =>
    exact .opened live (hlive.trans hl) (hclosed.trans hc) hmirrors hheader hunfinished htaken hsent
  | closed early hearly hl hc hfinished htaken hsent =>
    refine .closed early hearly (hlive.trans hl) ?_ hfinished htaken hsent
    rw [Table.contains, hclosed]
    exact hc

/-- The chunks that a session gave have times of its segments. -/
theorem sessionOf_times {own : List TcpSegment} (hshort : stream.length ≤ halfCircle)
    (hown : ∀ s ∈ own, Carries stream isn s) {chunk : Chunk}
    (hchunk : chunk ∈ (sessionOf stream isn capacity own).output) :
    chunk.time ∈ own.map TcpSegment.time := by
  rcases sessionOf_cases hshort hown capacity with ⟨_, h⟩ | ⟨anchor, _, h⟩
  · rw [h.output] at hchunk
    cases hchunk
  · have htime := h.times chunk hchunk
    rw [sessionOf_pushed, slicesOf, List.map_map] at htime
    exact htime

/-- Segments without a SYN that all may be held are only held. -/
theorem holding_of_few (capacity : Nat) {own : List TcpSegment}
    (hshort : stream.length ≤ halfCircle)
    (hown : ∀ s ∈ own, Carries stream isn s) (hsyn : ∀ s ∈ own, s.syn = false)
    (hroom : (heldOf (slicesOf isn own)).length ≤ capacity) :
    (sessionOf stream isn capacity own).Holding stream isn capacity := by
  have hclosed : ∀ slice ∈ slicesOf isn own, slice.syn = false := by
    intro slice hslice
    obtain ⟨s, hs, rfl⟩ := List.mem_map.mp hslice
    exact hsyn s hs
  -- as long as there is room only a SYN starts a stream
  have hstart : startOf capacity [] ((slicesOf isn own).map Call.push ++ []) =
      startOf capacity ([] ++ heldOf (slicesOf isn own)) [] :=
    Session.startOf_of_few hclosed hroom []
  rw [List.append_nil] at hstart
  rcases sessionOf_cases hshort hown capacity with ⟨_, h⟩ | ⟨anchor, hsome, _⟩
  · exact h
  · exact absurd (hstart.symm.trans hsome) (by simp [startOf])

/-- What a stream refused is not forgotten. -/
theorem sessionOf_refused_le (capacity : Nat) {own : List TcpSegment} {segment : TcpSegment}
    (hshort : stream.length ≤ halfCircle) (hown : ∀ s ∈ own ++ [segment], Carries stream isn s) :
    (sessionOf stream isn capacity own).order.refused ≤
      (sessionOf stream isn capacity (own ++ [segment])).order.refused := by
  rw [sessionOf_append]
  rcases sessionOf_cases hshort (fun s hs => hown s (List.mem_append_left _ hs)) capacity with
    ⟨_, h⟩ | ⟨anchor, _, h⟩
  · rw [h.order]
    exact Nat.zero_le _
  · have hcarries := hown segment (List.mem_append_right _ (List.mem_singleton_self _))
    exact h.refused_le (h.fitsCall_of_short hshort
      (fun slice hslice => List.mem_singleton.mp hslice ▸ hcarries.isOf)
      (fun slice hslice => List.mem_singleton.mp hslice ▸ hcarries.near))

/-- What has to hold of a further segment of a stream: it carries a part of it, a SYN is
    the first one and comes while the stream still holds, and nothing is refused while the
    flow was not closed. -/
structure Admits (stream : Octets) (isn : UInt32) (capacity : Nat) (flow : Flow)
    (state : Connections) (own : List TcpSegment) (segment : TcpSegment) : Prop where
  carries : Carries stream isn segment
  syn : segment.syn = true →
    (∀ s ∈ own, s.syn = false) ∧ (heldOf (slicesOf isn own)).length ≤ capacity
  taken : state.closed.get? flow = none →
    (sessionOf stream isn capacity (own ++ [segment])).taken = slicesOf isn (own ++ [segment])

variable {flow : Flow} {state : Connections} {own : List TcpSegment} {sent : List Carried}
  {segment : TcpSegment} {now : Instant}

/-- The SYN does not come after the flow was closed. -/
theorem Admits.not_syn (h : Admits stream isn capacity flow state own segment)
    (hshort : stream.length ≤ halfCircle) (hown : ∀ s ∈ own, Carries stream isn s)
    {early : List TcpSegment} (hearly : early <+: own)
    (hfinished : (sessionOf stream isn capacity early).order.isFinished = true) :
    segment.syn = false := by
  by_contra hsyn
  obtain ⟨hclosed, hroom⟩ := h.syn (eq_true_of_ne_false hsyn)
  obtain ⟨rest, rfl⟩ := hearly
  -- a SYN may come only while the stream holds, and then it cannot have ended
  have hfew : (heldOf (slicesOf isn early)).length ≤ capacity := by
    rw [slicesOf_append] at hroom
    exact Session.length_heldOf_le hroom
  have hunfinished := (holding_of_few capacity hshort
    (fun s hs => hown s (List.mem_append_left _ hs))
    (fun s hs => hclosed s (List.mem_append_left _ hs)) hfew).isFinished
  rw [hfinished] at hunfinished
  cases hunfinished

/-- A segment that is handed to its flow: the flow goes on to mirror its session, or it is
    closed because the session is finished. -/
theorem follows_deliver (hshort : stream.length ≤ halfCircle)
    (hown : ∀ s ∈ own ++ [segment], Carries stream isn s)
    (hflow : Flow.ofSegment segment = flow)
    (hclosed : state.closed.get? flow = none)
    (hmirrors : (state.flowFor segment now).Mirrors (sessionOf stream isn capacity own))
    (hheader : (state.flowFor segment now).header ∈ (own ++ [segment]).map TcpSegment.header)
    (hsent : sent.map Carried.payload =
      messagesOf (joined (sessionOf stream isn capacity own).output))
    (htaken : (sessionOf stream isn capacity (own ++ [segment])).taken =
      slicesOf isn (own ++ [segment])) (hstamped : Stamped own sent) :
    Follows stream isn capacity flow (state.deliver segment now).2 (own ++ [segment])
      (sent ++ (state.deliver segment now).1.messages) := by
  have hcarries := hown segment (List.mem_append_right _ (List.mem_singleton_self _))
  obtain ⟨hmessages, hafter⟩ := Connections.deliver_eq state segment now
  have called : Live.Called _ stream isn (sessionOf stream isn capacity own) _
      (state.taken segment now) := hmirrors.take hcarries now
  rw [hmessages, hafter]
  -- what was sent before and what is sent now are the messages of one output
  have hpayloads : (sent ++ (state.taken segment now).1).map Carried.payload =
      messagesOf (joined (sessionOf stream isn capacity (own ++ [segment])).output) := by
    rw [List.map_append, hsent, sessionOf_append, called.payloads]
  refine ⟨?_, hstamped.mono.append fun m hm => ?_⟩
  · have hmirrored : (state.taken segment now).2.Mirrors
        (sessionOf stream isn capacity (own ++ [segment])) := by
      rw [sessionOf_append]
      exact called.mirrors
    rw [hflow]
    -- a flow that is finished is closed in this very call, any other stays open
    by_cases hfinished : (state.taken segment now).2.order.isFinished = true
    · rw [if_pos hfinished]
      refine .closed (own ++ [segment]) (List.prefix_refl _) ?_ ?_ ?_ htaken hpayloads
      · simp
      · simp [Table.contains]
      · rw [← hmirrored.order]
        exact hfinished
    · rw [if_neg hfinished]
      refine .opened (state.taken segment now).2 ?_ hclosed hmirrored ?_ ?_ htaken hpayloads
      · simp
      · rw [called.header]
        exact hheader
      · rw [← hmirrored.order]
        exact eq_false_of_ne_true hfinished
  · obtain ⟨hm, chunk, hchunk, htime⟩ := called.sent m hm
    rw [← sessionOf_append] at hchunk
    exact ⟨hm ▸ hheader, htime ▸ sessionOf_times hshort hown hchunk⟩

/-- Before a flow was closed, the flow to which its next segment is handed mirrors the
    session of those that came. -/
theorem Phase.ready (h : Phase stream isn capacity flow state own sent)
    (hclosed : state.closed.get? flow = none) (hcapacity : state.capacity = capacity)
    (hshort : stream.length ≤ halfCircle) (hown : ∀ s ∈ own, Carries stream isn s)
    (hflow : Flow.ofSegment segment = flow) (now : Instant) :
    (state.flowFor segment now).Mirrors (sessionOf stream isn capacity own) ∧
      (state.flowFor segment now).header ∈ (own ++ [segment]).map TcpSegment.header ∧
      sent.map Carried.payload =
        messagesOf (joined (sessionOf stream isn capacity own).output) ∧
      (sessionOf stream isn capacity own).taken = slicesOf isn own := by
  cases h with
  | unopened hlive _ hheld hsyn hsent =>
    have hholding := holding_of_few capacity hshort hown hsyn (by rw [hheld]; exact Nat.zero_le _)
    -- a flow that was not open is made now, and starts as its session did
    have hfresh : state.flowFor segment now = .ofSegment capacity segment now := by
      unfold Connections.flowFor
      rw [hflow, hlive, hcapacity]
    have hnothing : (sessionOf stream isn capacity own).output = [] := hholding.output
    have hleft : split (joined []) = ([], []) := split_short (by simp [joined])
    rw [hfresh, hnothing]
    refine ⟨⟨?_, ?_⟩, ?_, ?_, ?_⟩
    · rw [hholding.order, sessionOf_pushed, hheld]
      rfl
    · rw [hnothing, hleft]
      rfl
    · rw [List.map_append]
      exact List.mem_append_right _ (List.mem_singleton_self _)
    · rw [hsent, messagesOf, hleft]
      rfl
    · rw [hholding.taken, sessionOf_pushed]
  | opened live hlive _ hmirrors hheader _ htaken hsent =>
    -- a flow that is open is the one that mirrors its session
    have hsame : state.flowFor segment now = live := by
      unfold Connections.flowFor
      rw [hflow, hlive]
    rw [hsame, List.map_append]
    exact ⟨hmirrors, List.mem_append_left _ hheader, hsent, htaken⟩
  | closed _ _ _ hcontains _ _ _ =>
    rw [Table.contains, hclosed] at hcontains
    cases hcontains

/-- A bare acknowledgement adds nothing to what is held. -/
theorem heldOf_ignored (isn : UInt32) (hpayload : segment.payload.isEmpty = true)
    (hfin : segment.fin = false) :
    heldOf (slicesOf isn (own ++ [segment])) = heldOf (slicesOf isn own) := by
  have hempty : segment.payload.length = 0 :=
    List.length_eq_zero_iff.mpr (List.isEmpty_iff.mp hpayload)
  have hcounts : (Slice.ofSegment isn segment).counts = false := by
    show (decide (0 < segment.payload.length) || segment.fin) = false
    rw [hempty, hfin]
    rfl
  rw [slicesOf_append, heldOf_append]
  show _ ++ heldOf [Slice.ofSegment isn segment] = _
  rw [heldOf_singleton, hcounts, if_neg Bool.false_ne_true, List.append_nil]

/-- The connections go on to follow a stream when a segment of its flow comes. -/
theorem Follows.assemble (h : Follows stream isn capacity flow state own sent)
    (hcapacity : state.capacity = capacity) (hshort : stream.length ≤ halfCircle)
    (hown : ∀ s ∈ own, Carries stream isn s) (hflow : Flow.ofSegment segment = flow)
    (admits : Admits stream isn capacity flow state own segment) :
    Follows stream isn capacity flow (state.assemble segment now).2 (own ++ [segment])
      (sent ++ (state.assemble segment now).1.messages) := by
  have hall : ∀ s ∈ own ++ [segment], Carries stream isn s :=
    List.forall_mem_append.mpr ⟨hown, by simpa using admits.carries⟩
  subst hflow
  have hcases := Connections.assembling state segment now
  generalize state.assemble segment now = result at hcases ⊢
  cases hcases with
  | reset hrst => exact absurd (hrst.symm.trans admits.carries.rst) (by simp)
  | late _ _ hlate =>
    rw [List.append_nil]
    refine ⟨?_, h.stamped.mono⟩
    cases h.phase with
    | unopened _ hclosed =>
      rw [Table.contains, hclosed] at hlate
      cases hlate
    | opened _ _ hclosed =>
      rw [Table.contains, hclosed] at hlate
      cases hlate
    | closed early hearly hlive hclosed hfinished htaken hsent =>
      exact .closed early (hearly.trans (List.prefix_append ..)) hlive hclosed hfinished
        htaken hsent
  | ignored _ hsyn' hnoclosed hnolive hpayload hfin =>
    rw [List.append_nil]
    refine ⟨?_, h.stamped.mono⟩
    cases h.phase with
    | unopened hlive hclosed hheld hsyn hsent =>
      refine .unopened hlive hclosed ?_ ?_ hsent
      · rw [heldOf_ignored isn hpayload hfin, hheld]
      · exact List.forall_mem_append.mpr ⟨hsyn, by simpa using hsyn'⟩
    | opened live hlive =>
      rw [Table.contains, hlive] at hnolive
      cases hnolive
    | closed _ _ _ hclosed => exact absurd (hclosed.symm.trans hnoclosed) (by simp)
  | delivered _ hopen _ =>
    have hclosed : state.closed.get? (Flow.ofSegment segment) = none := by
      cases h.phase with
      | unopened _ hclosed => exact hclosed
      | opened _ _ hclosed => exact hclosed
      | closed early hearly _ hcontains hfinished =>
        -- the flow was closed, so the SYN came before and this is not the SYN
        have hnosyn := admits.not_syn hshort hown hearly hfinished
        rcases hopen with hsyn | hnoclosed
        · exact absurd (hsyn.symm.trans hnosyn) (by simp)
        · exact absurd (hcontains.symm.trans hnoclosed) (by simp)
    -- the table of closed flows may have changed before the delivery, by a SYN
    have hdeliver (other : Connections) (hcap : other.capacity = state.capacity)
        (hlive : other.live = state.live)
        (hother : other.closed.get? (Flow.ofSegment segment) = none) :
        Follows stream isn capacity (Flow.ofSegment segment) (other.deliver segment now).2
          (own ++ [segment]) (sent ++ (other.deliver segment now).1.messages) := by
      have hphase := h.phase.congr (by rw [hlive]) (hother.trans hclosed.symm)
      obtain ⟨hmirrors, hheader, hsent, _⟩ :=
        hphase.ready hother (hcap.trans hcapacity) hshort hown rfl now
      exact follows_deliver hshort hall rfl hother hmirrors hheader hsent (admits.taken hclosed)
        h.stamped
    split
    · refine hdeliver _ rfl rfl ?_
      simp
    · exact hdeliver _ rfl rfl hclosed

/-! ## Segments that are not refused -/

/-- A flow counts a segment as dropped exactly if its stream refused it. -/
theorem count_deliver (state : Connections) (segment : TcpSegment) (now : Instant) :
    (state.deliver segment now).1.count .segmentDropped =
      if (state.flowFor segment now).order.refused < (state.taken segment now).2.order.refused
      then 1 else 0 := by
  -- opening and closing a flow count under other names
  rw [Outcome.count, Connections.deliver_events]
  split <;> split <;> split <;> rfl

/-- A segment that is not counted as dropped is taken. -/
theorem Phase.taken_of_count (h : Phase stream isn capacity flow state own sent)
    (hclosed : state.closed.get? flow = none) (hcapacity : state.capacity = capacity)
    (hshort : stream.length ≤ halfCircle) (hown : ∀ s ∈ own ++ [segment], Carries stream isn s)
    (hflow : Flow.ofSegment segment = flow)
    (hcount : (state.assemble segment now).1.count .segmentDropped = 0) :
    (sessionOf stream isn capacity (own ++ [segment])).taken =
      slicesOf isn (own ++ [segment]) := by
  subst hflow
  have hcarries := hown segment (List.mem_append_right _ (List.mem_singleton_self _))
  have hbefore : ∀ s ∈ own, Carries stream isn s := fun s hs => hown s (List.mem_append_left _ hs)
  have hcases := Connections.assembling state segment now
  generalize state.assemble segment now = result at hcases hcount
  cases hcases with
  | reset hrst => exact absurd (hrst.symm.trans hcarries.rst) (by simp)
  | late _ _ hlate =>
    rw [Table.contains, hclosed] at hlate
    cases hlate
  | ignored _ hsyn' _ hnolive hpayload hfin =>
    cases h with
    | unopened _ _ hheld hsyn _ =>
      have hholding := holding_of_few capacity hshort hown
        (List.forall_mem_append.mpr ⟨hsyn, by simpa using hsyn'⟩)
        (by rw [heldOf_ignored isn hpayload hfin, hheld]; exact Nat.zero_le _)
      rw [hholding.taken, sessionOf_pushed]
    | opened live hlive =>
      rw [Table.contains, hlive] at hnolive
      cases hnolive
    | closed _ _ _ hcontains =>
      rw [Table.contains, hclosed] at hcontains
      cases hcontains
  | delivered _ _ _ =>
    have hdeliver (other : Connections) (hcap : other.capacity = state.capacity)
        (hlive : other.live = state.live)
        (hother : other.closed.get? (Flow.ofSegment segment) = none)
        (hcount : (other.deliver segment now).1.count .segmentDropped = 0) :
        (sessionOf stream isn capacity (own ++ [segment])).taken =
          slicesOf isn (own ++ [segment]) := by
      have hphase := h.congr (by rw [hlive]) (hother.trans hclosed.symm)
      obtain ⟨hmirrors, _, _, htaken⟩ :=
        hphase.ready hother (hcap.trans hcapacity) hshort hbefore rfl now
      have called : Live.Called _ stream isn (sessionOf stream isn capacity own) _
          (other.taken segment now) := hmirrors.take hcarries now
      -- what is not counted as refused now was not refused by the session either
      have hle := sessionOf_refused_le capacity hshort hown
      have horder := called.mirrors.order
      rw [← sessionOf_append] at horder
      rw [count_deliver, hmirrors.order, horder] at hcount
      split at hcount
      · cases hcount
      · rename_i hnot
        rw [sessionOf_append] at hnot hle ⊢
        rw [Session.step_taken_of_refused (by omega), htaken, slicesOf_append]
        rfl
    split at hcount
    · exact hdeliver { state with closed := state.closed.erase (Flow.ofSegment segment) } rfl rfl
        (by simp) hcount
    · exact hdeliver state rfl rfl hclosed hcount

end PassiveDns.Stream
