/-
  PassiveDns.Proofs.Stream.Conversation

  What the connections give of one flow, whatever else they are told in between: the
  complete messages of its stream, in order and once each. The flow is closed in the
  very call with which its start, its end and all octets between them have come
  (`messages_of_flow`).
-/
import PassiveDns.Proofs.Stream.Acknowledgements

namespace PassiveDns.Stream

variable {stream : Octets} {isn : UInt32} {capacity : Nat} {flow : Flow} {state : Connections}

/-! ## Conditions on what comes -/

namespace Connections

/-- No segment of a flow is refused. -/
def NoneRefused (flow : Flow) (state : Connections) : List Input → Prop
  | [] => True
  | input :: rest =>
    (∀ segment ∈ input.segments, Flow.ofSegment segment = flow →
      (state.perform input).1.count .segmentDropped = 0) ∧
    NoneRefused flow (state.perform input).2 rest

/-- No flush ends a flow, or forgets that it was closed. -/
def Spared (flow : Flow) (state : Connections) : List Input → Prop
  | [] => True
  | input :: rest =>
    (input.segments = [] → state.Spares flow input) ∧ Spared flow (state.perform input).2 rest

end Connections

/-- A SYN is the first one, and comes while the stream may still hold all that came before
    it. -/
def OneSyn (capacity : Nat) (isn : UInt32) (own : List TcpSegment) : Prop :=
  ∀ before segment after, own = before ++ segment :: after → segment.syn = true →
    (∀ s ∈ before, s.syn = false) ∧ (heldOf (slicesOf isn before)).length ≤ capacity

/-- With its SYN a stream starts at offset zero. -/
theorem OneSyn.startOf_eq {own : List TcpSegment} (h : OneSyn capacity isn own)
    (hsyn : ∃ s ∈ own, s.syn = true) (rest : List Call) :
    startOf capacity [] (callsOf isn own ++ rest) = some 0 := by
  obtain ⟨s, hs, hs'⟩ := hsyn
  obtain ⟨before, after, heq⟩ := List.append_of_mem hs
  obtain ⟨hclosed, hroom⟩ := h before s after heq hs'
  have hcalls : callsOf isn own ++ rest =
      (slicesOf isn before).map Call.push ++
        .push (.ofSegment isn s) :: (callsOf isn after ++ rest) := by
    rw [heq, callsOf_append]
    exact List.append_assoc ..
  rw [hcalls]
  refine Session.startOf_of_syn hs' ?_ hroom _
  intro slice hslice
  obtain ⟨t, ht, rfl⟩ := List.mem_map.mp hslice
  exact hclosed t ht

/-- A stream that may hold all that counts takes every segment. -/
theorem sessionOf_taken_of_few {own : List TcpSegment} (hshort : stream.length ≤ halfCircle)
    (hown : ∀ s ∈ own, Carries stream isn s)
    (hfew : (heldOf (slicesOf isn own)).length ≤ capacity) :
    (sessionOf stream isn capacity own).taken = slicesOf isn own := by
  have fits := ((Session.fits_append ..).mp (fits_callsOf hshort hown capacity)).1
  have htaken := (Session.holding_start stream isn capacity).taken_of_few fits (by
    rw [slices_callsOf]
    exact hfew)
  rw [← sessionOf_pushed stream isn capacity own]
  exact htaken

/-! ## Whole runs -/

theorem segmentsFor_cons (flow : Flow) (input : Input) (rest : List Input) :
    segmentsFor flow (input :: rest) = segmentsFor flow [input] ++ segmentsFor flow rest :=
  segmentsFor_append flow [input] rest

section Steps

variable {own : List TcpSegment} {sent : List Carried} {segment : TcpSegment} {now : Instant}

/-- A segment of the flow itself: all that it gives are messages of the flow. -/
theorem Follows.segment_own (h : Follows stream isn capacity flow state own sent)
    (keyed : state.Keyed) (hcapacity : state.capacity = capacity)
    (hshort : stream.length ≤ halfCircle) (hown : ∀ s ∈ own, Carries stream isn s)
    (hflow : Flow.ofSegment segment = flow)
    (admits : Admits stream isn capacity flow state own segment) :
    Follows stream isn capacity flow (state.perform (.segment segment now)).2 (own ++ [segment])
      (sent ++ messagesFor flow (state.perform (.segment segment now)).1.messages) := by
  have hall : messagesFor flow (state.perform (.segment segment now)).1.messages =
      (state.assemble segment now).1.messages :=
    messagesFor_of_all fun m hm => (Connections.ofCarried_assemble keyed m hm).trans hflow
  rw [hall]
  exact h.assemble hcapacity hshort hown hflow admits

/-- A segment of another flow changes nothing of this one, and gives nothing of it. -/
theorem Follows.segment_other (h : Follows stream isn capacity flow state own sent)
    (keyed : state.Keyed) (hflow : Flow.ofSegment segment ≠ flow) :
    Follows stream isn capacity flow (state.perform (.segment segment now)).2 own
      (sent ++ messagesFor flow (state.perform (.segment segment now)).1.messages) := by
  obtain ⟨hlive, hclosed⟩ :
      (state.perform (.segment segment now)).2.live.get? flow = state.live.get? flow ∧
        (state.perform (.segment segment now)).2.closed.get? flow = state.closed.get? flow :=
    Connections.assemble_other hflow
  have hnone : messagesFor flow (state.perform (.segment segment now)).1.messages = [] :=
    messagesFor_of_none fun m hm heq =>
      hflow ((Connections.ofCarried_assemble keyed m hm).symm.trans heq)
  rw [hnone, List.append_nil]
  exact ⟨h.phase.congr hlive hclosed, h.stamped⟩

/-- Neither does a flush that spares the flow. -/
theorem Follows.flush_spared (h : Follows stream isn capacity flow state own sent)
    (keyed : state.Keyed) {input : Input} (hflush : input.segments = [])
    (hspares : state.Spares flow input) :
    Follows stream isn capacity flow (state.perform input).2 own
      (sent ++ messagesFor flow (state.perform input).1.messages) := by
  rw [Connections.messagesFor_flush keyed hflush hspares, List.append_nil]
  exact ⟨h.phase.congr hspares.1 hspares.2, h.stamped⟩

end Steps

/-- The connections follow the stream of a flow through every run. -/
theorem Follows.run {inputs : List Input} {own : List TcpSegment} {sent : List Carried}
    (h : Follows stream isn capacity flow state own sent) (keyed : state.Keyed)
    (hcapacity : state.capacity = capacity) (hshort : stream.length ≤ halfCircle)
    (hcarries : ∀ s ∈ own ++ segmentsFor flow inputs, Carries stream isn s)
    (hsyn : OneSyn capacity isn (own ++ segmentsFor flow inputs))
    (hrefused : (heldOf (slicesOf isn (own ++ segmentsFor flow inputs))).length ≤ capacity ∨
      state.NoneRefused flow inputs)
    (hspared : state.Spared flow inputs) :
    Follows stream isn capacity flow (state.after inputs) (own ++ segmentsFor flow inputs)
      (sent ++ messagesFor flow (state.messages inputs)) := by
  induction inputs generalizing state own sent with
  | nil =>
    show Follows _ _ _ _ state (own ++ []) (sent ++ [])
    rw [List.append_nil, List.append_nil]
    exact h
  | cons input rest ih =>
    have hkeyed := Connections.perform_keyed keyed input
    have hcap := (Connections.perform_capacity state input).trans hcapacity
    have hmessages : messagesFor flow (state.messages (input :: rest)) =
        messagesFor flow (state.perform input).1.messages ++
          messagesFor flow ((state.perform input).2.messages rest) :=
      messagesFor_append ..
    have hown : ∀ s ∈ own, Carries stream isn s := fun s hs =>
      hcarries s (List.mem_append_left _ hs)
    -- what remains to show of a step is that the connections still follow after it
    have further (more : List TcpSegment) (hmore : segmentsFor flow [input] = more)
        (hstep : Follows stream isn capacity flow (state.perform input).2 (own ++ more)
          (sent ++ messagesFor flow (state.perform input).1.messages)) :
        Follows stream isn capacity flow (state.after (input :: rest))
          (own ++ segmentsFor flow (input :: rest))
          (sent ++ messagesFor flow (state.messages (input :: rest))) := by
      rw [segmentsFor_cons, hmore, ← List.append_assoc] at hcarries hsyn hrefused ⊢
      rw [hmessages, ← List.append_assoc]
      exact ih hstep hkeyed hcap hcarries hsyn (hrefused.imp_right And.right) hspared.2
    have unchanged (hmore : segmentsFor flow [input] = [])
        (hstep : Follows stream isn capacity flow (state.perform input).2 own
          (sent ++ messagesFor flow (state.perform input).1.messages)) :
        Follows stream isn capacity flow (state.after (input :: rest))
          (own ++ segmentsFor flow (input :: rest))
          (sent ++ messagesFor flow (state.messages (input :: rest))) := by
      rw [← List.append_nil own] at hstep
      exact further [] hmore hstep
    cases input with
    | segment segment now =>
      by_cases hflow : Flow.ofSegment segment = flow
      · have hmore : segmentsFor flow [.segment segment now] = [segment] := by
          simp [segmentsFor, Input.segments, hflow]
        refine further [segment] hmore (h.segment_own keyed hcapacity hshort hown hflow ?_)
        rw [segmentsFor_cons, hmore] at hcarries hsyn hrefused
        have hsegment : ∀ s ∈ own ++ [segment], Carries stream isn s := by
          intro s hs
          refine hcarries s ?_
          rw [← List.append_assoc]
          exact List.mem_append_left _ hs
        refine ⟨hsegment segment (by simp), fun hs => ?_, fun hclosed => ?_⟩
        · exact hsyn own segment (segmentsFor flow rest) (by simp) hs
        · -- nothing is refused: all of it may be held, or the count says so
          rcases hrefused with hfew | hnone
          · refine sessionOf_taken_of_few hshort hsegment ?_
            rw [← List.append_assoc, slicesOf_append] at hfew
            exact Session.length_heldOf_le hfew
          · exact h.phase.taken_of_count hclosed hcapacity hshort hsegment hflow
              (hnone.1 segment (List.mem_singleton_self _) hflow)
      · have hmore : segmentsFor flow [.segment segment now] = [] := by
          simp [segmentsFor, Input.segments, hflow]
        exact unchanged hmore (h.segment_other keyed hflow)
    | flushOlderThan cutoff => exact unchanged rfl (h.flush_spared keyed rfl (hspared.1 rfl))
    | flushAll => exact unchanged rfl (h.flush_spared keyed rfl (hspared.1 rfl))

theorem OneSyn.of_prefix {own more : List TcpSegment} (h : OneSyn capacity isn (own ++ more)) :
    OneSyn capacity isn own := by
  rintro before segment after rfl
  exact h before segment (after ++ more) (by simp)

theorem noneRefused_of_append {inputs more : List Input}
    (h : state.NoneRefused flow (inputs ++ more)) : state.NoneRefused flow inputs := by
  induction inputs generalizing state with
  | nil => exact trivial
  | cons input rest ih => exact ⟨h.1, ih h.2⟩

theorem spared_of_append {inputs more : List Input} (h : state.Spared flow (inputs ++ more)) :
    state.Spared flow inputs := by
  induction inputs generalizing state with
  | nil => exact trivial
  | cons input rest ih => exact ⟨h.1, ih h.2⟩

/-! ## What following a stream means -/

variable {own : List TcpSegment} {sent : List Carried}

theorem fin_of_carries (hown : ∀ s ∈ own, Carries stream isn s) :
    ∀ slice ∈ slicesOf isn own, slice.fin = true → slice.stop = stream.length := by
  intro slice hslice hfin
  obtain ⟨s, hs, rfl⟩ := List.mem_map.mp hslice
  exact (hown s hs).fin hfin

theorem startOf_callsOf_append {anchor : Nat} {more : List TcpSegment}
    (h : startOf capacity [] (callsOf isn own) = some anchor) :
    startOf capacity [] (callsOf isn (own ++ more)) = some anchor := by
  rw [callsOf_append]
  exact Session.startOf_append h _

theorem covers_of_started {anchor : Nat}
    (h : (sessionOf stream isn capacity own).Started stream isn capacity anchor) :
    Covers (slicesOf isn own) anchor
      (anchor + (sessionOf stream isn capacity own).order.next) := by
  rw [← sessionOf_pushed stream isn capacity own]
  exact h.covers

theorem Covers.mono {slices more : List Slice} {low high : Nat} (h : Covers slices low high)
    (hsub : slices ⊆ more) : Covers more low high := by
  intro position hlow hhigh
  obtain ⟨slice, hslice, hhas⟩ := h position hlow hhigh
  exact ⟨slice, hsub hslice, hhas⟩

/-- A session that is finished has a start, its end was seen, and all octets are out. -/
theorem started_of_finished (hshort : stream.length ≤ halfCircle)
    (hown : ∀ s ∈ own, Carries stream isn s)
    (hfinished : (sessionOf stream isn capacity own).order.isFinished = true) :
    ∃ anchor, startOf capacity [] (callsOf isn own) = some anchor ∧
      (sessionOf stream isn capacity own).Started stream isn capacity anchor ∧
      (∃ slice ∈ slicesOf isn own, slice.fin = true) ∧
      anchor + (sessionOf stream isn capacity own).order.next = stream.length := by
  rcases sessionOf_cases hshort hown capacity with ⟨_, h⟩ | ⟨anchor, hsome, h⟩
  · rw [h.isFinished] at hfinished
    cases hfinished
  · have hpushed := sessionOf_pushed stream isn capacity own
    have hiff := h.isFinished_iff (by rw [hpushed]; exact fin_of_carries hown)
    rw [hpushed] at hiff
    exact ⟨anchor, hsome, h, (hiff.mp hfinished)⟩

/-- A flow is closed exactly when its stream has a start and an end and all octets between
    them have come. -/
theorem Follows.closed_iff (h : Follows stream isn capacity flow state own sent)
    (hshort : stream.length ≤ halfCircle) (hown : ∀ s ∈ own, Carries stream isn s) :
    state.closed.contains flow = true ↔
      ∃ anchor, startOf capacity [] (callsOf isn own) = some anchor ∧
        (∃ slice ∈ slicesOf isn own, slice.fin = true) ∧
        Covers (slicesOf isn own) anchor stream.length := by
  cases h.phase with
  | unopened hlive hclosed hheld hsyn _ =>
    rw [Table.contains, hclosed]
    refine ⟨fun hfalse => absurd hfalse Bool.false_ne_true, ?_⟩
    rintro ⟨anchor, _, ⟨slice, hslice, hfin⟩, _⟩
    -- an end would be held, and nothing is
    have hmem : slice ∈ heldOf (slicesOf isn own) :=
      List.mem_filter.mpr ⟨hslice, Session.counts_of_fin hfin⟩
    rw [hheld] at hmem
    cases hmem
  | opened live _ hclosed _ _ hunfinished htaken _ =>
    rw [Table.contains, hclosed]
    refine ⟨fun hfalse => absurd hfalse Bool.false_ne_true, ?_⟩
    rintro ⟨anchor, hsome, hend, hcovers⟩
    rcases sessionOf_cases hshort hown capacity with ⟨hnone, _⟩ | ⟨anchor', hsome', hstarted⟩
    · exact absurd (hnone.symm.trans hsome) (by simp)
    · obtain rfl : anchor' = anchor := Option.some.inj (hsome'.symm.trans hsome)
      have hpushed := sessionOf_pushed stream isn capacity own
      -- if all had come, the session would be finished and the flow not open
      have hnext := hstarted.next_of_covers (by rw [htaken]; exact hcovers)
      have hiff := hstarted.isFinished_iff (by rw [hpushed]; exact fin_of_carries hown)
      rw [hpushed] at hiff
      exact absurd ((hiff.mpr ⟨hend, hnext⟩).symm.trans hunfinished) (by simp)
  | closed early hearly _ hcontains hfinished _ _ =>
    refine ⟨fun _ => ?_, fun _ => hcontains⟩
    obtain ⟨rest, rfl⟩ := hearly
    obtain ⟨anchor, hsome, hstarted, ⟨slice, hslice, hfin⟩, hnext⟩ :=
      started_of_finished hshort (fun s hs => hown s (List.mem_append_left _ hs)) hfinished
    -- what had come when the flow was closed is part of what came
    have hsub : slicesOf isn early ⊆ slicesOf isn (early ++ rest) := by
      rw [slicesOf_append]
      exact List.subset_append_left ..
    refine ⟨anchor, startOf_callsOf_append hsome, ⟨slice, hsub hslice, hfin⟩, ?_⟩
    rw [← hnext]
    exact (covers_of_started hstarted).mono hsub

/-- A flow that was closed gave all messages of its stream. -/
theorem Follows.payloads_of_closed (h : Follows stream isn capacity flow state own sent)
    (hshort : stream.length ≤ halfCircle) (hown : ∀ s ∈ own, Carries stream isn s)
    (hclosed : state.closed.contains flow = true) {anchor : Nat}
    (hsome : startOf capacity [] (callsOf isn own) = some anchor) :
    sent.map Carried.payload = messagesOf (stream.drop anchor) ∧ state.live.get? flow = none := by
  cases h.phase with
  | unopened _ hnone =>
    rw [Table.contains, hnone] at hclosed
    cases hclosed
  | opened _ _ hnone =>
    rw [Table.contains, hnone] at hclosed
    cases hclosed
  | closed early hearly hlive _ hfinished _ hsent =>
    obtain ⟨rest, rfl⟩ := hearly
    obtain ⟨anchor', hsome', hstarted, _, hnext⟩ :=
      started_of_finished hshort (fun s hs => hown s (List.mem_append_left _ hs)) hfinished
    obtain rfl : anchor' = anchor :=
      Option.some.inj ((startOf_callsOf_append hsome').symm.trans hsome)
    exact ⟨by rw [hsent, hstarted.output_of_next.mpr hnext], hlive⟩

/-- What came of a stream without a gap, from its start on: no octet follows on it. -/
def Reached (slices : List Slice) (anchor count : Nat) : Prop :=
  Covers slices anchor (anchor + count) ∧ ∀ slice ∈ slices, ¬slice.Has (anchor + count)

theorem reached_restamp {anchor count : Nat} :
    Reached (slicesOf isn (own.map (restamp isn))) anchor count ↔
      Reached (slicesOf isn own) anchor count := by
  have hbehind := not_congr (exists_has_restamp isn own (anchor + count))
  push Not at hbehind
  unfold Reached
  rw [covers_restamp, hbehind]

/-- A flush of a session that refused nothing: all is out that came without a gap from the start
    of the stream on. -/
theorem sessionOf_flushed (hshort : stream.length ≤ halfCircle)
    (hown : ∀ s ∈ own, Carries stream isn s)
    (htaken : (sessionOf stream isn capacity own).taken = slicesOf isn own) :
    (startOf capacity [] (callsOf isn own ++ [.anchor]) = none ∧
      ((sessionOf stream isn capacity own).step stream isn .anchor).output = []) ∨
    ∃ anchor count, startOf capacity [] (callsOf isn own ++ [.anchor]) = some anchor ∧
      anchor + count ≤ stream.length ∧ Reached (slicesOf isn own) anchor count ∧
      joined ((sessionOf stream isn capacity own).step stream isn .anchor).output =
        stream.slice anchor count := by
  have hflushed : (sessionOf stream isn capacity own).step stream isn .anchor =
      (Session.start capacity).run stream isn (callsOf isn own ++ [.anchor]) := by
    rw [Session.run_append]
    rfl
  have htaken' : ((sessionOf stream isn capacity own).step stream isn .anchor).taken =
      slicesOf isn own := by
    rw [← htaken]
    unfold Session.step
    simp only [Call.slices, List.append_nil, ite_self]
  rw [hflushed] at htaken' ⊢
  rcases (Session.holding_start stream isn capacity).run_cases
    (fits_callsOf hshort hown capacity) with ⟨hnone, hholding⟩ | ⟨anchor, hsome, hstarted⟩
  · exact .inl ⟨hnone, hholding.output⟩
  · have hpushed : ((Session.start capacity).run stream isn
        (callsOf isn own ++ [.anchor])).pushed = slicesOf isn own := by
      rw [Session.run_pushed, List.flatMap_append, slices_callsOf]
      exact List.append_nil _
    have hcovers := hstarted.covers
    rw [hpushed] at hcovers
    refine .inr ⟨anchor, _, hsome, hstarted.aligned.fits, ⟨hcovers, ?_⟩, hstarted.output⟩
    intro slice hslice
    exact hstarted.gap slice (htaken' ▸ hslice)

/-- A flush that ends a flow completes what the flow gave: together these are the messages
    of all that came without a gap from the start of the stream on. -/
theorem Follows.flush (h : Follows stream isn capacity flow state own sent)
    (keyed : state.Keyed) (hshort : stream.length ≤ halfCircle)
    (hown : ∀ s ∈ own, Carries stream isn s) {input : Input} (hflush : input.segments = [])
    (hends : (state.perform input).2.live.get? flow = none) :
    (startOf capacity [] (callsOf isn own ++ [.anchor]) = none ∧
      (sent ++ messagesFor flow (state.perform input).1.messages).map Carried.payload = []) ∨
    ∃ anchor count, startOf capacity [] (callsOf isn own ++ [.anchor]) = some anchor ∧
      anchor + count ≤ stream.length ∧ Reached (slicesOf isn own) anchor count ∧
      (sent ++ messagesFor flow (state.perform input).1.messages).map Carried.payload =
        messagesOf (stream.slice anchor count) := by
  cases h.phase with
  | unopened hlive _ hheld hsyn hsent =>
    refine .inl ⟨?_, ?_⟩
    · -- nothing is held, so a flush finds no start
      have hno : ∀ slice ∈ slicesOf isn own, slice.syn = false := by
        intro slice hslice
        obtain ⟨s, hs, rfl⟩ := List.mem_map.mp hslice
        exact hsyn s hs
      have hstart : startOf capacity [] ((slicesOf isn own).map Call.push ++ [.anchor]) =
          startOf capacity ([] ++ heldOf (slicesOf isn own)) [.anchor] :=
        Session.startOf_of_few hno (by rw [hheld]; exact Nat.zero_le _) _
      rw [hheld] at hstart
      exact hstart
    · rw [hsent, Connections.messagesFor_flush_of_none keyed hflush hlive]
      rfl
  | opened live hlive _ hmirrors _ _ htaken hsent =>
    have called : live.Called stream isn (sessionOf stream isn capacity own) .anchor live.close :=
      hmirrors.close
    rw [Connections.messagesFor_flush_of_live keyed hflush hlive hends, List.map_append, hsent,
      ← called.payloads]
    -- the flush of an open flow is a further call to its session
    rcases sessionOf_flushed hshort hown htaken with
      ⟨hnone, houtput⟩ | ⟨anchor, count, hsome, hle, hreached, houtput⟩
    · refine .inl ⟨hnone, ?_⟩
      rw [houtput, messagesOf, split_short (by simp [joined])]
    · exact .inr ⟨anchor, count, hsome, hle, hreached, by rw [houtput]⟩
  | closed early hearly hlive _ hfinished _ hsent =>
    obtain ⟨rest, rfl⟩ := hearly
    obtain ⟨anchor, hsome, hstarted, _, hnext⟩ :=
      started_of_finished hshort (fun s hs => hown s (List.mem_append_left _ hs)) hfinished
    have hsub : slicesOf isn early ⊆ slicesOf isn (early ++ rest) := by
      rw [slicesOf_append]
      exact List.subset_append_left ..
    rw [Connections.messagesFor_flush_of_none keyed hflush hlive, List.append_nil, hsent]
    refine .inr ⟨anchor, _, Session.startOf_append (startOf_callsOf_append hsome) _,
      Nat.le_of_eq hnext, ⟨(covers_of_started hstarted).mono hsub, ?_⟩, by rw [hstarted.output]⟩
    intro slice hslice hhas
    obtain ⟨s, hs, rfl⟩ := List.mem_map.mp hslice
    -- behind the end of a finished stream there is nothing
    have hstop := (hown s hs).stop_le
    rw [hnext] at hhas
    exact absurd hhas.2 (Nat.not_lt_of_le hstop)

/-! ## The messages of a flow -/

/-- Connections as they come about. -/
def Connections.Reachable (state : Connections) : Prop :=
  ∃ before, state = (Connections.empty state.capacity).after before

theorem Connections.Reachable.keyed (h : state.Reachable) : state.Keyed := by
  obtain ⟨before, hbefore⟩ := h
  rw [hbefore]
  exact Connections.after_keyed (Connections.keyed_empty _) before

/-- Connections that know nothing of a flow, and what they are told while one stream comes
    with its segments: among all else slices of the stream in any order and bare
    acknowledgements, no segment refused, the SYN at most once and while the stream still
    holds, and no flush that ends the flow or forgets that it was closed. -/
structure Streams (stream : Octets) (isn : UInt32) (flow : Flow) (state : Connections)
    (inputs : List Input) : Prop where
  notLive : state.live.get? flow = none
  notClosed : state.closed.get? flow = none
  carries : ∀ s ∈ segmentsFor flow inputs, Acknowledges s ∨ Carries stream isn s
  oneSyn : OneSyn state.capacity isn (segmentsFor flow inputs)
  noneRefused : state.NoneRefused flow inputs
  spared : state.Spared flow inputs

/-! ### Acknowledgements at the start of their stream -/

theorem OneSyn.restamp {own : List TcpSegment} (h : OneSyn capacity isn own) :
    OneSyn capacity isn (own.map (restamp isn)) := by
  intro before segment after heq hsyn
  obtain ⟨first, others, rfl, hbefore, hothers⟩ := List.map_eq_append_iff.mp heq
  obtain ⟨s, later, rfl, rfl, hlater⟩ := List.map_eq_cons_iff.mp hothers
  rw [restamp_syn] at hsyn
  obtain ⟨hclosed, hfew⟩ := h first s later rfl hsyn
  rw [← hbefore, length_heldOf_restamp]
  refine ⟨fun t ht => ?_, hfew⟩
  obtain ⟨before, hmem, rfl⟩ := List.mem_map.mp ht
  rw [restamp_syn]
  exact hclosed before hmem

namespace Connections

theorem NoneRefused.restamp {inputs : List Input} (h : state.NoneRefused flow inputs) :
    state.NoneRefused flow (inputs.map (Input.restamp isn)) := by
  induction inputs generalizing state with
  | nil => exact trivial
  | cons input rest ih =>
    refine ⟨fun segment hsegment hflow => ?_, ?_⟩
    · rw [Input.segments_restamp] at hsegment
      obtain ⟨s, hs, rfl⟩ := List.mem_map.mp hsegment
      rw [ofSegment_restamp] at hflow
      rw [perform_restamp]
      exact h.1 s hs hflow
    · rw [perform_restamp]
      exact ih h.2

theorem Spared.restamp {inputs : List Input} (h : state.Spared flow inputs) :
    state.Spared flow (inputs.map (Input.restamp isn)) := by
  induction inputs generalizing state with
  | nil => exact trivial
  | cons input rest ih =>
    refine ⟨fun hnone => ?_, ?_⟩
    · rw [Input.segments_restamp] at hnone
      unfold Spares
      rw [perform_restamp]
      exact h.1 (List.map_eq_nil_iff.mp hnone)
    · rw [perform_restamp]
      exact ih h.2

end Connections

namespace Streams

variable {inputs more : List Input}

theorem of_append (h : Streams stream isn flow state (inputs ++ more)) :
    Streams stream isn flow state inputs := by
  have hcarries := h.carries
  have hsyn := h.oneSyn
  rw [segmentsFor_append] at hcarries hsyn
  exact ⟨h.notLive, h.notClosed, fun s hs => hcarries s (List.mem_append_left _ hs),
    hsyn.of_prefix, noneRefused_of_append h.noneRefused, spared_of_append h.spared⟩

/-- With its acknowledgements at its start a stream still comes, and now each segment has a
    place in it. -/
theorem restamp (h : Streams stream isn flow state inputs) :
    Streams stream isn flow state (inputs.map (Input.restamp isn)) ∧
      ∀ s ∈ segmentsFor flow (inputs.map (Input.restamp isn)), Carries stream isn s := by
  have hcarries : ∀ s ∈ segmentsFor flow (inputs.map (Input.restamp isn)),
      Carries stream isn s := by
    intro s hs
    rw [segmentsFor_restamp] at hs
    obtain ⟨t, ht, rfl⟩ := List.mem_map.mp hs
    exact carries_restamp (h.carries t ht)
  refine ⟨⟨h.notLive, h.notClosed, fun s hs => .inr (hcarries s hs), ?_, h.noneRefused.restamp,
    h.spared.restamp⟩, hcarries⟩
  rw [segmentsFor_restamp]
  exact h.oneSyn.restamp

/-- A SYN makes a stream start at offset zero. -/
theorem startOf_eq (h : Streams stream isn flow state inputs)
    (hsyn : ∃ s ∈ segmentsFor flow inputs, s.syn = true) (rest : List Call) :
    startOf state.capacity [] (callsOf isn (segmentsFor flow inputs) ++ rest) = some 0 :=
  h.oneSyn.startOf_eq hsyn rest

section Placed

variable (hcarries : ∀ s ∈ segmentsFor flow inputs, Carries stream isn s)

include hcarries

/-- The connections follow a stream that ends within half of the circle. -/
theorem follows (h : Streams stream isn flow state inputs) (reachable : state.Reachable)
    (hshort : stream.length ≤ halfCircle) :
    Follows stream isn state.capacity flow (state.after inputs) (segmentsFor flow inputs)
      (messagesFor flow (state.messages inputs)) := by
  have hfresh : Follows stream isn state.capacity flow state [] [] :=
    follows_nil h.notLive h.notClosed
  exact hfresh.run reachable.keyed rfl hshort hcarries h.oneSyn (.inr h.noneRefused) h.spared

/-- Of a longer stream only the first half of the circle comes. -/
theorem shortened (h : Streams stream isn flow state inputs) (hlong : halfCircle < stream.length) :
    Streams (stream.take halfCircle) isn flow state inputs ∧
      (∀ s ∈ segmentsFor flow inputs, Carries (stream.take halfCircle) isn s) ∧
      ∀ s ∈ segmentsFor flow inputs, s.fin = false := by
  have hfin : ∀ s ∈ segmentsFor flow inputs, s.fin = false := by
    intro s hs
    by_contra hne
    -- its end would lie behind half of the circle
    have hstop := (hcarries s hs).fin (eq_true_of_ne_false hne)
    have hnear := (hcarries s hs).stop_near
    omega
  have hlength : (stream.take halfCircle).length = halfCircle := by
    rw [List.length_take]
    omega
  have hshortened : ∀ s ∈ segmentsFor flow inputs, Carries (stream.take halfCircle) isn s := by
    intro s hs
    have hs' := hcarries s hs
    refine ⟨hs'.rst, hs'.syn, hs'.near, hs'.stop_near, ?_, ?_, ?_⟩
    · rw [hlength]
      exact hs'.stop_near
    · rw [Slice.octets, Octets.slice_take _ _ _ _ hs'.stop_near]
      exact hs'.payload
    · intro hend
      exact absurd (hend.symm.trans (hfin s hs)) (by simp)
  exact ⟨⟨h.notLive, h.notClosed, fun s hs => .inr (hshortened s hs), h.oneSyn, h.noneRefused,
    h.spared⟩, hshortened, hfin⟩

theorem closed_iff_of_carries (h : Streams stream isn flow state inputs)
    (reachable : state.Reachable) :
    (state.after inputs).closed.contains flow = true ↔
      ∃ anchor, startOf state.capacity [] (callsOf isn (segmentsFor flow inputs)) = some anchor ∧
        (∃ slice ∈ slicesOf isn (segmentsFor flow inputs), slice.fin = true) ∧
        Covers (slicesOf isn (segmentsFor flow inputs)) anchor stream.length := by
  rcases Nat.lt_or_ge halfCircle stream.length with hlong | hshort
  · obtain ⟨hshortened, hplaced, hfin⟩ := h.shortened hcarries hlong
    -- a stream as long as that has no end that may come
    have hnoend : ¬∃ slice ∈ slicesOf isn (segmentsFor flow inputs), slice.fin = true := by
      rintro ⟨slice, hslice, hslicefin⟩
      obtain ⟨s, hs, rfl⟩ := List.mem_map.mp hslice
      exact absurd (hslicefin.symm.trans (hfin s hs)) (by simp)
    have hiff := (hshortened.follows hplaced reachable (List.length_take_le ..)).closed_iff
      (List.length_take_le ..) hplaced
    rw [hiff]
    constructor
    · rintro ⟨_, _, hend, _⟩
      exact absurd hend hnoend
    · rintro ⟨_, _, hend, _⟩
      exact absurd hend hnoend
  · exact (h.follows hcarries reachable hshort).closed_iff hshort hcarries

theorem short_of_fin (hfin : ∃ s ∈ segmentsFor flow inputs, s.fin = true) :
    stream.length ≤ halfCircle := by
  obtain ⟨s, hs, hfin⟩ := hfin
  rw [← (hcarries s hs).fin hfin]
  exact (hcarries s hs).stop_near

theorem flush_of_carries (h : Streams stream isn flow state inputs) (reachable : state.Reachable)
    {input : Input} (hflush : input.segments = [])
    (hends : ((state.after inputs).perform input).2.live.get? flow = none) :
    (startOf state.capacity [] (callsOf isn (segmentsFor flow inputs) ++ [.anchor]) = none ∧
      (messagesFor flow (state.messages (inputs ++ [input]))).map Carried.payload = []) ∨
    ∃ anchor count,
      startOf state.capacity [] (callsOf isn (segmentsFor flow inputs) ++ [.anchor]) =
        some anchor ∧
      anchor + count ≤ stream.length ∧
      Reached (slicesOf isn (segmentsFor flow inputs)) anchor count ∧
      (messagesFor flow (state.messages (inputs ++ [input]))).map Carried.payload =
        messagesOf (stream.slice anchor count) := by
  have hkeyed := Connections.after_keyed reachable.keyed inputs
  have hmessages : messagesFor flow (state.messages (inputs ++ [input])) =
      messagesFor flow (state.messages inputs) ++
        messagesFor flow ((state.after inputs).perform input).1.messages := by
    rw [Connections.messages_append, messagesFor_append, Connections.messages,
      Connections.messages, List.append_nil]
  rw [hmessages]
  rcases Nat.lt_or_ge halfCircle stream.length with hlong | hshort
  · obtain ⟨hshortened, hplaced, _⟩ := h.shortened hcarries hlong
    have hlength : (stream.take halfCircle).length = halfCircle := by
      rw [List.length_take]
      omega
    rcases (hshortened.follows hplaced reachable (List.length_take_le ..)).flush hkeyed
      (List.length_take_le ..) hplaced hflush hends with
      hnone | ⟨anchor, count, hsome, hle, hreached, hpayloads⟩
    · exact .inl hnone
    · rw [hlength] at hle
      rw [Octets.slice_take _ _ _ _ hle] at hpayloads
      exact .inr ⟨anchor, count, hsome, by omega, hreached, hpayloads⟩
  · exact (h.follows hcarries reachable hshort).flush hkeyed hshort hcarries hflush hends

end Placed

/-- A flow is closed exactly when the start, the end and all octets have come. -/
theorem closed_iff (h : Streams stream isn flow state inputs) (reachable : state.Reachable) :
    (state.after inputs).closed.contains flow = true ↔
      ∃ anchor, startOf state.capacity [] (callsOf isn (segmentsFor flow inputs)) = some anchor ∧
        (∃ slice ∈ slicesOf isn (segmentsFor flow inputs), slice.fin = true) ∧
        Covers (slicesOf isn (segmentsFor flow inputs)) anchor stream.length := by
  obtain ⟨hrestamped, hcarries⟩ := h.restamp
  have hiff := hrestamped.closed_iff_of_carries hcarries reachable
  have hstart : startOf state.capacity []
        (callsOf isn ((segmentsFor flow inputs).map (Stream.restamp isn))) =
      startOf state.capacity [] (callsOf isn (segmentsFor flow inputs)) := by
    simpa only [List.append_nil] using startOf_restamp (segmentsFor flow inputs) [] []
  simp only [Connections.after_restamp, segmentsFor_restamp, hstart, exists_fin_restamp,
    covers_restamp] at hiff
  exact hiff

/-- Once the start, the end and all octets have come the messages are those of the stream. -/
theorem payloads (h : Streams stream isn flow state inputs) (reachable : state.Reachable)
    (hsyn : ∃ s ∈ segmentsFor flow inputs, s.syn = true)
    (hfin : ∃ s ∈ segmentsFor flow inputs, s.fin = true)
    (hclosed : (state.after inputs).closed.contains flow = true) :
    (messagesFor flow (state.messages inputs)).map Carried.payload = messagesOf stream ∧
      (state.after inputs).live.get? flow = none := by
  obtain ⟨hrestamped, hcarries⟩ := h.restamp
  have hstart := hrestamped.startOf_eq (by
    obtain ⟨s, hs, hsyn⟩ := hsyn
    rw [segmentsFor_restamp]
    exact ⟨_, List.mem_map_of_mem hs, (restamp_syn isn s).trans hsyn⟩) []
  have hshort := short_of_fin hcarries (by
    obtain ⟨s, hs, hfin⟩ := hfin
    rw [segmentsFor_restamp]
    exact ⟨_, List.mem_map_of_mem hs, (restamp_fin isn s).trans hfin⟩)
  rw [List.append_nil] at hstart
  rw [← Connections.after_restamp state isn] at hclosed ⊢
  rw [← Connections.messages_restamp state isn]
  exact (hrestamped.follows hcarries reachable hshort).payloads_of_closed hshort hcarries hclosed
    hstart

/-- What a flow gives until a flush ends it. -/
theorem flush (h : Streams stream isn flow state inputs) (reachable : state.Reachable)
    {input : Input} (hflush : input.segments = [])
    (hends : ((state.after inputs).perform input).2.live.get? flow = none) :
    (startOf state.capacity [] (callsOf isn (segmentsFor flow inputs) ++ [.anchor]) = none ∧
      (messagesFor flow (state.messages (inputs ++ [input]))).map Carried.payload = []) ∨
    ∃ anchor count,
      startOf state.capacity [] (callsOf isn (segmentsFor flow inputs) ++ [.anchor]) =
        some anchor ∧
      anchor + count ≤ stream.length ∧
      Reached (slicesOf isn (segmentsFor flow inputs)) anchor count ∧
      (messagesFor flow (state.messages (inputs ++ [input]))).map Carried.payload =
        messagesOf (stream.slice anchor count) := by
  obtain ⟨hrestamped, hcarries⟩ := h.restamp
  have hsame : state.messages (inputs ++ [input]) =
      state.messages (inputs.map (Input.restamp isn) ++ [input]) := by
    rw [Connections.messages_append, Connections.messages_append, Connections.after_restamp,
      Connections.messages_restamp]
  rw [← Connections.after_restamp state isn] at hends
  have hcases := hrestamped.flush_of_carries hcarries reachable hflush hends
  simp only [segmentsFor_restamp, startOf_restamp, reached_restamp] at hcases
  rw [hsame]
  exact hcases

end Streams

/-- The connections cut one stream out of all that comes. Each message is of the flow whose
    segment yields it. The flow is closed in the call with which the last of its start, its
    end and its octets comes. If all of them come, the messages are the complete messages of
    the stream, in order and once each. If not, they and what a flush that ends the flow adds
    are the complete messages of what came without a gap: from offset zero if the SYN came,
    and else from the earliest octet held. -/
theorem messages_of_flow {inputs : List Input} (reachable : state.Reachable)
    (h : Streams stream isn flow state inputs) :
    (∀ early segment now, early ++ [.segment segment now] <+: inputs →
      ∀ m ∈ ((state.after early).assemble segment now).1.messages,
        Flow.ofCarried m = Flow.ofSegment segment) ∧
    (∀ early, early <+: inputs →
      ((state.after early).closed.contains flow = true ↔
        ∃ anchor, startOf state.capacity [] (callsOf isn (segmentsFor flow early)) = some anchor ∧
          (∃ slice ∈ slicesOf isn (segmentsFor flow early), slice.fin = true) ∧
          Covers (slicesOf isn (segmentsFor flow early)) anchor stream.length)) ∧
    ((∃ s ∈ segmentsFor flow inputs, s.syn = true) → ∀ rest,
      startOf state.capacity [] (callsOf isn (segmentsFor flow inputs) ++ rest) = some 0) ∧
    ((∃ s ∈ segmentsFor flow inputs, s.syn = true) →
      (∃ s ∈ segmentsFor flow inputs, s.fin = true) →
      Covers (slicesOf isn (segmentsFor flow inputs)) 0 stream.length →
      (messagesFor flow (state.messages inputs)).map Carried.payload = messagesOf stream ∧
        (state.after inputs).live.get? flow = none ∧
        (state.after inputs).closed.contains flow = true) ∧
    (∀ input, input.segments = [] →
      ((state.after inputs).perform input).2.live.get? flow = none →
      (startOf state.capacity [] (callsOf isn (segmentsFor flow inputs) ++ [.anchor]) = none ∧
        (messagesFor flow (state.messages (inputs ++ [input]))).map Carried.payload = []) ∨
      ∃ anchor count,
        startOf state.capacity [] (callsOf isn (segmentsFor flow inputs) ++ [.anchor]) =
          some anchor ∧
        anchor + count ≤ stream.length ∧
        Reached (slicesOf isn (segmentsFor flow inputs)) anchor count ∧
        (messagesFor flow (state.messages (inputs ++ [input]))).map Carried.payload =
          messagesOf (stream.slice anchor count)) := by
  refine ⟨fun early segment now _ => ?_, ?_, h.startOf_eq, fun hsyn hfin hcovers => ?_,
    fun input hflush hends => h.flush reachable hflush hends⟩
  · exact Connections.ofCarried_assemble (Connections.after_keyed reachable.keyed early)
  · rintro early ⟨later, rfl⟩
    exact h.of_append.closed_iff reachable
  · have hstart := h.startOf_eq hsyn []
    rw [List.append_nil] at hstart
    have hend : ∃ slice ∈ slicesOf isn (segmentsFor flow inputs), slice.fin = true := by
      obtain ⟨s, hs, hfin⟩ := hfin
      exact ⟨_, List.mem_map_of_mem hs, hfin⟩
    have hclosed := (h.closed_iff reachable).mpr ⟨0, hstart, hend, hcovers⟩
    obtain ⟨hpayloads, hlive⟩ := h.payloads reachable hsyn hfin hclosed
    exact ⟨hpayloads, hlive, hclosed⟩

/-! ### An end that comes by itself -/

/-- A SYN may come first. -/
theorem oneSyn_of_first (capacity : Nat) (isn : UInt32) (first : TcpSegment)
    {rest : List TcpSegment} (h : ∀ s ∈ rest, s.syn = false) :
    OneSyn capacity isn (first :: rest) := by
  intro before segment after heq hsyn
  cases before with
  | nil => exact ⟨fun _ hs => absurd hs List.not_mem_nil, Nat.zero_le _⟩
  | cons b bs =>
    rw [List.cons_append, List.cons.injEq] at heq
    have hmem : segment ∈ rest := heq.2 ▸ List.mem_append_right _ (List.mem_cons_self ..)
    exact absurd (hsyn.symm.trans (h segment hmem)) (by simp)

/-- A stub resolver that asks a server. -/
def query : Flow := ⟨.v4 0x0a000001, .v4 0x0a000035, 40000, 53⟩

/-- A segment of that flow. -/
def querySegment (sequence : UInt32) (syn fin : Bool) (payload : Octets) : TcpSegment :=
  ⟨⟨.v4, .v4 0x0a000001, .v4 0x0a000035, 6⟩, 40000, 53, sequence, syn, fin, false, payload, none⟩

/-- A message of one octet, with the SYN and the end in segments of their own. -/
def endAlone : List Input :=
  [.segment (querySegment 100 true false []) 0, .segment (querySegment 101 false false [0, 1, 7]) 0,
    .segment (querySegment 104 false true []) 0]

theorem endAlone_streams : Streams [0, 1, 7] 100 query (.empty 4) endAlone := by
  refine ⟨rfl, rfl, by decide, ?_, ?_, ?_⟩
  · have hrest : ∀ s ∈ [querySegment 101 false false [0, 1, 7], querySegment 104 false true []],
        s.syn = false := by
      decide
    exact oneSyn_of_first 4 100 (querySegment 100 true false []) hrest
  · refine ⟨fun _ _ _ => ?_, fun _ _ _ => ?_, fun _ _ _ => ?_, trivial⟩ <;> decide +kernel
  · have hsegment : ∀ (s : TcpSegment) (P : Prop), [s] = [] → P :=
      fun s P hnone => absurd hnone (List.cons_ne_nil s [])
    exact ⟨hsegment _ _, hsegment _ _, hsegment _ _, trivial⟩

/-- The call that gives the last octet does not close the flow if the end comes after it. -/
theorem open_after_last_octet :
    Streams [0, 1, 7] 100 query (.empty 4) endAlone ∧
      (∃ s ∈ segmentsFor query endAlone, s.fin = true) ∧
      (messagesFor query ((Connections.empty 4).messages (endAlone.take 1))).map
        Carried.payload = [] ∧
      (messagesFor query ((Connections.empty 4).messages (endAlone.take 2))).map
        Carried.payload = messagesOf [0, 1, 7] ∧
      Covers (slicesOf 100 (segmentsFor query (endAlone.take 2))) 0 3 ∧
      ((Connections.empty 4).after (endAlone.take 2)).closed.contains query = false := by
  refine ⟨endAlone_streams, ⟨querySegment 104 false true [], by decide, rfl⟩, ?_, ?_, by decide, ?_⟩
  · decide +kernel
  · decide +kernel
  · decide +kernel

/-- The same with an acknowledgement of what the server sent, before the message and behind
    the end. -/
def answered : List Input :=
  [.segment (querySegment 100 true false []) 0, .segment (querySegment 101 false false []) 0,
    .segment (querySegment 101 false false [0, 1, 7]) 0,
    .segment (querySegment 104 false true []) 0, .segment (querySegment 105 false false []) 0]

theorem answered_streams : Streams [0, 1, 7] 100 query (.empty 4) answered := by
  refine ⟨rfl, rfl, by decide, ?_, ?_, ?_⟩
  · have hrest : ∀ s ∈ [querySegment 101 false false [], querySegment 101 false false [0, 1, 7],
        querySegment 104 false true [], querySegment 105 false false []], s.syn = false := by
      decide
    exact oneSyn_of_first 4 100 (querySegment 100 true false []) hrest
  · refine ⟨fun _ _ _ => ?_, fun _ _ _ => ?_, fun _ _ _ => ?_, fun _ _ _ => ?_, fun _ _ _ => ?_,
      trivial⟩ <;> decide +kernel
  · have hsegment : ∀ (s : TcpSegment) (P : Prop), [s] = [] → P :=
      fun s P hnone => absurd hnone (List.cons_ne_nil s [])
    exact ⟨hsegment _ _, hsegment _ _, hsegment _ _, hsegment _ _, hsegment _ _, trivial⟩

/-- The message is out and the flow is closed, and the last acknowledgement changes nothing. -/
theorem messages_answered :
    (messagesFor query ((Connections.empty 4).messages answered)).map Carried.payload = [[7]] ∧
      ((Connections.empty 4).after answered).closed.contains query = true := by
  have h := (messages_of_flow ⟨[], rfl⟩ answered_streams).2.2.2.1
    ⟨querySegment 100 true false [], by decide, rfl⟩
    ⟨querySegment 104 false true [], by decide, rfl⟩ (by decide)
  have hmessages : messagesOf [0, 1, 7] = [[7]] := by decide +kernel
  rw [hmessages] at h
  exact ⟨h.1, h.2.2⟩

end PassiveDns.Stream
