/-
  PassiveDns.Proofs.Stream.Accounting

  What is counted of flows adds up. Each flow that was opened is open or left in one
  of three ways, and each segment that a stream refused is counted once, although one
  segment may make a stream replay many (`accounts_after_run`). A flush ends exactly
  the flows to which nothing came since before its cutoff, and forgets exactly the
  closings before it (`swept`).
-/
import Mathlib.Data.List.Induction
import PassiveDns.Proofs.Counters
import PassiveDns.Proofs.Stream.Lifecycle
import PassiveDns.Proofs.Stream.Reopening

namespace PassiveDns.Stream

/-! ## Counting events -/

/-- How often an event happened, out of a list of counts. -/
def timesOf (event : Event) : List (Event × Nat) → Nat
  | [] => 0
  | (other, count) :: rest => (if other = event then count else 0) + timesOf event rest

theorem timesOf_append (event : Event) (events more : List (Event × Nat)) :
    timesOf event (events ++ more) = timesOf event events + timesOf event more := by
  induction events with
  | nil => exact (Nat.zero_add _).symm
  | cons entry rest ih =>
    rw [List.cons_append, timesOf, timesOf, ih, Nat.add_assoc]

theorem count_eq (outcome : Outcome) (event : Event) :
    outcome.count event = timesOf event outcome.events := by
  have hfold : ∀ (events : List (Event × Nat)) (n : Nat),
      (events.filter fun e => e.1 = event).foldl (fun n e => n + e.2) n =
        n + timesOf event events := by
    intro events
    induction events with
    | nil => exact fun n => rfl
    | cons entry rest ih =>
      intro n
      obtain ⟨other, count⟩ := entry
      by_cases heq : other = event
      · rw [List.filter_cons_of_pos (by simpa using heq), List.foldl_cons, ih, timesOf,
          if_pos heq, Nat.add_assoc]
      · rw [List.filter_cons_of_neg (by simpa using heq), ih, timesOf, if_neg heq, Nat.zero_add]
  exact (hfold outcome.events 0).trans (Nat.zero_add _)

namespace Connections

variable {state : Connections}

/-! ## One step -/

/-- What a step counts, against the flows that leave with it and those that are open
    after it. -/
structure Moves (state : Connections) (gone : List Live) (events : List (Event × Nat))
    (after : Connections) : Prop where
  size : after.live.size + gone.length = state.live.size + timesOf .opened events
  left : timesOf .closed events + timesOf .reset events + timesOf .expired events = gone.length
  flushed : timesOf .flushed events ≤ timesOf .expired events
  refused : after.live.total Live.refused + (gone.map Live.refused).sum =
    state.live.total Live.refused + timesOf .segmentDropped events

theorem timesOf_notes {segment : TcpSegment} {now : Instant} {event : Event}
    (hopened : event ≠ .opened) (hdropped : event ≠ .segmentDropped) :
    timesOf event (state.notes segment now) = 0 := by
  unfold notes
  split <;> split <;> simp [timesOf, hopened.symm, hdropped.symm]

/-- A flow that takes a segment was open, or is counted as opened. -/
theorem size_notes (state : Connections) (segment : TcpSegment) (now : Instant) :
    (state.live.erase (Flow.ofSegment segment)).size + 1 =
      state.live.size + timesOf .opened (state.notes segment now) := by
  have hopened : timesOf .opened (state.notes segment now) +
      (state.live.get? (Flow.ofSegment segment)).toList.length = 1 := by
    have hdropped : timesOf .opened (if (state.flowFor segment now).refused <
        (state.taken segment now).2.refused then [(Event.segmentDropped, 1)] else []) = 0 := by
      split <;> rfl
    unfold notes Table.contains
    rw [timesOf_append, hdropped]
    cases state.live.get? (Flow.ofSegment segment) <;> rfl
  have hsize := Table.size_erase state.live (Flow.ofSegment segment)
  omega

/-- What a flow that takes a segment refused before, and the segment if it is refused now. -/
theorem refused_notes (proper : state.Proper) (segment : TcpSegment) (now : Instant) :
    (state.live.erase (Flow.ofSegment segment)).total Live.refused +
        (state.taken segment now).2.refused =
      state.live.total Live.refused + timesOf .segmentDropped (state.notes segment now) := by
  have hdropped : timesOf .segmentDropped (state.notes segment now) =
      if (state.flowFor segment now).refused < (state.taken segment now).2.refused
      then 1 else 0 := by
    unfold notes
    split <;> split <;> rfl
  -- a flow that is new refused nothing
  have hflow : (state.flowFor segment now).refused =
      ((state.live.get? (Flow.ofSegment segment)).toList.map Live.refused).sum := by
    unfold flowFor
    cases state.live.get? (Flow.ofSegment segment) with
    | none => rfl
    | some live => exact (Nat.add_zero _).symm
  have hrefused := Table.total_erase Live.refused state.live (Flow.ofSegment segment)
  have htaken := proper.refused_taken segment now
  rw [← hdropped] at htaken
  omega

theorem moves_segment (proper : state.Proper) (segment : TcpSegment) (now : Instant) :
    state.Moves (state.leaving (.segment segment now)) (state.assemble segment now).1.events
      (state.assemble segment now).2 := by
  have hturn := state.turn segment now
  generalize (state.assemble segment now).1.events = events at hturn ⊢
  generalize (state.assemble segment now).2 = after at hturn ⊢
  have hsize := state.size_notes segment now
  have hrefused := refused_notes proper segment now
  cases hturn with
  | reset hrst =>
    have hleaving : state.leaving (.segment segment now) =
        (state.live.get? (Flow.ofSegment segment)).toList := by
      simp [leaving, hrst]
    -- the flow leaves as it is, if it was open
    have hsize := Table.size_erase state.live (Flow.ofSegment segment)
    have hrefused := Table.total_erase Live.refused state.live (Flow.ofSegment segment)
    rw [hleaving]
    unfold Table.contains
    cases hget : state.live.get? (Flow.ofSegment segment) with
    | none =>
      rw [hget] at hsize hrefused
      exact ⟨hsize, rfl, Nat.le_refl _, hrefused⟩
    | some live =>
      rw [hget] at hsize hrefused
      exact ⟨hsize, rfl, Nat.le_refl _, hrefused⟩
  | passed hrst hnot hevents =>
    have hleaving : state.leaving (.segment segment now) = [] := by
      simp [leaving, hrst, hnot]
    rw [hleaving]
    rcases hevents with rfl | rfl <;> exact ⟨rfl, rfl, Nat.le_refl _, rfl⟩
  | stays hrst htakes hopen =>
    have hleaving : state.leaving (.segment segment now) = [] := by
      simp [leaving, hrst, hopen]
    rw [hleaving]
    refine ⟨?_, ?_, ?_, ?_⟩
    · rw [Table.size_set]
      exact hsize
    · rw [timesOf_notes (by decide) (by decide), timesOf_notes (by decide) (by decide),
        timesOf_notes (by decide) (by decide)]
      rfl
    · rw [timesOf_notes (by decide) (by decide)]
      exact Nat.zero_le _
    · rw [Table.total_set]
      exact hrefused
  | completes hrst htakes hfinished =>
    have hleaving : state.leaving (.segment segment now) = [(state.taken segment now).2] := by
      simp [leaving, hrst, htakes, hfinished]
    rw [hleaving]
    refine ⟨?_, ?_, ?_, ?_⟩
    · rw [timesOf_append]
      exact hsize
    · rw [timesOf_append, timesOf_append, timesOf_append, timesOf_notes (by decide) (by decide),
        timesOf_notes (by decide) (by decide), timesOf_notes (by decide) (by decide)]
      rfl
    · rw [timesOf_append, timesOf_notes (by decide) (by decide)]
      exact Nat.zero_le _
    · rw [timesOf_append]
      exact hrefused

theorem timesOf_closeAll {event : Event} (hexpired : event ≠ .expired)
    (hflushed : event ≠ .flushed) (flows : List (Flow × Live)) :
    timesOf event (closeAll flows).events = 0 := by
  unfold closeAll
  dsimp only
  rw [timesOf_append]
  split <;> split <;> simp [timesOf, hexpired.symm, hflushed.symm]

theorem expired_closeAll (flows : List (Flow × Live)) :
    timesOf .expired (closeAll flows).events = flows.length := by
  unfold closeAll
  dsimp only
  rw [timesOf_append]
  by_cases h : 0 < flows.length
  · rw [if_pos h]
    split <;> rfl
  · rw [if_neg h, Nat.eq_zero_of_not_pos h]
    split <;> rfl

/-- Only flows that end can have held octets. -/
theorem flushed_closeAll_le (flows : List (Flow × Live)) :
    timesOf .flushed (closeAll flows).events ≤ flows.length := by
  have hle : ((flows.map fun entry => entry.2.close).filter fun e => e.2.holdsData).length ≤
      flows.length :=
    Nat.le_trans (List.length_filter_le ..) (Nat.le_of_eq (List.length_map _))
  unfold closeAll
  dsimp only
  rw [timesOf_append]
  split <;> split <;> simp [timesOf, hle]

/-- A flush that ends some flows. -/
theorem moves_closeAll {flows : List (Flow × Live)} {after : Connections}
    (hsize : after.live.size + flows.length = state.live.size)
    (hrefused : after.live.total Live.refused + (flows.map fun entry => entry.2.refused).sum =
      state.live.total Live.refused)
    (hsound : ∀ entry ∈ flows, entry.2.order.Sound) :
    state.Moves (flows.map fun entry => entry.2.close.2) (closeAll flows).events after := by
  -- ending a flow refuses nothing
  have hclose : ((flows.map fun entry => entry.2.close.2).map Live.refused).sum =
      (flows.map fun entry => entry.2.refused).sum := by
    rw [List.map_map]
    exact congrArg List.sum (List.map_congr_left fun entry h => Live.refused_close (hsound entry h))
  have hopened : timesOf .opened (closeAll flows).events = 0 :=
    timesOf_closeAll (by decide) (by decide) flows
  refine ⟨?_, ?_, ?_, ?_⟩
  · rw [hopened, List.length_map]
    exact hsize
  · rw [timesOf_closeAll (by decide) (by decide), timesOf_closeAll (by decide) (by decide),
      expired_closeAll, List.length_map, Nat.zero_add]
  · rw [expired_closeAll]
    exact flushed_closeAll_le flows
  · rw [hclose, timesOf_closeAll (by decide) (by decide)]
    exact hrefused

theorem moves (proper : state.Proper) (input : Input) :
    state.Moves (state.leaving input) (state.perform input).1.events (state.perform input).2 := by
  cases input with
  | segment segment now => exact moves_segment proper segment now
  | flushOlderThan cutoff =>
    -- each flow is either kept or ended
    have hparts : ∀ (flow : Flow) (live : Live), decide (live.lastSeen < cutoff) =
        !decide (cutoff ≤ live.lastSeen) := by
      intro flow live
      rw [← decide_not]
      exact decide_eq_decide.mpr Nat.not_le.symm
    have hsize := Table.total_filter_add (fun _ => 1) state.live hparts
    have hrefused := Table.total_filter_add Live.refused state.live hparts
    rw [Table.total_one, Table.total_one, Table.total_one] at hsize
    exact moves_closeAll hsize hrefused fun entry h => proper.sound entry (Table.mem_filter.mp h).1
  | flushAll => exact moves_closeAll (Nat.zero_add _) (Nat.zero_add _) proper.sound

/-! ## Whole runs -/

/-- How often an event happened during some steps. -/
def counted (event : Event) (state : Connections) : List Input → Nat
  | [] => 0
  | input :: rest =>
    (state.perform input).1.count event + (state.perform input).2.counted event rest

/-- All flows that left during some steps. -/
def departed (state : Connections) : List Input → List Live
  | [] => []
  | input :: rest => state.leaving input ++ (state.perform input).2.departed rest

/-- What was counted during some steps adds up. -/
structure Balanced (state : Connections) (inputs : List Input) : Prop where
  opened : counted .opened state inputs + state.live.size =
    counted .closed state inputs + counted .reset state inputs + counted .expired state inputs +
      (state.after inputs).live.size
  left : counted .closed state inputs + counted .reset state inputs +
    counted .expired state inputs = (state.departed inputs).length
  flushed : counted .flushed state inputs ≤ counted .expired state inputs
  dropped : counted .segmentDropped state inputs + state.live.total Live.refused =
    ((state.departed inputs).map Live.refused).sum + (state.after inputs).live.total Live.refused

theorem balanced (proper : state.Proper) (inputs : List Input) : state.Balanced inputs := by
  induction inputs generalizing state with
  | nil =>
    exact ⟨by simp [counted, after], rfl, Nat.le_refl _, by simp [counted, departed, after]⟩
  | cons input rest ih =>
    have first := moves proper input
    have others := ih (perform_proper proper input)
    have hafter : state.after (input :: rest) = (state.perform input).2.after rest := rfl
    obtain ⟨hsize, hleft, hflushed, hrefused⟩ := first
    obtain ⟨hopened, hleft', hflushed', hdropped⟩ := others
    refine ⟨?_, ?_, ?_, ?_⟩
    · simp only [counted, count_eq, hafter]
      omega
    · simp only [counted, departed, count_eq, List.length_append]
      omega
    · simp only [counted, count_eq]
      omega
    · simp only [counted, departed, count_eq, hafter, List.map_append, List.sum_append]
      omega

/-! ## The counters -/

/-- What the counters are told of an outcome. -/
def tally (version : IpVersion) (outcome : Outcome) : List (Series × Nat) :=
  outcome.events.map fun event => (.streams version event.1.label, event.2)

/-- The counters after some steps. -/
def measured (version : IpVersion) (metrics : Metrics) (state : Connections) :
    List Input → Metrics
  | [] => metrics
  | input :: rest =>
    (state.perform input).2.measured version
      (metrics.addAll (tally version (state.perform input).1)) rest

theorem label_injective {event other : Event} (h : event.label = other.label) : event = other := by
  cases event <;> cases other <;> first | rfl | exact absurd h (by decide)

/-- Of an outcome's tally as much is for the series of an event as it happened. -/
theorem amountOf_tally (version : IpVersion) (event : Event) (events : List (Event × Nat)) :
    Metrics.amountOf (.streams version event.label)
        (events.map fun e => (.streams version e.1.label, e.2)) = timesOf event events := by
  induction events with
  | nil => rfl
  | cons entry rest ih =>
    have hseries : (Series.streams version entry.1.label = .streams version event.label) =
        (entry.1 = event) :=
      propext ⟨fun hsame => label_injective (Series.streams.inj hsame).2, fun heq => by rw [heq]⟩
    rw [timesOf, ← ih]
    unfold Metrics.amountOf
    rw [List.map_cons, List.map_cons, List.sum_cons]
    simp only [hseries]

theorem value_measured (version : IpVersion) (event : Event) (inputs : List Input)
    {state : Connections} {metrics : Metrics} {count : Nat}
    (h : metrics.value (.streams version event.label) = (count : Int) % 18446744073709551616) :
    (state.measured version metrics inputs).value (.streams version event.label) =
      ((count + counted event state inputs : Nat) : Int) % 18446744073709551616 := by
  induction inputs generalizing state metrics count with
  | nil => exact h
  | cons input rest ih =>
    have hinput := Metrics.Shows.addAll h (tally version (state.perform input).1)
    unfold tally at hinput
    rw [amountOf_tally] at hinput
    rw [counted, ← Nat.add_assoc, count_eq]
    exact ih hinput

/-! ## Since when -/

theorem after_snoc (state : Connections) (inputs : List Input) (input : Input) :
    state.after (inputs ++ [input]) = ((state.after inputs).perform input).2 :=
  List.foldl_append ..

/-- The last segment of a flow came at a time, and the flow took it. -/
def LastTaken (state : Connections) (inputs : List Input) (flow : Flow) (time : Instant) : Prop :=
  ∃ early segment late, inputs = early ++ .segment segment time :: late ∧
    Flow.ofSegment segment = flow ∧ (state.after early).takes segment = true ∧
    segmentsFor flow late = []

theorem LastTaken.snoc {inputs : List Input} {flow : Flow} {time : Instant}
    (h : LastTaken state inputs flow time) {input : Input}
    (hother : segmentsFor flow [input] = []) :
    LastTaken state (inputs ++ [input]) flow time := by
  obtain ⟨early, segment, late, hinputs, hflow, htakes, hlate⟩ := h
  refine ⟨early, segment, late ++ [input], ?_, hflow, htakes, ?_⟩
  · rw [hinputs, List.append_assoc, List.cons_append]
  · rw [segmentsFor_append, hlate, hother, List.append_nil]

/-- A flow was closed at a time, and that has been remembered since. -/
def ClosedSince (state : Connections) (inputs : List Input) (flow : Flow) (time : Instant) :
    Prop :=
  ∃ early segment late, inputs = early ++ .segment segment time :: late ∧
    Flow.ofSegment segment = flow ∧ (state.after early).Closes segment time ∧
    ∀ more, more <+: late →
      (state.after (early ++ .segment segment time :: more)).closed.get? flow = some time

theorem ClosedSince.snoc {inputs : List Input} {flow : Flow} {time : Instant}
    (h : ClosedSince state inputs flow time) {input : Input}
    (hkept : (state.after (inputs ++ [input])).closed.get? flow = some time) :
    ClosedSince state (inputs ++ [input]) flow time := by
  obtain ⟨early, segment, late, rfl, hflow, hcloses, hsince⟩ := h
  rw [List.append_assoc, List.cons_append] at hkept ⊢
  refine ⟨early, segment, late ++ [input], rfl, hflow, hcloses, fun more hmore => ?_⟩
  rcases List.prefix_concat_iff.mp hmore with heq | hmore
  · rw [heq]
    exact hkept
  · exact hsince more hmore

/-- A flow that is open takes all that comes for it but a reset. -/
theorem Proper.takes_of_live (proper : state.Proper) {segment : TcpSegment}
    (hlive : state.live.contains (Flow.ofSegment segment) = true) (hrst : segment.rst = false) :
    state.takes segment = true := by
  simp [takes, hrst, hlive, proper.apart _ hlive]

theorem lastTaken {inputs : List Input} (proper : state.Proper) (hnone : state.live = .empty)
    {flow : Flow} {live : Live} (h : (state.after inputs).live.get? flow = some live) :
    LastTaken state inputs flow live.lastSeen := by
  -- the last step that changed what is kept of the flow
  induction inputs using List.reverseRecOn with
  | nil =>
    have hempty : state.live.get? flow = some live := h
    rw [hnone] at hempty
    cases hempty
  | append_singleton before input ih =>
    have hproper := after_proper proper before
    rw [after_snoc] at h
    cases input with
    | flushOlderThan cutoff =>
      replace h : ((state.after before).live.filter _).get? flow = some live := h
      rw [Table.get?_filter, Option.filter_eq_some_iff] at h
      exact (ih h.1).snoc rfl
    | flushAll => cases h
    | segment segment now =>
      by_cases hflow : Flow.ofSegment segment = flow
      · subst hflow
        have hturn := (state.after before).turn segment now
        replace h : ((state.after before).assemble segment now).2.live.get?
            (Flow.ofSegment segment) = some live := h
        generalize ((state.after before).assemble segment now).1.events = events at hturn
        generalize ((state.after before).assemble segment now).2 = after at hturn h
        cases hturn with
        | reset => simp at h
        | completes => simp at h
        | passed hrst hnot =>
          -- nothing but a reset passes a flow by that is open
          have hlive : (state.after before).live.contains (Flow.ofSegment segment) = true := by
            rw [Table.contains, h]
            rfl
          exact absurd ((hproper.takes_of_live hlive hrst).symm.trans hnot) (by decide)
        | stays hrst htakes =>
          rw [Table.get?_set, if_pos rfl] at h
          obtain rfl := Option.some.inj h
          rw [taken, Live.take_lastSeen]
          exact ⟨before, segment, [], rfl, rfl, htakes, rfl⟩
      · have hsame : ((state.after before).assemble segment now).2.live.get? flow =
            (state.after before).live.get? flow := (assemble_other hflow).1
        refine (ih (hsame.symm.trans h)).snoc ?_
        simp [segmentsFor, Input.segments, hflow]

theorem closedSince {inputs : List Input} (hnone : state.closed = .empty) {flow : Flow}
    {time : Instant} (h : (state.after inputs).closed.get? flow = some time) :
    ClosedSince state inputs flow time := by
  induction inputs using List.reverseRecOn with
  | nil =>
    have hempty : state.closed.get? flow = some time := h
    rw [hnone] at hempty
    cases hempty
  | append_singleton before input ih =>
    have hkept := h
    rw [after_snoc] at h
    cases input with
    | flushOlderThan cutoff =>
      replace h : ((state.after before).closed.filter _).get? flow = some time := h
      rw [Table.get?_filter, Option.filter_eq_some_iff] at h
      exact (ih h.1).snoc hkept
    | flushAll => cases h
    | segment segment now =>
      by_cases hflow : Flow.ofSegment segment = flow
      · subst hflow
        -- if the segment closes the flow, it is remembered from now on
        have hcloses (hcloses : (state.after before).Closes segment now) (htime : now = time) :
            ClosedSince state (before ++ [.segment segment now]) (Flow.ofSegment segment) time := by
          subst htime
          refine ⟨before, segment, [], rfl, rfl, hcloses, fun more hmore => ?_⟩
          rw [List.prefix_nil.mp hmore]
          exact hkept
        have hturn := (state.after before).turn segment now
        replace h : ((state.after before).assemble segment now).2.closed.get?
            (Flow.ofSegment segment) = some time := h
        unfold Closes at hcloses
        generalize ((state.after before).assemble segment now).1.events = events at hturn hcloses
        generalize ((state.after before).assemble segment now).2 = after at hturn h
        cases hturn with
        | reset hrst =>
          rw [Table.get?_set, if_pos rfl] at h
          exact hcloses (.inl hrst) (Option.some.inj h)
        | completes =>
          rw [Table.get?_set, if_pos rfl] at h
          exact hcloses (.inr (List.mem_append_right _ (List.mem_singleton_self _)))
            (Option.some.inj h)
        | passed => exact (ih h).snoc hkept
        | stays => simp at h
      · have hsame : ((state.after before).assemble segment now).2.closed.get? flow =
            (state.after before).closed.get? flow := (assemble_other hflow).2
        exact (ih (hsame.symm.trans h)).snoc hkept

/-- What a flush with a cutoff leaves after some steps: the flows that took a segment at
    the cutoff or later, and the closings of then or later, all of them. -/
structure Swept (state : Connections) (inputs : List Input) (cutoff : Instant) : Prop where
  live_since : ∀ flow live,
    (state.after (inputs ++ [.flushOlderThan cutoff])).live.get? flow = some live →
      cutoff ≤ live.lastSeen ∧ LastTaken state inputs flow live.lastSeen
  closed_since : ∀ flow time,
    (state.after (inputs ++ [.flushOlderThan cutoff])).closed.get? flow = some time →
      cutoff ≤ time ∧ ClosedSince state inputs flow time
  live_kept : ∀ flow live, (state.after inputs).live.get? flow = some live →
    cutoff ≤ live.lastSeen →
      (state.after (inputs ++ [.flushOlderThan cutoff])).live.get? flow = some live
  closed_kept : ∀ flow time, (state.after inputs).closed.get? flow = some time → cutoff ≤ time →
    (state.after (inputs ++ [.flushOlderThan cutoff])).closed.get? flow = some time

theorem swept (capacity : Nat) (inputs : List Input) (cutoff : Instant) :
    (empty capacity).Swept inputs cutoff := by
  have hlive (flow : Flow) : ((empty capacity).after
      (inputs ++ [.flushOlderThan cutoff])).live.get? flow =
      (((empty capacity).after inputs).live.get? flow).filter fun live =>
        cutoff ≤ live.lastSeen := by
    rw [after_snoc]
    exact Table.get?_filter ..
  have hclosed (flow : Flow) : ((empty capacity).after
      (inputs ++ [.flushOlderThan cutoff])).closed.get? flow =
      (((empty capacity).after inputs).closed.get? flow).filter fun time => cutoff ≤ time := by
    rw [after_snoc]
    exact Table.get?_filter ..
  refine ⟨fun flow live h => ?_, fun flow time h => ?_, fun flow live h hsince => ?_,
    fun flow time h hsince => ?_⟩
  · rw [hlive, Option.filter_eq_some_iff] at h
    exact ⟨of_decide_eq_true h.2, lastTaken (proper_empty capacity) rfl h.1⟩
  · rw [hclosed, Option.filter_eq_some_iff] at h
    exact ⟨of_decide_eq_true h.2, closedSince rfl h.1⟩
  · rw [hlive, h, Option.filter_eq_some_iff]
    exact ⟨rfl, decide_eq_true hsince⟩
  · rw [hclosed, h, Option.filter_eq_some_iff]
    exact ⟨rfl, decide_eq_true hsince⟩

/-- Whatever connections are told from the start on, at whatever times: no flow is both
    open and remembered as closed, none that is open is finished, and each has the
    addresses and ports under which it is kept. Each flow that was opened is open or was
    closed, reset or expired; what was dropped is what the streams of all these flows
    refused; and the counters say so. A flush ends and forgets what is older than its
    cutoff and nothing else. -/
theorem accounts_after_run (version : IpVersion) (capacity : Nat) (inputs : List Input) :
    ((empty capacity).after inputs).Proper ∧
      counted .opened (empty capacity) inputs =
        counted .closed (empty capacity) inputs + counted .reset (empty capacity) inputs +
          counted .expired (empty capacity) inputs + ((empty capacity).after inputs).live.size ∧
      counted .closed (empty capacity) inputs + counted .reset (empty capacity) inputs +
          counted .expired (empty capacity) inputs = ((empty capacity).departed inputs).length ∧
      counted .flushed (empty capacity) inputs ≤ counted .expired (empty capacity) inputs ∧
      counted .segmentDropped (empty capacity) inputs =
        (((empty capacity).departed inputs).map Live.refused).sum +
          ((empty capacity).after inputs).live.total Live.refused ∧
      (∀ event, ((empty capacity).measured version .empty inputs).value
          (.streams version event.label) =
        (counted event (empty capacity) inputs : Int) % 18446744073709551616) ∧
      (∀ flow live, ((empty capacity).after inputs).live.get? flow = some live →
        LastTaken (empty capacity) inputs flow live.lastSeen) ∧
      (∀ flow time, ((empty capacity).after inputs).closed.get? flow = some time →
        ClosedSince (empty capacity) inputs flow time) ∧
      ∀ cutoff, (empty capacity).Swept inputs cutoff := by
  have proper := proper_empty capacity
  have hbalanced := balanced proper inputs
  refine ⟨after_proper proper inputs, hbalanced.opened, hbalanced.left, hbalanced.flushed,
    hbalanced.dropped, fun event => ?_, fun flow live h => lastTaken proper rfl h,
    fun flow time h => closedSince rfl h, swept capacity inputs⟩
  have hzero : Metrics.empty.value (.streams version event.label) = ((0 : Nat) : Int) %
      18446744073709551616 := by
    simp [Metrics.value, Metrics.empty]
  rw [value_measured version event inputs hzero, Nat.zero_add]

end Connections

end PassiveDns.Stream
