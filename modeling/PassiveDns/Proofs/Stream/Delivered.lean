/-
  PassiveDns.Proofs.Stream.Delivered

  What a stream hands out. `output_eq_slice`: whatever was lost, repeated, out of
  order or refused, each octet from the anchor on is handed out once, in order and
  unaltered. `output_of_taken`: what was taken is never stuck, so the order in which
  it came does not matter, and the stream is finished exactly when it ended and all
  of it is out.
-/
import PassiveDns.Proofs.Stream.InOrder

namespace PassiveDns.Stream

variable {stream : Octets} {isn : UInt32} {capacity anchor : Nat}

/-! ## Short streams -/

/-- In a stream no longer than half of the circle every slice is within reach. -/
theorem reaches_of_short {order : Reorder} {slices : List Slice}
    (aligned : Aligned stream isn anchor order) (hshort : stream.length ≤ halfCircle)
    (hstop : ∀ slice ∈ slices, slice.stop ≤ stream.length)
    (hoffset : ∀ slice ∈ slices, slice.offset < halfCircle) :
    Session.Reaches stream isn anchor order slices := by
  induction slices generalizing order with
  | nil => exact trivial
  | cons slice rest ih =>
    have hslice := hstop slice (List.mem_cons_self ..)
    -- both lie in the stream, so they are no further apart than it is long
    have hnear : Near slice.offset (anchor + order.next) := by
      have hfits := aligned.fits
      have hlow := hoffset slice (List.mem_cons_self ..)
      unfold Near
      omega
    exact ⟨hnear, ih (accept_spec aligned hslice hnear).aligned
      (fun s hs => hstop s (List.mem_cons_of_mem _ hs))
      (fun s hs => hoffset s (List.mem_cons_of_mem _ hs))⟩

namespace Session

variable {session : Session} {call : Call}

theorem Holding.fitsCall_of_short (h : session.Holding stream isn capacity)
    (hshort : stream.length ≤ halfCircle) (hisOf : ∀ slice ∈ call.slices, slice.IsOf stream)
    (hoffset : ∀ slice ∈ session.pushed ++ call.slices, slice.offset < halfCircle) :
    session.FitsCall stream isn call := by
  refine ⟨hisOf, fun anchor hanchor => ?_, fun anchor _ _ slice hslice => ?_⟩
  · -- a call that starts the stream does so at `anchorBy`
    have heq : session.anchorBy call = anchor := by
      rw [step_anchor_of_none h.anchor] at hanchor
      split at hanchor
      · exact Option.some.inj hanchor
      · cases hanchor
    have hstarting : session.anchored isn anchor = .starting isn capacity anchor := by
      unfold anchored
      rw [h.order]
      rfl
    rw [hstarting]
    refine reaches_of_short (aligned_starting isn capacity ?_) hshort
      (fun slice hslice => (isOf_queue h hisOf slice hslice).stop_le)
      (fun slice hslice => hoffset slice (subset_of_mem_queue h.anchor hslice))
    rw [← heq]
    exact anchorBy_le h hisOf
  · have := hoffset slice (subset_of_mem_queue h.anchor hslice)
    omega

theorem Started.fitsCall_of_short (h : session.Started stream isn capacity anchor)
    (hshort : stream.length ≤ halfCircle) (hisOf : ∀ slice ∈ call.slices, slice.IsOf stream)
    (hoffset : ∀ slice ∈ call.slices, slice.offset < halfCircle) :
    session.FitsCall stream isn call := by
  refine ⟨hisOf, fun anchor' hanchor => ?_, fun _ hnone => ?_⟩
  · -- a stream that has started keeps its anchor
    obtain rfl : anchor = anchor' := by
      rw [step_anchor_of_some h.anchor_eq] at hanchor
      exact Option.some.inj hanchor
    have hsame : session.anchored isn anchor = session.order := by
      unfold anchored
      rw [← h.aligned.start, ← h.aligned.held]
    rw [hsame, queue_of_started h.anchor_eq]
    exact reaches_of_short h.aligned hshort (fun slice hslice => (hisOf slice hslice).stop_le)
      hoffset
  · rw [h.anchor_eq] at hnone
    cases hnone

/-- Slices of a short stream fit in any order. -/
theorem fits_of_short (isn : UInt32) (capacity : Nat) {calls : List Call}
    (hshort : stream.length ≤ halfCircle)
    (hisOf : ∀ slice ∈ calls.flatMap Call.slices, slice.IsOf stream)
    (hoffset : ∀ slice ∈ calls.flatMap Call.slices, slice.offset < halfCircle) :
    (start capacity).Fits stream isn calls := by
  -- first for a stream that has started, which then stays so
  have started (session : Session) (calls : List Call) (anchor : Nat)
      (h : session.Started stream isn capacity anchor)
      (hisOf : ∀ slice ∈ calls.flatMap Call.slices, slice.IsOf stream)
      (hoffset : ∀ slice ∈ calls.flatMap Call.slices, slice.offset < halfCircle) :
      session.Fits stream isn calls := by
    induction calls generalizing session with
    | nil => exact trivial
    | cons call rest ih =>
      simp only [List.flatMap_cons, List.forall_mem_append] at hisOf hoffset
      have fits := h.fitsCall_of_short hshort hisOf.1 hoffset.1
      exact ⟨fits, ih _ (h.step fits) hisOf.2 hoffset.2⟩
  -- then for one that holds, up to the call that starts it
  have holding (session : Session) (calls : List Call)
      (h : session.Holding stream isn capacity)
      (hpushed : ∀ slice ∈ session.pushed, slice.offset < halfCircle)
      (hisOf : ∀ slice ∈ calls.flatMap Call.slices, slice.IsOf stream)
      (hoffset : ∀ slice ∈ calls.flatMap Call.slices, slice.offset < halfCircle) :
      session.Fits stream isn calls := by
    induction calls generalizing session with
    | nil => exact trivial
    | cons call rest ih =>
      simp only [List.flatMap_cons, List.forall_mem_append] at hisOf hoffset
      have hpushed' : ∀ slice ∈ session.pushed ++ call.slices, slice.offset < halfCircle :=
        List.forall_mem_append.mpr ⟨hpushed, hoffset.1⟩
      have fits := h.fitsCall_of_short hshort hisOf.1 hpushed'
      by_cases hstart : session.Starts capacity call
      · exact ⟨fits, started _ _ _ (h.step_start fits hstart) hisOf.2 hoffset.2⟩
      · exact ⟨fits, ih _ (h.step_hold hisOf.1 hstart) hpushed' hisOf.2 hoffset.2⟩
  exact holding _ _ (holding_start stream isn capacity) (by simp [start]) hisOf hoffset

theorem startOf_append {held : List Slice} {calls : List Call}
    (h : startOf capacity held calls = some anchor) (more : List Call) :
    startOf capacity held (calls ++ more) = some anchor := by
  -- what decides the anchor lies in `calls`; the branches of `startOf` are the same for both
  induction calls generalizing held with
  | nil => cases h
  | cons call rest ih =>
    rw [List.cons_append]
    cases call with
    | push slice =>
      unfold startOf at h ⊢
      split
      · rename_i hsyn
        rw [if_pos hsyn] at h
        exact h
      · rename_i hsyn
        rw [if_neg hsyn] at h
        dsimp only at h ⊢
        split
        · rename_i hover
          rw [if_pos hover] at h
          exact h
        · rename_i hover
          rw [if_neg hover] at h
          exact ih h
    | anchor =>
      unfold startOf at h ⊢
      split
      · rename_i hempty
        rw [if_pos hempty] at h
        exact ih h
      · rename_i hempty
        rw [if_neg hempty] at h
        exact h

/-- As long as no SYN comes and there is room, a stream only holds. -/
theorem startOf_of_few {held slices : List Slice} (hclosed : ∀ slice ∈ slices, slice.syn = false)
    (hroom : (held ++ heldOf slices).length ≤ capacity) (rest : List Call) :
    startOf capacity held (slices.map Call.push ++ rest) =
      startOf capacity (held ++ heldOf slices) rest := by
  induction slices generalizing held with
  | nil => rw [heldOf, List.filter_nil, List.append_nil, List.map_nil, List.nil_append]
  | cons slice more ih =>
    have hslice : slice.syn = false := hclosed slice (List.mem_cons_self ..)
    have hsplit : heldOf (slice :: more) = heldOf [slice] ++ heldOf more :=
      heldOf_append [slice] more
    rw [hsplit, ← List.append_assoc] at hroom ⊢
    have hfew : ¬capacity < (held ++ heldOf [slice]).length := by
      rw [List.length_append] at hroom
      omega
    rw [← ih (fun s hs => hclosed s (List.mem_cons_of_mem _ hs)) hroom, List.map_cons,
      List.cons_append, startOf, hslice, if_neg Bool.false_ne_true]
    exact if_neg hfew

/-- A stream starts at offset zero if the SYN comes while it still holds. -/
theorem startOf_of_syn {held : List Slice} {slices : List Slice} {syn : Slice}
    (hsyn : syn.syn = true) (hclosed : ∀ slice ∈ slices, slice.syn = false)
    (hroom : (held ++ heldOf slices).length ≤ capacity) (after : List Call) :
    startOf capacity held (slices.map Call.push ++ .push syn :: after) = some 0 := by
  rw [startOf_of_few hclosed hroom, startOf, hsyn, if_pos rfl]

/-- Segments of a stream of six octets whose sequence numbers wrap: the end comes first,
    some octets come twice, and the SYN comes third. -/
def aroundTheWrap : List Call :=
  [.push ⟨4, 2, false, true, none⟩, .push ⟨1, 2, false, false, none⟩,
    .push ⟨0, 2, true, false, none⟩, .push ⟨2, 3, false, false, none⟩]

theorem aroundTheWrap_fits :
    (start 4).Fits [1, 2, 3, 4, 5, 6] 4294967292 aroundTheWrap := by
  refine fits_of_short _ _ ?_ ?_ ?_
  · unfold halfCircle
    decide
  · decide
  · unfold halfCircle
    decide

/-! ## What is handed out -/

/-- What was handed out came with the slices that were pushed. -/
theorem Started.covers (h : session.Started stream isn capacity anchor) :
    Covers session.pushed anchor (anchor + session.order.next) := by
  intro position hlow hhigh
  obtain ⟨slice, hslice, hhas⟩ := h.brought (position - anchor) (.inl (by omega))
  -- the position counted from the start of the stream
  have hback : anchor + (position - anchor) = position := by omega
  exact ⟨slice, hslice, hback ▸ hhas⟩

/-- Behind the octets that were handed out there is a real gap. -/
theorem Started.gap (h : session.Started stream isn capacity anchor) :
    ∀ slice ∈ session.taken, ¬slice.Has (anchor + session.order.next) := by
  intro slice hslice hhas
  have hat := h.taken slice hslice _ hhas (Nat.le_add_right ..)
  rw [Nat.add_sub_cancel_left] at hat
  rcases hat with hlt | ⟨w, hw, hle, _⟩
  · exact absurd hlt (Nat.lt_irrefl _)
  · have := h.aligned.gap w hw
    omega

/-- The next octet is the first that did not come. -/
theorem Started.next_eq (h : session.Started stream isn capacity anchor) (next : Nat)
    (hcovers : Covers session.taken anchor (anchor + next))
    (hgap : ∀ slice ∈ session.pushed, ¬slice.Has (anchor + next)) :
    session.order.next = next := by
  refine Nat.le_antisymm (Nat.le_of_not_lt fun hlt => ?_) (Nat.le_of_not_lt fun hlt => ?_)
  · obtain ⟨slice, hslice, hhas⟩ := h.covers (anchor + next) (Nat.le_add_right ..) (by omega)
    exact hgap slice hslice hhas
  · obtain ⟨slice, hslice, hhas⟩ :=
      hcovers (anchor + session.order.next) (Nat.le_add_right ..) (by omega)
    exact h.gap slice hslice hhas

/-- Calls that fit and have a start have started the stream there. -/
theorem started_of_startOf {calls : List Call} (fits : (start capacity).Fits stream isn calls)
    (hstart : startOf capacity [] calls = some anchor) :
    ((start capacity).run stream isn calls).Started stream isn capacity anchor := by
  rcases (holding_start stream isn capacity).run_cases fits with ⟨hnone, _⟩ | ⟨other, hsome, h⟩
  · cases hnone.symm.trans hstart
  · obtain rfl : other = anchor := Option.some.inj (hsome.symm.trans hstart)
    exact h

/-- Each octet is handed out once, in order and unaltered: at every moment what came
    out is the octet string from one fixed anchor up to the next octet, whatever was
    lost, repeated, overlapping, out of order or refused. -/
theorem output_eq_slice {calls before : List Call}
    (fits : (start capacity).Fits stream isn calls) (hbefore : before <+: calls) :
    (startOf capacity [] before = none ∧
      ((start capacity).run stream isn before).output = []) ∨
    ∃ anchor, startOf capacity [] before = some anchor ∧ startOf capacity [] calls = some anchor ∧
      anchor + ((start capacity).run stream isn before).order.next ≤ stream.length ∧
      joined ((start capacity).run stream isn before).output =
        stream.slice anchor ((start capacity).run stream isn before).order.next := by
  obtain ⟨after, rfl⟩ := hbefore
  have fits := ((fits_append ..).mp fits).1
  rcases (holding_start stream isn capacity).run_cases fits with ⟨hnone, h⟩ | ⟨anchor, hsome, h⟩
  · exact .inl ⟨hnone, h.output⟩
  · exact .inr ⟨anchor, hsome, startOf_append hsome after, h.aligned.fits, h.output⟩

/-- After the SYN the first three octets are out, and the last two wait for the fourth. -/
theorem output_aroundTheWrap_of_three :
    joined ((start 4).run [1, 2, 3, 4, 5, 6] 4294967292 (aroundTheWrap.take 3)).output =
      [1, 2, 3] := by
  have hstart : startOf 4 [] (aroundTheWrap.take 3) = some 0 := by decide
  have hfits : (start 4).Fits [1, 2, 3, 4, 5, 6] 4294967292 (aroundTheWrap.take 3) :=
    ((fits_append _ _ _ (aroundTheWrap.take 3) _).mp aroundTheWrap_fits).1
  have hpushed : ((start 4).run [1, 2, 3, 4, 5, 6] 4294967292 (aroundTheWrap.take 3)).pushed =
      (aroundTheWrap.take 3).flatMap Call.slices := run_pushed ..
  have htaken := ((holding_start ..).taken_of_few hfits (by decide)).trans hpushed
  have hnext := (started_of_startOf hfits hstart).next_eq 3 (by rw [htaken]; decide)
    (by rw [hpushed]; decide)
  rcases output_eq_slice aroundTheWrap_fits (List.take_prefix 3 aroundTheWrap) with
    ⟨hnone, _⟩ | ⟨anchor, hsome, _, _, hout⟩
  · rw [hstart] at hnone
    cases hnone
  · obtain rfl : 0 = anchor := Option.some.inj (hstart.symm.trans hsome)
    rw [hout, hnext]
    rfl

/-! ## Nothing is stuck -/

/-- Once all octets were taken, all of them are out. -/
theorem Started.next_of_covers (h : session.Started stream isn capacity anchor)
    (hcovers : Covers session.taken anchor stream.length) :
    anchor + session.order.next = stream.length := by
  have hfits := h.aligned.fits
  -- else the next octet would be one that was taken
  by_contra hne
  obtain ⟨slice, hslice, hhas⟩ := hcovers (anchor + session.order.next) (Nat.le_add_right ..)
    (by omega)
  exact h.gap slice hslice hhas

theorem Started.output_of_next (h : session.Started stream isn capacity anchor) :
    joined session.output = stream.drop anchor ↔
      anchor + session.order.next = stream.length := by
  have hfits := h.aligned.fits
  rw [h.output]
  constructor
  · intro heq
    have hlength := congrArg List.length heq
    rw [Octets.length_slice _ _ _ hfits, List.length_drop] at hlength
    omega
  · intro heq
    exact Octets.slice_to_end _ _ _ (Nat.le_of_eq heq.symm)

/-- Nothing waits once all octets are out. -/
theorem Started.hasPending_of_next (h : session.Started stream isn capacity anchor)
    (hnext : anchor + session.order.next = stream.length) : session.order.hasPending = false := by
  have hwaiting : session.order.waiting = [] := by
    refine List.eq_nil_iff_forall_not_mem.mpr fun w hw => ?_
    -- a piece has octets, and they would lie beyond the end
    have hgap := h.aligned.gap w hw
    have hpiece := h.aligned.laid.isOf w hw
    have hstop := hpiece.stop_le
    unfold Waiting.stop at hstop
    omega
  simp [Reorder.hasPending, hwaiting, h.aligned.held]

/-- A stream is finished once the end was seen and all octets before it are out. -/
theorem Started.isFinished_iff (h : session.Started stream isn capacity anchor)
    (hfin : ∀ slice ∈ session.pushed, slice.fin = true → slice.stop = stream.length) :
    session.order.isFinished = true ↔
      (∃ slice ∈ session.pushed, slice.fin = true) ∧
        anchor + session.order.next = stream.length := by
  have hfits := h.aligned.fits
  unfold Reorder.isFinished
  cases hend : session.order.finAt with
  | none =>
    -- no slice that was pushed ends the stream
    have hnone := h.finAt_none hend
    refine ⟨fun hfalse => (Bool.false_ne_true hfalse).elim, ?_⟩
    rintro ⟨⟨slice, hslice, hslicefin⟩, _⟩
    rw [hnone slice hslice] at hslicefin
    cases hslicefin
  | some stop =>
    obtain ⟨slice, hslice, hslicefin, hstop⟩ := h.finAt_some stop hend
    have hend := hfin slice hslice hslicefin
    simp only [decide_eq_true_eq]
    constructor
    · intro hle
      exact ⟨⟨slice, hslice, hslicefin⟩, by omega⟩
    · rintro ⟨_, hnext⟩
      omega

theorem Holding.isFinished (h : session.Holding stream isn capacity) :
    session.order.isFinished = false := by
  rw [h.order]
  rfl

/-- What was taken is never stuck. Every octet from the anchor on that came with a
    slice which was not refused is out, or waits, true to the stream, behind an octet
    that no such slice had. If those slices have all octets, then in whatever order they
    came all octets are out and nothing waits; the anchor is zero wherever the SYN
    stands, as long as no more is held before it than the stream may hold. The stream is
    finished exactly when it has a start, its end was seen, and all octets are out. -/
theorem output_of_taken {calls : List Call} (fits : (start capacity).Fits stream isn calls) :
    (∀ anchor, startOf capacity [] calls = some anchor →
      (∀ slice ∈ ((start capacity).run stream isn calls).taken, ∀ position,
        slice.Has position → anchor ≤ position →
        position < anchor + ((start capacity).run stream isn calls).order.next ∨
        ∃ w ∈ ((start capacity).run stream isn calls).order.waiting, w.IsOf stream anchor ∧
          anchor + w.offset ≤ position ∧ position < anchor + w.stop) ∧
      (∀ w ∈ ((start capacity).run stream isn calls).order.waiting,
        ((start capacity).run stream isn calls).order.next < w.offset) ∧
      (∀ slice ∈ ((start capacity).run stream isn calls).taken,
        ¬slice.Has (anchor + ((start capacity).run stream isn calls).order.next)) ∧
      (Covers ((start capacity).run stream isn calls).taken anchor stream.length →
        joined ((start capacity).run stream isn calls).output = stream.drop anchor ∧
        ((start capacity).run stream isn calls).order.hasPending = false)) ∧
    (∀ slices syn after, calls = slices.map Call.push ++ .push syn :: after →
      syn.syn = true → (∀ slice ∈ slices, slice.syn = false) →
      (heldOf slices).length ≤ capacity → startOf capacity [] calls = some 0) ∧
    ((∀ slice ∈ calls.flatMap Call.slices, slice.fin = true → slice.stop = stream.length) →
      (((start capacity).run stream isn calls).order.isFinished = true ↔
        ∃ anchor, startOf capacity [] calls = some anchor ∧
          (∃ slice ∈ calls.flatMap Call.slices, slice.fin = true) ∧
          joined ((start capacity).run stream isn calls).output = stream.drop anchor)) := by
  have hpushed : ((start capacity).run stream isn calls).pushed = calls.flatMap Call.slices :=
    run_pushed ..
  refine ⟨fun anchor hanchor => ?_, fun slices syn after hcalls hsyn hclosed hroom => ?_,
    fun hfin => ?_⟩
  · -- the first part: what is taken is out, or waits behind a gap
    have h := started_of_startOf fits hanchor
    refine ⟨?_, h.aligned.gap, h.gap, ?_⟩
    · intro slice hslice position hhas hle
      rcases h.taken slice hslice position hhas hle with hout | ⟨w, hw, hlow, hhigh⟩
      · exact .inl (by omega)
      · exact .inr ⟨w, hw, h.aligned.laid.isOf w hw, by omega, by omega⟩
    · intro hcovers
      have hnext := h.next_of_covers hcovers
      exact ⟨h.output_of_next.mpr hnext, h.hasPending_of_next hnext⟩
  · -- the second part: where the stream starts
    rw [hcalls]
    exact startOf_of_syn hsyn hclosed hroom after
  · -- the third part: a stream that still holds is not finished
    rw [← hpushed] at hfin ⊢
    rcases (holding_start stream isn capacity).run_cases fits with ⟨hnone, h⟩ | ⟨anchor, hsome, h⟩
    · rw [h.isFinished]
      constructor
      · intro hfalse
        cases hfalse
      · rintro ⟨anchor, hanchor, _⟩
        exact absurd (hnone.symm.trans hanchor) (by simp)
    · rw [h.isFinished_iff hfin]
      constructor
      · rintro ⟨hend, hnext⟩
        exact ⟨anchor, hsome, hend, h.output_of_next.mpr hnext⟩
      · rintro ⟨anchor', hanchor, hend, hout⟩
        obtain rfl : anchor = anchor' := Option.some.inj (hsome.symm.trans hanchor)
        exact ⟨hend, h.output_of_next.mp hout⟩

/-- The whole stream comes out and is finished, although its end came first. -/
theorem output_aroundTheWrap :
    joined ((start 4).run [1, 2, 3, 4, 5, 6] 4294967292 aroundTheWrap).output =
        [1, 2, 3, 4, 5, 6] ∧
      ((start 4).run [1, 2, 3, 4, 5, 6] 4294967292 aroundTheWrap).order.hasPending = false ∧
      ((start 4).run [1, 2, 3, 4, 5, 6] 4294967292 aroundTheWrap).order.isFinished = true := by
  obtain ⟨hstuck, hsyn, hend⟩ := output_of_taken aroundTheWrap_fits
  have hstart : startOf 4 [] aroundTheWrap = some 0 :=
    hsyn [⟨4, 2, false, true, none⟩, ⟨1, 2, false, false, none⟩] ⟨0, 2, true, false, none⟩
      [.push ⟨2, 3, false, false, none⟩] rfl rfl (by decide) (by decide)
  obtain ⟨_, _, _, hall⟩ := hstuck 0 hstart
  have htaken : ((start 4).run [1, 2, 3, 4, 5, 6] 4294967292 aroundTheWrap).taken =
      aroundTheWrap.flatMap Call.slices :=
    ((holding_start ..).taken_of_few aroundTheWrap_fits (by decide)).trans (run_pushed ..)
  obtain ⟨hout, hpending⟩ := hall (by rw [htaken]; decide)
  refine ⟨hout, hpending, (hend (by decide)).mpr ⟨0, hstart, by decide, hout⟩⟩

end Session

end PassiveDns.Stream
