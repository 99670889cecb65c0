/-
  PassiveDns.Proofs.Stream.InOrder

  What every call keeps. `Holding` describes a stream without a start, `Started`
  one that has it: what came out is the octet string from the anchor up to the
  next octet, and whatever a slice brought that was not refused is out or waits
  behind a gap. `Holding.run_cases` says that a session is in one of the two.
-/
import PassiveDns.Proofs.Stream.Start

namespace PassiveDns.Stream

variable {stream : Octets} {isn : UInt32} {capacity anchor : Nat}

/-! ## Nothing that was held is refused -/

theorem byOffset_head {slices rest : List Slice} {first : Slice}
    (h : byOffset slices = first :: rest) : first.offset = earliestOf slices := by
  have hperm : (first :: rest).Perm slices := h ▸ List.mergeSort_perm ..
  have hsorted : (first :: rest).Pairwise fun a b => decide (a.offset ≤ b.offset) = true := by
    rw [← h]
    refine List.pairwise_mergeSort ?_ ?_ slices
    · intro a b c hab hbc
      exact decide_eq_true (Nat.le_trans (of_decide_eq_true hab) (of_decide_eq_true hbc))
    · intro a b
      rcases Nat.le_total a.offset b.offset with hab | hab <;> simp [hab]
  have hfirst : first ∈ slices := hperm.subset (List.mem_cons_self ..)
  -- the head is no further than the earliest, which is among the sorted slices
  refine Nat.le_antisymm ?_ (earliestOf_le hfirst)
  cases hmin : (slices.map Slice.offset).min? with
  | none =>
    rw [List.min?_eq_none_iff, List.map_eq_nil_iff] at hmin
    rw [hmin] at hfirst
    cases hfirst
  | some least =>
    obtain ⟨s, hs, hleast⟩ := List.mem_map.mp (List.min?_mem hmin)
    have heq : earliestOf slices = least := by
      unfold earliestOf
      rw [hmin]
      rfl
    rw [heq, ← hleast]
    rcases List.mem_cons.mp (hperm.mem_iff.mpr hs) with rfl | hmem
    · exact Nat.le_refl _
    · exact of_decide_eq_true ((List.pairwise_cons.mp hsorted).1 s hmem)

namespace Session

variable {session : Session} {call : Call}

theorem mem_queue (h : session.anchor = none) {slice : Slice} :
    slice ∈ session.queue call ↔
      slice ∈ heldOf (session.pushed ++ call.slices) ∨
        (call.opens = true ∧ slice ∈ call.slices) := by
  have hsub : slice ∈ heldOf call.slices → slice ∈ call.slices := fun hs =>
    (List.mem_filter.mp hs).1
  -- the queue has the slice of a SYN at its end, whether or not it counts
  by_cases hopens : call.opens = true
  · rw [queue_of_opens h hopens, List.mem_append, heldOf_append, List.mem_append, byOffset,
      List.mem_mergeSort]
    tauto
  · rw [queue_of_holds h hopens, byOffset, List.mem_mergeSort]
    tauto

/-- Replaying what was held before a SYN refuses nothing. -/
theorem Holding.refused_of_opens (h : session.Holding stream isn capacity)
    (hopens : call.opens = true)
    (hisOf : ∀ slice ∈ session.queue call, slice.IsOf stream)
    (hopening : ∀ slice ∈ call.slices, call.opens = true → slice.offset = 0)
    (hle : session.anchorBy call ≤ stream.length)
    (hreaches : Reaches stream isn (session.anchorBy call)
      (.starting isn capacity (session.anchorBy call)) (session.queue call)) :
    ((Reorder.starting isn capacity (session.anchorBy call)).acceptAll
      (isn + 1 + UInt32.ofNat (session.anchorBy call))
      ((session.queue call).map (·.placed stream isn))).2.refused = 0 := by
  have haligned := aligned_starting isn capacity hle
  rw [queue_of_opens h.anchor hopens] at hisOf hreaches ⊢
  obtain ⟨hheld, hlast⟩ := (reaches_append _ _ _).mp hreaches
  have hroom : (heldOf (byOffset (heldOf session.pushed))).length ≤ capacity := by
    refine Nat.le_trans (List.length_filter_le ..) ?_
    unfold byOffset
    rw [List.length_mergeSort]
    exact h.few
  have hstop : ∀ s ∈ byOffset (heldOf session.pushed), s.stop ≤ stream.length := fun s hs =>
    (hisOf s (List.mem_append_left _ hs)).stop_le
  have hreplayed := acceptAll_refused haligned hstop hheld (by
    show 0 + _ ≤ capacity
    omega)
  cases call with
  | anchor => cases hopens
  | push slice =>
    -- the slice of the SYN starts where the stream does, so nothing is missing before it
    have hoffset := hopening slice (List.mem_singleton_self _) hopens
    have hslice := hisOf slice (List.mem_append_right _ (List.mem_singleton_self _))
    have hsyn := accept_refused isn hslice.stop_le hlast.1 (.inr (.inl (by rw [hoffset]; omega)))
    rw [List.map_append, Reorder.acceptAll_append]
    exact hsyn.trans hreplayed

/-- Replaying what was held from its earliest octet on refuses nothing. -/
theorem Holding.refused_of_holds (h : session.Holding stream isn capacity)
    (hopens : ¬call.opens = true)
    (hisOf : ∀ slice ∈ session.queue call, slice.IsOf stream)
    (hlength : (heldOf (session.pushed ++ call.slices)).length ≤ capacity + 1)
    (hle : session.anchorBy call ≤ stream.length)
    (hreaches : Reaches stream isn (session.anchorBy call)
      (.starting isn capacity (session.anchorBy call)) (session.queue call)) :
    ((Reorder.starting isn capacity (session.anchorBy call)).acceptAll
      (isn + 1 + UInt32.ofNat (session.anchorBy call))
      ((session.queue call).map (·.placed stream isn))).2.refused = 0 := by
  have haligned := aligned_starting isn capacity hle
  rw [queue_of_holds h.anchor hopens] at hisOf hreaches ⊢
  have hanchor : session.anchorBy call =
      earliestOf (heldOf (session.pushed ++ call.slices)) := if_neg hopens
  have hperm : (byOffset (heldOf (session.pushed ++ call.slices))).length ≤ capacity + 1 := by
    unfold byOffset
    rw [List.length_mergeSort]
    exact hlength
  cases hqueue : byOffset (heldOf (session.pushed ++ call.slices)) with
  | nil => rfl
  | cons first rest =>
    rw [hqueue] at hisOf hreaches hperm
    obtain ⟨hnear, hrest⟩ := hreaches
    -- the first slice starts at the anchor, so it does not wait
    have hoffset : first.offset ≤ session.anchorBy call +
        (Reorder.starting isn capacity (session.anchorBy call)).next := by
      rw [byOffset_head hqueue, hanchor]
      exact Nat.le_add_right ..
    have hstop := (hisOf first (List.mem_cons_self ..)).stop_le
    have hfirst := accept_spec haligned hstop hnear
    have hwaits := accept_length_le haligned hstop hnear hoffset
    have hsame := accept_refused isn hstop hnear (.inr (.inl hoffset))
    have hall := acceptAll_refused hfirst.aligned
      (fun s hs => (hisOf s (List.mem_cons_of_mem _ hs)).stop_le) hrest (by
        rw [hfirst.capacity]
        rw [List.length_cons] at hperm
        have hzero : (Reorder.starting isn capacity (session.anchorBy call)).waiting.length = 0 :=
          rfl
        have hcapacity : (Reorder.starting isn capacity (session.anchorBy call)).capacity =
          capacity := rfl
        have hheld : (heldOf rest).length ≤ rest.length := List.length_filter_le ..
        omega)
    exact hall.trans hsame

/-- Replaying what was held refuses nothing. -/
theorem Holding.refused_eq (h : session.Holding stream isn capacity)
    (hisOf : ∀ slice ∈ session.queue call, slice.IsOf stream)
    (hlength : (heldOf (session.pushed ++ call.slices)).length ≤ capacity + 1)
    (hopening : ∀ slice ∈ call.slices, call.opens = true → slice.offset = 0)
    (hle : session.anchorBy call ≤ stream.length)
    (hreaches : Reaches stream isn (session.anchorBy call)
      (.starting isn capacity (session.anchorBy call)) (session.queue call)) :
    ((Reorder.starting isn capacity (session.anchorBy call)).acceptAll
      (isn + 1 + UInt32.ofNat (session.anchorBy call))
      ((session.queue call).map (·.placed stream isn))).2.refused = 0 := by
  by_cases hopens : call.opens = true
  · exact h.refused_of_opens hopens hisOf hopening hle hreaches
  · exact h.refused_of_holds hopens hisOf hlength hle hreaches

/-! ## A session whose stream has its start -/

/-- What holds once a stream has its start: what came out is the octet string from
    the anchor up to the next octet, and what was taken is out or waits. -/
structure Started (stream : Octets) (isn : UInt32) (capacity anchor : Nat)
    (session : Session) : Prop where
  anchor_eq : session.anchor = some anchor
  aligned : Aligned stream isn anchor session.order
  capacity : session.order.capacity = capacity
  output : joined session.output = stream.slice anchor session.order.next
  taken : ∀ slice ∈ session.taken, ∀ position, slice.Has position → anchor ≤ position →
    session.order.HasAt (position - anchor)
  brought : ∀ offset, session.order.HasAt offset →
    ∃ slice ∈ session.pushed, slice.Has (anchor + offset)
  finAt_none : session.order.finAt = none → ∀ slice ∈ session.pushed, slice.fin = false
  finAt_some : ∀ stop, session.order.finAt = some stop →
    ∃ slice ∈ session.pushed, slice.fin = true ∧ stop = slice.stop - anchor
  times : ∀ chunk ∈ session.output, chunk.time ∈ session.pushed.map Slice.time
  waitTimes : ∀ w ∈ session.order.waiting, w.chunk.time ∈ session.pushed.map Slice.time
  room : session.order.waiting.length ≤ (heldOf session.pushed).length

end Session

theorem finAfter_cons (anchor : Nat) (finAt : Option Nat) (slice : Slice) (rest : List Slice) :
    finAfter anchor finAt (slice :: rest) =
      finAfter anchor (if slice.fin then some (slice.stop - anchor) else finAt) rest :=
  List.foldl_cons ..

theorem finAfter_eq_none {finAt : Option Nat} {slices : List Slice}
    (h : finAfter anchor finAt slices = none) :
    finAt = none ∧ ∀ slice ∈ slices, slice.fin = false := by
  induction slices generalizing finAt with
  | nil => exact ⟨h, by simp⟩
  | cons slice rest ih =>
    rw [finAfter_cons] at h
    obtain ⟨hif, hrest⟩ := ih h
    cases hfin : slice.fin with
    | true => simp [hfin] at hif
    | false =>
      rw [hfin, if_neg Bool.false_ne_true] at hif
      refine ⟨hif, fun s hs => ?_⟩
      rcases List.mem_cons.mp hs with rfl | hs
      · exact hfin
      · exact hrest s hs

theorem finAfter_eq_some {finAt : Option Nat} {slices : List Slice} {stop : Nat}
    (h : finAfter anchor finAt slices = some stop) :
    finAt = some stop ∨ ∃ slice ∈ slices, slice.fin = true ∧ stop = slice.stop - anchor := by
  induction slices generalizing finAt with
  | nil => exact .inl h
  | cons slice rest ih =>
    rw [finAfter_cons] at h
    rcases ih h with hif | ⟨s, hs, hfin, hstop⟩
    · cases hfin : slice.fin with
      | true =>
        rw [hfin, if_pos rfl, Option.some.injEq] at hif
        exact .inr ⟨slice, List.mem_cons_self .., hfin, hif.symm⟩
      | false =>
        rw [hfin, if_neg Bool.false_ne_true] at hif
        exact .inl hif
    · exact .inr ⟨s, List.mem_cons_of_mem _ hs, hfin, hstop⟩

namespace Session

variable {session : Session} {call : Call}

/-! ### One call -/

theorem step_order : (session.step stream isn call).order =
    (call.perform stream isn session.order).2 := rfl

theorem step_output : (session.step stream isn call).output =
    session.output ++ (call.perform stream isn session.order).1 := rfl

theorem step_pushed : (session.step stream isn call).pushed = session.pushed ++ call.slices := rfl

theorem step_taken_subset :
    ∀ slice ∈ (session.step stream isn call).taken, slice ∈ session.taken ++ call.slices := by
  intro slice hslice
  unfold step at hslice
  simp only at hslice
  split at hslice
  · exact hslice
  · exact List.mem_append_left _ hslice

theorem step_taken_of_refused
    (h : (session.step stream isn call).order.refused = session.order.refused) :
    (session.step stream isn call).taken = session.taken ++ call.slices :=
  if_pos h

theorem step_taken_of_not_refused
    (h : (session.step stream isn call).order.refused ≠ session.order.refused) :
    (session.step stream isn call).taken = session.taken :=
  if_neg h

theorem step_anchor_of_some (h : session.anchor = some anchor) :
    (session.step stream isn call).anchor = some anchor := by
  unfold step
  simp only [h]

theorem step_anchor_of_none (h : session.anchor = none) :
    (session.step stream isn call).anchor =
      if (call.perform stream isn session.order).2.isAnchored then some (session.anchorBy call)
      else none := by
  unfold step
  simp only [h]

/-- A stream goes on holding until a call starts it. -/
theorem Holding.step_hold (h : session.Holding stream isn capacity)
    (hisOf : ∀ slice ∈ call.slices, slice.IsOf stream) (hhold : ¬session.Starts capacity call) :
    (session.step stream isn call).Holding stream isn capacity := by
  have hperform := h.perform_hold hisOf hhold
  refine ⟨?_, ?_, ?_, ?_, ?_, ?_, ?_⟩
  · rw [step_order, hperform, step_pushed]
  · rw [step_output, hperform, h.output, List.append_nil]
  · rw [step_taken_of_refused, h.taken, step_pushed]
    rw [step_order, hperform, h.order]
    rfl
  · rw [step_anchor_of_none h.anchor, hperform]
    rfl
  · -- more than may be held would start the stream
    by_contra hover
    exact hhold (.inr (.inl (Nat.lt_of_not_le hover)))
  · intro slice hslice
    rcases List.mem_append.mp hslice with hslice | hslice
    · exact h.isOf slice hslice
    · exact hisOf slice hslice
  · intro slice hslice
    rcases List.mem_append.mp hslice with hslice | hslice
    · exact h.closed slice hslice
    · cases call with
      | anchor => cases hslice
      | push s =>
        rw [List.mem_singleton.mp hslice]
        -- so would a SYN
        by_contra hsyn
        exact hhold (.inl (by simpa [Call.opens] using hsyn))

end Session

theorem Reorder.push_syn_isAnchored (order : Reorder) (segment : Arrival) :
    (order.push true segment).2.isAnchored = true := by
  unfold Reorder.push Reorder.isAnchored
  dsimp only
  split
  · rename_i start hstart
    rw [Reorder.accept_start, hstart]
    rfl
  · rw [if_pos rfl]
    simp only [Reorder.accept_start, Reorder.anchor_start]
    rfl

namespace Session

variable {session : Session} {call : Call}

/-- The calls that start a stream. -/
theorem Holding.step_anchor (h : session.Holding stream isn capacity)
    (hisOf : ∀ slice ∈ call.slices, slice.IsOf stream) (hstart : session.Starts capacity call) :
    (session.step stream isn call).anchor = some (session.anchorBy call) := by
  rw [step_anchor_of_none h.anchor]
  refine if_pos ?_
  cases call with
  | anchor =>
    -- a flush starts the stream only if something is held
    have hne : heldOf session.pushed ≠ [] := by
      rcases hstart with hstart | hstart | ⟨_, hstart⟩
      · cases hstart
      · have hfew := h.few
        rw [Call.slices, List.append_nil] at hstart
        omega
      · exact hstart
    refine Reorder.anchorAtEarliest_isAnchored _ ?_
    rw [h.order]
    simpa [Reorder.holding] using hne
  | push slice =>
    cases hsyn : slice.syn with
    | true =>
      simp only [Call.perform, hsyn]
      exact Reorder.push_syn_isAnchored ..
    | false =>
      have hslice := hisOf slice (List.mem_singleton_self _)
      -- without a SYN the slice must be one too many
      have hover : capacity < (heldOf (session.pushed ++ [slice])).length := by
        rcases hstart with hstart | hstart | ⟨hstart, _⟩
        · rw [Call.opens, hsyn] at hstart
          cases hstart
        · exact hstart
        · cases hstart
      have hfew := h.few
      rw [heldOf_append, heldOf_singleton, List.length_append] at hover
      rw [h.order]
      simp only [Call.perform]
      rw [push_holding hslice hsyn]
      cases hcounts : slice.counts with
      | false =>
        -- a slice that does not count is never one too many
        rw [hcounts, if_neg Bool.false_ne_true, List.length_nil] at hover
        omega
      | true =>
        rw [hcounts, if_pos rfl, List.length_singleton] at hover
        rw [if_pos rfl, if_pos hover]
        refine Reorder.anchorAtEarliest_isAnchored _ ?_
        simp [Reorder.holding]

/-- The queue of a call that starts a stream lies behind the anchor. -/
theorem within_queue (h : session.Holding stream isn capacity)
    (fits : session.FitsCall stream isn call) (hstart : session.Starts capacity call) :
    Within (session.anchorBy call) (session.queue call) := by
  intro slice hslice
  -- the anchor is at zero, or at the first of all held offsets
  refine ⟨?_, fits.held _ h.anchor (h.step_anchor fits.isOf hstart) slice hslice⟩
  by_cases hopens : call.opens = true
  · rw [anchorBy, if_pos hopens]
    exact Nat.zero_le _
  · rw [anchorBy, if_neg hopens]
    rcases (mem_queue h.anchor).mp hslice with hheld | ⟨hopens', _⟩
    · exact earliestOf_le hheld
    · exact absurd hopens' hopens

theorem isOf_queue (h : session.Holding stream isn capacity)
    (hisOf : ∀ slice ∈ call.slices, slice.IsOf stream) :
    ∀ slice ∈ session.queue call, slice.IsOf stream := by
  intro slice hslice
  rcases (mem_queue h.anchor).mp hslice with hheld | ⟨_, hslice⟩
  · rcases List.mem_append.mp (List.mem_filter.mp hheld).1 with hpushed | hslice
    · exact h.isOf slice hpushed
    · exact hisOf slice hslice
  · exact hisOf slice hslice

theorem anchorBy_le (h : session.Holding stream isn capacity)
    (hisOf : ∀ slice ∈ call.slices, slice.IsOf stream) :
    session.anchorBy call ≤ stream.length := by
  by_cases hopens : call.opens = true
  · rw [anchorBy, if_pos hopens]
    exact Nat.zero_le _
  · rw [anchorBy, if_neg hopens]
    cases hheld : heldOf (session.pushed ++ call.slices) with
    | nil => exact Nat.zero_le _
    | cons first rest =>
      -- the anchor is no further than any held slice
      have hfirst : first ∈ session.queue call := by
        refine (mem_queue h.anchor).mpr (.inl ?_)
        rw [hheld]
        exact List.mem_cons_self ..
      have hstop := (isOf_queue h hisOf first hfirst).stop_le
      have hle : earliestOf (first :: rest) ≤ first.offset :=
        earliestOf_le (List.mem_cons_self ..)
      unfold Slice.stop at hstop
      omega

/-- What has octets or ends the stream is placed when the stream starts. -/
theorem mem_queue_of_counts (h : session.anchor = none) {slice : Slice}
    (hslice : slice ∈ session.pushed ++ call.slices) (hcounts : slice.counts = true) :
    slice ∈ session.queue call :=
  (mem_queue h).mpr (.inl (List.mem_filter.mpr ⟨hslice, hcounts⟩))

theorem counts_of_has {slice : Slice} {position : Nat} (h : slice.Has position) :
    slice.counts = true := by
  obtain ⟨hle, hlt⟩ := h
  have hlength : 0 < slice.length := by
    unfold Slice.stop at hlt
    omega
  simp [Slice.counts, hlength]

theorem counts_of_fin {slice : Slice} (h : slice.fin = true) : slice.counts = true := by
  simp [Slice.counts, h]

theorem subset_of_mem_queue (h : session.anchor = none) {slice : Slice}
    (hslice : slice ∈ session.queue call) : slice ∈ session.pushed ++ call.slices := by
  rcases (mem_queue h).mp hslice with hheld | ⟨_, hslice⟩
  · exact (List.mem_filter.mp hheld).1
  · exact List.mem_append_right _ hslice

theorem length_heldOf_byOffset (slices : List Slice) :
    (heldOf (byOffset (heldOf slices))).length = (heldOf slices).length := by
  have hperm := (List.mergeSort_perm (heldOf slices)
    fun a b => decide (a.offset ≤ b.offset)).filter Slice.counts
  have hidem : (heldOf slices).filter Slice.counts = heldOf slices := by
    unfold heldOf
    rw [List.filter_filter]
    congr 1
    funext slice
    exact Bool.and_self _
  rw [hidem] at hperm
  exact hperm.length_eq

theorem length_heldOf_queue (h : session.anchor = none) :
    (heldOf (session.queue call)).length = (heldOf (session.pushed ++ call.slices)).length := by
  by_cases hopens : call.opens = true
  · rw [queue_of_opens h hopens, heldOf_append, heldOf_append, List.length_append,
      List.length_append, length_heldOf_byOffset]
  · rw [queue_of_holds h hopens, length_heldOf_byOffset]

/-- A stream that gets its start places what it held, and refuses nothing. -/
theorem Holding.start_accepted (h : session.Holding stream isn capacity)
    (fits : session.FitsCall stream isn call) (hstart : session.Starts capacity call) :
    Accepted stream isn (session.anchorBy call) (.starting isn capacity (session.anchorBy call))
      (session.queue call) (call.perform stream isn session.order) ∧
    (session.step stream isn call).order.refused = 0 := by
  have hisOf := isOf_queue h fits.isOf
  have hle := anchorBy_le h fits.isOf
  -- the stream starts empty at the anchor, and places its queue from there
  have hreaches : Reaches stream isn (session.anchorBy call)
      (.starting isn capacity (session.anchorBy call)) (session.queue call) := by
    have hreaches := fits.reaches _ (h.step_anchor fits.isOf hstart)
    unfold anchored at hreaches
    rw [h.order] at hreaches
    exact hreaches
  -- a call brings one slice at most, so no more than one above the capacity
  have hlength : (heldOf (session.pushed ++ call.slices)).length ≤ capacity + 1 := by
    have hfew := h.few
    have hone : (heldOf call.slices).length ≤ 1 := by
      refine Nat.le_trans (List.length_filter_le ..) ?_
      cases call <;> simp [Call.slices]
    rw [heldOf_append, List.length_append]
    omega
  -- a SYN comes at the anchor, and so needs no room
  have hopening : ∀ slice ∈ call.slices, call.opens = true → slice.offset = 0 := by
    intro slice hslice hopens
    refine (fits.isOf slice hslice).syn_offset ?_
    cases call with
    | anchor => cases hslice
    | push s =>
      rw [List.mem_singleton.mp hslice]
      exact hopens
  have hrefused := h.refused_eq hisOf hlength hopening hle hreaches
  have accepted := acceptAll_spec (aligned_starting isn capacity hle)
    (fun slice hslice => (hisOf slice hslice).stop_le) hreaches
  rw [← h.perform_start fits.isOf hstart (within_queue h fits hstart)] at hrefused accepted
  exact ⟨accepted, hrefused⟩

theorem Holding.start_taken (h : session.Holding stream isn capacity)
    (fits : session.FitsCall stream isn call) (hstart : session.Starts capacity call) :
    (session.step stream isn call).taken = session.pushed ++ call.slices := by
  rw [step_taken_of_refused, h.taken]
  rw [(h.start_accepted fits hstart).2, h.order]
  rfl

/-- A stream that gets its start hands out what it held from there on. -/
theorem Holding.step_start (h : session.Holding stream isn capacity)
    (fits : session.FitsCall stream isn call) (hstart : session.Starts capacity call) :
    (session.step stream isn call).Started stream isn capacity (session.anchorBy call) := by
  have hanchor := h.step_anchor fits.isOf hstart
  obtain ⟨accepted, hrefused⟩ := h.start_accepted fits hstart
  obtain ⟨htimes, hwaitTimes⟩ := accepted.times
    (fun time => time ∈ (session.pushed ++ call.slices).map Slice.time)
    (fun w hw => absurd hw List.not_mem_nil)
    (fun slice hslice => List.mem_map_of_mem (subset_of_mem_queue h.anchor hslice))
  refine ⟨hanchor, accepted.aligned, accepted.capacity, ?_, ?_, ?_, ?_, ?_, ?_, hwaitTimes, ?_⟩
  · -- nothing was handed out while the stream held
    rw [step_output, h.output, List.nil_append, accepted.given]
    rfl
  · intro slice hslice position hhas hposition
    rw [h.start_taken fits hstart] at hslice
    -- a slice with octets was held, or came with this call
    have hmem := mem_queue_of_counts h.anchor hslice (counts_of_has hhas)
    exact accepted.taken hrefused slice hmem position hhas hposition
  · intro offset hat
    rcases accepted.brought offset hat with hbefore | ⟨slice, hslice, hhas⟩
    · -- a stream that has just started has nothing
      rcases hbefore with hlt | ⟨w, hw, _⟩
      · exact absurd hlt (Nat.not_lt_zero _)
      · exact absurd hw List.not_mem_nil
    · exact ⟨slice, subset_of_mem_queue h.anchor hslice, hhas⟩
  · intro hnone slice hslice
    rw [step_order, accepted.finAt] at hnone
    cases hfin : slice.fin with
    | false => rfl
    | true =>
      -- a slice that ends the stream counts, so it was placed
      have hmem := mem_queue_of_counts h.anchor hslice (counts_of_fin hfin)
      rw [← hfin]
      exact (finAfter_eq_none hnone).2 slice hmem
  · intro stop hstop
    rw [step_order, accepted.finAt] at hstop
    rcases finAfter_eq_some hstop with hnone | ⟨slice, hslice, hfin, heq⟩
    · cases hnone
    · exact ⟨slice, subset_of_mem_queue h.anchor hslice, hfin, heq⟩
  · rw [step_output, h.output, List.nil_append]
    exact htimes
  · have hlength := accepted.length_le
    rw [length_heldOf_queue h.anchor] at hlength
    exact Nat.le_trans hlength (Nat.le_of_eq (Nat.zero_add _))

/-- A stream that has its start places what a call brings. -/
theorem Started.perform_eq (h : session.Started stream isn capacity anchor)
    (hisOf : ∀ slice ∈ call.slices, slice.IsOf stream) :
    call.perform stream isn session.order =
      session.order.acceptAll (isn + 1 + UInt32.ofNat anchor)
        (call.slices.map (·.placed stream isn)) := by
  cases call with
  | anchor =>
    simp only [Call.perform, Reorder.anchorAtEarliest, h.aligned.start]
    rfl
  | push slice =>
    have harrival := Slice.arrival_eq_placed isn (hisOf slice (List.mem_singleton_self _))
    simp only [Call.perform, Reorder.push, h.aligned.start, harrival, Call.slices, List.map_cons,
      List.map_nil, Reorder.acceptAll, List.append_nil]

theorem Started.reaches (h : session.Started stream isn capacity anchor)
    (fits : session.FitsCall stream isn call) :
    Reaches stream isn anchor session.order call.slices := by
  have hreaches := fits.reaches anchor (step_anchor_of_some h.anchor_eq)
  have hsame : session.anchored isn anchor = session.order := by
    unfold anchored
    rw [← h.aligned.start, ← h.aligned.held]
  rw [queue_of_started h.anchor_eq, hsame] at hreaches
  exact hreaches

/-- Every further call keeps what holds of a stream that has its start. -/
theorem Started.step (h : session.Started stream isn capacity anchor)
    (fits : session.FitsCall stream isn call) :
    (session.step stream isn call).Started stream isn capacity anchor := by
  have hanchor : (session.step stream isn call).anchor = some anchor :=
    step_anchor_of_some h.anchor_eq
  have accepted := acceptAll_spec h.aligned
    (fun slice hslice => (fits.isOf slice hslice).stop_le) (h.reaches fits)
  rw [← h.perform_eq fits.isOf] at accepted
  obtain ⟨htimes, hwaitTimes⟩ := accepted.times
    (fun time => time ∈ (session.pushed ++ call.slices).map Slice.time)
    (fun w hw => by
      rw [List.map_append]
      exact List.mem_append_left _ (h.waitTimes w hw))
    (fun slice hslice => List.mem_map_of_mem (List.mem_append_right _ hslice))
  refine ⟨hanchor, accepted.aligned, accepted.capacity.trans h.capacity, ?_, ?_, ?_, ?_, ?_, ?_,
    hwaitTimes, ?_⟩
  · -- what is given now follows what was given before
    have hnext := accepted.le_next
    rw [step_output, joined_append, h.output, accepted.given, Octets.slice_append, step_order]
    congr 1
    omega
  · intro slice hslice position hhas hposition
    rcases List.mem_append.mp (step_taken_subset slice hslice) with hbefore | hnow
    · exact accepted.kept _ (h.taken slice hbefore position hhas hposition)
    · -- a slice of this call that was taken was not refused
      by_cases hsame : (session.step stream isn call).order.refused = session.order.refused
      · exact accepted.taken hsame slice hnow position hhas hposition
      · rw [step_taken_of_not_refused hsame] at hslice
        exact accepted.kept _ (h.taken slice hslice position hhas hposition)
  · intro offset hat
    rcases accepted.brought offset hat with hbefore | ⟨slice, hslice, hhas⟩
    · obtain ⟨slice, hslice, hhas⟩ := h.brought offset hbefore
      exact ⟨slice, List.mem_append_left _ hslice, hhas⟩
    · exact ⟨slice, List.mem_append_right _ hslice, hhas⟩
  · intro hnone slice hslice
    rw [step_order, accepted.finAt] at hnone
    obtain ⟨hbefore, hnow⟩ := finAfter_eq_none hnone
    rcases List.mem_append.mp hslice with hslice | hslice
    · exact h.finAt_none hbefore slice hslice
    · exact hnow slice hslice
  · intro stop hstop
    rw [step_order, accepted.finAt] at hstop
    rcases finAfter_eq_some hstop with hbefore | ⟨slice, hslice, hfin, heq⟩
    · obtain ⟨slice, hslice, hfin, heq⟩ := h.finAt_some stop hbefore
      exact ⟨slice, List.mem_append_left _ hslice, hfin, heq⟩
    · exact ⟨slice, List.mem_append_right _ hslice, hfin, heq⟩
  · intro chunk hchunk
    rcases List.mem_append.mp hchunk with hchunk | hchunk
    · rw [step_pushed, List.map_append]
      exact List.mem_append_left _ (h.times chunk hchunk)
    · exact htimes chunk hchunk
  · -- no more wait than came and count
    have hlength := accepted.length_le
    have hroom := h.room
    rw [step_order, step_pushed, heldOf_append, List.length_append]
    omega

theorem Started.refused_le (h : session.Started stream isn capacity anchor)
    (fits : session.FitsCall stream isn call) :
    session.order.refused ≤ (session.step stream isn call).order.refused := by
  have accepted := acceptAll_spec h.aligned
    (fun slice hslice => (fits.isOf slice hslice).stop_le) (h.reaches fits)
  rw [← h.perform_eq fits.isOf] at accepted
  exact accepted.refused_le

/-- With room for all that counts nothing is refused. -/
theorem Started.step_taken (h : session.Started stream isn capacity anchor)
    (fits : session.FitsCall stream isn call)
    (hroom : (heldOf (session.pushed ++ call.slices)).length ≤ capacity) :
    (session.step stream isn call).taken = session.taken ++ call.slices := by
  rw [heldOf_append, List.length_append] at hroom
  have hwaiting := h.room
  have hrefused := acceptAll_refused h.aligned
    (fun slice hslice => (fits.isOf slice hslice).stop_le) (h.reaches fits) (by
      rw [h.capacity]
      omega)
  rw [← h.perform_eq fits.isOf] at hrefused
  exact step_taken_of_refused hrefused

/-! ### Whole sessions -/

theorem Started.run (h : session.Started stream isn capacity anchor) {calls : List Call}
    (fits : session.Fits stream isn calls) :
    (session.run stream isn calls).Started stream isn capacity anchor := by
  induction calls generalizing session with
  | nil => exact h
  | cons call rest ih => exact ih (h.step fits.1) fits.2

theorem run_pushed (session : Session) (calls : List Call) :
    (session.run stream isn calls).pushed = session.pushed ++ calls.flatMap Call.slices := by
  induction calls generalizing session with
  | nil => simp [run]
  | cons call rest ih =>
    have hrest := ih (session.step stream isn call)
    rw [step_pushed] at hrest
    simpa [run] using hrest

/-- The call that starts a stream decides where it starts. -/
theorem Holding.startOf_of_starts (h : session.Holding stream isn capacity)
    (hstart : session.Starts capacity call) (rest : List Call) :
    startOf capacity (heldOf session.pushed) (call :: rest) = some (session.anchorBy call) := by
  unfold anchorBy
  cases call with
  | anchor =>
    -- the three ways to start, against the branches of `startOf`
    have hne : heldOf session.pushed ≠ [] := by
      rcases hstart with hstart | hstart | ⟨_, hstart⟩
      · cases hstart
      · have hfew := h.few
        rw [Call.slices, List.append_nil] at hstart
        omega
      · exact hstart
    simp [startOf, Call.opens, Call.slices, hne]
  | push slice =>
    cases hsyn : slice.syn with
    | true => simp [startOf, Call.opens, hsyn]
    | false =>
      have hover : capacity < (heldOf session.pushed ++ heldOf [slice]).length := by
        rcases hstart with hstart | hstart | ⟨hstart, _⟩
        · rw [Call.opens, hsyn] at hstart
          cases hstart
        · rw [← heldOf_append]
          exact hstart
        · cases hstart
      simp only [startOf, hsyn, Bool.false_eq_true, if_false, Call.opens, Call.slices,
        heldOf_append]
      exact if_pos hover

theorem startOf_of_not_starts (hhold : ¬session.Starts capacity call) (rest : List Call) :
    startOf capacity (heldOf session.pushed) (call :: rest) =
      startOf capacity (heldOf (session.pushed ++ call.slices)) rest := by
  unfold Starts at hhold
  cases call with
  | anchor =>
    have hempty : heldOf session.pushed = [] := by
      by_contra hne
      exact hhold (.inr (.inr ⟨rfl, hne⟩))
    simp [startOf, Call.slices, hempty]
  | push slice =>
    -- each branch of `startOf` that would give an anchor is one that starts
    have hsyn : slice.syn = false := by
      by_contra hsyn
      exact hhold (.inl (by simpa [Call.opens] using hsyn))
    have hroom : ¬capacity < (heldOf session.pushed ++ heldOf [slice]).length := by
      intro hover
      rw [← heldOf_append] at hover
      exact hhold (.inr (.inl hover))
    simp only [startOf, hsyn, Bool.false_eq_true, if_false, Call.slices, heldOf_append]
    exact if_neg hroom

/-- After calls that fit, a stream has started where `startOf` says, or still
    holds. -/
theorem Holding.run_cases (h : session.Holding stream isn capacity) {calls : List Call}
    (fits : session.Fits stream isn calls) :
    (startOf capacity (heldOf session.pushed) calls = none ∧
      (session.run stream isn calls).Holding stream isn capacity) ∨
    ∃ anchor, startOf capacity (heldOf session.pushed) calls = some anchor ∧
      (session.run stream isn calls).Started stream isn capacity anchor := by
  -- the stream holds up to the first call that starts it
  induction calls generalizing session with
  | nil => exact .inl ⟨rfl, h⟩
  | cons call rest ih =>
    by_cases hstart : session.Starts capacity call
    · exact .inr ⟨_, h.startOf_of_starts hstart rest, (h.step_start fits.1 hstart).run fits.2⟩
    · rw [startOf_of_not_starts hstart rest]
      exact ih (h.step_hold fits.1.isOf hstart) fits.2

theorem length_heldOf_le {slices more : List Slice}
    (h : (heldOf (slices ++ more)).length ≤ capacity) : (heldOf slices).length ≤ capacity := by
  rw [heldOf_append, List.length_append] at h
  omega

theorem Started.taken_of_few (h : session.Started stream isn capacity anchor) {calls : List Call}
    (fits : session.Fits stream isn calls) (htaken : session.taken = session.pushed)
    (hfew : (heldOf (session.pushed ++ calls.flatMap Call.slices)).length ≤ capacity) :
    (session.run stream isn calls).taken = (session.run stream isn calls).pushed := by
  induction calls generalizing session with
  | nil => exact htaken
  | cons call rest ih =>
    rw [List.flatMap_cons, ← List.append_assoc] at hfew
    refine ih (h.step fits.1) fits.2 ?_ hfew
    rw [h.step_taken fits.1 (length_heldOf_le hfew), htaken]
    rfl

/-- A stream that may hold all that counts refuses nothing, whatever the order. -/
theorem Holding.taken_of_few (h : session.Holding stream isn capacity) {calls : List Call}
    (fits : session.Fits stream isn calls)
    (hfew : (heldOf (session.pushed ++ calls.flatMap Call.slices)).length ≤ capacity) :
    (session.run stream isn calls).taken = (session.run stream isn calls).pushed := by
  -- as in `run_cases`: what is taken while holding is never refused
  induction calls generalizing session with
  | nil => exact h.taken
  | cons call rest ih =>
    rw [List.flatMap_cons, ← List.append_assoc] at hfew
    by_cases hstart : session.Starts capacity call
    · exact (h.step_start fits.1 hstart).taken_of_few fits.2 (h.start_taken fits.1 hstart) hfew
    · exact ih (h.step_hold fits.1.isOf hstart) fits.2 hfew

end Session

end PassiveDns.Stream
