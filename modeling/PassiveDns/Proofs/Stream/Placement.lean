/-
  PassiveDns.Proofs.Stream.Placement

  Placing slices into a stream whose start is known. `Aligned` is the invariant:
  what waits are true pieces of the stream, in order, all of them behind a gap.
  `accept_spec` says all that placing one slice does, and `acceptAll_spec` what
  placing several does.
-/
import PassiveDns.Proofs.Stream.Waiting

namespace PassiveDns.Stream

variable {stream : Octets} {isn : UInt32} {anchor : Nat}

/-! ## A stream whose start is known -/

/-- A stream that starts at an offset `anchor` of an octet string and has handed
    out nothing but that string so far. -/
structure Aligned (stream : Octets) (isn : UInt32) (anchor : Nat) (order : Reorder) : Prop where
  start : order.start = some (isn + 1 + UInt32.ofNat anchor)
  held : order.held = []
  fits : anchor + order.next ≤ stream.length
  laid : Laid stream anchor order.waiting
  gap : ∀ w ∈ order.waiting, order.next < w.offset

/-- Whether the octet at an offset from the start was handed out or waits. -/
def Reorder.HasAt (order : Reorder) (offset : Nat) : Prop :=
  offset < order.next ∨ WaitsAt order.waiting offset

/-- Where the stream ends after slices were placed, from where it ended before. -/
def finAfter (anchor : Nat) (finAt : Option Nat) (slices : List Slice) : Option Nat :=
  slices.foldl (fun finAt slice => if slice.fin then some (slice.stop - anchor) else finAt) finAt

/-- All that placing slices does to a stream. -/
structure Accepted (stream : Octets) (isn : UInt32) (anchor : Nat) (order : Reorder)
    (slices : List Slice) (result : List Chunk × Reorder) : Prop where
  aligned : Aligned stream isn anchor result.2
  capacity : result.2.capacity = order.capacity
  le_next : order.next ≤ result.2.next
  given : joined result.1 = stream.slice (anchor + order.next) (result.2.next - order.next)
  kept : ∀ offset, order.HasAt offset → result.2.HasAt offset
  brought : ∀ offset, result.2.HasAt offset →
    order.HasAt offset ∨ ∃ slice ∈ slices, slice.Has (anchor + offset)
  refused_le : order.refused ≤ result.2.refused
  taken : result.2.refused = order.refused →
    ∀ slice ∈ slices, ∀ position, slice.Has position → anchor ≤ position →
      result.2.HasAt (position - anchor)
  finAt : result.2.finAt = finAfter anchor order.finAt slices
  length_le : result.2.waiting.length ≤ order.waiting.length + (heldOf slices).length
  times : ∀ T : Option Timestamp → Prop, (∀ w ∈ order.waiting, T w.chunk.time) →
    (∀ slice ∈ slices, T slice.time) →
    (∀ chunk ∈ result.1, T chunk.time) ∧ ∀ w ∈ result.2.waiting, T w.chunk.time

theorem Accepted.refl {order : Reorder} (h : Aligned stream isn anchor order) :
    Accepted stream isn anchor order [] ([], order) where
  aligned := h
  capacity := rfl
  le_next := Nat.le_refl _
  given := by simp [joined, Octets.slice_zero]
  kept := fun _ h => h
  brought := fun _ h => .inl h
  refused_le := Nat.le_refl _
  taken := by simp
  finAt := rfl
  length_le := Nat.le_refl _
  times := fun T hT _ => ⟨by simp, hT⟩

/-- Placing slices and then further ones is placing all of them. -/
theorem Accepted.trans {order : Reorder} {slices more : List Slice}
    {first second : List Chunk × Reorder}
    (h : Accepted stream isn anchor order slices first)
    (h' : Accepted stream isn anchor first.2 more second) :
    Accepted stream isn anchor order (slices ++ more) (first.1 ++ second.1, second.2) where
  aligned := h'.aligned
  capacity := h'.capacity.trans h.capacity
  le_next := Nat.le_trans h.le_next h'.le_next
  given := by
    have hfirst := h.le_next
    have hsecond := h'.le_next
    -- what the second step gives starts where the first one stopped
    have hmiddle : anchor + first.2.next = anchor + order.next + (first.2.next - order.next) := by
      omega
    rw [joined_append, h.given, h'.given, hmiddle, Octets.slice_append]
    congr 1
    show _ = second.2.next - order.next
    omega
  kept := fun offset hat => h'.kept offset (h.kept offset hat)
  brought := by
    intro offset hat
    rcases h'.brought offset hat with hbefore | ⟨slice, hslice, hhas⟩
    · rcases h.brought offset hbefore with hat | ⟨slice, hslice, hhas⟩
      · exact .inl hat
      · exact .inr ⟨slice, List.mem_append_left _ hslice, hhas⟩
    · exact .inr ⟨slice, List.mem_append_right _ hslice, hhas⟩
  refused_le := Nat.le_trans h.refused_le h'.refused_le
  taken := by
    intro hsame slice hslice position hhas hanchor
    -- if nothing was refused in all, nothing was in either step
    have hfirst := h.refused_le
    have hsecond := h'.refused_le
    simp only at hsame
    rcases List.mem_append.mp hslice with hslice | hslice
    · exact h'.kept _ (h.taken (by omega) slice hslice position hhas hanchor)
    · exact h'.taken (by omega) slice hslice position hhas hanchor
  finAt := by
    rw [h'.finAt, h.finAt]
    exact (List.foldl_append ..).symm
  length_le := by
    have hfirst := h.length_le
    have hsecond := h'.length_le
    rw [heldOf_append, List.length_append]
    simp only
    omega
  times := by
    intro T hwaiting hslices
    obtain ⟨hgiven, hleft⟩ := h.times T hwaiting fun s hs => hslices s (List.mem_append_left _ hs)
    obtain ⟨hgiven', hleft'⟩ := h'.times T hleft fun s hs => hslices s (List.mem_append_right _ hs)
    refine ⟨fun chunk hchunk => ?_, hleft'⟩
    rcases List.mem_append.mp hchunk with hchunk | hchunk
    · exact hgiven chunk hchunk
    · exact hgiven' chunk hchunk

/-! ## Placing one slice -/

namespace Reorder

variable (order : Reorder) (fin : Bool) (stop : Int)

@[simp] theorem noteFin_capacity : (order.noteFin fin stop).capacity = order.capacity := by
  unfold noteFin; split <;> rfl

@[simp] theorem noteFin_start : (order.noteFin fin stop).start = order.start := by
  unfold noteFin; split <;> rfl

@[simp] theorem noteFin_next : (order.noteFin fin stop).next = order.next := by
  unfold noteFin; split <;> rfl

@[simp] theorem noteFin_held : (order.noteFin fin stop).held = order.held := by
  unfold noteFin; split <;> rfl

@[simp] theorem noteFin_waiting : (order.noteFin fin stop).waiting = order.waiting := by
  unfold noteFin; split <;> rfl

@[simp] theorem noteFin_refused : (order.noteFin fin stop).refused = order.refused := by
  unfold noteFin; split <;> rfl

@[simp] theorem noteFin_finAt :
    (order.noteFin fin stop).finAt = if fin then some stop.toNat else order.finAt := by
  unfold noteFin; split <;> rfl

/-- What becomes of octets that are placed at an offset. -/
inductive Lands (order : Reorder) (offset : Int) (chunk : Chunk) : List Chunk × Reorder → Prop
  | old (hold : offset + chunk.octets.length ≤ order.next) :
    Lands order offset chunk ([], { order with retransmits := order.retransmits + 1 })
  | fresh {chunks : List Chunk} {left : List Waiting} {reached : Nat}
      (hoffset : offset ≤ order.next) (hnew : order.next < offset + chunk.octets.length)
      (hrelease : release (offset + chunk.octets.length).toNat order.waiting =
        (chunks, left, reached)) :
    Lands order offset chunk
      (⟨chunk.octets.drop (order.next - offset).toNat, chunk.time⟩ :: chunks,
        { order with next := reached, waiting := left })
  | refused (hoffset : order.next < offset) (hfull : order.capacity ≤ order.waiting.length) :
    Lands order offset chunk ([], { order with refused := order.refused + 1 })
  | waits (hoffset : order.next < offset) (hroom : order.waiting.length < order.capacity) :
    Lands order offset chunk
      ([], { order with waiting := wait ⟨offset.toNat, chunk⟩ order.waiting })

theorem lands (order : Reorder) (offset : Int) (chunk : Chunk) :
    Lands order offset chunk (order.place offset chunk) := by
  -- the branches of `place`, in its order
  unfold place
  dsimp only
  split
  · rename_i hold
    exact .old hold
  · rename_i hnew
    split
    · rename_i hoffset
      exact .fresh hoffset (Int.not_le.mp hnew) rfl
    · rename_i hoffset
      split
      · rename_i hfull
        exact .refused (Int.not_le.mp hoffset) hfull
      · rename_i hroom
        exact .waits (Int.not_le.mp hoffset) (Nat.lt_of_not_le hroom)

end Reorder

/-- A slice as it waits in a stream that starts at `anchor`. -/
def Slice.waiting (stream : Octets) (anchor : Nat) (slice : Slice) : Waiting :=
  ⟨slice.offset - anchor, ⟨slice.octets stream, slice.time⟩⟩

/-- What becomes of a slice, apart from what is noted of the end of the stream. -/
inductive Placing (stream : Octets) (anchor : Nat) (slice : Slice) (order : Reorder) :
    List Chunk × Reorder → Prop
  | old (h : slice.stop ≤ anchor + order.next) :
    Placing stream anchor slice order ([], { order with retransmits := order.retransmits + 1 })
  | fresh {chunks : List Chunk} {left : List Waiting} {reached : Nat}
      (hoffset : slice.offset ≤ anchor + order.next) (hstop : anchor + order.next < slice.stop)
      (hrelease : Reorder.release (slice.stop - anchor) order.waiting = (chunks, left, reached)) :
    Placing stream anchor slice order
      (⟨stream.slice (anchor + order.next) (slice.stop - (anchor + order.next)), slice.time⟩ ::
        chunks, { order with next := reached, waiting := left })
  | refused (hoffset : anchor + order.next < slice.offset)
      (hfull : order.capacity ≤ order.waiting.length) :
    Placing stream anchor slice order ([], { order with refused := order.refused + 1 })
  | waits (hoffset : anchor + order.next < slice.offset)
      (hroom : order.waiting.length < order.capacity) :
    Placing stream anchor slice order
      ([], { order with waiting := Reorder.wait (slice.waiting stream anchor) order.waiting })

theorem placing_of_place (order : Reorder) {slice : Slice} (hstop : slice.stop ≤ stream.length) :
    Placing stream anchor slice order
      (order.place ((slice.offset : Int) - anchor) ⟨slice.octets stream, slice.time⟩) := by
  have hlength : (slice.octets stream).length = slice.length := Slice.length_octets hstop
  have hdef : slice.stop = slice.offset + slice.length := rfl
  have hlands := order.lands ((slice.offset : Int) - anchor) ⟨slice.octets stream, slice.time⟩
  generalize Reorder.place order _ _ = result at hlands ⊢
  cases hlands with
  | old hold =>
    simp only [hlength] at hold
    exact .old (by omega)
  | fresh hoffset hnew hrelease =>
    simp only [hlength] at hnew hrelease
    have hreached : ((slice.offset : Int) - anchor + slice.length).toNat =
        slice.stop - anchor := by omega
    have hfresh : (slice.octets stream).drop
        ((order.next : Int) - ((slice.offset : Int) - anchor)).toNat =
        stream.slice (anchor + order.next) (slice.stop - (anchor + order.next)) := by
      unfold Slice.octets
      rw [Octets.drop_slice]
      congr 1 <;> omega
    rw [hreached] at hrelease
    rw [hfresh]
    exact .fresh (by omega) (by omega) hrelease
  | refused hoffset hfull => exact .refused (by omega) hfull
  | waits hoffset hroom =>
    have htoNat : ((slice.offset : Int) - anchor).toNat = slice.offset - anchor := by omega
    rw [htoNat]
    exact .waits (by omega) hroom

/-- A stream that hands out nothing and only takes note of something. -/
theorem Accepted.of_noted {order after : Reorder} {slice : Slice}
    (aligned : Aligned stream isn anchor order)
    (hcapacity : after.capacity = order.capacity) (hstart : after.start = order.start)
    (hnext : after.next = order.next) (hheld : after.held = order.held)
    (hwaiting : after.waiting = order.waiting) (hrefused : order.refused ≤ after.refused)
    (hfin : after.finAt = finAfter anchor order.finAt [slice])
    (htaken : after.refused = order.refused → ∀ position, slice.Has position →
      position < anchor + order.next) :
    Accepted stream isn anchor order [slice] ([], after) where
  aligned := by
    refine ⟨hstart ▸ aligned.start, hheld ▸ aligned.held, ?_, ?_, ?_⟩
    · exact hnext ▸ aligned.fits
    · exact hwaiting ▸ aligned.laid
    · rw [hwaiting, hnext]
      exact aligned.gap
  capacity := hcapacity
  le_next := Nat.le_of_eq hnext.symm
  given := by simp [hnext, joined, Octets.slice_zero]
  kept := by
    intro offset hat
    unfold Reorder.HasAt
    rw [hnext, hwaiting]
    exact hat
  brought := by
    intro offset hat
    unfold Reorder.HasAt at hat
    simp only [hnext, hwaiting] at hat
    exact .inl hat
  refused_le := hrefused
  taken := by
    intro hsame s hs position hhas hanchor
    rw [List.mem_singleton.mp hs] at hhas
    have := htaken hsame position hhas
    exact .inl (by simp only; omega)
  finAt := hfin
  length_le := by
    rw [hwaiting]
    exact Nat.le_add_right ..
  times := fun T hT _ => ⟨by simp, by rw [hwaiting]; exact hT⟩

/-- A stream that hands out the new octets of a slice and what waited for them. -/
theorem Accepted.of_fresh {order after : Reorder} {slice : Slice} {chunks : List Chunk}
    (aligned : Aligned stream isn anchor order) (hstop : slice.stop ≤ stream.length)
    (hoffset : slice.offset ≤ anchor + order.next) (hnew : anchor + order.next < slice.stop)
    (hrelease : Reorder.release (slice.stop - anchor) order.waiting =
      (chunks, after.waiting, after.next))
    (hcapacity : after.capacity = order.capacity) (hstart : after.start = order.start)
    (hheld : after.held = order.held) (hrefused : after.refused = order.refused)
    (hfin : after.finAt = finAfter anchor order.finAt [slice]) :
    Accepted stream isn anchor order [slice]
      (⟨stream.slice (anchor + order.next) (slice.stop - (anchor + order.next)), slice.time⟩ ::
        chunks, after) := by
  -- `release` does the work; it is asked for what follows the slice
  have released := release_spec (slice.stop - anchor) aligned.laid
  rw [hrelease] at released
  have hreached : slice.stop - anchor ≤ after.next := released.le_reached
  refine ⟨⟨hstart ▸ aligned.start, hheld ▸ aligned.held, ?_, ⟨?_, ?_⟩, released.gap⟩, hcapacity,
    ?_, ?_, ?_, ?_, Nat.le_of_eq hrefused.symm, ?_, hfin, ?_, ?_⟩
  · exact released.reached_le (by omega)
  · exact aligned.laid.sorted.sublist released.suffix.sublist
  · exact fun w hw => aligned.laid.isOf w (released.suffix.subset hw)
  · show order.next ≤ after.next
    omega
  · -- the new octets of the slice and what follows them are one stretch of the stream
    have hgiven : joined chunks = stream.slice
        (anchor + order.next + (slice.stop - (anchor + order.next)))
        (after.next - (slice.stop - anchor)) := by
      rw [released.given]
      congr 1
      omega
    show _ ++ joined chunks = _
    rw [hgiven, Octets.slice_append]
    congr 1
    show _ = after.next - order.next
    omega
  · rintro offset (hlt | hwaits)
    · exact .inl (by simp only; omega)
    · exact released.kept offset hwaits
  · rintro offset (hlt | ⟨w, hw, hlow, hhigh⟩)
    · -- an octet handed out now was there before, or is in the slice, or waited
      by_cases hold : offset < order.next
      · exact .inl (.inl hold)
      · by_cases hslice : anchor + offset < slice.stop
        · exact .inr ⟨slice, List.mem_singleton_self _, by omega, hslice⟩
        · exact .inl (.inr (released.waited offset (by omega) hlt))
    · exact .inl (.inr ⟨w, released.suffix.subset hw, hlow, hhigh⟩)
  · intro _ s hs position hhas hanchor
    rw [List.mem_singleton.mp hs] at hhas
    have := hhas.2
    exact .inl (by simp only; omega)
  · have := released.suffix.length_le
    exact Nat.le_trans this (Nat.le_add_right ..)
  · intro T hT hslices
    refine ⟨fun chunk hchunk => ?_, fun w hw => hT w (released.suffix.subset hw)⟩
    rcases List.mem_cons.mp hchunk with rfl | hchunk
    · exact hslices slice (List.mem_singleton_self _)
    · obtain ⟨w, hw, htime⟩ := released.times chunk hchunk
      exact htime ▸ hT w hw

/-- A stream that lets a slice wait behind a gap. -/
theorem Accepted.of_wait {order after : Reorder} {slice : Slice}
    (aligned : Aligned stream isn anchor order) (hstop : slice.stop ≤ stream.length)
    (hlength : 0 < slice.length) (hoffset : anchor + order.next < slice.offset)
    (hwaiting : after.waiting = Reorder.wait (slice.waiting stream anchor) order.waiting)
    (hcapacity : after.capacity = order.capacity) (hstart : after.start = order.start)
    (hnext : after.next = order.next) (hheld : after.held = order.held)
    (hrefused : after.refused = order.refused)
    (hfin : after.finAt = finAfter anchor order.finAt [slice]) :
    Accepted stream isn anchor order [slice] ([], after) := by
  have hoctets : (slice.octets stream).length = slice.length := Slice.length_octets hstop
  have hdef : slice.stop = slice.offset + slice.length := rfl
  have hparked : (slice.waiting stream anchor).stop = slice.stop - anchor := by
    unfold Waiting.stop Slice.waiting
    simp only [hoctets]
    omega
  -- the offset from the anchor, and back
  have hback : anchor + (slice.offset - anchor) = slice.offset := by omega
  have hisOf : (slice.waiting stream anchor).IsOf stream anchor := by
    refine ⟨?_, ?_, ?_⟩
    · exact Nat.lt_of_lt_of_eq hlength hoctets.symm
    · rw [hparked]
      omega
    · simp only [Slice.waiting, hback, hoctets]
      rfl
  -- what waits now waited before, or is the slice
  have hall : ∀ w ∈ after.waiting, w = slice.waiting stream anchor ∨ w ∈ order.waiting :=
    fun w hw => mem_wait (hwaiting ▸ hw)
  refine ⟨⟨hstart ▸ aligned.start, hheld ▸ aligned.held, ?_, ⟨?_, ?_⟩, ?_⟩, hcapacity,
    Nat.le_of_eq hnext.symm, ?_, ?_, ?_, Nat.le_of_eq hrefused.symm, ?_, hfin, ?_, ?_⟩
  · exact hnext ▸ aligned.fits
  · exact hwaiting ▸ sorted_wait _ aligned.laid.sorted
  · intro w hw
    rcases hall w hw with rfl | hw
    · exact hisOf
    · exact aligned.laid.isOf w hw
  · intro w hw
    rw [hnext]
    rcases hall w hw with rfl | hw
    · simp only [Slice.waiting]
      omega
    · exact aligned.gap w hw
  · simp [hnext, joined, Octets.slice_zero]
  · -- a piece that the slice replaces is no longer than the slice
    rintro offset (hlt | ⟨w, hw, hle, hlt⟩)
    · exact .inl (hnext ▸ hlt)
    · refine .inr ?_
      rw [hwaiting]
      exact waitsAt_wait ⟨w, List.mem_cons_of_mem _ hw, hle, hlt⟩
  · rintro offset (hlt | ⟨w, hw, hlow, hhigh⟩)
    · exact .inl (.inl (hnext ▸ hlt))
    · rcases hall w hw with rfl | hw
      · refine .inr ⟨slice, List.mem_singleton_self _, ?_, ?_⟩
        · simp only [Slice.waiting] at hlow
          omega
        · rw [hparked] at hhigh
          omega
      · exact .inl (.inr ⟨w, hw, hlow, hhigh⟩)
  · intro _ s hs position hhas hanchor
    rw [List.mem_singleton.mp hs] at hhas
    obtain ⟨hle, hlt⟩ := hhas
    refine .inr ?_
    rw [hwaiting]
    refine waitsAt_wait ⟨_, List.mem_cons_self .., ?_, ?_⟩
    · simp only [Slice.waiting]
      omega
    · rw [hparked]
      omega
  · have hcounts : slice.counts = true := by simp [Slice.counts, hlength]
    rw [hwaiting, heldOf_singleton, if_pos hcounts]
    exact length_wait_le _ _
  · intro T hT hslices
    refine ⟨by simp, fun w hw => ?_⟩
    rcases hall w hw with rfl | hw
    · exact hslices slice (List.mem_singleton_self _)
    · exact hT w hw

/-- What becomes of a slice that is within reach: it is placed, unless it has no
    octets. -/
theorem accept_cases (isn : UInt32) {order : Reorder} {slice : Slice}
    (hstop : slice.stop ≤ stream.length)
    (hnear : Near slice.offset (anchor + order.next)) :
    (slice.length = 0 ∧
      order.accept (isn + 1 + UInt32.ofNat anchor) (slice.placed stream isn) =
        ([], order.noteFin slice.fin ((slice.offset : Int) - anchor + slice.length))) ∨
    (0 < slice.length ∧
      Placing stream anchor slice
        (order.noteFin slice.fin ((slice.offset : Int) - anchor + slice.length))
        (order.accept (isn + 1 + UInt32.ofNat anchor) (slice.placed stream isn))) := by
  have hlength : (slice.octets stream).length = slice.length := Slice.length_octets hstop
  -- within reach the sequence number tells the offset
  have hoffset := order.offsetOf_eq (isn + 1) anchor slice.offset hnear
  unfold Reorder.accept
  by_cases hempty : (slice.placed stream isn).chunk.octets.isEmpty = true
  · rw [if_pos hempty]
    simp only [Slice.placed]
    rw [hoffset, hlength]
    refine .inl ⟨?_, rfl⟩
    rw [← hlength]
    exact List.length_eq_zero_iff.mpr (List.isEmpty_iff.mp hempty)
  · rw [if_neg hempty]
    simp only [Slice.placed]
    rw [hoffset, hlength]
    refine .inr ⟨?_, placing_of_place _ hstop⟩
    rw [← hlength]
    exact List.length_pos_iff.mpr fun h => hempty (List.isEmpty_iff.mpr h)

/-- Placing one slice that is within reach. -/
theorem accept_spec {order : Reorder} {slice : Slice} (aligned : Aligned stream isn anchor order)
    (hstop : slice.stop ≤ stream.length) (hnear : Near slice.offset (anchor + order.next)) :
    Accepted stream isn anchor order [slice]
      (order.accept (isn + 1 + UInt32.ofNat anchor) (slice.placed stream isn)) := by
  have hdef : slice.stop = slice.offset + slice.length := rfl
  have hfin : (order.noteFin slice.fin ((slice.offset : Int) - anchor + slice.length)).finAt =
      finAfter anchor order.finAt [slice] := by
    have htoNat : ((slice.offset : Int) - anchor + slice.length).toNat = slice.stop - anchor := by
      omega
    rw [Reorder.noteFin_finAt, htoNat]
    rfl
  rcases accept_cases isn hstop hnear with ⟨hzero, heq⟩ | ⟨hpositive, hplacing⟩
  · -- a slice without octets: only the end of the stream may be noted
    rw [heq]
    refine .of_noted aligned (by simp) (by simp) (by simp) (by simp) (by simp) (by simp) hfin ?_
    rintro - position ⟨hle, hlt⟩
    omega
  · generalize order.accept _ _ = result at hplacing ⊢
    cases hplacing with
    | old h =>
      rw [Reorder.noteFin_next] at h
      refine .of_noted aligned (by simp) (by simp) (by simp) (by simp) (by simp) (by simp) hfin ?_
      rintro - position ⟨hle, hlt⟩
      omega
    | refused hoffset hfull =>
      refine .of_noted aligned (by simp) (by simp) (by simp) (by simp) (by simp) (by simp) hfin ?_
      -- a refused slice is counted, so nothing is claimed of its octets
      intro hsame
      simp at hsame
    | fresh hoffset hnew hrelease =>
      rw [Reorder.noteFin_waiting] at hrelease
      rw [Reorder.noteFin_next] at hoffset hnew ⊢
      exact .of_fresh aligned hstop hoffset hnew hrelease (by simp) (by simp) (by simp) (by simp)
        hfin
    | waits hoffset hroom =>
      rw [Reorder.noteFin_next] at hoffset
      rw [Reorder.noteFin_waiting]
      exact .of_wait aligned hstop hpositive hoffset rfl (by simp) (by simp) (by simp) (by simp)
        (by simp) hfin

/-- A slice is refused only if it lies behind a gap and there is no room. -/
theorem accept_refused (isn : UInt32) {order : Reorder} {slice : Slice}
    (hstop : slice.stop ≤ stream.length)
    (hnear : Near slice.offset (anchor + order.next))
    (h : slice.length = 0 ∨ slice.offset ≤ anchor + order.next ∨
      order.waiting.length < order.capacity) :
    (order.accept (isn + 1 + UInt32.ofNat anchor) (slice.placed stream isn)).2.refused =
      order.refused := by
  rcases accept_cases isn hstop hnear with ⟨_, heq⟩ | ⟨hpositive, hplacing⟩
  · rw [heq, Reorder.noteFin_refused]
  · generalize order.accept _ _ = result at hplacing ⊢
    cases hplacing with
    | old _ => exact Reorder.noteFin_refused ..
    | fresh _ _ _ => exact Reorder.noteFin_refused ..
    | waits _ _ => exact Reorder.noteFin_refused ..
    -- neither a gap nor a full buffer would be left
    | refused hoffset hfull =>
      rw [Reorder.noteFin_next] at hoffset
      rw [Reorder.noteFin_waiting, Reorder.noteFin_capacity] at hfull
      omega

/-- Nothing new waits when a slice has no gap in front of it. -/
theorem accept_length_le {order : Reorder} {slice : Slice}
    (aligned : Aligned stream isn anchor order) (hstop : slice.stop ≤ stream.length)
    (hnear : Near slice.offset (anchor + order.next))
    (h : slice.offset ≤ anchor + order.next) :
    (order.accept (isn + 1 + UInt32.ofNat anchor) (slice.placed stream isn)).2.waiting.length ≤
      order.waiting.length := by
  rcases accept_cases isn hstop hnear with ⟨_, heq⟩ | ⟨_, hplacing⟩
  · exact Nat.le_of_eq (by rw [heq, Reorder.noteFin_waiting])
  · generalize order.accept _ _ = result at hplacing ⊢
    cases hplacing with
    | old _ => simp only [Reorder.noteFin_waiting, Nat.le_refl]
    | refused _ _ => simp only [Reorder.noteFin_waiting, Nat.le_refl]
    | fresh _ _ hrelease =>
      have released := release_spec (slice.stop - anchor) aligned.laid
      rw [Reorder.noteFin_waiting] at hrelease
      rw [hrelease] at released
      exact released.suffix.length_le
    | waits hoffset _ =>
      rw [Reorder.noteFin_next] at hoffset
      omega

/-! ## Placing several slices -/

theorem Reorder.acceptAll_append (order : Reorder) (start : UInt32) (arrivals more : List Arrival) :
    order.acceptAll start (arrivals ++ more) =
      ((order.acceptAll start arrivals).1 ++
          ((order.acceptAll start arrivals).2.acceptAll start more).1,
        ((order.acceptAll start arrivals).2.acceptAll start more).2) := by
  induction arrivals generalizing order with
  | nil => rfl
  | cons arrival rest ih =>
    simp only [List.cons_append, Reorder.acceptAll]
    rw [ih]
    simp only [List.append_assoc]

theorem reaches_append (order : Reorder) (slices more : List Slice) :
    Session.Reaches stream isn anchor order (slices ++ more) ↔
      Session.Reaches stream isn anchor order slices ∧
        Session.Reaches stream isn anchor
          (order.acceptAll (isn + 1 + UInt32.ofNat anchor)
            (slices.map (·.placed stream isn))).2 more := by
  induction slices generalizing order with
  | nil => simp [Session.Reaches, Reorder.acceptAll]
  | cons slice rest ih =>
    simp only [List.cons_append, Session.Reaches, ih, and_assoc, List.map_cons, Reorder.acceptAll]

theorem acceptAll_spec {order : Reorder} {slices : List Slice}
    (aligned : Aligned stream isn anchor order)
    (hstop : ∀ slice ∈ slices, slice.stop ≤ stream.length)
    (hreaches : Session.Reaches stream isn anchor order slices) :
    Accepted stream isn anchor order slices
      (order.acceptAll (isn + 1 + UInt32.ofNat anchor) (slices.map (·.placed stream isn))) := by
  -- each slice is placed in the stream that those before it left
  induction slices generalizing order with
  | nil => exact .refl aligned
  | cons slice rest ih =>
    obtain ⟨hnear, hrest⟩ := hreaches
    have first := accept_spec aligned (hstop slice (List.mem_cons_self ..)) hnear
    have second := ih first.aligned (fun s hs => hstop s (List.mem_cons_of_mem _ hs)) hrest
    exact first.trans second

/-- Nothing is refused while there is room for all. -/
theorem acceptAll_refused {order : Reorder} {slices : List Slice}
    (aligned : Aligned stream isn anchor order)
    (hstop : ∀ slice ∈ slices, slice.stop ≤ stream.length)
    (hreaches : Session.Reaches stream isn anchor order slices)
    (hroom : order.waiting.length + (heldOf slices).length ≤ order.capacity) :
    (order.acceptAll (isn + 1 + UInt32.ofNat anchor)
      (slices.map (·.placed stream isn))).2.refused = order.refused := by
  induction slices generalizing order with
  | nil => rfl
  | cons slice rest ih =>
    obtain ⟨hnear, hrest⟩ := hreaches
    have hslice := hstop slice (List.mem_cons_self ..)
    have first := accept_spec aligned hslice hnear
    have hlength := first.length_le
    -- a slice takes room only if it counts
    have hsplit : heldOf (slice :: rest) = heldOf [slice] ++ heldOf rest :=
      heldOf_append [slice] rest
    rw [hsplit, List.length_append] at hroom
    have hfirst := accept_refused isn hslice hnear (by
      rcases Nat.eq_zero_or_pos slice.length with hzero | hpositive
      · exact .inl hzero
      · have hcounts : slice.counts = true := by simp [Slice.counts, hpositive]
        rw [heldOf_singleton, if_pos hcounts, List.length_singleton] at hroom
        exact .inr (.inr (by omega)))
    have hsecond := ih first.aligned (fun s hs => hstop s (List.mem_cons_of_mem _ hs)) hrest
      (by rw [first.capacity]; omega)
    exact hsecond.trans hfirst

end PassiveDns.Stream
