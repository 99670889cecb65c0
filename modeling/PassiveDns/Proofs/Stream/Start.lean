/-
  PassiveDns.Proofs.Stream.Start

  How a stream gets its start. Until then it does nothing but hold the slices
  that count. It starts with the SYN, or with the earliest slice held once too
  much is held or it is told to; then it places all that was held, in the order
  of the offsets (`perform_start`).
-/
import PassiveDns.Proofs.Stream.Placement

namespace PassiveDns.Stream

variable {stream : Octets} {isn : UInt32} {anchor : Nat}

theorem Slice.arrival_eq_placed (isn : UInt32) {slice : Slice} (h : slice.IsOf stream) :
    { slice.arrival stream isn with
      sequence := if slice.syn then (slice.arrival stream isn).sequence + 1
        else (slice.arrival stream isn).sequence } = slice.placed stream isn := by
  unfold Slice.arrival Slice.placed
  cases hsyn : slice.syn with
  | false => simp
  | true => simp [h.syn_offset hsyn]

/-! ## Sequence numbers in the order of offsets -/

/-- What is held lies within half of the circle behind the start. -/
def Within (anchor : Nat) (slices : List Slice) : Prop :=
  ∀ slice ∈ slices, anchor ≤ slice.offset ∧ slice.offset < anchor + halfCircle

theorem ahead_placed {s : Slice} (h : Near s.offset anchor) :
    ahead (s.placed stream isn).sequence (isn + 1 + UInt32.ofNat anchor) =
      (s.offset : Int) - anchor :=
  ahead_add (isn + 1) s.offset anchor h

theorem near_of_within {slices : List Slice} (h : Within anchor slices) {s : Slice}
    (hs : s ∈ slices) : Near s.offset anchor := by
  have := h s hs
  unfold halfCircle at this
  unfold Near halfCircle
  omega

/-- Sorting what is held by sequence numbers is sorting it by offsets. -/
theorem mergeSort_placed (stream : Octets) (isn : UInt32) {slices : List Slice}
    (h : Within anchor slices) :
    ((slices.map (·.placed stream isn)).mergeSort fun a b =>
      decide (ahead a.sequence (isn + 1 + UInt32.ofNat anchor) ≤
        ahead b.sequence (isn + 1 + UInt32.ofNat anchor))) =
      (byOffset slices).map (·.placed stream isn) := by
  unfold byOffset
  refine (List.map_mergeSort ?_).symm
  intro a ha b hb
  rw [ahead_placed (near_of_within h ha), ahead_placed (near_of_within h hb)]
  simp only [decide_eq_decide]
  omega

theorem earliestOf_le {slices : List Slice} {s : Slice} (hs : s ∈ slices) :
    earliestOf slices ≤ s.offset :=
  List.min?_getD_le_of_mem (List.mem_map_of_mem hs)

theorem earliestOf_cons (s : Slice) (rest : List Slice) :
    earliestOf (s :: rest) = (rest.map Slice.offset).foldl min s.offset := by
  unfold earliestOf
  rw [List.map_cons, List.min?_cons']
  rfl

/-- The earliest sequence number is that of the earliest offset. -/
theorem foldl_earliest (stream : Octets) (isn : UInt32) (slices : List Slice) (first best : Nat)
    (hbest : Near best first) (hnear : ∀ s ∈ slices, Near s.offset first) :
    (slices.map fun s => (s.placed stream isn).sequence).foldl
        (fun best n =>
          if ahead n (isn + 1 + UInt32.ofNat first) < ahead best (isn + 1 + UInt32.ofNat first)
          then n else best)
        (isn + 1 + UInt32.ofNat best) =
      isn + 1 + UInt32.ofNat ((slices.map Slice.offset).foldl min best) := by
  induction slices generalizing best with
  | nil => rfl
  | cons s rest ih =>
    have hs := hnear s (List.mem_cons_self ..)
    have hrest : ∀ t ∈ rest, Near t.offset first := fun t ht =>
      hnear t (List.mem_cons_of_mem _ ht)
    simp only [List.map_cons, List.foldl_cons]
    -- seen from the first slice, the order of sequence numbers is that of offsets
    rw [ahead_placed hs, ahead_add (isn + 1) best first hbest]
    by_cases hlt : s.offset < best
    · rw [if_pos (by omega), Nat.min_eq_right (by omega)]
      exact ih s.offset hs hrest
    · rw [if_neg (by omega), Nat.min_eq_left (by omega)]
      exact ih best hbest hrest

theorem earliest_placed (first : Slice) (rest : List Slice)
    (h : Within (earliestOf (first :: rest)) (first :: rest)) :
    Reorder.earliest (first.placed stream isn).sequence
        (((first :: rest).map (·.placed stream isn)).map Arrival.sequence) =
      isn + 1 + UInt32.ofNat (earliestOf (first :: rest)) := by
  have hself : Near first.offset first.offset := by
    unfold Near halfCircle
    omega
  -- all offsets lie within half of the circle of the earliest, so of each other
  have hnear : ∀ s ∈ first :: rest, Near s.offset first.offset := by
    intro s hs
    have hfirst := h first (List.mem_cons_self ..)
    have := h s hs
    unfold halfCircle at this hfirst
    unfold Near halfCircle
    omega
  unfold Reorder.earliest
  rw [List.map_map, earliestOf_cons]
  have hfold := foldl_earliest stream isn (first :: rest) first.offset first.offset hself hnear
  -- the first slice is compared with itself
  have hmin : ((first :: rest).map Slice.offset).foldl min first.offset =
      (rest.map Slice.offset).foldl min first.offset := by
    rw [List.map_cons, List.foldl_cons, Nat.min_self]
  rw [hmin] at hfold
  exact hfold

/-! ## Holding -/

/-- A stream without a start that holds slices. -/
def Reorder.holding (stream : Octets) (isn : UInt32) (capacity : Nat) (slices : List Slice) :
    Reorder :=
  { Reorder.empty capacity with held := slices.map (·.placed stream isn) }

/-- A stream that starts at an anchor, before it placed anything. -/
def Reorder.starting (isn : UInt32) (capacity anchor : Nat) : Reorder :=
  { Reorder.empty capacity with start := some (isn + 1 + UInt32.ofNat anchor) }

theorem aligned_starting (isn : UInt32) (capacity : Nat) (h : anchor ≤ stream.length) :
    Aligned stream isn anchor (.starting isn capacity anchor) :=
  ⟨rfl, rfl, h, ⟨.nil, by simp [Reorder.starting, Reorder.empty]⟩,
    by simp [Reorder.starting, Reorder.empty]⟩

theorem anchor_holding {capacity : Nat} {slices : List Slice} (h : Within anchor slices) :
    (Reorder.holding stream isn capacity slices).anchor (isn + 1 + UInt32.ofNat anchor) =
      (Reorder.starting isn capacity anchor).acceptAll (isn + 1 + UInt32.ofNat anchor)
        ((byOffset slices).map (·.placed stream isn)) := by
  unfold Reorder.anchor
  have hsort := mergeSort_placed stream isn h
  simp only [Reorder.holding]
  rw [hsort]
  rfl

theorem anchorAtEarliest_holding {capacity : Nat} {slices : List Slice} (hne : slices ≠ [])
    (h : Within (earliestOf slices) slices) :
    (Reorder.holding stream isn capacity slices).anchorAtEarliest =
      (Reorder.starting isn capacity (earliestOf slices)).acceptAll
        (isn + 1 + UInt32.ofNat (earliestOf slices))
        ((byOffset slices).map (·.placed stream isn)) := by
  obtain ⟨first, rest, rfl⟩ := List.exists_cons_of_ne_nil hne
  rw [← anchor_holding h, ← earliest_placed first rest h]
  rfl

theorem isEmpty_octets {slice : Slice} (h : slice.IsOf stream) :
    (slice.octets stream).isEmpty = decide (slice.length = 0) := by
  have hlength := Slice.length_octets h.stop_le
  cases hoctets : slice.octets stream with
  | nil => simp [← hlength, hoctets]
  | cons b rest => simp [← hlength, hoctets]

/-- What a stream without a start does with a segment that is no SYN. -/
theorem push_holding {capacity : Nat} {slices : List Slice} {slice : Slice}
    (h : slice.IsOf stream) (hsyn : slice.syn = false) :
    (Reorder.holding stream isn capacity slices).push slice.syn (slice.arrival stream isn) =
      if slice.counts then
        if capacity < slices.length + 1 then
          (Reorder.holding stream isn capacity (slices ++ [slice])).anchorAtEarliest
        else ([], .holding stream isn capacity (slices ++ [slice]))
      else ([], .holding stream isn capacity slices) := by
  have harrival := Slice.arrival_eq_placed isn h
  unfold Reorder.push
  rw [harrival, hsyn]
  -- a segment counts unless it is empty and does not end the stream
  have hcounts : ((slice.placed stream isn).chunk.octets.isEmpty &&
      !(slice.placed stream isn).fin) = !slice.counts := by
    show ((slice.octets stream).isEmpty && !slice.fin) = _
    rw [isEmpty_octets h]
    unfold Slice.counts
    by_cases hlength : slice.length = 0
    · simp [hlength]
    · simp [hlength, Nat.pos_of_ne_zero hlength]
  have hheld : slices.map (·.placed stream isn) ++ [slice.placed stream isn] =
      (slices ++ [slice]).map (·.placed stream isn) := by
    rw [List.map_append]
    rfl
  simp only [Reorder.holding, Reorder.empty, hcounts, hheld, List.length_map, List.length_append,
    List.length_singleton]
  cases slice.counts with
  | false => rfl
  | true => rfl

/-- What a stream without a start does with the SYN. -/
theorem push_holding_syn {capacity : Nat} {slices : List Slice} {slice : Slice}
    (h : slice.IsOf stream) (hsyn : slice.syn = true) (hwithin : Within 0 slices) :
    (Reorder.holding stream isn capacity slices).push slice.syn (slice.arrival stream isn) =
      (Reorder.starting isn capacity 0).acceptAll (isn + 1 + UInt32.ofNat 0)
        ((byOffset slices ++ [slice]).map (·.placed stream isn)) := by
  have harrival := Slice.arrival_eq_placed isn h
  -- the SYN stands at offset zero
  have hstart : (slice.placed stream isn).sequence = isn + 1 + UInt32.ofNat 0 := by
    unfold Slice.placed
    rw [h.syn_offset hsyn]
  unfold Reorder.push
  rw [harrival, hsyn, List.map_append, Reorder.acceptAll_append, ← anchor_holding hwithin, ← hstart]
  simp only [Reorder.acceptAll, List.map_cons, List.map_nil, List.append_nil]
  rfl

/-! ## When a stream starts -/

theorem Reorder.place_start (order : Reorder) (offset : Int) (chunk : Chunk) :
    (order.place offset chunk).2.start = order.start := by
  have hlands := order.lands offset chunk
  generalize order.place offset chunk = result at hlands ⊢
  cases hlands <;> rfl

theorem Reorder.accept_start (order : Reorder) (start : UInt32) (arrival : Arrival) :
    (order.accept start arrival).2.start = order.start := by
  unfold Reorder.accept
  dsimp only
  split
  · exact Reorder.noteFin_start ..
  · rw [Reorder.place_start, Reorder.noteFin_start]

theorem Reorder.acceptAll_start (order : Reorder) (start : UInt32) (arrivals : List Arrival) :
    (order.acceptAll start arrivals).2.start = order.start := by
  induction arrivals generalizing order with
  | nil => rfl
  | cons arrival rest ih => exact (ih _).trans (order.accept_start start arrival)

theorem Reorder.anchor_start (order : Reorder) (start : UInt32) :
    (order.anchor start).2.start = some start :=
  Reorder.acceptAll_start ..

theorem Reorder.anchorAtEarliest_isAnchored (order : Reorder) (h : order.held ≠ []) :
    order.anchorAtEarliest.2.isAnchored = true := by
  unfold Reorder.anchorAtEarliest Reorder.isAnchored
  split
  · rename_i hstart
    simp [hstart]
  · contradiction
  · rw [Reorder.anchor_start]
    rfl

namespace Session

/-- A session in which the stream has no start yet. -/
structure Holding (stream : Octets) (isn : UInt32) (capacity : Nat) (session : Session) : Prop where
  order : session.order = .holding stream isn capacity (heldOf session.pushed)
  output : session.output = []
  taken : session.taken = session.pushed
  anchor : session.anchor = none
  few : (heldOf session.pushed).length ≤ capacity
  isOf : ∀ slice ∈ session.pushed, slice.IsOf stream
  closed : ∀ slice ∈ session.pushed, slice.syn = false

theorem holding_start (stream : Octets) (isn : UInt32) (capacity : Nat) :
    (start capacity).Holding stream isn capacity :=
  ⟨rfl, rfl, rfl, rfl, Nat.zero_le _, by simp [start], by simp [start]⟩

/-- Whether a stream without a start gets one with a call: the call brings the
    SYN, or makes the hold overflow, or flushes it. -/
def Starts (capacity : Nat) (session : Session) (call : Call) : Prop :=
  call.opens = true ∨ capacity < (heldOf (session.pushed ++ call.slices)).length ∨
    (call = .anchor ∧ heldOf session.pushed ≠ [])

variable {capacity : Nat} {session : Session} {call : Call}

/-- Without a start a stream holds what counts, and nothing else happens. -/
theorem Holding.perform_hold (h : session.Holding stream isn capacity)
    (hisOf : ∀ slice ∈ call.slices, slice.IsOf stream) (hhold : ¬session.Starts capacity call) :
    call.perform stream isn session.order =
      ([], .holding stream isn capacity (heldOf (session.pushed ++ call.slices))) := by
  unfold Starts at hhold
  rw [h.order]
  cases call with
  | anchor =>
    have hempty : heldOf session.pushed = [] := by
      by_contra hne
      exact hhold (.inr (.inr ⟨rfl, hne⟩))
    simp only [Call.perform, Call.slices, List.append_nil, hempty]
    rfl
  | push slice =>
    have hsyn : slice.syn = false := by
      by_contra hsyn
      exact hhold (.inl (by simpa [Call.opens] using hsyn))
    have hroom : (heldOf (session.pushed ++ [slice])).length ≤ capacity := by
      by_contra hover
      exact hhold (.inr (.inl (Nat.lt_of_not_le hover)))
    simp only [Call.perform, Call.slices]
    -- none of the three ways to start is open, so the slice is held if it counts
    rw [push_holding (hisOf slice (List.mem_singleton_self _)) hsyn]
    rw [heldOf_append, heldOf_singleton] at hroom ⊢
    cases hcounts : slice.counts with
    | false => simp
    | true =>
      rw [hcounts, if_pos rfl, List.length_append, List.length_singleton] at hroom
      rw [if_pos rfl, if_pos rfl, if_neg (Nat.not_lt_of_le hroom)]

/-- A stream gets its start by placing what it held, and then the slice of the
    SYN if that is what started it. -/
theorem Holding.perform_start (h : session.Holding stream isn capacity)
    (hisOf : ∀ slice ∈ call.slices, slice.IsOf stream) (hstart : session.Starts capacity call)
    (hwithin : Within (session.anchorBy call) (session.queue call)) :
    call.perform stream isn session.order =
      (Reorder.starting isn capacity (session.anchorBy call)).acceptAll
        (isn + 1 + UInt32.ofNat (session.anchorBy call))
        ((session.queue call).map (·.placed stream isn)) := by
  rw [h.order]
  by_cases hopens : call.opens = true
  · -- the SYN: the stream starts at zero
    have hzero : session.anchorBy call = 0 := if_pos hopens
    rw [hzero, queue_of_opens h.anchor hopens] at hwithin ⊢
    cases call with
    | anchor => cases hopens
    | push slice =>
      refine push_holding_syn (hisOf slice (List.mem_singleton_self _)) hopens ?_
      intro s hs
      exact hwithin s (List.mem_append_left _ (List.mem_mergeSort.mpr hs))
  · -- a flush or one too many: it starts at the earliest that is held
    have hearliest : session.anchorBy call =
        earliestOf (heldOf (session.pushed ++ call.slices)) := if_neg hopens
    rw [hearliest, queue_of_holds h.anchor hopens] at hwithin ⊢
    have hwithin' : Within (earliestOf (heldOf (session.pushed ++ call.slices)))
        (heldOf (session.pushed ++ call.slices)) := fun s hs =>
      hwithin s (List.mem_mergeSort.mpr hs)
    have hne : heldOf (session.pushed ++ call.slices) ≠ [] := by
      rcases hstart with hstart | hstart | ⟨_, hstart⟩
      · exact absurd hstart hopens
      · exact List.ne_nil_of_length_pos (by omega)
      · rw [heldOf_append]
        exact List.append_ne_nil_of_left_ne_nil hstart _
    rw [← anchorAtEarliest_holding hne hwithin']
    cases call with
    | anchor => simp only [Call.perform, Call.slices, List.append_nil]
    | push slice =>
      have hsyn : slice.syn = false := by simpa [Call.opens] using hopens
      have hover : capacity < (heldOf (session.pushed ++ [slice])).length := by
        rcases hstart with hstart | hstart | ⟨hstart, _⟩
        · exact absurd hstart hopens
        · exact hstart
        · cases hstart
      simp only [Call.perform, Call.slices]
      rw [push_holding (hisOf slice (List.mem_singleton_self _)) hsyn]
      have hfew := h.few
      rw [heldOf_append, heldOf_singleton] at hover ⊢
      cases hcounts : slice.counts with
      | false =>
        -- a slice that does not count cannot be one too many
        rw [hcounts, if_neg Bool.false_ne_true, List.append_nil] at hover
        exact absurd hfew (Nat.not_le_of_lt hover)
      | true =>
        rw [hcounts, if_pos rfl, List.length_append, List.length_singleton] at hover
        rw [if_pos rfl, if_pos rfl, if_pos hover]

end Session

end PassiveDns.Stream
