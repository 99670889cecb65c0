/-
  PassiveDns.Proofs.Stream.Handling

  A stream with a start, whatever it is sent: any sequence numbers, any flags, any
  octets. `Handled` says all that it does with arrivals; an arrival is refused if it
  lies behind a gap and all room is taken, and not otherwise (`refused_accept`).
-/
import PassiveDns.Proofs.Stream.Start

namespace PassiveDns.Stream

/-! ## Handing out what waits -/

/-- How many octets chunks have. -/
def octetsIn (chunks : List Chunk) : Nat := (joined chunks).length

@[simp] theorem octetsIn_nil : octetsIn [] = 0 := rfl

@[simp] theorem octetsIn_cons (chunk : Chunk) (rest : List Chunk) :
    octetsIn (chunk :: rest) = chunk.octets.length + octetsIn rest :=
  List.length_append

@[simp] theorem octetsIn_append (chunks more : List Chunk) :
    octetsIn (chunks ++ more) = octetsIn chunks + octetsIn more := by
  unfold octetsIn
  rw [joined_append, List.length_append]

theorem octetsIn_perm {chunks more : List Chunk} (h : chunks.Perm more) :
    octetsIn chunks = octetsIn more :=
  (h.flatMap_right _).length_eq

/-- How many octets wait. -/
def octetsOf (waiting : List Waiting) : Nat := octetsIn (waiting.map Waiting.chunk)

@[simp] theorem octetsOf_nil : octetsOf [] = 0 := rfl

@[simp] theorem octetsOf_cons (w : Waiting) (rest : List Waiting) :
    octetsOf (w :: rest) = w.chunk.octets.length + octetsOf rest :=
  octetsIn_cons ..

theorem octetsOf_wait_le (w : Waiting) (waiting : List Waiting) :
    octetsOf (Reorder.wait w waiting) ≤ octetsOf waiting + w.chunk.octets.length := by
  induction waiting with
  | nil => simp [Reorder.wait]
  | cons v rest ih =>
    unfold Reorder.wait
    split
    · simp only [octetsOf_cons]
      omega
    · split
      · -- one of the two goes
        split <;> simp only [octetsOf_cons] <;> omega
      · simp only [octetsOf_cons]
        omega

/-- What handing out from waiting pieces does, whatever their octets are. -/
structure Releasing (next : Nat) (waiting : List Waiting)
    (result : List Chunk × List Waiting × Nat) : Prop where
  reached : result.2.2 = next + octetsIn result.1
  nonempty : ∀ chunk ∈ result.1, chunk.octets ≠ []
  suffix : result.2.1 <:+ waiting
  gap : ∀ w ∈ result.2.1, result.2.2 < w.offset
  load_le : result.2.2 + octetsOf result.2.1 ≤ next + octetsOf waiting

theorem releasing (next : Nat) {waiting : List Waiting}
    (sorted : waiting.Pairwise fun v w => v.offset < w.offset) :
    Releasing next waiting (Reorder.release next waiting) := by
  -- the recursion of `release`: `next` moves on with each piece that is handed out
  induction waiting generalizing next with
  | nil =>
    exact ⟨rfl, by simp [Reorder.release], List.suffix_rfl, by simp [Reorder.release],
      Nat.le_refl _⟩
  | cons w rest ih =>
    obtain ⟨hfirst, hrest⟩ := List.pairwise_cons.mp sorted
    have hstop : w.stop = w.offset + w.chunk.octets.length := rfl
    unfold Reorder.release
    split
    · -- a gap in front of the first piece is in front of all
      rename_i hgap
      refine ⟨rfl, by simp, List.suffix_rfl, fun v hv => ?_, Nat.le_refl _⟩
      rcases List.mem_cons.mp hv with rfl | hv
      · exact hgap
      · exact Nat.lt_trans hgap (hfirst v hv)
    · split
      · -- a piece that was handed out before goes, and its octets with it
        have released := ih next hrest
        have := released.load_le
        refine ⟨released.reached, released.nonempty, released.suffix.trans (List.suffix_cons ..),
          released.gap, ?_⟩
        simp only [octetsOf_cons]
        omega
      · have released := ih w.stop hrest
        have hreached := released.reached
        have hload := released.load_le
        generalize Reorder.release w.stop rest = result at released hreached hload ⊢
        obtain ⟨chunks, left, reached⟩ := result
        simp only at hreached hload
        have hdrop : (w.chunk.octets.drop (next - w.offset)).length = w.stop - next := by
          rw [List.length_drop]
          omega
        refine ⟨?_, ?_, released.suffix.trans (List.suffix_cons ..), released.gap, ?_⟩
        · simp only [octetsIn_cons, hdrop]
          omega
        · intro chunk hchunk
          rcases List.mem_cons.mp hchunk with rfl | hchunk
          · exact List.ne_nil_of_length_pos (by simp only [hdrop]; omega)
          · exact released.nonempty chunk hchunk
        · simp only [octetsOf_cons]
          omega

namespace Reorder

variable {order : Reorder} {start : UInt32} {arrival : Arrival}

/-! ## A stream with a start -/

/-- What is true of a stream with a start, whatever it was sent. -/
structure Tidy (order : Reorder) : Prop where
  held : order.held = []
  waiting_le : order.waiting.length ≤ order.capacity
  sorted : order.waiting.Pairwise fun v w => v.offset < w.offset
  gap : ∀ w ∈ order.waiting, order.next < w.offset
  nonempty : ∀ w ∈ order.waiting, w.chunk.octets ≠ []

/-- How many octets a stream has handed out or keeps. -/
def load (order : Reorder) : Nat :=
  order.next + octetsOf order.waiting + octetsIn (order.held.map Arrival.chunk)

/-- How many octets arrivals bring. -/
def brought (arrivals : List Arrival) : Nat := octetsIn (arrivals.map Arrival.chunk)

@[simp] theorem brought_nil : brought [] = 0 := rfl

theorem brought_cons (arrival : Arrival) (rest : List Arrival) :
    brought (arrival :: rest) = arrival.chunk.octets.length + brought rest :=
  octetsIn_cons ..

theorem brought_singleton (arrival : Arrival) :
    brought [arrival] = arrival.chunk.octets.length :=
  brought_cons arrival []

theorem brought_append (arrivals more : List Arrival) :
    brought (arrivals ++ more) = brought arrivals + brought more := by
  unfold brought
  rw [List.map_append, octetsIn_append]

/-- All that a stream with a start does with arrivals. -/
structure Handled (order : Reorder) (arrivals : List Arrival) (result : List Chunk × Reorder) :
    Prop where
  tidy : result.2.Tidy
  capacity : result.2.capacity = order.capacity
  start : result.2.start = order.start
  next : result.2.next = order.next + octetsIn result.1
  nonempty : ∀ chunk ∈ result.1, chunk.octets ≠ []
  refused_le : order.refused ≤ result.2.refused
  room : order.waiting.length + arrivals.length ≤ order.capacity →
    result.2.refused = order.refused
  length_le : result.2.waiting.length ≤ order.waiting.length + arrivals.length
  length_lt : order.next < result.2.next →
    result.2.waiting.length < order.waiting.length + arrivals.length
  load_le : result.2.load ≤ order.load + brought arrivals

theorem Handled.refl (tidy : order.Tidy) : Handled order [] ([], order) where
  tidy := tidy
  capacity := rfl
  start := rfl
  next := rfl
  nonempty := by simp
  refused_le := Nat.le_refl _
  room := fun _ => rfl
  length_le := Nat.le_refl _
  length_lt := fun h => absurd h (Nat.lt_irrefl _)
  load_le := Nat.le_refl _

/-- Taking arrivals and then further ones is taking all of them. -/
theorem Handled.trans {arrivals more : List Arrival} {first second : List Chunk × Reorder}
    (h : Handled order arrivals first) (h' : Handled first.2 more second) :
    Handled order (arrivals ++ more) (first.1 ++ second.1, second.2) where
  tidy := h'.tidy
  capacity := h'.capacity.trans h.capacity
  start := h'.start.trans h.start
  next := by
    rw [h'.next, h.next, octetsIn_append, Nat.add_assoc]
  nonempty := by
    intro chunk hchunk
    rcases List.mem_append.mp hchunk with hchunk | hchunk
    · exact h.nonempty chunk hchunk
    · exact h'.nonempty chunk hchunk
  refused_le := Nat.le_trans h.refused_le h'.refused_le
  room := by
    intro hroom
    have hlength := h.length_le
    have hcapacity := h.capacity
    rw [List.length_append] at hroom
    exact (h'.room (by omega)).trans (h.room (by omega))
  length_le := by
    have hfirst := h.length_le
    have hsecond := h'.length_le
    rw [List.length_append]
    simp only
    omega
  length_lt := by
    intro hlt
    have hnext := h'.next
    have hlength := h.length_le
    have hlength' := h'.length_le
    rw [List.length_append]
    simp only at hlt ⊢
    -- one of the two steps handed out something
    by_cases hfirst : order.next < first.2.next
    · have := h.length_lt hfirst
      omega
    · have hsame := h.next
      have := h'.length_lt (by omega)
      omega
  load_le := by
    have hfirst := h.load_le
    have hsecond := h'.load_le
    rw [brought_append]
    simp only
    omega

/-- Noting the end of the stream changes nothing of this. -/
theorem Handled.of_noteFin {fin : Bool} {stop : Int} {arrivals : List Arrival}
    {result : List Chunk × Reorder} (h : Handled (order.noteFin fin stop) arrivals result) :
    Handled order arrivals result := by
  have hload : (order.noteFin fin stop).load = order.load := by simp [load]
  have hlength := h.length_le
  have hlt := h.length_lt
  have hroom := h.room
  simp only [noteFin_waiting, noteFin_next, noteFin_capacity, noteFin_refused]
    at hlength hlt hroom
  exact ⟨h.tidy, by simpa using h.capacity, by simpa using h.start, by simpa using h.next,
    h.nonempty, by simpa using h.refused_le, hroom, hlength, hlt, hload ▸ h.load_le⟩

theorem Tidy.noteFin (tidy : order.Tidy) (fin : Bool) (stop : Int) :
    (order.noteFin fin stop).Tidy :=
  ⟨by simpa using tidy.held, by simpa using tidy.waiting_le, by simpa using tidy.sorted,
    by simpa using tidy.gap, by simpa using tidy.nonempty⟩

theorem handled_place (tidy : order.Tidy) (offset : Int) (hne : arrival.chunk.octets ≠ []) :
    Handled order [arrival] (order.place offset arrival.chunk) := by
  have hpositive := List.length_pos_iff.mpr hne
  have hlands := order.lands offset arrival.chunk
  generalize order.place offset arrival.chunk = result at hlands ⊢
  cases hlands with
  | old hold =>
    exact ⟨⟨tidy.held, tidy.waiting_le, tidy.sorted, tidy.gap, tidy.nonempty⟩, rfl, rfl, rfl,
      by simp, Nat.le_refl _, fun _ => rfl, Nat.le_add_right ..,
      fun h => absurd h (Nat.lt_irrefl _), Nat.le_add_right ..⟩
  | @fresh chunks left reached hoffset hnew hrelease =>
    -- the part of the arrival from `next` on, and what waited behind it
    have released := releasing (offset + arrival.chunk.octets.length).toNat tidy.sorted
    rw [hrelease] at released
    have hreached := released.reached
    have hload := released.load_le
    have hlength := released.suffix.length_le
    have hdrop : (arrival.chunk.octets.drop (order.next - offset).toNat).length =
        (offset + arrival.chunk.octets.length).toNat - order.next := by
      rw [List.length_drop]
      omega
    have hleft : left.length ≤ order.waiting.length := hlength
    simp only at hreached hload
    refine ⟨⟨tidy.held, Nat.le_trans hleft tidy.waiting_le,
      tidy.sorted.sublist released.suffix.sublist, released.gap,
      fun w hw => tidy.nonempty w (released.suffix.subset hw)⟩, rfl, rfl, ?_, ?_, Nat.le_refl _,
      fun _ => rfl, Nat.le_trans hleft (Nat.le_add_right ..), fun _ => Nat.lt_succ_of_le hleft, ?_⟩
    · simp only [octetsIn_cons, hdrop]
      omega
    · intro chunk hchunk
      rcases List.mem_cons.mp hchunk with rfl | hchunk
      · exact List.ne_nil_of_length_pos (by simp only [hdrop]; omega)
      · exact released.nonempty chunk hchunk
    · rw [brought_singleton]
      unfold load
      simp only
      omega
  | refused hoffset hfull =>
    refine ⟨⟨tidy.held, tidy.waiting_le, tidy.sorted, tidy.gap, tidy.nonempty⟩, rfl, rfl, rfl,
      by simp, Nat.le_succ _, ?_, Nat.le_add_right .., fun h => absurd h (Nat.lt_irrefl _),
      Nat.le_add_right ..⟩
    -- with room for one more there is no refusal
    intro hroom
    rw [List.length_singleton] at hroom
    omega
  | waits hoffset hroom =>
    -- the new piece lies behind a gap as all others do; it may replace one of them
    have hlength := length_wait_le ⟨offset.toNat, arrival.chunk⟩ order.waiting
    have hoctets := octetsOf_wait_le ⟨offset.toNat, arrival.chunk⟩ order.waiting
    refine ⟨⟨tidy.held, ?_, sorted_wait _ tidy.sorted, ?_, ?_⟩, rfl, rfl, rfl, by simp,
      Nat.le_refl _, fun _ => rfl, hlength, fun h => absurd h (Nat.lt_irrefl _), ?_⟩
    · exact Nat.le_trans hlength hroom
    · intro w hw
      rcases mem_wait hw with rfl | hw
      · show order.next < offset.toNat
        omega
      · exact tidy.gap w hw
    · intro w hw
      rcases mem_wait hw with rfl | hw
      · exact hne
      · exact tidy.nonempty w hw
    · rw [brought_singleton]
      unfold load
      simp only at hoctets ⊢
      omega

theorem handled_accept (tidy : order.Tidy) (start : UInt32) (arrival : Arrival) :
    Handled order [arrival] (order.accept start arrival) := by
  unfold accept
  dsimp only
  split
  · -- without octets at most the end of the stream is noted
    rename_i hempty
    have noted := tidy.noteFin arrival.fin
      (order.offsetOf start arrival.sequence + arrival.chunk.octets.length)
    refine .of_noteFin ⟨noted, rfl, rfl, rfl, by simp, Nat.le_refl _, fun _ => rfl,
      Nat.le_add_right .., fun h => absurd h (Nat.lt_irrefl _), Nat.le_add_right ..⟩
  · rename_i hne
    exact .of_noteFin (handled_place (tidy.noteFin ..) _ fun h => hne (List.isEmpty_iff.mpr h))

theorem handled_acceptAll (tidy : order.Tidy) (start : UInt32) (arrivals : List Arrival) :
    Handled order arrivals (order.acceptAll start arrivals) := by
  -- each arrival is taken by the stream that those before it left
  induction arrivals generalizing order with
  | nil => exact .refl tidy
  | cons arrival rest ih =>
    have first := handled_accept tidy start arrival
    exact first.trans (ih first.tidy)

/-! ## What is refused -/

/-- An arrival is refused if it has octets, lies behind a gap, and no room is
    left. -/
def Refuses (order : Reorder) (start : UInt32) (arrival : Arrival) : Prop :=
  arrival.chunk.octets ≠ [] ∧ order.next < order.offsetOf start arrival.sequence ∧
    order.capacity ≤ order.waiting.length

instance (order : Reorder) (start : UInt32) (arrival : Arrival) :
    Decidable (order.Refuses start arrival) :=
  inferInstanceAs (Decidable (_ ∧ _ ∧ _))

theorem refused_accept (order : Reorder) (start : UInt32) (arrival : Arrival) :
    (order.accept start arrival).2.refused =
      if order.Refuses start arrival then order.refused + 1 else order.refused := by
  unfold accept
  dsimp only
  split
  · rename_i hempty
    rw [if_neg fun h => h.1 (List.isEmpty_iff.mp hempty), noteFin_refused]
  · rename_i hne
    have hoctets : arrival.chunk.octets ≠ [] := fun h => hne (List.isEmpty_iff.mpr h)
    have hlands := lands (order.noteFin arrival.fin (order.offsetOf start arrival.sequence +
      arrival.chunk.octets.length)) (order.offsetOf start arrival.sequence) arrival.chunk
    generalize place _ _ _ = result at hlands ⊢
    cases hlands with
    | old hold =>
      -- octets that end at `next` or before it start before it, for there are some
      rw [noteFin_next] at hold
      have hpositive := List.length_pos_iff.mpr hoctets
      rw [if_neg fun h => ?_]
      · exact noteFin_refused ..
      · have := h.2.1
        omega
    | fresh hoffset hnew hrelease =>
      rw [noteFin_next] at hoffset
      rw [if_neg fun h => absurd h.2.1 (Int.not_lt.mpr hoffset)]
      exact noteFin_refused ..
    | refused hoffset hfull =>
      rw [noteFin_next] at hoffset
      rw [noteFin_capacity, noteFin_waiting] at hfull
      rw [if_pos ⟨hoctets, hoffset, hfull⟩]
      exact congrArg (· + 1) (noteFin_refused ..)
    | waits hoffset hroom =>
      rw [noteFin_capacity, noteFin_waiting] at hroom
      rw [if_neg fun h => absurd h.2.2 (Nat.not_le_of_lt hroom)]
      exact noteFin_refused ..

/-- Nothing new waits when an arrival has no gap in front of it. -/
theorem length_accept_le (tidy : order.Tidy)
    (h : order.offsetOf start arrival.sequence ≤ order.next) :
    (order.accept start arrival).2.waiting.length ≤ order.waiting.length := by
  unfold accept
  dsimp only
  split
  · exact Nat.le_of_eq (by rw [noteFin_waiting])
  · have hlands := lands (order.noteFin arrival.fin (order.offsetOf start arrival.sequence +
      arrival.chunk.octets.length)) (order.offsetOf start arrival.sequence) arrival.chunk
    generalize place _ _ _ = result at hlands ⊢
    cases hlands with
    | old hold => simp only [noteFin_waiting, Nat.le_refl]
    | fresh hoffset hnew hrelease =>
      rw [noteFin_waiting] at hrelease
      have released := releasing (order.offsetOf start arrival.sequence +
        arrival.chunk.octets.length).toNat tidy.sorted
      rw [hrelease] at released
      exact released.suffix.length_le
    | refused hoffset hfull => simp only [noteFin_waiting, Nat.le_refl]
    | waits hoffset hroom =>
      rw [noteFin_next] at hoffset
      omega

end Reorder

end PassiveDns.Stream
