/-
  PassiveDns.Proofs.Stream.Soundness

  A stream at any time, whatever was done to it (`Sound`, `stepped_run`). Until its
  start is known it refuses nothing, and what was held is replayed without a loss,
  because the first of what is replayed never waits (`refused_anchor_of_mem`). A
  segment that has the next octet is never refused (`spares`).
-/
import PassiveDns.Proofs.Stream.Handling

namespace PassiveDns.Stream

namespace Reorder

variable {order : Reorder} {start : UInt32}

/-! ## A stream at any time -/

/-- What is true of a stream, whatever was done to it. -/
structure Sound (order : Reorder) : Prop where
  waiting_le : order.waiting.length ≤ order.capacity
  held_le : order.held.length ≤ order.capacity
  sorted : order.waiting.Pairwise fun v w => v.offset < w.offset
  gap : ∀ w ∈ order.waiting, order.next < w.offset
  nonempty : ∀ w ∈ order.waiting, w.chunk.octets ≠ []
  held_of_start : ∀ start, order.start = some start → order.held = []
  waiting_of_none : order.start = none → order.waiting = []
  next_of_none : order.start = none → order.next = 0
  finAt_of_none : order.start = none → order.finAt = none

theorem sound_empty (capacity : Nat) : (empty capacity).Sound :=
  ⟨Nat.zero_le _, Nat.zero_le _, .nil, by simp [empty], by simp [empty], by simp [empty],
    fun _ => rfl, fun _ => rfl, fun _ => rfl⟩

theorem Sound.tidy (sound : order.Sound) (h : order.start = some start) : order.Tidy :=
  ⟨sound.held_of_start start h, sound.waiting_le, sound.sorted, sound.gap, sound.nonempty⟩

theorem Tidy.sound (tidy : order.Tidy) (h : order.start = some start) : order.Sound where
  waiting_le := tidy.waiting_le
  held_le := by simp [tidy.held]
  sorted := tidy.sorted
  gap := tidy.gap
  nonempty := tidy.nonempty
  held_of_start := fun _ _ => tidy.held
  waiting_of_none := by simp [h]
  next_of_none := by simp [h]
  finAt_of_none := by simp [h]

/-- Without a start there is room for all that is held, and with one nothing is. -/
theorem Sound.room (sound : order.Sound) :
    order.waiting.length + order.held.length ≤ order.capacity := by
  cases hstart : order.start with
  | none =>
    rw [sound.waiting_of_none hstart, List.length_nil, Nat.zero_add]
    exact sound.held_le
  | some start =>
    rw [sound.held_of_start start hstart]
    exact sound.waiting_le

theorem Sound.isFinished_of_none (sound : order.Sound) (h : order.start = none) :
    order.isFinished = false := by
  unfold isFinished
  rw [sound.finAt_of_none h]

/-! ## Starting -/

/-- A stream that starts, before it took what it held. -/
def started (order : Reorder) (start : UInt32) : Reorder :=
  { order with start := some start, held := [] }

/-- What is held, in the order of a stream that starts at a sequence number. -/
def heldFrom (order : Reorder) (start : UInt32) : List Arrival :=
  order.held.mergeSort fun a b => ahead a.sequence start ≤ ahead b.sequence start

theorem anchor_eq (order : Reorder) (start : UInt32) :
    order.anchor start = (order.started start).acceptAll start (order.heldFrom start) := rfl

theorem Sound.tidy_started (sound : order.Sound) (start : UInt32) : (order.started start).Tidy :=
  ⟨rfl, sound.waiting_le, sound.sorted, sound.gap, sound.nonempty⟩

theorem length_heldFrom (order : Reorder) (start : UInt32) :
    (order.heldFrom start).length = order.held.length :=
  List.length_mergeSort _

/-- What was held is neither lost nor counted twice. -/
theorem load_started (order : Reorder) (start : UInt32) :
    (order.started start).load + brought (order.heldFrom start) = order.load := by
  have hperm : brought (order.heldFrom start) = brought order.held :=
    octetsIn_perm ((List.mergeSort_perm _ _).map _)
  rw [hperm]
  simp [load, started, brought]

/-- Starting where one was told to refuses nothing of what was held. -/
theorem refused_anchor (sound : order.Sound) (start : UInt32) :
    (order.anchor start).2.refused = order.refused := by
  have handled := handled_acceptAll (sound.tidy_started start) start (order.heldFrom start)
  refine handled.room ?_
  rw [length_heldFrom]
  exact sound.room

theorem foldl_earliest_mem (reference best : UInt32) (numbers : List UInt32) :
    numbers.foldl (fun best n => if ahead n reference < ahead best reference then n else best)
      best ∈ best :: numbers := by
  induction numbers generalizing best with
  | nil => exact List.mem_singleton_self best
  | cons n rest ih =>
    rw [List.foldl_cons]
    rcases List.mem_cons.mp (ih (if ahead n reference < ahead best reference then n else best))
      with heq | hrest
    · rw [heq]
      split <;> simp
    · exact List.mem_cons_of_mem _ (List.mem_cons_of_mem _ hrest)

/-- A stream that is to start with what it holds starts at something held. -/
theorem anchorAtEarliest_eq (order : Reorder) (hstart : order.start = none)
    (hheld : order.held ≠ []) :
    ∃ start ∈ order.held.map Arrival.sequence, order.anchorAtEarliest = order.anchor start := by
  obtain ⟨first, rest, hcons⟩ := List.exists_cons_of_ne_nil hheld
  refine ⟨earliest first.sequence (order.held.map Arrival.sequence), ?_, ?_⟩
  · rcases List.mem_cons.mp (foldl_earliest_mem first.sequence first.sequence
      (order.held.map Arrival.sequence)) with heq | hmem
    · unfold earliest
      rw [heq, hcons]
      exact List.mem_cons_self ..
    · exact hmem
  · unfold anchorAtEarliest
    rw [hstart, hcons]

theorem ahead_self (a : UInt32) : ahead a a = 0 := by
  unfold ahead
  rw [Int.sub_self]
  rfl

/-- A stream that starts at something it holds takes nothing first that lies
    ahead of its start. -/
theorem ahead_head_le {first : Arrival} {rest : List Arrival}
    (hmem : start ∈ order.held.map Arrival.sequence)
    (hfirst : order.heldFrom start = first :: rest) : ahead first.sequence start ≤ 0 := by
  obtain ⟨arrival, harrival, hsequence⟩ := List.mem_map.mp hmem
  have hsorted : (order.heldFrom start).Pairwise fun a b =>
      decide (ahead a.sequence start ≤ ahead b.sequence start) = true := by
    refine List.pairwise_mergeSort ?_ ?_ _
    · intro a b c hab hbc
      exact decide_eq_true (Int.le_trans (of_decide_eq_true hab) (of_decide_eq_true hbc))
    · intro a b
      simpa using Int.le_total _ _
  have harrival : arrival ∈ first :: rest := hfirst ▸ List.mem_mergeSort.mpr harrival
  rw [hfirst] at hsorted
  have hself : ahead arrival.sequence start = 0 := by rw [hsequence, ahead_self]
  rcases List.mem_cons.mp harrival with rfl | harrival
  · exact Int.le_of_eq hself
  · have := of_decide_eq_true ((List.pairwise_cons.mp hsorted).1 arrival harrival)
    omega

/-- Even one more than there is room for is replayed without a loss: the earliest
    of what is held stands at the start and does not wait. -/
theorem refused_anchor_of_mem (order : Reorder) {start : UInt32}
    (tidy : (order.started start).Tidy) (hnext : order.next = 0)
    (hwaiting : order.waiting = []) (hmem : start ∈ order.held.map Arrival.sequence)
    (hlength : order.held.length ≤ order.capacity + 1) :
    (order.anchor start).2.refused = order.refused := by
  have hheld : (order.heldFrom start).length ≤ order.capacity + 1 :=
    Nat.le_trans (Nat.le_of_eq (length_heldFrom ..)) hlength
  rw [anchor_eq]
  cases hfirst : order.heldFrom start with
  | nil => rfl
  | cons first rest =>
    have hahead := ahead_head_le hmem hfirst
    have hoffset : (order.started start).offsetOf start first.sequence ≤
        ((order.started start).next : Int) := by
      have hzero : start + UInt32.ofNat 0 = start := UInt32.add_zero start
      unfold offsetOf started
      simp only [hnext, hzero]
      omega
    -- so the first neither is refused nor waits
    have hnot : ¬(order.started start).Refuses start first :=
      fun h => absurd h.2.1 (Int.not_lt.mpr hoffset)
    have handled := handled_accept tidy start first
    have hsame := refused_accept (order.started start) start first
    rw [if_neg hnot] at hsame
    have hempty := length_accept_le tidy hoffset
    have hzero : (order.started start).waiting.length = 0 := by simp [started, hwaiting]
    rw [hfirst, List.length_cons] at hheld
    -- all room is left for the others
    have hrest := (handled_acceptAll handled.tidy start rest).room (by
      rw [handled.capacity]
      show _ ≤ order.capacity
      omega)
    exact hrest.trans hsame

theorem refused_anchorAtEarliest (sound : order.Sound) :
    order.anchorAtEarliest.2.refused = order.refused := by
  cases hstart : order.start with
  | some start =>
    unfold anchorAtEarliest
    rw [hstart]
  | none =>
    by_cases hheld : order.held = []
    · unfold anchorAtEarliest
      rw [hstart, hheld]
    · obtain ⟨start, _, heq⟩ := order.anchorAtEarliest_eq hstart hheld
      rw [heq, refused_anchor sound]

/-! ## One call -/

/-- A segment by the sequence number of its first octet: a SYN takes the one
    before. -/
def dataOf (syn : Bool) (segment : Arrival) : Arrival :=
  { segment with sequence := if syn then segment.sequence + 1 else segment.sequence }

/-- A stream that holds one arrival more. -/
def holdingToo (order : Reorder) (arrival : Arrival) : Reorder :=
  { order with held := order.held ++ [arrival] }

/-- `push` in terms of the two. -/
theorem push_eq (order : Reorder) (syn : Bool) (segment : Arrival) :
    order.push syn segment =
      match order.start with
      | some start => order.accept start (dataOf syn segment)
      | none =>
        if syn then
          ((order.anchor (dataOf syn segment).sequence).1 ++
              ((order.anchor (dataOf syn segment).sequence).2.accept
                (dataOf syn segment).sequence (dataOf syn segment)).1,
            ((order.anchor (dataOf syn segment).sequence).2.accept
              (dataOf syn segment).sequence (dataOf syn segment)).2)
        else if segment.chunk.octets.isEmpty && !segment.fin then ([], order)
        else if order.capacity < (order.holdingToo (dataOf syn segment)).held.length then
          (order.holdingToo (dataOf syn segment)).anchorAtEarliest
        else ([], order.holdingToo (dataOf syn segment)) := rfl

/-- What becomes of a segment, from its first octet on an `arrival`. -/
inductive Pushing (order : Reorder) (arrival : Arrival) : List Chunk × Reorder → Prop
  | accepted {start : UInt32} (hstart : order.start = some start) :
    Pushing order arrival (order.accept start arrival)
  | opens (hstart : order.start = none) :
    Pushing order arrival
      ((order.anchor arrival.sequence).1 ++
          ((order.anchor arrival.sequence).2.accept arrival.sequence arrival).1,
        ((order.anchor arrival.sequence).2.accept arrival.sequence arrival).2)
  | passed (hstart : order.start = none) : Pushing order arrival ([], order)
  | held (hstart : order.start = none)
      (hroom : (order.holdingToo arrival).held.length ≤ order.capacity) :
    Pushing order arrival ([], order.holdingToo arrival)
  | overflows (hstart : order.start = none) :
    Pushing order arrival (order.holdingToo arrival).anchorAtEarliest

theorem pushing (order : Reorder) (syn : Bool) (segment : Arrival) :
    Pushing order (dataOf syn segment) (order.push syn segment) := by
  rw [push_eq]
  split
  · rename_i start hstart
    exact .accepted hstart
  · rename_i hstart
    split
    · exact .opens hstart
    · split
      · exact .passed hstart
      · split
        · exact .overflows hstart
        · rename_i hroom
          exact .held hstart (Nat.le_of_not_lt hroom)

/-- A segment that comes when the start is known is refused as any arrival is. -/
theorem refused_push_of_start (hstart : order.start = some start) (syn : Bool) (segment : Arrival) :
    (order.push syn segment).2.refused =
      if order.Refuses start (dataOf syn segment) then order.refused + 1 else order.refused := by
  unfold push
  rw [hstart]
  exact refused_accept ..

/-- The data of the SYN that starts a stream have room: if a gap is before them, something
    that was held was handed out and does not wait. -/
theorem not_refuses_data (sound : order.Sound) (hstart : order.start = none) (arrival : Arrival) :
    ¬(order.anchor arrival.sequence).2.Refuses arrival.sequence arrival := by
  have handled := handled_acceptAll (sound.tidy_started arrival.sequence) arrival.sequence
    (order.heldFrom arrival.sequence)
  rw [← anchor_eq] at handled
  rintro ⟨-, hgap, hfull⟩
  by_cases hnext : (order.anchor arrival.sequence).2.next = 0
  · have hzero : arrival.sequence + UInt32.ofNat 0 = arrival.sequence := UInt32.add_zero _
    unfold offsetOf at hgap
    simp only [hnext, hzero, ahead_self] at hgap
    omega
  · -- what was handed out leaves room for one, since all that was held had room
    have hbefore : (order.started arrival.sequence).next = 0 := sound.next_of_none hstart
    have hlength := handled.length_lt (by omega)
    have hwaiting : (order.started arrival.sequence).waiting = order.waiting := rfl
    rw [length_heldFrom, hwaiting] at hlength
    have hcapacity : (order.anchor arrival.sequence).2.capacity = order.capacity :=
      handled.capacity
    have hroom := sound.room
    omega

/-- Until the start is known nothing is refused. -/
theorem refused_push_of_none (sound : order.Sound) (hstart : order.start = none) (syn : Bool)
    (segment : Arrival) : (order.push syn segment).2.refused = order.refused := by
  have hpushing := order.pushing syn segment
  generalize dataOf syn segment = arrival at hpushing
  generalize order.push syn segment = result at hpushing ⊢
  cases hpushing with
  | accepted hsome => simp [hstart] at hsome
  | passed => rfl
  | held _ hroom => rfl
  | overflows _ =>
    -- one more than there is room for
    obtain ⟨start, hmem, heq⟩ := (order.holdingToo arrival).anchorAtEarliest_eq hstart
      (by simp [holdingToo])
    rw [heq]
    refine (order.holdingToo arrival).refused_anchor_of_mem (sound.tidy_started start)
      (sound.next_of_none hstart) (sound.waiting_of_none hstart) hmem ?_
    have hlength : (order.holdingToo arrival).held.length = order.held.length + 1 :=
      List.length_append
    rw [hlength]
    exact Nat.succ_le_succ sound.held_le
  | opens _ =>
    show ((order.anchor arrival.sequence).2.accept arrival.sequence arrival).2.refused = _
    rw [refused_accept, if_neg (not_refuses_data sound hstart arrival), refused_anchor sound]

/-- All that a call does to a stream. -/
structure Stepped (order : Reorder) (arrivals : List Arrival) (result : List Chunk × Reorder) :
    Prop where
  sound : result.2.Sound
  capacity : result.2.capacity = order.capacity
  start : ∀ start, order.start = some start → result.2.start = some start
  next : result.2.next = order.next + octetsIn result.1
  nonempty : ∀ chunk ∈ result.1, chunk.octets ≠ []
  load_le : result.2.load ≤ order.load + brought arrivals

theorem Stepped.refl (sound : order.Sound) : Stepped order [] ([], order) :=
  ⟨sound, rfl, fun _ h => h, rfl, by simp, Nat.le_refl _⟩

theorem Stepped.trans {arrivals more : List Arrival} {first second : List Chunk × Reorder}
    (h : Stepped order arrivals first) (h' : Stepped first.2 more second) :
    Stepped order (arrivals ++ more) (first.1 ++ second.1, second.2) where
  sound := h'.sound
  capacity := h'.capacity.trans h.capacity
  start := fun start hstart => h'.start start (h.start start hstart)
  next := by
    rw [h'.next, h.next, octetsIn_append, Nat.add_assoc]
  nonempty := by
    intro chunk hchunk
    rcases List.mem_append.mp hchunk with hchunk | hchunk
    · exact h.nonempty chunk hchunk
    · exact h'.nonempty chunk hchunk
  load_le := by
    have hfirst := h.load_le
    have hsecond := h'.load_le
    rw [brought_append]
    simp only
    omega

theorem Stepped.of_handled {arrivals : List Arrival} {result : List Chunk × Reorder}
    (hstart : order.start = some start) (h : Handled order arrivals result) :
    Stepped order arrivals result :=
  ⟨h.tidy.sound (h.start.trans hstart), h.capacity,
    fun _ hsome => h.start.trans hsome, h.next, h.nonempty, h.load_le⟩

/-- A stream gets its start and takes what it held, and then possibly more. -/
theorem Stepped.of_anchor {more : List Arrival} {result : List Chunk × Reorder}
    (hstart : order.start = none)
    (h : Handled (order.started start) (order.heldFrom start ++ more) result) :
    Stepped order more result := by
  refine ⟨h.tidy.sound h.start, h.capacity, by simp [hstart], h.next, h.nonempty, ?_⟩
  have hload := h.load_le
  have hheld := load_started order start
  rw [brought_append] at hload
  omega

theorem stepped_anchor (tidy : (order.started start).Tidy) (hstart : order.start = none) :
    Stepped order [] (order.anchor start) := by
  have handled : Handled (order.started start) (order.heldFrom start ++ [])
      (order.anchor start) := by
    rw [List.append_nil]
    exact handled_acceptAll tidy start (order.heldFrom start)
  exact .of_anchor hstart handled

theorem stepped_anchorAtEarliest (sound : order.Sound) :
    Stepped order [] order.anchorAtEarliest := by
  cases hstart : order.start with
  | some start =>
    unfold anchorAtEarliest
    rw [hstart]
    exact .refl sound
  | none =>
    by_cases hheld : order.held = []
    · unfold anchorAtEarliest
      rw [hstart, hheld]
      exact .refl sound
    · obtain ⟨start, _, heq⟩ := order.anchorAtEarliest_eq hstart hheld
      rw [heq]
      exact stepped_anchor (sound.tidy_started start) hstart

theorem load_holdingToo (order : Reorder) (arrival : Arrival) :
    (order.holdingToo arrival).load = order.load + brought [arrival] := by
  unfold load holdingToo brought
  simp only [List.map_append, octetsIn_append]
  omega

theorem stepped_push (sound : order.Sound) (syn : Bool) (segment : Arrival) :
    Stepped order [dataOf syn segment] (order.push syn segment) := by
  have hpushing := order.pushing syn segment
  generalize dataOf syn segment = arrival at hpushing ⊢
  generalize order.push syn segment = result at hpushing ⊢
  cases hpushing with
  | accepted hstart => exact .of_handled hstart (handled_accept (sound.tidy hstart) _ _)
  | opens hstart =>
    have handled := handled_acceptAll (sound.tidy_started arrival.sequence) arrival.sequence
      (order.heldFrom arrival.sequence)
    exact .of_anchor hstart (handled.trans (handled_accept handled.tidy _ _))
  | passed hstart =>
    exact ⟨sound, rfl, fun _ h => h, rfl, by simp, Nat.le_add_right ..⟩
  | held hstart hroom =>
    refine ⟨⟨sound.waiting_le, hroom, sound.sorted, sound.gap, sound.nonempty, ?_,
      sound.waiting_of_none, sound.next_of_none, sound.finAt_of_none⟩, rfl, fun _ h => h, rfl,
      by simp, Nat.le_of_eq (load_holdingToo ..)⟩
    intro start hsome
    rw [show (order.holdingToo arrival).start = none from hstart] at hsome
    cases hsome
  | overflows hstart =>
    obtain ⟨start, _, heq⟩ := (order.holdingToo arrival).anchorAtEarliest_eq hstart
      (by simp [holdingToo])
    rw [heq]
    -- what is taken is what was held and the arrival
    have stepped : Stepped (order.holdingToo arrival) []
        ((order.holdingToo arrival).anchor start) :=
      stepped_anchor (sound.tidy_started start) hstart
    refine ⟨stepped.sound, stepped.capacity, by simp [hstart], stepped.next, stepped.nonempty, ?_⟩
    have hload := stepped.load_le
    have hheld := load_holdingToo order arrival
    have hnone : brought [] = 0 := rfl
    omega

/-! ## Any run -/

/-- A call of a stream. -/
inductive Action where
  | push (syn : Bool) (segment : Arrival)
  | anchor
deriving Repr, DecidableEq, Inhabited

/-- What a call brings. -/
def Action.arrivals : Action → List Arrival
  | push syn segment => [dataOf syn segment]
  | anchor => []

/-- What a call does. -/
def perform (order : Reorder) : Action → List Chunk × Reorder
  | .push syn segment => order.push syn segment
  | .anchor => order.anchorAtEarliest

/-- What calls do, one after the other. -/
def run (order : Reorder) : List Action → List Chunk × Reorder
  | [] => ([], order)
  | action :: rest =>
    ((order.perform action).1 ++ ((order.perform action).2.run rest).1,
      ((order.perform action).2.run rest).2)

theorem stepped_perform (sound : order.Sound) (action : Action) :
    Stepped order action.arrivals (order.perform action) := by
  cases action with
  | push syn segment => exact stepped_push sound syn segment
  | anchor => exact stepped_anchorAtEarliest sound

theorem stepped_run (sound : order.Sound) (actions : List Action) :
    Stepped order (actions.flatMap Action.arrivals) (order.run actions) := by
  induction actions generalizing order with
  | nil => exact .refl sound
  | cons action rest ih =>
    have first := stepped_perform sound action
    exact first.trans (ih first.sound)

/-- Whether an arrival has the octet that is to be handed out next. -/
def HasNext (order : Reorder) (start : UInt32) (arrival : Arrival) : Prop :=
  order.offsetOf start arrival.sequence ≤ order.next ∧
    (order.next : Int) < order.offsetOf start arrival.sequence + arrival.chunk.octets.length

/-- What a call may refuse: nothing of what was held, nothing that has the next
    octet, and else one segment at most. -/
structure Spares (order : Reorder) (action : Action) : Prop where
  start : ∀ start, order.start = some start → (order.perform action).2.start = some start
  refused_le : order.refused ≤ (order.perform action).2.refused
  refused_le_succ : (order.perform action).2.refused ≤ order.refused + 1
  replayed : ∀ start, (order.anchor start).2.refused = order.refused
  earliest : order.anchorAtEarliest.2.refused = order.refused
  unstarted : order.start = none → (order.perform action).2.refused = order.refused
  next : ∀ start syn segment, action = .push syn segment → order.start = some start →
    order.HasNext start (dataOf syn segment) → (order.perform action).2.refused = order.refused

theorem refused_perform (sound : order.Sound) (action : Action) :
    (order.perform action).2.refused = order.refused ∨
      ((order.perform action).2.refused = order.refused + 1 ∧
        ∃ start syn segment, action = .push syn segment ∧ order.start = some start ∧
          order.Refuses start (dataOf syn segment)) := by
  cases action with
  | anchor => exact .inl (refused_anchorAtEarliest sound)
  | push syn segment =>
    cases hstart : order.start with
    | none => exact .inl (refused_push_of_none sound hstart syn segment)
    | some start =>
      have hrefused := refused_push_of_start hstart syn segment
      by_cases hrefuses : order.Refuses start (dataOf syn segment)
      · rw [if_pos hrefuses] at hrefused
        exact .inr ⟨hrefused, start, syn, segment, rfl, rfl, hrefuses⟩
      · rw [if_neg hrefuses] at hrefused
        exact .inl hrefused

theorem spares (sound : order.Sound) (action : Action) : order.Spares action := by
  have hrefused := refused_perform sound action
  refine ⟨(stepped_perform sound action).start, ?_, ?_, refused_anchor sound,
    refused_anchorAtEarliest sound, ?_, ?_⟩
  · rcases hrefused with h | ⟨h, -⟩ <;> omega
  · rcases hrefused with h | ⟨h, -⟩ <;> omega
  · intro hnone
    rcases hrefused with h | ⟨-, start, _, _, -, hstart, -⟩
    · exact h
    · simp [hnone] at hstart
  · rintro start syn segment rfl hstart ⟨hoffset, -⟩
    rcases hrefused with h | ⟨-, other, _, _, haction, hother, -, hgap, -⟩
    · exact h
    · -- refused is only what lies behind a gap
      cases haction
      rw [hstart] at hother
      cases hother
      omega

end Reorder

end PassiveDns.Stream
