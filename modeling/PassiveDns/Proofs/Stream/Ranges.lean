/-
  PassiveDns.Proofs.Stream.Ranges

  A stream on a machine: offsets are words of 64 bits, and every index into the
  octets of a segment is checked. As long as fewer than 2^62 octets come, no word
  is too small and no index out of range, whatever the sequence numbers are
  (`run?_eq`); `sound_after_run` puts this together with what is true of a stream
  at any time.
-/
import Mathlib.Algebra.GroupWithZero.Nat
import PassiveDns.Proofs.Stream.Soundness

namespace PassiveDns.Stream

/-- A number as a signed word of 64 bits, if it is one. -/
def signed (n : Int) : Option Int :=
  if -9223372036854775808 ≤ n ∧ n < 9223372036854775808 then some n else none

/-- A number as an unsigned word of 64 bits, if it is one. -/
def unsigned (n : Int) : Option Nat :=
  if 0 ≤ n ∧ n < 18446744073709551616 then some n.toNat else none

/-- The octets from an index on, if the index is not behind their end. -/
def fromIndex (octets : Octets) (index : Nat) : Option Octets :=
  if index ≤ octets.length then some (octets.drop index) else none

namespace Reorder

/-! ## The steps, checked -/

/-- `release` with checked offsets and indices. -/
def release? (next : Nat) : List Waiting → Option (List Chunk × List Waiting × Nat)
  | [] => some ([], [], next)
  | w :: rest =>
    if next < w.offset then some ([], w :: rest, next)
    else do
      let stop ← unsigned (w.offset + w.chunk.octets.length)
      if stop ≤ next then release? next rest
      else
        let skip ← unsigned (next - w.offset)
        let fresh ← fromIndex w.chunk.octets skip
        let (chunks, left, reached) ← release? stop rest
        some (⟨fresh, w.chunk.time⟩ :: chunks, left, reached)

/-- `place` with checked offsets and indices. -/
def place? (order : Reorder) (offset : Int) (chunk : Chunk) : Option (List Chunk × Reorder) := do
  let next ← signed order.next
  let stop ← signed (offset + chunk.octets.length)
  if stop ≤ next then some ([], { order with retransmits := order.retransmits + 1 })
  else if offset ≤ next then
    let skip ← unsigned (next - offset)
    let fresh ← fromIndex chunk.octets skip
    let reached ← unsigned stop
    let (chunks, left, reached) ← release? reached order.waiting
    some (⟨fresh, chunk.time⟩ :: chunks, { order with next := reached, waiting := left })
  else if order.capacity ≤ order.waiting.length then
    some ([], { order with refused := order.refused + 1 })
  else
    let key ← unsigned offset
    some ([], { order with waiting := wait ⟨key, chunk⟩ order.waiting })

/-- `accept` with checked offsets and indices. -/
def accept? (order : Reorder) (start : UInt32) (arrival : Arrival) :
    Option (List Chunk × Reorder) := do
  let next ← signed order.next
  let offset ← signed (next + ahead arrival.sequence (start + UInt32.ofNat order.next))
  let stop ← signed (offset + arrival.chunk.octets.length)
  let noted := order.noteFin arrival.fin stop
  if arrival.chunk.octets.isEmpty then some ([], noted) else noted.place? offset arrival.chunk

/-- `acceptAll` with checked offsets and indices. -/
def acceptAll? (order : Reorder) (start : UInt32) : List Arrival → Option (List Chunk × Reorder)
  | [] => some ([], order)
  | arrival :: rest => do
    let first ← order.accept? start arrival
    let others ← first.2.acceptAll? start rest
    some (first.1 ++ others.1, others.2)

/-- `anchor` with checked offsets and indices. -/
def anchor? (order : Reorder) (start : UInt32) : Option (List Chunk × Reorder) :=
  (order.started start).acceptAll? start (order.heldFrom start)

/-- `anchorAtEarliest` with checked offsets and indices. -/
def anchorAtEarliest? (order : Reorder) : Option (List Chunk × Reorder) :=
  match order.start, order.held with
  | some _, _ => some ([], order)
  | none, [] => some ([], order)
  | none, first :: _ => order.anchor? (earliest first.sequence (order.held.map Arrival.sequence))

/-- `push` with checked offsets and indices. -/
def push? (order : Reorder) (syn : Bool) (segment : Arrival) : Option (List Chunk × Reorder) :=
  match order.start with
  | some start => order.accept? start (dataOf syn segment)
  | none =>
    if syn then do
      let replayed ← order.anchor? (dataOf syn segment).sequence
      let taken ← replayed.2.accept? (dataOf syn segment).sequence (dataOf syn segment)
      some (replayed.1 ++ taken.1, taken.2)
    else if segment.chunk.octets.isEmpty && !segment.fin then some ([], order)
    else if order.capacity < (order.holdingToo (dataOf syn segment)).held.length then
      (order.holdingToo (dataOf syn segment)).anchorAtEarliest?
    else some ([], order.holdingToo (dataOf syn segment))

/-- `perform` with checked offsets and indices. -/
def perform? (order : Reorder) : Action → Option (List Chunk × Reorder)
  | .push syn segment => order.push? syn segment
  | .anchor => order.anchorAtEarliest?

/-- `run` with checked offsets and indices. -/
def run? (order : Reorder) : List Action → Option (List Chunk × Reorder)
  | [] => some ([], order)
  | action :: rest => do
    let first ← order.perform? action
    let others ← first.2.run? rest
    some (first.1 ++ others.1, others.2)

/-! ## No word is too small and no index out of range -/

theorem signed_eq {n : Int} (low : -9223372036854775808 ≤ n) (high : n < 9223372036854775808) :
    signed n = some n :=
  if_pos ⟨low, high⟩

theorem unsigned_eq {n : Int} {m : Nat} (h : n = m) (high : m < 18446744073709551616) :
    unsigned n = some m := by
  unfold unsigned
  rw [if_pos (by omega), h, Int.toNat_natCast]

theorem fromIndex_eq {octets : Octets} {index : Nat} (h : index ≤ octets.length) :
    fromIndex octets index = some (octets.drop index) :=
  if_pos h

theorem ahead_range (a b : UInt32) : -2147483648 ≤ ahead a b ∧ ahead a b < 2147483648 := by
  unfold ahead
  have low := Int.le_bmod (x := (a.toNat : Int) - b.toNat) (m := 4294967296) (by decide)
  have high := Int.bmod_lt (x := (a.toNat : Int) - b.toNat) (m := 4294967296) (by decide)
  omega

/-- What waits ends within half of the circle behind the octets that there are. -/
def Below (limit : Nat) (waiting : List Waiting) : Prop :=
  ∀ w ∈ waiting, w.stop < limit + halfCircle

variable {order : Reorder} {limit : Nat}

theorem release?_eq (next : Nat) {waiting : List Waiting}
    (h : ∀ w ∈ waiting, w.stop < 18446744073709551616) :
    release? next waiting = some (release next waiting) := by
  induction waiting generalizing next with
  | nil => rfl
  | cons w rest ih =>
    have hrest : ∀ v ∈ rest, v.stop < 18446744073709551616 := fun v hv =>
      h v (List.mem_cons_of_mem _ hv)
    have hdef : w.stop = w.offset + w.chunk.octets.length := rfl
    unfold release? release
    split
    · rfl
    · rename_i hgap
      have hstop : unsigned (w.offset + w.chunk.octets.length) = some w.stop :=
        unsigned_eq (by omega) (h w (List.mem_cons_self ..))
      rw [hstop, Option.bind_eq_bind, Option.bind_some]
      split
      · exact ih next hrest
      · have hskip : unsigned ((next : Int) - w.offset) = some (next - w.offset) :=
          unsigned_eq (by omega) (by have := h w (List.mem_cons_self ..); omega)
        have hindex : fromIndex w.chunk.octets (next - w.offset) =
            some (w.chunk.octets.drop (next - w.offset)) := fromIndex_eq (by omega)
        simp only [hskip, hindex, ih w.stop hrest, Option.bind_eq_bind, Option.bind_some]

theorem place?_eq (order : Reorder) (offset : Int) (chunk : Chunk)
    (hsmall : limit < 4611686018427387904)
    (hlow : (order.next : Int) - halfCircle ≤ offset) (hhigh : offset < order.next + halfCircle)
    (hload : order.next + chunk.octets.length ≤ limit) (below : Below limit order.waiting) :
    order.place? offset chunk = some (order.place offset chunk) := by
  unfold halfCircle at hlow hhigh
  -- the octets end before `limit + 2^31`
  have hnext : signed order.next = some (order.next : Int) := signed_eq (by omega) (by omega)
  have hstop : signed (offset + chunk.octets.length) = some (offset + chunk.octets.length) :=
    signed_eq (by omega) (by omega)
  unfold place? place
  simp only [hnext, hstop, Option.bind_eq_bind, Option.bind_some]
  split
  · rfl
  · split
    · have hskip : unsigned ((order.next : Int) - offset) =
          some (order.next - offset).toNat := unsigned_eq (by omega) (by omega)
      have hindex : fromIndex chunk.octets ((order.next : Int) - offset).toNat =
          some (chunk.octets.drop ((order.next : Int) - offset).toNat) := fromIndex_eq (by omega)
      have hreached : unsigned (offset + chunk.octets.length) =
          some (offset + chunk.octets.length).toNat := unsigned_eq (by omega) (by omega)
      -- so does what waits
      have hwords : ∀ w ∈ order.waiting, w.stop < 18446744073709551616 := by
        intro w hw
        have := below w hw
        unfold halfCircle at this
        omega
      have hrelease := release?_eq (offset + chunk.octets.length).toNat hwords
      simp only [hskip, hindex, hreached, hrelease, Option.bind_some]
    · split
      · rfl
      · have hkey : unsigned offset = some offset.toNat := unsigned_eq (by omega) (by omega)
        simp only [hkey, Option.bind_some]

theorem offsetOf_range (order : Reorder) (start sequence : UInt32) :
    (order.next : Int) - halfCircle ≤ order.offsetOf start sequence ∧
      order.offsetOf start sequence < order.next + halfCircle := by
  have hrange := ahead_range sequence (start + UInt32.ofNat order.next)
  unfold offsetOf halfCircle
  omega

theorem accept?_eq (start : UInt32) (arrival : Arrival) (hsmall : limit < 4611686018427387904)
    (hload : order.next + arrival.chunk.octets.length ≤ limit)
    (below : Below limit order.waiting) :
    order.accept? start arrival = some (order.accept start arrival) := by
  obtain ⟨hlow, hhigh⟩ := order.offsetOf_range start arrival.sequence
  have hplace := (order.noteFin arrival.fin
      (order.offsetOf start arrival.sequence + arrival.chunk.octets.length)).place?_eq
    (order.offsetOf start arrival.sequence) arrival.chunk hsmall
    (by simpa using hlow) (by simpa using hhigh) (by simpa using hload) (by simpa using below)
  unfold halfCircle at hlow hhigh
  have hnext : signed order.next = some (order.next : Int) := signed_eq (by omega) (by omega)
  have hoffset : signed ((order.next : Int) +
      ahead arrival.sequence (start + UInt32.ofNat order.next)) =
      some (order.offsetOf start arrival.sequence) := by
    refine signed_eq ?_ ?_
    · exact Int.le_trans (by omega) hlow
    · exact Int.lt_of_lt_of_le hhigh (by omega)
  have hstop : signed (order.offsetOf start arrival.sequence + arrival.chunk.octets.length) =
      some (order.offsetOf start arrival.sequence + arrival.chunk.octets.length) :=
    signed_eq (by omega) (by omega)
  unfold accept? accept
  simp only [hnext, hoffset, hstop, Option.bind_eq_bind, Option.bind_some]
  split
  · rfl
  · exact hplace

theorem below_accept (start : UInt32) (arrival : Arrival) (sorted : order.waiting.Pairwise
      fun v w => v.offset < w.offset)
    (hload : order.next + arrival.chunk.octets.length ≤ limit)
    (below : Below limit order.waiting) :
    Below limit (order.accept start arrival).2.waiting := by
  obtain ⟨-, hhigh⟩ := order.offsetOf_range start arrival.sequence
  unfold accept
  dsimp only
  split
  · rw [noteFin_waiting]
    exact below
  · have hlands := lands (order.noteFin arrival.fin (order.offsetOf start arrival.sequence +
      arrival.chunk.octets.length)) (order.offsetOf start arrival.sequence) arrival.chunk
    generalize place _ _ _ = result at hlands ⊢
    cases hlands with
    | old hold =>
      simp only [noteFin_waiting]
      exact below
    | fresh hoffset hnew hrelease =>
      rw [noteFin_waiting] at hrelease
      have released := releasing (order.offsetOf start arrival.sequence +
        arrival.chunk.octets.length).toNat sorted
      rw [hrelease] at released
      exact fun w hw => below w (released.suffix.subset hw)
    | refused hoffset hfull =>
      simp only [noteFin_waiting]
      exact below
    | waits hoffset hroom =>
      simp only [noteFin_waiting]
      intro w hw
      rcases mem_wait hw with rfl | hw
      · unfold Waiting.stop
        unfold halfCircle at hhigh ⊢
        simp only
        omega
      · exact below w hw

/-- An arrival is taken as if words were unbounded, and what is kept stays in range. -/
theorem acceptAll?_eq (start : UInt32) (arrivals : List Arrival) (tidy : order.Tidy)
    (hsmall : limit < 4611686018427387904) (hload : order.load + brought arrivals ≤ limit)
    (below : Below limit order.waiting) :
    order.acceptAll? start arrivals = some (order.acceptAll start arrivals) ∧
      Below limit (order.acceptAll start arrivals).2.waiting := by
  induction arrivals generalizing order with
  | nil => exact ⟨rfl, below⟩
  | cons arrival rest ih =>
    have hbrought := brought_cons arrival rest
    have hnext : order.next + arrival.chunk.octets.length ≤ limit := by
      unfold load at hload
      omega
    -- the octets of the arrival now count among those that the stream keeps
    have handled := handled_accept tidy start arrival
    have hload' := handled.load_le
    have hsingle := brought_singleton arrival
    obtain ⟨hrest, hbelow⟩ := ih handled.tidy (by omega)
      (below_accept start arrival tidy.sorted hnext below)
    refine ⟨?_, hbelow⟩
    unfold acceptAll? acceptAll
    simp only [accept?_eq start arrival hsmall hnext below, hrest, Option.bind_eq_bind,
      Option.bind_some]

theorem anchor?_eq (start : UInt32) (tidy : (order.started start).Tidy)
    (hsmall : limit < 4611686018427387904) (hload : order.load ≤ limit)
    (below : Below limit order.waiting) :
    order.anchor? start = some (order.anchor start) ∧
      Below limit (order.anchor start).2.waiting := by
  have hheld := load_started order start
  exact acceptAll?_eq start (order.heldFrom start) tidy hsmall (by omega) below

theorem anchorAtEarliest?_eq (tidy : ∀ start, (order.started start).Tidy)
    (hsmall : limit < 4611686018427387904) (hload : order.load ≤ limit)
    (below : Below limit order.waiting) :
    order.anchorAtEarliest? = some order.anchorAtEarliest ∧
      Below limit order.anchorAtEarliest.2.waiting := by
  unfold anchorAtEarliest? anchorAtEarliest
  cases hstart : order.start with
  | some start => exact ⟨rfl, below⟩
  | none =>
    cases hheld : order.held with
    | nil => exact ⟨rfl, below⟩
    | cons first rest => exact anchor?_eq _ (tidy _) hsmall hload below

theorem push?_eq (sound : order.Sound) (syn : Bool) (segment : Arrival)
    (hsmall : limit < 4611686018427387904)
    (hload : order.load + brought [dataOf syn segment] ≤ limit)
    (below : Below limit order.waiting) :
    order.push? syn segment = some (order.push syn segment) ∧
      Below limit (order.push syn segment).2.waiting := by
  have hsingle := brought_singleton (dataOf syn segment)
  rw [push_eq]
  unfold push?
  cases hstart : order.start with
  | some start =>
    simp only
    have hnext : order.next + (dataOf syn segment).chunk.octets.length ≤ limit := by
      unfold load at hload
      omega
    exact ⟨accept?_eq start _ hsmall hnext below,
      below_accept start _ sound.sorted hnext below⟩
  | none =>
    simp only
    split
    · -- first what was held, then the data of the SYN
      have tidy := sound.tidy_started (dataOf syn segment).sequence
      obtain ⟨hanchor, hbelow⟩ := anchor?_eq _ tidy hsmall (by omega) below
      have stepped := stepped_anchor tidy hstart
      have hafter := stepped.load_le
      have hnone : brought [] = 0 := rfl
      have hnext : (order.anchor (dataOf syn segment).sequence).2.next +
          (dataOf syn segment).chunk.octets.length ≤ limit := by
        have : (order.anchor (dataOf syn segment).sequence).2.next ≤
            (order.anchor (dataOf syn segment).sequence).2.load := by
          unfold load
          omega
        omega
      have haccept := accept?_eq (dataOf syn segment).sequence (dataOf syn segment) hsmall hnext
        hbelow
      refine ⟨?_, below_accept _ _ stepped.sound.sorted hnext hbelow⟩
      rw [hanchor, Option.bind_eq_bind, Option.bind_some, haccept, Option.bind_some]
    · split
      · exact ⟨rfl, below⟩
      · split
        · have hheld := load_holdingToo order (dataOf syn segment)
          exact anchorAtEarliest?_eq (fun start => sound.tidy_started start) hsmall (by omega) below
        · exact ⟨rfl, below⟩

/-- Whatever comes, the machine does what the stream does. -/
theorem run?_eq (sound : order.Sound) (actions : List Action)
    (hsmall : limit < 4611686018427387904)
    (hload : order.load + brought (actions.flatMap Action.arrivals) ≤ limit)
    (below : Below limit order.waiting) : order.run? actions = some (order.run actions) := by
  induction actions generalizing order with
  | nil => rfl
  | cons action rest ih =>
    have hbrought : brought ((action :: rest).flatMap Action.arrivals) =
        brought action.arrivals + brought (rest.flatMap Action.arrivals) := by
      rw [List.flatMap_cons, brought_append]
    have stepped := stepped_perform sound action
    have hafter := stepped.load_le
    obtain ⟨hperform, hbelow⟩ : order.perform? action = some (order.perform action) ∧
        Below limit (order.perform action).2.waiting := by
      cases action with
      | push syn segment =>
        have harrivals : brought (Action.push syn segment).arrivals =
            brought [dataOf syn segment] := rfl
        exact push?_eq sound syn segment hsmall (by omega) below
      | anchor =>
        exact anchorAtEarliest?_eq sound.tidy_started hsmall (by omega) below
    have hrest := ih stepped.sound (by omega) hbelow
    unfold run? run
    simp only [hperform, hrest, Option.bind_eq_bind, Option.bind_some]

/-- Whatever a stream is sent, its state stays sound: neither what waits nor what
    is held exceeds the capacity, what waits is not empty and lies behind a gap,
    as many octets were handed out as the next offset says, no call refuses more
    than one segment or one that has the next octet, and no index is out of
    range. -/
theorem sound_after_run (capacity : Nat) (actions : List Action)
    (hsmall : brought (actions.flatMap Action.arrivals) < 2 ^ 62) :
    ((empty capacity).run actions).2.Sound ∧
      ((empty capacity).run actions).2.capacity = capacity ∧
      ((empty capacity).run actions).2.next = octetsIn ((empty capacity).run actions).1 ∧
      (∀ chunk ∈ ((empty capacity).run actions).1, chunk.octets ≠ []) ∧
      (((empty capacity).run actions).2.start = none →
        ((empty capacity).run actions).2.isFinished = false) ∧
      (∀ early action late, actions = early ++ action :: late →
        ((empty capacity).run early).2.Spares action) ∧
      (empty capacity).run? actions = some ((empty capacity).run actions) := by
  have sound := sound_empty capacity
  have stepped := stepped_run sound actions
  have hload : (empty capacity).load = 0 := rfl
  refine ⟨stepped.sound, stepped.capacity, stepped.next.trans (Nat.zero_add _), stepped.nonempty,
    stepped.sound.isFinished_of_none, ?_, ?_⟩
  · rintro early action late -
    exact spares (stepped_run sound early).sound action
  · refine run?_eq sound actions hsmall (by omega) ?_
    intro w hw
    cases hw

/-- Two segments that are too many to be held, a SYN that comes late, one segment with
    nothing but a gap before it and no room left, and one that lies across the start. -/
def hostile : List Action :=
  [.push false ⟨4294967294, true, ⟨[9, 9, 9], none⟩⟩, .push false ⟨4, false, ⟨[7], none⟩⟩,
    .push true ⟨2147483655, true, ⟨[5, 5], none⟩⟩, .push false ⟨9, false, ⟨[6], none⟩⟩,
    .push false ⟨4294967295, false, ⟨[0, 0, 2, 3], none⟩⟩, .anchor]

/-- With room for one piece only the stream stays sound, and all its indices are in range. -/
theorem sound_after_hostile :
    brought (hostile.flatMap Action.arrivals) < 2 ^ 62 ∧
      ((empty 1).run hostile).2.Sound ∧
      ((empty 1).run hostile).2.next = octetsIn ((empty 1).run hostile).1 ∧
      ((empty 1).run (hostile.take 3)).2.Spares (.push false ⟨9, false, ⟨[6], none⟩⟩) ∧
      (empty 1).run? hostile = some ((empty 1).run hostile) := by
  have hsmall : brought (hostile.flatMap Action.arrivals) < 2 ^ 62 := by decide
  obtain ⟨sound, -, hnext, -, -, hspares, hrun⟩ := sound_after_run 1 hostile hsmall
  exact ⟨hsmall, sound, hnext, hspares (hostile.take 3) _ (hostile.drop 4) rfl, hrun⟩

end Reorder

end PassiveDns.Stream
