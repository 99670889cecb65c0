/-
  PassiveDns.Proofs.Stream.Transmission

  Streams that come completely: one SYN, an end, and parts that cover all octets, in any
  order and more than once, so few of them that each may be held. Connections to which
  such streams come, mixed in any way, give the messages of each and are left with no open
  flow (`messages_of_transmissions`).
-/
import Mathlib.Data.List.Perm.Subperm
import PassiveDns.Proofs.Lists
import PassiveDns.Proofs.Stream.Conversation

namespace PassiveDns.Stream

/-! ## Streams in parts -/

/-- A segment, and the offset in its stream at which its octets stand. -/
structure Part where
  offset : Nat
  segment : TcpSegment
deriving Repr, DecidableEq, Inhabited

namespace Part

/-- The offset behind a part. -/
def stop (part : Part) : Nat := part.offset + part.segment.payload.length

/-- A segment is a part of a stream whose SYN has the sequence number `isn`. The offset is
    any number; the sequence number tells it modulo 2^32. -/
structure IsOf (stream : Octets) (isn : UInt32) (part : Part) : Prop where
  rst : part.segment.rst = false
  sequence : part.segment.sequence =
    if part.segment.syn then isn else isn + 1 + UInt32.ofNat part.offset
  syn : part.segment.syn = true → part.offset = 0
  stop_le : part.stop ≤ stream.length
  payload : part.segment.payload = stream.slice part.offset part.segment.payload.length
  fin : part.segment.fin = true → part.stop = stream.length

instance (stream : Octets) (isn : UInt32) (part : Part) : Decidable (part.IsOf stream isn) :=
  decidable_of_iff
    (part.segment.rst = false ∧
      part.segment.sequence =
        (if part.segment.syn then isn else isn + 1 + UInt32.ofNat part.offset) ∧
      (part.segment.syn = true → part.offset = 0) ∧ part.stop ≤ stream.length ∧
      part.segment.payload = stream.slice part.offset part.segment.payload.length ∧
      (part.segment.fin = true → part.stop = stream.length))
    ⟨fun ⟨h1, h2, h3, h4, h5, h6⟩ => ⟨h1, h2, h3, h4, h5, h6⟩,
      fun ⟨h1, h2, h3, h4, h5, h6⟩ => ⟨h1, h2, h3, h4, h5, h6⟩⟩

/-- Whether a segment has to be held before the stream starts: it has octets or ends the
    stream. -/
def counts (segment : TcpSegment) : Bool := 0 < segment.payload.length || segment.fin

variable {stream : Octets} {isn : UInt32} {part : Part}

/-- In a stream that ends within half of the circle the sequence number tells the offset. -/
theorem IsOf.offset_eq (h : part.IsOf stream isn) (hshort : stream.length < halfCircle) :
    (Slice.ofSegment isn part.segment).offset = part.offset := by
  have hstop : part.offset + part.segment.payload.length ≤ stream.length := h.stop_le
  show (if part.segment.syn then 0 else (part.segment.sequence - (isn + 1)).toNat) = _
  cases hsyn : part.segment.syn with
  | true => exact (h.syn hsyn).symm
  | false =>
    -- the distance to the SYN is the offset, for it is below 2^32
    have hsequence := h.sequence
    rw [hsyn, if_neg Bool.false_ne_true] at hsequence
    rw [if_neg Bool.false_ne_true, hsequence, UInt32.add_comm (isn + 1), UInt32.add_sub_cancel,
      UInt32.toNat_ofNat']
    unfold halfCircle at hshort
    omega

theorem IsOf.carries (h : part.IsOf stream isn) (hshort : stream.length < halfCircle) :
    Carries stream isn part.segment := by
  have hoffset := h.offset_eq hshort
  have hstop : (Slice.ofSegment isn part.segment).stop = part.stop := by
    unfold Slice.stop
    rw [hoffset]
    rfl
  have hle := h.stop_le
  have hlow : part.offset ≤ part.stop := Nat.le_add_right ..
  refine ⟨h.rst, fun hsyn => ?_, by omega, by omega, by omega, ?_, fun hfin => ?_⟩
  · rw [h.sequence, if_pos hsyn]
  · unfold Slice.octets
    rw [hoffset]
    exact h.payload
  · rw [hstop]
    exact h.fin hfin

end Part

/-- One direction of a connection with its stream, and the parts in which it comes. -/
structure Transmission where
  flow : Flow
  octets : Octets
  isn : UInt32
  parts : List Part
deriving Repr, DecidableEq, Inhabited

namespace Transmission

/-- The segments of a transmission. -/
def segments (transmission : Transmission) : List TcpSegment :=
  transmission.parts.map Part.segment

/-- A transmission that says all of its stream: it has one SYN and an end, its parts have
    every octet, and no more of them than `capacity` have to be held. -/
structure Complete (capacity : Nat) (transmission : Transmission) : Prop where
  parts : ∀ part ∈ transmission.parts, part.IsOf transmission.octets transmission.isn
  flow : ∀ segment ∈ transmission.segments, Flow.ofSegment segment = transmission.flow
  oneSyn : (transmission.segments.filter TcpSegment.syn).length = 1
  fin : ∃ segment ∈ transmission.segments, segment.fin = true
  covers : ∀ position < transmission.octets.length,
    ∃ part ∈ transmission.parts, part.offset ≤ position ∧ position < part.stop
  few : (transmission.segments.filter Part.counts).length ≤ capacity

/-- Where more than 2^15 segments may be held a stream could be longer than half of the circle
    of sequence numbers, and is not. -/
def Short (capacity : Nat) (transmission : Transmission) : Prop :=
  32768 < capacity → transmission.octets.length < halfCircle

/-- What a complete transmission gives: the messages of its stream, each with addresses and
    ports of the flow and the header and time of segments. -/
structure Gives (transmission : Transmission) (messages : List Carried) : Prop where
  payloads : messages.map Carried.payload = messagesOf transmission.octets
  flow : ∀ m ∈ messages, Flow.ofCarried m = transmission.flow
  stamped : Stamped transmission.segments messages

variable {transmission : Transmission} {capacity : Nat}

/-- Parts that have every octet have together at least as many. -/
theorem length_le_of_covers {parts : List Part} {length : Nat}
    (h : ∀ position < length, ∃ part ∈ parts, part.offset ≤ position ∧ position < part.stop) :
    length ≤ (parts.map fun part => part.segment.payload.length).sum := by
  have hsub : List.range length ⊆
      parts.flatMap fun part => List.range' part.offset part.segment.payload.length := by
    intro position hposition
    obtain ⟨part, hpart, hlow, hhigh⟩ := h position (List.mem_range.mp hposition)
    exact List.mem_flatMap.mpr ⟨part, hpart, List.mem_range'_1.mpr ⟨hlow, hhigh⟩⟩
  have hle := (List.subperm_of_subset List.nodup_range hsub).length_le
  rw [List.length_range, List.length_flatMap] at hle
  simpa using hle

/-- Only segments that have to be held have octets. -/
theorem sum_length_le {segments : List TcpSegment} {bound : Nat}
    (h : ∀ s ∈ segments, s.payload.length ≤ bound) :
    (segments.map fun s => s.payload.length).sum ≤
      (segments.filter Part.counts).length * bound := by
  induction segments with
  | nil => exact Nat.zero_le _
  | cons s rest ih =>
    have hrest := ih fun t ht => h t (List.mem_cons_of_mem _ ht)
    have hs := h s (List.mem_cons_self ..)
    rw [List.map_cons, List.sum_cons, List.filter_cons]
    by_cases hcounts : Part.counts s = true
    · rw [if_pos hcounts, List.length_cons, Nat.succ_mul]
      omega
    · -- a segment that need not be held has no octets
      have hzero : s.payload.length = 0 := by
        simp only [Part.counts, Bool.or_eq_true, decide_eq_true_eq, not_or] at hcounts
        omega
      rw [if_neg hcounts]
      omega

/-- A transmission that may be held completely is short: a segment has less than 2^16
    octets. -/
theorem Complete.length_lt (h : transmission.Complete capacity)
    (hshort : transmission.Short capacity)
    (hpayloads : ∀ s ∈ transmission.segments, s.payload.length ≤ 65535) :
    transmission.octets.length < halfCircle := by
  rcases Nat.lt_or_ge 32768 capacity with hlarge | hsmall
  · exact hshort hlarge
  · have hcovered := length_le_of_covers h.covers
    have hsum := sum_length_le hpayloads
    have hfew := h.few
    unfold segments at hsum hfew
    rw [List.map_map] at hsum
    -- so many segments of a datagram each stay below half of the circle
    have hmost : (List.filter Part.counts (transmission.parts.map Part.segment)).length * 65535 ≤
        32768 * 65535 := Nat.mul_le_mul_right _ (Nat.le_trans hfew hsmall)
    have hall := Nat.le_trans hcovered (Nat.le_trans hsum hmost)
    unfold halfCircle
    omega

/-- Segments in the order in which they come. -/
theorem Complete.of_perm (h : transmission.Complete capacity) {own : List TcpSegment}
    (hown : own.Perm transmission.segments) (hshort : transmission.octets.length < halfCircle) :
    (∀ s ∈ own, Carries transmission.octets transmission.isn s) ∧
      (heldOf (slicesOf transmission.isn own)).length ≤ capacity ∧
      OneSyn capacity transmission.isn own ∧ (∃ s ∈ own, s.syn = true) ∧
      (∃ s ∈ own, s.fin = true) ∧
      Covers (slicesOf transmission.isn own) 0 transmission.octets.length := by
  have hfew : (heldOf (slicesOf transmission.isn own)).length ≤ capacity := by
    -- the slices that are held are those of the segments that count
    have hlength : (heldOf (slicesOf transmission.isn own)).length =
        (own.filter Part.counts).length := by
      unfold heldOf slicesOf
      rw [List.filter_map, List.length_map]
      rfl
    rw [hlength, (hown.filter _).length_eq]
    exact h.few
  have hone : (own.filter TcpSegment.syn).length = 1 := by
    rw [(hown.filter _).length_eq]
    exact h.oneSyn
  refine ⟨fun s hs => ?_, hfew, ?_, ?_, ?_, ?_⟩
  · obtain ⟨part, hpart, rfl⟩ := List.mem_map.mp (hown.mem_iff.mp hs)
    exact (h.parts part hpart).carries hshort
  · rintro before segment after rfl hsyn
    -- a second SYN before this one would be one too many
    refine ⟨fun s hs => ?_, ?_⟩
    · by_contra hs'
      have hbefore : 0 < (before.filter TcpSegment.syn).length :=
        List.length_pos_of_mem (List.mem_filter.mpr ⟨hs, eq_true_of_ne_false hs'⟩)
      rw [List.filter_append, List.length_append, List.filter_cons, if_pos hsyn,
        List.length_cons] at hone
      omega
    · rw [slicesOf_append] at hfew
      exact Session.length_heldOf_le hfew
  · obtain ⟨s, hs⟩ := List.exists_mem_of_length_pos (hone ▸ Nat.one_pos)
    obtain ⟨hmem, hsyn⟩ := List.mem_filter.mp hs
    exact ⟨s, hmem, hsyn⟩
  · obtain ⟨s, hs, hfin⟩ := h.fin
    exact ⟨s, hown.mem_iff.mpr hs, hfin⟩
  · intro position _ hposition
    obtain ⟨part, hpart, hlow, hhigh⟩ := h.covers position hposition
    have hoffset := (h.parts part hpart).offset_eq hshort
    refine ⟨_, List.mem_map_of_mem (hown.mem_iff.mpr (List.mem_map_of_mem hpart)), ?_, ?_⟩
    · rw [hoffset]
      exact hlow
    · unfold Slice.stop
      rw [hoffset]
      exact hhigh

end Transmission

/-! ## Connections to which complete streams come -/

/-- The steps that hand segments to the connections, each at its time. -/
def inputsOf (arrivals : List (TcpSegment × Instant)) : List Input :=
  arrivals.map fun arrival => .segment arrival.1 arrival.2

theorem segments_inputsOf (arrivals : List (TcpSegment × Instant)) :
    (inputsOf arrivals).flatMap Input.segments = arrivals.map Prod.fst := by
  unfold inputsOf
  rw [List.flatMap_map]
  exact List.map_eq_flatMap.symm

theorem spared_of_segments {flow : Flow} {state : Connections} {inputs : List Input}
    (h : ∀ input ∈ inputs, input.segments ≠ []) : state.Spared flow inputs := by
  induction inputs generalizing state with
  | nil => exact trivial
  | cons input rest ih =>
    exact ⟨fun hnone => absurd hnone (h input (List.mem_cons_self ..)),
      ih fun other hother => h other (List.mem_cons_of_mem _ hother)⟩

namespace Connections

/-- A message is of the flow of a segment that came. -/
theorem flow_of_mem_messages {state : Connections} (keyed : state.Keyed)
    {arrivals : List (TcpSegment × Instant)} {m : Carried}
    (hm : m ∈ state.messages (inputsOf arrivals)) :
    ∃ arrival ∈ arrivals, Flow.ofCarried m = Flow.ofSegment arrival.1 := by
  induction arrivals generalizing state with
  | nil => cases hm
  | cons arrival rest ih =>
    rcases List.mem_append.mp hm with hm | hm
    · exact ⟨arrival, List.mem_cons_self .., ofCarried_assemble keyed m hm⟩
    · obtain ⟨other, hother, heq⟩ := ih (perform_keyed keyed _) hm
      exact ⟨other, List.mem_cons_of_mem _ hother, heq⟩

/-- An open flow is one that was open before, or of a segment that came. -/
theorem flow_of_live {state : Connections} {arrivals : List (TcpSegment × Instant)} {flow : Flow}
    (h : (state.after (inputsOf arrivals)).live.get? flow ≠ none)
    (hbefore : state.live.get? flow = none) :
    ∃ arrival ∈ arrivals, Flow.ofSegment arrival.1 = flow := by
  induction arrivals generalizing state with
  | nil => exact absurd hbefore h
  | cons arrival rest ih =>
    by_cases hflow : Flow.ofSegment arrival.1 = flow
    · exact ⟨arrival, List.mem_cons_self .., hflow⟩
    · have hsame : (state.assemble arrival.1 arrival.2).2.live.get? flow = none :=
        (assemble_other hflow).1.trans hbefore
      obtain ⟨other, hother, heq⟩ := ih h hsame
      exact ⟨other, List.mem_cons_of_mem _ hother, heq⟩

end Connections

/-- A complete transmission among others gives its messages, and its flow is closed. -/
theorem Transmission.Complete.gives {capacity : Nat} {transmission : Transmission}
    (h : transmission.Complete capacity) (hshort : transmission.Short capacity)
    (hpayloads : ∀ s ∈ transmission.segments, s.payload.length ≤ 65535)
    {arrivals : List (TcpSegment × Instant)}
    (hown : ((arrivals.map Prod.fst).filter fun s => Flow.ofSegment s = transmission.flow).Perm
      transmission.segments) :
    transmission.Gives
        (messagesFor transmission.flow ((Connections.empty capacity).messages
          (inputsOf arrivals))) ∧
      ((Connections.empty capacity).after (inputsOf arrivals)).live.get? transmission.flow =
        none := by
  have hlength := h.length_lt hshort hpayloads
  have hshort := Nat.le_of_lt hlength
  have hsegments : segmentsFor transmission.flow (inputsOf arrivals) =
      (arrivals.map Prod.fst).filter fun s => Flow.ofSegment s = transmission.flow := by
    unfold segmentsFor
    rw [segments_inputsOf]
  rw [← hsegments] at hown
  obtain ⟨hcarries, hfew, hone, hsyn, hfin, hcovers⟩ := h.of_perm hown hlength
  -- nothing is flushed
  have hspared : (Connections.empty capacity).Spared transmission.flow (inputsOf arrivals) := by
    refine spared_of_segments fun input hinput => ?_
    obtain ⟨arrival, _, rfl⟩ := List.mem_map.mp hinput
    exact List.cons_ne_nil _ _
  have hfresh : Follows transmission.octets transmission.isn capacity transmission.flow
      (.empty capacity) [] [] := follows_nil rfl rfl
  have hfollows := hfresh.run (Connections.keyed_empty capacity) rfl hshort hcarries hone
    (.inl hfew) hspared
  rw [List.nil_append, List.nil_append] at hfollows
  have hstart := hone.startOf_eq hsyn []
  rw [List.append_nil] at hstart
  have hend : ∃ slice ∈ slicesOf transmission.isn (segmentsFor transmission.flow
      (inputsOf arrivals)), slice.fin = true := by
    obtain ⟨s, hs, hfin⟩ := hfin
    exact ⟨_, List.mem_map_of_mem hs, hfin⟩
  have hclosed := (hfollows.closed_iff hshort hcarries).mpr ⟨0, hstart, hend, hcovers⟩
  obtain ⟨hsent, hlive⟩ := hfollows.payloads_of_closed hshort hcarries hclosed hstart
  refine ⟨⟨hsent, fun m hm => of_decide_eq_true (List.mem_filter.mp hm).2, fun m hm => ?_⟩, hlive⟩
  obtain ⟨hheader, htime⟩ := hfollows.stamped m hm
  exact ⟨(hown.map _).mem_iff.mp hheader, (hown.map _).mem_iff.mp htime⟩

/-- Complete transmissions of different flows, mixed in any way: the messages are those of
    the transmissions, and no flow stays open. -/
theorem messages_of_transmissions {capacity : Nat} {transmissions : List Transmission}
    (distinct : (transmissions.map Transmission.flow).Nodup)
    (complete : ∀ t ∈ transmissions, t.Complete capacity)
    (short : ∀ t ∈ transmissions, t.Short capacity)
    (hpayloads : ∀ t ∈ transmissions, ∀ s ∈ t.segments, s.payload.length ≤ 65535)
    {arrivals : List (TcpSegment × Instant)}
    (harrivals : (arrivals.map Prod.fst).Perm (transmissions.flatMap Transmission.segments)) :
    ((Connections.empty capacity).messages (inputsOf arrivals)).Perm (transmissions.flatMap fun t =>
        messagesFor t.flow ((Connections.empty capacity).messages (inputsOf arrivals))) ∧
      (∀ t ∈ transmissions, t.Gives
        (messagesFor t.flow ((Connections.empty capacity).messages (inputsOf arrivals)))) ∧
      ((Connections.empty capacity).after (inputsOf arrivals)).live.entries = [] := by
  have hflows : ∀ t ∈ transmissions, ∀ s ∈ t.segments, Flow.ofSegment s = t.flow := fun t ht =>
    (complete t ht).flow
  -- the segments of a flow are those of its transmission
  have hown : ∀ t ∈ transmissions,
      ((arrivals.map Prod.fst).filter fun s => Flow.ofSegment s = t.flow).Perm t.segments := by
    intro t ht
    refine (harrivals.filter _).trans (List.Perm.of_eq ?_)
    exact filter_flatMap_of_distinct Flow.ofSegment Transmission.flow Transmission.segments distinct
      hflows ht
  have hgives := fun t (ht : t ∈ transmissions) =>
    (complete t ht).gives (short t ht) (hpayloads t ht) (hown t ht)
  have hcame : ∀ arrival ∈ arrivals, Flow.ofSegment arrival.1 ∈
      transmissions.map Transmission.flow := by
    intro arrival harrival
    obtain ⟨t, ht, hs⟩ := List.mem_flatMap.mp
      (harrivals.mem_iff.mp (List.mem_map_of_mem harrival))
    rw [hflows t ht _ hs]
    exact List.mem_map_of_mem ht
  refine ⟨?_, fun t ht => (hgives t ht).1, ?_⟩
  · have hkeys : ∀ m ∈ (Connections.empty capacity).messages (inputsOf arrivals),
        Flow.ofCarried m ∈ transmissions.map Transmission.flow := by
      intro m hm
      obtain ⟨arrival, harrival, heq⟩ :=
        Connections.flow_of_mem_messages (Connections.keyed_empty capacity) hm
      rw [heq]
      exact hcame arrival harrival
    have hsplit := perm_flatMap_filter Flow.ofCarried distinct hkeys
    rw [List.flatMap_map] at hsplit
    exact hsplit
  · refine List.eq_nil_iff_forall_not_mem.mpr fun entry hentry => ?_
    -- an open flow would be that of a transmission, and these are closed
    obtain ⟨flow, live⟩ := entry
    have hsome := Table.get?_of_mem hentry
    have hopen : ((Connections.empty capacity).after (inputsOf arrivals)).live.get? flow ≠ none :=
      fun hnone => absurd (hsome.symm.trans hnone) (by simp)
    obtain ⟨arrival, harrival, heq⟩ := Connections.flow_of_live hopen rfl
    obtain ⟨t, ht, hflow⟩ := List.mem_map.mp (hcame arrival harrival)
    rw [heq] at hflow
    rw [← hflow, (hgives t ht).2] at hsome
    cases hsome

end PassiveDns.Stream
