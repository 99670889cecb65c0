/-
  PassiveDns.Proofs.Stream.Chunking

  A stream is cut into the same messages in whatever chunks it comes. `Cuts` says what
  the messages of a stream are without saying how they are found: written again, each
  behind its length, they give the stream back, and behind them stands no complete
  message. There is one way to cut a stream (`Cuts.split_eq`), and cutting it chunk by
  chunk finds it (`cut_in_chunks`).
-/
import Mathlib.Tactic.Common
import PassiveDns.Proofs.Octets
import PassiveDns.Proofs.Stream.Cutting

namespace PassiveDns.Stream

/-! ## Messages behind their lengths -/

/-- The longest message whose length fits in front of it. -/
def maxMessage : Nat := 65535

/-- A message behind its length. -/
def framed (message : Octets) : Octets :=
  Octets.ofWord16 (UInt16.ofNat message.length) ++ message

/-- Octets that do not begin with a complete message. -/
def Incomplete (octets : Octets) : Prop :=
  ∀ hi lo rest, octets = hi :: lo :: rest → rest.length < (Octets.word16 hi lo).toNat

/-- A stream is messages, each behind its length, and then `rest`, which is no complete
    message. -/
structure Cuts (stream : Octets) (messages : List Octets) (rest : Octets) : Prop where
  short : ∀ m ∈ messages, m.length ≤ maxMessage
  incomplete : Incomplete rest
  framed_append : messages.flatMap framed ++ rest = stream

theorem incomplete_of_short {octets : Octets} (h : octets.length < 2) : Incomplete octets := by
  rintro hi lo rest rfl
  simp only [List.length_cons] at h
  omega

theorem framed_take {hi lo : UInt8} {rest : Octets}
    (h : (Octets.word16 hi lo).toNat ≤ rest.length) :
    framed (rest.take (Octets.word16 hi lo).toNat) =
      hi :: lo :: rest.take (Octets.word16 hi lo).toNat := by
  rw [framed, List.length_take_of_le h, UInt16.ofNat_toNat, Octets.ofWord16_word16]
  rfl

theorem cuts_split (octets : Octets) : Cuts octets (split octets).1 (split octets).2 := by
  -- on the length: each message that is cut off leaves fewer octets
  induction h : octets.length using Nat.strongRecOn generalizing octets with
  | _ n ih =>
    rcases split_cases octets with hshort | ⟨hi, lo, rest, rfl, hlt⟩ | ⟨hi, lo, rest, rfl, hge⟩
    · rw [split_short hshort]
      exact ⟨nofun, incomplete_of_short hshort, rfl⟩
    · rw [split_incomplete hlt]
      refine ⟨nofun, ?_, rfl⟩
      rintro hi' lo' rest' heq
      obtain ⟨rfl, rfl, rfl⟩ : hi = hi' ∧ lo = lo' ∧ rest = rest' := by simpa using heq
      exact hlt
    · have hrest := ih (rest.drop (Octets.word16 hi lo).toNat).length (by
        rw [← h, List.length_drop, List.length_cons, List.length_cons]
        omega) _ rfl
      rw [split_complete hge]
      refine ⟨?_, hrest.incomplete, ?_⟩
      · intro m hm
        rcases List.mem_cons.mp hm with rfl | hm
        · have hword := (Octets.word16 hi lo).toNat_lt
          rw [List.length_take_of_le hge, maxMessage]
          omega
        · exact hrest.short m hm
      · rw [List.flatMap_cons, List.append_assoc, hrest.framed_append, framed_take hge,
          List.cons_append, List.cons_append, List.take_append_drop]

/-- A message that stands in front is cut off. -/
theorem split_framed_append {message : Octets} (h : message.length ≤ maxMessage)
    (more : Octets) :
    split (framed message ++ more) = (message :: (split more).1, (split more).2) := by
  have hword : (Octets.word16 (UInt8.ofNat ((UInt16.ofNat message.length).toNat / 256))
      (UInt8.ofNat (UInt16.ofNat message.length).toNat)).toNat = message.length := by
    rw [Octets.word16_ofNat, UInt16.toNat_ofNat']
    rw [maxMessage] at h
    omega
  have hle := Nat.le_of_eq hword
  rw [framed, List.append_assoc, Octets.ofWord16, List.cons_append, List.singleton_append,
    split_complete (Nat.le_trans hle (by rw [List.length_append]; omega)), hword, List.take_left,
    List.drop_left]

/-- A stream is cut in one way only. -/
theorem Cuts.split_eq {stream rest : Octets} {messages : List Octets}
    (h : Cuts stream messages rest) : split stream = (messages, rest) := by
  obtain ⟨hshort, hincomplete, rfl⟩ := h
  induction messages with
  | nil =>
    rcases split_cases rest with hrest | ⟨hi, lo, more, rfl, hlt⟩ | ⟨hi, lo, more, rfl, hge⟩
    · exact split_short hrest
    · exact split_incomplete hlt
    · exact absurd hge (Nat.not_le_of_lt (hincomplete hi lo more rfl))
  | cons message more ih =>
    rw [List.flatMap_cons, List.append_assoc,
      split_framed_append (hshort message List.mem_cons_self),
      ih fun m hm => hshort m (List.mem_cons_of_mem _ hm)]

/-! ## Chunk by chunk -/

namespace Framing

/-- Appends chunks one after the other and gives the messages that they complete. -/
def pushAll (framing : Framing) : List Octets → List Octets × Framing
  | [] => ([], framing)
  | chunk :: rest =>
    let (messages, after) := framing.push chunk
    let (more, last) := after.pushAll rest
    (messages ++ more, last)

/-- A cutting that has cut off all that it could: it knows the length that stands in front
    of its buffer, and the message behind it is not complete. -/
structure Waits (framing : Framing) : Prop where
  body_iff : (∃ length, framing.awaiting = .body length) ↔ 2 ≤ framing.buffered
  length_eq : ∀ length, framing.awaiting = .body length →
    length.toNat = framing.buffer.nat16At 0 ∧ framing.buffered < length.toNat + 2

/-- At most one octet less than the longest message and its length is held. -/
theorem Waits.buffered_le {framing : Framing} (h : framing.Waits) :
    framing.buffered ≤ maxMessage + 1 := by
  rw [maxMessage]
  rcases Nat.lt_or_ge framing.buffered 2 with hlt | hge
  · omega
  · obtain ⟨length, hlength⟩ := h.body_iff.mpr hge
    have hword := length.toNat_lt
    have hless := (h.length_eq length hlength).2
    omega

theorem buffer_ofRest (rest : Octets) : (ofRest rest).buffer = rest := by
  match rest with
  | [] => rfl
  | [_] => rfl
  | _ :: _ :: _ => rfl

theorem waits_ofRest {rest : Octets} (h : Incomplete rest) : (ofRest rest).Waits := by
  match rest with
  | [] => exact ⟨⟨nofun, nofun⟩, nofun⟩
  | [_] => exact ⟨⟨nofun, fun hge => absurd hge (by simp [buffered, ofRest])⟩, nofun⟩
  | hi :: lo :: more =>
    have hlt := h hi lo more rfl
    refine ⟨⟨fun _ => by simp [buffered, ofRest], fun _ => ⟨_, rfl⟩⟩, ?_⟩
    rintro length heq
    obtain rfl : Octets.word16 hi lo = length := Awaiting.body.inj heq
    exact ⟨Octets.toNat_word16 hi lo, Nat.add_lt_add_right hlt 2⟩

theorem pushAll_ofRest {rest : Octets} (h : split rest = ([], rest)) (chunks : List Octets) :
    (ofRest rest).pushAll chunks =
      ((split (rest ++ chunks.flatten)).1, ofRest (split (rest ++ chunks.flatten)).2) := by
  induction chunks generalizing rest with
  | nil => rw [List.flatten_nil, List.append_nil, h, pushAll]
  | cons chunk more ih =>
    -- the chunks that follow meet what this one leaves over
    have hmore := ih (split_left (rest ++ chunk))
    have hsplit := split_append (rest ++ chunk) more.flatten
    rw [List.append_assoc] at hsplit
    rw [pushAll, push_ofRest]
    dsimp only
    rw [hmore, List.flatten_cons, hsplit]

/-- **Chunks make no difference.** In whatever chunks a stream comes, the messages that are
    given are those of the whole stream and what is held is what no message has taken; both
    together, written again, are the stream. So messages that were sent behind their lengths
    are given as they were sent, and nothing is held. All along the length that is awaited is
    the one in front of the buffer, which is shorter than the message that it announces. -/
theorem cut_in_chunks (chunks : List Octets) :
    (empty.pushAll chunks).1 = messagesOf chunks.flatten ∧
    (empty.pushAll chunks).2.buffer = (split chunks.flatten).2 ∧
    (empty.pushAll chunks).1.flatMap framed ++ (empty.pushAll chunks).2.buffer =
      chunks.flatten ∧
    (∀ messages rest, Cuts chunks.flatten messages rest ↔
      (empty.pushAll chunks).1 = messages ∧ (empty.pushAll chunks).2.buffer = rest) ∧
    (∀ sent : List Octets, (∀ m ∈ sent, m.length ≤ maxMessage) →
      sent.flatMap framed = chunks.flatten →
        (empty.pushAll chunks).1 = sent ∧ (empty.pushAll chunks).2.buffered = 0) ∧
    (empty.pushAll chunks).2.Waits ∧
    (empty.pushAll chunks).2.buffered ≤ maxMessage + 1 := by
  have hnothing : split [] = ([], []) := split_short (by decide)
  have hpush : empty.pushAll chunks =
      ((split chunks.flatten).1, ofRest (split chunks.flatten).2) :=
    pushAll_ofRest hnothing chunks
  have hcuts := cuts_split chunks.flatten
  have hwaits := waits_ofRest hcuts.incomplete
  rw [hpush, buffer_ofRest]
  refine ⟨rfl, rfl, hcuts.framed_append, fun messages rest => ?_, fun sent hshort hsent => ?_,
    hwaits, hwaits.buffered_le⟩
  · constructor
    · intro h
      rw [h.split_eq]
      exact ⟨rfl, rfl⟩
    · rintro ⟨rfl, rfl⟩
      exact hcuts
  · have h : Cuts chunks.flatten sent [] :=
      ⟨hshort, incomplete_of_short (by decide), by rw [List.append_nil, hsent]⟩
    rw [h.split_eq]
    exact ⟨rfl, rfl⟩

end Framing

end PassiveDns.Stream
