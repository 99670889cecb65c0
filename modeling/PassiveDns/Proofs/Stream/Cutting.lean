/-
  PassiveDns.Proofs.Stream.Cutting

  Cutting a stream into messages does not depend on the pieces in which it comes.
  `split` cuts a whole stream at once; `Framing.push_ofRest` says that cutting piece
  by piece does the same.
-/
import Mathlib.Order.Basic
import Mathlib.Tactic.Common
import PassiveDns.Proofs.Stream.Waiting
import PassiveDns.Stream.Connections

namespace PassiveDns.Stream

/-! ## Whole streams -/

/-- The complete messages at the start of an octet string, each behind its length as a
    big-endian 16-bit number, and the octets behind them. -/
def split (octets : Octets) : List Octets × Octets :=
  match octets with
  | hi :: lo :: rest =>
    let length := (Octets.word16 hi lo).toNat
    if length ≤ rest.length then
      let (messages, left) := split (rest.drop length)
      (rest.take length :: messages, left)
    else ([], hi :: lo :: rest)
  | short => ([], short)
termination_by octets.length
decreasing_by
  simp only [List.length_drop, List.length_cons]
  omega

/-- The complete messages of an octet string. -/
def messagesOf (octets : Octets) : List Octets := (split octets).1

theorem split_short {octets : Octets} (h : octets.length < 2) : split octets = ([], octets) := by
  unfold split
  split
  · simp only [List.length_cons] at h
    omega
  · rfl

theorem split_incomplete {hi lo : UInt8} {rest : Octets}
    (h : rest.length < (Octets.word16 hi lo).toNat) :
    split (hi :: lo :: rest) = ([], hi :: lo :: rest) := by
  rw [split]
  dsimp only
  rw [if_neg (Nat.not_le_of_lt h)]

theorem split_complete {hi lo : UInt8} {rest : Octets}
    (h : (Octets.word16 hi lo).toNat ≤ rest.length) :
    split (hi :: lo :: rest) =
      (rest.take (Octets.word16 hi lo).toNat ::
          (split (rest.drop (Octets.word16 hi lo).toNat)).1,
        (split (rest.drop (Octets.word16 hi lo).toNat)).2) := by
  rw [split]
  dsimp only
  rw [if_pos h]

/-- An octet string is short, or its first message is incomplete, or it begins with a
    complete message. -/
theorem split_cases (octets : Octets) :
    octets.length < 2 ∨
    (∃ hi lo rest, octets = hi :: lo :: rest ∧ rest.length < (Octets.word16 hi lo).toNat) ∨
    ∃ hi lo rest, octets = hi :: lo :: rest ∧ (Octets.word16 hi lo).toNat ≤ rest.length := by
  match octets with
  | [] => exact .inl (by simp)
  | [_] => exact .inl (by simp)
  | hi :: lo :: rest =>
    rcases Nat.lt_or_ge rest.length (Octets.word16 hi lo).toNat with hlt | hge
    · exact .inr (.inl ⟨hi, lo, rest, rfl, hlt⟩)
    · exact .inr (.inr ⟨hi, lo, rest, rfl, hge⟩)

/-- Cutting what is left over gives nothing further. -/
theorem split_left (octets : Octets) : split (split octets).2 = ([], (split octets).2) := by
  -- on the length: each message that is cut off leaves fewer octets
  induction h : octets.length using Nat.strongRecOn generalizing octets with
  | _ n ih =>
    rcases split_cases octets with hshort | ⟨hi, lo, rest, rfl, hlt⟩ | ⟨hi, lo, rest, rfl, hge⟩
    · rw [split_short hshort, split_short hshort]
    · rw [split_incomplete hlt, split_incomplete hlt]
    · rw [split_complete hge]
      refine ih _ ?_ _ rfl
      rw [← h, List.length_drop, List.length_cons, List.length_cons]
      omega

/-- Cutting an octet string and then a further one behind what is left over is cutting
    both together. -/
theorem split_append (octets more : Octets) :
    split (octets ++ more) =
      ((split octets).1 ++ (split ((split octets).2 ++ more)).1,
        (split ((split octets).2 ++ more)).2) := by
  induction h : octets.length using Nat.strongRecOn generalizing octets with
  | _ n ih =>
    rcases split_cases octets with hshort | ⟨hi, lo, rest, rfl, hlt⟩ | ⟨hi, lo, rest, rfl, hge⟩
    · rw [split_short hshort]
      rfl
    · rw [split_incomplete hlt]
      rfl
    · -- a message that is complete stays so, whatever comes behind it
      have hmore : (Octets.word16 hi lo).toNat ≤ (rest ++ more).length := by
        rw [List.length_append]
        omega
      have hrest := ih (rest.drop (Octets.word16 hi lo).toNat).length (by
        rw [← h, List.length_drop, List.length_cons, List.length_cons]
        omega) _ rfl
      rw [List.cons_append, List.cons_append, split_complete hmore, split_complete hge,
        List.take_append_of_le_length hge, List.drop_append_of_le_length hge, hrest]
      rfl

/-! ## Piece by piece -/

namespace Framing

/-- The cutting that has `rest` left over. -/
def ofRest : Octets → Framing
  | hi :: lo :: rest => ⟨hi :: lo :: rest, .body (Octets.word16 hi lo)⟩
  | short => ⟨short, .length⟩

theorem cut_length (hi lo : UInt8) (rest : Octets) :
    cut (hi :: lo :: rest) .length = cut (hi :: lo :: rest) (.body (Octets.word16 hi lo)) := by
  rw [cut]

theorem cut_eq (buffer : Octets) :
    cut buffer .length = ((split buffer).1, ofRest (split buffer).2) := by
  induction h : buffer.length using Nat.strongRecOn generalizing buffer with
  | _ n ih =>
    rcases split_cases buffer with hshort | ⟨hi, lo, rest, rfl, hlt⟩ | ⟨hi, lo, rest, rfl, hge⟩
    · rw [split_short hshort]
      -- fewer than two octets: the length is not there yet
      match buffer with
      | [] =>
        rw [cut]
        · rfl
        · simp
      | [_] =>
        rw [cut]
        · rfl
        · simp
      | _ :: _ :: _ =>
        simp only [List.length_cons] at hshort
        omega
    · -- the length is there, and the payload is not
      have hreaches : ¬(Octets.reaches (hi :: lo :: rest)
          ((Octets.word16 hi lo).toNat + 2) = true) := by
        rw [Octets.reaches_iff, List.length_cons, List.length_cons]
        omega
      rw [split_incomplete hlt, cut_length, cut, if_neg hreaches]
      rfl
    · have hreaches : Octets.reaches (hi :: lo :: rest)
          ((Octets.word16 hi lo).toNat + 2) = true := by
        rw [Octets.reaches_iff, List.length_cons, List.length_cons]
        omega
      -- a message is cut off, and the rest is cut in the same way
      have hdrop : (hi :: lo :: rest).drop ((Octets.word16 hi lo).toNat + 2) =
          rest.drop (Octets.word16 hi lo).toNat := rfl
      have hrest := ih (rest.drop (Octets.word16 hi lo).toNat).length (by
        rw [← h, List.length_drop, List.length_cons, List.length_cons]
        omega) _ rfl
      rw [split_complete hge, cut_length, cut, if_pos hreaches, hdrop, hrest]
      rfl

/-- Cutting piece by piece is cutting what is left over together with the new octets. -/
theorem push_ofRest (rest octets : Octets) :
    (ofRest rest).push octets =
      ((split (rest ++ octets)).1, ofRest (split (rest ++ octets)).2) := by
  rw [← cut_eq]
  match rest with
  | [] => rfl
  | [_] => rfl
  | hi :: lo :: more =>
    -- whether the length was read before makes no difference
    show cut (hi :: lo :: (more ++ octets)) _ = cut (hi :: lo :: (more ++ octets)) .length
    rw [cut_length]
    rfl

end Framing

/-! ## The messages of a flow -/

namespace Live

/-- The message that a flow makes of a payload. -/
def message (flow : Live) (payload : Octets) (time : Option Timestamp) : Carried :=
  ⟨flow.header, flow.sourcePort, flow.destinationPort, payload, time⟩

/-- All that cutting chunks does to a flow: the messages are those of what was left over
    together with the chunks, each as the flow sends them and with the time of a chunk. -/
structure Framed (flow : Live) (rest : Octets) (chunks : List Chunk)
    (result : List Carried × Live) : Prop where
  payloads : result.1.map Carried.payload = (split (rest ++ joined chunks)).1
  framing : result.2 = { flow with framing := .ofRest (split (rest ++ joined chunks)).2 }
  sent : ∀ m ∈ result.1, ∃ chunk ∈ chunks, m = flow.message m.payload chunk.time

theorem frame_spec (flow : Live) (rest : Octets) (chunks : List Chunk)
    (hframing : flow.framing = .ofRest rest) (hrest : split rest = ([], rest)) :
    flow.Framed rest chunks (flow.frame chunks) := by
  induction chunks generalizing flow rest with
  | nil =>
    have hjoined : rest ++ joined [] = rest := List.append_nil rest
    unfold frame
    refine ⟨?_, ?_, by simp⟩
    · rw [hjoined, hrest]
      rfl
    · rw [hjoined, hrest, ← hframing]
  | cons chunk more ih =>
    have hpush := Framing.push_ofRest rest chunk.octets
    have hjoined : rest ++ joined (chunk :: more) = rest ++ chunk.octets ++ joined more :=
      (List.append_assoc ..).symm
    -- the chunks that follow meet what this one leaves over
    have hmore := ih { flow with
      framing := .ofRest (split (rest ++ chunk.octets)).2 } _ rfl (split_left _)
    have hsplit := split_append (rest ++ chunk.octets) (joined more)
    unfold frame
    rw [hframing, hpush]
    refine ⟨?_, ?_, ?_⟩
    · simp only [List.map_append, List.map_map]
      rw [hmore.payloads, hjoined, hsplit]
      congr 1
      exact List.map_id _
    · rw [hjoined, hsplit]
      exact hmore.framing
    · intro m hm
      -- a message has the time of the chunk that completed it
      rcases List.mem_append.mp hm with hm | hm
      · obtain ⟨payload, _, rfl⟩ := List.mem_map.mp hm
        exact ⟨chunk, List.mem_cons_self .., rfl⟩
      · obtain ⟨c, hc, heq⟩ := hmore.sent m hm
        exact ⟨c, List.mem_cons_of_mem _ hc, heq⟩

end Live

end PassiveDns.Stream
