/-
  PassiveDns.Proofs.Stream.Acknowledgements

  A bare acknowledgement has no octets, and neither opens a stream nor ends one. Its
  sequence number, which may lie behind the end of the stream, says nothing: connections
  give the same if each acknowledgement is put at the start of its stream (`restamp`).
-/
import PassiveDns.Proofs.Stream.Tracking

namespace PassiveDns.Stream

/-- A segment does nothing but acknowledge what the other side sent. -/
structure Acknowledges (segment : TcpSegment) : Prop where
  payload : segment.payload = []
  syn : segment.syn = false
  fin : segment.fin = false
  rst : segment.rst = false

instance (segment : TcpSegment) : Decidable (Acknowledges segment) :=
  decidable_of_iff
    (segment.payload = [] ∧ segment.syn = false ∧ segment.fin = false ∧ segment.rst = false)
    ⟨fun ⟨h1, h2, h3, h4⟩ => ⟨h1, h2, h3, h4⟩, fun ⟨h1, h2, h3, h4⟩ => ⟨h1, h2, h3, h4⟩⟩

/-- A bare acknowledgement moved to the start of its stream, and any other segment as it is. -/
def restamp (isn : UInt32) (segment : TcpSegment) : TcpSegment :=
  if Acknowledges segment then { segment with sequence := isn + 1 } else segment

section Restamp

variable (isn : UInt32) (segment : TcpSegment)

@[simp] theorem restamp_payload : (restamp isn segment).payload = segment.payload := by
  unfold restamp; split <;> rfl

@[simp] theorem restamp_syn : (restamp isn segment).syn = segment.syn := by
  unfold restamp; split <;> rfl

@[simp] theorem restamp_fin : (restamp isn segment).fin = segment.fin := by
  unfold restamp; split <;> rfl

@[simp] theorem ofSegment_restamp :
    Flow.ofSegment (restamp isn segment) = Flow.ofSegment segment := by
  unfold restamp; split <;> rfl

end Restamp

/-! ## What the connections make of it -/

/-- A stream takes no notice of what has no octets and does not end it. -/
theorem Reorder.push_of_empty (order : Reorder) (sequence : UInt32) (time : Option Timestamp) :
    order.push false ⟨sequence, false, ⟨[], time⟩⟩ = ([], order) := by
  unfold push
  cases order.start with
  | none => rfl
  | some start => rfl

theorem Live.take_restamp (live : Live) (isn : UInt32) (segment : TcpSegment) :
    live.take (restamp isn segment) = live.take segment := by
  unfold restamp
  split
  · rename_i h
    unfold take
    dsimp only
    rw [h.payload, h.syn, h.fin, Reorder.push_of_empty, Reorder.push_of_empty]
  · rfl

namespace Connections

variable (state : Connections) (isn : UInt32)

theorem assemble_restamp (segment : TcpSegment) (now : Instant) :
    state.assemble (restamp isn segment) now = state.assemble segment now := by
  by_cases h : Acknowledges segment
  · have htake (live : Live) := live.take_restamp isn segment
    rw [restamp, if_pos h] at htake ⊢
    unfold assemble deliver
    simp only [htake]
    rfl
  · rw [restamp, if_neg h]

end Connections

/-- A step with its bare acknowledgement at the start of its stream. -/
def Input.restamp (isn : UInt32) : Input → Input
  | segment s now => segment (Stream.restamp isn s) now
  | flushOlderThan cutoff => flushOlderThan cutoff
  | flushAll => flushAll

theorem Input.segments_restamp (isn : UInt32) (input : Input) :
    (input.restamp isn).segments = input.segments.map (Stream.restamp isn) := by
  cases input <;> rfl

namespace Connections

variable (state : Connections) (isn : UInt32)

theorem perform_restamp (input : Input) :
    state.perform (input.restamp isn) = state.perform input := by
  cases input with
  | segment segment now => exact state.assemble_restamp isn segment now
  | _ => rfl

theorem after_restamp (inputs : List Input) :
    state.after (inputs.map (Input.restamp isn)) = state.after inputs := by
  unfold after
  rw [List.foldl_map]
  simp only [perform_restamp]

theorem messages_restamp (inputs : List Input) :
    state.messages (inputs.map (Input.restamp isn)) = state.messages inputs := by
  induction inputs generalizing state with
  | nil => rfl
  | cons input rest ih => rw [List.map_cons, messages, messages, perform_restamp, ih]

end Connections

theorem segmentsFor_restamp (flow : Flow) (isn : UInt32) (inputs : List Input) :
    segmentsFor flow (inputs.map (Input.restamp isn)) =
      (segmentsFor flow inputs).map (restamp isn) := by
  unfold segmentsFor
  simp only [List.flatMap_map, Input.segments_restamp]
  rw [← List.map_flatMap, List.filter_map]
  simp only [Function.comp_def, ofSegment_restamp]

/-! ## What the stream has of it -/

section Slices

variable {stream : Octets} {isn : UInt32} {capacity : Nat} {segment : TcpSegment}
  {own : List TcpSegment}

theorem carries_restamp (h : Acknowledges segment ∨ Carries stream isn segment) :
    Carries stream isn (restamp isn segment) := by
  by_cases hack : Acknowledges segment
  · have hslice : Slice.ofSegment isn (restamp isn segment) =
        ⟨0, 0, false, false, segment.time⟩ := by
      rw [restamp, if_pos hack]
      show Slice.mk (if segment.syn then 0 else (isn + 1 - (isn + 1)).toNat) segment.payload.length
        segment.syn segment.fin segment.time = _
      rw [hack.payload, hack.syn, hack.fin, UInt32.sub_self]
      rfl
    refine ⟨?_, ?_, ?_, ?_, ?_, ?_, ?_⟩
    · rw [restamp, if_pos hack]
      exact hack.rst
    · rw [restamp_syn, hack.syn]
      exact fun hsyn => absurd hsyn Bool.false_ne_true
    · rw [hslice]
      exact Nat.pos_of_ne_zero (by decide)
    · rw [hslice]
      exact Nat.zero_le _
    · rw [hslice]
      exact Nat.zero_le _
    · rw [hslice, restamp_payload, hack.payload]
      rfl
    · rw [restamp_fin, hack.fin]
      exact fun hfin => absurd hfin Bool.false_ne_true
  · rw [restamp, if_neg hack]
    exact h.resolve_left hack

/-- An acknowledgement has no octet, wherever it stands. -/
theorem has_restamp (isn : UInt32) (segment : TcpSegment) (position : Nat) :
    (Slice.ofSegment isn (restamp isn segment)).Has position ↔
      (Slice.ofSegment isn segment).Has position := by
  by_cases hack : Acknowledges segment
  · have hnone (s : TcpSegment) (hs : s.payload = []) :
        ¬(Slice.ofSegment isn s).Has position := by
      rintro ⟨hlow, hhigh⟩
      have hlength : (Slice.ofSegment isn s).length = 0 := congrArg List.length hs
      unfold Slice.stop at hhigh
      omega
    exact iff_of_false (hnone _ ((restamp_payload ..).trans hack.payload)) (hnone _ hack.payload)
  · rw [restamp, if_neg hack]

theorem exists_has_restamp (isn : UInt32) (own : List TcpSegment) (position : Nat) :
    (∃ slice ∈ slicesOf isn (own.map (restamp isn)), slice.Has position) ↔
      ∃ slice ∈ slicesOf isn own, slice.Has position := by
  simp only [slicesOf, List.mem_map, exists_exists_and_eq_and, has_restamp]

theorem covers_restamp {low high : Nat} :
    Covers (slicesOf isn (own.map (restamp isn))) low high ↔
      Covers (slicesOf isn own) low high := by
  unfold Covers
  simp only [exists_has_restamp]

theorem exists_fin_restamp :
    (∃ slice ∈ slicesOf isn (own.map (restamp isn)), slice.fin = true) ↔
      ∃ slice ∈ slicesOf isn own, slice.fin = true := by
  have hfin (s : TcpSegment) : (Slice.ofSegment isn (restamp isn s)).fin =
      (Slice.ofSegment isn s).fin := restamp_fin isn s
  simp only [slicesOf, List.mem_map, exists_exists_and_eq_and, hfin]

/-- Nor is one held for the start of the stream. -/
theorem heldOf_restamp (isn : UInt32) (segment : TcpSegment) :
    heldOf [Slice.ofSegment isn (restamp isn segment)] = heldOf [Slice.ofSegment isn segment] := by
  by_cases hack : Acknowledges segment
  · have hcounts (s : TcpSegment) (hpayload : s.payload = []) (hfin : s.fin = false) :
        heldOf [Slice.ofSegment isn s] = [] := by
      have hnot : (Slice.ofSegment isn s).counts = false := by
        show (decide (0 < s.payload.length) || s.fin) = false
        rw [hpayload, hfin]
        rfl
      rw [heldOf_singleton, hnot, if_neg Bool.false_ne_true]
    rw [hcounts segment hack.payload hack.fin,
      hcounts _ ((restamp_payload ..).trans hack.payload) ((restamp_fin ..).trans hack.fin)]
  · rw [restamp, if_neg hack]

theorem length_heldOf_restamp (isn : UInt32) (own : List TcpSegment) :
    (heldOf (slicesOf isn (own.map (restamp isn)))).length =
      (heldOf (slicesOf isn own)).length := by
  induction own with
  | nil => rfl
  | cons segment rest ih =>
    have hcons (s : TcpSegment) (more : List TcpSegment) : heldOf (slicesOf isn (s :: more)) =
        heldOf [Slice.ofSegment isn s] ++ heldOf (slicesOf isn more) :=
      heldOf_append [Slice.ofSegment isn s] (slicesOf isn more)
    rw [List.map_cons, hcons, hcons, List.length_append, List.length_append, ih, heldOf_restamp]

theorem startOf_restamp (own : List TcpSegment) (held : List Slice) (rest : List Call) :
    startOf capacity held (callsOf isn (own.map (restamp isn)) ++ rest) =
      startOf capacity held (callsOf isn own ++ rest) := by
  induction own generalizing held with
  | nil => rfl
  | cons segment more ih =>
    have hcalls (s : TcpSegment) (others : List TcpSegment) : callsOf isn (s :: others) ++ rest =
        .push (.ofSegment isn s) :: (callsOf isn others ++ rest) := rfl
    have hsyn : (Slice.ofSegment isn (restamp isn segment)).syn =
        (Slice.ofSegment isn segment).syn := restamp_syn isn segment
    rw [List.map_cons, hcalls, hcalls, startOf, startOf, hsyn, heldOf_restamp]
    simp only [ih]

end Slices

end PassiveDns.Stream
