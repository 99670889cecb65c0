/-
  PassiveDns.Proofs.Stream.Sharding

  Connections divided into shards. A segment goes to the shard that its two ends choose,
  whichever of them sends it, and a flush goes to every shard. What the shards give and
  keep of a flow is what connections give and keep that are told of this flow alone
  (`sharding_transparent`).
-/
import Mathlib.Data.List.FinRange
import PassiveDns.Packet.Classify
import PassiveDns.Proofs.Lists
import PassiveDns.Proofs.Stream.Conversation
import PassiveDns.Proofs.Stream.SingleFlow

namespace PassiveDns.Stream

/-! ## The shard of a connection -/

/-- The other direction of a connection. -/
def Flow.reverse (flow : Flow) : Flow :=
  ⟨flow.destination, flow.source, flow.destinationPort, flow.sourcePort⟩

/-- Two segments are of one connection: of one of its directions, or one of each. -/
def SameConnection (s t : TcpSegment) : Prop :=
  Flow.ofSegment s = Flow.ofSegment t ∨ Flow.ofSegment s = (Flow.ofSegment t).reverse

/-- Two ends in an order that does not depend on which of them comes first. -/
def inOrder (a b : Octets) : Octets := if b < a then b ++ a else a ++ b

theorem inOrder_comm (a b : Octets) : inOrder a b = inOrder b a := by
  rw [inOrder, inOrder]
  by_cases hba : b < a
  · have hab : ¬a < b := List.lt_asymm hba
    rw [if_pos hba, if_neg hab]
  · by_cases hab : a < b
    · rw [if_neg hba, if_pos hab]
    · -- neither is lower, so they are equal
      have heq : a = b := List.le_antisymm hba hab
      rw [heq]

/-- The two ends of a flow, in order. -/
def Flow.ends (flow : Flow) : Octets :=
  inOrder (endpoint flow.source flow.sourcePort) (endpoint flow.destination flow.destinationPort)

theorem Flow.ends_reverse (flow : Flow) : flow.reverse.ends = flow.ends :=
  inOrder_comm _ _

/-- The shard of a segment depends on the ends of its flow and on its protocol only. -/
theorem shardOf_eq (segment : TcpSegment) (count : Nat) :
    shardOf segment count =
      if count ≤ 1 then 0
      else (Octets.fnv1a64 ((Flow.ofSegment segment).ends ++ [segment.header.protocol])).toNat %
        count := rfl

theorem shardOf_congr {s t : TcpSegment} (h : SameConnection s t)
    (hprotocol : s.header.protocol = t.header.protocol) (count : Nat) :
    shardOf s count = shardOf t count := by
  have hends : (Flow.ofSegment s).ends = (Flow.ofSegment t).ends := by
    rcases h with h | h
    · rw [h]
    · rw [h, Flow.ends_reverse]
  rw [shardOf_eq, shardOf_eq, hends, hprotocol]

/-! ## Shards side by side -/

/-- Connections for each of `count` shards. -/
abbrev Shards (count : Nat) := Fin count → Connections

/-- Whether a step is for a shard: a segment is for the shard that is chosen for it, a flush
    for all of them. -/
def Input.isFor (count index : Nat) : Input → Bool
  | segment s _ => shardOf s count = index
  | flushOlderThan _ => true
  | flushAll => true

namespace Shards

variable {count : Nat}

/-- No flows in any shard. -/
def empty (count capacity : Nat) : Shards count := fun _ => .empty capacity

/-- What a shard does in a step. -/
def turn (shards : Shards count) (input : Input) (i : Fin count) : List Carried × Connections :=
  if input.isFor count i then
    (((shards i).perform input).1.messages, ((shards i).perform input).2)
  else ([], shards i)

/-- One step: the shards that it is for take it, one after the other. -/
def perform (shards : Shards count) (input : Input) : List Carried × Shards count :=
  ((List.finRange count).flatMap fun i => (shards.turn input i).1,
    fun i => (shards.turn input i).2)

/-- The shards after some steps. -/
def after (shards : Shards count) (inputs : List Input) : Shards count :=
  inputs.foldl (fun shards input => (shards.perform input).2) shards

/-- All messages of some steps. -/
def messages (shards : Shards count) : List Input → List Carried
  | [] => []
  | input :: rest => (shards.perform input).1 ++ (shards.perform input).2.messages rest

/-! ## A flow among the shards -/

/-- All that shards keep of a flow is kept by its home, and is `kept`. -/
structure Houses (shards : Shards count) (capacity : Nat) (flow : Flow) (home : Fin count)
    (kept : Kept) : Prop where
  keyed : ∀ i, (shards i).Keyed
  capacity_eq : ∀ i, (shards i).capacity = capacity
  kept_eq : ∀ i, (shards i).kept flow = if i = home then kept else .nothing

theorem houses_empty (capacity : Nat) (flow : Flow) (home : Fin count) :
    (empty count capacity).Houses capacity flow home .nothing where
  keyed _ := Connections.keyed_empty capacity
  capacity_eq _ := rfl
  kept_eq i := by
    rw [ite_self]
    rfl

variable {shards : Shards count} {capacity : Nat} {flow : Flow} {home : Fin count} {kept : Kept}

/-- The segments of a flow are for its home. -/
def Homes (count : Nat) (flow : Flow) (home : Fin count) (input : Input) : Prop :=
  ∀ s ∈ input.segments, Flow.ofSegment s = flow → shardOf s count = home

/-- A step that concerns a flow is for its home. -/
theorem isFor_home {input : Input} (hhome : Homes count flow home input)
    (h : input.concerns flow = true) : input.isFor count home = true := by
  cases input with
  | segment s now =>
    exact decide_eq_true (hhome s (List.mem_singleton_self s) (of_decide_eq_true h))
  | flushOlderThan cutoff => rfl
  | flushAll => rfl

/-- What concerns a flow and is for another shard too is a flush. -/
theorem segments_of_isFor {input : Input} (hhome : Homes count flow home input)
    (h : input.concerns flow = true) {i : Fin count} (hfor : input.isFor count i = true)
    (hi : i ≠ home) : input.segments = [] := by
  cases input with
  | segment s now =>
    have hshard := hhome s (List.mem_singleton_self s) (of_decide_eq_true h)
    exact absurd (Fin.ext ((of_decide_eq_true hfor).symm.trans hshard)) hi
  | flushOlderThan cutoff => rfl
  | flushAll => rfl

/-- A shard leaves a flow alone that a step does not concern. -/
theorem turn_of_other (keyed : ∀ i, (shards i).Keyed) {input : Input}
    (h : input.concerns flow = false) (i : Fin count) :
    messagesFor flow (shards.turn input i).1 = [] ∧
      (shards.turn input i).2.kept flow = (shards i).kept flow := by
  rw [turn]
  split
  · exact Connections.perform_kept_of_other (keyed i) h
  · exact ⟨rfl, rfl⟩

namespace Houses

/-- The home of a flow does what the flow does by itself. -/
theorem turn_home (h : shards.Houses capacity flow home kept) {input : Input}
    (hhome : Homes count flow home input) (hconcerns : input.concerns flow = true) :
    messagesFor flow (shards.turn input home).1 = (kept.perform capacity input).1 ∧
      (shards.turn input home).2.kept flow = (kept.perform capacity input).2 := by
  have hkept : (shards home).kept flow = kept := by
    rw [h.kept_eq, if_pos rfl]
  rw [turn, if_pos (isFor_home hhome hconcerns), ← hkept, ← h.capacity_eq home]
  exact Connections.perform_kept (h.keyed home) hconcerns

/-- The other shards have nothing of the flow. -/
theorem turn_away (h : shards.Houses capacity flow home kept) {input : Input}
    (hhome : Homes count flow home input) {i : Fin count} (hi : i ≠ home) :
    messagesFor flow (shards.turn input i).1 = [] ∧
      (shards.turn input i).2.kept flow = .nothing := by
  have hkept : (shards i).kept flow = .nothing := by
    rw [h.kept_eq, if_neg hi]
  cases hconcerns : input.concerns flow with
  | false =>
    rw [← hkept]
    exact turn_of_other h.keyed hconcerns i
  | true =>
    rw [turn]
    split
    · rename_i hfor
      -- only a flush comes here, and it finds nothing
      have hflush := Kept.perform_nothing (shards i).capacity
        (segments_of_isFor hhome hconcerns hfor hi)
      obtain ⟨hmessages, hafter⟩ := Connections.perform_kept (h.keyed i) hconcerns
      rw [hmessages, hafter, hkept, hflush]
      exact ⟨rfl, rfl⟩
    · exact ⟨rfl, hkept⟩

/-- All that the shards give of a flow is what its home gives. -/
theorem messagesFor_perform (h : shards.Houses capacity flow home kept) {input : Input}
    (hhome : Homes count flow home input) :
    messagesFor flow (shards.perform input).1 =
      messagesFor flow (shards.turn input home).1 := by
  have hturns : (List.finRange count).flatMap (fun i => messagesFor flow (shards.turn input i).1) =
      (List.finRange count).flatMap fun i =>
        if i = home then messagesFor flow (shards.turn input i).1 else [] := by
    apply List.flatMap_congr
    intro i _
    by_cases hi : i = home
    · rw [if_pos hi]
    · rw [if_neg hi, (h.turn_away hhome hi).1]
  rw [perform, messagesFor, List.filter_flatMap]
  show (List.finRange count).flatMap (fun i => messagesFor flow (shards.turn input i).1) = _
  rw [hturns, flatMap_ite_of_nodup (List.nodup_finRange count) (List.mem_finRange home)]

theorem keyed_turn (keyed : ∀ i, (shards i).Keyed) (input : Input) (i : Fin count) :
    (shards.turn input i).2.Keyed := by
  rw [turn]
  split
  · exact Connections.perform_keyed (keyed i) input
  · exact keyed i

theorem capacity_turn (shards : Shards count) (input : Input) (i : Fin count) :
    (shards.turn input i).2.capacity = (shards i).capacity := by
  rw [turn]
  split
  · exact Connections.perform_capacity (shards i) input
  · rfl

/-- After a step the home still has all that is kept of the flow. -/
theorem step (h : shards.Houses capacity flow home kept) {input : Input}
    (hhome : Homes count flow home input) {next : Kept}
    (hnext : (shards.turn input home).2.kept flow = next) :
    Houses (shards.perform input).2 capacity flow home next where
  keyed := keyed_turn h.keyed input
  capacity_eq i := (capacity_turn shards input i).trans (h.capacity_eq i)
  kept_eq i := by
    by_cases hi : i = home
    · rw [if_pos hi, hi]
      exact hnext
    · rw [if_neg hi]
      exact (h.turn_away hhome hi).2

/-- What the shards give and keep of a flow is what the flow gives and keeps by itself. -/
theorem run (h : shards.Houses capacity flow home kept) {inputs : List Input}
    (hhome : ∀ input ∈ inputs, Homes count flow home input) :
    messagesFor flow (shards.messages inputs) =
        kept.messages capacity (inputsFor flow inputs) ∧
      Houses (shards.after inputs) capacity flow home
        (kept.after capacity (inputsFor flow inputs)) := by
  induction inputs generalizing shards kept with
  | nil => exact ⟨rfl, h⟩
  | cons input rest ih =>
    have hinput := hhome input List.mem_cons_self
    have hrest : ∀ i ∈ rest, Homes count flow home i :=
      fun i hi => hhome i (List.mem_cons_of_mem _ hi)
    rw [Shards.messages, messagesFor_append, h.messagesFor_perform hinput]
    cases hconcerns : input.concerns flow with
    | true =>
      obtain ⟨hmessages, hafter⟩ := h.turn_home hinput hconcerns
      obtain ⟨hmore, hlast⟩ := ih (h.step hinput hafter) hrest
      rw [inputsFor_cons_of_pos hconcerns, hmessages, hmore]
      exact ⟨rfl, hlast⟩
    | false =>
      obtain ⟨hmessages, hafter⟩ := turn_of_other h.keyed hconcerns home
      have hkept : (shards home).kept flow = kept := by
        rw [h.kept_eq, if_pos rfl]
      obtain ⟨hmore, hlast⟩ := ih (h.step hinput (hafter.trans hkept)) hrest
      rw [inputsFor_cons_of_neg hconcerns, hmessages, List.nil_append]
      exact ⟨hmore, hlast⟩

end Houses

end Shards

/-! ## Shards make no difference -/

/-- **Shards make no difference.** A connection has one shard, whichever of its ends sends.
    Of each flow the shards give, in the same order, the messages that connections give
    which are told of this flow alone, and one shard keeps of it what those connections
    keep, and the others nothing. All segments are of TCP, as those are that frames carry
    (`Packet.sound_classify`). -/
theorem sharding_transparent {count : Nat} (hcount : 0 < count) (capacity : Nat)
    (inputs : List Input)
    (htcp : ∀ s ∈ inputs.flatMap Input.segments, s.header.protocol = Packet.tcpProtocol) :
    (∀ s ∈ inputs.flatMap Input.segments, shardOf s count < count ∧
      ∀ t ∈ inputs.flatMap Input.segments, SameConnection s t →
        shardOf s count = shardOf t count) ∧
    ∀ flow,
      messagesFor flow ((Shards.empty count capacity).messages inputs) =
        (Connections.empty capacity).messages (inputsFor flow inputs) ∧
      ∃ home : Fin count,
        (∀ s ∈ inputs.flatMap Input.segments, Flow.ofSegment s = flow → shardOf s count = home) ∧
        ∀ i, ((Shards.empty count capacity).after inputs i).kept flow =
          if i = home then ((Connections.empty capacity).after (inputsFor flow inputs)).kept flow
          else .nothing := by
  refine ⟨fun s hs => ⟨shardOf_lt s hcount, fun t ht hsame => ?_⟩, fun flow => ?_⟩
  · exact shardOf_congr hsame ((htcp s hs).trans (htcp t ht).symm) count
  · -- the shard of the segments of the flow, or any shard if there are none
    obtain ⟨home, hhome⟩ : ∃ home : Fin count, ∀ s ∈ inputs.flatMap Input.segments,
        Flow.ofSegment s = flow → shardOf s count = home := by
      by_cases hnone : ∃ s ∈ inputs.flatMap Input.segments, Flow.ofSegment s = flow
      · obtain ⟨s, hs, hflow⟩ := hnone
        refine ⟨⟨shardOf s count, shardOf_lt s hcount⟩, fun t ht hflow' => ?_⟩
        exact shardOf_congr (.inl (hflow'.trans hflow.symm)) ((htcp t ht).trans (htcp s hs).symm)
          count
      · exact ⟨⟨0, hcount⟩, fun s hs hflow => absurd ⟨s, hs, hflow⟩ hnone⟩
    have hhomes : ∀ input ∈ inputs, Shards.Homes count flow home input :=
      fun input hinput s hs => hhome s (List.mem_flatMap.mpr ⟨input, hinput, hs⟩)
    obtain ⟨hmessages, hhouses⟩ := (Shards.houses_empty capacity flow home).run hhomes
    have hkeyed := Connections.keyed_empty capacity
    -- a flow is told twice of nothing that does not concern it
    have hsame : inputsFor flow (inputsFor flow inputs) = inputsFor flow inputs := by
      rw [inputsFor, inputsFor, List.filter_filter]
      simp only [Bool.and_self]
    refine ⟨?_, home, hhome, fun i => ?_⟩
    · rw [hmessages, ← Connections.messages_inputsFor, Connections.messagesFor_messages hkeyed,
        hsame]
      rfl
    · rw [hhouses.kept_eq, Connections.kept_after hkeyed, hsame]
      rfl

/-! ### A query and its answer -/

/-- A segment from the server. -/
def answerSegment (sequence : UInt32) (syn fin : Bool) (payload : Octets) : TcpSegment :=
  ⟨⟨.v4, .v4 0x0a000035, .v4 0x0a000001, 6⟩, 53, 40000, sequence, syn, fin, false, payload, none⟩

/-- Both directions of a connection, with a flush between its query and its answer. -/
def bothDirections : List Input :=
  [.segment (querySegment 100 true false []) 0, .segment (answerSegment 200 true false []) 1,
    .segment (querySegment 101 false false [0, 1, 7]) 2, .flushOlderThan 1,
    .segment (answerSegment 201 false true [0, 1, 8]) 3]

/-- Both directions have one shard, and each gives its message. -/
theorem sharding_transparent_bothDirections :
    0 < 3 ∧
      (∀ s ∈ bothDirections.flatMap Input.segments, s.header.protocol = Packet.tcpProtocol) ∧
      shardOf (querySegment 100 true false []) 3 = shardOf (answerSegment 200 true false []) 3 ∧
      (messagesFor query ((Shards.empty 3 4).messages bothDirections)).map Carried.payload =
        [[7]] ∧
      (messagesFor query.reverse ((Shards.empty 3 4).messages bothDirections)).map
        Carried.payload = [[8]] := by
  have htcp : ∀ s ∈ bothDirections.flatMap Input.segments,
      s.header.protocol = Packet.tcpProtocol := by decide
  obtain ⟨hshards, hflows⟩ := sharding_transparent (by decide : 0 < 3) 4 bothDirections htcp
  refine ⟨by decide, htcp, ?_, ?_, ?_⟩
  · exact (hshards _ (by decide)).2 _ (by decide) (.inr rfl)
  · rw [(hflows query).1]
    decide +kernel
  · rw [(hflows query.reverse).1]
    decide +kernel

end PassiveDns.Stream
