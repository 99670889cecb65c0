/-
  PassiveDns.Proofs.Pipeline.Sending

  What the stations send for what they receive. Everything goes towards the observations:
  a station sends only into queues that it feeds (`sends_receive`), and these rank behind
  the one from which it receives (`rank_lt_of_feeds`).
-/
import Mathlib.Tactic.Common
import PassiveDns.Pipeline.Station

namespace PassiveDns.Pipeline

open PassiveDns.Packet (Classified)
open PassiveDns.Stream (Connections Outcome)

/-! ## Parcels that are sent -/

/-- The parcel that an errand sends. -/
def Errand.parcel? : Errand → Option Parcel
  | count _ _ => none
  | send parcel => some parcel

/-- The parcels that errands send, in order. -/
def sendsOf (errands : List Errand) : List Parcel := errands.filterMap Errand.parcel?

@[simp] theorem sendsOf_nil : sendsOf [] = [] := rfl

@[simp] theorem sendsOf_count (series : Series) (amount : Nat) (rest : List Errand) :
    sendsOf (.count series amount :: rest) = sendsOf rest := rfl

@[simp] theorem sendsOf_send (parcel : Parcel) (rest : List Errand) :
    sendsOf (.send parcel :: rest) = parcel :: sendsOf rest := rfl

@[simp] theorem sendsOf_append (errands more : List Errand) :
    sendsOf (errands ++ more) = sendsOf errands ++ sendsOf more :=
  List.filterMap_append

/-- The observation that a payload gives, if any. -/
def resultOf (plan : Plan) (transport : Transport) (carried : Carried) : Option Observation :=
  (plan.observer.observe plan.clock transport carried).toOption

namespace Role

theorem sendsOf_observe (plan : Plan) (transport : Transport) (carried : Carried) :
    sendsOf [observe plan transport carried] =
      (resultOf plan transport carried).toList.map Parcel.result := by
  unfold observe resultOf
  cases plan.observer.observe plan.clock transport carried <;> rfl

/-- The counts of an outcome send nothing. -/
theorem sendsOf_countEvents (version : IpVersion) (outcome : Outcome) :
    sendsOf (countEvents version outcome) = [] := by
  unfold countEvents sendsOf
  rw [List.filterMap_map]
  exact List.filterMap_eq_nil_iff.mpr fun _ _ => rfl

theorem sendsOf_sendMessages (outcome : Outcome) :
    sendsOf (sendMessages outcome) = outcome.messages.map Parcel.message := by
  unfold sendMessages sendsOf
  rw [List.filterMap_map]
  exact List.filterMap_eq_map ▸ rfl

theorem sendsOf_afterAssembly (version : IpVersion) (outcome : Outcome) :
    sendsOf (afterAssembly version outcome) = outcome.messages.map Parcel.message := by
  unfold afterAssembly
  rw [sendsOf_append, sendsOf_countEvents, List.nil_append, sendsOf_sendMessages]

/-- The parcel into which a completed datagram is put. -/
theorem sendsOf_afterSubmit (version : IpVersion)
    (outcome : Except FragmentError (Option Datagram)) :
    sendsOf (afterSubmit version outcome) = match outcome with
      | .ok (some datagram) => [.datagram datagram]
      | _ => [] := by
  unfold afterSubmit
  split <;> rfl

end Role

/-! ## Queues in the order of the way -/

/-- How far a queue is on the way from packets to observations. -/
def Channel.rank : Channel → Nat
  | packets => 0
  | fragments _ => 1
  | datagrams => 2
  | segments _ => 3
  | messages => 4
  | results => 5

/-- Whether a plan has a station behind a queue, or the hand-out. -/
def Plan.Hosts (plan : Plan) : Channel → Prop
  | .segments shard => shard < plan.settings.tcpShards
  | _ => True

namespace Role

/-- A station sends only forward. -/
theorem rank_lt_of_feeds {role : Role} {channel : Channel} (h : role.feeds channel = true) :
    role.input.rank < channel.rank := by
  cases role <;> cases channel <;> cases h <;> simp [input, Channel.rank]

/-- Two roles that do the same for a queue. -/
structure Alike (role other : Role) : Prop where
  input : role.input = other.input
  feeds : role.feeds = other.feeds

theorem Alike.refl (role : Role) : role.Alike role := ⟨rfl, rfl⟩

theorem Alike.trans {a b c : Role} (h : a.Alike b) (h' : b.Alike c) : a.Alike c :=
  ⟨h.input.trans h'.input, h.feeds.trans h'.feeds⟩

/-- Receiving changes what a station knows, and not what it is for. -/
theorem alike_receive (plan : Plan) (now : Instant) (role : Role) (parcel : Parcel) :
    (role.receive plan now parcel).1.Alike role := by
  cases role <;> cases parcel <;> try exact .refl _
  · exact ⟨rfl, funext fun channel => by cases channel <;> rfl⟩
  · rename_i index v4 v6 shard segment
    unfold receive
    dsimp only
    cases segment.header.version <;> exact ⟨rfl, funext fun channel => by cases channel <;> rfl⟩

theorem alike_finish (role : Role) : role.finish.1.Alike role := by
  cases role <;> try exact .refl _
  exact ⟨rfl, funext fun channel => by cases channel <;> rfl⟩

theorem alike_tick (cutoff : Instant) (role : Role) : (role.tick cutoff).1.Alike role := by
  cases role <;> try exact .refl _
  · exact ⟨rfl, funext fun channel => by cases channel <;> rfl⟩
  · exact ⟨rfl, funext fun channel => by cases channel <;> rfl⟩

/-! ## What is sent for a parcel -/

variable {plan : Plan} {parcel : Parcel}

theorem sends_observe {transport : Transport} {carried : Carried}
    (h : parcel ∈ sendsOf [observe plan transport carried]) : parcel.channel = .results := by
  rw [sendsOf_observe] at h
  obtain ⟨observation, _, rfl⟩ := List.mem_map.mp h
  rfl

/-- What is found on the DNS port goes to its shard, or is observed. -/
theorem sends_forward (hshards : 0 < plan.settings.tcpShards) {classified : Classified}
    (h : parcel ∈ sendsOf (forward plan classified)) :
    parcel.channel = .results ∨
      ∃ shard < plan.settings.tcpShards, parcel.channel = .segments shard := by
  cases classified with
  | fragment f => cases h
  | ignored => cases h
  | udp datagram => exact .inl (sends_observe h)
  | tcp segment =>
    rw [List.mem_singleton.mp h]
    exact .inr ⟨_, Stream.shardOf_lt segment hshards, rfl⟩

theorem sends_decode (hshards : 0 < plan.settings.tcpShards) {frame : Frame}
    (h : parcel ∈ sendsOf (decode plan frame)) :
    decoder.feeds parcel.channel = true ∧ plan.Hosts parcel.channel := by
  have hforward {classified : Classified} (h : parcel ∈ sendsOf (forward plan classified)) :
      decoder.feeds parcel.channel = true ∧ plan.Hosts parcel.channel := by
    rcases sends_forward hshards h with heq | ⟨shard, hshard, heq⟩ <;> rw [heq]
    · exact ⟨rfl, trivial⟩
    · exact ⟨rfl, hshard⟩
  unfold decode at h
  split at h
  · rw [List.mem_singleton.mp h]
    exact ⟨rfl, trivial⟩
  · cases h
  · exact hforward h
  · cases h

theorem sends_decodeAgain (hshards : 0 < plan.settings.tcpShards) {datagram : Datagram}
    (h : parcel ∈ sendsOf (decodeAgain plan datagram)) :
    secondDecoder.feeds parcel.channel = true ∧ plan.Hosts parcel.channel := by
  unfold decodeAgain at h
  split at h
  · rcases sends_forward hshards h with heq | ⟨shard, hshard, heq⟩ <;> rw [heq]
    · exact ⟨rfl, trivial⟩
    · exact ⟨rfl, hshard⟩
  · cases h

theorem sends_afterAssembly {version : IpVersion} {outcome : Outcome}
    (h : parcel ∈ sendsOf (afterAssembly version outcome)) : parcel.channel = .messages := by
  rw [sendsOf_afterAssembly] at h
  obtain ⟨message, _, rfl⟩ := List.mem_map.mp h
  rfl

/-- A station sends into queues that it feeds, and behind which there is somebody. -/
theorem sends_receive (hshards : 0 < plan.settings.tcpShards) (now : Instant) (role : Role)
    (received : Parcel) (h : parcel ∈ sendsOf (role.receive plan now received).2) :
    role.feeds parcel.channel = true ∧ plan.Hosts parcel.channel := by
  cases role with
  | decoder =>
    cases received with
    | packet frame => exact sends_decode hshards h
    | _ => cases h
  | secondDecoder =>
    cases received with
    | datagram datagram => exact sends_decodeAgain hshards h
    | _ => cases h
  | parser =>
    cases received with
    | message message =>
      rw [sends_observe h]
      exact ⟨rfl, trivial⟩
    | _ => cases h
  | reassembler version state =>
    cases received with
    | fragment f =>
      have hsends : parcel ∈ sendsOf (afterSubmit version (state.submit f now).1) := h
      rw [sendsOf_afterSubmit] at hsends
      split at hsends
      · rw [List.mem_singleton.mp hsends]
        exact ⟨rfl, trivial⟩
      · cases hsends
    | _ => cases h
  | shard index v4 v6 =>
    cases received with
    | segment shard segment =>
      have hchannel : parcel.channel = .messages := by
        unfold receive at h
        dsimp only at h
        cases hversion : segment.header.version <;> rw [hversion] at h <;>
          exact sends_afterAssembly h
      rw [hchannel]
      exact ⟨rfl, trivial⟩
    | _ => cases h

/-- What a station sends at its end. -/
theorem sends_finish (role : Role) (h : parcel ∈ sendsOf role.finish.2) :
    role.feeds parcel.channel = true ∧ plan.Hosts parcel.channel := by
  cases role with
  | shard index v4 v6 =>
    have hsends : parcel ∈ sendsOf (afterAssembly .v4 v4.flushAll.1 ++
        afterAssembly .v6 v6.flushAll.1) := h
    have hchannel : parcel.channel = .messages := by
      rw [sendsOf_append] at hsends
      rcases List.mem_append.mp hsends with hsends | hsends <;> exact sends_afterAssembly hsends
    rw [hchannel]
    exact ⟨rfl, trivial⟩
  | _ => cases h

/-- What a station sends when it looks for idle state. -/
theorem sends_tick (cutoff : Instant) (role : Role) (h : parcel ∈ sendsOf (role.tick cutoff).2) :
    role.feeds parcel.channel = true ∧ plan.Hosts parcel.channel := by
  cases role with
  | reassembler version state =>
    have hsends : parcel ∈ sendsOf (if 0 < (state.discardOlderThan cutoff).1 then
        [.count (.fragments version "expired") (state.discardOlderThan cutoff).1] else []) := h
    split at hsends <;> cases hsends
  | shard index v4 v6 =>
    have hsends : parcel ∈ sendsOf (countEvents .v4 (v4.flushOlderThan cutoff).1 ++
        countEvents .v6 (v6.flushOlderThan cutoff).1 ++
          (sendMessages (v4.flushOlderThan cutoff).1 ++
            sendMessages (v6.flushOlderThan cutoff).1)) := h
    have hchannel : parcel.channel = .messages := by
      simp only [sendsOf_append, sendsOf_countEvents, List.nil_append, sendsOf_sendMessages]
        at hsends
      rcases List.mem_append.mp hsends with hsends | hsends <;>
        obtain ⟨message, _, rfl⟩ := List.mem_map.mp hsends <;> rfl
    rw [hchannel]
    exact ⟨rfl, trivial⟩
  | _ => cases h

end Role

end PassiveDns.Pipeline
