/-
  PassiveDns.Proofs.Pipeline.Replay

  What each kind of station has sent at its end, for what it received: decoders and the
  parser answer every parcel by itself, a reassembler sends the datagrams that its
  fragments make, and a shard the messages of its segments.
-/
import Mathlib.Data.Set.List
import PassiveDns.Proofs.Datagrams
import PassiveDns.Proofs.Pipeline.Account
import PassiveDns.Proofs.Stream.Transmission

namespace PassiveDns.Pipeline

open PassiveDns.Stream (Connections inputsOf)

variable {plan : Plan}

/-! ## Stations at their end -/

theorem Track.sent_of_finished {track : Track} (h : track.station.phase = .finished) :
    track.sent plan = sendsOf (track.origin.replay plan track.intake).2 ++
      sendsOf (track.origin.replay plan track.intake).1.finish.2 := by
  unfold sent due
  dsimp only
  rw [if_neg (by rw [h]; simp), sendsOf_append]

/-- The parcels of a queue, told by their contents. -/
theorem exists_arrivals {α : Type} {make : α → Parcel} (hmake : Function.Injective make)
    {contents : List α} {intake : List (Parcel × Instant)}
    (h : (contents.map make).Perm (intake.map Prod.fst)) :
    ∃ arrivals : List (α × Instant),
      intake = arrivals.map (fun arrival => (make arrival.1, arrival.2)) ∧
        (arrivals.map Prod.fst).Perm contents := by
  -- every parcel received is one of these contents
  have hall : intake ∈
      Set.range (List.map fun arrival : α × Instant => (make arrival.1, arrival.2)) := by
    rw [Set.range_list_map]
    intro arrival harrival
    obtain ⟨content, _, heq⟩ := List.mem_map.mp
      (h.mem_iff.mpr (List.mem_map_of_mem harrival))
    exact ⟨(content, arrival.2), Prod.ext heq rfl⟩
  obtain ⟨arrivals, rfl⟩ := hall
  refine ⟨arrivals, rfl, (List.map_perm_map_iff hmake).mp ?_⟩
  rw [List.map_map] at h ⊢
  exact h.symm

namespace Role

/-! ## Stations that know nothing -/

/-- A station that answers each parcel by itself, at any time. -/
structure Forgets (plan : Plan) (role : Role) : Prop where
  receive : ∀ now parcel, role.receive plan now parcel = (role, (role.receive plan 0 parcel).2)
  finish : role.finish.2 = []

theorem decoder_forgets : Forgets plan .decoder :=
  ⟨fun _ parcel => by cases parcel <;> rfl, rfl⟩

theorem secondDecoder_forgets : Forgets plan .secondDecoder :=
  ⟨fun _ parcel => by cases parcel <;> rfl, rfl⟩

theorem parser_forgets : Forgets plan .parser :=
  ⟨fun _ parcel => by cases parcel <;> rfl, rfl⟩

/-- What a station sends for one parcel. -/
def answer (plan : Plan) (role : Role) (parcel : Parcel) : List Parcel :=
  sendsOf (role.receive plan 0 parcel).2

theorem Forgets.replay {role : Role} (h : role.Forgets plan) (arrivals : List (Parcel × Instant)) :
    (role.replay plan arrivals).1 = role ∧
      sendsOf (role.replay plan arrivals).2 =
        (arrivals.map Prod.fst).flatMap (role.answer plan) := by
  induction arrivals with
  | nil => exact ⟨rfl, rfl⟩
  | cons arrival rest ih =>
    rw [replay_cons, h.receive arrival.2 arrival.1]
    refine ⟨ih.1, ?_⟩
    show sendsOf ((role.receive plan 0 arrival.1).2 ++ (role.replay plan rest).2) = _
    rw [sendsOf_append, ih.2, List.map_cons, List.flatMap_cons]
    rfl

theorem Forgets.sent {track : Track} (h : track.origin.Forgets plan)
    (hfinished : track.station.phase = .finished) :
    track.sent plan = track.taken.flatMap (track.origin.answer plan) := by
  obtain ⟨hrole, hsends⟩ := h.replay track.intake
  rw [Track.sent_of_finished hfinished, hrole, hsends, h.finish, sendsOf_nil, List.append_nil]
  rfl

/-! ## Reassemblers -/

theorem receive_fragment (version : IpVersion) (state : Reassembly) (now : Instant)
    (fragment : Fragment) :
    (reassembler version state).receive plan now (.fragment fragment) =
      (reassembler version (state.submit fragment now).2,
        afterSubmit version (state.submit fragment now).1) :=
  rfl

/-- A reassembler that received fragments. -/
theorem replay_reassembler (plan : Plan) (version : IpVersion) (state : Reassembly)
    (arrivals : List (Fragment × Instant)) :
    let replayed := (reassembler version state).replay plan
      (arrivals.map fun arrival => (.fragment arrival.1, arrival.2))
    replayed.1 = reassembler version (state.after arrivals) ∧
      sendsOf replayed.2 = (state.yields arrivals).map fun y => .datagram y.2 := by
  induction arrivals generalizing state with
  | nil => exact ⟨rfl, rfl⟩
  | cons arrival rest ih =>
    obtain ⟨hrole, hsends⟩ := ih (state.submit arrival.1 arrival.2).2
    rw [List.map_cons, replay_cons, receive_fragment]
    refine ⟨hrole, ?_⟩
    dsimp only at hsends ⊢
    rw [sendsOf_append, hsends, sendsOf_afterSubmit]
    show _ = (state.completed arrival.1 arrival.2 ++ _).map _
    rw [List.map_append]
    congr 1
    -- a submission sends the datagram that it completes, if any
    unfold Reassembly.completed
    rcases (state.submit arrival.1 arrival.2).1 with cause | _ | datagram <;> rfl

/-! ## Shards -/

/-- The segments of one version. -/
def ofVersion (version : IpVersion) (arrivals : List (TcpSegment × Instant)) :
    List (TcpSegment × Instant) :=
  arrivals.filter fun arrival => arrival.1.header.version = version

theorem ofVersion_cons (version : IpVersion) (arrival : TcpSegment × Instant)
    (rest : List (TcpSegment × Instant)) :
    ofVersion version (arrival :: rest) =
      if arrival.1.header.version = version then arrival :: ofVersion version rest
      else ofVersion version rest := by
  unfold ofVersion
  rw [List.filter_cons]
  simp only [decide_eq_true_eq]

variable {index : Nat} {v4 v6 : Connections}

theorem receive_v4 {segment : TcpSegment} (h : segment.header.version = .v4) (now : Instant) :
    (shard index v4 v6).receive plan now (.segment index segment) =
      (shard index (v4.assemble segment now).2 v6,
        afterAssembly .v4 (v4.assemble segment now).1) := by
  unfold receive
  dsimp only
  rw [h]

theorem receive_v6 {segment : TcpSegment} (h : segment.header.version = .v6) (now : Instant) :
    (shard index v4 v6).receive plan now (.segment index segment) =
      (shard index v4 (v6.assemble segment now).2,
        afterAssembly .v6 (v6.assemble segment now).1) := by
  unfold receive
  dsimp only
  rw [h]

theorem messages_cons (state : Connections) (arrival : TcpSegment × Instant)
    (rest : List (TcpSegment × Instant)) :
    state.messages (inputsOf (arrival :: rest)) =
      (state.assemble arrival.1 arrival.2).1.messages ++
        (state.assemble arrival.1 arrival.2).2.messages (inputsOf rest) :=
  rfl

/-- A shard that received segments: the two versions have nothing to do with each other. -/
theorem replay_shard (plan : Plan) (index : Nat) (v4 v6 : Connections)
    (arrivals : List (TcpSegment × Instant)) :
    let replayed := (shard index v4 v6).replay plan
      (arrivals.map fun arrival => (.segment index arrival.1, arrival.2))
    replayed.1 = shard index (v4.after (inputsOf (ofVersion .v4 arrivals)))
        (v6.after (inputsOf (ofVersion .v6 arrivals))) ∧
      (sendsOf replayed.2).Perm ((v4.messages (inputsOf (ofVersion .v4 arrivals)) ++
        v6.messages (inputsOf (ofVersion .v6 arrivals))).map Parcel.message) := by
  induction arrivals generalizing v4 v6 with
  | nil => exact ⟨rfl, .refl _⟩
  | cons arrival rest ih =>
    rw [List.map_cons, replay_cons, ofVersion_cons, ofVersion_cons]
    dsimp only
    cases hversion : arrival.1.header.version with
    | v4 =>
      obtain ⟨hrole, hsends⟩ := ih (v4.assemble arrival.1 arrival.2).2 v6
      rw [receive_v4 hversion, if_pos rfl, if_neg (by simp)]
      refine ⟨hrole, ?_⟩
      dsimp only at hsends ⊢
      rw [sendsOf_append, sendsOf_afterAssembly, messages_cons, List.append_assoc, List.map_append]
      exact hsends.append_left _
    | v6 =>
      obtain ⟨hrole, hsends⟩ := ih v4 (v6.assemble arrival.1 arrival.2).2
      rw [receive_v6 hversion, if_neg (by simp), if_pos rfl]
      refine ⟨hrole, ?_⟩
      dsimp only at hsends ⊢
      rw [sendsOf_append, sendsOf_afterAssembly, messages_cons]
      -- these messages come before those of version 4 that follow
      rw [← List.append_assoc, List.map_append, List.map_append]
      rw [List.map_append] at hsends
      refine (hsends.append_left _).trans ?_
      rw [← List.append_assoc]
      exact List.perm_append_comm.append_right _

/-- With no flow left open a shard has nothing more to send at its end. -/
theorem sends_finish_of_closed (h4 : v4.live.entries = [])
    (h6 : v6.live.entries = []) : sendsOf (shard index v4 v6).finish.2 = [] := by
  show sendsOf (afterAssembly .v4 (Connections.closeAll v4.live.entries) ++
    afterAssembly .v6 (Connections.closeAll v6.live.entries)) = []
  rw [h4, h6, sendsOf_append, sendsOf_afterAssembly, sendsOf_afterAssembly]
  rfl

end Role

end PassiveDns.Pipeline
