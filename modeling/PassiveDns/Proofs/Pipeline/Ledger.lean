/-
  PassiveDns.Proofs.Pipeline.Ledger

  A ledger of a run: what the reader handed on, what each station received, and what the
  hand-out was given. Between them nothing is lost and nothing comes twice: `Keeps` says
  that every parcel that was handed on or produced was received, waits, or was given away.
-/
import PassiveDns.Proofs.Lists
import PassiveDns.Proofs.Pipeline.Moves
import PassiveDns.Proofs.Pipeline.Sending

namespace PassiveDns.Pipeline

open PassiveDns.Stream (Connections)

/-! ## One station and what it received -/

/-- What a station comes to, and the errands that it gives itself, when it receives parcels at
    some times. -/
def Role.replay (plan : Plan) : Role → List (Parcel × Instant) → Role × List Errand
  | role, [] => (role, [])
  | role, (parcel, now) :: rest =>
    let next := role.receive plan now parcel
    ((Role.replay plan next.1 rest).1, next.2 ++ (Role.replay plan next.1 rest).2)

/-- A station: how it began, what it received, and how it is now. -/
structure Track where
  origin : Role
  intake : List (Parcel × Instant)
  station : Station
deriving Inhabited

/-- What a station should have come to: it is as its parcels made it, and once it saw its end
    it is finished with them. -/
def Track.due (plan : Plan) (track : Track) : Role × List Errand :=
  let worked := track.origin.replay plan track.intake
  if track.station.phase = .working then worked
  else (worked.1.finish.1, worked.2 ++ worked.1.finish.2)

/-- A station did what it should; of its errands the last ones are left. -/
structure Track.Runs (plan : Plan) (track : Track) : Prop where
  role : track.station.role = (track.due plan).1
  outbox : track.station.outbox <:+ (track.due plan).2
  intake : ∀ arrival ∈ track.intake, arrival.1.channel = track.origin.input
  finished : track.station.phase = .finished → track.station.outbox = []

namespace Role

variable {plan : Plan}

theorem replay_cons (role : Role) (arrival : Parcel × Instant) (rest : List (Parcel × Instant)) :
    role.replay plan (arrival :: rest) =
      (((role.receive plan arrival.2 arrival.1).1.replay plan rest).1,
        (role.receive plan arrival.2 arrival.1).2 ++
          ((role.receive plan arrival.2 arrival.1).1.replay plan rest).2) :=
  rfl

theorem replay_append (role : Role) (arrivals more : List (Parcel × Instant)) :
    role.replay plan (arrivals ++ more) =
      (((role.replay plan arrivals).1.replay plan more).1,
        (role.replay plan arrivals).2 ++ ((role.replay plan arrivals).1.replay plan more).2) := by
  induction arrivals generalizing role with
  | nil => rfl
  | cons arrival rest ih =>
    rw [List.cons_append, replay_cons, replay_cons, ih, List.append_assoc]

theorem alike_replay (plan : Plan) (role : Role) (arrivals : List (Parcel × Instant)) :
    (role.replay plan arrivals).1.Alike role := by
  induction arrivals generalizing role with
  | nil => exact .refl role
  | cons arrival rest ih => exact (ih _).trans (alike_receive plan arrival.2 role arrival.1)

theorem sends_replay (hshards : 0 < plan.settings.tcpShards) {role : Role}
    {arrivals : List (Parcel × Instant)} {parcel : Parcel}
    (h : parcel ∈ sendsOf (role.replay plan arrivals).2) :
    role.feeds parcel.channel = true ∧ plan.Hosts parcel.channel := by
  induction arrivals generalizing role with
  | nil => cases h
  | cons arrival rest ih =>
    rw [replay_cons, sendsOf_append] at h
    rcases List.mem_append.mp h with h | h
    · exact sends_receive hshards arrival.2 role arrival.1 h
    · have halike := alike_receive plan arrival.2 role arrival.1
      rw [← halike.feeds]
      exact ih h

end Role

namespace Track

variable {plan : Plan} {track : Track}

theorem alike_due (plan : Plan) (track : Track) : (track.due plan).1.Alike track.origin := by
  have hreplay := Role.alike_replay plan track.origin track.intake
  unfold due
  dsimp only
  split
  · exact hreplay
  · exact (Role.alike_finish _).trans hreplay

theorem sends_due (hshards : 0 < plan.settings.tcpShards) {parcel : Parcel}
    (h : parcel ∈ sendsOf (track.due plan).2) :
    track.origin.feeds parcel.channel = true ∧ plan.Hosts parcel.channel := by
  unfold due at h
  dsimp only at h
  split at h
  · exact Role.sends_replay hshards h
  · rw [sendsOf_append] at h
    rcases List.mem_append.mp h with h | h
    · exact Role.sends_replay hshards h
    · rw [← (Role.alike_replay plan track.origin track.intake).feeds]
      exact Role.sends_finish _ h

/-- How often a station produced a parcel. -/
def produced (plan : Plan) (parcel : Parcel) (track : Track) : Nat :=
  (sendsOf (track.due plan).2).count parcel

/-- How often a parcel came to a station, or still is to be sent by it. -/
def consumed (parcel : Parcel) (track : Track) : Nat :=
  (track.intake.map Prod.fst).count parcel + (sendsOf track.station.outbox).count parcel

theorem Runs.alike (h : track.Runs plan) : track.station.role.Alike track.origin := by
  rw [h.role]
  exact alike_due plan track

theorem Runs.sends (h : track.Runs plan) (hshards : 0 < plan.settings.tcpShards) {parcel : Parcel}
    (hsends : parcel ∈ sendsOf track.station.outbox) :
    track.origin.feeds parcel.channel = true ∧ plan.Hosts parcel.channel := by
  obtain ⟨ran, hran⟩ := h.outbox
  refine sends_due hshards ?_
  rw [← hran, sendsOf_append]
  exact List.mem_append_right _ hsends

/-- A station with an errand left. -/
theorem Runs.tail (h : track.Runs plan) {errand : Errand} {rest : List Errand}
    (houtbox : track.station.outbox = errand :: rest) :
    Runs plan { track with station := { track.station with outbox := rest } } := by
  refine ⟨h.role, ?_, h.intake, fun hfinished => ?_⟩
  · have hsuffix := h.outbox
    rw [houtbox] at hsuffix
    exact (List.suffix_cons ..).trans hsuffix
  · have hnone := h.finished hfinished
    rw [houtbox] at hnone
    cases hnone

/-- A station receives a parcel of its queue. -/
def received (plan : Plan) (now : Instant) (parcel : Parcel) (track : Track) : Track where
  origin := track.origin
  intake := track.intake ++ [(parcel, now)]
  station := { track.station with
    role := (track.station.role.receive plan now parcel).1
    outbox := (track.station.role.receive plan now parcel).2 }

theorem Runs.due_working (h : track.Runs plan) (hphase : track.station.phase = .working) :
    track.origin.replay plan track.intake = (track.station.role, (track.due plan).2) := by
  have hrole := h.role
  unfold due at hrole ⊢
  dsimp only at hrole ⊢
  rw [if_pos hphase] at hrole ⊢
  rw [hrole]

theorem Runs.received_due (h : track.Runs plan) (hphase : track.station.phase = .working)
    (now : Instant) (parcel : Parcel) :
    (track.received plan now parcel).due plan =
      ((track.station.role.receive plan now parcel).1,
        (track.due plan).2 ++ (track.station.role.receive plan now parcel).2) := by
  have hreplay := h.due_working hphase
  -- a station at work is due what all its parcels make of it
  have hdue : (track.received plan now parcel).due plan =
      track.origin.replay plan (track.intake ++ [(parcel, now)]) := by
    unfold due
    exact if_pos hphase
  rw [hdue, Role.replay_append, hreplay]
  show (_, (track.due plan).2 ++ (_ ++ [])) = _
  rw [List.append_nil]
  rfl

theorem Runs.received (h : track.Runs plan) (hphase : track.station.phase = .working)
    (now : Instant) {parcel : Parcel} (hchannel : parcel.channel = track.origin.input) :
    (track.received plan now parcel).Runs plan := by
  have hdue := h.received_due hphase now parcel
  refine ⟨?_, ?_, ?_, fun hfinished => ?_⟩
  · rw [hdue]
    rfl
  · rw [hdue]
    exact List.suffix_append ..
  · intro arrival harrival
    rcases List.mem_append.mp harrival with harrival | harrival
    · exact h.intake arrival harrival
    · rw [List.mem_singleton.mp harrival]
      exact hchannel
  · have hworking : track.station.phase = .finished := hfinished
    rw [hphase] at hworking
    cases hworking

/-- A station sees that nothing can come any more. -/
def closed (track : Track) : Track where
  origin := track.origin
  intake := track.intake
  station := { track.station with
    role := track.station.role.finish.1
    outbox := track.station.role.finish.2
    phase := .closing }

theorem Runs.closed_due (h : track.Runs plan) (hphase : track.station.phase = .working) :
    track.closed.due plan =
      (track.station.role.finish.1, (track.due plan).2 ++ track.station.role.finish.2) := by
  have hreplay := h.due_working hphase
  -- what the end gives rise to comes behind all errands
  have hdue : track.closed.due plan =
      ((track.origin.replay plan track.intake).1.finish.1,
        (track.origin.replay plan track.intake).2 ++
          (track.origin.replay plan track.intake).1.finish.2) := by
    unfold due
    exact if_neg (by simp [closed])
  rw [hdue, hreplay]

theorem Runs.closed (h : track.Runs plan) (hphase : track.station.phase = .working) :
    track.closed.Runs plan := by
  have hdue := h.closed_due hphase
  refine ⟨?_, ?_, h.intake, fun hfinished => by cases hfinished⟩
  · rw [hdue]
    rfl
  · rw [hdue]
    exact List.suffix_append ..

/-- A station ends. -/
def finished (track : Track) : Track :=
  { track with station := { track.station with phase := .finished } }

theorem finished_due (hphase : track.station.phase = .closing) :
    track.finished.due plan = track.due plan := by
  have hworking : track.station.phase ≠ .working := by rw [hphase]; simp
  unfold due
  dsimp only
  rw [if_neg hworking, if_neg (by simp [finished])]
  rfl

theorem Runs.finish (h : track.Runs plan) (houtbox : track.station.outbox = [])
    (hphase : track.station.phase = .closing) : track.finished.Runs plan := by
  refine ⟨?_, ?_, h.intake, fun _ => houtbox⟩
  · rw [finished_due hphase]
    exact h.role
  · rw [finished_due hphase]
    exact h.outbox

end Track

/-! ## All stations -/

/-- What the stations of a plan are at the start, in their order. -/
def rolesOf (plan : Plan) : List Role :=
  .parser :: ((List.range plan.settings.tcpShards).map (fun index =>
      .shard index (.empty plan.settings.maxBufferedSegments)
        (.empty plan.settings.maxBufferedSegments)) ++
    ([.secondDecoder, .reassembler .v4 (.empty (.ofVersion .v4)),
        .reassembler .v6 (.empty (.ofVersion .v6))] ++
      List.replicate plan.settings.decoderWorkers .decoder))

theorem ofPlan_eq (plan : Plan) :
    Station.ofPlan plan = (rolesOf plan).map fun role => .ofRole role plan.gcInterval :=
  rfl

/-- What was handed on by the reader, what became of each station, and what the hand-out was
    given, in order. -/
structure Ledger where
  handed : List Frame
  tracks : List Track
  given : List Observation
deriving Inhabited

/-- The reader takes all frames of a source that ends by itself. -/
structure Reads (frames handed : List Frame) (network : Network) : Prop where
  frames : frames = handed ++ network.reader.held ++ network.source.map Arrival.frame
  stopping : network.stopping = false
  sourceEnd : network.sourceEnd = some .exhausted
  ratio : network.reader.admission.sampler.ratio.isPassthrough = true
  recent : network.reader.admission.recent = none
  finished : network.reader.phase = .finished → network.source = []

/-- A ledger is that of a network. -/
structure Ledger.Keeps (plan : Plan) (frames : List Frame) (ledger : Ledger) (network : Network) :
    Prop where
  planned : network.plan = plan
  stations : network.stations = ledger.tracks.map Track.station
  origins : ledger.tracks.map Track.origin = rolesOf plan
  runs : ∀ track ∈ ledger.tracks, track.Runs plan
  typed : ∀ channel, ∀ parcel ∈ network.queue channel, parcel.channel = channel
  balance : ∀ parcel, (ledger.handed.map Parcel.packet).count parcel +
      (ledger.tracks.map (Track.produced plan parcel)).sum =
    (ledger.tracks.map (Track.consumed parcel)).sum +
      (network.queue parcel.channel).count parcel + (ledger.given.map Parcel.result).count parcel
  ended : ∀ track ∈ ledger.tracks, track.station.phase ≠ .working →
    network.isClosed track.origin.input = true ∧ network.queue track.origin.input = []
  reads : Reads frames ledger.handed network
  serves : network.fanOut.Serves ledger.given
  closing : network.fanOut.closing = true →
    network.isClosed .results = true ∧ network.queue .results = []

/-! ## Settings that meet their conditions -/

theorem positive_of_validate {settings : Settings} (h : settings.validate = .ok ()) :
    ∀ entry ∈ settings.positive, 0 < entry.2 := by
  unfold Settings.validate at h
  split at h
  · cases h
  · rename_i hnone
    intro entry hentry
    have hzero := List.find?_eq_none.mp hnone entry hentry
    simp only [decide_eq_true_eq] at hzero
    omega

/-- Every queue holds something. -/
theorem capacity_pos {plan : Plan} (h : plan.settings.validate = .ok ()) (channel : Channel) :
    0 < plan.capacity channel := by
  have hpositive := positive_of_validate h
  cases channel with
  | packets => exact hpositive ("packet_channel_size", _) (by simp [Settings.positive])
  | fragments _ => exact hpositive ("defrag_channel_size", _) (by simp [Settings.positive])
  | datagrams => exact hpositive ("defrag_channel_size", _) (by simp [Settings.positive])
  | segments _ => exact hpositive ("tcp_channel_size", _) (by simp [Settings.positive])
  | messages => exact hpositive ("tcp_return_channel_size", _) (by simp [Settings.positive])
  | results => exact hpositive ("result_channel_size", _) (by simp [Settings.positive])

theorem shards_pos {plan : Plan} (h : plan.settings.validate = .ok ()) :
    0 < plan.settings.tcpShards :=
  positive_of_validate h ("tcp_shards", _) (by simp [Settings.positive])

theorem workers_pos {plan : Plan} (h : plan.settings.validate = .ok ()) :
    0 < plan.settings.decoderWorkers :=
  positive_of_validate h ("decoder_workers", _) (by simp [Settings.positive])

/-- Behind every queue that a plan has, that of the observations apart, there is a station. -/
theorem exists_receiver {plan : Plan} (hworkers : 0 < plan.settings.decoderWorkers)
    {channel : Channel} (hosts : plan.Hosts channel) (hne : channel ≠ .results) :
    ∃ role ∈ rolesOf plan, role.input = channel := by
  have hworkers := Nat.ne_of_gt hworkers
  unfold rolesOf
  cases channel with
  | packets => exact ⟨.decoder, by simp [hworkers], rfl⟩
  | fragments version =>
    cases version with
    | v4 => exact ⟨.reassembler .v4 (.empty (.ofVersion .v4)), by simp, rfl⟩
    | v6 => exact ⟨.reassembler .v6 (.empty (.ofVersion .v6)), by simp, rfl⟩
  | datagrams => exact ⟨.secondDecoder, by simp, rfl⟩
  | segments shard =>
    have hshard : shard < plan.settings.tcpShards := hosts
    exact ⟨_, List.mem_cons_of_mem _ (List.mem_append_left _
      (List.mem_map_of_mem (List.mem_range.mpr hshard))), rfl⟩
  | messages => exact ⟨.parser, by simp, rfl⟩
  | results => exact absurd rfl hne

end PassiveDns.Pipeline
