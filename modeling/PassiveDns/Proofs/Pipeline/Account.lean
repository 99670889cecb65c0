/-
  PassiveDns.Proofs.Pipeline.Account

  The account of a run that has ended: in each queue what was put into it is what was taken
  from it (`Keeps.settled`). With the stations of a plan told apart this says from whom each
  of them has what it received.
-/
import Mathlib.Data.List.Perm.Basic
import PassiveDns.Proofs.Pipeline.Keeping

namespace PassiveDns.Pipeline

/-! ## The end of a run -/

/-- All that a station sent, or still is to send. -/
def Track.sent (plan : Plan) (track : Track) : List Parcel := sendsOf (track.due plan).2

/-- All that a station received. -/
def Track.taken (track : Track) : List Parcel := track.intake.map Prod.fst

/-- The parcels of one queue. -/
def ofChannel (channel : Channel) (parcels : List Parcel) : List Parcel :=
  parcels.filter fun parcel => parcel.channel = channel

/-- All stations have ended, and in each queue what was put into it was taken. -/
structure Settled (plan : Plan) (frames : List Frame) (tracks : List Track)
    (given : List Observation) : Prop where
  origins : tracks.map Track.origin = rolesOf plan
  runs : ∀ track ∈ tracks, track.Runs plan
  ended : ∀ track ∈ tracks, track.station.phase = .finished
  balance : ∀ channel, plan.Hosts channel →
    (ofChannel channel (frames.map Parcel.packet ++ tracks.flatMap (Track.sent plan))).Perm
      (ofChannel channel (tracks.flatMap Track.taken ++ given.map Parcel.result))

theorem ofChannel_append (channel : Channel) (a b : List Parcel) :
    ofChannel channel (a ++ b) = ofChannel channel a ++ ofChannel channel b :=
  List.filter_append ..

theorem perm_ofChannel (channel : Channel) {parcels others : List Parcel}
    (h : parcels.Perm others) : (ofChannel channel parcels).Perm (ofChannel channel others) :=
  h.filter _

theorem ofChannel_self {channel : Channel} {parcels : List Parcel}
    (h : ∀ parcel ∈ parcels, parcel.channel = channel) : ofChannel channel parcels = parcels :=
  List.filter_eq_self.mpr fun parcel hparcel => decide_eq_true (h parcel hparcel)

theorem ofChannel_nil {channel : Channel} {parcels : List Parcel}
    (h : ∀ parcel ∈ parcels, parcel.channel ≠ channel) : ofChannel channel parcels = [] :=
  List.filter_eq_nil_iff.mpr fun parcel hparcel => by simpa using h parcel hparcel

/-- When all have ended nothing is left in a queue, so the account is settled. -/
theorem Ledger.Keeps.settled {plan : Plan} {frames : List Frame} {ledger : Ledger}
    {network : Network} (h : ledger.Keeps plan frames network)
    (hvalid : plan.settings.validate = .ok ()) (hfinished : network.isFinished = true) :
    Settled plan frames ledger.tracks ledger.given := by
  obtain ⟨⟨hreader, hstations⟩, hsinks⟩ : (network.reader.isFinished = true ∧
      (network.stations.all fun station => station.phase = .finished) = true) ∧
      network.fanOut.isFinished = true := by
    simpa [Network.isFinished] using hfinished
  have hphase : network.reader.phase = .finished := of_decide_eq_true hreader
  have hended : ∀ track ∈ ledger.tracks, track.station.phase = .finished := fun track htrack =>
    of_decide_eq_true (List.all_eq_true.mp hstations _ (h.mem_stations htrack))
  have hhanded : frames = ledger.handed := by
    have hframes := h.reads.frames
    unfold Reader.held at hframes
    rw [hphase, h.reads.finished hphase] at hframes
    simpa using hframes
  refine ⟨h.origins, h.runs, hended, fun channel hosts => List.perm_iff_count.mpr fun parcel => ?_⟩
  by_cases hchannel : parcel.channel = channel
  · subst hchannel
    have hempty : network.queue parcel.channel = [] := by
      -- results were taken by the hand-out, everything else by the receiver of its queue
      by_cases hresults : parcel.channel = .results
      · have hclosing : network.fanOut.closing = true := by
          unfold Sink.FanOut.isFinished at hsinks
          exact (Bool.and_eq_true_iff.mp hsinks).1
        rw [hresults]
        exact (h.closing hclosing).2
      · obtain ⟨role, hrole, hinput⟩ := exists_receiver (workers_pos hvalid) hosts hresults
        rw [← h.origins] at hrole
        obtain ⟨track, htrack, rfl⟩ := List.mem_map.mp hrole
        rw [← hinput]
        exact (h.ended track htrack (by rw [hended track htrack]; simp)).2
    have hbalance := h.balance parcel
    -- no errand is left either
    have hconsumed : ledger.tracks.map (Track.consumed parcel) =
        ledger.tracks.map fun track => track.taken.count parcel := by
      refine List.map_congr_left fun track htrack => ?_
      unfold Track.consumed Track.taken
      rw [(h.runs track htrack).finished (hended track htrack), sendsOf_nil, List.count_nil]
      rfl
    rw [hempty, List.count_nil, hconsumed, ← hhanded] at hbalance
    unfold ofChannel
    rw [List.count_filter (by simp), List.count_filter (by simp), List.count_append,
      List.count_append, List.count_flatMap, List.count_flatMap]
    exact hbalance
  · -- a parcel of another queue counts on neither side
    have hnone (parcels : List Parcel) : (ofChannel channel parcels).count parcel = 0 := by
      refine List.count_eq_zero.mpr fun hmem => hchannel ?_
      exact of_decide_eq_true (List.mem_filter.mp hmem).2
    rw [hnone, hnone]

/-! ## Who sends and receives what -/

variable {plan : Plan} {frames : List Frame} {tracks : List Track} {given : List Observation}

theorem Track.channel_of_taken {track : Track} (h : track.Runs plan) :
    ∀ parcel ∈ track.taken, parcel.channel = track.origin.input := by
  intro parcel hparcel
  obtain ⟨arrival, harrival, rfl⟩ := List.mem_map.mp hparcel
  exact h.intake arrival harrival

/-- Nothing comes into a queue from a station that does not feed it. -/
theorem ofChannel_sent (hshards : 0 < plan.settings.tcpShards) {track : Track} {channel : Channel}
    (h : track.origin.feeds channel = false) : ofChannel channel (track.sent plan) = [] := by
  refine ofChannel_nil fun parcel hparcel heq => ?_
  have hfeeds := (Track.sends_due hshards hparcel).1
  rw [heq, h] at hfeeds
  cases hfeeds

/-- A station takes from its own queue, and from no other. -/
theorem ofChannel_taken {track : Track} (hruns : track.Runs plan) (channel : Channel) :
    ofChannel channel track.taken = if track.origin.input = channel then track.taken else [] := by
  split
  · rename_i hinput
    exact ofChannel_self fun parcel hparcel =>
      (Track.channel_of_taken hruns parcel hparcel).trans hinput
  · rename_i hinput
    exact ofChannel_nil fun parcel hparcel heq =>
      hinput ((Track.channel_of_taken hruns parcel hparcel).symm.trans heq)

theorem ofChannel_flatMap {α : Type} (channel : Channel) (l : List α) (f : α → List Parcel) :
    ofChannel channel (l.flatMap f) = l.flatMap fun a => ofChannel channel (f a) :=
  List.filter_flatMap

/-- The stations of a plan, told apart. -/
structure Crew (plan : Plan) where
  parser : Track
  shard : Nat → Track
  second : Track
  reassembler : IpVersion → Track
  decoders : List Track

namespace Crew

/-- One station for each version of the protocol. -/
def ofVersions (four six : Track) : IpVersion → Track
  | .v4 => four
  | .v6 => six

/-- The stations in the order of a plan. -/
def all (crew : Crew plan) : List Track :=
  crew.parser :: ((List.range plan.settings.tcpShards).map crew.shard ++
    ([crew.second, crew.reassembler .v4, crew.reassembler .v6] ++ crew.decoders))

/-- Each station is what its place says. -/
structure Begins (crew : Crew plan) : Prop where
  parser : crew.parser.origin = .parser
  shard : ∀ index < plan.settings.tcpShards, (crew.shard index).origin =
    .shard index (.empty plan.settings.maxBufferedSegments)
      (.empty plan.settings.maxBufferedSegments)
  second : crew.second.origin = .secondDecoder
  reassembler : ∀ version, (crew.reassembler version).origin =
    .reassembler version (.empty (.ofVersion version))
  decoders : ∀ track ∈ crew.decoders, track.origin = .decoder

end Crew

/-! ## From whom each station has what it took -/

/-- What goes from whom to whom: packets to the decoders, fragments to the reassemblers,
    datagrams to the second decoder, segments to the shards, messages to the parser, and
    observations to the hand-out. -/
structure Crew.Passes (crew : Crew plan) (frames : List Frame) (given : List Observation) :
    Prop where
  packets : (frames.map Parcel.packet).Perm (crew.decoders.flatMap Track.taken)
  fragments : ∀ version, (ofChannel (.fragments version)
    (crew.decoders.flatMap (Track.sent plan))).Perm (crew.reassembler version).taken
  datagrams : ((crew.reassembler .v4).sent plan ++ (crew.reassembler .v6).sent plan).Perm
    crew.second.taken
  segments : ∀ index < plan.settings.tcpShards, (ofChannel (.segments index)
    (crew.second.sent plan ++ crew.decoders.flatMap (Track.sent plan))).Perm
      (crew.shard index).taken
  messages : ((List.range plan.settings.tcpShards).flatMap fun index =>
    (crew.shard index).sent plan).Perm crew.parser.taken
  results : (crew.parser.sent plan ++ ofChannel .results (crew.second.sent plan ++
    crew.decoders.flatMap (Track.sent plan))).Perm (given.map Parcel.result)

variable {crew : Crew plan}

/-- A sum over the crew. -/
theorem Crew.ofChannel_all (crew : Crew plan) (channel : Channel) (f : Track → List Parcel) :
    ofChannel channel (crew.all.flatMap f) =
      ofChannel channel (f crew.parser) ++
        ((List.range plan.settings.tcpShards).flatMap (fun index =>
            ofChannel channel (f (crew.shard index))) ++
          (ofChannel channel (f crew.second) ++
            (ofChannel channel (f (crew.reassembler .v4)) ++
              (ofChannel channel (f (crew.reassembler .v6)) ++
                crew.decoders.flatMap fun track => ofChannel channel (f track))))) := by
  unfold Crew.all
  rw [List.flatMap_cons, List.flatMap_append, List.flatMap_append, List.flatMap_map]
  simp only [ofChannel_append, ofChannel_flatMap, List.flatMap_cons, List.flatMap_nil,
    List.append_nil, List.append_assoc]

/-- A station that feeds one queue only sends all that it sends into this one. -/
theorem ofChannel_sent_only (hshards : 0 < plan.settings.tcpShards) {track : Track}
    {only : Channel} (h : ∀ other, track.origin.feeds other = true → other = only)
    (channel : Channel) :
    ofChannel channel (track.sent plan) = if only = channel then track.sent plan else [] := by
  split
  · rename_i hchannel
    refine ofChannel_self fun parcel hparcel => ?_
    exact (h _ (Track.sends_due hshards hparcel).1).trans hchannel
  · rename_i hchannel
    refine ofChannel_nil fun parcel hparcel heq => hchannel ?_
    exact (h _ (Track.sends_due hshards hparcel).1).symm.trans heq

namespace Crew

theorem shard_mem {index : Nat} (h : index < plan.settings.tcpShards) :
    crew.shard index ∈ crew.all := by
  unfold all
  refine List.mem_cons_of_mem _ (List.mem_append_left _ ?_)
  exact List.mem_map_of_mem (List.mem_range.mpr h)

/-- What comes out of one queue. -/
theorem Begins.taken (begins : crew.Begins) (hruns : ∀ track ∈ crew.all, track.Runs plan)
    (channel : Channel) :
    ofChannel channel (crew.all.flatMap Track.taken) =
      (if Channel.messages = channel then crew.parser.taken else []) ++
        ((List.range plan.settings.tcpShards).flatMap (fun index =>
            if Channel.segments index = channel then (crew.shard index).taken else []) ++
          ((if Channel.datagrams = channel then crew.second.taken else []) ++
            ((if Channel.fragments .v4 = channel then (crew.reassembler .v4).taken else []) ++
              ((if Channel.fragments .v6 = channel then (crew.reassembler .v6).taken else []) ++
                crew.decoders.flatMap fun track =>
                  if Channel.packets = channel then track.taken else [])))) := by
  -- each member takes from its own queue
  have hmember {track : Track} (htrack : track ∈ crew.all) {role : Role}
      (horigin : track.origin = role) :
      ofChannel channel track.taken = if role.input = channel then track.taken else [] := by
    rw [ofChannel_taken (hruns track htrack), horigin]
  rw [crew.ofChannel_all]
  congr 1
  · exact hmember (by simp [all]) begins.parser
  congr 1
  · refine List.flatMap_congr fun index hindex => ?_
    have hlt := List.mem_range.mp hindex
    exact hmember (shard_mem hlt) (begins.shard index hlt)
  congr 1
  · exact hmember (by simp [all]) begins.second
  congr 1
  · exact hmember (by simp [all]) (begins.reassembler .v4)
  congr 1
  · exact hmember (by simp [all]) (begins.reassembler .v6)
  · refine List.flatMap_congr fun track htrack => ?_
    exact hmember (by simp [all, htrack]) (begins.decoders track htrack)

/-- What goes into one queue. -/
theorem Begins.sent (begins : crew.Begins) (hshards : 0 < plan.settings.tcpShards)
    (channel : Channel) :
    ofChannel channel (crew.all.flatMap (Track.sent plan)) =
      (if Channel.results = channel then crew.parser.sent plan else []) ++
        ((List.range plan.settings.tcpShards).flatMap (fun index =>
            if Channel.messages = channel then (crew.shard index).sent plan else []) ++
          (ofChannel channel (crew.second.sent plan) ++
            ((if Channel.datagrams = channel then (crew.reassembler .v4).sent plan else []) ++
              ((if Channel.datagrams = channel then (crew.reassembler .v6).sent plan else []) ++
                crew.decoders.flatMap fun track => ofChannel channel (track.sent plan))))) := by
  -- parser, shards and reassemblers feed one queue each
  have hmember {track : Track} {role : Role} (horigin : track.origin = role) {only : Channel}
      (honly : ∀ other, role.feeds other = true → other = only) :
      ofChannel channel (track.sent plan) = if only = channel then track.sent plan else [] := by
    rw [← horigin] at honly
    exact ofChannel_sent_only hshards honly channel
  rw [crew.ofChannel_all]
  congr 1
  · exact hmember begins.parser fun other h => by cases other <;> first | rfl | cases h
  congr 1
  · refine List.flatMap_congr fun index hindex => ?_
    exact hmember (begins.shard index (List.mem_range.mp hindex)) fun other h => by
      cases other <;> first | rfl | cases h
  congr 2
  · exact hmember (begins.reassembler .v4) fun other h => by
      cases other <;> first | rfl | cases h
  congr 1
  · exact hmember (begins.reassembler .v6) fun other h => by
      cases other <;> first | rfl | cases h

/-- Packets, datagrams and messages come from others than the decoders. -/
theorem Begins.decoders_sent (begins : crew.Begins) (hshards : 0 < plan.settings.tcpShards)
    {channel : Channel} (h : Role.decoder.feeds channel = false) :
    (crew.decoders.flatMap fun track => ofChannel channel (track.sent plan)) = [] := by
  refine List.flatMap_eq_nil_iff.mpr fun track htrack => ofChannel_sent hshards ?_
  rw [begins.decoders track htrack]
  exact h

theorem Begins.second_sent (begins : crew.Begins) (hshards : 0 < plan.settings.tcpShards)
    {channel : Channel} (h : Role.secondDecoder.feeds channel = false) :
    ofChannel channel (crew.second.sent plan) = [] := by
  refine ofChannel_sent hshards ?_
  rw [begins.second]
  exact h

/-- Once a run has settled, what is passed on is what was sent. -/
theorem Begins.passes (begins : crew.Begins) (h : Settled plan frames crew.all given)
    (hshards : 0 < plan.settings.tcpShards) : crew.Passes frames given := by
  have hframes {channel : Channel} (hne : Channel.packets ≠ channel) :
      ofChannel channel (frames.map Parcel.packet) = [] := by
    refine ofChannel_nil fun parcel hparcel heq => hne ?_
    obtain ⟨frame, _, rfl⟩ := List.mem_map.mp hparcel
    exact heq
  have hgiven {channel : Channel} (hne : Channel.results ≠ channel) :
      ofChannel channel (given.map Parcel.result) = [] := by
    refine ofChannel_nil fun parcel hparcel heq => hne ?_
    obtain ⟨observation, _, rfl⟩ := List.mem_map.mp hparcel
    exact heq
  have hqueue (channel : Channel) (hosts : plan.Hosts channel) := h.balance channel hosts
  simp only [ofChannel_append, begins.taken h.runs, begins.sent hshards] at hqueue
  refine ⟨?_, fun version => ?_, ?_, fun index hindex => ?_, ?_, ?_⟩
  · have hall := hqueue .packets trivial
    have hself : ofChannel .packets (frames.map Parcel.packet) = frames.map Parcel.packet := by
      refine ofChannel_self fun parcel hparcel => ?_
      obtain ⟨frame, _, rfl⟩ := List.mem_map.mp hparcel
      rfl
    rw [hself, begins.second_sent hshards rfl, begins.decoders_sent hshards rfl,
      hgiven (by simp)] at hall
    simpa using hall
  · have hall := hqueue (.fragments version) trivial
    rw [hframes (by simp), begins.second_sent hshards rfl, hgiven (by simp)] at hall
    rw [ofChannel_flatMap]
    cases version <;> simpa using hall
  · have hall := hqueue .datagrams trivial
    rw [hframes (by simp), begins.second_sent hshards rfl, begins.decoders_sent hshards rfl,
      hgiven (by simp)] at hall
    simpa using hall
  · have hall := hqueue (.segments index) hindex
    rw [hframes (by simp), hgiven (by simp)] at hall
    have hown := flatMap_ite_of_nodup List.nodup_range (List.mem_range.mpr hindex)
      fun index => (crew.shard index).taken
    rw [ofChannel_append, ofChannel_flatMap, ← hown]
    simpa using hall
  · have hall := hqueue .messages trivial
    rw [hframes (by simp), begins.second_sent hshards rfl, begins.decoders_sent hshards rfl,
      hgiven (by simp)] at hall
    simpa using hall
  · have hall := hqueue .results trivial
    have hself : ofChannel .results (given.map Parcel.result) = given.map Parcel.result := by
      refine ofChannel_self fun parcel hparcel => ?_
      obtain ⟨observation, _, rfl⟩ := List.mem_map.mp hparcel
      rfl
    rw [hframes (by simp), hself] at hall
    rw [ofChannel_append, ofChannel_flatMap]
    simpa using hall

/-- The stations of a run that has settled. -/
structure Done (crew : Crew plan) (frames : List Frame) (given : List Observation) : Prop where
  begins : crew.Begins
  ended : ∀ track ∈ crew.all, track.station.phase = .finished
  passes : crew.Passes frames given

end Crew

/-- The stations of a settled run are a crew that is done. -/
theorem Settled.exists_crew (h : Settled plan frames tracks given)
    (hshards : 0 < plan.settings.tcpShards) : ∃ crew : Crew plan, crew.Done frames given := by
  suffices hcrew : ∃ crew : Crew plan, crew.all = tracks ∧ crew.Begins by
    obtain ⟨crew, rfl, begins⟩ := hcrew
    exact ⟨crew, begins, h.ended, begins.passes h hshards⟩
  obtain ⟨parser, rest, rfl, hparser, hrest⟩ := List.map_eq_cons_iff.mp h.origins
  obtain ⟨shards, others, rfl, hshards, hothers⟩ := List.map_eq_append_iff.mp hrest
  obtain ⟨middle, decoders, rfl, hmiddle, hdecoders⟩ := List.map_eq_append_iff.mp hothers
  obtain ⟨second, middle, rfl, hsecond, hmiddle⟩ := List.map_eq_cons_iff.mp hmiddle
  obtain ⟨four, middle, rfl, hfour, hmiddle⟩ := List.map_eq_cons_iff.mp hmiddle
  obtain ⟨six, middle, rfl, hsix, hmiddle⟩ := List.map_eq_cons_iff.mp hmiddle
  obtain rfl := List.map_eq_nil_iff.mp hmiddle
  have hlength : shards.length = plan.settings.tcpShards := by
    have hlengths := congrArg List.length hshards
    simpa using hlengths
  have hindexed : (List.range plan.settings.tcpShards).map (fun index => shards.getD index parser) =
      shards := by
    refine List.ext_getElem (by simp [hlength]) fun index hleft hright => ?_
    simp [hright]
  refine ⟨⟨parser, fun index => shards.getD index parser, second,
    Crew.ofVersions four six, decoders⟩, ?_, hparser,
    fun index hindex => ?_, hsecond, fun version => ?_, fun track htrack => ?_⟩
  · unfold Crew.all
    dsimp only
    rw [hindexed]
    rfl
  · have hget := congrArg (fun roles => roles[index]?) hshards
    simp only [List.getElem?_map, List.getElem?_range hindex, Option.map_some] at hget
    obtain ⟨track, htrack, horigin⟩ := Option.map_eq_some_iff.mp hget
    dsimp only
    rw [List.getD_eq_getElem?_getD, htrack]
    exact horigin
  · cases version with
    | v4 => exact hfour
    | v6 => exact hsix
  · have hmem : track.origin ∈ decoders.map Track.origin := List.mem_map_of_mem htrack
    rw [hdecoders] at hmem
    exact List.eq_of_mem_replicate hmem

end PassiveDns.Pipeline
