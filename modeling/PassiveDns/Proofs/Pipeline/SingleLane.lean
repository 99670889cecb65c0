/-
  PassiveDns.Proofs.Pipeline.SingleLane

  Runs with one decoder and one shard, and segments only. What comes of the frames gets to the
  shard in the order of the frames, so what it comes to is known (`Hushed`). If it is such that
  the shard never has anything to send, no sink gets anything (`taken_of_silent`).
-/
import PassiveDns.Proofs.Pipeline.Replay
import PassiveDns.Proofs.Pipeline.Termination
import PassiveDns.Proofs.Stream.FarEnds

namespace PassiveDns.Pipeline

open PassiveDns.Stream (Connections Flow Kept halfCircle)

variable {plan : Plan} {frames : List Frame} {ledger : Ledger} {network after : Network}
  {pending : List Parcel}

/-! ## A station that is never heard -/

/-- A station that has nothing to send when parcels come to it in this order, at whatever times,
    nor when it ends before all have come. -/
def Role.Silent (plan : Plan) : Role → List Parcel → Prop
  | role, [] => sendsOf role.finish.2 = []
  | role, parcel :: rest =>
    sendsOf role.finish.2 = [] ∧ ∀ now, sendsOf (role.receive plan now parcel).2 = [] ∧
      Silent plan (role.receive plan now parcel).1 rest

theorem Role.Silent.finish {role : Role} {parcels : List Parcel} (h : role.Silent plan parcels) :
    sendsOf role.finish.2 = [] := by
  cases parcels with
  | nil => exact h
  | cons parcel rest => exact h.1

/-- Only a shard has something left to send at its end. -/
theorem Role.finish_of_rank {role : Role} (h : role.input.rank ≠ 3) :
    sendsOf role.finish.2 = [] := by
  cases role with
  | shard index v4 v6 => exact absurd rfl h
  | _ => rfl

/-! ## A shard with one flow -/

/-- Connections that have at most one flow open, of which they keep something. -/
structure HasOnly (flow : Flow) (kept : Kept) (state : Connections) : Prop where
  kept : state.kept flow = kept
  others : ∀ other, other ≠ flow → state.live.get? other = none

namespace HasOnly

variable {flow : Flow} {kept : Kept} {v4 v6 : Connections} {segment : TcpSegment} {index : Nat}

/-- A segment of the flow. -/
theorem receive (h : HasOnly flow kept v4) (hflow : Flow.ofSegment segment = flow)
    (hversion : segment.header.version = .v4) (now : Instant) :
    ∃ state, HasOnly flow (kept.assemble v4.capacity segment now).2 state ∧
      state.capacity = v4.capacity ∧
      ((Role.shard index v4 v6).receive plan now (.segment index segment)).1 =
        .shard index state v6 ∧
      sendsOf ((Role.shard index v4 v6).receive plan now (.segment index segment)).2 =
        (kept.assemble v4.capacity segment now).1.map Parcel.message := by
  obtain ⟨hmessages, hkept⟩ := Connections.assemble_kept v4 segment now
  rw [hflow, h.kept] at hmessages hkept
  refine ⟨(v4.assemble segment now).2, ⟨hkept, fun other hother => ?_⟩,
    Connections.perform_capacity v4 (.segment segment now), ?_, ?_⟩
  · have hne : Flow.ofSegment segment ≠ other := fun heq => hother (heq.symm.trans hflow)
    exact (Connections.assemble_other hne).1.trans (h.others other hother)
  · rw [Role.receive_v4 hversion]
  · rw [Role.receive_v4 hversion, Role.sendsOf_afterAssembly, hmessages]

/-- What the flow has left is all that there is at the end. -/
theorem finish (h : HasOnly flow kept v4) (hrest : Kept.rest kept.live = [])
    (h6 : v6.live.entries = []) : sendsOf (Role.shard index v4 v6).finish.2 = [] := by
  show sendsOf (Role.afterAssembly .v4 (Connections.closeAll v4.live.entries) ++
    Role.afterAssembly .v6 (Connections.closeAll v6.live.entries)) = []
  -- whatever is open is the flow, and that has nothing left
  have hnone : (Connections.closeAll v4.live.entries).messages = [] := by
    show (v4.live.entries.map fun entry => entry.2.close).flatMap Prod.fst = []
    rw [List.flatMap_map]
    refine List.flatMap_eq_nil_iff.mpr fun entry hentry => ?_
    have hget := Table.get?_of_mem hentry
    have hflow : entry.1 = flow := by
      by_contra hne
      rw [h.others entry.1 hne] at hget
      cases hget
    have hlive : kept.live = some entry.2 := by
      rw [← h.kept, ← hget, hflow]
      rfl
    rw [hlive] at hrest
    exact hrest
  rw [sendsOf_append, Role.sendsOf_afterAssembly, Role.sendsOf_afterAssembly, hnone, h6]
  rfl

/-- Once the flow was closed, whatever else comes of it comes too late. -/
theorem silent_of_closed {time : Instant} (h : HasOnly flow (.closedAt time) v4)
    (h6 : v6.live.entries = []) {segments : List TcpSegment}
    (hsegments : ∀ s ∈ segments, Flow.ofSegment s = flow ∧ s.header.version = .v4 ∧
      s.syn = false ∧ s.rst = false) :
    (Role.shard index v4 v6).Silent plan (segments.map (Parcel.segment index)) := by
  induction segments generalizing v4 with
  | nil => exact h.finish rfl h6
  | cons s rest ih =>
    obtain ⟨hflow, hversion, hsyn, hrst⟩ := hsegments s (List.mem_cons_self ..)
    refine ⟨h.finish rfl h6, fun now => ?_⟩
    have hlate : (Kept.closedAt time).assemble v4.capacity s now = ([], .closedAt time) :=
      Kept.perform_closedAt v4.capacity
        (show (Stream.Input.segment s now).concerns flow = true from decide_eq_true hflow)
        fun _ => ⟨hsyn, hrst⟩
    obtain ⟨state, hstate, _, hrole, hsends⟩ := h.receive hflow hversion now
    rw [hlate] at hstate hsends
    rw [hrole, hsends]
    exact ⟨rfl, ih hstate fun s hs => hsegments s (List.mem_cons_of_mem _ hs)⟩

/-- An end that lies half of the circle behind a SYN, or more, and comes next: whatever else
    comes then comes too late. -/
theorem silent_of_far_end (capacity : Nat) {syn fin : TcpSegment} {rest : List TcpSegment}
    {offset : Nat}
    (hsegments : ∀ s ∈ syn :: fin :: rest, Flow.ofSegment s = flow ∧ s.header.version = .v4 ∧
      s.rst = false)
    (hsyn : syn.syn = true) (hopen : syn.fin = false) (hpayload : syn.payload = [])
    (hother : ∀ s ∈ fin :: rest, s.syn = false) (hfin : fin.fin = true)
    (hsequence : fin.sequence = syn.sequence + 1 + UInt32.ofNat offset)
    (hfar : halfCircle ≤ offset) (hless : offset < 4294967296)
    (hround : offset + fin.payload.length ≤ 4294967296) :
    (Role.shard index (.empty capacity) (.empty capacity)).Silent plan
      ((syn :: fin :: rest).map (Parcel.segment index)) := by
  obtain ⟨hflow, hversion, hrst⟩ := hsegments syn (List.mem_cons_self ..)
  have hnothing : HasOnly flow .nothing (Connections.empty capacity) := ⟨rfl, fun _ _ => rfl⟩
  refine ⟨hnothing.finish rfl rfl, fun time => ?_⟩
  -- the SYN opens the flow
  obtain ⟨opened, hopened, hcapacity, hrole, hsends⟩ := hnothing.receive hflow hversion time
  have hfirst := Kept.assemble_syn_alone capacity hsyn hopen hrst hpayload time
  rw [show (Connections.empty capacity).capacity = capacity from rfl, hfirst] at hopened hsends
  rw [hrole, hsends]
  refine ⟨rfl, hopened.finish rfl rfl, fun now => ?_⟩
  -- the end closes the flow
  obtain ⟨hflow, hversion, hrst⟩ :=
    hsegments fin (List.mem_cons_of_mem _ (List.mem_cons_self ..))
  obtain ⟨closed, hclosed, _, hrole, hsends⟩ := hopened.receive hflow hversion now
  have hend := Kept.assemble_far_end capacity time hsequence hfar hless hround
    (hother fin (List.mem_cons_self ..)) hfin hrst now
  rw [show opened.capacity = capacity from hcapacity, hend] at hclosed hsends
  rw [hrole, hsends]
  -- and nothing comes of the rest
  refine ⟨rfl, hclosed.silent_of_closed rfl fun s hs => ?_⟩
  obtain ⟨hflow, hversion, hrst⟩ :=
    hsegments s (List.mem_cons_of_mem _ (List.mem_cons_of_mem _ hs))
  exact ⟨hflow, hversion, hother s (List.mem_cons_of_mem _ hs), hrst⟩

end HasOnly

/-! ## One decoder and one shard -/

/-- One decoder and one shard. -/
structure Plan.SingleLane (plan : Plan) : Prop where
  decoders : plan.settings.decoderWorkers = 1
  shards : plan.settings.tcpShards = 1

namespace Plan.SingleLane

theorem inputs (h : plan.SingleLane) : (rolesOf plan).map Role.input =
    [.messages, .segments 0, .datagrams, .fragments .v4, .fragments .v6, .packets] := by
  unfold rolesOf
  rw [h.decoders, h.shards]
  rfl

/-- Which station has which place. -/
theorem place (h : plan.SingleLane) {index : Nat} {channel : Channel}
    (hinput : ((rolesOf plan).map Role.input)[index]? = some channel) :
    (channel.rank = 0 ↔ index = 5) ∧ (channel.rank = 3 ↔ index = 1) ∧
      (index = 5 → channel = .packets) ∧ (index = 1 → channel = .segments 0) := by
  rw [h.inputs] at hinput
  rcases index with _ | _ | _ | _ | _ | _ | index <;> simp at hinput <;> subst hinput <;>
    simp [Channel.rank]

end Plan.SingleLane

theorem Ledger.Keeps.input (h : ledger.Keeps plan frames network) {index : Nat} {station : Station}
    (hstation : network.stations[index]? = some station) :
    ((rolesOf plan).map Role.input)[index]? = some station.role.input := by
  obtain ⟨track, htrack, rfl⟩ := h.track_of_station hstation
  have halike := (h.runs track (List.mem_of_getElem? htrack)).alike
  rw [← h.origins, List.map_map, List.getElem?_map, htrack, halike.input]
  rfl

namespace Network

/-- What still comes to the shard, in order: what is in its queue, what the decoder is about to
    send, and what comes of the packets that wait for the decoder. -/
def coming (plan : Plan) (network : Network) (pending : List Parcel) : List Parcel :=
  network.queue (.segments 0) ++ (pending ++
    (network.queue .packets ++
      (network.reader.held ++ network.source.map Arrival.frame).map Parcel.packet).flatMap
        (Role.decoder.answer plan))

/-- Nobody but the decoder has anything to send, and it has only segments; the shard stays
    silent over all that still comes, and nothing was given to the hand-out. -/
structure Hushed (plan : Plan) (network : Network) (pending : List Parcel) : Prop where
  decoder : ∀ station, network.stations[5]? = some station → sendsOf station.outbox = pending
  others : ∀ index station, network.stations[index]? = some station → index ≠ 5 →
    sendsOf station.outbox = []
  queues : ∀ channel, channel.rank ≠ 0 → channel.rank ≠ 3 → network.queue channel = []
  segments : ∀ parcel ∈ network.coming plan pending, parcel.channel = .segments 0
  shard : ∀ station, network.stations[1]? = some station → station.phase = .working →
    station.role.Silent plan (network.coming plan pending)
  serves : network.fanOut.Serves []

namespace Hushed

/-- The stations stay as they are. -/
theorem turn (h : network.Hushed plan pending) (hstations : after.stations = network.stations)
    (hqueues : ∀ channel, channel.rank ≠ 0 → after.queue channel = network.queue channel)
    (hcoming : after.coming plan pending = network.coming plan pending)
    (hserves : after.fanOut.Serves []) : after.Hushed plan pending := by
  refine ⟨?_, ?_, fun channel hpackets hsegments => ?_, ?_, ?_, hserves⟩
  · rw [hstations]
    exact h.decoder
  · rw [hstations]
    exact h.others
  · rw [hqueues channel hpackets]
    exact h.queues channel hpackets hsegments
  · rw [hcoming]
    exact h.segments
  · rw [hstations, hcoming]
    exact h.shard

/-- A station changes, and the queues with it. -/
theorem act (h : network.Hushed plan pending) {index : Nat} {station : Station}
    (hstation : network.stations[index]? = some station) (changed : Station)
    (queues : Table Channel (List Parcel)) (metrics : Metrics) (left : List Parcel)
    (hsends : sendsOf changed.outbox = if index = 5 then left else [])
    (hleft : index ≠ 5 → left = pending)
    (hqueues : ∀ channel, channel.rank ≠ 0 → channel.rank ≠ 3 →
      (queues.get? channel).getD [] = [])
    (hcoming : ∀ parcel ∈ coming plan { network with queues } left,
      parcel ∈ network.coming plan pending)
    (hshard : index = 1 → changed.phase = .working →
      changed.role.Silent plan (coming plan { network with queues } left))
    (hsame : index ≠ 1 → coming plan { network with queues } left = network.coming plan pending) :
    Hushed plan { network with
      stations := network.stations.set index changed
      queues
      metrics } left := by
  have hlt : index < network.stations.length := (List.getElem?_eq_some_iff.mp hstation).1
  -- a station at a place is the one that has changed, or one that has not
  have hcases {other : Nat} {found : Station}
      (hfound : (network.stations.set index changed)[other]? = some found) :
      index = other ∧ found = changed ∨ index ≠ other ∧ network.stations[other]? = some found := by
    by_cases heq : index = other
    · subst heq
      rw [List.getElem?_set_self hlt] at hfound
      exact .inl ⟨rfl, (Option.some.inj hfound).symm⟩
    · rw [List.getElem?_set_ne heq] at hfound
      exact .inr ⟨heq, hfound⟩
  refine ⟨fun found hfound => ?_, fun other found hfound hother => ?_, hqueues,
    fun parcel hparcel => h.segments parcel (hcoming parcel hparcel),
    fun found hfound hphase => ?_, h.serves⟩
  · rcases hcases hfound with ⟨rfl, rfl⟩ | ⟨hne, hfound⟩
    · rw [hsends, if_pos rfl]
    · rw [hleft hne]
      exact h.decoder found hfound
  · rcases hcases hfound with ⟨rfl, rfl⟩ | ⟨_, hfound⟩
    · rw [hsends, if_neg hother]
    · exact h.others other found hfound hother
  · rcases hcases hfound with ⟨rfl, rfl⟩ | ⟨hne, hfound⟩
    · exact hshard rfl hphase
    · show found.role.Silent plan (coming plan { network with queues } left)
      rw [hsame hne]
      exact h.shard found hfound hphase

/-- What a station has to send. -/
theorem sends_eq (h : network.Hushed plan pending) {index : Nat} {station : Station}
    (hstation : network.stations[index]? = some station) :
    sendsOf station.outbox = if index = 5 then pending else [] := by
  split
  · rename_i heq
    subst heq
    exact h.decoder station hstation
  · rename_i hne
    exact h.others index station hstation hne

/-- A station changes, and has to send what it had. -/
theorem quiet (h : network.Hushed plan pending) {index : Nat} {station : Station}
    (hstation : network.stations[index]? = some station) (changed : Station) (metrics : Metrics)
    (hsends : sendsOf changed.outbox = sendsOf station.outbox)
    (hworking : changed.phase = .working →
      station.phase = .working ∧ changed.role = station.role) :
    Hushed plan { network with
      stations := network.stations.set index changed
      metrics } pending := by
  refine h.act hstation changed network.queues metrics pending (hsends.trans (h.sends_eq hstation))
    (fun _ => rfl) h.queues (fun _ hparcel => hparcel) (fun hindex hphase => ?_) (fun _ => rfl)
  obtain ⟨hphase, hrole⟩ := hworking hphase
  subst hindex
  rw [hrole]
  exact h.shard station hstation hphase

/-- A segment leaves the decoder. -/
theorem sends (h : network.Hushed plan pending) {index : Nat} {station : Station}
    (hstation : network.stations[index]? = some station) {parcel : Parcel} {rest : List Errand}
    (houtbox : station.outbox = .send parcel :: rest) :
    ∃ left, Hushed plan
      ((network.push parcel).setStation index { station with outbox := rest }) left := by
  have hsends := h.sends_eq hstation
  rw [houtbox, sendsOf_send] at hsends
  -- it is the decoder that sends
  have hindex : index = 5 := by
    by_contra hne
    rw [if_neg hne] at hsends
    cases hsends
  subst hindex
  rw [if_pos rfl] at hsends
  have hchannel : parcel.channel = .segments 0 := by
    refine h.segments parcel ?_
    unfold coming
    rw [← hsends]
    simp
  have hcoming : (network.push parcel).coming plan (sendsOf rest) =
      network.coming plan pending := by
    unfold coming
    rw [queue_push, queue_push, if_pos hchannel.symm, if_neg (by rw [hchannel]; simp), ← hsends]
    simp [push]
  refine ⟨sendsOf rest, h.act hstation { station with outbox := rest } (network.push parcel).queues
    network.metrics (sendsOf rest) (if_pos rfl).symm (absurd rfl)
    (fun channel hpackets hsegments => ?_) (fun other hother => ?_) (fun hindex => by cases hindex)
    (fun _ => hcoming)⟩
  · show (network.push parcel).queue channel = []
    rw [queue_push, if_neg (by rintro rfl; exact hsegments (by rw [hchannel]; rfl))]
    exact h.queues channel hpackets hsegments
  · rw [← hcoming]
    exact hother

/-- The decoder receives a packet: what comes of it is what it has to send next. -/
theorem decodes (h : network.Hushed plan pending) {station : Station}
    (hstation : network.stations[5]? = some station) (hrole : station.role = .decoder)
    (houtbox : station.outbox = []) {parcel : Parcel} {rest : List Parcel}
    (hqueue : network.queue .packets = parcel :: rest) (now : Instant) :
    ∃ left, Hushed plan ((network.setQueue .packets rest).setStation 5 { station with
      role := (station.role.receive plan now parcel).1
      outbox := (station.role.receive plan now parcel).2 }) left := by
  -- it receives only once it has sent all it had
  have hnone : pending = [] := by
    rw [← h.decoder station hstation, houtbox]
    rfl
  have hforgets : Role.Forgets plan .decoder := Role.decoder_forgets
  have hreceive := hforgets.receive now parcel
  have hcoming : (network.setQueue .packets rest).coming plan (Role.decoder.answer plan parcel) =
      network.coming plan pending := by
    unfold coming
    rw [queue_setQueue, queue_setQueue, if_neg (by simp), if_pos rfl, hqueue, hnone]
    simp [setQueue]
  refine ⟨Role.decoder.answer plan parcel, h.act hstation _ (network.setQueue .packets rest).queues
    network.metrics (Role.decoder.answer plan parcel) ?_ (absurd rfl)
    (fun channel hpackets hsegments => ?_) (fun other hother => ?_) (fun hindex => by cases hindex)
    (fun _ => hcoming)⟩
  · rw [hrole, hreceive, if_pos rfl]
    rfl
  · show (network.setQueue .packets rest).queue channel = []
    rw [queue_setQueue, if_neg (by rintro rfl; exact hpackets rfl)]
    exact h.queues channel hpackets hsegments
  · rw [← hcoming]
    exact hother

/-- The shard receives the segment that is next, and stays silent. -/
theorem assembles (h : network.Hushed plan pending) {station : Station}
    (hstation : network.stations[1]? = some station) (hphase : station.phase = .working)
    {parcel : Parcel} {rest : List Parcel}
    (hqueue : network.queue (.segments 0) = parcel :: rest) (now : Instant) :
    ∃ left, Hushed plan ((network.setQueue (.segments 0) rest).setStation 1 { station with
      role := (station.role.receive plan now parcel).1
      outbox := (station.role.receive plan now parcel).2 }) left := by
  -- the segment is the first of all that still come
  have hcoming : network.coming plan pending =
      parcel :: (network.setQueue (.segments 0) rest).coming plan pending := by
    unfold coming
    rw [queue_setQueue, queue_setQueue, if_pos rfl, if_neg (by simp), hqueue]
    simp [setQueue]
  have hsilent := h.shard station hstation hphase
  rw [hcoming] at hsilent
  obtain ⟨hsends, hrest⟩ := hsilent.2 now
  refine ⟨pending, h.act hstation _ (network.setQueue (.segments 0) rest).queues network.metrics
    pending ?_ (fun _ => rfl) (fun channel hpackets hsegments => ?_) (fun other hother => ?_)
    (fun _ _ => hrest) (absurd rfl)⟩
  · rw [if_neg (by simp)]
    exact hsends
  · show (network.setQueue (.segments 0) rest).queue channel = []
    rw [queue_setQueue, if_neg (by rintro rfl; exact hsegments rfl)]
    exact h.queues channel hpackets hsegments
  · rw [hcoming]
    exact List.mem_cons_of_mem _ hother

/-! ## All changes -/

/-- What a station does. -/
theorem work (h : network.Hushed plan pending) (hkeeps : ledger.Keeps plan frames network)
    (hlane : plan.SingleLane) {index : Nat} {station : Station}
    (hstation : network.stations[index]? = some station)
    (hworking : Working network index station after) : ∃ left, after.Hushed plan left := by
  obtain ⟨hpackets, hsegments, hfifth, hfirst⟩ := hlane.place (hkeeps.input hstation)
  cases hworking with
  | counts series amount rest houtbox =>
    refine ⟨pending, h.quiet hstation { station with outbox := rest } _ ?_
      fun hphase => ⟨hphase, rfl⟩⟩
    rw [houtbox]
    rfl
  | sends parcel rest houtbox _ => exact h.sends hstation houtbox
  | receives parcel rest houtbox hphase hqueue =>
    rw [hkeeps.planned]
    -- only packets and segments wait anywhere
    by_cases hdecoder : index = 5
    · subst hdecoder
      have hrole : station.role = .decoder := by
        have hinput := hfifth rfl
        cases hrole : station.role <;> rw [hrole] at hinput <;> cases hinput
      rw [hfifth rfl] at hqueue ⊢
      exact h.decodes hstation hrole houtbox hqueue network.now
    · by_cases hshard : index = 1
      · subst hshard
        rw [hfirst rfl] at hqueue ⊢
        exact h.assembles hstation hphase hqueue network.now
      · rw [h.queues _ (mt hpackets.mp hdecoder) (mt hsegments.mp hshard)] at hqueue
        cases hqueue
  | closes houtbox hphase hqueue hclosed =>
    -- the shard is silent at whatever point it ends, and the others leave nothing
    refine ⟨pending, h.quiet hstation _ network.metrics ?_ fun hworking => by cases hworking⟩
    rw [houtbox]
    by_cases hshard : index = 1
    · subst hshard
      exact (h.shard station hstation hphase).finish
    · exact Role.finish_of_rank (mt hsegments.mp hshard)
  | finishes houtbox hphase =>
    exact ⟨pending, h.quiet hstation _ network.metrics rfl fun hworking => by cases hworking⟩

/-- What the reader does: it moves frames on, in order. -/
theorem read (h : network.Hushed plan pending) (hkeeps : ledger.Keeps plan frames network)
    (hvalid : plan.settings.validate = .ok ()) (hstep : network.read? = some after) :
    after.Hushed plan pending := by
  cases reading hkeeps.reads.stopping hkeeps.reads.sourceEnd (hkeeps.takesPackets hvalid) hstep with
  | waits hphase =>
    refine h.turn rfl (fun _ _ => rfl) ?_ h.serves
    simp [coming, Reader.held, hphase, queue]
  | takes arrival rest hphase hsource =>
    obtain ⟨metrics, heq⟩ := hkeeps.readFrame_spec arrival rest
    rw [heq]
    refine h.turn rfl (fun _ _ => rfl) ?_ h.serves
    simp [coming, Reader.held, hphase, hsource, queue]
  | ends hphase hsource =>
    refine h.turn rfl (fun _ _ => rfl) ?_ h.serves
    simp [coming, Reader.held, hphase, queue, endReader, countSource]
  | queues frame hphase hroom =>
    -- the frame goes from the reader to the end of the queue, so the order stays
    have hqueue (channel : Channel) (hpackets : channel.rank ≠ 0) :
        (network.push (.packet frame)).queue channel = network.queue channel := by
      rw [queue_push, if_neg (by rintro rfl; exact hpackets rfl)]
    have hpackets : (network.push (.packet frame)).queue .packets =
        network.queue .packets ++ [.packet frame] := by
      rw [queue_push]
      exact if_pos rfl
    refine h.turn rfl hqueue ?_ h.serves
    show (network.push (.packet frame)).queue (.segments 0) ++ (pending ++
      ((network.push (.packet frame)).queue .packets ++ _).flatMap _) = _
    rw [hqueue (.segments 0) (by simp [Channel.rank]), hpackets]
    simp [coming, Reader.held, hphase, push]

/-- What the hand-out does: there is nothing that it could take. -/
theorem dispatch (h : network.Hushed plan pending) (hkeeps : ledger.Keeps plan frames network)
    (hstep : network.dispatch? = some after) : after.Hushed plan pending := by
  cases dispatching (hkeeps.typed .results) hstep with
  | goesOn result hresult =>
    exact h.turn rfl (fun _ _ => rfl) rfl (h.serves.handOut (Sink.FanOut.handingOut hresult)).1
  | takes observation rest hhand hopen hqueue =>
    rw [h.queues .results (by simp [Channel.rank]) (by simp [Channel.rank])] at hqueue
    cases hqueue
  | closes hhand _ _ _ => exact h.turn rfl (fun _ _ => rfl) rfl (h.serves.close hhand)

/-- Whatever happens in a run that nothing disturbs. -/
theorem next (h : network.Hushed plan pending) (hkeeps : ledger.Keeps plan frames network)
    (hvalid : plan.settings.validate = .ok ()) (hlane : plan.SingleLane)
    (hnext : Undisturbed network after) : ∃ left, after.Hushed plan left := by
  cases hnext with
  | clock duration => exact ⟨pending, h.turn rfl (fun _ _ => rfl) rfl h.serves⟩
  | tick hstation hidle htick =>
    obtain ⟨nextTick, rfl⟩ := tick_spec hstation hidle htick
    exact ⟨pending, h.quiet hstation _ network.metrics rfl fun hphase => ⟨hphase, rfl⟩⟩
  | step hstep =>
    obtain ⟨move, hmove, hfire⟩ := hstep
    cases move with
    | read => exact ⟨pending, h.read hkeeps hvalid hfire⟩
    | work index =>
      obtain ⟨station, hstation, hworking⟩ := working hfire
      exact h.work hkeeps hlane hstation hworking
    | tick index => exact absurd rfl (hmove index)
    | dispatch => exact ⟨pending, h.dispatch hkeeps hfire⟩
    | write index =>
      obtain ⟨result, hresult, rfl⟩ := Option.map_eq_some_iff.mp hfire
      exact ⟨pending, h.turn rfl (fun _ _ => rfl) rfl (h.serves.write hresult).1⟩

end Hushed

end Network

/-! ## Runs of which no sink hears anything -/

section Runs

variable {sinks : List Sink} {arrivals : List Arrival}

/-- What comes of frames that are decoded one after the other. -/
def Plan.decoded (plan : Plan) (frames : List Frame) : List Parcel :=
  frames.flatMap fun frame => sendsOf (Role.decode plan frame)

/-- At the start all is still to come. -/
theorem hushed_ofFrames (hvalid : plan.settings.validate = .ok ()) (hlane : plan.SingleLane)
    (hlasting : ∀ sink ∈ sinks, ∀ n, sink.reply n ≠ .broken)
    (hsegments : ∀ parcel ∈ plan.decoded (arrivals.map Arrival.frame),
      parcel.channel = .segments 0)
    (hsilent : (Role.shard 0 (.empty plan.settings.maxBufferedSegments)
      (.empty plan.settings.maxBufferedSegments)).Silent plan
        (plan.decoded (arrivals.map Arrival.frame)))
    (now : Instant) : (Network.ofFrames plan sinks arrivals now).Hushed plan [] := by
  have hroom : 0 < plan.settings.sinkQueue :=
    positive_of_validate hvalid ("sink_channel_size", _) (by simp [Settings.positive])
  have hcoming : (Network.ofFrames plan sinks arrivals now).coming plan [] =
      plan.decoded (arrivals.map Arrival.frame) := by
    show (([] ++ arrivals).map Arrival.frame |>.map Parcel.packet).flatMap _ = _
    rw [List.nil_append, List.flatMap_map]
    rfl
  refine ⟨fun station h => ?_, fun index station h _ => ?_, fun _ _ _ => rfl, ?_,
    fun station h hphase => ?_, (Sink.FanOut.serves_ofSinks hroom hlasting).1⟩
  · obtain ⟨role, _, rfl⟩ := role_of_getElem? h
    rfl
  · obtain ⟨role, _, rfl⟩ := role_of_getElem? h
    rfl
  · rw [hcoming]
    exact hsegments
  · obtain ⟨role, hrole, rfl⟩ := role_of_getElem? h
    rw [hcoming]
    unfold rolesOf at hrole
    rw [hlane.shards] at hrole
    rw [← Option.some.inj hrole]
    exact hsilent

/-- With one decoder and one shard, and segments over which the shard stays silent in the order
    of their frames, no sink has anything at the end. -/
theorem taken_of_silent (hvalid : plan.settings.validate = .ok ()) (hlane : plan.SingleLane)
    (hratio : plan.settings.ratio.isPassthrough = true) (hdedup : plan.settings.dedup = false)
    (hlasting : ∀ sink ∈ sinks, ∀ n, sink.reply n ≠ .broken)
    (hsegments : ∀ parcel ∈ plan.decoded (arrivals.map Arrival.frame),
      parcel.channel = .segments 0)
    (hsilent : (Role.shard 0 (.empty plan.settings.maxBufferedSegments)
      (.empty plan.settings.maxBufferedSegments)).Silent plan
        (plan.decoded (arrivals.map Arrival.frame)))
    {now : Instant} (hreaches : (Network.ofFrames plan sinks arrivals now).Reaches network)
    (hfinished : network.isFinished = true) :
    ∀ outlet ∈ network.fanOut.outlets, outlet.taken.toList = [] := by
  have hstart := keeps_ofFrames hvalid hratio hdedup hlasting arrivals now
  -- induction on the run, and nothing was given to the hand-out at any moment of it
  have hhushed : ∃ left, network.Hushed plan left := by
    clear hfinished
    induction hreaches with
    | refl => exact ⟨[], hushed_ofFrames hvalid hlane hlasting hsegments hsilent now⟩
    | next hbefore hnext ih =>
      obtain ⟨_, hkeeps⟩ := exists_ledger hvalid hstart hbefore
      obtain ⟨_, hleft⟩ := ih
      exact hleft.next hkeeps hvalid hlane hnext
  obtain ⟨_, hleft⟩ := hhushed
  unfold Network.isFinished at hfinished
  have hended := (Bool.and_eq_true_iff.mp hfinished).2
  exact fun outlet houtlet => (hleft.serves.taken_of_finished hended outlet houtlet).2

end Runs

end PassiveDns.Pipeline
