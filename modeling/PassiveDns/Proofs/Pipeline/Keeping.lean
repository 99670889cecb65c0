/-
  PassiveDns.Proofs.Pipeline.Keeping

  Every change that does not disturb a run keeps its ledger: first those of one station
  (`Keeps.act`), then those of the reader and of the hand-out, and from them all changes
  (`Keeps.next`).
-/
import PassiveDns.Proofs.Pipeline.Ledger

namespace PassiveDns.Pipeline

variable {plan : Plan} {frames : List Frame} {ledger : Ledger} {network after : Network}

namespace Ledger.Keeps

theorem track_of_station {index : Nat} {station : Station} (h : ledger.Keeps plan frames network)
    (hstation : network.stations[index]? = some station) :
    ∃ track, ledger.tracks[index]? = some track ∧ track.station = station := by
  rw [h.stations, List.getElem?_map] at hstation
  obtain ⟨track, htrack, heq⟩ := Option.map_eq_some_iff.mp hstation
  exact ⟨track, htrack, heq⟩

theorem mem_stations (h : ledger.Keeps plan frames network) {track : Track}
    (htrack : track ∈ ledger.tracks) : track.station ∈ network.stations := by
  rw [h.stations]
  exact List.mem_map_of_mem htrack

/-- Somebody receives packets until the reader has ended. -/
theorem takesPackets (h : ledger.Keeps plan frames network)
    (hvalid : plan.settings.validate = .ok ()) (hphase : network.reader.phase ≠ .finished) :
    network.takesPackets = true := by
  obtain ⟨role, hrole, hinput⟩ := exists_receiver (workers_pos hvalid)
    (show plan.Hosts .packets from trivial) (by simp)
  rw [← h.origins] at hrole
  obtain ⟨track, htrack, rfl⟩ := List.mem_map.mp hrole
  have hworking : track.station.phase = .working := by
    by_contra hended
    have hclosed := (h.ended track htrack hended).1
    rw [hinput] at hclosed
    exact hphase (((isClosed_iff ..).mp hclosed).1 rfl)
  refine List.any_eq_true.mpr ⟨track.station, h.mem_stations htrack, ?_⟩
  rw [(h.runs track htrack).alike.input, hinput, hworking]
  rfl

/-! ## Changes of one station -/

/-- A station changes, and the queues with it, in such a way that nothing is lost: what it has
    produced more or consumed less went into a queue, and what it has consumed more comes from
    one. -/
theorem act (h : ledger.Keeps plan frames network) {index : Nat} {track : Track}
    (htrack : ledger.tracks[index]? = some track) (changed : Track)
    (queues : Table Channel (List Parcel)) (metrics : Metrics)
    (horigin : changed.origin = track.origin) (hruns : changed.Runs plan)
    (hfinished : track.station.phase = .finished → changed.station.phase = .finished)
    (htyped : ∀ channel, ∀ parcel ∈ (queues.get? channel).getD [], parcel.channel = channel)
    (hbalance : ∀ parcel, changed.produced plan parcel + track.consumed parcel +
        (network.queue parcel.channel).count parcel =
      track.produced plan parcel + changed.consumed parcel +
        ((queues.get? parcel.channel).getD []).count parcel)
    (hqueue : ∀ channel, network.isClosed channel = true → network.queue channel = [] →
      (queues.get? channel).getD [] = [])
    (hended : changed.station.phase ≠ .working →
      network.isClosed track.origin.input = true ∧ network.queue track.origin.input = []) :
    Ledger.Keeps plan frames { ledger with tracks := ledger.tracks.set index changed }
      { network with
        stations := network.stations.set index changed.station
        queues
        metrics } := by
  have hmem := List.mem_of_getElem? htrack
  have halike := (h.runs track hmem).alike
  have hstation : network.stations[index]? = some track.station := by
    rw [h.stations, List.getElem?_map, htrack]
    rfl
  -- the station that changes is done with whatever it was done with before
  have hclosed {channel : Channel} (hclosed : network.isClosed channel = true) :
      Network.isClosed { network with
        stations := network.stations.set index changed.station
        queues
        metrics } channel = true := by
    refine isClosed_mono ?_ hstation rfl (fun hdone => ?_) hclosed
    · exact fun hphase => hphase
    · unfold Station.isDoneWith at hdone ⊢
      rw [hruns.alike.feeds, horigin, ← halike.feeds]
      rw [Bool.or_eq_true, decide_eq_true_iff] at hdone ⊢
      exact hdone.imp_left hfinished
  refine ⟨h.planned, ?_, ?_, ?_, htyped, fun parcel => ?_, fun other hother hphase => ?_,
    ⟨h.reads.frames, h.reads.stopping, h.reads.sourceEnd, h.reads.ratio, h.reads.recent,
      h.reads.finished⟩, h.serves, fun hclosing => ?_⟩
  · show network.stations.set index changed.station = _
    rw [h.stations]
    exact List.map_set.symm
  · show (ledger.tracks.set index changed).map Track.origin = _
    obtain ⟨hlt, heq⟩ := List.getElem?_eq_some_iff.mp htrack
    rw [List.map_set, horigin, ← List.map_set, ← heq, List.set_getElem_self, h.origins]
  · intro other hother
    rcases List.mem_or_eq_of_mem_set hother with hother | rfl
    · exact h.runs other hother
    · exact hruns
  · -- the two sums change by what this one station has changed
    have hproduced := sum_map_set (Track.produced plan parcel) htrack (b := changed)
    have hconsumed := sum_map_set (Track.consumed parcel) htrack (b := changed)
    have hbefore := h.balance parcel
    have hchange := hbalance parcel
    show _ + ((ledger.tracks.set index changed).map _).sum =
      ((ledger.tracks.set index changed).map _).sum + ((queues.get? _).getD []).count parcel + _
    dsimp only
    omega
  · -- who ended earlier did so over a queue that was closed and empty
    have hopen : network.isClosed other.origin.input = true ∧
        network.queue other.origin.input = [] := by
      rcases List.mem_or_eq_of_mem_set hother with hother | rfl
      · exact h.ended other hother hphase
      · rw [horigin]
        exact hended hphase
    exact ⟨hclosed hopen.1, hqueue _ hopen.1 hopen.2⟩
  · obtain ⟨hresults, hempty⟩ := h.closing hclosing
    exact ⟨hclosed hresults, hqueue _ hresults hempty⟩

theorem count_push (network : Network) (pushed parcel : Parcel) :
    ((network.push pushed).queue parcel.channel).count parcel =
      (network.queue parcel.channel).count parcel + [pushed].count parcel := by
  rw [Network.queue_push]
  split
  · exact List.count_append ..
  · rename_i hne
    -- a parcel for another queue is another parcel
    have hother : pushed ≠ parcel := fun heq => hne (by rw [heq])
    rw [List.count_singleton, if_neg (by simpa using hother)]
    rfl

theorem count_setQueue (h : ledger.Keeps plan frames network) {taken : Channel} {first : Parcel}
    {rest : List Parcel} (hqueue : network.queue taken = first :: rest) (parcel : Parcel) :
    ((network.setQueue taken rest).queue parcel.channel).count parcel + [first].count parcel =
      (network.queue parcel.channel).count parcel := by
  have hfirst : first.channel = taken :=
    h.typed taken first (by rw [hqueue]; exact List.mem_cons_self ..)
  rw [Network.queue_setQueue]
  split
  · rename_i heq
    rw [heq, hqueue, List.count_singleton, List.count_cons]
  · rename_i hne
    have hother : first ≠ parcel := fun heq => hne (by rw [← heq, hfirst])
    rw [List.count_singleton, if_neg (by simpa using hother)]
    rfl

/-- A station that sends a parcel keeps the ledger: the parcel was due, and is in a queue now. -/
theorem sends (h : ledger.Keeps plan frames network) (hshards : 0 < plan.settings.tcpShards)
    {index : Nat} {track : Track} (htrack : ledger.tracks[index]? = some track) {parcel : Parcel}
    {rest : List Errand} (houtbox : track.station.outbox = .send parcel :: rest) :
    ∃ ledger : Ledger, ledger.Keeps plan frames
      ((network.push parcel).setStation index { track.station with outbox := rest }) := by
  have hmem := List.mem_of_getElem? htrack
  have hruns := h.runs track hmem
  have hsends : parcel ∈ sendsOf track.station.outbox := by
    rw [houtbox, sendsOf_send]
    exact List.mem_cons_self ..
  have hunfinished : track.station.phase ≠ .finished := fun hfinished => by
    have hnone := hruns.finished hfinished
    rw [houtbox] at hnone
    cases hnone
  -- the queue is open, for this station still feeds it
  have hopen := not_isClosed_of_sends (h.mem_stations hmem)
    (by rw [hruns.alike.feeds]; exact (hruns.sends hshards hsends).1) hunfinished
  refine ⟨_, h.act htrack { track with station := { track.station with outbox := rest } }
    (network.push parcel).queues network.metrics rfl (hruns.tail houtbox) (fun hphase => hphase)
    (Network.forall_queue_push h.typed rfl) (fun other => ?_) (fun channel hclosed hempty => ?_)
    (h.ended track hmem)⟩
  · have hcount := count_push network parcel other
    show _ + _ + _ = _ + ((track.intake.map Prod.fst).count other + (sendsOf rest).count other) +
      ((network.push parcel).queue other.channel).count other
    unfold Track.consumed
    rw [hcount, houtbox, sendsOf_send, List.count_cons, List.count_singleton]
    show (sendsOf (track.due plan).2).count other + _ + _ =
      (sendsOf (track.due plan).2).count other + _ + _
    omega
  · show (network.push parcel).queue channel = []
    have hne : channel ≠ parcel.channel := fun heq => by
      rw [heq, hopen] at hclosed
      cases hclosed
    rw [Network.queue_push, if_neg hne]
    exact hempty

/-- A station that receives a parcel keeps the ledger: what the parcel gives rise to is both due
    and in the outbox. -/
theorem receives (h : ledger.Keeps plan frames network) {index : Nat} {track : Track}
    (htrack : ledger.tracks[index]? = some track) {parcel : Parcel} {rest : List Parcel}
    (houtbox : track.station.outbox = []) (hphase : track.station.phase = .working)
    (hqueue : network.queue track.station.role.input = parcel :: rest) :
    ∃ ledger : Ledger, ledger.Keeps plan frames
      ((network.setQueue track.station.role.input rest).setStation index
        (track.received plan network.now parcel).station) := by
  have hruns := h.runs track (List.mem_of_getElem? htrack)
  have hchannel : parcel.channel = track.origin.input := by
    rw [← hruns.alike.input]
    exact h.typed _ parcel (by rw [hqueue]; exact List.mem_cons_self ..)
  refine ⟨_, h.act htrack (track.received plan network.now parcel)
    (network.setQueue track.station.role.input rest).queues network.metrics rfl
    (hruns.received hphase network.now hchannel) (fun hfinished => ?_)
    (Network.forall_queue_setQueue h.typed hqueue) (fun other => ?_)
    (fun channel hclosed hempty => ?_) (fun hended => absurd hphase hended)⟩
  · exact hfinished
  · have hcount := h.count_setQueue hqueue other
    show _ + _ + _ = _ + _ +
      ((network.setQueue track.station.role.input rest).queue other.channel).count other
    unfold Track.produced Track.consumed
    rw [hruns.received_due hphase, sendsOf_append, List.count_append, houtbox, sendsOf_nil,
      List.count_nil]
    unfold Track.received
    dsimp only
    rw [List.map_append, List.count_append]
    show _ + _ + _ = _ + (_ + [parcel].count other + _) + _
    omega
  · exact queue_setQueue_of_empty hqueue hempty

/-- What a station does keeps the ledger. -/
theorem work (h : ledger.Keeps plan frames network) (hshards : 0 < plan.settings.tcpShards)
    {index : Nat} {station : Station} (hstation : network.stations[index]? = some station)
    (hworking : Network.Working network index station after) :
    ∃ ledger : Ledger, ledger.Keeps plan frames after := by
  obtain ⟨track, htrack, rfl⟩ := h.track_of_station hstation
  have hmem := List.mem_of_getElem? htrack
  have hruns := h.runs track hmem
  cases hworking with
  | counts series amount rest houtbox =>
    -- the outbox gets shorter by an errand that sends nothing
    refine ⟨_, h.act htrack { track with station := { track.station with outbox := rest } }
      network.queues _ rfl (hruns.tail houtbox) (fun hphase => hphase) h.typed (fun parcel => ?_)
      (fun _ _ hempty => hempty) (h.ended track hmem)⟩
    show _ + _ + _ = _ + ((track.intake.map Prod.fst).count parcel +
      (sendsOf rest).count parcel) + _
    unfold Track.consumed
    rw [houtbox, sendsOf_count]
    rfl
  | sends parcel rest houtbox _ => exact h.sends hshards htrack houtbox
  | receives parcel rest houtbox hphase hqueue =>
    rw [h.planned]
    exact h.receives htrack houtbox hphase hqueue
  | closes houtbox hphase hqueue hclosed =>
    rw [hruns.alike.input] at hqueue hclosed
    refine ⟨_, h.act htrack track.closed network.queues network.metrics rfl (hruns.closed hphase)
      (fun hfinished => ?_) h.typed (fun parcel => ?_) (fun _ _ hempty => hempty)
      (fun _ => ⟨hclosed, hqueue⟩)⟩
    · rw [hphase] at hfinished
      cases hfinished
    · -- what the end gives rise to is both due and in the outbox
      unfold Track.produced Track.consumed
      rw [hruns.closed_due hphase, sendsOf_append, List.count_append, houtbox, sendsOf_nil,
        List.count_nil]
      show _ + _ + _ = _ + ((track.intake.map Prod.fst).count parcel +
        (sendsOf track.station.role.finish.2).count parcel) + (network.queue _).count parcel
      omega
  | finishes houtbox hphase =>
    refine ⟨_, h.act htrack track.finished network.queues network.metrics rfl
      (hruns.finish houtbox hphase) (fun _ => rfl) h.typed (fun parcel => ?_)
      (fun _ _ hempty => hempty) (fun _ => h.ended track hmem (by rw [hphase]; simp))⟩
    unfold Track.produced
    rw [Track.finished_due hphase]
    rfl

/-! ## Changes of the reader -/

/-- Nothing is left out, so a frame that is taken is in hand. -/
theorem readFrame_spec (h : ledger.Keeps plan frames network) (arrival : Arrival)
    (rest : List Arrival) :
    ∃ metrics, network.readFrame arrival rest = { network with
      source := rest
      reader := { network.reader with
        phase := .holding arrival.frame
        read := network.reader.read + 1
        accepted := network.reader.accepted + 1 }
      metrics } := by
  -- neither the sampler nor the memory of repeats refuses the frame
  have hsampler : network.reader.admission.sampler.next =
      (true, network.reader.admission.sampler) := by
    unfold Sampler.next
    rw [if_pos h.reads.ratio]
  have hcheck : network.reader.admission.check arrival.frame.octets arrival.time =
      (.accepted, network.reader.admission) := by
    have hrecent := h.reads.recent
    generalize network.reader.admission = admission at hsampler hrecent ⊢
    obtain ⟨sampler, recent⟩ := admission
    dsimp only at hsampler hrecent
    unfold Admission.check
    rw [hsampler, hrecent]
  have htake : network.reader.take arrival.frame arrival.time = ([], { network.reader with
      phase := .holding arrival.frame
      read := network.reader.read + 1
      accepted := network.reader.accepted + 1 }) := by
    unfold Reader.take
    rw [hcheck]
  obtain ⟨metrics, heq⟩ := Network.readFrame_eq network arrival rest
  rw [htake] at heq
  exact ⟨metrics, heq⟩

/-- The reader goes on: what it hands on more is in a queue. -/
theorem turn (h : ledger.Keeps plan frames network) (handed : List Frame)
    (hplan : after.plan = network.plan) (hstations : after.stations = network.stations)
    (hfanOut : after.fanOut = network.fanOut)
    (hreader : network.reader.phase = .finished → after.reader.phase = .finished)
    (htyped : ∀ channel, ∀ parcel ∈ after.queue channel, parcel.channel = channel)
    (hbalance : ∀ parcel, (handed.map Parcel.packet).count parcel +
        (network.queue parcel.channel).count parcel =
      (ledger.handed.map Parcel.packet).count parcel +
        (after.queue parcel.channel).count parcel)
    (hqueue : ∀ channel, network.isClosed channel = true → network.queue channel = [] →
      after.queue channel = [])
    (hreads : Reads frames handed after) :
    Ledger.Keeps plan frames { ledger with handed } after := by
  have hclosed {channel : Channel} (hclosed : network.isClosed channel = true) :
      after.isClosed channel = true := by
    obtain ⟨hpackets, hall⟩ := (isClosed_iff ..).mp hclosed
    refine (isClosed_iff ..).mpr ⟨fun heq => hreader (hpackets heq), ?_⟩
    rw [hstations]
    exact hall
  refine ⟨hplan.trans h.planned, hstations.trans h.stations, h.origins, h.runs, htyped,
    fun parcel => ?_, fun track htrack hended => ?_, hreads, ?_, fun hclosing => ?_⟩
  · have hbefore := h.balance parcel
    have hchange := hbalance parcel
    dsimp only
    omega
  · obtain ⟨hends, hempty⟩ := h.ended track htrack hended
    exact ⟨hclosed hends, hqueue _ hends hempty⟩
  · rw [hfanOut]
    exact h.serves
  · rw [hfanOut] at hclosing
    obtain ⟨hends, hempty⟩ := h.closing hclosing
    exact ⟨hclosed hends, hqueue _ hends hempty⟩

/-- What the reader does keeps the ledger: it only moves frames on. -/
theorem read (h : ledger.Keeps plan frames network) (hvalid : plan.settings.validate = .ok ())
    (hstep : network.read? = some after) : ∃ ledger : Ledger, ledger.Keeps plan frames after := by
  have hreads := h.reads
  have hframes := hreads.frames
  unfold Reader.held at hframes
  -- a reader that still acts has not ended
  have hunfinished {phase : ReaderPhase} (hphase : network.reader.phase = phase)
      (hne : phase ≠ .finished) (other : Reader) (hfinished : network.reader.phase = .finished) :
      other.phase = .finished :=
    absurd (hphase.symm.trans hfinished) hne
  cases Network.reading hreads.stopping hreads.sourceEnd (h.takesPackets hvalid) hstep with
  | waits hphase =>
    rw [hphase] at hframes
    exact ⟨_, h.turn ledger.handed rfl rfl rfl (hunfinished hphase (by simp) _) h.typed
      (fun _ => rfl) (fun _ _ hempty => hempty)
      ⟨hframes, hreads.stopping, hreads.sourceEnd, hreads.ratio, hreads.recent, nofun⟩⟩
  | takes arrival rest hphase hsource =>
    obtain ⟨metrics, heq⟩ := h.readFrame_spec arrival rest
    rw [hphase, hsource] at hframes
    rw [heq]
    refine ⟨_, h.turn ledger.handed rfl rfl rfl (hunfinished hphase (by simp) _) h.typed
      (fun _ => rfl) (fun _ _ hempty => hempty)
      ⟨?_, hreads.stopping, hreads.sourceEnd, hreads.ratio, hreads.recent, nofun⟩⟩
    rw [hframes]
    simp [Reader.held]
  | ends hphase hsource =>
    rw [hphase] at hframes
    exact ⟨_, h.turn ledger.handed rfl rfl rfl (fun _ => rfl) h.typed (fun _ => rfl)
      (fun _ _ hempty => hempty)
      ⟨hframes, hreads.stopping, hreads.sourceEnd, hreads.ratio, hreads.recent, fun _ => hsource⟩⟩
  | queues frame hphase hroom =>
    rw [hphase] at hframes
    refine ⟨_, h.turn (ledger.handed ++ [frame]) rfl rfl rfl (hunfinished hphase (by simp) _)
      (Network.forall_queue_push h.typed rfl) (fun parcel => ?_) (fun channel hclosed hempty => ?_)
      ⟨?_, hreads.stopping, hreads.sourceEnd, hreads.ratio, hreads.recent, nofun⟩⟩
    · -- the frame is handed on by being put into the queue
      have hcount := count_push network (.packet frame) parcel
      show _ = _ + ((network.push (.packet frame)).queue parcel.channel).count parcel
      rw [hcount, List.map_append, List.count_append]
      show _ + [Parcel.packet frame].count parcel + _ = _
      omega
    · have hne : channel ≠ (Parcel.packet frame).channel := by
        rintro rfl
        have hfinished := ((isClosed_iff ..).mp hclosed).1 rfl
        rw [hphase] at hfinished
        cases hfinished
      show (network.push (.packet frame)).queue channel = []
      rw [Network.queue_push, if_neg hne]
      exact hempty
    · rw [hframes]
      simp [Reader.held, Network.push]

/-! ## Changes of the hand-out -/

/-- What the hand-out does keeps the ledger. -/
theorem dispatch (h : ledger.Keeps plan frames network) (hstep : network.dispatch? = some after) :
    ∃ ledger : Ledger, ledger.Keeps plan frames after := by
  cases Network.dispatching (h.typed .results) hstep with
  | goesOn result hresult =>
    obtain ⟨hserves, _, hclosing⟩ := h.serves.handOut (Sink.FanOut.handingOut hresult)
    refine ⟨ledger, h.planned, h.stations, h.origins, h.runs, h.typed, h.balance, h.ended,
      ⟨h.reads.frames, h.reads.stopping, h.reads.sourceEnd, h.reads.ratio, h.reads.recent,
        h.reads.finished⟩, hserves, fun htrue => h.closing ?_⟩
    rw [← hclosing]
    exact htrue
  | takes observation rest hhand hopen hqueue =>
    refine ⟨{ ledger with given := ledger.given ++ [observation] }, h.planned, h.stations,
      h.origins, h.runs, Network.forall_queue_setQueue h.typed hqueue, fun parcel => ?_,
      fun track htrack hended => ?_,
      ⟨h.reads.frames, h.reads.stopping, h.reads.sourceEnd, h.reads.ratio, h.reads.recent,
        h.reads.finished⟩, h.serves.take hhand hopen observation, fun hclosing => ?_⟩
    · -- the result has left the queue and counts as given
      have hcount := h.count_setQueue hqueue parcel
      have hbefore := h.balance parcel
      show _ = _ + ((network.setQueue .results rest).queue parcel.channel).count parcel +
        ((ledger.given ++ [observation]).map Parcel.result).count parcel
      rw [List.map_append, List.count_append]
      show _ = _ + _ + (_ + [Parcel.result observation].count parcel)
      dsimp only
      omega
    · obtain ⟨hclosed, hempty⟩ := h.ended track htrack hended
      exact ⟨hclosed, queue_setQueue_of_empty hqueue hempty⟩
    · rw [show network.fanOut.closing = true from hclosing] at hopen
      cases hopen
  | closes hhand _ hqueue hclosed =>
    exact ⟨ledger, h.planned, h.stations, h.origins, h.runs, h.typed, h.balance, h.ended,
      ⟨h.reads.frames, h.reads.stopping, h.reads.sourceEnd, h.reads.ratio, h.reads.recent,
        h.reads.finished⟩, h.serves.close hhand, fun _ => ⟨hclosed, hqueue⟩⟩

/-- What a sink does keeps the ledger. -/
theorem write (h : ledger.Keeps plan frames network) {index : Nat}
    (hstep : network.write? index = some after) : ledger.Keeps plan frames after := by
  obtain ⟨result, hresult, rfl⟩ := Option.map_eq_some_iff.mp hstep
  obtain ⟨hserves, _, _, hclosing, _⟩ := h.serves.write hresult
  refine ⟨h.planned, h.stations, h.origins, h.runs, h.typed, h.balance, h.ended,
    ⟨h.reads.frames, h.reads.stopping, h.reads.sourceEnd, h.reads.ratio, h.reads.recent,
      h.reads.finished⟩, hserves, fun htrue => h.closing ?_⟩
  rw [← hclosing]
  exact htrue

/-! ## All changes -/

/-- A tick that finds no idle state keeps the ledger. -/
theorem tick (h : ledger.Keeps plan frames network) {index : Nat} {station : Station}
    (hstation : network.stations[index]? = some station) (nextTick : Instant) :
    ∃ ledger : Ledger,
      ledger.Keeps plan frames (network.setStation index { station with nextTick }) := by
  obtain ⟨track, htrack, rfl⟩ := h.track_of_station hstation
  have hmem := List.mem_of_getElem? htrack
  have hruns := h.runs track hmem
  exact ⟨_, h.act htrack { track with station := { track.station with nextTick } } network.queues
    network.metrics rfl ⟨hruns.role, hruns.outbox, hruns.intake, hruns.finished⟩
    (fun hphase => hphase) h.typed (fun _ => rfl) (fun _ _ hempty => hempty) (h.ended track hmem)⟩

/-- Whatever happens in a run that nothing disturbs, there is a ledger of it. -/
theorem next (h : ledger.Keeps plan frames network) (hvalid : plan.settings.validate = .ok ())
    (hnext : Network.Undisturbed network after) :
    ∃ ledger : Ledger, ledger.Keeps plan frames after := by
  cases hnext with
  | clock duration =>
    exact ⟨ledger, h.planned, h.stations, h.origins, h.runs, h.typed, h.balance, h.ended,
      ⟨h.reads.frames, h.reads.stopping, h.reads.sourceEnd, h.reads.ratio, h.reads.recent,
        h.reads.finished⟩, h.serves, h.closing⟩
  | tick hstation hidle htick =>
    obtain ⟨nextTick, rfl⟩ := Network.tick_spec hstation hidle htick
    exact h.tick hstation nextTick
  | step hstep =>
    obtain ⟨move, hmove, hfire⟩ := hstep
    cases move with
    | read => exact h.read hvalid hfire
    | work index =>
      obtain ⟨station, hstation, hworking⟩ := Network.working hfire
      exact h.work (shards_pos hvalid) hstation hworking
    | tick index => exact absurd rfl (hmove index)
    | dispatch => exact h.dispatch hfire
    | write index => exact ⟨ledger, h.write hfire⟩

/-- Whatever happens, the sinks are those that were registered. -/
theorem sinks_next (h : ledger.Keeps plan frames network) (hvalid : plan.settings.validate = .ok ())
    (hnext : Network.Undisturbed network after) : after.fanOut.sinks = network.fanOut.sinks := by
  cases hnext with
  | clock duration => rfl
  | tick hstation hidle htick =>
    obtain ⟨nextTick, rfl⟩ := Network.tick_spec hstation hidle htick
    rfl
  | step hstep =>
    obtain ⟨move, hmove, hfire⟩ := hstep
    cases move with
    | read =>
      cases Network.reading h.reads.stopping h.reads.sourceEnd (h.takesPackets hvalid) hfire with
      | takes arrival rest =>
        obtain ⟨metrics, heq⟩ := h.readFrame_spec arrival rest
        rw [heq]
      | waits => rfl
      | ends => rfl
      | queues => rfl
    | work index =>
      obtain ⟨station, _, hworking⟩ := Network.working hfire
      cases hworking <;> rfl
    | tick index => exact absurd rfl (hmove index)
    | dispatch =>
      cases Network.dispatching (h.typed .results) hfire with
      | goesOn result hstep =>
        exact Sink.FanOut.sinks_of_handingOut (Sink.FanOut.handingOut hstep)
      | takes => rfl
      | closes => rfl
    | write index =>
      obtain ⟨result, hresult, rfl⟩ := Option.map_eq_some_iff.mp hfire
      exact Sink.FanOut.sinks_of_writing (Sink.FanOut.writing hresult)

end Ledger.Keeps

/-! ## The start -/

/-- The network at the start of a run over frames that are all there. -/
def Network.ofFrames (plan : Plan) (sinks : List Sink) (arrivals : List Arrival) (now : Instant) :
    Network :=
  ((Network.ofPlan plan (.ofSinks plan.settings.sinkQueue sinks) now).feed arrivals).endSource
    .exhausted

/-- At the start a station is the one of the role at its place. -/
theorem role_of_getElem? {plan : Plan} {sinks : List Sink} {arrivals : List Arrival}
    {now : Instant} {index : Nat} {station : Station}
    (h : (Network.ofFrames plan sinks arrivals now).stations[index]? = some station) :
    ∃ role, (rolesOf plan)[index]? = some role ∧ station = .ofRole role plan.gcInterval := by
  have hmap : ((rolesOf plan).map fun role => Station.ofRole role plan.gcInterval)[index]? =
      some station := h
  rw [List.getElem?_map] at hmap
  obtain ⟨role, hrole, heq⟩ := Option.map_eq_some_iff.mp hmap
  exact ⟨role, hrole, heq.symm⟩

theorem role_of_mem {plan : Plan} {sinks : List Sink} {arrivals : List Arrival} {now : Instant}
    {station : Station} (h : station ∈ (Network.ofFrames plan sinks arrivals now).stations) :
    ∃ role, station = .ofRole role plan.gcInterval := by
  obtain ⟨index, hindex⟩ := List.getElem?_of_mem h
  obtain ⟨role, _, heq⟩ := role_of_getElem? hindex
  exact ⟨role, heq⟩

/-- At the start nothing was handed on. -/
theorem keeps_ofFrames {plan : Plan} (hvalid : plan.settings.validate = .ok ())
    (hratio : plan.settings.ratio.isPassthrough = true) (hdedup : plan.settings.dedup = false)
    {sinks : List Sink} (hlasting : ∀ sink ∈ sinks, ∀ n, sink.reply n ≠ .broken)
    (arrivals : List Arrival) (now : Instant) :
    Ledger.Keeps plan (arrivals.map Arrival.frame)
      ⟨[], (rolesOf plan).map fun role => ⟨role, [], .ofRole role plan.gcInterval⟩, []⟩
      (Network.ofFrames plan sinks arrivals now) := by
  have hroom : 0 < plan.settings.sinkQueue :=
    positive_of_validate hvalid ("sink_channel_size", _) (by simp [Settings.positive])
  obtain ⟨hserves, hopen, _⟩ := Sink.FanOut.serves_ofSinks hroom hlasting
  refine ⟨rfl, ?_, ?_, ?_, ?_, fun parcel => ?_, ?_, ⟨?_, rfl, rfl, hratio, ?_, ?_⟩, hserves,
    fun hclosing => ?_⟩
  · show Station.ofPlan plan = _
    rw [ofPlan_eq, List.map_map]
    rfl
  · rw [List.map_map]
    exact List.map_id _
  · intro track htrack
    obtain ⟨role, _, rfl⟩ := List.mem_map.mp htrack
    exact ⟨rfl, List.suffix_refl _, fun _ h => absurd h List.not_mem_nil, fun _ => rfl⟩
  · exact fun _ _ h => absurd h List.not_mem_nil
  · rw [List.map_map, List.map_map]
    show 0 + ((rolesOf plan).map fun _ => 0).sum = ((rolesOf plan).map fun _ => 0).sum + 0 + 0
    omega
  · intro track htrack hphase
    obtain ⟨role, _, rfl⟩ := List.mem_map.mp htrack
    exact absurd rfl hphase
  · show _ = [] ++ [] ++ ([] ++ arrivals).map Arrival.frame
    rfl
  · show (if plan.settings.dedup then _ else none) = none
    rw [hdedup, if_neg Bool.false_ne_true]
  · intro hfinished
    cases hfinished
  · rw [show (Sink.FanOut.ofSinks plan.settings.sinkQueue sinks).closing = true from hclosing]
      at hopen
    cases hopen

/-- All that a run comes to that nothing disturbs has a ledger. -/
theorem exists_ledger {plan : Plan} (hvalid : plan.settings.validate = .ok ()) {start : Network}
    {frames : List Frame} {ledger : Ledger} (hstart : ledger.Keeps plan frames start)
    (h : start.Reaches network) : ∃ ledger : Ledger, ledger.Keeps plan frames network := by
  induction h with
  | refl => exact ⟨ledger, hstart⟩
  | next _ hnext ih =>
    obtain ⟨_, hkeeps⟩ := ih
    exact hkeeps.next hvalid hnext

theorem sinks_of_reaches {plan : Plan} (hvalid : plan.settings.validate = .ok ()) {start : Network}
    {frames : List Frame} {ledger : Ledger} (hstart : ledger.Keeps plan frames start)
    (h : start.Reaches network) : network.fanOut.sinks = start.fanOut.sinks := by
  induction h with
  | refl => rfl
  | next hbefore hnext ih =>
    obtain ⟨_, hkeeps⟩ := exists_ledger hvalid hstart hbefore
    exact (hkeeps.sinks_next hvalid hnext).trans ih

end PassiveDns.Pipeline
