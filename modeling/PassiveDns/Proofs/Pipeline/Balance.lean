/-
  PassiveDns.Proofs.Pipeline.Balance

  Every packet of a run is accounted for exactly once. The laws of the network say how what is
  counted at one place is in balance with what is sent from another; in a run that has ended
  nothing is under way any more, so they hold of what was counted and sent (`Accounted`).
-/
import PassiveDns.Pipeline.Run
import PassiveDns.Proofs.HandOut
import PassiveDns.Proofs.Pipeline.Delivery
import PassiveDns.Proofs.Pipeline.Laws

namespace PassiveDns.Pipeline

open PassiveDns.Sink (FanOut)

variable {plan : Plan} {network after : Network} {log notes : List Note}

/-! ## What the reader lets in -/

/-- The packets that are let in, of those that come one after another. -/
def admits : Admission → List Arrival → List Frame
  | _, [] => []
  | admission, arrival :: rest =>
    match admission.check arrival.frame.octets arrival.time with
    | (.accepted, after) => arrival.frame :: admits after rest
    | (_, after) => admits after rest

/-- The packets that a run lets in. -/
def Plan.admitted (plan : Plan) (now : Instant) (arrivals : List Arrival) : List Frame :=
  admits (.ofSettings plan.settings now) arrivals

/-- The reader lets in what it should, and counts what it reads. -/
structure Admits (frames : List Frame) (total : Nat) (log : List Note) (network : Network) :
    Prop where
  packets : packetsIn log ++ network.reader.held ++
    admits network.reader.admission network.source = frames
  accepted : (packetsIn log).length + network.reader.held.length = network.reader.accepted
  read : network.reader.read + network.source.length = total
  decided : network.reader.accepted + network.reader.skipped + network.reader.duplicates =
    network.reader.read
  failure : network.reader.failure = none

theorem packetsIn_append (log more : List Note) :
    packetsIn (log ++ more) = packetsIn log ++ packetsIn more := by
  unfold packetsIn
  rw [sentIn_append, List.filterMap_append]

theorem packetsIn_notesOf (tally : List (Series × Nat)) : packetsIn (notesOf tally) = [] := by
  unfold packetsIn
  rw [sentIn_notesOf]
  rfl

namespace Admits

variable {frames : List Frame} {total : Nat} {given : List Observation}

/-- The reader is not concerned. -/
theorem rest (h : Admits frames total log network) (hreader : after.reader = network.reader)
    (hsource : after.source = network.source) (hnone : packetsIn notes = []) :
    Admits frames total (log ++ notes) after := by
  refine ⟨?_, ?_, ?_, ?_, ?_⟩
  · rw [packetsIn_append, hnone, List.append_nil, hreader, hsource]
    exact h.packets
  · rw [packetsIn_append, hnone, List.append_nil, hreader]
    exact h.accepted
  · rw [hreader, hsource]
    exact h.read
  · rw [hreader]
    exact h.decided
  · rw [hreader]
    exact h.failure

/-- The reader takes a packet, and lets it in or not. -/
theorem takes (h : Admits frames total log network) {arrival : Arrival} {rest : List Arrival}
    (hheld : network.reader.held = []) (hsource : network.source = arrival :: rest)
    (metrics : Metrics) (hnone : packetsIn notes = []) :
    Admits frames total (log ++ notes) { network with
      source := rest
      reader := (network.reader.take arrival.frame arrival.time).2
      metrics } := by
  obtain ⟨hpackets, haccepted, hread, hdecided, hfailure⟩ := h
  rw [hsource] at hpackets hread
  rw [hheld, List.append_nil] at hpackets
  rw [hheld] at haccepted
  rw [List.length_cons] at hread
  rw [List.length_nil] at haccepted
  unfold admits at hpackets
  have hlog : packetsIn (log ++ notes) = packetsIn log := by
    rw [packetsIn_append, hnone, List.append_nil]
  have htotal : network.reader.read + 1 + rest.length = total := by omega
  obtain ⟨decision, admission, hcheck, htaking⟩ :=
    network.reader.taking arrival.frame arrival.time
  rw [hcheck] at hpackets
  generalize network.reader.take arrival.frame arrival.time = result at htaking ⊢
  cases htaking with
  | accepted =>
    refine ⟨?_, ?_, htotal, ?_, hfailure⟩
    · rw [hlog, ← hpackets, List.append_assoc]
      rfl
    · rw [hlog]
      exact congrArg (· + 1) haccepted
    · dsimp only
      omega
  | skipped =>
    refine ⟨?_, ?_, htotal, ?_, hfailure⟩
    · rw [hlog, ← hpackets, List.append_assoc]
      rfl
    · rw [hlog]
      exact haccepted
    · dsimp only
      omega
  | duplicate =>
    refine ⟨?_, ?_, htotal, ?_, hfailure⟩
    · rw [hlog, ← hpackets, List.append_assoc]
      rfl
    · rw [hlog]
      exact haccepted
    · dsimp only
      omega

theorem step (h : Admits frames total log network) (hwired : Wired plan given network)
    (hdoing : network.Doing notes after) : Admits frames total (log ++ notes) after := by
  have hheld (hphase : ∀ frame, network.reader.phase ≠ .holding frame) :
      network.reader.held = [] := by
    unfold Reader.held
    split
    · rename_i frame heq
      exact absurd heq (hphase frame)
    · rfl
  cases hdoing with
  | waits hphase =>
    obtain ⟨hpackets, haccepted, hread, hdecided, hfailure⟩ := h
    rw [hheld (by rw [hphase]; simp)] at hpackets haccepted
    rw [List.append_nil]
    exact ⟨hpackets, haccepted, hread, hdecided, hfailure⟩
  | takes arrival rest hphase hsource =>
    obtain ⟨metrics, heq⟩ := Network.readFrame_eq network arrival rest
    rw [heq]
    exact h.takes (hheld (by rw [hphase]; simp)) hsource metrics (packetsIn_notesOf _)
  | ends hphase hsource =>
    obtain ⟨hpackets, haccepted, hread, hdecided, _⟩ := h
    rw [hheld (by rw [hphase]; simp)] at hpackets haccepted
    rw [List.append_nil]
    exact ⟨hpackets, haccepted, hread, hdecided, rfl⟩
  | queues frame hphase hroom =>
    -- the packet in hand is the last that was handed on
    obtain ⟨hpackets, haccepted, hread, hdecided, hfailure⟩ := h
    have hholds : network.reader.held = [frame] := by
      unfold Reader.held
      rw [hphase]
    rw [hholds] at hpackets haccepted
    refine ⟨?_, ?_, hread, hdecided, hfailure⟩
    · rw [packetsIn_append, ← hpackets]
      show packetsIn log ++ [frame] ++ [] ++ _ = _
      rw [List.append_nil]
      rfl
    · rw [packetsIn_append, List.length_append]
      exact haccepted
  | sends index station parcel rest hstation houtbox hroom =>
    -- what a station sends is no packet
    refine h.rest rfl rfl ?_
    have hfeeds := ((hwired.fits station (List.mem_of_getElem? hstation)).sends parcel (by
      rw [houtbox, sendsOf_send]
      exact List.mem_cons_self ..)).1
    have hbehind := Role.rank_lt_of_feeds hfeeds
    cases parcel with
    | packet frame => exact absurd hbehind (Nat.not_lt_zero _)
    | _ => rfl
  | serves result hstep => exact h.rest rfl rfl (packetsIn_notesOf _)
  | writes index result hstep => exact h.rest rfl rfl (packetsIn_notesOf _)
  | _ => exact h.rest rfl rfl rfl

end Admits

/-! ## Runs -/

/-- What holds of a run with its history. -/
structure Recorded (plan : Plan) (sinks : List Sink) (frames : List Frame) (total : Nat)
    (log : List Note) (network : Network) : Prop where
  wired : Wired plan (givenIn log) network
  balanced : ∀ law : Law, law.Holds plan → law.Balanced log network
  flows : Flows log network
  metered : Metered log network
  reader : Admits frames total log network
  counts : network.fanOut.Counts (givenIn log)
  sinks : network.fanOut.sinks = sinks.filter Sink.usable

variable {sinks : List Sink} {frames : List Frame} {total : Nat}

theorem pending_of_empty (h : ∀ station ∈ network.stations, station.outbox = [])
    (worth : Errand → Nat) : network.pending worth = 0 := by
  unfold Network.pending
  rw [List.map_congr_left fun station hstation => by rw [h station hstation, worthOf_nil],
    List.map_const', List.sum_replicate_nat, Nat.mul_zero]

/-- The hand-out counts what it was given, and keeps to its sinks. -/
theorem Wired.handsOut {given : List Observation} (h : Wired plan given network)
    (hdoing : network.Doing notes after) (hcounts : network.fanOut.Counts (givenIn log)) :
    after.fanOut.Counts (givenIn (log ++ notes)) ∧ after.fanOut.sinks = network.fanOut.sinks := by
  rw [givenIn_append]
  have hsame {fanOut : FanOut} {more : List Note} (hkept : fanOut.Counts (givenIn log))
      (hnone : givenIn more = []) : fanOut.Counts (givenIn log ++ givenIn more) := by
    rw [hnone, List.append_nil]
    exact hkept
  cases hdoing with
  | takes arrival rest hphase hsource =>
    obtain ⟨metrics, heq⟩ := Network.readFrame_eq network arrival rest
    rw [heq]
    exact ⟨hsame hcounts (givenIn_notesOf _), rfl⟩
  | receives index station parcel rest hstation houtbox hphase hqueue =>
    exact ⟨hsame hcounts (h.givenIn_received hqueue), rfl⟩
  | serves result hstep =>
    have hserves := FanOut.handingOut hstep
    exact ⟨hsame (hcounts.handOut hserves) (givenIn_notesOf _), FanOut.sinks_of_handingOut hserves⟩
  | gives observation rest hhand hopen hqueue => exact ⟨hcounts.take hhand observation, rfl⟩
  | writes index result hstep =>
    have hwrites := FanOut.writing hstep
    exact ⟨hsame (hcounts.write hwrites) (givenIn_notesOf _), FanOut.sinks_of_writing hwrites⟩
  | _ => exact ⟨hsame hcounts rfl, rfl⟩

/-- A run begins with an empty history. -/
theorem recorded_ofFrames (hsized : plan.Sized) (sinks : List Sink) (arrivals : List Arrival)
    (now : Instant) :
    Recorded plan sinks (plan.admitted now arrivals) arrivals.length []
      (Network.ofFrames plan sinks arrivals now) := by
  have hfanOut : (Network.ofFrames plan sinks arrivals now).fanOut =
      .ofSinks plan.settings.sinkQueue sinks := rfl
  have hhand : (Network.ofFrames plan sinks arrivals now).fanOut.hand = none := by
    rw [hfanOut, FanOut.outlets_ofSinks]
  have houtboxes : ∀ station ∈ (Network.ofFrames plan sinks arrivals now).stations,
      station.outbox = [] := fun station hstation => by
    obtain ⟨role, rfl⟩ := role_of_mem hstation
    rfl
  refine ⟨wired_ofFrames hsized sinks arrivals now, fun law _ => ?_, fun _ => rfl,
    fun series _ => ?_, ⟨rfl, rfl, Nat.zero_add _, rfl, rfl⟩, ?_, ?_⟩
  · unfold Law.Balanced
    rw [pending_of_empty houtboxes, pending_of_empty houtboxes, Law.inHand_of_none hhand]
    rfl
  · exact Metrics.value_empty series
  · unfold FanOut.Counts
    rw [hhand, hfanOut, FanOut.outlets_ofSinks]
    rfl
  · rw [hfanOut]
    exact FanOut.sinks_ofSinks ..

namespace Recorded

/-- Whatever happens is recorded. -/
theorem goes (h : Recorded plan sinks frames total log network) (hsized : plan.Sized)
    (hgoes : network.Goes notes after) : Recorded plan sinks frames total (log ++ notes) after := by
  have hdoing := h.wired.doing hsized hgoes
  obtain ⟨hcounts, hsinks⟩ := h.wired.handsOut hdoing h.counts
  refine ⟨?_, fun law holds => (h.balanced law holds).step holds h.wired hdoing,
    h.flows.step h.wired hdoing, h.metered.step hdoing, h.reader.step h.wired hdoing, hcounts,
    hsinks.trans h.sinks⟩
  rw [givenIn_append]
  exact (h.wired.step hsized hdoing).1

theorem logged (hsized : plan.Sized) {arrivals : List Arrival} {now : Instant}
    (h : (Network.ofFrames plan sinks arrivals now).Logged log network) :
    Recorded plan sinks (plan.admitted now arrivals) arrivals.length log network := by
  induction h with
  | refl => exact recorded_ofFrames hsized sinks arrivals now
  | next _ hgoes ih => exact ih.goes hsized hgoes

/-- Once nothing is left the laws hold of all that was counted and sent. -/
theorem balance (h : Recorded plan sinks frames total log network) (hrest : network.AtRest)
    {law : Law} (holds : law.Holds plan) :
    worthIn law.left log = worthIn law.right log + (sentIn log).countP law.answer := by
  -- nothing is due, nothing in hand, and what was received is what was sent
  have hbalanced := h.balanced law holds
  unfold Law.Balanced Law.answered at hbalanced
  rw [pending_of_empty hrest.outboxes, pending_of_empty hrest.outboxes,
    Law.inHand_of_none hrest.hand,
    ← (h.flows.perm_of_empty hrest.queues).countP_eq law.answer] at hbalanced
  exact hbalanced

end Recorded

/-! ## The account of a run that has ended -/

/-- All that a run took in is accounted for: the packets that were read, the fate of each that
    was let in, the fragments of either version, what was handed on over either transport, the
    payloads and messages, and what each sink that did not break did with the observations. -/
structure Accounted (plan : Plan) (sinks : List Sink) (frames : List Frame) (total : Nat)
    (log : List Note) (report : Report) : Prop where
  read : report.read = total
  decided : report.accepted + report.skipped + report.duplicates = report.read
  accepted : report.accepted = frames.length
  packets : packetsIn log = frames
  fragment : countedIn log (.packets "fragment") =
    frames.countP fun frame => (plan.fateOf frame).isFragment
  ignored : countedIn log (.packets "ignored") =
    frames.countP fun frame => plan.fateOf frame = .ignored
  unreadable : countedIn log (.decodeErrors "raw") =
    frames.countP fun frame => plan.fateOf frame = .unreadable
  forwarded : ∀ transport, countedIn log (Fate.forwarded transport).series =
    (frames.countP fun frame => plan.fateOf frame = .forwarded transport) +
      (datagramsIn log).countP fun datagram => plan.fateAgain datagram = .forwarded transport
  each : countedIn log (.packets "fragment") + countedIn log (.packets "ignored") +
    countedIn log (.decodeErrors "raw") +
    (frames.countP fun frame => (plan.fateOf frame).isForwarded) = report.accepted
  transports : countedIn log (.packets "udp") + countedIn log (.packets "tcp") =
    (frames.countP fun frame => (plan.fateOf frame).isForwarded) +
      (datagramsIn log).countP fun datagram => (plan.fateAgain datagram).isForwarded
  sentFragments : ∀ version, (ofChannel (.fragments version) (sentIn log)).length =
    frames.countP fun frame => plan.fateOf frame = .fragment version
  fragments : ∀ version, (ofChannel (.fragments version) (sentIn log)).length =
    countedIn log (.fragments version "buffered") +
      countedIn log (.fragments version "reassembled") +
      countedIn log (.fragments version "hole") + countedIn log (.fragments version "rejected")
  datagrams : (datagramsIn log).length = countedIn log (.fragments .v4 "reassembled") +
    countedIn log (.fragments .v6 "reassembled")
  observations : countedIn log .results + countedIn log .parseErrors =
    countedIn log (.packets "udp") + (ofChannel .messages (sentIn log)).length
  dispatched : report.dispatched = countedIn log .results
  reports : report.sinks = ((sinks.filter Sink.usable).filter fun sink =>
    sink.lasts report.dispatched).map fun sink => sink.reportAfter report.dispatched
  sinks : ∀ entry ∈ report.sinks, entry.written + entry.failed = report.dispatched

namespace Recorded

variable (h : Recorded plan sinks frames total log network) (hrest : network.AtRest)
include h hrest

theorem packets : packetsIn log = frames := by
  have hpackets := h.reader.packets
  rw [hrest.held, hrest.source, List.append_nil] at hpackets
  unfold admits at hpackets
  rwa [List.append_nil] at hpackets

/-- What becomes of the packets, and of the datagrams. -/
theorem counted (fate : Fate) : countedIn log fate.series =
    (frames.countP fun frame => (plan.fateOf frame).series = fate.series) +
      (datagramsIn log).countP fun datagram =>
        (plan.fateAgain datagram).isForwarded && (plan.fateAgain datagram).series =
          fate.series := by
  have hbalance := h.balance hrest (Law.holds_ofFate plan fate)
  unfold Law.ofFate at hbalance
  dsimp only at hbalance
  rw [worthIn_zero, Nat.zero_add, countP_meets] at hbalance
  rw [← h.packets hrest]
  exact hbalance

/-- What is not handed on ends with its packet. -/
theorem counted_packets {fate : Fate} (hfate : fate.isForwarded = false) :
    countedIn log fate.series =
      frames.countP fun frame => (plan.fateOf frame).series = fate.series := by
  rw [h.counted hrest fate]
  -- a datagram is counted in such a series only if it is handed on
  refine Nat.add_eq_left.mpr (List.countP_eq_zero.mpr fun datagram _ hboth => ?_)
  obtain ⟨hforwarded, hseries⟩ := Bool.and_eq_true_iff.mp hboth
  rw [Fate.isForwarded_of_series_eq (of_decide_eq_true hseries), hfate] at hforwarded
  cases hforwarded

theorem counted_forwarded (transport : Transport) :
    countedIn log (Fate.forwarded transport).series =
      (frames.countP fun frame => plan.fateOf frame = .forwarded transport) +
        (datagramsIn log).countP fun datagram =>
          plan.fateAgain datagram = .forwarded transport := by
  have hseries (fate : Fate) : fate.series = (Fate.forwarded transport).series ↔
      fate = .forwarded transport := Fate.series_eq_iff rfl
  rw [h.counted hrest]
  congr 1
  · simp only [hseries]
  · refine List.countP_congr fun datagram _ => ?_
    simp only [hseries, Bool.and_eq_true, decide_eq_true_iff]
    exact ⟨And.right, fun heq => ⟨by rw [heq]; rfl, heq⟩⟩

theorem sentFragments (version : IpVersion) :
    (ofChannel (.fragments version) (sentIn log)).length =
      frames.countP fun frame => plan.fateOf frame = .fragment version := by
  have hbalance := h.balance hrest (Law.holds_ofSentFragments plan version)
  unfold Law.ofSentFragments at hbalance
  dsimp only at hbalance
  rw [worthIn_zero, worthIn_sends, countP_meets, List.countP_false] at hbalance
  rw [← h.packets hrest, hbalance, Nat.zero_add]
  rfl

theorem fragments (version : IpVersion) :
    (ofChannel (.fragments version) (sentIn log)).length =
      countedIn log (.fragments version "buffered") +
        countedIn log (.fragments version "reassembled") +
        countedIn log (.fragments version "hole") +
        countedIn log (.fragments version "rejected") := by
  have hbalance := h.balance hrest (Law.holds_ofFragments plan version)
  unfold Law.ofFragments at hbalance
  dsimp only at hbalance
  rw [worthIn_add, worthIn_add, worthIn_add, worthIn_zero, Nat.zero_add,
    List.countP_eq_length_filter] at hbalance
  exact hbalance.symm

theorem datagrams : (datagramsIn log).length = countedIn log (.fragments .v4 "reassembled") +
    countedIn log (.fragments .v6 "reassembled") := by
  have hbalance := h.balance hrest (Law.holds_ofDatagrams plan)
  unfold Law.ofDatagrams at hbalance
  dsimp only at hbalance
  rw [worthIn_sends, worthIn_add, List.countP_false] at hbalance
  rw [← length_datagramsIn]
  exact hbalance

/-- The results that were counted are those that were sent. -/
theorem results : countedIn log .results = (ofChannel .results (sentIn log)).length := by
  have hbalance := h.balance hrest (Law.holds_ofResults plan)
  unfold Law.ofResults at hbalance
  dsimp only at hbalance
  rw [worthIn_zero, Nat.zero_add, List.countP_eq_length_filter] at hbalance
  exact hbalance

theorem observations : countedIn log .results + countedIn log .parseErrors =
    countedIn log (.packets "udp") + (ofChannel .messages (sentIn log)).length := by
  have hbalance := h.balance hrest (Law.holds_ofObservations plan)
  unfold Law.ofObservations at hbalance
  dsimp only at hbalance
  rw [worthIn_add, worthIn_sends, List.countP_eq_length_filter, ← h.results hrest] at hbalance
  exact hbalance

theorem dispatched : network.fanOut.dispatched = countedIn log .results := by
  rw [h.counts.of_none hrest.hand, h.results hrest]
  unfold givenIn ofChannel
  rw [List.length_filterMap_eq_countP, ← List.countP_eq_length_filter,
    (h.flows.perm_of_empty hrest.queues).countP_eq]
  refine List.countP_congr fun parcel _ => ?_
  cases parcel <;> simp [Parcel.observation?, Parcel.channel]

/-- What the sinks have done that did not break. -/
theorem reports : network.fanOut.reports = ((sinks.filter Sink.usable).filter fun sink =>
    sink.lasts network.fanOut.dispatched).map fun sink =>
      sink.reportAfter network.fanOut.dispatched := by
  have hfinished : network.fanOut.isFinished = true := by
    have hall := hrest.finished
    unfold Network.isFinished at hall
    exact (Bool.and_eq_true_iff.mp hall).2
  rw [h.wired.meets.reports hfinished, h.sinks, h.counts.of_none hrest.hand]

theorem fragment : countedIn log (.packets "fragment") =
    frames.countP fun frame => (plan.fateOf frame).isFragment := by
  have hcounted := h.counted_packets hrest (show (Fate.fragment .v4).isForwarded = false from rfl)
  rw [Fate.series_fragment] at hcounted
  rw [hcounted]
  simp only [Fate.series_eq_fragment_iff, Bool.decide_eq_true]

theorem accounted : Accounted plan sinks frames total log (Run.reportOf network true) := by
  obtain ⟨_, haccepted, hread, hdecided, _⟩ := h.reader
  rw [hrest.held, h.packets hrest] at haccepted
  rw [hrest.source] at hread
  have hone {fate : Fate} (hforwarded : fate.isForwarded = false)
      (hfragment : fate.isFragment = false) :
      countedIn log fate.series = frames.countP fun frame => plan.fateOf frame = fate := by
    rw [h.counted_packets hrest hforwarded]
    simp only [Fate.series_eq_iff hfragment]
  have hignored := hone (show Fate.ignored.isForwarded = false from rfl) rfl
  have hunreadable := hone (show Fate.unreadable.isForwarded = false from rfl) rfl
  refine
    { read := hread
      decided := hdecided
      accepted := haccepted.symm
      packets := h.packets hrest
      fragment := h.fragment hrest
      ignored := hignored
      unreadable := hunreadable
      forwarded := h.counted_forwarded hrest
      each := ?_
      transports := ?_
      sentFragments := h.sentFragments hrest
      fragments := h.fragments hrest
      datagrams := h.datagrams hrest
      observations := h.observations hrest
      dispatched := h.dispatched hrest
      reports := h.reports hrest
      sinks := fun entry hentry => ?_ }
  · show _ = network.reader.accepted
    rw [h.fragment hrest, show countedIn log (.packets "ignored") = _ from hignored,
      show countedIn log (.decodeErrors "raw") = _ from hunreadable,
      Fate.countP_each plan.fateOf frames]
    exact haccepted
  · have hudp := h.counted_forwarded hrest .udp
    have htcp := h.counted_forwarded hrest .tcp
    rw [Fate.series_udp] at hudp
    rw [Fate.series_tcp] at htcp
    rw [hudp, htcp, Fate.countP_isForwarded plan.fateOf, Fate.countP_isForwarded plan.fateAgain]
    exact Nat.add_add_add_comm ..
  · have hreports : entry ∈ network.fanOut.reports := hentry
    rw [h.reports hrest] at hreports
    obtain ⟨sink, hsink, rfl⟩ := List.mem_map.mp hreports
    exact Sink.written_add_failed (List.mem_filter.mp hsink).2

end Recorded

/-- A run over any packets, with valid settings and any sinks, that has ended: in whatever order
    all took their turns, the report accounts for all that was taken in, together with what was
    counted and sent on the way; and the series show what was counted. -/
theorem accounted_once (hvalid : plan.settings.validate = .ok ()) (sinks : List Sink)
    (arrivals : List Arrival) (now : Instant) {log : List Note}
    (h : (Network.ofFrames plan sinks arrivals now).Logged log network)
    (hfinished : network.isFinished = true) :
    ∃ report, Run.outcomeOf network true = .ok report ∧
      Accounted plan sinks (plan.admitted now arrivals) arrivals.length log report ∧
      ∀ series, series.family ≠ .source → network.metrics.Shows series (countedIn log series) := by
  have hsized := sized_of_validate hvalid
  have hrecorded := Recorded.logged hsized h
  have hrest := hrecorded.wired.atRest hsized hfinished
  refine ⟨Run.reportOf network true, ?_, hrecorded.accounted hrest, hrecorded.metered⟩
  unfold Run.outcomeOf
  rw [hrecorded.reader.failure]

/-! ### A message over UDP, one in fragments, and one over TCP -/

namespace Mixed

/-- Of the eight packets two are fragments and one cannot be read; the others are handed on. -/
theorem accounted_once_mixed : narrowPlan.settings.validate = .ok () ∧ ∃ log network report,
    (Network.ofFrames narrowPlan [sink] arrivals 0).Logged log network ∧
      network.isFinished = true ∧ Run.outcomeOf network true = .ok report ∧
      report.read = 8 ∧ report.accepted = 8 ∧ countedIn log (.packets "fragment") = 2 ∧
      countedIn log (.packets "ignored") = 0 ∧ countedIn log (.decodeErrors "raw") = 1 := by
  have hlasting : ∀ other ∈ [sink], ∀ n, other.reply n ≠ .broken := by simp [sink]
  obtain ⟨network, hreaches, hfinished⟩ := exists_finished arrivals 0 valid rfl rfl hlasting
  obtain ⟨log, hlogged⟩ := hreaches.exists_log
  obtain ⟨report, hreport, haccounted, _⟩ :=
    accounted_once valid [sink] arrivals 0 hlogged hfinished
  have haccepted : report.accepted = 8 := by
    rw [haccounted.accepted]
    decide
  refine ⟨valid, log, network, report, hlogged, hfinished, hreport, haccounted.read, haccepted,
    ?_, ?_, ?_⟩
  · rw [haccounted.fragment]
    decide
  · rw [haccounted.ignored]
    decide
  · rw [haccounted.unreadable]
    decide

end Mixed

end PassiveDns.Pipeline
