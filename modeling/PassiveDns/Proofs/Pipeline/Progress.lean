/-
  PassiveDns.Proofs.Pipeline.Progress

  A run does not get stuck: as long as not all have ended, somebody can act (`exists_step`).
  If nobody could, then from the observations backwards every queue would be empty and every
  errand run, and from the reader forwards all would have ended. And nobody ends too early:
  what has ended misses nothing that comes later.
-/
import PassiveDns.Proofs.Pipeline.Wiring

namespace PassiveDns.Pipeline

variable {plan : Plan} {given : List Observation} {network after : Network}

/-- A network in which nobody can act. -/
def Network.Stuck (network : Network) : Prop := ∀ after, ¬network.Step after

theorem Network.Stuck.fire (h : network.Stuck) (move : Move)
    (hmove : ∀ station, move ≠ .tick station) : network.fire? move = none := by
  cases hfire : network.fire? move with
  | none => rfl
  | some after => exact absurd ⟨move, hmove, hfire⟩ (h after)

/-- A station that has run all errands, and has ended or waits for parcels that still may
    come. -/
def Idle (network : Network) (station : Station) : Prop :=
  station.outbox = [] ∧ (station.phase = .finished ∨
    station.phase = .working ∧ network.queue station.role.input = [] ∧
      network.isClosed station.role.input = false)

/-! ## Nobody is stuck -/

namespace Wired

theorem hasRoom_of_empty (h : Wired plan given network) (hsized : plan.Sized) {channel : Channel}
    (hempty : network.queue channel = []) : network.hasRoom channel = true := by
  unfold Network.hasRoom
  rw [hempty, h.planned]
  exact decide_eq_true (hsized.room channel)

theorem write_of_stuck (hstuck : network.Stuck) (index : Nat) :
    network.fanOut.write? index = none := by
  have hnone : network.write? index = none := hstuck.fire (.write index) fun _ => by simp
  exact Option.map_eq_none_iff.mp hnone

/-- All sinks have written what they were handed, so the hand-out has taken all there is. -/
theorem results_of_stuck (h : Wired plan given network) (hstuck : network.Stuck) :
    network.fanOut.hand = none ∧ network.queue .results = [] ∧
      (network.isClosed .results = true → network.fanOut.closing = true) := by
  have hdispatch : network.dispatch? = none := hstuck.fire .dispatch fun _ => by simp
  rcases Network.of_dispatch_eq_none hdispatch with ⟨hhand, hnone⟩ | ⟨hhand, hclosing | hopen⟩
  · -- no sink can write, so the hand-out could go on
    exact absurd hnone (h.meets.handOut_of_stuck (write_of_stuck hstuck) hhand)
  · exact ⟨hhand, (h.closing hclosing).empty, fun _ => hclosing⟩
  · obtain ⟨_, hempty, hunclosed⟩ := hopen
    refine ⟨hhand, hempty, fun hclosed => ?_⟩
    rw [hclosed] at hunclosed
    cases hunclosed

/-- Nobody waits for room. The induction goes from the observations backwards: the queues
    into which a station sends are behind the one from which it receives. -/
theorem idle_of_stuck (h : Wired plan given network) (hsized : plan.Sized)
    (hstuck : network.Stuck) (distance : Nat) :
    ∀ station ∈ network.stations, 5 ≤ station.role.input.rank + distance →
      Idle network station := by
  induction distance with
  | zero =>
    intro station _ hrank
    have hless : station.role.input.rank < 5 := by
      cases station.role <;> simp [Role.input, Channel.rank]
    omega
  | succ distance ih =>
    intro station hstation hrank
    obtain ⟨index, hindex⟩ := List.getElem?_of_mem hstation
    have hwork : network.work? index = none :=
      hstuck.fire (.work index) fun _ => by simp
    rcases Network.of_work_eq_none hindex hwork with ⟨parcel, rest, houtbox, hfull⟩ | hidle
    · -- a full queue would hold parcels, but its receiver has taken all
      have hsends : parcel ∈ sendsOf station.outbox := by
        rw [houtbox, sendsOf_send]
        exact List.mem_cons_self ..
      obtain ⟨hfeeds, hosts⟩ := (h.fits station hstation).sends parcel hsends
      have hbehind := Role.rank_lt_of_feeds hfeeds
      have hempty : network.queue parcel.channel = [] := by
        by_cases hresults : parcel.channel = .results
        · rw [hresults]
          exact (h.results_of_stuck hstuck).2.1
        · -- whoever receives from there has taken all of it
          obtain ⟨receiver, hreceiver, hinput⟩ := h.exists_station hsized hosts hresults
          have hother := (ih receiver hreceiver (by rw [hinput]; omega)).2
          rw [← hinput]
          rcases hother with hfinished | hworking
          · exact (h.ended receiver hreceiver (by rw [hfinished]; simp)).empty
          · exact hworking.2.1
      rw [h.hasRoom_of_empty hsized hempty] at hfull
      cases hfull
    · exact hidle

theorem queue_of_stuck (h : Wired plan given network) (hsized : plan.Sized)
    (hstuck : network.Stuck) {station : Station} (hstation : station ∈ network.stations) :
    network.queue station.role.input = [] := by
  rcases (h.idle_of_stuck hsized hstuck 5 station hstation (Nat.le_add_left ..)).2 with
    hfinished | hworking
  · exact (h.ended station hstation (by rw [hfinished]; simp)).empty
  · exact hworking.2.1

/-- The reader has ended: else it could go on, since there is room for packets. -/
theorem reader_of_stuck (h : Wired plan given network) (hsized : plan.Sized)
    (hstuck : network.Stuck) : network.reader.phase = .finished := by
  have hread : network.read? = none := hstuck.fire .read fun _ => by simp
  obtain ⟨station, hstation, hinput⟩ := h.exists_station hsized
    (show plan.Hosts .packets from trivial) (by simp)
  have hroom : network.hasRoom .packets = true := by
    refine h.hasRoom_of_empty hsized ?_
    rw [← hinput]
    exact h.queue_of_stuck hsized hstuck hstation
  unfold Network.read? at hread
  split at hread
  · assumption
  · split at hread <;> cases hread
  · rw [h.sourceEnd] at hread
    split at hread
    · cases hread
    · cases hread
    · cases hread
    · rename_i hnone
      cases hnone
  · rename_i frame hphase
    rw [h.takesPackets hsized (by rw [hphase]; simp), if_neg (by simp), if_pos hroom] at hread
    cases hread

/-- All stations have ended. The induction goes from the packets forwards: nothing comes any
    more when all stations in front have ended. -/
theorem finished_of_stuck (h : Wired plan given network) (hsized : plan.Sized)
    (hstuck : network.Stuck) (distance : Nat) :
    ∀ station ∈ network.stations, station.role.input.rank < distance →
      station.phase = .finished := by
  induction distance with
  | zero => exact fun _ _ hrank => absurd hrank (Nat.not_lt_zero _)
  | succ distance ih =>
    intro station hstation hrank
    rcases (h.idle_of_stuck hsized hstuck 5 station hstation (Nat.le_add_left ..)).2 with
      hfinished | ⟨_, _, hopen⟩
    · exact hfinished
    · have hclosed : network.isClosed station.role.input = true := by
        refine (isClosed_iff ..).mpr
          ⟨fun _ => h.reader_of_stuck hsized hstuck, fun other hother => ?_⟩
        unfold Station.isDoneWith
        cases hfeeds : other.role.feeds station.role.input with
        | false => simp
        | true =>
          -- whoever feeds this queue is in front, and has ended
          have hbefore := Role.rank_lt_of_feeds hfeeds
          rw [ih other hother (by omega)]
          rfl
      rw [hclosed] at hopen
      cases hopen

/-- If nobody can act, all have ended. -/
theorem isFinished_of_stuck (h : Wired plan given network) (hsized : plan.Sized)
    (hstuck : network.Stuck) : network.isFinished = true := by
  have hreader := h.reader_of_stuck hsized hstuck
  have hstations : ∀ station ∈ network.stations, station.phase = .finished :=
    fun station hstation => h.finished_of_stuck hsized hstuck (station.role.input.rank + 1) station
      hstation (Nat.lt_succ_self _)
  have hclosing : network.fanOut.closing = true := by
    refine (h.results_of_stuck hstuck).2.2 ((isClosed_iff ..).mpr
      ⟨(fun heq => by cases heq), fun station hstation => ?_⟩)
    unfold Station.isDoneWith
    rw [hstations station hstation]
    rfl
  have hsinks := h.meets.isFinished_of_stuck hclosing (write_of_stuck hstuck)
  unfold Network.isFinished Reader.isFinished
  rw [hsinks, decide_eq_true hreader, Bool.and_true, Bool.true_and, List.all_eq_true]
  exact fun station hstation => decide_eq_true (hstations station hstation)

/-- As long as not all have ended, somebody can act. -/
theorem exists_step (h : Wired plan given network) (hsized : plan.Sized)
    (hunfinished : network.isFinished ≠ true) : ∃ after, network.Step after := by
  by_contra hnone
  exact hunfinished (h.isFinished_of_stuck hsized fun after hstep => hnone ⟨after, hstep⟩)

end Wired

/-! ## Nothing is left, and nothing is missed -/

namespace Network

/-- All have ended, and nothing is left anywhere. -/
structure AtRest (network : Network) : Prop where
  finished : network.isFinished = true
  source : network.source = []
  held : network.reader.held = []
  queues : ∀ channel, network.queue channel = []
  outboxes : ∀ station ∈ network.stations, station.outbox = []
  hand : network.fanOut.hand = none
  sinks : ∀ outlet ∈ network.fanOut.outlets, outlet.hand = none ∧ outlet.queue = []

/-- Nobody has ended too early: whatever happens later, nothing comes any more to a part that
    has ended. -/
structure EndsInTime (network : Network) : Prop where
  reader : network.reader.phase = .finished → ∀ log later, network.Logged log later →
    later.source = [] ∧ later.reader.held = []
  stations : ∀ station ∈ network.stations, station.phase = .finished →
    ∀ log later, network.Logged log later → later.queue station.role.input = []
  handOut : network.fanOut.closing = true → ∀ log later, network.Logged log later →
    later.queue .results = [] ∧ later.fanOut.hand = none
  sinks : ∀ (index : Nat) (outlet : Sink.Outlet), network.fanOut.outlets[index]? = some outlet →
    outlet.stage = .closed → outlet.hand = none ∧ outlet.queue = [] ∧
      ∀ log (later : Network), network.Logged log later →
        later.fanOut.outlets[index]? = some outlet

/-- A reader that has ended does nothing any more. -/
theorem Doing.reader_of_finished {notes : List Note} (h : network.Doing notes after)
    (hfinished : network.reader.phase = .finished) : after.reader = network.reader := by
  cases h with
  | waits hphase => rw [hfinished] at hphase; cases hphase
  | takes arrival rest hphase => rw [hfinished] at hphase; cases hphase
  | ends hphase => rw [hfinished] at hphase; cases hphase
  | queues frame hphase => rw [hfinished] at hphase; cases hphase
  | _ => rfl

/-- Once nothing more is handed out only sinks that run go on. -/
theorem Doing.fanOut_of_closing {notes : List Note} (h : network.Doing notes after)
    (hclosing : network.fanOut.closing = true) (hhand : network.fanOut.hand = none) :
    after.fanOut = network.fanOut ∨ ∃ (index : Nat) (outlet changed : Sink.Outlet),
      network.fanOut.outlets[index]? = some outlet ∧ outlet.stage = .running ∧
        after.fanOut = { network.fanOut with
          outlets := network.fanOut.outlets.set index changed } := by
  cases h with
  | takes arrival rest =>
    obtain ⟨_, heq⟩ := Network.readFrame_eq network arrival rest
    rw [heq]
    exact .inl rfl
  | serves result hstep =>
    unfold Sink.FanOut.handOut? at hstep
    rw [hhand] at hstep
    cases hstep
  | gives observation rest _ hopen => rw [hclosing] at hopen; cases hopen
  | givesNoMore _ hopen => rw [hclosing] at hopen; cases hopen
  | writes index result hstep =>
    cases Sink.FanOut.writing hstep with
    | «at» outlet result houtlet hgoes =>
      exact .inr ⟨index, outlet, result.2, houtlet, (Sink.Outlet.acting hgoes).1, rfl⟩
  | _ => exact .inl rfl

end Network

namespace Wired

/-- Once all have ended nothing is left. -/
theorem atRest (h : Wired plan given network) (hsized : plan.Sized)
    (hfinished : network.isFinished = true) : network.AtRest := by
  have hparts := hfinished
  unfold Network.isFinished Reader.isFinished at hparts
  rw [Bool.and_eq_true, Bool.and_eq_true, List.all_eq_true, decide_eq_true_iff] at hparts
  obtain ⟨⟨hreader, hstations⟩, hsinks⟩ := hparts
  have hstation : ∀ station ∈ network.stations, station.phase = .finished :=
    fun station hstation => of_decide_eq_true (hstations station hstation)
  obtain ⟨hclosing, hended⟩ := (Sink.FanOut.isFinished_iff _).mp hsinks
  refine ⟨hfinished, h.consumed hreader, ?_, fun channel => ?_,
    fun station hmem => (h.fits station hmem).finished (hstation station hmem),
    h.meets.hand_of_closing hclosing, fun outlet houtlet => ?_⟩
  · unfold Reader.held
    rw [hreader]
  · by_contra hne
    -- somebody would be behind such a queue, and has ended over it
    obtain ⟨parcel, hparcel⟩ := List.exists_mem_of_ne_nil _ hne
    by_cases hresults : channel = .results
    · rw [hresults, (h.closing hclosing).empty] at hparcel
      cases hparcel
    · obtain ⟨station, hmem, hinput⟩ :=
        h.exists_station hsized (h.placed channel parcel hparcel).2 hresults
      have hempty := (h.ended station hmem (by rw [hstation station hmem]; simp)).empty
      rw [hinput] at hempty
      exact hne hempty
  · exact (h.meets.of_closing hclosing outlet houtlet).empty_of_ended (hended outlet houtlet)

/-- Once nothing more is handed out this stays so, and the sinks that have ended stay as they
    are. -/
theorem logged_of_closing (h : Wired plan given network) (hsized : plan.Sized)
    (hclosing : network.fanOut.closing = true) {log : List Note}
    (hlogged : network.Logged log after) :
    after.fanOut.closing = true ∧ ∀ (index : Nat) (outlet : Sink.Outlet),
      network.fanOut.outlets[index]? = some outlet → outlet.stage ≠ .running →
        after.fanOut.outlets[index]? = some outlet := by
  induction hlogged with
  | refl => exact ⟨hclosing, fun _ _ houtlet _ => houtlet⟩
  | next hbefore hgoes ih =>
    obtain ⟨hbeforeClosing, hsame⟩ := ih
    have hwired := (h.logged hsized hbefore).1
    rcases (hwired.doing hsized hgoes).fanOut_of_closing hbeforeClosing
      (hwired.meets.hand_of_closing hbeforeClosing) with heq | ⟨writer, running, changed, hwriter,
        hrunning, heq⟩
    · rw [heq]
      exact ⟨hbeforeClosing, hsame⟩
    · rw [heq]
      refine ⟨hbeforeClosing, fun index outlet houtlet hended => ?_⟩
      have hbeforeOutlet := hsame index outlet houtlet hended
      have hne : writer ≠ index := by
        rintro rfl
        obtain rfl := Option.some.inj (hwriter.symm.trans hbeforeOutlet)
        exact hended hrunning
      rw [List.getElem?_set_ne hne]
      exact hbeforeOutlet

/-- A reader that has ended stays so. -/
theorem logged_of_finished (h : Wired plan given network) (hsized : plan.Sized)
    (hfinished : network.reader.phase = .finished) {log : List Note}
    (hlogged : network.Logged log after) : after.reader.phase = .finished := by
  induction hlogged with
  | refl => exact hfinished
  | next hbefore hgoes ih =>
    have hdoing := (h.logged hsized hbefore).1.doing hsized hgoes
    rw [hdoing.reader_of_finished ih]
    exact ih

theorem endsInTime (h : Wired plan given network) (hsized : plan.Sized) : network.EndsInTime where
  reader hfinished log later hlogged := by
    have hlater := h.logged_of_finished hsized hfinished hlogged
    refine ⟨(h.logged hsized hlogged).1.consumed hlater, ?_⟩
    unfold Reader.held
    rw [hlater]
  stations station hstation hfinished log later hlogged := by
    have hdry := h.ended station hstation (by rw [hfinished]; simp)
    exact ((h.logged hsized hlogged).2 _ hdry).empty
  handOut hclosing log later hlogged := by
    obtain ⟨hlater, hdry⟩ := h.logged hsized hlogged
    exact ⟨(hdry _ (h.closing hclosing)).empty,
      hlater.meets.hand_of_closing (h.logged_of_closing hsized hclosing hlogged).1⟩
  sinks index outlet houtlet hclosed := by
    have hmeets := h.meets.meets index outlet houtlet
    have hended : outlet.stage ≠ .running := by rw [hclosed]; simp
    obtain ⟨hhand, hqueue⟩ := hmeets.empty_of_ended hended
    exact ⟨hhand, hqueue, fun log later hlogged =>
      (h.logged_of_closing hsized (hmeets.closing_of_closed hclosed) hlogged).2 index outlet houtlet
        hended⟩

end Wired

/-- A run over any packets, with settings that leave room in every queue and have somebody for
    every task, with sinks whose writes return or break. In whatever order all take their turns,
    and whatever idle state is found: somebody can act until all have ended and nothing is left,
    and nobody has ended as long as something may still come to it. -/
theorem never_deadlocks (hsized : plan.Sized) (sinks : List Sink) (arrivals : List Arrival)
    (now : Instant) {log : List Note}
    (h : (Network.ofFrames plan sinks arrivals now).Logged log network) :
    (network.AtRest ∨ ∃ after, network.Step after) ∧ network.EndsInTime := by
  obtain ⟨hwired, _⟩ := (wired_ofFrames hsized sinks arrivals now).logged hsized h
  refine ⟨?_, hwired.endsInTime hsized⟩
  by_cases hfinished : network.isFinished = true
  · exact .inl (hwired.atRest hsized hfinished)
  · exact .inr (hwired.exists_step hsized hfinished)

/-! ### Queues of one place -/

namespace Narrow

/-- Two decoders and one station for every other task, and no queue has room for more than one
    parcel. -/
def narrow : Plan where
  settings := { noEthernet := true, decoderWorkers := 2, tcpShards := 1, packetQueue := 1,
                tcpQueue := 1, tcpReturnQueue := 1, defragQueue := 1, resultQueue := 1,
                sinkQueue := 1 }
  link := .ethernet
  dropped := 0
  clock := default

/-- A DNS message over UDP. -/
def arrival : Arrival where
  frame.octets :=
    [0x45, 0, 0, 40, 0, 0, 0x40, 0, 64, 17, 0, 0, 10, 0, 0, 1, 10, 0, 0, 53] ++
      [0x9c, 0x40, 0, 53, 0, 20, 0, 0] ++ [0, 1, 1, 0, 0, 0, 0, 0, 0, 0, 0, 0]
  frame.time := none
  time := 0

/-- A sink that the second write breaks. -/
def sink : Sink := ⟨"sink", true, fun n => if n = 0 then .written else .broken⟩

/-- Eight packets. -/
def start : Network := .ofFrames narrow [sink] (List.replicate 8 arrival) 0

/-- A packet goes through a decoder, and what comes of it stays there until there is room. -/
def decode (decoder : Nat) : List Move :=
  [.read, .read, .read, .work decoder, .work decoder]

/-- The sink does nothing, and everybody else goes on as long as possible: one observation waits
    for the sink, the hand-out waits with the next, the third is in the queue, both decoders
    wait with one more, and behind them a packet waits in the queue and the next in the hand of
    the reader. -/
def moves : List Move :=
  decode 5 ++ [.work 5, .dispatch, .dispatch, .dispatch] ++ decode 5 ++ [.work 5, .dispatch] ++
    decode 5 ++ [.work 5] ++ decode 5 ++ decode 6 ++ [.read, .read, .read, .read, .read]

theorem sized : narrow.Sized :=
  ⟨fun channel => by cases channel <;> exact Nat.one_pos, by decide, by decide, by decide⟩

/-- All places between the packets and the sink are taken, and only the sink can act. -/
structure Jammed (network : Network) : Prop where
  source : network.source.length = 1
  reader : network.reader.held.length = 1
  packets : (network.queue .packets).length = 1
  outboxes : network.stations.map (fun station => station.outbox.length) = [0, 0, 0, 0, 0, 1, 1]
  results : (network.queue .results).length = 1
  hand : network.fanOut.hand.isSome = true
  sinks : network.fanOut.outlets.map (fun outlet => outlet.queue.length) = [1]
  moves : network.moves.filter (fun move => (network.fire? move).isSome) = [.write 0]

theorem isSome_made : (start.make? moves).isSome = true := by decide +kernel

/-- What the moves come to. -/
def jam : Network := (start.make? moves).get isSome_made

theorem make_moves : start.make? moves = some jam := (Option.some_get isSome_made).symm

theorem jammed_jam : Jammed jam := by constructor <;> decide +kernel

/-- In the middle of a run, where nobody but the sink can act, somebody can act. -/
theorem never_deadlocks_narrow : (∃ log, start.Logged log jam) ∧ Jammed jam ∧
    (∃ after, jam.Step after) ∧ jam.EndsInTime := by
  obtain ⟨log, hlogged⟩ := Network.Logged.make .refl make_moves
  obtain ⟨hrest | hstep, hends⟩ := never_deadlocks sized _ _ _ hlogged
  · -- there is still a packet to read
    have hsource := jammed_jam.source
    rw [hrest.source] at hsource
    cases hsource
  · exact ⟨⟨log, hlogged⟩, jammed_jam, hstep, hends⟩

end Narrow

end PassiveDns.Pipeline
