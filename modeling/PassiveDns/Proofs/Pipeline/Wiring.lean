/-
  PassiveDns.Proofs.Pipeline.Wiring

  How the parts of a network are joined stays what it is, in every run that is not asked to
  stop, whatever it carries and whatever becomes idle (`Wired`): the stations send only where
  they should, and whoever has ended did so over a queue that was empty and closed. Such a
  queue stays `Dry`.
-/
import PassiveDns.Proofs.Pipeline.History
import PassiveDns.Proofs.Pipeline.Keeping

namespace PassiveDns.Pipeline

open PassiveDns.Sink (FanOut)

variable {plan : Plan} {given : List Observation} {network after : Network}

/-- Every queue has room for something, and there is a station of every kind. -/
structure Plan.Sized (plan : Plan) : Prop where
  room : ∀ channel, 0 < plan.capacity channel
  shards : 0 < plan.settings.tcpShards
  workers : 0 < plan.settings.decoderWorkers
  sinkRoom : 0 < plan.settings.sinkQueue

theorem sized_of_validate (h : plan.settings.validate = .ok ()) : plan.Sized :=
  ⟨capacity_pos h, shards_pos h, workers_pos h,
    positive_of_validate h ("sink_channel_size", _) (by simp [Settings.positive])⟩

/-- Nothing is in a queue, and nothing more can come into it. -/
structure Network.Dry (network : Network) (channel : Channel) : Prop where
  closed : network.isClosed channel = true
  empty : network.queue channel = []

/-- From where a station receives, and to where it sends. -/
def Role.wiring (role : Role) : Channel × (Channel → Bool) := (role.input, role.feeds)

theorem Role.Alike.wiring {role other : Role} (h : role.Alike other) :
    role.wiring = other.wiring := by
  unfold Role.wiring
  rw [h.input, h.feeds]

/-- A station has to send only what it should, and nothing once it has ended. -/
structure Station.Fits (plan : Plan) (station : Station) : Prop where
  sends : ∀ parcel ∈ sendsOf station.outbox,
    station.role.feeds parcel.channel = true ∧ plan.Hosts parcel.channel
  finished : station.phase = .finished → station.outbox = []

/-- The parts of a network are joined as a plan says, and the hand-out was given some
    observations. -/
structure Wired (plan : Plan) (given : List Observation) (network : Network) : Prop where
  planned : network.plan = plan
  stopping : network.stopping = false
  sourceEnd : network.sourceEnd = some .exhausted
  consumed : network.reader.phase = .finished → network.source = []
  wiring : network.stations.map (fun station => station.role.wiring) =
    (rolesOf plan).map Role.wiring
  fits : ∀ station ∈ network.stations, station.Fits plan
  placed : ∀ channel, ∀ parcel ∈ network.queue channel,
    parcel.channel = channel ∧ plan.Hosts channel
  ended : ∀ station ∈ network.stations, station.phase ≠ .working →
    network.Dry station.role.input
  meets : network.fanOut.Meets given
  closing : network.fanOut.closing = true → network.Dry .results

theorem take_ne_finished (reader : Reader) (frame : Frame) (time : Instant) :
    (reader.take frame time).2.phase ≠ .finished := by
  obtain ⟨decision, admission, _, htaking⟩ := reader.taking frame time
  generalize reader.take frame time = result at htaking ⊢
  cases htaking <;> simp

namespace Wired

/-- Behind every queue that a plan has, that of the observations apart, there is a station. -/
theorem exists_station (h : Wired plan given network) (hsized : plan.Sized) {channel : Channel}
    (hosts : plan.Hosts channel) (hne : channel ≠ .results) :
    ∃ station ∈ network.stations, station.role.input = channel := by
  obtain ⟨role, hrole, rfl⟩ := exists_receiver hsized.workers hosts hne
  have hwiring : role.wiring ∈ network.stations.map fun station => station.role.wiring := by
    rw [h.wiring]
    exact List.mem_map_of_mem hrole
  obtain ⟨station, hstation, heq⟩ := List.mem_map.mp hwiring
  exact ⟨station, hstation, congrArg Prod.fst heq⟩

/-- Somebody receives packets until the reader has ended. -/
theorem takesPackets (h : Wired plan given network) (hsized : plan.Sized)
    (hphase : network.reader.phase ≠ .finished) : network.takesPackets = true := by
  obtain ⟨station, hstation, hinput⟩ := h.exists_station hsized
    (show plan.Hosts .packets from trivial) (by simp)
  have hworking : station.phase = .working := by
    by_contra hended
    have hclosed := (h.ended station hstation hended).closed
    rw [hinput] at hclosed
    exact hphase (((isClosed_iff ..).mp hclosed).1 rfl)
  refine List.any_eq_true.mpr ⟨station, hstation, ?_⟩
  rw [hinput, hworking]
  rfl

/-- What can happen in a wired network. -/
theorem doing {notes : List Note} (h : Wired plan given network) (hsized : plan.Sized)
    (hgoes : network.Goes notes after) : network.Doing notes after := by
  cases hgoes with
  | clock duration => exact .clock duration
  | acts move hfire =>
    cases move with
    | read => exact Network.doing_read h.stopping h.sourceEnd (h.takesPackets hsized) hfire
    | work index => exact Network.doing_work hfire
    | tick index => exact Network.doing_tick hfire
    | dispatch =>
      exact Network.doing_dispatch (fun parcel hparcel => (h.placed _ parcel hparcel).1) hfire
    | write index => exact Network.doing_write hfire

/-! ## Changes of one station -/

/-- A station changes, and the queues with it. -/
theorem act (h : Wired plan given network) {index : Nat} {station : Station}
    (hstation : network.stations[index]? = some station) (changed : Station)
    (queues : Table Channel (List Parcel)) (metrics : Metrics)
    (halike : changed.role.Alike station.role) (hfits : changed.Fits plan)
    (hfinished : station.phase = .finished → changed.phase = .finished)
    (hplaced : ∀ channel, ∀ parcel ∈ (queues.get? channel).getD [],
      parcel.channel = channel ∧ plan.Hosts channel)
    (hempty : ∀ channel, network.Dry channel → (queues.get? channel).getD [] = [])
    (hended : changed.phase ≠ .working → network.Dry station.role.input) :
    Wired plan given { network with
        stations := network.stations.set index changed
        queues
        metrics } ∧
      ∀ channel, network.Dry channel → Network.Dry { network with
        stations := network.stations.set index changed
        queues
        metrics } channel := by
  -- the station that changes is done with whatever it was done with before
  have hdry : ∀ channel, network.Dry channel → Network.Dry { network with
      stations := network.stations.set index changed
      queues
      metrics } channel := fun channel hdry => by
    refine ⟨?_, hempty channel hdry⟩
    refine isClosed_mono ?_ hstation rfl (fun hdone => ?_) hdry.closed
    · exact fun hphase => hphase
    · unfold Station.isDoneWith at hdone ⊢
      rw [halike.feeds]
      rw [Bool.or_eq_true, decide_eq_true_iff] at hdone ⊢
      exact hdone.imp_left hfinished
  refine ⟨⟨h.planned, h.stopping, h.sourceEnd, h.consumed, ?_, fun other hother => ?_, hplaced,
    fun other hother hphase => ?_, h.meets, fun hclosing => hdry _ (h.closing hclosing)⟩, hdry⟩
  · rw [← h.wiring]
    exact map_set_of_eq (fun station : Station => station.role.wiring) hstation halike.wiring
  · rcases List.mem_or_eq_of_mem_set hother with hother | rfl
    · exact h.fits other hother
    · exact hfits
  · rcases List.mem_or_eq_of_mem_set hother with hother | rfl
    · exact hdry _ (h.ended other hother hphase)
    · rw [halike.input]
      exact hdry _ (hended hphase)

/-- Nothing comes into a queue that is dry. -/
theorem queue_push_of_dry {pushed : Parcel} {channel : Channel}
    (hopen : network.isClosed pushed.channel = false) (hdry : network.Dry channel) :
    (network.push pushed).queue channel = [] := by
  have hne : channel ≠ pushed.channel := fun heq => by
    have hclosed := hdry.closed
    rw [heq, hopen] at hclosed
    cases hclosed
  rw [Network.queue_push, if_neg hne]
  exact hdry.empty

/-! ## Changes of everything else -/

/-- The stations stay as they are. -/
theorem turn (h : Wired plan given network) {more : List Observation}
    (hplan : after.plan = network.plan) (hstopping : after.stopping = network.stopping)
    (hend : after.sourceEnd = network.sourceEnd) (hstations : after.stations = network.stations)
    (hreader : network.reader.phase = .finished → after.reader.phase = .finished)
    (hconsumed : after.reader.phase = .finished → after.source = [])
    (hplaced : ∀ channel, ∀ parcel ∈ after.queue channel,
      parcel.channel = channel ∧ plan.Hosts channel)
    (hempty : ∀ channel, network.Dry channel → after.queue channel = [])
    (hmeets : after.fanOut.Meets more)
    (hclosing : after.fanOut.closing = true → network.Dry .results) :
    Wired plan more after ∧ ∀ channel, network.Dry channel → after.Dry channel := by
  have hdry : ∀ channel, network.Dry channel → after.Dry channel := fun channel hdry => by
    refine ⟨?_, hempty channel hdry⟩
    obtain ⟨hpackets, hall⟩ := (isClosed_iff ..).mp hdry.closed
    refine (isClosed_iff ..).mpr ⟨fun heq => hreader (hpackets heq), ?_⟩
    rw [hstations]
    exact hall
  refine ⟨⟨hplan.trans h.planned, hstopping.trans h.stopping, hend.trans h.sourceEnd, hconsumed,
    ?_, ?_, hplaced, fun station hstation hphase => ?_, hmeets,
    fun htrue => hdry _ (hclosing htrue)⟩, hdry⟩
  · rw [hstations]
    exact h.wiring
  · rw [hstations]
    exact h.fits
  · rw [hstations] at hstation
    exact hdry _ (h.ended station hstation hphase)

/-! ## All changes -/

/-- The reader keeps the network wired. -/
theorem reading (h : Wired plan given network) (hreading : network.Reading after) :
    Wired plan given after ∧ ∀ channel, network.Dry channel → after.Dry channel := by
  -- a reader that still acts has not ended
  have hopen {phase : ReaderPhase} (hphase : network.reader.phase = phase)
      (hne : phase ≠ .finished) {other : Prop} (hfinished : network.reader.phase = .finished) :
      other :=
    absurd (hphase.symm.trans hfinished) hne
  cases hreading with
  | waits hphase =>
    exact h.turn rfl rfl rfl rfl (hopen hphase (by simp)) (fun hfinished => by cases hfinished)
      h.placed (fun _ hdry => hdry.empty) h.meets h.closing
  | takes arrival rest hphase hsource =>
    obtain ⟨metrics, heq⟩ := Network.readFrame_eq network arrival rest
    have hunfinished := take_ne_finished network.reader arrival.frame arrival.time
    rw [heq]
    exact h.turn rfl rfl rfl rfl (hopen hphase (by simp))
      (fun hfinished => absurd hfinished hunfinished) h.placed (fun _ hdry => hdry.empty) h.meets
      h.closing
  | ends hphase hsource =>
    exact h.turn rfl rfl rfl rfl (hopen hphase (by simp)) (fun _ => hsource) h.placed
      (fun _ hdry => hdry.empty) h.meets h.closing
  | queues frame hphase hroom =>
    -- as long as the reader goes on the queue of the packets is open
    have hunclosed : network.isClosed .packets = false := by
      by_contra hclosed
      have hfinished := ((isClosed_iff ..).mp (eq_true_of_ne_false hclosed)).1 rfl
      rw [hphase] at hfinished
      cases hfinished
    exact h.turn rfl rfl rfl rfl (hopen hphase (by simp)) (fun hfinished => by cases hfinished)
      (Network.forall_queue_push h.placed ⟨rfl, trivial⟩)
      (fun _ hdry => queue_push_of_dry hunclosed hdry) h.meets h.closing

/-- A station keeps the network wired. -/
theorem working (h : Wired plan given network) (hsized : plan.Sized) {index : Nat}
    {station : Station} (hstation : network.stations[index]? = some station)
    (hworking : network.Working index station after) :
    Wired plan given after ∧ ∀ channel, network.Dry channel → after.Dry channel := by
  have hmem := List.mem_of_getElem? hstation
  have hfits := h.fits station hmem
  cases hworking with
  | counts series amount rest houtbox =>
    refine h.act hstation { station with outbox := rest } network.queues _ (.refl _)
      ⟨fun parcel hparcel => hfits.sends parcel ?_, fun hfinished => ?_⟩ (fun hphase => hphase)
      h.placed (fun _ hdry => hdry.empty) (h.ended station hmem)
    · rw [houtbox, sendsOf_count]
      exact hparcel
    · have hnone := hfits.finished hfinished
      rw [houtbox] at hnone
      cases hnone
  | sends parcel rest houtbox hroom =>
    obtain ⟨hfeeds, hosts⟩ := hfits.sends parcel (by
      rw [houtbox, sendsOf_send]
      exact List.mem_cons_self ..)
    have hunfinished : station.phase ≠ .finished := fun hfinished => by
      have hnone := hfits.finished hfinished
      rw [houtbox] at hnone
      cases hnone
    have hunclosed := not_isClosed_of_sends hmem hfeeds hunfinished
    refine h.act hstation { station with outbox := rest } (network.push parcel).queues
      network.metrics (.refl _) ⟨fun other hother => hfits.sends other ?_,
        fun hfinished => absurd hfinished hunfinished⟩ (fun hphase => hphase)
      (Network.forall_queue_push h.placed ⟨rfl, hosts⟩)
      (fun _ hdry => queue_push_of_dry hunclosed hdry) (h.ended station hmem)
    rw [houtbox, sendsOf_send]
    exact List.mem_cons_of_mem _ hother
  | receives parcel rest houtbox hphase hqueue =>
    have halike := Role.alike_receive network.plan network.now station.role parcel
    refine h.act hstation _ (network.setQueue station.role.input rest).queues network.metrics
      halike ⟨fun other hother => ?_, fun hfinished => ?_⟩ (fun hfinished => hfinished)
      (Network.forall_queue_setQueue h.placed hqueue)
      (fun _ hdry => queue_setQueue_of_empty hqueue hdry.empty)
      (fun hended => absurd hphase hended)
    · rw [halike.feeds]
      rw [h.planned] at hother
      exact Role.sends_receive hsized.shards network.now station.role parcel hother
    · rw [show station.phase = _ from hfinished] at hphase
      cases hphase
  | closes houtbox hphase hqueue hclosed =>
    have halike := Role.alike_finish station.role
    refine h.act hstation _ network.queues network.metrics halike
      ⟨fun other hother => ?_, fun hfinished => by cases hfinished⟩ (fun hfinished => ?_) h.placed
      (fun _ hdry => hdry.empty) (fun _ => ⟨hclosed, hqueue⟩)
    · rw [halike.feeds]
      exact Role.sends_finish station.role hother
    · rw [hphase] at hfinished
      cases hfinished
  | finishes houtbox hphase =>
    exact h.act hstation { station with phase := .finished } network.queues network.metrics
      (.refl _) ⟨hfits.sends, fun _ => houtbox⟩ (fun _ => rfl) h.placed
      (fun _ hdry => hdry.empty) (fun _ => h.ended station hmem (by rw [hphase]; simp))

/-- A station that looks for idle state keeps the network wired. -/
theorem ticking (h : Wired plan given network) {index : Nat} {station : Station}
    (hstation : network.stations[index]? = some station) (hphase : station.phase = .working)
    (nextTick : Instant) :
    Wired plan given (network.ticked index station nextTick) ∧
      ∀ channel, network.Dry channel → (network.ticked index station nextTick).Dry channel := by
  have halike := Role.alike_tick (network.now - network.plan.gcInterval) station.role
  refine h.act hstation _ network.queues network.metrics halike
    ⟨fun other hother => ?_, fun hfinished => ?_⟩ (fun hfinished => hfinished) h.placed
    (fun _ hdry => hdry.empty) (fun hended => absurd hphase hended)
  · rw [halike.feeds]
    rw [sendsOf_append] at hother
    rcases List.mem_append.mp hother with hother | hother
    · exact Role.sends_tick _ station.role hother
    · exact (h.fits station (List.mem_of_getElem? hstation)).sends other hother
  · rw [show station.phase = _ from hfinished] at hphase
    cases hphase

/-- What a station receives is no observation. -/
theorem givenIn_received (h : Wired plan given network) {role : Role} {parcel : Parcel}
    {rest : List Parcel} (hqueue : network.queue role.input = parcel :: rest) :
    givenIn [.received parcel] = [] := by
  have hchannel := (h.placed _ parcel (by rw [hqueue]; exact List.mem_cons_self ..)).1
  cases parcel with
  | result observation => cases role <;> cases hchannel
  | _ => rfl

/-- Whatever happens, the network stays wired, and what is dry stays so. -/
theorem step {notes : List Note} (h : Wired plan given network) (hsized : plan.Sized)
    (hdoing : network.Doing notes after) :
    Wired plan (given ++ givenIn notes) after ∧
      ∀ channel, network.Dry channel → after.Dry channel := by
  have hsame {notes : List Note} (hnone : givenIn notes = []) : given ++ givenIn notes = given := by
    rw [hnone, List.append_nil]
  cases hdoing with
  | clock duration =>
    rw [hsame rfl]
    exact h.turn rfl rfl rfl rfl (fun hphase => hphase) h.consumed h.placed
      (fun _ hdry => hdry.empty) h.meets h.closing
  | waits hphase =>
    rw [hsame rfl]
    exact h.reading (.waits hphase)
  | takes arrival rest hphase hsource =>
    rw [hsame (show givenIn (.counted .. :: notesOf _) = [] from givenIn_notesOf _)]
    exact h.reading (.takes arrival rest hphase hsource)
  | ends hphase hsource =>
    rw [hsame rfl]
    exact h.reading (.ends hphase hsource)
  | queues frame hphase hroom =>
    rw [hsame rfl]
    exact h.reading (.queues frame hphase hroom)
  | counts index station series amount rest hstation houtbox =>
    rw [hsame rfl]
    exact h.working hsized hstation (.counts series amount rest houtbox)
  | sends index station parcel rest hstation houtbox hroom =>
    rw [hsame rfl]
    exact h.working hsized hstation (.sends parcel rest houtbox hroom)
  | receives index station parcel rest hstation houtbox hphase hqueue =>
    rw [hsame (h.givenIn_received hqueue)]
    exact h.working hsized hstation (.receives parcel rest houtbox hphase hqueue)
  | closes index station hstation houtbox hphase hqueue hclosed =>
    rw [hsame rfl]
    exact h.working hsized hstation (.closes houtbox hphase hqueue hclosed)
  | finishes index station hstation houtbox hphase =>
    rw [hsame rfl]
    exact h.working hsized hstation (.finishes houtbox hphase)
  | looks index station nextTick hstation hphase =>
    rw [hsame rfl]
    exact h.ticking hstation hphase nextTick
  | serves result hstep =>
    rw [hsame (givenIn_notesOf _)]
    obtain ⟨hmeets, _, hclosing⟩ := h.meets.handOut (Sink.FanOut.handingOut hstep)
    refine h.turn rfl rfl rfl rfl (fun hphase => hphase) h.consumed h.placed
      (fun _ hdry => hdry.empty) hmeets fun htrue => h.closing ?_
    rw [← hclosing]
    exact htrue
  | gives observation rest hhand hopen hqueue =>
    refine h.turn rfl rfl rfl rfl (fun hphase => hphase) h.consumed
      (Network.forall_queue_setQueue h.placed hqueue)
      (fun _ hdry => queue_setQueue_of_empty hqueue hdry.empty)
      (h.meets.take hhand hopen observation)
      fun htrue => ?_
    rw [show network.fanOut.closing = true from htrue] at hopen
    cases hopen
  | givesNoMore hhand hopen hqueue hclosed =>
    rw [hsame rfl]
    exact h.turn rfl rfl rfl rfl (fun hphase => hphase) h.consumed h.placed
      (fun _ hdry => hdry.empty) (h.meets.close hhand) fun _ => ⟨hclosed, hqueue⟩
  | writes index result hstep =>
    rw [hsame (givenIn_notesOf _)]
    obtain ⟨hmeets, _, _, hclosing, _⟩ := h.meets.write (Sink.FanOut.writing hstep)
    refine h.turn rfl rfl rfl rfl (fun hphase => hphase) h.consumed h.placed
      (fun _ hdry => hdry.empty) hmeets fun htrue => h.closing ?_
    rw [← hclosing]
    exact htrue

theorem goes {notes : List Note} (h : Wired plan given network) (hsized : plan.Sized)
    (hgoes : network.Goes notes after) :
    Wired plan (given ++ givenIn notes) after ∧
      ∀ channel, network.Dry channel → after.Dry channel :=
  h.step hsized (h.doing hsized hgoes)

/-- In a run the network stays wired, and what is dry stays so. -/
theorem logged {log : List Note} (h : Wired plan given network) (hsized : plan.Sized)
    (hlogged : network.Logged log after) :
    Wired plan (given ++ givenIn log) after ∧
      ∀ channel, network.Dry channel → after.Dry channel := by
  induction hlogged with
  | refl => exact ⟨(List.append_nil given).symm ▸ h, fun _ hdry => hdry⟩
  | next _ hgoes ih =>
    obtain ⟨hbefore, hdry⟩ := ih
    obtain ⟨hafter, hmore⟩ := hbefore.goes hsized hgoes
    rw [givenIn_append, ← List.append_assoc]
    exact ⟨hafter, fun channel hchannel => hmore channel (hdry channel hchannel)⟩

end Wired

/-! ## The start -/

/-- A run begins with a wired network. -/
theorem wired_ofFrames (hsized : plan.Sized) (sinks : List Sink) (arrivals : List Arrival)
    (now : Instant) : Wired plan [] (Network.ofFrames plan sinks arrivals now) := by
  have hqueue : ∀ channel, (Network.ofFrames plan sinks arrivals now).queue channel = [] :=
    fun _ => rfl
  refine ⟨rfl, rfl, rfl, (fun hphase => by cases hphase), ?_, fun station hstation => ?_,
    fun channel parcel hparcel => ?_, fun station hstation hphase => ?_,
    Sink.FanOut.meets_ofSinks hsized.sinkRoom sinks, fun hclosing => ?_⟩
  · show (Station.ofPlan plan).map _ = _
    rw [ofPlan_eq, List.map_map]
    rfl
  · obtain ⟨role, rfl⟩ := role_of_mem hstation
    exact ⟨fun _ hparcel => absurd hparcel List.not_mem_nil, fun _ => rfl⟩
  · rw [hqueue channel] at hparcel
    cases hparcel
  · obtain ⟨role, rfl⟩ := role_of_mem hstation
    exact absurd rfl hphase
  · rw [show (Network.ofFrames plan sinks arrivals now).fanOut = _ from
      Sink.FanOut.outlets_ofSinks plan.settings.sinkQueue sinks] at hclosing
    cases hclosing

end PassiveDns.Pipeline
