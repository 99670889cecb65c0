/-
  PassiveDns.Proofs.Pipeline.Moves

  What each move of the network can be, and what a run is that nothing disturbs: somebody
  acts, the clock moves on, or a station looks for idle state and finds none.
-/
import PassiveDns.Pipeline.Network
import PassiveDns.Proofs.FanOut

namespace PassiveDns.Pipeline

open PassiveDns.Sink (FanOut)

/-- The frame that a reader has in hand. -/
def Reader.held (reader : Reader) : List Frame :=
  match reader.phase with
  | .holding frame => [frame]
  | _ => []

/-- What a reader does with a packet: it takes it in hand, or counts it as refused. -/
inductive Reader.Taking (reader : Reader) (frame : Frame) (admission : Admission) :
    Decision → List (Series × Nat) × Reader → Prop
  | accepted : Taking reader frame admission .accepted ([], { reader with
      phase := .holding frame
      admission
      read := reader.read + 1
      accepted := reader.accepted + 1 })
  | skipped : Taking reader frame admission .skipped ([(.rejected "ratio", 1)], { reader with
      phase := .deciding
      admission
      read := reader.read + 1
      skipped := reader.skipped + 1 })
  | duplicate : Taking reader frame admission .duplicate
      ([(.rejected "duplicate", 1)], { reader with
        phase := .deciding
        admission
        read := reader.read + 1
        duplicates := reader.duplicates + 1 })

theorem Reader.taking (reader : Reader) (frame : Frame) (time : Instant) :
    ∃ decision admission, reader.admission.check frame.octets time = (decision, admission) ∧
      reader.Taking frame admission decision (reader.take frame time) := by
  unfold take
  rcases hcheck : reader.admission.check frame.octets time with ⟨decision, admission⟩
  refine ⟨decision, admission, rfl, ?_⟩
  cases decision with
  | accepted => exact .accepted
  | skipped => exact .skipped
  | duplicate => exact .duplicate

namespace Network

variable {network after : Network}

/-! ## Queues -/

theorem queue_push (network : Network) (parcel : Parcel) (channel : Channel) :
    (network.push parcel).queue channel =
      if channel = parcel.channel then network.queue channel ++ [parcel]
      else network.queue channel := by
  unfold push queue
  dsimp only
  rw [Table.get?_set]
  by_cases h : channel = parcel.channel
  · rw [if_pos h, if_pos h, h]
    rfl
  · rw [if_neg h, if_neg h]

theorem queue_setQueue (network : Network) (other channel : Channel) (parcels : List Parcel) :
    (network.setQueue other parcels).queue channel =
      if channel = other then parcels else network.queue channel := by
  unfold setQueue queue
  dsimp only
  rw [Table.get?_set]
  by_cases h : channel = other
  · rw [if_pos h, if_pos h]
    rfl
  · rw [if_neg h, if_neg h]

/-- What holds of all parcels in their queues holds after one more was put into its queue. -/
theorem forall_queue_push {Fits : Channel → Parcel → Prop}
    (h : ∀ channel, ∀ parcel ∈ network.queue channel, Fits channel parcel) {pushed : Parcel}
    (hpushed : Fits pushed.channel pushed) (channel : Channel) :
    ∀ parcel ∈ (network.push pushed).queue channel, Fits channel parcel := by
  intro parcel hparcel
  rw [queue_push] at hparcel
  split at hparcel
  · rename_i heq
    rcases List.mem_append.mp hparcel with hparcel | hparcel
    · exact h channel parcel hparcel
    · rw [List.mem_singleton.mp hparcel, heq]
      exact hpushed
  · exact h channel parcel hparcel

/-- And after the first parcel of a queue was taken. -/
theorem forall_queue_setQueue {Fits : Channel → Parcel → Prop}
    (h : ∀ channel, ∀ parcel ∈ network.queue channel, Fits channel parcel) {taken : Channel}
    {first : Parcel} {rest : List Parcel} (hqueue : network.queue taken = first :: rest)
    (channel : Channel) :
    ∀ parcel ∈ (network.setQueue taken rest).queue channel, Fits channel parcel := by
  intro parcel hparcel
  rw [queue_setQueue] at hparcel
  split at hparcel
  · rename_i heq
    refine h channel parcel ?_
    rw [heq, hqueue]
    exact List.mem_cons_of_mem _ hparcel
  · exact h channel parcel hparcel

/-! ## Moves of the reader -/

/-- A reader that takes a packet changes nothing but itself, the source and what is counted. -/
theorem readFrame_eq (network : Network) (arrival : Arrival) (rest : List Arrival) :
    ∃ metrics, network.readFrame arrival rest = { network with
      source := rest
      reader := (network.reader.take arrival.frame arrival.time).2
      metrics } := by
  unfold readFrame
  dsimp only
  split
  · exact ⟨_, rfl⟩
  · exact ⟨_, rfl⟩

/-- What the reader does if nobody asks it to stop and nothing is left out: it waits for the
    source, takes a frame, queues it, or ends behind the last one. -/
inductive Reading (network : Network) : Network → Prop
  | waits (hphase : network.reader.phase = .deciding) :
    Reading network { network with reader := { network.reader with phase := .asking } }
  | takes (arrival : Arrival) (rest : List Arrival) (hphase : network.reader.phase = .asking)
      (hsource : network.source = arrival :: rest) :
      Reading network (network.readFrame arrival rest)
  | ends (hphase : network.reader.phase = .asking) (hsource : network.source = []) :
    Reading network (network.endReader none)
  | queues (frame : Frame) (hphase : network.reader.phase = .holding frame)
      (hroom : network.hasRoom .packets = true) :
    Reading network { network.push (.packet frame) with
      reader := { network.reader with phase := .deciding } }

theorem reading (hstopping : network.stopping = false)
    (hend : network.sourceEnd = some .exhausted)
    (htakes : network.reader.phase ≠ .finished → network.takesPackets = true)
    (h : network.read? = some after) : Reading network after := by
  unfold read? at h
  split at h
  · cases h
  · rename_i hphase
    rw [if_neg (by rw [hstopping]; exact Bool.false_ne_true)] at h
    rw [← Option.some.inj h]
    exact .waits hphase
  · rename_i hphase
    split at h
    · rename_i arrival rest hsource
      rw [← Option.some.inj h]
      exact .takes arrival rest hphase hsource
    · rename_i hsource _
      rw [← Option.some.inj h]
      exact .ends hphase hsource
    · rename_i hother
      rw [hend] at hother
      cases hother
    · rename_i hother
      rw [hend] at hother
      cases hother
  · rename_i frame hphase
    rw [htakes (by rw [hphase]; simp), hstopping, if_neg (by simp)] at h
    split at h
    · rename_i hroom
      rw [← Option.some.inj h]
      exact .queues frame hphase hroom
    · cases h

/-! ## Moves of the stations -/

/-- What a station does: it runs an errand, receives a parcel, or ends in two steps. -/
inductive Working (network : Network) (index : Nat) (station : Station) : Network → Prop
  | counts (series : Series) (amount : Nat) (rest : List Errand)
      (houtbox : station.outbox = .count series amount :: rest) :
    Working network index station
      { network.setStation index { station with outbox := rest } with
        metrics := network.metrics.add series amount }
  | sends (parcel : Parcel) (rest : List Errand) (houtbox : station.outbox = .send parcel :: rest)
      (hroom : network.hasRoom parcel.channel = true) :
    Working network index station
      ((network.push parcel).setStation index { station with outbox := rest })
  | receives (parcel : Parcel) (rest : List Parcel) (houtbox : station.outbox = [])
      (hphase : station.phase = .working)
      (hqueue : network.queue station.role.input = parcel :: rest) :
    Working network index station
      ((network.setQueue station.role.input rest).setStation index { station with
        role := (station.role.receive network.plan network.now parcel).1
        outbox := (station.role.receive network.plan network.now parcel).2 })
  | closes (houtbox : station.outbox = []) (hphase : station.phase = .working)
      (hqueue : network.queue station.role.input = [])
      (hclosed : network.isClosed station.role.input = true) :
    Working network index station
      (network.setStation index { station with
        role := station.role.finish.1
        outbox := station.role.finish.2
        phase := .closing })
  | finishes (houtbox : station.outbox = []) (hphase : station.phase = .closing) :
    Working network index station (network.setStation index { station with phase := .finished })

theorem working {index : Nat} (h : network.work? index = some after) :
    ∃ station, network.stations[index]? = some station ∧ Working network index station after := by
  unfold work? at h
  split at h
  · cases h
  · rename_i station hstation
    refine ⟨station, hstation, ?_⟩
    split at h
    · rename_i series amount rest houtbox
      rw [← Option.some.inj h]
      exact .counts series amount rest houtbox
    · rename_i parcel rest houtbox
      split at h
      · rename_i hroom
        rw [← Option.some.inj h]
        exact .sends parcel rest houtbox hroom
      · cases h
    · rename_i houtbox
      split at h
      · cases h
      · rename_i hphase
        rw [← Option.some.inj h]
        exact .finishes houtbox hphase
      · rename_i hphase
        dsimp only at h
        split at h
        · rename_i parcel rest hqueue
          rw [← Option.some.inj h]
          exact .receives parcel rest houtbox hphase hqueue
        · rename_i hqueue
          split at h
          · rename_i hclosed
            rw [← Option.some.inj h]
            exact .closes houtbox hphase hqueue hclosed
          · cases h

/-- A station that can do nothing waits for room, or for parcels, or has ended. -/
theorem of_work_eq_none {index : Nat} {station : Station}
    (hstation : network.stations[index]? = some station) (h : network.work? index = none) :
    (∃ parcel rest, station.outbox = .send parcel :: rest ∧
      network.hasRoom parcel.channel = false) ∨
    station.outbox = [] ∧ (station.phase = .finished ∨ station.phase = .working ∧
      network.queue station.role.input = [] ∧ network.isClosed station.role.input = false) := by
  unfold work? at h
  rw [hstation] at h
  dsimp only at h
  split at h
  · cases h
  · rename_i parcel rest houtbox
    split at h
    · cases h
    · rename_i hroom
      exact .inl ⟨parcel, rest, houtbox, eq_false_of_ne_true hroom⟩
  · rename_i houtbox
    refine .inr ⟨houtbox, ?_⟩
    split at h
    · rename_i hphase
      exact .inl hphase
    · cases h
    · rename_i hphase
      split at h
      · cases h
      · rename_i hqueue
        split at h
        · cases h
        · rename_i hclosed
          exact .inr ⟨hphase, hqueue, eq_false_of_ne_true hclosed⟩

/-! ## Moves of the hand-out -/

/-- What the hand-out does if only observations are in its queue: it goes on with the one in
    hand, takes the next, or ends. -/
inductive Dispatching (network : Network) : Network → Prop
  | goesOn (result : List (Series × Nat) × FanOut)
      (hstep : network.fanOut.handOut? = some result) :
    Dispatching network (network.withFanOut result)
  | takes (observation : Observation) (rest : List Parcel) (hhand : network.fanOut.hand = none)
      (hopen : network.fanOut.closing = false)
      (hqueue : network.queue .results = .result observation :: rest) :
    Dispatching network
      { network.setQueue .results rest with fanOut := network.fanOut.take observation }
  | closes (hhand : network.fanOut.hand = none) (hopen : network.fanOut.closing = false)
      (hqueue : network.queue .results = []) (hclosed : network.isClosed .results = true) :
    Dispatching network { network with fanOut := network.fanOut.close }

theorem dispatching (htyped : ∀ parcel ∈ network.queue .results, parcel.channel = .results)
    (h : network.dispatch? = some after) : Dispatching network after := by
  unfold dispatch? at h
  split at h
  · obtain ⟨result, hresult, heq⟩ := Option.map_eq_some_iff.mp h
    rw [← heq]
    exact .goesOn result hresult
  · rename_i hhand
    split at h
    · cases h
    · rename_i hopen
      split at h
      · rename_i observation rest hqueue
        rw [← Option.some.inj h]
        exact .takes observation rest hhand (eq_false_of_ne_true hopen) hqueue
      · rename_i other rest hother hqueue
        -- only observations are in this queue
        have hchannel := htyped other (by rw [hqueue]; exact List.mem_cons_self ..)
        cases other with
        | result observation => exact absurd rfl (hother observation)
        | _ => cases hchannel
      · rename_i hqueue
        split at h
        · rename_i hclosed
          rw [← Option.some.inj h]
          exact .closes hhand (eq_false_of_ne_true hopen) hqueue hclosed
        · cases h

/-- A hand-out that can do nothing has an observation in hand that waits for a sink, or waits
    for observations, or has ended. -/
theorem of_dispatch_eq_none (h : network.dispatch? = none) :
    network.fanOut.hand ≠ none ∧ network.fanOut.handOut? = none ∨
    network.fanOut.hand = none ∧ (network.fanOut.closing = true ∨
      network.fanOut.closing = false ∧ network.queue .results = [] ∧
        network.isClosed .results = false) := by
  unfold dispatch? at h
  split at h
  · rename_i hhand
    exact .inl ⟨by rw [hhand]; simp, Option.map_eq_none_iff.mp h⟩
  · rename_i hhand
    refine .inr ⟨hhand, ?_⟩
    split at h
    · rename_i hclosing
      exact .inl hclosing
    · rename_i hopen
      refine .inr ⟨eq_false_of_ne_true hopen, ?_⟩
      split at h
      · cases h
      · cases h
      · rename_i hqueue
        split at h
        · cases h
        · rename_i hclosed
          exact ⟨hqueue, eq_false_of_ne_true hclosed⟩

/-! ## Runs that nothing disturbs -/

/-- What happens in a run without a shutdown, in which no idle state is found. -/
inductive Undisturbed : Network → Network → Prop
  | step {before after : Network} (hstep : before.Step after) : Undisturbed before after
  | clock (network : Network) (duration : Nat) :
    Undisturbed network { network with now := network.now + duration }
  | tick {before after : Network} {index : Nat} {station : Station}
      (hstation : before.stations[index]? = some station)
      (hidle : station.role.tick (before.now - before.plan.gcInterval) = (station.role, []))
      (htick : before.tick? index = some after) : Undisturbed before after

/-- What a run can come to that nothing disturbs. -/
inductive Reaches (start : Network) : Network → Prop
  | refl : Reaches start start
  | next {before after : Network} (hbefore : Reaches start before)
      (hnext : Undisturbed before after) : Reaches start after

/-- What a tick that finds nothing changes: when the next one is due. -/
theorem tick_spec {index : Nat} {station : Station}
    (hstation : network.stations[index]? = some station)
    (hidle : station.role.tick (network.now - network.plan.gcInterval) = (station.role, []))
    (h : network.tick? index = some after) :
    ∃ nextTick, after = network.setStation index { station with nextTick } := by
  unfold tick? at h
  rw [hstation] at h
  dsimp only at h
  split at h
  · rw [hidle] at h
    exact ⟨_, (Option.some.inj h).symm⟩
  · cases h

end Network

variable {network after : Network}

/-! ## Closed queues -/

theorem isClosed_iff (network : Network) (channel : Channel) :
    network.isClosed channel = true ↔
      (channel = .packets → network.reader.phase = .finished) ∧
        ∀ station ∈ network.stations, station.isDoneWith channel = true := by
  unfold Network.isClosed
  rw [Bool.and_eq_true, List.all_eq_true, Bool.or_eq_true, decide_eq_true_iff]
  refine and_congr ?_ Iff.rfl
  unfold Reader.isFinished
  rw [decide_eq_true_iff]
  constructor
  · rintro (hne | hfinished) heq
    · exact absurd heq hne
    · exact hfinished
  · intro h
    by_cases heq : channel = .packets
    · exact .inr (h heq)
    · exact .inl heq

/-- A queue that is closed stays so as long as nobody takes up work again. -/
theorem isClosed_mono {index : Nat} {station changed : Station}
    (hreader : network.reader.phase = .finished → after.reader.phase = .finished)
    (hstation : network.stations[index]? = some station)
    (hstations : after.stations = network.stations.set index changed) {channel : Channel}
    (hdone : station.isDoneWith channel = true → changed.isDoneWith channel = true)
    (h : network.isClosed channel = true) : after.isClosed channel = true := by
  obtain ⟨hpackets, hall⟩ := (isClosed_iff ..).mp h
  refine (isClosed_iff ..).mpr ⟨fun heq => hreader (hpackets heq), fun other hother => ?_⟩
  rw [hstations] at hother
  rcases List.mem_or_eq_of_mem_set hother with hother | rfl
  · exact hall other hother
  · exact hdone (hall station (List.mem_of_getElem? hstation))

/-- A station that has something to send is not done with the queue into which it goes. -/
theorem not_isClosed_of_sends {station : Station} (hstation : station ∈ network.stations)
    {channel : Channel} (hfeeds : station.role.feeds channel = true)
    (hphase : station.phase ≠ .finished) : network.isClosed channel = false := by
  by_contra hclosed
  have hdone := ((isClosed_iff ..).mp (eq_true_of_ne_false hclosed)).2 station hstation
  unfold Station.isDoneWith at hdone
  rw [hfeeds] at hdone
  simp [hphase] at hdone

/-- Taking the first parcel of a queue does not fill an empty one. -/
theorem queue_setQueue_of_empty {taken channel : Channel} {first : Parcel} {rest : List Parcel}
    (hqueue : network.queue taken = first :: rest) (hempty : network.queue channel = []) :
    (network.setQueue taken rest).queue channel = [] := by
  rw [Network.queue_setQueue]
  split
  · rename_i heq
    rw [heq, hqueue] at hempty
    cases hempty
  · exact hempty

end PassiveDns.Pipeline
