/-
  PassiveDns.Proofs.Pipeline.History

  The history of a run: what was counted, what was put into the queues, and what was taken
  from them. A run that is not asked to stop goes on by moves of its parts and by the clock
  (`Logged`), and what each of these can be is said once (`Doing`), together with what it
  leaves in the history.
-/
import PassiveDns.Proofs.Pipeline.Moves

namespace PassiveDns.Pipeline

open PassiveDns.Sink (FanOut)

/-! ## Notes -/

/-- Something that happened in a run: a series was counted up, a parcel was put into its queue,
    or a parcel was taken from there. -/
inductive Note where
  | counted (series : Series) (amount : Nat)
  | sent (parcel : Parcel)
  | received (parcel : Parcel)
deriving Repr, DecidableEq

/-- The notes of several series that are counted up. -/
def notesOf (tally : List (Series × Nat)) : List Note :=
  tally.map fun entry => .counted entry.1 entry.2

/-- The parcel that was put into a queue. -/
def Note.sent? : Note → Option Parcel
  | sent parcel => some parcel
  | _ => none

/-- The parcel that was taken from a queue. -/
def Note.received? : Note → Option Parcel
  | received parcel => some parcel
  | _ => none

/-- The observation in a parcel. -/
def Parcel.observation? : Parcel → Option Observation
  | result observation => some observation
  | _ => none

/-- All parcels that were put into queues, in order. -/
def sentIn (log : List Note) : List Parcel := log.filterMap Note.sent?

/-- All parcels that were taken from queues, in order. -/
def receivedIn (log : List Note) : List Parcel := log.filterMap Note.received?

/-- All observations that were taken by the hand-out, in order. -/
def givenIn (log : List Note) : List Observation :=
  (receivedIn log).filterMap Parcel.observation?

@[simp] theorem sentIn_append (log more : List Note) :
    sentIn (log ++ more) = sentIn log ++ sentIn more :=
  List.filterMap_append

@[simp] theorem receivedIn_append (log more : List Note) :
    receivedIn (log ++ more) = receivedIn log ++ receivedIn more :=
  List.filterMap_append

@[simp] theorem sentIn_notesOf (tally : List (Series × Nat)) : sentIn (notesOf tally) = [] := by
  unfold sentIn notesOf
  rw [List.filterMap_map]
  exact List.filterMap_eq_nil_iff.mpr fun _ _ => rfl

@[simp] theorem receivedIn_notesOf (tally : List (Series × Nat)) :
    receivedIn (notesOf tally) = [] := by
  unfold receivedIn notesOf
  rw [List.filterMap_map]
  exact List.filterMap_eq_nil_iff.mpr fun _ _ => rfl

theorem givenIn_notesOf (tally : List (Series × Nat)) : givenIn (notesOf tally) = [] := by
  unfold givenIn
  rw [receivedIn_notesOf]
  rfl

theorem givenIn_append (log more : List Note) :
    givenIn (log ++ more) = givenIn log ++ givenIn more := by
  unfold givenIn
  rw [receivedIn_append, List.filterMap_append]

namespace Network

/-- What the next move of the reader leaves in the history. -/
def readNotes (network : Network) : List Note :=
  match network.reader.phase with
  | .asking =>
    match network.source with
    | arrival :: _ =>
      .counted (.packets "captured") 1 ::
        notesOf (network.reader.take arrival.frame arrival.time).1
    | [] => []
  | .holding frame =>
    if network.takesPackets && network.hasRoom .packets then [.sent (.packet frame)] else []
  | _ => []

/-- What the next errand or parcel of a station leaves in the history. -/
def workNotes (network : Network) (index : Nat) : List Note :=
  match network.stations[index]? with
  | none => []
  | some station =>
    match station.outbox with
    | .count series amount :: _ => [.counted series amount]
    | .send parcel :: _ => [.sent parcel]
    | [] =>
      if station.phase = .working then
        ((network.queue station.role.input).take 1).map .received
      else []

/-- What the next move of the hand-out leaves in the history. -/
def dispatchNotes (network : Network) : List Note :=
  match network.fanOut.hand with
  | some _ => notesOf ((network.fanOut.handOut?.map Prod.fst).getD [])
  | none =>
    if network.fanOut.closing then [] else ((network.queue .results).take 1).map .received

/-- What a move leaves in the history. -/
def notes (network : Network) : Move → List Note
  | .read => network.readNotes
  | .work index => network.workNotes index
  | .tick _ => []
  | .dispatch => network.dispatchNotes
  | .write index => notesOf (((network.fanOut.write? index).map Prod.fst).getD [])

/-! ## Runs with their history -/

/-- What happens in a run that is not asked to stop: somebody acts, a station looks for idle
    state, or time goes by. -/
inductive Goes : Network → List Note → Network → Prop
  | acts {before after : Network} (move : Move) (hfire : before.fire? move = some after) :
    Goes before (before.notes move) after
  | clock (network : Network) (duration : Nat) :
    Goes network [] { network with now := network.now + duration }

/-- What a run can come to, with its history. -/
inductive Logged (start : Network) : List Note → Network → Prop
  | refl : Logged start [] start
  | next {log more : List Note} {before after : Network} (hbefore : Logged start log before)
      (hgoes : Goes before more after) : Logged start (log ++ more) after

/-- In a run that nothing disturbs only what is known of a run happens. -/
theorem Reaches.exists_log {start network : Network} (h : start.Reaches network) :
    ∃ log, start.Logged log network := by
  induction h with
  | refl => exact ⟨[], .refl⟩
  | next _ hnext ih =>
    obtain ⟨log, hlog⟩ := ih
    cases hnext with
    | step hstep =>
      obtain ⟨move, _, hfire⟩ := hstep
      exact ⟨_, .next hlog (.acts move hfire)⟩
    | clock duration => exact ⟨_, .next hlog (.clock _ duration)⟩
    | tick _ _ htick => exact ⟨_, .next hlog (.acts (.tick _) htick)⟩

/-- Makes moves one after the other, if all of them are possible. -/
def make? (network : Network) (moves : List Move) : Option Network := moves.foldlM fire? network

/-- Moves that are possible are part of a run. -/
theorem Logged.make {start before after : Network} {log : List Note} (h : start.Logged log before)
    {moves : List Move} (hmoves : before.make? moves = some after) :
    ∃ log, start.Logged log after := by
  induction moves generalizing before log with
  | nil =>
    obtain rfl := Option.some.inj hmoves
    exact ⟨log, h⟩
  | cons move rest ih =>
    unfold make? at hmoves
    rw [List.foldlM_cons] at hmoves
    obtain ⟨next, hfire, hrest⟩ := Option.bind_eq_some_iff.mp hmoves
    exact ih (.next h (.acts move hfire)) hrest

/-! ## What can happen -/

/-- The errands of a tick go in front of those that a station still has to run. -/
def ticked (network : Network) (index : Nat) (station : Station) (nextTick : Instant) : Network :=
  network.setStation index { station with
    role := (station.role.tick (network.now - network.plan.gcInterval)).1
    outbox := (station.role.tick (network.now - network.plan.gcInterval)).2 ++ station.outbox
    nextTick }

/-- All that can happen in a run that is not asked to stop and whose queues hold what belongs
    there, with what it leaves in the history. -/
inductive Doing (network : Network) : List Note → Network → Prop
  | clock (duration : Nat) : Doing network [] { network with now := network.now + duration }
  | waits (hphase : network.reader.phase = .deciding) :
    Doing network [] { network with reader := { network.reader with phase := .asking } }
  | takes (arrival : Arrival) (rest : List Arrival) (hphase : network.reader.phase = .asking)
      (hsource : network.source = arrival :: rest) :
    Doing network (.counted (.packets "captured") 1 ::
        notesOf (network.reader.take arrival.frame arrival.time).1)
      (network.readFrame arrival rest)
  | ends (hphase : network.reader.phase = .asking) (hsource : network.source = []) :
    Doing network [] (network.endReader none)
  | queues (frame : Frame) (hphase : network.reader.phase = .holding frame)
      (hroom : network.hasRoom .packets = true) :
    Doing network [.sent (.packet frame)] { network.push (.packet frame) with
      reader := { network.reader with phase := .deciding } }
  | counts (index : Nat) (station : Station) (series : Series) (amount : Nat)
      (rest : List Errand) (hstation : network.stations[index]? = some station)
      (houtbox : station.outbox = .count series amount :: rest) :
    Doing network [.counted series amount]
      { network.setStation index { station with outbox := rest } with
        metrics := network.metrics.add series amount }
  | sends (index : Nat) (station : Station) (parcel : Parcel) (rest : List Errand)
      (hstation : network.stations[index]? = some station)
      (houtbox : station.outbox = .send parcel :: rest)
      (hroom : network.hasRoom parcel.channel = true) :
    Doing network [.sent parcel]
      ((network.push parcel).setStation index { station with outbox := rest })
  | receives (index : Nat) (station : Station) (parcel : Parcel) (rest : List Parcel)
      (hstation : network.stations[index]? = some station) (houtbox : station.outbox = [])
      (hphase : station.phase = .working)
      (hqueue : network.queue station.role.input = parcel :: rest) :
    Doing network [.received parcel]
      ((network.setQueue station.role.input rest).setStation index { station with
        role := (station.role.receive network.plan network.now parcel).1
        outbox := (station.role.receive network.plan network.now parcel).2 })
  | closes (index : Nat) (station : Station) (hstation : network.stations[index]? = some station)
      (houtbox : station.outbox = []) (hphase : station.phase = .working)
      (hqueue : network.queue station.role.input = [])
      (hclosed : network.isClosed station.role.input = true) :
    Doing network []
      (network.setStation index { station with
        role := station.role.finish.1
        outbox := station.role.finish.2
        phase := .closing })
  | finishes (index : Nat) (station : Station)
      (hstation : network.stations[index]? = some station) (houtbox : station.outbox = [])
      (hphase : station.phase = .closing) :
    Doing network [] (network.setStation index { station with phase := .finished })
  | looks (index : Nat) (station : Station) (nextTick : Instant)
      (hstation : network.stations[index]? = some station) (hphase : station.phase = .working) :
    Doing network [] (network.ticked index station nextTick)
  | serves (result : List (Series × Nat) × FanOut)
      (hstep : network.fanOut.handOut? = some result) :
    Doing network (notesOf result.1) (network.withFanOut result)
  | gives (observation : Observation) (rest : List Parcel) (hhand : network.fanOut.hand = none)
      (hopen : network.fanOut.closing = false)
      (hqueue : network.queue .results = .result observation :: rest) :
    Doing network [.received (.result observation)]
      { network.setQueue .results rest with fanOut := network.fanOut.take observation }
  | givesNoMore (hhand : network.fanOut.hand = none) (hopen : network.fanOut.closing = false)
      (hqueue : network.queue .results = []) (hclosed : network.isClosed .results = true) :
    Doing network [] { network with fanOut := network.fanOut.close }
  | writes (index : Nat) (result : List (Series × Nat) × FanOut)
      (hstep : network.fanOut.write? index = some result) :
    Doing network (notesOf result.1) (network.withFanOut result)

variable {network after : Network}

theorem doing_read (hstopping : network.stopping = false)
    (hend : network.sourceEnd = some .exhausted)
    (htakes : network.reader.phase ≠ .finished → network.takesPackets = true)
    (h : network.read? = some after) : Doing network network.readNotes after := by
  cases reading hstopping hend htakes h with
  | waits hphase =>
    unfold readNotes
    rw [hphase]
    exact .waits hphase
  | takes arrival rest hphase hsource =>
    unfold readNotes
    rw [hphase, hsource]
    exact .takes arrival rest hphase hsource
  | ends hphase hsource =>
    unfold readNotes
    rw [hphase, hsource]
    exact .ends hphase hsource
  | queues frame hphase hroom =>
    unfold readNotes
    rw [hphase]
    dsimp only
    rw [htakes (by rw [hphase]; simp), hroom]
    exact .queues frame hphase hroom

theorem doing_work {index : Nat} (h : network.work? index = some after) :
    Doing network (network.workNotes index) after := by
  obtain ⟨station, hstation, hworking⟩ := working h
  unfold workNotes
  rw [hstation]
  dsimp only
  cases hworking with
  | counts series amount rest houtbox =>
    rw [houtbox]
    exact .counts index station series amount rest hstation houtbox
  | sends parcel rest houtbox hroom =>
    rw [houtbox]
    exact .sends index station parcel rest hstation houtbox hroom
  | receives parcel rest houtbox hphase hqueue =>
    rw [houtbox]
    dsimp only
    rw [if_pos hphase, hqueue]
    exact .receives index station parcel rest hstation houtbox hphase hqueue
  | closes houtbox hphase hqueue hclosed =>
    rw [houtbox]
    dsimp only
    rw [if_pos hphase, hqueue]
    exact .closes index station hstation houtbox hphase hqueue hclosed
  | finishes houtbox hphase =>
    have hfinishes := Doing.finishes index station hstation houtbox hphase
    rw [houtbox] at hfinishes ⊢
    dsimp only
    rw [if_neg (by rw [hphase]; simp)]
    exact hfinishes

theorem doing_tick {index : Nat} (h : network.tick? index = some after) :
    Doing network [] after := by
  unfold tick? at h
  split at h
  · cases h
  · rename_i station hstation
    split at h
    · rename_i htime
      simp only [Bool.and_eq_true, decide_eq_true_eq] at htime
      rw [← Option.some.inj h]
      exact .looks index station _ hstation htime.1.1.2
    · cases h

theorem doing_dispatch (htyped : ∀ parcel ∈ network.queue .results, parcel.channel = .results)
    (h : network.dispatch? = some after) : Doing network network.dispatchNotes after := by
  unfold dispatchNotes
  cases dispatching htyped h with
  | goesOn result hstep =>
    have hhand : network.fanOut.hand ≠ none := fun hnone => by
      unfold Sink.FanOut.handOut? at hstep
      rw [hnone] at hstep
      cases hstep
    obtain ⟨entry, hentry⟩ := Option.ne_none_iff_exists'.mp hhand
    rw [hentry, hstep]
    exact .serves result hstep
  | takes observation rest hhand hopen hqueue =>
    rw [hhand, hopen, hqueue]
    exact .gives observation rest hhand hopen hqueue
  | closes hhand hopen hqueue hclosed =>
    rw [hhand, hopen, hqueue]
    exact .givesNoMore hhand hopen hqueue hclosed

theorem doing_write {index : Nat} (h : network.write? index = some after) :
    Doing network (network.notes (.write index)) after := by
  obtain ⟨result, hresult, rfl⟩ := Option.map_eq_some_iff.mp h
  unfold notes
  dsimp only
  rw [hresult]
  exact .writes index result hresult

end Network

end PassiveDns.Pipeline
