/-
  PassiveDns.Proofs.Pipeline.Termination

  A run that nothing disturbs ends. What is left to do is counted level by level along the
  way from the packets to the sinks. A move lowers its own level and raises at most later
  ones (`Keeps.lighter`), which cannot go on for ever. So a run in which somebody acts again
  and again comes to its end (`eventually_finished`).
-/
import Mathlib.Algebra.Order.BigOperators.Group.List
import Mathlib.Algebra.Order.Group.Nat
import Mathlib.Data.DFinsupp.WellFounded
import PassiveDns.Proofs.Pipeline.Progress

namespace PassiveDns.Pipeline

/-! ## Levels -/

/-- On some level there is less to do, and on those before it as much. -/
def Lighter {α : Type} (levels : Nat) (load : α → Nat → Nat) (after before : α) : Prop :=
  ∃ level < levels, load after level < load before level ∧
    ∀ lower < level, load after lower = load before lower

theorem wellFounded_lighter {α : Type} (levels : Nat) (load : α → Nat → Nat) :
    WellFounded (Lighter levels load) := by
  have hlex : WellFounded (Pi.Lex (· < ·) fun {_ : Fin levels} (a b : Nat) => a < b) :=
    Pi.Lex.wellFounded _ fun _ => Nat.lt_wfRel.wf
  refine Subrelation.wf ?_ (InvImage.wf (fun a (level : Fin levels) => load a level) hlex)
  rintro a b ⟨level, hlevel, hless, hsame⟩
  exact ⟨⟨level, hlevel⟩, fun lower hlower => hsame lower hlower, hless⟩

/-! ## What is left to do -/

/-- The moves that a reader makes apart from those for the frames in the source. -/
def ReaderPhase.load : ReaderPhase → Nat
  | holding _ => 3
  | deciding => 2
  | asking => 1
  | finished => 0

/-- The moves that a station makes at its end. -/
def Phase.load : Phase → Nat
  | working => 2
  | closing => 1
  | finished => 0

/-- What stations have to receive and to end, of those that receive from queues of a rank. -/
def waitingOf (stations : List Station) (queue : Channel → List Parcel) (rank : Nat) : Nat :=
  (stations.map fun station =>
    if station.role.input.rank = rank then (queue station.role.input).length + station.phase.load
    else 0).sum

/-- The errands of these stations. -/
def errandsOf (stations : List Station) (rank : Nat) : Nat :=
  (stations.map fun station =>
    if station.role.input.rank = rank then station.outbox.length else 0).sum

namespace Network

/-- What the reader has to do. -/
def readLoad (network : Network) : Nat :=
  4 * network.source.length + network.reader.phase.load

/-- What the hand-out has to take and to end. -/
def resultLoad (network : Network) : Nat :=
  (network.queue .results).length + if network.fanOut.closing then 0 else 1

/-- What is left to do on each level: the reader comes first, then the stations in the order
    of the queues from which they receive, then the hand-out, and the sinks last. -/
def load (network : Network) (level : Nat) : Nat :=
  if level = 0 then network.readLoad
  else if level = 11 then network.resultLoad
  else if level = 12 then network.fanOut.handLoad
  else if level = 13 then network.fanOut.writeLoad
  else if level % 2 = 1 then waitingOf network.stations network.queue (level / 2)
  else errandsOf network.stations (level / 2 - 1)

/-- The levels that there are. -/
def levels : Nat := 14

variable {network after : Network}

theorem load_waiting (network : Network) {rank : Nat} (h : rank < 5) :
    network.load (2 * rank + 1) = waitingOf network.stations network.queue rank := by
  have hodd : (2 * rank + 1) % 2 = 1 := by omega
  have hhalf : (2 * rank + 1) / 2 = rank := by omega
  unfold load
  rw [if_neg (by omega), if_neg (by omega), if_neg (by omega), if_neg (by omega),
    if_pos hodd, hhalf]

theorem load_errands (network : Network) {rank : Nat} (h : rank < 5) :
    network.load (2 * rank + 2) = errandsOf network.stations rank := by
  have heven : (2 * rank + 2) % 2 ≠ 1 := by omega
  have hhalf : (2 * rank + 2) / 2 - 1 = rank := by omega
  unfold load
  rw [if_neg (by omega), if_neg (by omega), if_neg (by omega), if_neg (by omega),
    if_neg heven, hhalf]

/-- Levels at the stations, or before them, on which nothing has changed. -/
theorem load_eq_of {level : Nat} (hlevel : level ≤ 11) (hread : after.readLoad = network.readLoad)
    (hwaiting : ∀ rank, 2 * rank + 1 < level →
      waitingOf after.stations after.queue rank = waitingOf network.stations network.queue rank)
    (herrands : ∀ rank, 2 * rank + 2 < level →
      errandsOf after.stations rank = errandsOf network.stations rank) :
    ∀ lower < level, after.load lower = network.load lower := by
  intro lower hlower
  rcases Nat.eq_zero_or_pos lower with rfl | hpos
  · exact hread
  · rcases Nat.mod_two_eq_zero_or_one lower with heven | hodd
    · have heq : 2 * (lower / 2 - 1) + 2 = lower := by omega
      rw [← heq, load_errands _ (by omega), load_errands _ (by omega)]
      exact herrands _ (by omega)
    · have heq : 2 * (lower / 2) + 1 = lower := by omega
      rw [← heq, load_waiting _ (by omega), load_waiting _ (by omega)]
      exact hwaiting _ (by omega)

end Network

/-! ## Stations that change -/

variable {stations : List Station} {queue other : Channel → List Parcel} {rank index : Nat}
  {station changed : Station}

/-- Only the queues of a rank matter to the stations of that rank. -/
theorem waitingOf_congr
    (h : ∀ channel, channel.rank = rank → (other channel).length = (queue channel).length) :
    waitingOf stations other rank = waitingOf stations queue rank := by
  unfold waitingOf
  congr 1
  refine List.map_congr_left fun s _ => ?_
  by_cases hrank : s.role.input.rank = rank
  · rw [if_pos hrank, if_pos hrank, h _ hrank]
  · rw [if_neg hrank, if_neg hrank]

/-- A station from whose queue a parcel was taken has less to receive. -/
theorem waitingOf_lt (hstation : station ∈ stations)
    (hless : (other station.role.input).length < (queue station.role.input).length)
    (h : ∀ channel, (other channel).length ≤ (queue channel).length) :
    waitingOf stations other station.role.input.rank <
      waitingOf stations queue station.role.input.rank := by
  unfold waitingOf
  refine List.sum_lt_sum _ _ (fun s _ => ?_) ⟨station, hstation, ?_⟩
  · split
    · exact Nat.add_le_add_right (h _) _
    · exact Nat.le_refl _
  · rw [if_pos rfl, if_pos rfl]
    exact Nat.add_lt_add_right hless _

/-- What is left to receive and to end when one station changes. -/
theorem waitingOf_set (queue : Channel → List Parcel) (hstation : stations[index]? = some station)
    (hinput : changed.role.input = station.role.input) (rank : Nat) :
    waitingOf (stations.set index changed) queue rank +
        (if station.role.input.rank = rank then station.phase.load else 0) =
      waitingOf stations queue rank +
        if station.role.input.rank = rank then changed.phase.load else 0 := by
  have hsum := sum_map_set (fun station : Station =>
    if station.role.input.rank = rank then (queue station.role.input).length + station.phase.load
    else 0) hstation (b := changed)
  unfold waitingOf
  rw [hinput] at hsum
  split at hsum
  · rename_i hrank
    rw [if_pos hrank, if_pos hrank]
    omega
  · rename_i hrank
    rw [if_neg hrank, if_neg hrank]
    omega

theorem errandsOf_set (hstation : stations[index]? = some station)
    (hinput : changed.role.input = station.role.input) (rank : Nat) :
    errandsOf (stations.set index changed) rank +
        (if station.role.input.rank = rank then station.outbox.length else 0) =
      errandsOf stations rank +
        if station.role.input.rank = rank then changed.outbox.length else 0 := by
  have hsum := sum_map_set (fun station : Station =>
    if station.role.input.rank = rank then station.outbox.length else 0) hstation (b := changed)
  unfold errandsOf
  rw [hinput] at hsum
  exact hsum

theorem input_rank_lt (role : Role) : role.input.rank < 5 := by
  cases role <;> simp [Role.input, Channel.rank]

namespace Network

variable {network after : Network}

/-- A station that runs an errand lowers the level of its errands: whatever it sends goes
    behind that level. -/
theorem lighter_of_errand (hstation : network.stations[index]? = some station)
    (hsource : after.source = network.source) (hreader : after.reader = network.reader)
    (hstations : after.stations = network.stations.set index changed)
    (hrole : changed.role = station.role) (hphase : changed.phase = station.phase)
    (houtbox : changed.outbox.length < station.outbox.length)
    (hqueue : ∀ channel, channel.rank ≤ station.role.input.rank →
      after.queue channel = network.queue channel) : Lighter levels load after network := by
  have hrank := input_rank_lt station.role
  have hinput : changed.role.input = station.role.input := by rw [hrole]
  refine ⟨2 * station.role.input.rank + 2, by unfold levels; omega, ?_,
    load_eq_of (by omega) ?_ (fun rank hlower => ?_) (fun rank hlower => ?_)⟩
  · -- on the level itself there is one errand less
    have hset := errandsOf_set hstation hinput station.role.input.rank
    rw [load_errands _ hrank, load_errands _ hrank, hstations]
    rw [if_pos rfl, if_pos rfl] at hset
    omega
  · unfold readLoad
    rw [hsource, hreader]
  · -- what was sent went behind the queues that count here
    have hset := waitingOf_set after.queue hstation hinput rank
    rw [hphase] at hset
    rw [hstations, Nat.add_right_cancel hset]
    exact waitingOf_congr fun channel hchannel => by rw [hqueue channel (by omega)]
  · have hset := errandsOf_set hstation hinput rank
    rw [if_neg (by omega), if_neg (by omega)] at hset
    rw [hstations]
    exact hset

/-- A station that receives or ends lowers the level on which it does, whatever errands come
    of it. -/
theorem lighter_of_turn (hstation : network.stations[index]? = some station)
    (hsource : after.source = network.source) (hreader : after.reader = network.reader)
    (hstations : after.stations = network.stations.set index changed)
    (hinput : changed.role.input = station.role.input)
    (hqueue : ∀ channel, channel ≠ station.role.input → after.queue channel = network.queue channel)
    (hless : (after.queue station.role.input).length + changed.phase.load <
      (network.queue station.role.input).length + station.phase.load)
    (hlength : (after.queue station.role.input).length ≤
      (network.queue station.role.input).length)
    (hphase : changed.phase.load ≤ station.phase.load) : Lighter levels load after network := by
  have hrank := input_rank_lt station.role
  refine ⟨2 * station.role.input.rank + 1, by unfold levels; omega, ?_,
    load_eq_of (by omega) ?_ (fun rank hlower => ?_) (fun rank hlower => ?_)⟩
  · have hset := waitingOf_set after.queue hstation hinput station.role.input.rank
    rw [load_waiting _ hrank, load_waiting _ hrank, hstations]
    rw [if_pos rfl, if_pos rfl] at hset
    have hall (channel : Channel) :
        (after.queue channel).length ≤ (network.queue channel).length := by
      by_cases heq : channel = station.role.input
      · rw [heq]
        exact hlength
      · rw [hqueue channel heq]
    -- either a parcel was received, or the station has come nearer to its end
    by_cases hshorter : (after.queue station.role.input).length <
        (network.queue station.role.input).length
    · have hlt := waitingOf_lt (List.mem_of_getElem? hstation) hshorter hall
      omega
    · have hsame : waitingOf network.stations after.queue station.role.input.rank =
          waitingOf network.stations network.queue station.role.input.rank := by
        refine waitingOf_congr fun channel _ => ?_
        by_cases heq : channel = station.role.input
        · rw [heq]
          omega
        · rw [hqueue channel heq]
      omega
  · unfold readLoad
    rw [hsource, hreader]
  · have hset := waitingOf_set after.queue hstation hinput rank
    rw [if_neg (by omega), if_neg (by omega)] at hset
    rw [hstations]
    refine hset.trans (waitingOf_congr fun channel hchannel => ?_)
    have hne : channel ≠ station.role.input := fun heq => by
      rw [heq] at hchannel
      omega
    rw [hqueue channel hne]
  · have hset := errandsOf_set hstation hinput rank
    rw [if_neg (by omega), if_neg (by omega)] at hset
    rw [hstations]
    exact hset

/-- A move behind the stations. -/
theorem lighter_of_behind {level : Nat} (hlevel : level < levels)
    (hsource : after.source = network.source) (hreader : after.reader = network.reader)
    (hstations : after.stations = network.stations)
    (hqueue : ∀ channel, channel ≠ .results → after.queue channel = network.queue channel)
    (hless : after.load level < network.load level)
    (hsame : ∀ lower, 11 ≤ lower → lower < level → after.load lower = network.load lower) :
    Lighter levels load after network := by
  refine ⟨level, hlevel, hless, fun lower hlower => ?_⟩
  -- the levels up to the stations do not look at the results
  rcases Nat.lt_or_ge lower 11 with hbefore | hbehind
  · refine load_eq_of (Nat.le_refl 11) ?_ (fun rank hrank => ?_) (fun rank _ => ?_) lower hbefore
    · unfold readLoad
      rw [hsource, hreader]
    · rw [hstations]
      refine waitingOf_congr fun channel hchannel => ?_
      have hne : channel ≠ .results := fun heq => by
        rw [heq] at hchannel
        simp only [Channel.rank] at hchannel
        omega
      rw [hqueue channel hne]
    · rw [hstations]
  · exact hsame lower hbehind hlower

end Network

/-! ## Moves -/

namespace Ledger.Keeps

variable {plan : Plan} {frames : List Frame} {ledger : Ledger} {network after : Network}

theorem lighter_read (h : ledger.Keeps plan frames network)
    (hvalid : plan.settings.validate = .ok ()) (hstep : network.read? = some after) :
    Lighter Network.levels Network.load after network := by
  have hreads := h.reads
  refine ⟨0, by decide, ?_, fun lower hlower => absurd hlower (Nat.not_lt_zero _)⟩
  show after.readLoad < network.readLoad
  unfold Network.readLoad
  cases Network.reading hreads.stopping hreads.sourceEnd (h.takesPackets hvalid) hstep with
  | waits hphase =>
    rw [hphase]
    exact Nat.lt_succ_self _
  | takes arrival rest hphase hsource =>
    obtain ⟨metrics, heq⟩ := h.readFrame_spec arrival rest
    rw [heq, hphase, hsource]
    simp only [ReaderPhase.load, List.length_cons]
    omega
  | ends hphase hsource =>
    rw [hphase]
    exact Nat.lt_succ_self _
  | queues frame hphase hroom =>
    rw [hphase]
    exact Nat.lt_succ_self _

theorem lighter_work (h : ledger.Keeps plan frames network)
    (hvalid : plan.settings.validate = .ok ()) {index : Nat} {station : Station}
    (hstation : network.stations[index]? = some station)
    (hworking : Network.Working network index station after) :
    Lighter Network.levels Network.load after network := by
  obtain ⟨track, htrack, rfl⟩ := h.track_of_station hstation
  have hruns := h.runs track (List.mem_of_getElem? htrack)
  cases hworking with
  | counts series amount rest houtbox =>
    refine Network.lighter_of_errand hstation rfl rfl rfl rfl rfl ?_ fun _ _ => rfl
    rw [houtbox]
    exact Nat.lt_succ_self _
  | sends parcel rest houtbox hroom =>
    have hsends : parcel ∈ sendsOf track.station.outbox := by
      rw [houtbox, sendsOf_send]
      exact List.mem_cons_self ..
    -- no station sends into a queue of its own rank or of an earlier one
    have hbehind := Role.rank_lt_of_feeds (hruns.sends (shards_pos hvalid) hsends).1
    refine Network.lighter_of_errand hstation rfl rfl rfl rfl rfl ?_ fun channel hchannel => ?_
    · rw [houtbox]
      exact Nat.lt_succ_self _
    · show (network.push parcel).queue channel = _
      rw [Network.queue_push]
      refine if_neg fun heq => ?_
      rw [hruns.alike.input, heq] at hchannel
      omega
  | receives parcel rest houtbox hphase hqueue =>
    have hafter : (network.setQueue track.station.role.input rest).queue
        track.station.role.input = rest := by
      rw [Network.queue_setQueue]
      exact if_pos rfl
    have hlength : rest.length < (network.queue track.station.role.input).length := by
      rw [hqueue]
      exact Nat.lt_succ_self _
    refine Network.lighter_of_turn hstation rfl rfl rfl
      (Role.alike_receive network.plan network.now track.station.role parcel).input
      (fun channel hne => ?_) ?_ ?_ (Nat.le_refl _)
    · show (network.setQueue _ rest).queue channel = _
      rw [Network.queue_setQueue]
      exact if_neg hne
    · show ((network.setQueue _ rest).queue _).length + _ < _
      rw [hafter]
      exact Nat.add_lt_add_right hlength _
    · show ((network.setQueue _ rest).queue _).length ≤ _
      rw [hafter]
      exact Nat.le_of_lt hlength
  | closes houtbox hphase hqueue hclosed =>
    refine Network.lighter_of_turn hstation rfl rfl rfl (Role.alike_finish _).input
      (fun _ _ => rfl) ?_ (Nat.le_refl _) ?_
    · rw [hphase]
      exact Nat.lt_succ_self _
    · rw [hphase]
      exact Nat.le_succ _
  | finishes houtbox hphase =>
    refine Network.lighter_of_turn hstation rfl rfl rfl rfl (fun _ _ => rfl) ?_ (Nat.le_refl _) ?_
    · rw [hphase]
      exact Nat.lt_succ_self _
    · rw [hphase]
      exact Nat.le_succ _

theorem lighter_dispatch (h : ledger.Keeps plan frames network)
    (hstep : network.dispatch? = some after) :
    Lighter Network.levels Network.load after network := by
  cases Network.dispatching (h.typed .results) hstep with
  | goesOn result hresult =>
    obtain ⟨_, hless, hclosing⟩ := h.serves.handOut (Sink.FanOut.handingOut hresult)
    refine Network.lighter_of_behind (by decide : 12 < Network.levels) rfl rfl rfl
      (fun _ _ => rfl) hless fun lower hlow hhigh => ?_
    obtain rfl : lower = 11 := by omega
    show _ + _ = _ + _
    rw [show (network.withFanOut result).fanOut.closing = network.fanOut.closing from hclosing]
    rfl
  | takes observation rest hhand hopen hqueue =>
    have hafter : (network.setQueue .results rest).queue .results = rest := by
      rw [Network.queue_setQueue]
      exact if_pos rfl
    refine Network.lighter_of_behind (by decide : 11 < Network.levels) rfl rfl rfl
      (fun channel hne => ?_) ?_ fun lower hlow hhigh => absurd hlow (Nat.not_le_of_lt hhigh)
    · show (network.setQueue .results rest).queue channel = _
      rw [Network.queue_setQueue]
      exact if_neg hne
    · show ((network.setQueue .results rest).queue .results).length + _ <
        (network.queue .results).length + _
      rw [hafter, hqueue]
      exact Nat.add_lt_add_right (Nat.lt_succ_self _) _
  | closes hhand hopen hqueue hclosed =>
    refine Network.lighter_of_behind (by decide : 11 < Network.levels) rfl rfl rfl
      (fun _ _ => rfl) ?_ fun lower hlow hhigh => absurd hlow (Nat.not_le_of_lt hhigh)
    show (network.queue .results).length + 0 < (network.queue .results).length + _
    rw [hopen]
    exact Nat.lt_succ_self _

theorem lighter_write (h : ledger.Keeps plan frames network) {index : Nat}
    (hstep : network.write? index = some after) :
    Lighter Network.levels Network.load after network := by
  obtain ⟨result, hresult, rfl⟩ := Option.map_eq_some_iff.mp hstep
  obtain ⟨_, hless, _, hclosing, hhand⟩ := h.serves.write hresult
  refine Network.lighter_of_behind (by decide : 13 < Network.levels) rfl rfl rfl
    (fun _ _ => rfl) hless fun lower hlow hhigh => ?_
  rcases (by omega : lower = 11 ∨ lower = 12) with rfl | rfl
  · show _ + _ = _ + _
    rw [show (network.withFanOut result).fanOut.closing = network.fanOut.closing from hclosing]
    rfl
  · exact hhand

/-- Whoever acts leaves less to do. -/
theorem lighter (h : ledger.Keeps plan frames network) (hvalid : plan.settings.validate = .ok ())
    (hstep : network.Step after) : Lighter Network.levels Network.load after network := by
  obtain ⟨move, hmove, hfire⟩ := hstep
  cases move with
  | read => exact h.lighter_read hvalid hfire
  | work index =>
    obtain ⟨station, hstation, hworking⟩ := Network.working hfire
    exact h.lighter_work hvalid hstation hworking
  | tick index => exact absurd rfl (hmove index)
  | dispatch => exact h.lighter_dispatch hfire
  | write index => exact h.lighter_write hfire

end Ledger.Keeps

/-! ## Runs -/

namespace Network

variable {network after : Network}

/-- A tick that finds nothing leaves as much to do. -/
theorem load_setStation {index : Nat} {station changed : Station}
    (hstation : network.stations[index]? = some station) (hrole : changed.role = station.role)
    (hphase : changed.phase = station.phase) (houtbox : changed.outbox = station.outbox)
    (level : Nat) : (network.setStation index changed).load level = network.load level := by
  have hinput : changed.role.input = station.role.input := by rw [hrole]
  have hwaiting (rank : Nat) : waitingOf (network.stations.set index changed) network.queue rank =
      waitingOf network.stations network.queue rank := by
    have hset := waitingOf_set network.queue hstation hinput rank
    rw [hphase] at hset
    exact Nat.add_right_cancel hset
  have herrands (rank : Nat) : errandsOf (network.stations.set index changed) rank =
      errandsOf network.stations rank := by
    have hset := errandsOf_set hstation hinput rank
    rw [houtbox] at hset
    exact Nat.add_right_cancel hset
  show (if level = 0 then network.readLoad else if level = 11 then network.resultLoad
    else if level = 12 then network.fanOut.handLoad
    else if level = 13 then network.fanOut.writeLoad
    else if level % 2 = 1 then
      waitingOf (network.stations.set index changed) network.queue (level / 2)
    else errandsOf (network.stations.set index changed) (level / 2 - 1)) = _
  rw [hwaiting, herrands]
  rfl

/-- In a run that nothing disturbs what is left to do never grows, and whoever acts lowers
    it. -/
theorem Undisturbed.load (h : Undisturbed network after) :
    network.Step after ∨ ∀ level, after.load level = network.load level := by
  cases h with
  | step hstep => exact .inl hstep
  | clock duration => exact .inr fun _ => rfl
  | tick hstation hidle htick =>
    obtain ⟨nextTick, rfl⟩ := tick_spec hstation hidle htick
    refine .inr fun level => ?_
    apply load_setStation hstation <;> rfl

end Network

/-- A run goes on for ever, or until somebody asks it no more: its states one after another. -/
structure Running (start : Network) (run : Nat → Network) : Prop where
  start : run 0 = start
  next : ∀ time, Network.Undisturbed (run time) (run (time + 1))

theorem Running.reaches {start : Network} {run : Nat → Network} (h : Running start run)
    (time : Nat) : start.Reaches (run time) := by
  induction time with
  | zero =>
    rw [h.start]
    exact .refl
  | succ time ih => exact .next ih (h.next time)

/-- A run in which somebody acts again and again, as long as not all have ended, comes to its
    end. -/
theorem eventually_finished {plan : Plan} {frames : List Frame} {ledger : Ledger} {start : Network}
    (hvalid : plan.settings.validate = .ok ()) (hstart : ledger.Keeps plan frames start)
    {run : Nat → Network} (hrun : Running start run)
    (hacts : ∀ time, (run time).isFinished = true ∨
      ∃ later, time ≤ later ∧ (run later).Step (run (later + 1))) :
    ∃ time, (run time).isFinished = true := by
  -- what is left to do falls again and again; that it cannot do for ever
  have hfalls (before : Network) : ∀ time, (∀ level, (run time).load level = before.load level) →
      ∃ time, (run time).isFinished = true := by
    induction before using (wellFounded_lighter Network.levels Network.load).induction with
    | _ before ih =>
      have hact (time : Nat) (hsame : ∀ level, (run time).load level = before.load level)
          (hstep : (run time).Step (run (time + 1))) : ∃ time, (run time).isFinished = true := by
        obtain ⟨_, hkeeps⟩ := exists_ledger hvalid hstart (hrun.reaches time)
        obtain ⟨level, hlevel, hless, heq⟩ := hkeeps.lighter hvalid hstep
        rw [hsame] at hless
        refine ih (run (time + 1)) ⟨level, hlevel, hless, fun lower hlower => ?_⟩ (time + 1)
          fun _ => rfl
        exact (heq lower hlower).trans (hsame lower)
      intro time hsame
      rcases hacts time with hfinished | ⟨later, hlater, hstep⟩
      · exact ⟨time, hfinished⟩
      · -- until somebody acts nothing changes in what is left to do
        obtain ⟨distance, rfl⟩ := Nat.exists_eq_add_of_le hlater
        clear hlater
        induction distance generalizing time with
        | zero => exact hact time hsame hstep
        | succ distance ihd =>
          rcases (hrun.next time).load with hearly | hunchanged
          · exact hact time hsame hearly
          · refine ihd (time + 1) (fun level => (hunchanged level).trans (hsame level)) ?_
            have heq : time + 1 + distance = time + (distance + 1) := by omega
            rw [heq]
            exact hstep
  exact hfalls (run 0) 0 fun _ => rfl

/-- There is a run in which somebody acts as long as anybody can. -/
theorem exists_run (start : Network) : ∃ run, Running start run ∧
    ∀ time, (∃ after, (run time).Step after) → (run time).Step (run (time + 1)) := by
  classical
  have hnext (network : Network) : ∃ after, Network.Undisturbed network after ∧
      ((∃ other, network.Step other) → network.Step after) := by
    -- whoever can act does so, and else only time passes
    by_cases hstep : ∃ after, network.Step after
    · obtain ⟨after, hstep⟩ := hstep
      exact ⟨after, .step hstep, fun _ => hstep⟩
    · exact ⟨_, .clock network 0, fun hother => absurd hother hstep⟩
  choose next hundisturbed hacts using hnext
  refine ⟨fun time => next^[time] start, ⟨rfl, fun time => ?_⟩, fun time hstep => ?_⟩
  · rw [Function.iterate_succ_apply']
    exact hundisturbed _
  · show (next^[time] start).Step (next^[time + 1] start)
    rw [Function.iterate_succ_apply']
    exact hacts _ hstep

end PassiveDns.Pipeline
