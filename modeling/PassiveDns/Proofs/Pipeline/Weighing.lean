/-
  PassiveDns.Proofs.Pipeline.Weighing

  What is counted and sent on in a run is in balance with what is received. A `Law` gives a
  worth to errands, on two sides, and says which parcels they answer. If it holds of what is
  done for a single parcel, it holds of the whole history of a run, but for what is still to be
  done (`Law.Balanced`). What is put into a queue is taken from it or still there (`Flows`),
  and the series show what was counted (`Metered`).
-/
import PassiveDns.Proofs.Counters
import PassiveDns.Proofs.Pipeline.Account
import PassiveDns.Proofs.Pipeline.Answers
import PassiveDns.Proofs.Pipeline.Wiring

namespace PassiveDns.Pipeline

open PassiveDns.Sink (FanOut)

variable {plan : Plan} {given : List Observation} {network after : Network}
  {log notes : List Note}

/-! ## Laws -/

/-- What a note is worth, if errands are worth something. -/
def Note.worth (worth : Errand → Nat) : Note → Nat
  | counted series amount => worth (.count series amount)
  | sent parcel => worth (.send parcel)
  | received _ => 0

/-- What errands are worth together. -/
def worthOf (worth : Errand → Nat) (errands : List Errand) : Nat := (errands.map worth).sum

/-- What the errands are worth that were run. -/
def worthIn (worth : Errand → Nat) (log : List Note) : Nat := (log.map (Note.worth worth)).sum

/-- What the errands are worth that are still to be run. -/
def Network.pending (worth : Errand → Nat) (network : Network) : Nat :=
  (network.stations.map fun station => worthOf worth station.outbox).sum

/-- Two sides that should be in balance: what errands are worth on either side, and for which
    parcels the left one has one more. -/
structure Law where
  left : Errand → Nat
  right : Errand → Nat
  answer : Parcel → Bool

@[simp] theorem worthOf_nil (worth : Errand → Nat) : worthOf worth [] = 0 := rfl

@[simp] theorem worthOf_cons (worth : Errand → Nat) (errand : Errand) (rest : List Errand) :
    worthOf worth (errand :: rest) = worth errand + worthOf worth rest := rfl

@[simp] theorem worthOf_zero (errands : List Errand) : worthOf (fun _ => 0) errands = 0 := by
  unfold worthOf
  rw [List.map_const', List.sum_replicate_nat, Nat.mul_zero]

theorem worthOf_append (worth : Errand → Nat) (errands more : List Errand) :
    worthOf worth (errands ++ more) = worthOf worth errands + worthOf worth more := by
  unfold worthOf
  rw [List.map_append, List.sum_append]

theorem worthIn_cons (worth : Errand → Nat) (note : Note) (rest : List Note) :
    worthIn worth (note :: rest) = note.worth worth + worthIn worth rest := rfl

theorem worthIn_zero (log : List Note) : worthIn (fun _ => 0) log = 0 := by
  induction log with
  | nil => rfl
  | cons note rest ih =>
    rw [worthIn_cons, ih]
    cases note <;> rfl

theorem worthIn_add (worth more : Errand → Nat) (log : List Note) :
    worthIn (fun errand => worth errand + more errand) log =
      worthIn worth log + worthIn more log := by
  induction log with
  | nil => rfl
  | cons note rest ih =>
    rw [worthIn_cons, worthIn_cons, worthIn_cons, ih]
    cases note <;> simp only [Note.worth] <;> omega

theorem worthIn_append (worth : Errand → Nat) (log more : List Note) :
    worthIn worth (log ++ more) = worthIn worth log + worthIn worth more := by
  unfold worthIn
  rw [List.map_append, List.sum_append]

theorem worthIn_notesOf (worth : Errand → Nat) (tally : List (Series × Nat)) :
    worthIn worth (notesOf tally) =
      (tally.map fun entry => worth (.count entry.1 entry.2)).sum := by
  unfold worthIn notesOf
  rw [List.map_map]
  rfl

namespace Law

variable {law : Law}

/-- For how many of the parcels that were received the left side has one more. -/
def answered (law : Law) (log : List Note) : Nat := (receivedIn log).countP law.answer

/-- The same for the observation that is being handed out: it is received, and not yet
    counted. -/
def inHand (law : Law) (network : Network) : Nat :=
  match network.fanOut.hand with
  | some (observation, _) => (law.answer (.result observation)).toNat
  | none => 0

/-- A law holds of what is done for each parcel, and of what is done aside. -/
structure Holds (plan : Plan) (law : Law) : Prop where
  answers : ∀ parcel errands, Answers plan parcel errands →
    worthOf law.left errands = worthOf law.right errands + (law.answer parcel).toNat
  unanswered : ∀ parcel, plan.Unanswered parcel → law.answer parcel = false
  aside : ∀ errand, errand.Aside → law.left errand = law.right errand

/-- A law holds of a history, together with what is still to be done. -/
def Balanced (law : Law) (log : List Note) (network : Network) : Prop :=
  worthIn law.left log + network.pending law.left + law.inHand network =
    worthIn law.right log + network.pending law.right + law.answered log

theorem answered_append (law : Law) (log more : List Note) :
    law.answered (log ++ more) = law.answered log + law.answered more := by
  unfold answered
  rw [receivedIn_append, List.countP_append]

theorem answered_of_none {notes : List Note} (h : receivedIn notes = []) :
    law.answered notes = 0 := by
  unfold answered
  rw [h]
  rfl

theorem answered_received (law : Law) (parcel : Parcel) :
    law.answered [.received parcel] = (law.answer parcel).toNat := by
  show [parcel].countP law.answer = _
  rw [List.countP_singleton]
  cases law.answer parcel <;> rfl

theorem inHand_of_some {observation : Observation} {served : Nat}
    (h : network.fanOut.hand = some (observation, served)) :
    law.inHand network = (law.answer (.result observation)).toNat := by
  unfold inHand
  rw [h]

theorem inHand_of_none (h : network.fanOut.hand = none) : law.inHand network = 0 := by
  unfold inHand
  rw [h]

/-- Errands aside are worth the same on both sides. -/
theorem Holds.worthOf_aside (holds : law.Holds plan) {errands : List Errand}
    (h : ∀ errand ∈ errands, errand.Aside) :
    worthOf law.left errands = worthOf law.right errands := by
  unfold worthOf
  rw [List.map_congr_left fun errand herrand => holds.aside errand (h errand herrand)]

theorem Holds.does (holds : law.Holds plan) {parcel : Parcel} {errands : List Errand}
    (h : Role.Does plan parcel errands) :
    worthOf law.left errands = worthOf law.right errands + (law.answer parcel).toNat := by
  rcases h with hanswers | ⟨hunanswered, haside⟩
  · exact holds.answers parcel errands hanswers
  · rw [holds.unanswered parcel hunanswered, holds.worthOf_aside haside]
    rfl

theorem Holds.worthIn_aside (holds : law.Holds plan) {tally : List (Series × Nat)}
    (h : ∀ entry ∈ tally, (Errand.count entry.1 entry.2).Aside) :
    worthIn law.left (notesOf tally) = worthIn law.right (notesOf tally) := by
  rw [worthIn_notesOf, worthIn_notesOf,
    List.map_congr_left fun entry hentry => holds.aside _ (h entry hentry)]

namespace Balanced

/-- The stations stay as they are. -/
theorem turn (h : law.Balanced log network) (hstations : after.stations = network.stations)
    (hworth : worthIn law.left notes + law.inHand after =
      worthIn law.right notes + law.inHand network + law.answered notes) :
    law.Balanced (log ++ notes) after := by
  unfold Balanced at h ⊢
  rw [worthIn_append, worthIn_append, answered_append]
  unfold Network.pending at h ⊢
  rw [hstations]
  omega

/-- A station does something, and leaves other errands. -/
theorem act (h : law.Balanced log network) {index : Nat} {station changed : Station}
    (hstation : network.stations[index]? = some station)
    (hstations : after.stations = network.stations.set index changed)
    (hfanOut : after.fanOut = network.fanOut)
    (hworth : worthIn law.left notes + worthOf law.left changed.outbox +
        worthOf law.right station.outbox =
      worthIn law.right notes + worthOf law.right changed.outbox +
        worthOf law.left station.outbox + law.answered notes) :
    law.Balanced (log ++ notes) after := by
  -- only one summand of what is due changes, on either side
  have hleft := sum_map_set (fun station : Station => worthOf law.left station.outbox) hstation
    (b := changed)
  have hright := sum_map_set (fun station : Station => worthOf law.right station.outbox) hstation
    (b := changed)
  unfold Balanced inHand at h ⊢
  rw [worthIn_append, worthIn_append, answered_append, hfanOut]
  unfold Network.pending at h ⊢
  rw [hstations]
  omega

/-- Whatever happens, a law that holds stays in balance. -/
theorem step (h : law.Balanced log network) (holds : law.Holds plan)
    (hwired : Wired plan given network) (hdoing : network.Doing notes after) :
    law.Balanced (log ++ notes) after := by
  have hquiet : worthIn law.left [] + law.inHand network =
      worthIn law.right [] + law.inHand network + law.answered [] := rfl
  cases hdoing with
  | clock duration => exact h.turn rfl hquiet
  | waits hphase => exact h.turn rfl hquiet
  | takes arrival rest hphase hsource =>
    obtain ⟨metrics, heq⟩ := Network.readFrame_eq network arrival rest
    rw [heq]
    refine h.turn rfl ?_
    rw [answered_of_none (show receivedIn (.counted (.packets "captured") 1 :: notesOf _) = [] from
      receivedIn_notesOf _)]
    have hcaptured := holds.aside _ .captured
    have hrefused := holds.worthIn_aside
      (aside_take network.reader arrival.frame arrival.time)
    show law.left (.count (.packets "captured") 1) + worthIn law.left (notesOf _) + _ =
      law.right (.count (.packets "captured") 1) + worthIn law.right (notesOf _) + _
    rw [hcaptured, hrefused]
    rfl
  | ends hphase hsource => exact h.turn rfl hquiet
  | queues frame hphase hroom =>
    refine h.turn rfl ?_
    show law.left (.send (.packet frame)) + 0 + _ = law.right (.send (.packet frame)) + 0 + _ + 0
    rw [holds.aside _ (.packet frame)]
    rfl
  | counts index station series amount rest hstation houtbox =>
    refine h.act hstation rfl rfl ?_
    rw [houtbox]
    show law.left _ + 0 + worthOf law.left rest + (law.right _ + worthOf law.right rest) =
      law.right _ + 0 + worthOf law.right rest + (law.left _ + worthOf law.left rest) + 0
    omega
  | sends index station parcel rest hstation houtbox hroom =>
    refine h.act hstation rfl rfl ?_
    rw [houtbox]
    show law.left _ + 0 + worthOf law.left rest + (law.right _ + worthOf law.right rest) =
      law.right _ + 0 + worthOf law.right rest + (law.left _ + worthOf law.left rest) + 0
    omega
  | receives index station parcel rest hstation houtbox hphase hqueue =>
    refine h.act hstation rfl rfl ?_
    have hchannel := (hwired.placed _ parcel (by rw [hqueue]; exact List.mem_cons_self ..)).1
    rw [hwired.planned]
    -- the errands that are due from now on stand for the parcel
    rw [houtbox]
    dsimp only
    rw [holds.does (Role.does_receive plan network.now station.role hchannel), answered_received]
    show 0 + (_ + _) + 0 = 0 + _ + 0 + _
    omega
  | closes index station hstation houtbox hphase hqueue hclosed =>
    refine h.act hstation rfl rfl ?_
    have haside := holds.worthOf_aside (Role.aside_finish station.role)
    rw [houtbox]
    dsimp only
    rw [haside]
    rfl
  | finishes index station hstation houtbox hphase =>
    refine h.act hstation rfl rfl ?_
    show 0 + worthOf law.left station.outbox + _ = 0 + worthOf law.right station.outbox + _ + 0
    omega
  | looks index station nextTick hstation hphase =>
    refine h.act hstation rfl rfl ?_
    have haside := holds.worthOf_aside
      (Role.aside_tick (network.now - network.plan.gcInterval) station.role)
    rw [worthOf_append, worthOf_append]
    show 0 + _ + _ = 0 + _ + _ + 0
    omega
  | serves result hstep =>
    refine h.turn rfl ?_
    rw [answered_of_none (receivedIn_notesOf _)]
    -- the observation leaves the hand when it is counted
    obtain ⟨observation, served, hhand, hresult⟩ := Sink.FanOut.tally_handOut hstep
    rw [inHand_of_some hhand]
    rcases hresult with ⟨htally, hafter⟩ | ⟨htally, hafter⟩
    · rw [htally, inHand_of_none (show (network.withFanOut result).fanOut.hand = none from hafter)]
      have hcounted := holds.answers _ _ (.handsOut observation)
      show law.left (.count .results 1) + 0 + 0 = law.right (.count .results 1) + 0 + _ + 0
      have hworth : law.left (.count .results 1) + 0 = law.right (.count .results 1) + 0 + _ :=
        hcounted
      omega
    · rw [htally, inHand_of_some (show (network.withFanOut result).fanOut.hand = _ from hafter)]
      rfl
  | gives observation rest hhand hopen hqueue =>
    refine h.turn rfl ?_
    -- the observation is received, and in hand until it is counted
    have hafter : (network.fanOut.take observation).hand = some (observation, 0) := rfl
    rw [inHand_of_none hhand, answered_received]
    unfold inHand
    dsimp only
    rw [hafter]
    rfl
  | givesNoMore hhand hopen hqueue hclosed => exact h.turn rfl hquiet
  | writes index result hstep =>
    refine h.turn rfl ?_
    rw [answered_of_none (receivedIn_notesOf _), holds.worthIn_aside (aside_write hstep)]
    have hhand := (hwired.meets.write (Sink.FanOut.writing hstep)).2.2.1
    unfold inHand
    rw [show (network.withFanOut result).fanOut.hand = _ from hhand]
    rfl

end Balanced

end Law

/-! ## Queues -/

theorem ofChannel_singleton (channel : Channel) (parcel : Parcel) :
    ofChannel channel [parcel] = if channel = parcel.channel then [parcel] else [] := by
  split
  · rename_i heq
    exact ofChannel_self fun other hother => by rw [List.mem_singleton.mp hother]; exact heq.symm
  · rename_i hne
    exact ofChannel_nil fun other hother => by rw [List.mem_singleton.mp hother]; exact Ne.symm hne

/-- What was put into a queue was taken from it in the same order, or is still there. -/
def Flows (log : List Note) (network : Network) : Prop :=
  ∀ channel, ofChannel channel (sentIn log) =
    ofChannel channel (receivedIn log) ++ network.queue channel

namespace Flows

theorem rest (h : Flows log network)
    (hqueue : ∀ channel, after.queue channel = network.queue channel)
    (hsent : sentIn notes = []) (hreceived : receivedIn notes = []) :
    Flows (log ++ notes) after := by
  intro channel
  rw [sentIn_append, receivedIn_append, hsent, hreceived, List.append_nil, List.append_nil, hqueue]
  exact h channel

theorem push (h : Flows log network) (parcel : Parcel)
    (hqueue : ∀ channel, after.queue channel = (network.push parcel).queue channel) :
    Flows (log ++ [.sent parcel]) after := by
  intro channel
  rw [sentIn_append, receivedIn_append, hqueue, Network.queue_push]
  show ofChannel channel (sentIn log ++ [parcel]) = ofChannel channel (receivedIn log ++ []) ++ _
  rw [List.append_nil, ofChannel_append, ofChannel_singleton, h channel]
  split
  · rw [List.append_assoc]
  · rw [List.append_nil]

theorem pop (h : Flows log network) {parcel : Parcel} {rest : List Parcel}
    (hfront : network.queue parcel.channel = parcel :: rest)
    (hqueue : ∀ channel, after.queue channel =
      (network.setQueue parcel.channel rest).queue channel) :
    Flows (log ++ [.received parcel]) after := by
  intro channel
  rw [sentIn_append, receivedIn_append, hqueue, Network.queue_setQueue]
  show ofChannel channel (sentIn log ++ []) = ofChannel channel (receivedIn log ++ [parcel]) ++ _
  rw [List.append_nil, ofChannel_append, ofChannel_singleton, h channel]
  split
  · rename_i heq
    rw [heq, hfront, List.append_assoc]
    rfl
  · rw [List.append_nil]

theorem step (h : Flows log network) (hwired : Wired plan given network)
    (hdoing : network.Doing notes after) : Flows (log ++ notes) after := by
  cases hdoing with
  | takes arrival rest hphase hsource =>
    obtain ⟨metrics, heq⟩ := Network.readFrame_eq network arrival rest
    rw [heq]
    exact h.rest (fun _ => rfl) (sentIn_notesOf _) (receivedIn_notesOf _)
  | queues frame hphase hroom => exact h.push (.packet frame) fun _ => rfl
  | sends index station parcel rest hstation houtbox hroom => exact h.push parcel fun _ => rfl
  | receives index station parcel rest hstation houtbox hphase hqueue =>
    have hchannel := (hwired.placed _ parcel (by rw [hqueue]; exact List.mem_cons_self ..)).1
    rw [← hchannel] at hqueue ⊢
    exact h.pop hqueue fun _ => rfl
  | gives observation rest hhand hopen hqueue => exact h.pop hqueue fun _ => rfl
  | serves result hstep =>
    exact h.rest (fun _ => rfl) (sentIn_notesOf _) (receivedIn_notesOf _)
  | writes index result hstep =>
    exact h.rest (fun _ => rfl) (sentIn_notesOf _) (receivedIn_notesOf _)
  | _ => exact h.rest (fun _ => rfl) rfl rfl

/-- Once all queues are empty what was sent was received. -/
theorem perm_of_empty (h : Flows log network) (hempty : ∀ channel, network.queue channel = []) :
    (sentIn log).Perm (receivedIn log) := by
  refine List.perm_iff_count.mpr fun parcel => ?_
  -- a parcel goes through one queue only, so it is counted in that
  have hchannel := h parcel.channel
  rw [hempty, List.append_nil] at hchannel
  have hcount (parcels : List Parcel) :
      (ofChannel parcel.channel parcels).count parcel = parcels.count parcel := by
    unfold ofChannel
    rw [List.count_filter (by simp)]
  rw [← hcount, hchannel, hcount]

end Flows

/-! ## Counters -/

/-- How much an errand counts a series up. -/
def Errand.amount (series : Series) : Errand → Nat
  | count other amount => if other = series then amount else 0
  | send _ => 0

@[simp] theorem Errand.amount_count (series other : Series) (amount : Nat) :
    Errand.amount series (.count other amount) = if other = series then amount else 0 := rfl

@[simp] theorem Errand.amount_send (series : Series) (parcel : Parcel) :
    Errand.amount series (.send parcel) = 0 := rfl

/-- How much a series was counted up. -/
def countedIn (log : List Note) (series : Series) : Nat := worthIn (Errand.amount series) log

/-- The series show what was counted; those of the source are set by themselves. -/
def Metered (log : List Note) (network : Network) : Prop :=
  ∀ series, series.family ≠ .source → network.metrics.Shows series (countedIn log series)

theorem countedIn_append (log more : List Note) (series : Series) :
    countedIn (log ++ more) series = countedIn log series + countedIn more series :=
  worthIn_append ..

theorem countedIn_notesOf (tally : List (Series × Nat)) (series : Series) :
    countedIn (notesOf tally) series = Metrics.amountOf series tally :=
  worthIn_notesOf ..

namespace Metered

/-- Nothing is counted. -/
theorem rest (h : Metered log network) (hmetrics : after.metrics = network.metrics)
    (hcounted : ∀ series, countedIn notes series = 0) : Metered (log ++ notes) after := by
  intro series hseries
  rw [countedIn_append, hcounted, hmetrics]
  exact h series hseries

theorem addAll (h : Metered log network) (tally : List (Series × Nat))
    (hmetrics : after.metrics = network.metrics.addAll tally) :
    Metered (log ++ notesOf tally) after := by
  intro series hseries
  rw [countedIn_append, countedIn_notesOf, hmetrics]
  exact (h series hseries).addAll tally

theorem step (h : Metered log network) (hdoing : network.Doing notes after) :
    Metered (log ++ notes) after := by
  cases hdoing with
  | takes arrival rest hphase hsource =>
    intro series hseries
    rw [countedIn_append]
    show Metrics.Shows _ series (_ + (_ + countedIn (notesOf _) series))
    rw [countedIn_notesOf, ← Nat.add_assoc]
    have hcaptured := (h series hseries).add (.packets "captured") 1
    -- now and then the counters of the source are set in between
    unfold Network.readFrame
    dsimp only
    split
    · exact (hcaptured.putSource hseries ..).addAll _
    · exact hcaptured.addAll _
  | ends hphase hsource =>
    intro series hseries
    rw [List.append_nil]
    exact (h series hseries).putSource hseries ..
  | counts index station series amount rest hstation houtbox =>
    exact h.addAll [(series, amount)] rfl
  | serves result hstep => exact h.addAll result.1 rfl
  | writes index result hstep => exact h.addAll result.1 rfl
  | _ => exact h.rest rfl fun _ => rfl

end Metered

end PassiveDns.Pipeline
