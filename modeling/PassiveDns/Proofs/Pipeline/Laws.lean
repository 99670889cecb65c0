/-
  PassiveDns.Proofs.Pipeline.Laws

  The laws of the network: how what is counted at one place is in balance with what is sent from
  there or from another. Each of them is checked against what is done for a single parcel.
-/
import PassiveDns.Proofs.Pipeline.Weighing

namespace PassiveDns.Pipeline

/-! ## What is sent -/

/-- Whether a parcel that is to be decoded meets a condition. -/
def Parcel.meets (ofFrame : Frame → Bool) (ofDatagram : Datagram → Bool) : Parcel → Bool
  | packet frame => ofFrame frame
  | datagram whole => ofDatagram whole
  | _ => false

/-- How many parcels of a kind an errand sends. -/
def Errand.sends (channel : Channel) : Errand → Nat
  | send parcel => if parcel.channel = channel then 1 else 0
  | count _ _ => 0

@[simp] theorem Errand.sends_send (channel : Channel) (parcel : Parcel) :
    Errand.sends channel (.send parcel) = if parcel.channel = channel then 1 else 0 := rfl

@[simp] theorem Errand.sends_count (channel : Channel) (series : Series) (amount : Nat) :
    Errand.sends channel (.count series amount) = 0 := rfl

theorem worthIn_sends (channel : Channel) (log : List Note) :
    worthIn (Errand.sends channel) log = (ofChannel channel (sentIn log)).length := by
  induction log with
  | nil => rfl
  | cons note rest ih =>
    rw [worthIn_cons, ih]
    cases note with
    | counted series amount => exact Nat.zero_add _
    | received parcel => exact Nat.zero_add _
    | sent parcel =>
      show _ = (ofChannel channel ([parcel] ++ sentIn rest)).length
      rw [ofChannel_append, ofChannel_singleton, List.length_append]
      by_cases hchannel : parcel.channel = channel
      · simp [Note.worth, hchannel]
      · simp [Note.worth, hchannel, Ne.symm hchannel]

/-- The packet in a parcel. -/
def Parcel.frame? : Parcel → Option Frame
  | packet frame => some frame
  | _ => none

/-- The datagram in a parcel. -/
def Parcel.datagram? : Parcel → Option Datagram
  | datagram whole => some whole
  | _ => none

/-- The packets that were handed to the decoders, in order. -/
def packetsIn (log : List Note) : List Frame := (sentIn log).filterMap Parcel.frame?

/-- The datagrams that were handed to the second decoder, in order. -/
def datagramsIn (log : List Note) : List Datagram := (sentIn log).filterMap Parcel.datagram?

theorem countP_meets (ofFrame : Frame → Bool) (ofDatagram : Datagram → Bool)
    (parcels : List Parcel) :
    parcels.countP (Parcel.meets ofFrame ofDatagram) =
      (parcels.filterMap Parcel.frame?).countP ofFrame +
        (parcels.filterMap Parcel.datagram?).countP ofDatagram := by
  induction parcels with
  | nil => rfl
  | cons parcel rest ih =>
    have hcons (meets : Bool) (count : Nat) :
        count + (if meets = true then 1 else 0) = count + meets.toNat := by
      cases meets <;> rfl
    cases parcel with
    | packet frame =>
      show _ = (frame :: _).countP ofFrame + _
      rw [List.countP_cons, List.countP_cons, ih, hcons, hcons]
      exact Nat.add_right_comm ..
    | datagram whole =>
      show _ = _ + (whole :: _).countP ofDatagram
      rw [List.countP_cons, List.countP_cons, ih, hcons, hcons]
      exact Nat.add_assoc ..
    | _ => exact ih

theorem length_datagramsIn (log : List Note) :
    (ofChannel .datagrams (sentIn log)).length = (datagramsIn log).length := by
  unfold ofChannel datagramsIn
  rw [List.length_filterMap_eq_countP, ← List.countP_eq_length_filter]
  refine List.countP_congr fun parcel _ => ?_
  cases parcel <;> simp [Parcel.channel, Parcel.datagram?]

/-! ## The laws -/

namespace Law

/-- It is counted what becomes of each packet, and over which transport a datagram is handed
    on. -/
def ofFate (plan : Plan) (fate : Fate) : Law where
  left := Errand.amount fate.series
  right _ := 0
  answer := Parcel.meets (fun frame => (plan.fateOf frame).series = fate.series) fun datagram =>
    (plan.fateAgain datagram).isForwarded && (plan.fateAgain datagram).series = fate.series

theorem holds_ofFate (plan : Plan) (fate : Fate) : (ofFate plan fate).Holds plan := by
  -- whoever hands something on counts it first; no fate is counted by what follows
  have hcount (series : Series) : Errand.amount fate.series (.count series 1) =
      (decide (series = fate.series)).toNat := by
    simp [toNat_decide]
  have hforward {transport : Transport} {errands : List Errand} (h : Forwards transport errands) :
      worthOf (Errand.amount fate.series) errands =
        (decide ((Fate.forwarded transport).series = fate.series)).toNat := by
    cases h with
    | observed observation => exact hcount _
    | refused =>
      rw [worthOf_cons, worthOf_cons, Errand.amount_count _ .parseErrors,
        if_neg fate.parseErrors_ne_series]
      exact hcount _
    | segment shard segment => exact hcount _
  refine ⟨fun parcel errands h => ?_, fun parcel h => ?_, fun errand h => ?_⟩
  · unfold ofFate
    cases h with
    | isFragment frame fragment hfate => simp [Parcel.meets, hfate, toNat_decide]
    | isIgnored frame hfate => simp [Parcel.meets, hfate, toNat_decide]
    | isUnreadable frame hfate => simp [Parcel.meets, hfate, toNat_decide]
    | isForwarded frame transport errands hfate hforwards =>
      simp [hforward hforwards, Parcel.meets, hfate]
    | forwardsAgain datagram transport errands hfate hforwards =>
      simp [hforward hforwards, Parcel.meets, hfate, Fate.isForwarded]
    | _ => simp [Parcel.meets]
  · cases h with
    | segment shard segment => rfl
    | datagram datagram hfate => simp [ofFate, Parcel.meets, hfate]
  · unfold ofFate
    cases h <;> rcases fate with _ | _ | _ | _ | _ <;> simp

/-- It is counted what becomes of each fragment. -/
def ofFragments (version : IpVersion) : Law where
  left errand := Errand.amount (.fragments version "buffered") errand +
    Errand.amount (.fragments version "reassembled") errand +
    Errand.amount (.fragments version "hole") errand +
    Errand.amount (.fragments version "rejected") errand
  right _ := 0
  answer parcel := parcel.channel = .fragments version

theorem holds_ofFragments (plan : Plan) (version : IpVersion) :
    (ofFragments version).Holds plan where
  answers parcel errands h := by
    cases h with
    | completes fragment datagram => simp [ofFragments, Parcel.channel, toNat_decide]
    | keeps fragment outcome houtcome =>
      simp only [List.mem_cons, List.not_mem_nil, or_false] at houtcome
      rcases houtcome with rfl | rfl | rfl <;> simp [ofFragments, Parcel.channel, toNat_decide]
    | isForwarded frame transport errands hfate hforwards =>
      cases hforwards <;> simp [ofFragments, Parcel.channel]
    | forwardsAgain datagram transport errands hfate hforwards =>
      cases hforwards <;> simp [ofFragments, Parcel.channel]
    | _ => simp [ofFragments, Parcel.channel]
  unanswered parcel h := by cases h <;> simp [ofFragments, Parcel.channel]
  aside errand h := by cases h <;> simp [ofFragments]

/-- A fragment is sent for each packet that is one. -/
def ofSentFragments (plan : Plan) (version : IpVersion) : Law where
  left := Errand.sends (.fragments version)
  right _ := 0
  answer := Parcel.meets (fun frame => plan.fateOf frame = .fragment version) fun _ => false

theorem holds_ofSentFragments (plan : Plan) (version : IpVersion) :
    (ofSentFragments plan version).Holds plan where
  answers parcel errands h := by
    unfold ofSentFragments
    cases h with
    | isFragment frame fragment hfate => simp [Parcel.meets, Parcel.channel, hfate, toNat_decide]
    | isIgnored frame hfate => simp [Parcel.meets, hfate]
    | isUnreadable frame hfate => simp [Parcel.meets, hfate]
    | isForwarded frame transport errands hfate hforwards =>
      cases hforwards <;> simp [Parcel.meets, Parcel.channel, hfate]
    | forwardsAgain datagram transport errands hfate hforwards =>
      cases hforwards <;> simp [Parcel.meets, Parcel.channel]
    | _ => simp [Parcel.meets, Parcel.channel]
  unanswered parcel h := by cases h <;> rfl
  aside errand h := by cases h <;> simp [ofSentFragments, Parcel.channel]

/-- A datagram is sent for each that was put together. -/
def ofDatagrams : Law where
  left := Errand.sends .datagrams
  right errand := Errand.amount (.fragments .v4 "reassembled") errand +
    Errand.amount (.fragments .v6 "reassembled") errand
  answer _ := false

theorem holds_ofDatagrams (plan : Plan) : ofDatagrams.Holds plan where
  answers parcel errands h := by
    cases h with
    | completes fragment datagram =>
      -- the datagram is counted by the version of its last fragment
      cases fragment.header.version <;> simp [ofDatagrams, Parcel.channel]
    | keeps fragment outcome houtcome =>
      simp only [List.mem_cons, List.not_mem_nil, or_false] at houtcome
      rcases houtcome with rfl | rfl | rfl <;> simp [ofDatagrams]
    | isForwarded frame transport errands hfate hforwards =>
      cases hforwards <;> simp [ofDatagrams, Parcel.channel]
    | forwardsAgain datagram transport errands hfate hforwards =>
      cases hforwards <;> simp [ofDatagrams, Parcel.channel]
    | _ => simp [ofDatagrams, Parcel.channel]
  unanswered _ _ := rfl
  aside errand h := by cases h <;> simp [ofDatagrams, Parcel.channel]

/-- Each payload over UDP, and each message over TCP, leads to an observation or is counted as
    none. -/
def ofObservations : Law where
  left errand := Errand.sends .results errand + Errand.amount .parseErrors errand
  right := Errand.amount (.packets "udp")
  answer parcel := parcel.channel = .messages

theorem holds_ofObservations (plan : Plan) : ofObservations.Holds plan where
  answers parcel errands h := by
    cases h with
    | isForwarded frame transport errands hfate hforwards =>
      cases hforwards <;> simp [ofObservations, Parcel.channel]
    | forwardsAgain datagram transport errands hfate hforwards =>
      cases hforwards <;> simp [ofObservations, Parcel.channel]
    | _ => simp [ofObservations, Parcel.channel]
  unanswered parcel h := by cases h <;> simp [ofObservations, Parcel.channel]
  aside errand h := by cases h <;> simp [ofObservations, Parcel.channel]

/-- The observations are counted that were handed out. -/
def ofResults : Law where
  left := Errand.amount .results
  right _ := 0
  answer parcel := parcel.channel = .results

theorem holds_ofResults (plan : Plan) : ofResults.Holds plan where
  answers parcel errands h := by
    cases h with
    | isForwarded frame transport errands hfate hforwards =>
      cases hforwards <;> simp [ofResults, Parcel.channel]
    | forwardsAgain datagram transport errands hfate hforwards =>
      cases hforwards <;> simp [ofResults, Parcel.channel]
    | _ => simp [ofResults, Parcel.channel]
  unanswered parcel h := by cases h <;> simp [ofResults, Parcel.channel]
  aside errand h := by cases h <;> simp [ofResults]

end Law


end PassiveDns.Pipeline
