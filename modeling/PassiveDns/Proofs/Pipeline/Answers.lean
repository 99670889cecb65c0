/-
  PassiveDns.Proofs.Pipeline.Answers

  What the parts of a network do for a single parcel (`Answers`), and what they do aside
  (`Errand.Aside`). What becomes of a packet, and of a datagram that was put together, is its
  `Fate`.
-/
import PassiveDns.Proofs.Pipeline.Moves

namespace PassiveDns.Pipeline

open PassiveDns.Packet (Classified Verdict)
open PassiveDns.Sink (FanOut)

variable {plan : Plan}

/-! ## Fates -/

/-- What becomes of a packet, or of a datagram that was put together. -/
inductive Fate where
  | fragment (version : IpVersion)
  | ignored
  | unreadable
  | forwarded (transport : Transport)
deriving Repr, DecidableEq

namespace Fate

/-- What becomes of something that was classified. -/
def ofVerdict : Verdict → Fate
  | .ok (.fragment packet) => fragment packet.header.version
  | .ok (.udp _) => forwarded .udp
  | .ok (.tcp _) => forwarded .tcp
  | .ok .ignored => ignored
  | .error _ => unreadable

/-- The series in which it is counted what becomes of a packet. -/
def series : Fate → Series
  | fragment _ => .packets "fragment"
  | ignored => .packets "ignored"
  | unreadable => .decodeErrors "raw"
  | forwarded .udp => .packets "udp"
  | forwarded .tcp => .packets "tcp"

@[simp] theorem series_fragment (version : IpVersion) :
    (fragment version).series = .packets "fragment" := rfl

@[simp] theorem series_ignored : ignored.series = .packets "ignored" := rfl

@[simp] theorem series_unreadable : unreadable.series = .decodeErrors "raw" := rfl

@[simp] theorem series_udp : (forwarded .udp).series = .packets "udp" := rfl

@[simp] theorem series_tcp : (forwarded .tcp).series = .packets "tcp" := rfl

@[simp] theorem parseErrors_ne_series (fate : Fate) : Series.parseErrors ≠ fate.series := by
  rcases fate with _ | _ | _ | _ | _ <;> simp

@[simp] theorem results_ne_series (fate : Fate) : Series.results ≠ fate.series := by
  rcases fate with _ | _ | _ | _ | _ <;> simp

@[simp] theorem fragments_ne_series (fate : Fate) (version : IpVersion) (outcome : String) :
    Series.fragments version outcome ≠ fate.series := by
  rcases fate with _ | _ | _ | _ | _ <;> simp

/-- Whether something is a fragment. -/
def isFragment : Fate → Bool
  | fragment _ => true
  | _ => false

/-- Whether something is handed on over a transport. -/
def isForwarded : Fate → Bool
  | forwarded _ => true
  | _ => false

/-- Nothing but fragments is counted as such. -/
theorem series_eq_fragment_iff (fate : Fate) :
    fate.series = .packets "fragment" ↔ fate.isFragment = true := by
  rcases fate with _ | _ | _ | _ | _ <;> simp [isFragment]

/-- What is handed on is counted by its transport. -/
theorem isForwarded_of_series_eq {fate other : Fate} (h : fate.series = other.series) :
    fate.isForwarded = other.isForwarded := by
  rcases fate with _ | _ | _ | _ | _ <;> rcases other with _ | _ | _ | _ | _ <;>
    simp [isForwarded] at h ⊢

/-- All else is counted in a series of its own. -/
theorem series_eq_iff {fate other : Fate} (h : other.isFragment = false) :
    fate.series = other.series ↔ fate = other := by
  rcases other with _ | _ | _ | _ | _
  · cases h
  all_goals rcases fate with _ | _ | _ | _ | _ <;> simp

/-- What is handed on goes over one of the transports. -/
theorem countP_isForwarded {α : Type} (fate : α → Fate) (l : List α) :
    (l.countP fun a => (fate a).isForwarded) =
      (l.countP fun a => fate a = .forwarded .udp) +
        l.countP fun a => fate a = .forwarded .tcp := by
  induction l with
  | nil => rfl
  | cons a rest ih =>
    rw [List.countP_cons, List.countP_cons, List.countP_cons, ih]
    rcases fate a with _ | _ | _ | _ | _ <;> simp [isForwarded] <;> omega

/-- Everything has one fate. -/
theorem countP_each {α : Type} (fate : α → Fate) (l : List α) :
    (l.countP fun a => (fate a).isFragment) + (l.countP fun a => fate a = .ignored) +
      (l.countP fun a => fate a = .unreadable) + (l.countP fun a => (fate a).isForwarded) =
      l.length := by
  induction l with
  | nil => rfl
  | cons a rest ih =>
    rw [List.countP_cons, List.countP_cons, List.countP_cons, List.countP_cons, List.length_cons,
      ← ih]
    rcases fate a with _ | _ | _ | _ | _ <;> simp [isForwarded, isFragment] <;> omega

end Fate

namespace Plan

/-- What becomes of a packet. -/
def fateOf (plan : Plan) (frame : Frame) : Fate :=
  .ofVerdict (Packet.classify plan.frameLink plan.ports frame)

/-- What becomes of a datagram that was put together. -/
def fateAgain (plan : Plan) (datagram : Datagram) : Fate :=
  .ofVerdict (Packet.classifyDatagram plan.ports datagram)

end Plan

/-! ## What is done for a parcel -/

/-- What is done with something that is handed on: it is counted by its transport, and a payload
    is observed, a segment sent to its shard. -/
inductive Forwards : Transport → List Errand → Prop
  | observed (observation : Observation) :
    Forwards .udp [.count (.packets "udp") 1, .send (.result observation)]
  | refused : Forwards .udp [.count (.packets "udp") 1, .count .parseErrors 1]
  | segment (shard : Nat) (segment : TcpSegment) :
    Forwards .tcp [.count (.packets "tcp") 1, .send (.segment shard segment)]

/-- An errand that answers no single parcel. -/
inductive Errand.Aside : Errand → Prop
  | captured : Aside (.count (.packets "captured") 1)
  | refused (reason : String) : Aside (.count (.rejected reason) 1)
  | packet (frame : Frame) : Aside (.send (.packet frame))
  | unreadable : Aside (.count (.decodeErrors "reassembled") 1)
  | event (version : IpVersion) (label : String) (amount : Nat) :
    Aside (.count (.streams version label) amount)
  | message (message : Carried) : Aside (.send (.message message))
  | expired (version : IpVersion) (amount : Nat) :
    Aside (.count (.fragments version "expired") amount)
  | written (sink : String) (ok : Bool) : Aside (.count (.sinkResults sink ok) 1)

/-- A parcel for which nothing is done that it can be told from: a segment leads to messages
    only together with others, and not every datagram is handed on. -/
inductive Plan.Unanswered (plan : Plan) : Parcel → Prop
  | segment (shard : Nat) (segment : TcpSegment) : Unanswered plan (.segment shard segment)
  | datagram (datagram : Datagram) (hfate : (plan.fateAgain datagram).isForwarded = false) :
    Unanswered plan (.datagram datagram)

/-- What is done for any other parcel by whoever receives it. What becomes of a fragment depends
    on those before it. -/
inductive Answers (plan : Plan) : Parcel → List Errand → Prop
  | isFragment (frame : Frame) (fragment : Fragment)
      (hfate : plan.fateOf frame = .fragment fragment.header.version) :
    Answers plan (.packet frame) [.count (.packets "fragment") 1, .send (.fragment fragment)]
  | isIgnored (frame : Frame) (hfate : plan.fateOf frame = .ignored) :
    Answers plan (.packet frame) [.count (.packets "ignored") 1]
  | isUnreadable (frame : Frame) (hfate : plan.fateOf frame = .unreadable) :
    Answers plan (.packet frame) [.count (.decodeErrors "raw") 1]
  | isForwarded (frame : Frame) (transport : Transport) (errands : List Errand)
      (hfate : plan.fateOf frame = .forwarded transport) (hforwards : Forwards transport errands) :
    Answers plan (.packet frame) errands
  | completes (fragment : Fragment) (datagram : Datagram) :
    Answers plan (.fragment fragment)
      [.count (.fragments fragment.header.version "reassembled") 1, .send (.datagram datagram)]
  | keeps (fragment : Fragment) (outcome : String)
      (houtcome : outcome ∈ ["buffered", "hole", "rejected"]) :
    Answers plan (.fragment fragment) [.count (.fragments fragment.header.version outcome) 1]
  | forwardsAgain (datagram : Datagram) (transport : Transport) (errands : List Errand)
      (hfate : plan.fateAgain datagram = .forwarded transport)
      (hforwards : Forwards transport errands) :
    Answers plan (.datagram datagram) errands
  | observes (message : Carried) (observation : Observation) :
    Answers plan (.message message) [.send (.result observation)]
  | refuses (message : Carried) : Answers plan (.message message) [.count .parseErrors 1]
  | handsOut (observation : Observation) :
    Answers plan (.result observation) [.count .results 1]

namespace Role

/-- An observation is made of a payload, or it is counted that it is none. -/
theorem observe_eq (plan : Plan) (transport : Transport) (carried : Carried) :
    (∃ observation, observe plan transport carried = .send (.result observation)) ∨
      observe plan transport carried = .count .parseErrors 1 := by
  unfold observe
  split
  · exact .inl ⟨_, rfl⟩
  · exact .inr rfl

theorem forwards_udp (plan : Plan) (datagram : Carried) :
    Forwards .udp (forward plan (.udp datagram)) := by
  show Forwards .udp [_, observe plan .udp datagram]
  rcases observe_eq plan .udp datagram with ⟨observation, heq⟩ | heq
  · rw [heq]
    exact .observed observation
  · rw [heq]
    exact .refused

theorem forwards_tcp (plan : Plan) (segment : TcpSegment) :
    Forwards .tcp (forward plan (.tcp segment)) :=
  .segment ..

theorem answers_decode (plan : Plan) (frame : Frame) :
    Answers plan (.packet frame) (decode plan frame) := by
  have hfate : plan.fateOf frame = .ofVerdict (Packet.classify plan.frameLink plan.ports frame) :=
    rfl
  unfold decode
  cases hverdict : Packet.classify plan.frameLink plan.ports frame with
  | error error => exact .isUnreadable frame (by rw [hfate, hverdict]; rfl)
  | ok classified =>
    cases classified with
    | fragment fragment => exact .isFragment frame fragment (by rw [hfate, hverdict]; rfl)
    | udp datagram =>
      exact .isForwarded frame .udp _ (by rw [hfate, hverdict]; rfl) (forwards_udp plan datagram)
    | tcp segment =>
      exact .isForwarded frame .tcp _ (by rw [hfate, hverdict]; rfl) (forwards_tcp plan segment)
    | ignored => exact .isIgnored frame (by rw [hfate, hverdict]; rfl)

/-- What is done for a parcel: it is answered, or there are errands aside at most. -/
def Does (plan : Plan) (parcel : Parcel) (errands : List Errand) : Prop :=
  Answers plan parcel errands ∨ plan.Unanswered parcel ∧ ∀ errand ∈ errands, errand.Aside

theorem does_decodeAgain (plan : Plan) (datagram : Datagram) :
    Does plan (.datagram datagram) (decodeAgain plan datagram) := by
  have hfate : plan.fateAgain datagram = .ofVerdict (Packet.classifyDatagram plan.ports datagram) :=
    rfl
  have hnone : ∀ errand ∈ ([] : List Errand), errand.Aside :=
    fun _ h => absurd h List.not_mem_nil
  unfold decodeAgain
  cases hverdict : Packet.classifyDatagram plan.ports datagram with
  | error error =>
    refine .inr ⟨.datagram datagram (by rw [hfate, hverdict]; rfl), fun errand herrand => ?_⟩
    rw [List.mem_singleton.mp herrand]
    exact .unreadable
  | ok classified =>
    cases classified with
    | fragment fragment => exact .inr ⟨.datagram datagram (by rw [hfate, hverdict]; rfl), hnone⟩
    | udp payload =>
      exact .inl (.forwardsAgain datagram .udp _ (by rw [hfate, hverdict]; rfl)
        (forwards_udp plan payload))
    | tcp segment =>
      exact .inl (.forwardsAgain datagram .tcp _ (by rw [hfate, hverdict]; rfl)
        (forwards_tcp plan segment))
    | ignored => exact .inr ⟨.datagram datagram (by rw [hfate, hverdict]; rfl), hnone⟩

theorem answers_afterSubmit (plan : Plan) (fragment : Fragment)
    (outcome : Except FragmentError (Option Datagram)) :
    Answers plan (.fragment fragment) (afterSubmit fragment.header.version outcome) := by
  unfold afterSubmit
  split
  · exact .completes ..
  · exact .keeps fragment "buffered" (by simp)
  · exact .keeps fragment "hole" (by simp)
  · exact .keeps fragment "rejected" (by simp)

theorem aside_countEvents (version : IpVersion) (outcome : Stream.Outcome) :
    ∀ errand ∈ countEvents version outcome, errand.Aside := by
  intro errand herrand
  obtain ⟨event, _, rfl⟩ := List.mem_map.mp herrand
  exact .event ..

theorem aside_sendMessages (outcome : Stream.Outcome) :
    ∀ errand ∈ sendMessages outcome, errand.Aside := by
  intro errand herrand
  obtain ⟨message, _, rfl⟩ := List.mem_map.mp herrand
  exact .message message

theorem aside_afterAssembly (version : IpVersion) (outcome : Stream.Outcome) :
    ∀ errand ∈ afterAssembly version outcome, errand.Aside := by
  intro errand herrand
  rcases List.mem_append.mp herrand with herrand | herrand
  · exact aside_countEvents version outcome errand herrand
  · exact aside_sendMessages outcome errand herrand

/-- What a station does for a parcel of its own queue. -/
theorem does_receive (plan : Plan) (now : Instant) (role : Role) {parcel : Parcel}
    (h : parcel.channel = role.input) : Does plan parcel (role.receive plan now parcel).2 := by
  cases role with
  | decoder => cases parcel <;> cases h; exact .inl (answers_decode ..)
  | reassembler version state => cases parcel <;> cases h; exact .inl (answers_afterSubmit ..)
  | secondDecoder => cases parcel <;> cases h; exact does_decodeAgain ..
  | shard index v4 v6 =>
    -- its messages are those of all segments so far
    cases parcel <;> cases h
    rename_i segment
    refine .inr ⟨.segment index segment, ?_⟩
    unfold receive
    dsimp only
    split
    · exact aside_afterAssembly .v4 _
    · exact aside_afterAssembly .v6 _
  | parser =>
    cases parcel <;> cases h
    rename_i message
    unfold receive
    dsimp only
    rcases observe_eq plan .tcp message with ⟨observation, heq⟩ | heq
    · rw [heq]
      exact .inl (.observes ..)
    · rw [heq]
      exact .inl (.refuses _)

theorem aside_finish (role : Role) : ∀ errand ∈ role.finish.2, errand.Aside := by
  intro errand herrand
  cases role with
  | shard index v4 v6 =>
    rcases List.mem_append.mp (show errand ∈ afterAssembly .v4 v4.flushAll.1 ++
      afterAssembly .v6 v6.flushAll.1 from herrand) with herrand | herrand <;>
      exact aside_afterAssembly _ _ errand herrand
  | _ => cases herrand

theorem aside_tick (cutoff : Instant) (role : Role) :
    ∀ errand ∈ (role.tick cutoff).2, errand.Aside := by
  intro errand herrand
  cases role with
  | reassembler version state =>
    have hexpired : errand ∈ if 0 < (state.discardOlderThan cutoff).1 then
        [.count (.fragments version "expired") (state.discardOlderThan cutoff).1] else [] := herrand
    split at hexpired
    · rw [List.mem_singleton.mp hexpired]
      exact .expired ..
    · cases hexpired
  | shard index v4 v6 =>
    rcases List.mem_append.mp (show errand ∈ countEvents .v4 (v4.flushOlderThan cutoff).1 ++
      countEvents .v6 (v6.flushOlderThan cutoff).1 ++ (sendMessages (v4.flushOlderThan cutoff).1 ++
        sendMessages (v6.flushOlderThan cutoff).1) from herrand) with herrand | herrand <;>
      rcases List.mem_append.mp herrand with herrand | herrand
    · exact aside_countEvents _ _ errand herrand
    · exact aside_countEvents _ _ errand herrand
    · exact aside_sendMessages _ errand herrand
    · exact aside_sendMessages _ errand herrand
  | _ => cases herrand

end Role

/-- A refused packet is counted aside. -/
theorem aside_take (reader : Reader) (frame : Frame) (time : Instant) :
    ∀ entry ∈ (reader.take frame time).1, (Errand.count entry.1 entry.2).Aside := by
  obtain ⟨decision, admission, _, htaking⟩ := reader.taking frame time
  generalize reader.take frame time = result at htaking ⊢
  cases htaking with
  | accepted => exact fun _ h => absurd h List.not_mem_nil
  | skipped => exact fun entry h => by rw [List.mem_singleton.mp h]; exact .refused _
  | duplicate => exact fun entry h => by rw [List.mem_singleton.mp h]; exact .refused _

/-- What a sink has written is counted aside. -/
theorem aside_write {fanOut : FanOut} {index : Nat} {result : List (Series × Nat) × FanOut}
    (h : fanOut.write? index = some result) :
    ∀ entry ∈ result.1, (Errand.count entry.1 entry.2).Aside := by
  cases Sink.FanOut.writing h with
  | «at» outlet result houtlet hstep =>
    cases (Sink.Outlet.acting hstep).2 with
    | writes observation =>
      unfold Sink.Outlet.write
      dsimp only
      split
      · exact fun entry h => by rw [List.mem_singleton.mp h]; exact .written ..
      · exact fun entry h => by rw [List.mem_singleton.mp h]; exact .written ..
      · exact fun _ h => absurd h List.not_mem_nil
    | takes => exact fun _ h => absurd h List.not_mem_nil
    | closes => exact fun _ h => absurd h List.not_mem_nil

end PassiveDns.Pipeline
