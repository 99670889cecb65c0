/-
  PassiveDns.Proofs.HandOut

  Handing observations out to sinks, in whatever order the hand-out and the sinks take their
  turns. What is asked of a sink is its `script`, which depends on its own replies and on the
  observations, and not on the other sinks. At every moment a sink was asked the first part of
  its script, and the rest of it is still to come (`Round.Keeps`); a round ends, and then
  nothing is to come any more.
-/
import Mathlib.Data.List.Basic
import Mathlib.Tactic.Common
import PassiveDns.Proofs.Outlets

namespace PassiveDns.Sink

/-! ## What is asked of a sink -/

/-- What a sink can be asked to do. -/
inductive Call where
  | write (observation : Observation)
  | close
deriving Repr, DecidableEq

/-- What is asked of a sink that has answered some writes already: to write one observation
    after another, and to close behind the last one, unless a write breaks it. -/
def scriptFrom (reply : Nat → Reply) : Nat → List Observation → List Call
  | _, [] => [.close]
  | answered, observation :: rest =>
    .write observation ::
      if reply answered = .broken then [] else scriptFrom reply (answered + 1) rest

/-- What is asked of a sink that is handed all of some observations. -/
def script (sink : Sink) (observations : List Observation) : List Call :=
  scriptFrom sink.reply 0 observations

/-- Whether none of the first writes breaks a sink. -/
def lasts (sink : Sink) (count : Nat) : Bool :=
  (List.range count).all fun n => sink.reply n ≠ .broken

/-- The report of a sink that has answered so many writes. -/
def reportAfter (sink : Sink) (count : Nat) : Report :=
  ⟨sink.name, (List.range count).countP fun n => sink.reply n = .written,
    (List.range count).countP fun n => sink.reply n = .failed⟩

theorem lasts_iff (sink : Sink) (count : Nat) :
    sink.lasts count = true ↔ ∀ n < count, sink.reply n ≠ .broken := by
  unfold lasts
  rw [List.all_eq_true]
  simp only [List.mem_range, decide_eq_true_eq]

theorem scriptFrom_of_lasts {reply : Nat → Reply} {answered : Nat}
    {observations : List Observation}
    (h : ∀ n < observations.length, reply (answered + n) ≠ .broken) :
    scriptFrom reply answered observations = observations.map .write ++ [.close] := by
  induction observations generalizing answered with
  | nil => rfl
  | cons observation rest ih =>
    have hfirst : reply answered ≠ .broken := h 0 (Nat.succ_pos _)
    have hrest : ∀ n < rest.length, reply (answered + 1 + n) ≠ .broken := fun n hn => by
      rw [Nat.add_assoc, Nat.add_comm 1 n]
      exact h (n + 1) (Nat.succ_lt_succ hn)
    rw [scriptFrom, if_neg hfirst, ih hrest]
    rfl

/-- A sink that does not break writes every observation once, in order, and closes once. -/
theorem script_of_lasts {sink : Sink} {observations : List Observation}
    (h : sink.lasts observations.length = true) :
    sink.script observations = observations.map .write ++ [.close] :=
  scriptFrom_of_lasts fun n hn => by
    rw [Nat.zero_add]
    exact (lasts_iff ..).mp h n hn

/-- Every write is counted once. -/
theorem written_add_failed {sink : Sink} {count : Nat} (h : sink.lasts count = true) :
    (sink.reportAfter count).written + (sink.reportAfter count).failed = count := by
  have hother : ∀ n ∈ List.range count, decide (sink.reply n = .failed) = true ↔
      decide ¬decide (sink.reply n = .written) = true := fun n hn => by
    have hlasts := (lasts_iff ..).mp h n (List.mem_range.mp hn)
    cases hreply : sink.reply n with
    | written => simp
    | failed => simp
    | broken => exact absurd hreply hlasts
  have hlength := List.length_eq_countP_add_countP (fun n => decide (sink.reply n = .written))
    (l := List.range count)
  rw [List.length_range] at hlength
  unfold reportAfter
  dsimp only
  rw [List.countP_congr hother]
  exact hlength.symm

/-! ## One sink -/

namespace Outlet

/-- What the next step of a sink asks of it. To take an observation asks nothing. -/
def asks (outlet : Outlet) : List Call :=
  match outlet.hand, outlet.queue with
  | some observation, _ => [.write observation]
  | none, _ :: _ => []
  | none, [] => [.close]

/-- What is still to be asked of a sink. -/
def remaining (observations : List Observation) (outlet : Outlet) : List Call :=
  if outlet.stage = .running then
    scriptFrom outlet.sink.reply outlet.taken.size (observations.drop outlet.taken.size)
  else []

variable {closing : Bool} {due observations : List Observation} {outlet : Outlet}

theorem remaining_of_running (hrunning : outlet.stage = .running) :
    outlet.remaining observations =
      scriptFrom outlet.sink.reply outlet.taken.size (observations.drop outlet.taken.size) :=
  if_pos hrunning

theorem remaining_of_ended (hended : outlet.stage ≠ .running) :
    outlet.remaining observations = [] :=
  if_neg hended

/-- To be handed an observation asks nothing. -/
theorem remaining_offer (outlet : Outlet) (observation : Observation) :
    (outlet.offer observation).remaining observations = outlet.remaining observations := by
  unfold offer
  split
  · rfl
  · split <;> rfl

/-- The write of the observation in hand takes the first call off what is to come. -/
theorem remaining_write (hrunning : outlet.stage = .running) {observation : Observation}
    {rest : List Observation} (hnext : observations.drop outlet.taken.size = observation :: rest) :
    outlet.remaining observations =
      .write observation :: (outlet.write observation).2.remaining observations := by
  have hrest : observations.drop (outlet.taken.push observation).size = rest := by
    rw [Array.size_push, List.drop_add_one_eq_tail_drop, hnext, List.tail_cons]
  have hgoes (hreply : outlet.sink.reply outlet.taken.size ≠ .broken) :
      outlet.remaining observations = .write observation ::
        remaining observations
          { outlet with hand := none, taken := outlet.taken.push observation } := by
    rw [remaining_of_running hrunning, hnext, scriptFrom, if_neg hreply]
    unfold remaining
    dsimp only
    rw [if_pos hrunning, hrest, Array.size_push]
  unfold write
  dsimp only
  split
  · rename_i hreply
    exact hgoes (by rw [hreply]; simp)
  · rename_i hreply
    exact hgoes (by rw [hreply]; simp)
  · rename_i hreply
    rw [remaining_of_running hrunning, hnext, scriptFrom, if_pos hreply]
    rfl

/-- Each step asks the first of what is to come. -/
theorem Meets.remaining_step {result : List (Series × Nat) × Outlet}
    (h : outlet.Meets closing due) (hdue : due <+: observations)
    (hall : closing = true → due = observations) (hstep : outlet.step? closing = some result) :
    outlet.remaining observations = outlet.asks ++ result.2.remaining observations := by
  obtain ⟨hrunning, hacting⟩ := acting hstep
  obtain ⟨_, hhanded⟩ := h.of_running hrunning
  unfold handed at hhanded
  -- what is behind the observations that were taken is in hand, or in the queue
  obtain ⟨later, hlater⟩ := hdue
  have hdrop : observations.drop outlet.taken.size =
      outlet.hand.toList ++ outlet.queue ++ later := by
    rw [← hlater, ← hhanded, List.append_assoc, List.append_assoc, List.append_assoc,
      ← Array.length_toList, List.drop_left]
  cases hacting with
  | writes observation hhand =>
    rw [hhand, List.append_assoc] at hdrop
    unfold asks
    rw [hhand]
    exact remaining_write hrunning hdrop
  | takes observation rest hhand hqueue =>
    unfold asks
    rw [hhand, hqueue]
    rfl
  | closes hhand hqueue hclosing =>
    have hnone : later = [] := by
      rw [hall hclosing] at hlater
      exact List.append_right_eq_self.mp hlater
    rw [hhand, hqueue, hnone] at hdrop
    unfold asks
    rw [hhand, hqueue, remaining_of_running hrunning, hdrop]
    rfl

end Outlet

/-! ## Reports -/

section Reports

variable {closing : Bool} {given : List Observation} {outlet : Outlet}

theorem length_withReply (outlet : Outlet) (reply : Reply) :
    (outlet.withReply reply).length =
      (List.range outlet.taken.size).countP fun n => outlet.sink.reply n = reply := by
  have hplaces : outlet.taken.toList.zipIdx.map Prod.snd = List.range outlet.taken.size := by
    rw [List.zipIdx_map_snd, Array.length_toList, List.range_eq_range']
  unfold Outlet.withReply
  rw [List.length_map, ← List.countP_eq_length_filter, ← hplaces, List.countP_map]
  rfl

/-- A sink that has ended has broken at one of the observations, or it has taken all. -/
theorem Outlet.Meets.of_ended (h : outlet.Meets closing given) (hended : outlet.stage ≠ .running) :
    (outlet.stage ≠ .broken) = (outlet.sink.lasts given.length = true) ∧
      (outlet.stage ≠ .broken → outlet.taken.toList = given) := by
  cases h.standing with
  | running hrunning => exact absurd hrunning hended
  | closed hstage _ _ _ _ htaken =>
    have hsize : outlet.taken.size = given.length := by rw [← Array.length_toList, htaken]
    refine ⟨propext ⟨fun _ => (lasts_iff ..).mpr ?_, fun _ => by rw [hstage]; simp⟩,
      fun _ => htaken⟩
    rw [← hsize]
    exact h.lasted
  | broken hstage _ _ observation hreply htaken =>
    have hsize : outlet.taken.size < given.length := by
      have hle := htaken.length_le
      rw [List.length_append, Array.length_toList] at hle
      exact hle
    refine ⟨propext ⟨fun hne => absurd hstage hne, fun hlasts => ?_⟩, fun hne => absurd hstage hne⟩
    exact absurd hreply ((lasts_iff ..).mp hlasts _ hsize)

/-- At the end there is a report of each sink that did not break, in the order in which they
    were registered. -/
theorem FanOut.Meets.reports {fanOut : FanOut} (h : fanOut.Meets given)
    (hfinished : fanOut.isFinished = true) :
    fanOut.reports = (fanOut.sinks.filter fun sink => sink.lasts given.length).map
      fun sink => sink.reportAfter given.length := by
  obtain ⟨hclosing, hended⟩ := (FanOut.isFinished_iff fanOut).mp hfinished
  have hlasts : ∀ outlet ∈ fanOut.outlets,
      decide (outlet.stage ≠ .broken) = outlet.sink.lasts given.length := fun outlet houtlet => by
    rw [Bool.eq_iff_iff, decide_eq_true_iff]
    exact iff_of_eq ((h.of_closing hclosing outlet houtlet).of_ended (hended outlet houtlet)).1
  unfold FanOut.reports FanOut.sinks
  rw [List.filter_map, List.map_map, List.filter_congr hlasts]
  refine List.map_congr_left fun outlet houtlet => ?_
  obtain ⟨houtlet, hkept⟩ := List.mem_filter.mp houtlet
  obtain ⟨hstage, htaken⟩ := (h.of_closing hclosing outlet houtlet).of_ended (hended outlet houtlet)
  have hsize : outlet.taken.size = given.length := by
    rw [← Array.length_toList, htaken (hstage ▸ hkept)]
  unfold Outlet.written Outlet.failed
  rw [length_withReply, length_withReply, hsize]
  rfl

end Reports

/-! ## All sinks and what waits for them -/

/-- The observations that are still to be handed out, and the hand-out with its sinks. -/
structure Round where
  waiting : List Observation
  fanOut : FanOut
deriving Inhabited

/-- What was asked of one sink, out of what was asked of all, with the place of each. -/
def callsOf (index : Nat) (calls : List (Nat × Call)) : List Call :=
  (calls.filter fun call => call.1 = index).map Prod.snd

@[simp] theorem callsOf_nil (index : Nat) : callsOf index [] = [] := rfl

theorem callsOf_append (index : Nat) (calls more : List (Nat × Call)) :
    callsOf index (calls ++ more) = callsOf index calls ++ callsOf index more := by
  unfold callsOf
  rw [List.filter_append, List.map_append]

theorem callsOf_own (index : Nat) (calls : List Call) :
    callsOf index (calls.map (Prod.mk index)) = calls := by
  unfold callsOf
  rw [List.filter_map, List.map_map, List.filter_eq_self.mpr fun _ _ => by simp]
  exact List.map_id _

theorem callsOf_other {index other : Nat} (h : other ≠ index) (calls : List Call) :
    callsOf index (calls.map (Prod.mk other)) = [] := by
  unfold callsOf
  rw [List.filter_map, List.filter_eq_nil_iff.mpr fun _ _ => by simp [h]]
  rfl

namespace Round

/-- A round in which nothing has happened. -/
def ofSinks (capacity : Nat) (sinks : List Sink) (observations : List Observation) : Round :=
  ⟨observations, .ofSinks capacity sinks⟩

/-- A turn of the hand-out or of a sink, with what it asks of sinks: the hand-out takes the next
    observation, goes on with the one in hand, or ends behind the last; or a sink goes on. -/
inductive Turn (round : Round) : List (Nat × Call) → Round → Prop
  | takes (observation : Observation) (rest : List Observation)
      (hwaiting : round.waiting = observation :: rest) (hhand : round.fanOut.hand = none) :
    Turn round [] ⟨rest, round.fanOut.take observation⟩
  | serves (result : List (Series × Nat) × FanOut)
      (hstep : round.fanOut.handOut? = some result) :
    Turn round [] { round with fanOut := result.2 }
  | closes (hwaiting : round.waiting = []) (hhand : round.fanOut.hand = none)
      (hopen : round.fanOut.closing = false) :
    Turn round [] { round with fanOut := round.fanOut.close }
  | writes (index : Nat) (outlet : Outlet) (result : List (Series × Nat) × FanOut)
      (houtlet : round.fanOut.outlets[index]? = some outlet)
      (hstep : round.fanOut.write? index = some result) :
    Turn round (outlet.asks.map (Prod.mk index)) { round with fanOut := result.2 }

/-- What a round can come to, with all that is asked of sinks on the way. -/
inductive Reaches (start : Round) : List (Nat × Call) → Round → Prop
  | refl : Reaches start [] start
  | next {calls more : List (Nat × Call)} {before after : Round}
      (hbefore : Reaches start calls before) (hturn : Turn before more after) :
    Reaches start (calls ++ more) after

/-- A round keeps to the scripts of its sinks. -/
structure Keeps (sinks : List Sink) (observations given : List Observation)
    (calls : List (Nat × Call)) (round : Round) : Prop where
  split : given ++ round.waiting = observations
  meets : round.fanOut.Meets given
  counts : round.fanOut.Counts given
  closing : round.fanOut.closing = true → round.waiting = []
  sinks : round.fanOut.sinks = sinks.filter Sink.usable
  registered : ∀ call ∈ calls, call.1 < round.fanOut.outlets.length
  script : ∀ index (outlet : Outlet), round.fanOut.outlets[index]? = some outlet →
    callsOf index calls ++ outlet.remaining observations = outlet.sink.script observations

/-- What is left to do in a round. Each observation is taken and handed to every sink, which
    takes and writes it. -/
def load (round : Round) : Nat :=
  round.waiting.length * (3 * (round.fanOut.outlets.length + 1) + 1) +
    3 * round.fanOut.handLoad + round.fanOut.writeLoad + if round.fanOut.closing then 0 else 1

variable {sinks : List Sink} {observations given : List Observation}
  {calls more : List (Nat × Call)} {round after : Round}

/-- The hand-out and the sinks leave less to do, for what a sink is handed makes it two steps. -/
theorem load_lt {fanOut : FanOut}
    (houtlets : fanOut.outlets.length = round.fanOut.outlets.length)
    (hclosing : fanOut.closing = round.fanOut.closing)
    (h : 3 * fanOut.handLoad + fanOut.writeLoad <
      3 * round.fanOut.handLoad + round.fanOut.writeLoad) :
    load { round with fanOut } < round.load := by
  unfold load
  dsimp only
  rw [houtlets, hclosing]
  omega

theorem keeps_ofSinks {capacity : Nat} (hcapacity : 0 < capacity) (sinks : List Sink)
    (observations : List Observation) :
    Keeps sinks observations [] [] (ofSinks capacity sinks observations) := by
  have houtlets : (FanOut.ofSinks capacity sinks).outlets =
      (sinks.filter Sink.usable).map fun sink => .ofSink sink false := by
    rw [FanOut.outlets_ofSinks]
  refine ⟨rfl, FanOut.meets_ofSinks hcapacity sinks, ?_, fun hclosing => ?_,
    FanOut.sinks_ofSinks capacity sinks, fun _ h => absurd h List.not_mem_nil,
    fun index outlet houtlet => ?_⟩
  · unfold ofSinks
    rw [FanOut.outlets_ofSinks]
    rfl
  · unfold ofSinks at hclosing
    rw [FanOut.outlets_ofSinks] at hclosing
    cases hclosing
  · -- nothing was asked of a sink that was just made ready
    have hmem := List.mem_of_getElem? (show (FanOut.ofSinks ..).outlets[index]? = _ from houtlet)
    rw [houtlets] at hmem
    obtain ⟨sink, _, rfl⟩ := List.mem_map.mp hmem
    rfl

namespace Keeps

/-- What was given to the hand-out comes first of the observations. -/
theorem prefix_given (h : round.Keeps sinks observations given calls) : given <+: observations :=
  ⟨round.waiting, h.split⟩

theorem prefix_due (h : round.Keeps sinks observations given calls) (index : Nat) :
    round.fanOut.due given index <+: observations :=
  (FanOut.prefix_due ..).trans h.prefix_given

/-- Once nothing more is handed out all observations are due to each sink. -/
theorem due_of_closing (h : round.Keeps sinks observations given calls)
    (hclosing : round.fanOut.closing = true) (index : Nat) :
    round.fanOut.due given index = observations := by
  rw [FanOut.due_of_none (h.meets.hand_of_closing hclosing), ← h.split, h.closing hclosing,
    List.append_nil]

/-- The hand-out takes an observation. -/
theorem takes (h : round.Keeps sinks observations given calls) {observation : Observation}
    {rest : List Observation} (hwaiting : round.waiting = observation :: rest)
    (hhand : round.fanOut.hand = none) :
    Keeps sinks observations (given ++ [observation]) calls
        ⟨rest, round.fanOut.take observation⟩ ∧
      load ⟨rest, round.fanOut.take observation⟩ < round.load := by
  have hopen : round.fanOut.closing = false := by
    by_contra hclosing
    rw [h.closing (eq_true_of_ne_false hclosing)] at hwaiting
    cases hwaiting
  refine ⟨⟨?_, h.meets.take hhand hopen observation, h.counts.take hhand observation,
    fun hclosing => absurd (hopen.symm.trans hclosing) (by simp), h.sinks, h.registered,
    h.script⟩, ?_⟩
  · rw [← h.split, hwaiting, List.append_assoc]
    rfl
  · have hbefore : round.fanOut.handLoad = 0 := by
      unfold FanOut.handLoad
      rw [hhand]
    unfold load
    rw [hwaiting, List.length_cons, Nat.succ_mul rest.length, hbefore]
    show rest.length * (3 * (round.fanOut.outlets.length + 1) + 1) +
      3 * (round.fanOut.outlets.length + 1) + round.fanOut.writeLoad +
      (if round.fanOut.closing then 0 else 1) < _
    omega

/-- The hand-out goes on with the observation in hand. -/
theorem serves (h : round.Keeps sinks observations given calls) {fanOut : FanOut}
    (hstep : FanOut.HandingOut round.fanOut fanOut) :
    Keeps sinks observations given calls { round with fanOut } ∧
      load { round with fanOut } < round.load := by
  obtain ⟨hmeets, hless, hclosing⟩ := h.meets.handOut hstep
  have hcounts := h.counts.handOut hstep
  have hsinks := (FanOut.sinks_of_handingOut hstep).trans h.sinks
  cases hstep with
  | through observation served hhand hend =>
    refine ⟨⟨h.split, hmeets, hcounts, h.closing, hsinks, h.registered, h.script⟩,
      load_lt rfl rfl ?_⟩
    show 3 * FanOut.handLoad _ + round.fanOut.writeLoad < _
    omega
  | further observation served outlet hhand houtlet =>
    have hlength : (round.fanOut.outlets.set served (outlet.offer observation)).length =
        round.fanOut.outlets.length := List.length_set
    refine ⟨⟨h.split, hmeets, hcounts, h.closing, hsinks, fun call hcall => ?_,
      fun index other hother => ?_⟩, load_lt hlength rfl ?_⟩
    · show call.1 < (round.fanOut.outlets.set ..).length
      rw [hlength]
      exact h.registered call hcall
    · dsimp only at hother
      rw [List.getElem?_set] at hother
      split at hother
      · rename_i heq
        subst heq
        rw [if_pos (List.getElem?_eq_some_iff.mp houtlet).1] at hother
        rw [← Option.some.inj hother, outlet.remaining_offer, outlet.sink_offer]
        exact h.script served outlet houtlet
      · exact h.script index other hother
    · -- the sink has two steps more to do, the hand-out one less
      have hsum := sum_map_set Outlet.load (b := outlet.offer observation) houtlet
      have hoffer := outlet.load_offer_le observation
      show 3 * FanOut.handLoad _ +
        ((round.fanOut.outlets.set served (outlet.offer observation)).map Outlet.load).sum <
          3 * _ + (round.fanOut.outlets.map Outlet.load).sum
      omega

/-- A sink goes on. -/
theorem writes (h : round.Keeps sinks observations given calls) {index : Nat} {outlet : Outlet}
    {result : List (Series × Nat) × FanOut}
    (houtlet : round.fanOut.outlets[index]? = some outlet)
    (hstep : FanOut.Writing round.fanOut index result) :
    Keeps sinks observations given (calls ++ outlet.asks.map (Prod.mk index))
        { round with fanOut := result.2 } ∧
      load { round with fanOut := result.2 } < round.load := by
  obtain ⟨hmeets, hless, _, hclosing, hhands⟩ := h.meets.write hstep
  have hcounts := h.counts.write hstep
  have hsinks := (FanOut.sinks_of_writing hstep).trans h.sinks
  cases hstep with
  | «at» outlet' result houtlet' hstep =>
    obtain rfl := Option.some.inj (houtlet.symm.trans houtlet')
    have hindex := (List.getElem?_eq_some_iff.mp houtlet).1
    have hlength : (round.fanOut.outlets.set index result.2).length =
        round.fanOut.outlets.length := List.length_set
    refine ⟨⟨h.split, hmeets, hcounts, h.closing, hsinks, fun call hcall => ?_,
      fun other outlet' houtlet' => ?_⟩, load_lt hlength rfl ?_⟩
    · show call.1 < (round.fanOut.outlets.set ..).length
      rw [hlength]
      rcases List.mem_append.mp hcall with hcall | hcall
      · exact h.registered call hcall
      · obtain ⟨_, _, rfl⟩ := List.mem_map.mp hcall
        exact hindex
    · dsimp only at houtlet'
      rw [callsOf_append]
      rw [List.getElem?_set] at houtlet'
      split at houtlet'
      · rename_i heq
        subst heq
        have hremaining := (h.meets.meets index outlet houtlet).remaining_step
          (h.prefix_due index) (fun hclosing => h.due_of_closing hclosing index) hstep
        rw [← Option.some.inj houtlet', callsOf_own, List.append_assoc, ← hremaining,
          Outlet.sink_of_step hstep]
        exact h.script index outlet houtlet
      · rename_i hne
        rw [callsOf_other hne, List.append_nil]
        exact h.script other outlet' houtlet'
    · dsimp only at hless hhands ⊢
      omega

/-- Nothing more is handed out. -/
theorem closes (h : round.Keeps sinks observations given calls) (hwaiting : round.waiting = [])
    (hhand : round.fanOut.hand = none) (hopen : round.fanOut.closing = false) :
    Keeps sinks observations given calls { round with fanOut := round.fanOut.close } ∧
      load { round with fanOut := round.fanOut.close } < round.load := by
  refine ⟨⟨h.split, h.meets.close hhand, h.counts, fun _ => hwaiting, h.sinks, h.registered,
    h.script⟩, ?_⟩
  unfold load
  rw [hopen]
  show _ + _ + _ + 0 < _ + 3 * round.fanOut.handLoad + round.fanOut.writeLoad + 1
  exact Nat.lt_succ_self _

/-- Whoever takes a turn keeps to the scripts, and leaves less to do. -/
theorem turn (h : round.Keeps sinks observations given calls) (hturn : Turn round more after) :
    (∃ given, after.Keeps sinks observations given (calls ++ more)) ∧ after.load < round.load := by
  cases hturn with
  | takes observation rest hwaiting hhand =>
    rw [List.append_nil]
    exact (h.takes hwaiting hhand).imp_left fun hkeeps => ⟨_, hkeeps⟩
  | serves result hstep =>
    rw [List.append_nil]
    exact (h.serves (FanOut.handingOut hstep)).imp_left fun hkeeps => ⟨_, hkeeps⟩
  | closes hwaiting hhand hopen =>
    rw [List.append_nil]
    exact (h.closes hwaiting hhand hopen).imp_left fun hkeeps => ⟨_, hkeeps⟩
  | writes index outlet result houtlet hstep =>
    exact (h.writes houtlet (FanOut.writing hstep)).imp_left fun hkeeps => ⟨_, hkeeps⟩

theorem reaches {more : List (Nat × Call)} (h : round.Keeps sinks observations given calls)
    (hreaches : round.Reaches more after) :
    ∃ given, after.Keeps sinks observations given (calls ++ more) := by
  induction hreaches with
  | refl => exact ⟨given, by rw [List.append_nil]; exact h⟩
  | next _ hturn ih =>
    obtain ⟨given, hkeeps⟩ := ih
    rw [← List.append_assoc]
    exact (hkeeps.turn hturn).1

/-- As long as not all sinks have ended, somebody can take a turn. -/
theorem exists_turn (h : round.Keeps sinks observations given calls)
    (hunfinished : round.fanOut.isFinished ≠ true) : ∃ more after, Turn round more after := by
  by_contra hnone
  have hsinks : ∀ index, round.fanOut.write? index = none := fun index => by
    by_contra hsome
    obtain ⟨result, hresult⟩ := Option.ne_none_iff_exists'.mp hsome
    cases FanOut.writing hresult with
    | «at» outlet _ houtlet => exact hnone ⟨_, _, .writes index outlet _ houtlet hresult⟩
  by_cases hhand : round.fanOut.hand = none
  · cases hwaiting : round.waiting with
    | cons observation rest => exact hnone ⟨_, _, .takes observation rest hwaiting hhand⟩
    | nil =>
      cases hclosing : round.fanOut.closing with
      | false => exact hnone ⟨_, _, .closes hwaiting hhand hclosing⟩
      | true => exact hunfinished (h.meets.isFinished_of_stuck hclosing hsinks)
  · obtain ⟨result, hresult⟩ :=
      Option.ne_none_iff_exists'.mp (h.meets.handOut_of_stuck hsinks hhand)
    exact hnone ⟨_, _, .serves result hresult⟩

/-- Whatever happened so far, a round can be brought to its end. -/
theorem exists_finished {start : Round} (h : round.Keeps sinks observations given calls)
    (hreaches : start.Reaches calls round) :
    ∃ calls after, start.Reaches calls after ∧ after.fanOut.isFinished = true := by
  induction hload : round.load using Nat.strongRecOn generalizing round given calls with
  | ind load ih =>
    by_cases hfinished : round.fanOut.isFinished = true
    · exact ⟨calls, round, hreaches, hfinished⟩
    · obtain ⟨more, after, hturn⟩ := h.exists_turn hfinished
      obtain ⟨⟨_, hkeeps⟩, hless⟩ := h.turn hturn
      exact ih after.load (hload ▸ hless) hkeeps (.next hreaches hturn) rfl

/-- A round does not go on for ever. -/
theorem not_endless (h : round.Keeps sinks observations given calls) (run : Nat → Round)
    (hstart : run 0 = round) : ¬∀ time, ∃ more, Turn (run time) more (run (time + 1)) := by
  intro hturns
  have hfalls (time : Nat) : (∃ given calls, (run time).Keeps sinks observations given calls) ∧
      (run time).load + time ≤ round.load := by
    induction time with
    | zero =>
      rw [hstart]
      exact ⟨⟨given, calls, h⟩, Nat.le_refl _⟩
    | succ time ih =>
      obtain ⟨⟨_, _, hkeeps⟩, hle⟩ := ih
      obtain ⟨_, hturn⟩ := hturns time
      obtain ⟨⟨_, hafter⟩, hless⟩ := hkeeps.turn hturn
      exact ⟨⟨_, _, hafter⟩, by omega⟩
  have hle := (hfalls (round.load + 1)).2
  omega

end Keeps

/-! ## In order, and at the end all -/

/-- What holds at every moment: each sink that could be made ready has been handed the first of
    the observations, and was asked the first part of its script; one that broke is left alone
    from then on. -/
structure InOrder (sinks : List Sink) (observations : List Observation)
    (calls : List (Nat × Call)) (round : Round) : Prop where
  sinks : round.fanOut.sinks = sinks.filter Sink.usable
  registered : ∀ call ∈ calls, call.1 < round.fanOut.outlets.length
  handed : ∀ outlet ∈ round.fanOut.outlets,
    outlet.taken.toList ++ outlet.hand.toList ++ outlet.queue <+: observations
  asked : ∀ index (outlet : Outlet), round.fanOut.outlets[index]? = some outlet →
    callsOf index calls <+: outlet.sink.script observations
  broken : ∀ index (outlet : Outlet), round.fanOut.outlets[index]? = some outlet →
    outlet.stage = .broken → outlet.hand = none ∧ outlet.queue = [] ∧
      ∀ more after, round.Reaches more after → callsOf index more = []

/-- What holds at the end: each sink was asked all of its script. A sink that did not break has
    written every observation once, in order, and was closed once behind the last; there is a
    report of each of these, and it counts every observation. -/
structure Complete (sinks : List Sink) (observations : List Observation)
    (calls : List (Nat × Call)) (round : Round) : Prop where
  dispatched : round.fanOut.dispatched = observations.length
  asked : ∀ index (outlet : Outlet), round.fanOut.outlets[index]? = some outlet →
    callsOf index calls = outlet.sink.script observations
  lasting : ∀ index (outlet : Outlet), round.fanOut.outlets[index]? = some outlet →
    outlet.sink.lasts observations.length = true → outlet.taken.toList = observations ∧
      callsOf index calls = observations.map .write ++ [.close]
  reports : round.fanOut.reports =
    ((sinks.filter Sink.usable).filter fun sink => sink.lasts observations.length).map
      fun sink => sink.reportAfter observations.length
  totals : ∀ report ∈ round.fanOut.reports,
    report.written + report.failed = round.fanOut.dispatched

namespace Keeps

/-- Of a sink that has broken nothing more is asked. -/
theorem callsOf_of_broken (h : round.Keeps sinks observations given calls) {index : Nat}
    {outlet : Outlet} (houtlet : round.fanOut.outlets[index]? = some outlet)
    (hended : outlet.stage ≠ .running) (hreaches : round.Reaches more after) :
    callsOf index more = [] := by
  obtain ⟨_, hafter⟩ := h.reaches hreaches
  have hsinks := hafter.sinks.trans h.sinks.symm
  -- the sink is still at its place, and its script was through already
  have hplace : (after.fanOut.sinks)[index]? = some outlet.sink := by
    rw [hsinks]
    unfold FanOut.sinks
    rw [List.getElem?_map, houtlet]
    rfl
  unfold FanOut.sinks at hplace
  rw [List.getElem?_map] at hplace
  obtain ⟨later, hlater, hsink⟩ := Option.map_eq_some_iff.mp hplace
  have hbefore := h.script index outlet houtlet
  have hscript := hafter.script index later hlater
  rw [Outlet.remaining_of_ended hended, List.append_nil] at hbefore
  rw [hsink, ← hbefore, callsOf_append, List.append_assoc] at hscript
  exact (List.append_eq_nil_iff.mp (List.append_right_eq_self.mp hscript)).1

theorem inOrder (h : round.Keeps sinks observations given calls) :
    round.InOrder sinks observations calls := by
  refine ⟨h.sinks, h.registered, fun outlet houtlet => ?_, fun index outlet houtlet => ?_,
    fun index outlet houtlet hbroken => ?_⟩
  · obtain ⟨index, hindex⟩ := List.getElem?_of_mem houtlet
    exact (h.meets.meets index outlet hindex).prefix_handed.trans (h.prefix_due index)
  · exact ⟨_, h.script index outlet houtlet⟩
  · have hended : outlet.stage ≠ .running := by rw [hbroken]; simp
    obtain ⟨hhand, hqueue⟩ := (h.meets.meets index outlet houtlet).empty_of_ended hended
    exact ⟨hhand, hqueue, fun _ _ hreaches => h.callsOf_of_broken houtlet hended hreaches⟩

theorem complete (h : round.Keeps sinks observations given calls)
    (hfinished : round.fanOut.isFinished = true) : round.Complete sinks observations calls := by
  obtain ⟨hclosing, hended⟩ := (FanOut.isFinished_iff _).mp hfinished
  have hgiven : given = observations := by
    have hsplit := h.split
    rwa [h.closing hclosing, List.append_nil] at hsplit
  have hdispatched : round.fanOut.dispatched = observations.length := by
    rw [h.counts.of_none (h.meets.hand_of_closing hclosing), hgiven]
  have hasked : ∀ index (outlet : Outlet), round.fanOut.outlets[index]? = some outlet →
      callsOf index calls = outlet.sink.script observations := fun index outlet houtlet => by
    rw [← h.script index outlet houtlet,
      Outlet.remaining_of_ended (hended outlet (List.mem_of_getElem? houtlet)), List.append_nil]
  have hreports : round.fanOut.reports =
      ((sinks.filter Sink.usable).filter fun sink => sink.lasts observations.length).map
        fun sink => sink.reportAfter observations.length := by
    rw [h.meets.reports hfinished, h.sinks, hgiven]
  refine ⟨hdispatched, hasked, fun index outlet houtlet hlasts => ⟨?_, ?_⟩, hreports,
    fun report hreport => ?_⟩
  · have hmem := List.mem_of_getElem? houtlet
    rw [← hgiven] at hlasts ⊢
    obtain ⟨hstage, htaken⟩ := (h.meets.of_closing hclosing outlet hmem).of_ended
      (hended outlet hmem)
    exact htaken (hstage ▸ hlasts)
  · rw [hasked index outlet houtlet, script_of_lasts hlasts]
  · rw [hreports] at hreport
    obtain ⟨sink, hsink, rfl⟩ := List.mem_map.mp hreport
    rw [hdispatched]
    exact written_add_failed (List.mem_filter.mp hsink).2

end Keeps

/-- Observations are handed out to sinks, some of which cannot be made ready, and some of which
    break. In whatever order the hand-out and the sinks take their turns, each sink gets the
    observations in order; somebody can take a turn until all have ended, which comes sooner or
    later; and then each sink was asked for what its script says. -/
theorem handed_out_once {capacity : Nat} (hcapacity : 0 < capacity) (sinks : List Sink)
    (observations : List Observation) :
    (∀ calls round, (ofSinks capacity sinks observations).Reaches calls round →
      round.InOrder sinks observations calls ∧
        (round.fanOut.isFinished = true ∨ ∃ more after, Turn round more after)) ∧
    (∀ run : Nat → Round, run 0 = ofSinks capacity sinks observations →
      ¬∀ time, ∃ more, Turn (run time) more (run (time + 1))) ∧
    ∀ calls round, (ofSinks capacity sinks observations).Reaches calls round →
      round.fanOut.isFinished = true → round.Complete sinks observations calls := by
  have hstart := keeps_ofSinks hcapacity sinks observations
  refine ⟨fun calls round hreaches => ?_, fun run hrun => hstart.not_endless run hrun,
    fun calls round hreaches hfinished => ?_⟩
  · obtain ⟨_, hkeeps⟩ := hstart.reaches hreaches
    refine ⟨hkeeps.inOrder, ?_⟩
    by_cases hfinished : round.fanOut.isFinished = true
    · exact .inl hfinished
    · exact .inr (hkeeps.exists_turn hfinished)
  · obtain ⟨_, hkeeps⟩ := hstart.reaches hreaches
    exact hkeeps.complete hfinished

end Round

/-! ### One sink that fails, one that cannot be made ready, and one that breaks -/

namespace Trio

open Round

/-- A sink whose first write fails, one that cannot be made ready, and one that the second
    write breaks. -/
def sinks : List Sink :=
  [⟨"steady", true, fun n => if n = 0 then .failed else .written⟩,
    ⟨"absent", false, fun _ => .written⟩,
    ⟨"fragile", true, fun n => if n = 1 then .broken else .written⟩]

/-- Three observations of different lengths. -/
def observations : List Observation :=
  [{ (default : Observation) with length := 1 }, { (default : Observation) with length := 2 },
    { (default : Observation) with length := 3 }]

/-- With queues of one place the sink that does not break is asked for three writes and to
    close, the one that breaks for two writes, and only the first has a report. -/
theorem handed_out_once_trio : 0 < 1 ∧ ∃ calls round,
    (ofSinks 1 sinks observations).Reaches calls round ∧ round.fanOut.isFinished = true ∧
      callsOf 0 calls = observations.map .write ++ [.close] ∧
      callsOf 1 calls = (observations.take 2).map .write ∧
      round.fanOut.reports = [⟨"steady", 2, 1⟩] := by
  obtain ⟨hreached, _, hcomplete⟩ := handed_out_once (Nat.one_pos) sinks observations
  obtain ⟨calls, round, hreaches, hfinished⟩ :=
    (keeps_ofSinks Nat.one_pos sinks observations).exists_finished .refl
  have hsinks := (hreached calls round hreaches).1.sinks
  have hplace (index : Nat) (sink : Sink) (hsink : (sinks.filter Sink.usable)[index]? = some sink) :
      callsOf index calls = sink.script observations := by
    rw [← hsinks] at hsink
    unfold FanOut.sinks at hsink
    rw [List.getElem?_map] at hsink
    obtain ⟨outlet, houtlet, rfl⟩ := Option.map_eq_some_iff.mp hsink
    exact (hcomplete calls round hreaches hfinished).asked index outlet houtlet
  refine ⟨Nat.one_pos, calls, round, hreaches, hfinished, ?_, ?_, ?_⟩
  · exact hplace 0 _ rfl
  · exact hplace 1 _ rfl
  · exact (hcomplete calls round hreaches hfinished).reports

end Trio

end PassiveDns.Sink
