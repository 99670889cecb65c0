/-
  PassiveDns.Sink.FanOut

  Handing every observation to every sink. Each sink has a bounded queue of its
  own and takes from it at its own pace; the hand-out goes through the sinks in
  the order in which they were registered and waits where a queue is full. A sink
  that breaks is left out from then on.
-/
import PassiveDns.Metrics
import PassiveDns.Observation

namespace PassiveDns

namespace Sink

/-- What becomes of an observation that a sink is asked to write. -/
inductive Reply where
  | written
  | failed
  | broken
deriving Repr, DecidableEq, Inhabited

end Sink

/-- A consumer of observations: whether it can be made ready, and what becomes
    of each of its writes, counted from zero. -/
structure Sink where
  name : String
  usable : Bool
  reply : Nat → Sink.Reply
deriving Inhabited

namespace Sink

/-! ## One sink with its queue -/

/-- What a sink still does. -/
inductive Stage where
  | running
  | closed
  | broken
deriving Repr, DecidableEq, Inhabited

/-- A registered sink: what waits for it, what it is about to write, and all
    that it was asked to write. `live` says whether it is still handed
    observations, and `blocked` that its writes do not return for now. -/
structure Outlet where
  sink : Sink
  queue : List Observation
  hand : Option Observation
  taken : Array Observation
  stage : Stage
  live : Bool
  blocked : Bool
deriving Inhabited

namespace Outlet

/-- A sink that was just made ready. -/
def ofSink (sink : Sink) (blocked : Bool) : Outlet :=
  ⟨sink, [], none, #[], .running, true, blocked⟩

/-- Whether a hand-out need not wait for this sink. -/
def hasRoom (capacity : Nat) (outlet : Outlet) : Bool :=
  !outlet.live || outlet.stage ≠ .running || outlet.queue.length < capacity

/-- Hands over an observation. A sink that takes none any more is found out by
    this. -/
def offer (observation : Observation) (outlet : Outlet) : Outlet :=
  if !outlet.live then outlet
  else if outlet.stage ≠ .running then { outlet with live := false }
  else { outlet with queue := outlet.queue ++ [observation] }

/-- Ends the write of the observation in hand. -/
def write (outlet : Outlet) (observation : Observation) : List (Series × Nat) × Outlet :=
  let name := outlet.sink.name
  let after := { outlet with hand := none, taken := outlet.taken.push observation }
  match outlet.sink.reply outlet.taken.size with
  | .written => ([(.sinkResults name true, 1)], after)
  | .failed => ([(.sinkResults name false, 1)], after)
  | .broken => ([], { outlet with hand := none, queue := [], stage := .broken })

/-- What the sink does next, if it can do anything: it writes what it has in
    hand, or takes the next observation, or closes once none can come. -/
def step? (closing : Bool) (outlet : Outlet) : Option (List (Series × Nat) × Outlet) :=
  if outlet.stage ≠ .running then none
  else
    match outlet.hand, outlet.queue with
    | some observation, _ => if outlet.blocked then none else some (outlet.write observation)
    | none, observation :: rest =>
      some ([], { outlet with hand := some observation, queue := rest })
    | none, [] => if closing then some ([], { outlet with stage := .closed }) else none

/-- The observations whose write had a certain outcome. -/
def withReply (outlet : Outlet) (reply : Reply) : List Observation :=
  (outlet.taken.toList.zipIdx.filter fun entry => outlet.sink.reply entry.2 = reply).map Prod.fst

/-- The observations that were written. -/
def written (outlet : Outlet) : List Observation := outlet.withReply .written

/-- The observations that could not be written. -/
def failed (outlet : Outlet) : List Observation := outlet.withReply .failed

end Outlet

/-- What one sink did. -/
structure Report where
  name : String
  written : Nat
  failed : Nat
deriving Repr, DecidableEq, Inhabited

/-! ## All sinks -/

/-- The registered sinks, and the observation that is being handed out together
    with the number of sinks that were gone through for it. -/
structure FanOut where
  capacity : Nat
  outlets : List Outlet
  hand : Option (Observation × Nat)
  dispatched : Nat
  closing : Bool
deriving Inhabited

namespace FanOut

/-- No sinks. -/
def empty (capacity : Nat) : FanOut := ⟨capacity, [], none, 0, false⟩

/-- Adds a sink if it can be made ready; one that cannot is left out for good. -/
def register (fanOut : FanOut) (sink : Sink) (blocked : Bool) : Bool × FanOut :=
  if sink.usable then
    (true, { fanOut with outlets := fanOut.outlets ++ [.ofSink sink blocked] })
  else (false, fanOut)

/-- The sinks that are handed observations. -/
def live (fanOut : FanOut) : List Outlet := fanOut.outlets.filter Outlet.live

/-- Hands an observation to every live sink at once. -/
def deliver (fanOut : FanOut) (observation : Observation) : FanOut :=
  { fanOut with outlets := fanOut.outlets.map (Outlet.offer observation) }

/-- Begins to hand out an observation. -/
def take (fanOut : FanOut) (observation : Observation) : FanOut :=
  { fanOut with hand := some (observation, 0) }

/-- The next step of the hand-out, if it need not wait: one more sink is served,
    or all were and the observation is counted. -/
def handOut? (fanOut : FanOut) : Option (List (Series × Nat) × FanOut) :=
  match fanOut.hand with
  | none => none
  | some (observation, served) =>
    match fanOut.outlets[served]? with
    | none =>
      some ([(.results, 1)],
        { fanOut with hand := none, dispatched := fanOut.dispatched + 1 })
    | some outlet =>
      if outlet.hasRoom fanOut.capacity then
        some ([], { fanOut with
          outlets := fanOut.outlets.set served (outlet.offer observation)
          hand := some (observation, served + 1) })
      else none

/-- What a sink does next, if it can do anything. -/
def write? (fanOut : FanOut) (index : Nat) : Option (List (Series × Nat) × FanOut) :=
  match fanOut.outlets[index]? with
  | none => none
  | some outlet =>
    (outlet.step? fanOut.closing).map fun (tally, after) =>
      (tally, { fanOut with outlets := fanOut.outlets.set index after })

/-- Nothing more is handed out. -/
def close (fanOut : FanOut) : FanOut := { fanOut with closing := true }

/-- Gives up what is being handed out, and hands out nothing more. -/
def abandon (fanOut : FanOut) : FanOut := { fanOut with hand := none, closing := true }

/-- Lets the writes of all sinks return. -/
def unblock (fanOut : FanOut) : FanOut :=
  { fanOut with outlets := fanOut.outlets.map fun outlet => { outlet with blocked := false } }

/-- Whether all sinks have ended. -/
def isFinished (fanOut : FanOut) : Bool :=
  fanOut.closing && fanOut.outlets.all fun outlet => outlet.stage ≠ .running

/-- What the sinks did that did not break. -/
def reports (fanOut : FanOut) : List Report :=
  (fanOut.outlets.filter fun outlet => outlet.stage ≠ .broken).map fun outlet =>
    ⟨outlet.sink.name, outlet.written.length, outlet.failed.length⟩

/-! ## Running until nothing is left to do -/

/-- The first step that can be made: sinks come before the hand-out. -/
def step? (fanOut : FanOut) : Option (List (Series × Nat) × FanOut) :=
  ((List.range fanOut.outlets.length).findSome? fanOut.write?).or fanOut.handOut?

/-- No more steps than these can be made: for each sink two for every observation
    that waits for it, and a few to begin and to end. -/
def effort (fanOut : FanOut) : Nat :=
  fanOut.outlets.foldr (fun outlet sum => 2 * outlet.queue.length + 8 + sum) 2

/-- Makes at most `steps` steps. -/
def settleWithin (fanOut : FanOut) (metrics : Metrics) : Nat → Metrics × FanOut
  | 0 => (metrics, fanOut)
  | steps + 1 =>
    match fanOut.step? with
    | none => (metrics, fanOut)
    | some (tally, after) => after.settleWithin (metrics.addAll tally) steps

/-- Makes steps as long as there are any. -/
def settle (fanOut : FanOut) (metrics : Metrics) : Metrics × FanOut :=
  fanOut.settleWithin metrics fanOut.effort

end FanOut

end Sink

end PassiveDns
