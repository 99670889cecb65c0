/-
  PassiveDns.Pipeline.Run

  A run from its start to its report. It reads until the source ends or a
  shutdown is asked for, and then waits until everything under way is finished.
  Both waits are bounded: once a shutdown is asked for, the reader has one drain
  timeout to stop, and after it stopped all others have one to finish. What has
  not finished by then is abandoned, before anything else that is due by then.
-/
import PassiveDns.Pipeline.Network
import PassiveDns.Shutdown

namespace PassiveDns.Pipeline

/-- What happened in a run. -/
structure Report where
  read : Nat
  accepted : Nat
  skipped : Nat
  duplicates : Nat
  received : Nat
  dropped : Nat
  dispatched : Nat
  sinks : List Sink.Report
  drained : Bool
deriving Repr, DecidableEq, Inhabited

/-- What a run ends with: a report, or how the source failed. -/
abbrev Outcome := Except Capture.Error Report

/-- What a run waits for, and until when: for the reader to stop, for all others
    to finish, or for nothing any more. -/
inductive Stage where
  | reading (deadline : Option Instant)
  | draining (deadline : Instant)
  | over (outcome : Outcome)
deriving Inhabited

/-- A run. -/
structure Run where
  network : Network
  shutdown : Shutdown
  stage : Stage
deriving Inhabited

namespace Run

/-- The report of a reader that stopped. -/
def reportOf (network : Network) (drained : Bool) : Report where
  read := network.reader.read
  accepted := network.reader.accepted
  skipped := network.reader.skipped
  duplicates := network.reader.duplicates
  received := network.reader.read
  dropped := network.plan.dropped
  dispatched := if drained then network.fanOut.dispatched else 0
  sinks := if drained then network.fanOut.reports else []
  drained

/-- The report if the reader did not stop. -/
def nothingReported : Report := ⟨0, 0, 0, 0, 0, 0, 0, [], false⟩

/-- What a run ends with whose reader stopped. A failure of the source goes
    before any report. -/
def outcomeOf (network : Network) (drained : Bool) : Outcome :=
  match network.reader.failure with
  | some error => .error error
  | none => .ok (reportOf network drained)

/-! ## Going on -/

/-- From the stop of the reader on, the others have their time to finish. -/
def afterReader (run : Run) : Run :=
  match run.stage with
  | .reading _ =>
    if run.network.reader.isFinished then
      { run with stage := .draining (run.network.now + run.network.plan.drainTimeout) }
    else run
  | _ => run

/-- Once all have finished the run is over. -/
def afterAll (run : Run) : Run :=
  match run.stage with
  | .draining _ =>
    if run.network.isFinished then
      { run with stage := .over (outcomeOf run.network true) }
    else run
  | _ => run

/-- The point in time up to which the run waits. -/
def deadline? (run : Run) : Option Instant :=
  match run.stage with
  | .reading deadline => deadline
  | .draining deadline => some deadline
  | .over _ => none

/-- Ends the run unfinished. -/
def giveUp (run : Run) : Run :=
  let outcome := match run.stage with
    | .reading _ => .ok nothingReported
    | .draining _ => outcomeOf run.network false
    | .over outcome => outcome
  { run with network := run.network.abandon, stage := .over outcome }

/-- Ends the run unfinished if it has waited long enough. -/
def expire (run : Run) : Run :=
  if run.deadline?.any fun deadline => deadline ≤ run.network.now then run.giveUp else run

/-- Lets everything happen that can happen now. If there is no time at all to
    finish, nothing happens behind the end of the reader. -/
def settle (run : Run) : Run :=
  let read := ({ run with network := run.network.settleReader }).afterReader.expire
  ({ read with network := read.network.settle }).afterAll

/-! ## From outside -/

/-- A run at its start. -/
def start (plan : Plan) (sinks : Sink.FanOut) : Run :=
  settle {
    network := .ofPlan plan sinks 0
    shutdown := .ofTimeout plan.drainTimeout
    stage := .reading none }

/-- The source has further packets. -/
def feed (run : Run) (arrivals : List Arrival) : Run :=
  settle { run with network := run.network.feed arrivals }

/-- The source ends. -/
def endSource (run : Run) (sourceEnd : SourceEnd) : Run :=
  settle { run with network := run.network.endSource sourceEnd }

/-- Asks for a shutdown. The reader does not react to it yet, but its time to stop
    begins, and may be over at once. -/
def trigger (run : Run) : Except Shutdown.Error Unit × Run :=
  let (result, shutdown) := run.shutdown.trigger
  match result, run.stage with
  | .error cause, _ => (.error cause, run)
  | .ok (), .reading _ =>
    let deadline := run.network.now + run.network.plan.drainTimeout
    (.ok (), ({ run with
      shutdown
      network := { run.network with stopping := true }
      stage := .reading (some deadline) }).expire)
  | .ok (), _ => (.ok (), { run with shutdown, network := { run.network with stopping := true } })

/-- The writes of all sinks return again. -/
def unblock (run : Run) : Run :=
  settle { run with network := { run.network with fanOut := run.network.fanOut.unblock } }

/-- The next point in time at which some station looks for idle state. -/
def nextTick? (network : Network) : Option Instant :=
  ((network.stations.filter fun station =>
    station.role.ticks && station.phase = .working).map Station.nextTick).min?

/-- The clock moves on. If the run has waited long enough by then it ends, else
    every station looks for idle state for which it is time. -/
def advance (run : Run) (duration : Nat) : Run :=
  let moved :=
    ({ run with network := { run.network with now := run.network.now + duration } }).expire
  settle { moved with network := moved.network.tickAll }

/-- Moves the clock to whatever is due next, at most so many times, until the run
    is over. -/
def awaitWithin (run : Run) : Nat → Run
  | 0 => run
  | jumps + 1 =>
    match run.deadline? with
    | none => run
    | some deadline =>
      let now := run.network.now
      let next := match nextTick? run.network with
        | some tick => if now < tick then min tick deadline else deadline
        | none => deadline
      (run.advance (next - now)).awaitWithin jumps

/-- Ends the source and waits for the run to be over. The clock moves on by itself
    while nothing else happens; there are at most two drain timeouts to wait for. -/
def await (run : Run) : Run :=
  (run.endSource .exhausted).awaitWithin (2 * run.network.plan.drainTimeout + 4)

/-- What the run ended with, once it is over. -/
def outcome? (run : Run) : Option Outcome :=
  match run.stage with
  | .over outcome => some outcome
  | _ => none

end Run

end PassiveDns.Pipeline
