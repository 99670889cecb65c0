/-
  PassiveDns.Command.Execute

  The program as a whole: from arguments to the status with which it ends. What it
  needs from outside is a record of actions in any monad.
-/
import PassiveDns.Command.Job

namespace PassiveDns.Command

/-- The name and the version of the program. -/
def versionLine : String := "dnsscope 0.0.1\n"

/-- The usage text. -/
def usageText : String :=
  "Usage: dnsscope --pcap <value> [options]\n\nOptions:\n" ++
    String.join (Key.all.map fun key => key.usageLine ++ "\n")

/-- How the program ends. -/
inductive Status where
  | finished
  | failed
  | unfinished
  | misused
deriving Repr, DecidableEq, Inhabited

/-- The number with which the program ends. -/
def Status.code : Status → Nat
  | finished => 0
  | failed => 1
  | unfinished | misused => 2

/-- The status of a run. -/
def Status.ofOutcome : Option Pipeline.Outcome → Status
  | some (.error _) => failed
  | some (.ok report) => if report.drained then finished else unfinished
  | none => unfinished

/-- What the program needs from outside: environment variables, the contents of
    files, a device to begin to append to, the time, a way to append what a run
    wrote, and a place for complaints. -/
structure Surroundings (m : Type → Type) where
  lookUp : String → Option String
  contents : String → m (Option Octets)
  device : Sink.Target → m Sink.Device
  clock : m Timestamp
  append : Sink.Target → Octets → m Unit
  complain : String → m Unit

/-- Executes a command line. -/
def execute {m : Type → Type} [Monad m] (world : Surroundings m) (arguments : List String) :
    m Status := do
  match Request.parse world.lookUp arguments with
  | .error error =>
    world.complain error.message
    pure .misused
  | .ok .help =>
    world.append .standardOutput (Text.Utf8.encode usageText.toList)
    pure .finished
  | .ok .version =>
    world.append .standardOutput (Text.Utf8.encode versionLine.toList)
    pure .finished
  | .ok (.run path choices) =>
    let configuration ← match choices.configuration with
      | some path => world.contents path
      | none => pure none
    match Job.prepare choices configuration (← world.contents path) with
    | .error failure =>
      world.complain failure.message
      pure .failed
    | .ok job =>
      let target : Sink.Target := match choices.output with
        | some path => .file path
        | none => .standardOutput
      let (outcome, lines) :=
        job.run (← world.clock) (.ofTarget target (← world.device target))
      if let some octets := lines.device.contents? then world.append target octets
      if let some (.error error) := outcome then world.complain error.message
      pure (.ofOutcome outcome)

end PassiveDns.Command
