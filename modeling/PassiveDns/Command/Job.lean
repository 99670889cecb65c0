/-
  PassiveDns.Command.Job

  One run over a capture file: what it needs before it can start, and what it
  writes. Settings come first and the capture second, and the place where lines
  go is opened last, so that nothing is created for a run that cannot start. A
  place that cannot be opened does not keep the run from going on.
-/
import PassiveDns.Capture.File
import PassiveDns.Command.Request
import PassiveDns.Pipeline.Run
import PassiveDns.Sink.JsonLines

namespace PassiveDns.Command

open PassiveDns.Sink (FanOut JsonLines)

/-- Why a run fails. -/
inductive Failure where
  | settings (error : Config.Error)
  | source (error : Capture.Error)
deriving Repr, DecidableEq, Inhabited

/-- What is reported for each cause. -/
def Failure.message : Failure → String
  | settings error => error.message
  | source error => error.message

/-- A run that can start. -/
structure Job where
  settings : Settings
  capture : Capture.File
deriving Repr, DecidableEq, Inhabited

namespace Job

/-- The settings of a run: those of a file if one was chosen, and the choices in
    their place. The file has to meet the conditions by itself. -/
def settingsOf (choices : Choices) (configuration : Option Octets) :
    Except Config.Error Settings := do
  let ofFile ← match choices.configuration with
    | some _ => Settings.ofFile configuration
    | none => pure {}
  let settings := choices.override ofFile
  settings.validate
  pure settings

/-- Makes a run ready, given the contents of the files that it reads. -/
def prepare (choices : Choices) (configuration capture : Option Octets) : Except Failure Job := do
  let settings ← (settingsOf choices configuration).mapError .settings
  let capture ← (Capture.File.ofContents capture).mapError .source
  pure ⟨settings, capture⟩

/-- The run over all frames of the capture, with one sink. A fault of the capture
    takes effect behind the frames in front of it. Time passes by itself here, so
    that even no time to finish lasts until the clock goes on. -/
def runWith (job : Job) (clock : Timestamp) (sink : Sink) : Pipeline.Run :=
  let (frames, fault) := job.capture.frames
  let sinks := ((FanOut.empty job.settings.sinkQueue).register sink false).2
  let settings :=
    { job.settings with drainTimeoutSecs := max 1 job.settings.drainTimeoutSecs }
  let plan : Pipeline.Plan := ⟨settings, job.capture.link, 0, clock⟩
  let sourceEnd := match fault with
    | some error => .failed error
    | none => .exhausted
  (((Pipeline.Run.start plan sinks).feed (frames.map fun frame => ⟨frame, 0⟩)).endSource
    sourceEnd).await

/-- The observations that the sinks of a run wrote, sink by sink. -/
def written (run : Pipeline.Run) : List Observation :=
  run.network.fanOut.outlets.flatMap Sink.Outlet.written

/-- Runs, and writes every observation as a line. A line that cannot be written
    is left out. -/
def run (job : Job) (clock : Timestamp) (lines : JsonLines) :
    Option Pipeline.Outcome × JsonLines :=
  let (started, opened) := lines.start
  let usable := match started with
    | .ok () => true
    | .error _ => false
  let ended := job.runWith clock ⟨lines.target.name, usable, fun _ => .written⟩
  let filled := (written ended).foldl (fun lines observation => (lines.write observation).2) opened
  (ended.outcome?, filled.close.2)

end Job

end PassiveDns.Command
