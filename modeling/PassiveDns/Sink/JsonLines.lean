/-
  PassiveDns.Sink.JsonLines

  Observations as lines: the compact document of each, and a line end. Lines are
  appended to a file or to standard output.
-/
import PassiveDns.Observation
import PassiveDns.Sink.Device
import PassiveDns.Text.Utf8

namespace PassiveDns

/-- The line end. -/
def Sink.lineEnd : Octets := [10]

/-- The line of an observation in the pieces in which it is put out. -/
def Observation.linePieces (observation : Observation) : List Octets :=
  observation.toJson.pieces.map Text.Utf8.encode

/-- The line of an observation. -/
def Observation.line (observation : Observation) : Octets :=
  Text.Utf8.encode observation.toJson.compact ++ Sink.lineEnd

namespace Sink

/-- Where lines go. -/
inductive Target where
  | standardOutput
  | file (path : String)
deriving Repr, DecidableEq, Inhabited

/-- The name of a sink with this target. -/
def Target.name : Target → String
  | standardOutput => "stdout"
  | file path => "file:" ++ path

/-- Why a sink does not do what it is asked to. -/
inductive Error where
  | device (fault : FileFault)
  | document (fault : FileFault)
  | cannotOpen (path : String) (fault : FileFault)
  | notInitialized
deriving Repr, DecidableEq, Inhabited

/-- What is reported for each cause. -/
def Error.message : Error → String
  | device fault => "sink I/O error: " ++ fault.message
  | document fault => "failed to serialize result: " ++ fault.message
  | cannotOpen path fault =>
    "sink is unusable: cannot open " ++ path ++ ": " ++ fault.message
  | notInitialized => "sink is unusable: not initialized"

/-- A sink for lines. While it is open it has octets pending, maybe none. -/
structure JsonLines where
  target : Target
  device : Device
  pending : Option (Array UInt8)
deriving Repr, DecidableEq, Inhabited

namespace JsonLines

/-- A sink that is not open. -/
def ofTarget (target : Target) (device : Device) : JsonLines := ⟨target, device, none⟩

/-- The path that is opened, for reports. -/
def path (sink : JsonLines) : String :=
  match sink.target with
  | .standardOutput => ""
  | .file path => path

/-- Lets go of what is pending: the device takes it or it is lost. -/
def release (sink : JsonLines) : JsonLines :=
  match sink.pending with
  | none => sink
  | some pending =>
    { sink with device := (Buffered.flush ⟨sink.device, pending⟩).2.device, pending := none }

/-- Opens the sink. One that is open already is opened anew. -/
def start (sink : JsonLines) : Except Error Unit × JsonLines :=
  match sink.device.opened with
  | .error fault => (.error (.cannotOpen sink.path fault), sink)
  | .ok device => (.ok (), { ({ sink with device }).release with pending := some #[] })

/-- Writes an observation. -/
def write (sink : JsonLines) (observation : Observation) : Except Error Unit × JsonLines :=
  match sink.pending with
  | none => (.error .notInitialized, sink)
  | some pending =>
    let keep (buffer : Buffered) : JsonLines :=
      { sink with device := buffer.device, pending := some buffer.pending }
    match Buffered.putAll ⟨sink.device, pending⟩ observation.linePieces with
    | (.error fault, buffer) => (.error (.document fault), keep buffer)
    | (.ok (), buffer) =>
      match buffer.put lineEnd with
      | (.error fault, buffer) => (.error (.device fault), keep buffer)
      | (.ok (), buffer) => (.ok (), keep buffer)

/-- Closes the sink, even if what is pending cannot be written. -/
def close (sink : JsonLines) : Except Error Unit × JsonLines :=
  match sink.pending with
  | none => (.ok (), sink)
  | some pending =>
    match (Buffered.flush ⟨sink.device, pending⟩).1 with
    | .ok () => (.ok (), sink.release)
    | .error fault => (.error (.device fault), sink.release)

end JsonLines

end Sink

end PassiveDns
