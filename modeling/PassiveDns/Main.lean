/-
  PassiveDns.Main

  The program: the actions of the system that a command line needs.
-/
import PassiveDns.Command.Execute
import Std.Time.DateTime.Timestamp

namespace PassiveDns.Command.Host

/-- The contents of a file, if it can be read. -/
def contents (path : String) : IO (Option Octets) := do
  try
    return some (← IO.FS.readBinFile path).toList
  catch _ => return none

/-- Begins to append to a target: a file is created if it does not exist. -/
def device : Sink.Target → IO Sink.Device
  | .standardOutput => return .file none
  | .file path => do
    try
      let _ ← IO.FS.Handle.mk path .append
      return .file none
    catch error => return .unreachable (.other (toString error))

/-- Appends octets to a target. What it does not take is lost. -/
def append (target : Sink.Target) (octets : Octets) : IO Unit := do
  try
    let bytes := ByteArray.mk octets.toArray
    match target with
    | .standardOutput =>
      let output ← IO.getStdout
      output.write bytes
      output.flush
    | .file path => (← IO.FS.Handle.mk path .append).write bytes
  catch _ => return ()

/-- The environment variables that options look at. -/
def environment : IO (List (String × String)) := do
  (Key.all.filterMap Key.environmentName?).filterMapM fun name => do
    return (← IO.getEnv name).map fun value => (name, value)

/-- The time of the system's clock. -/
def clock : IO Timestamp := do
  let now ← Std.Time.Timestamp.now
  return ⟨now.val.second.val, now.val.nano.val.toNat⟩

/-- The system as the surroundings of a command. -/
def surroundings : IO (Surroundings IO) := do
  let set ← environment
  return {
    lookUp := fun name => (set.find? fun entry => entry.1 = name).map Prod.snd
    contents
    device
    clock
    append
    complain := fun message => IO.eprintln message }

end PassiveDns.Command.Host

/-- Executes the command line that the program was started with. -/
def main (arguments : List String) : IO UInt32 := do
  let world ← PassiveDns.Command.Host.surroundings
  return UInt32.ofNat (← PassiveDns.Command.execute world arguments).code
