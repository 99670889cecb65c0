/-
  PassiveDns.Sink.Device

  Devices to which octets are appended, and a buffer in front of one: octets are
  collected until the next piece does not fit any more.
-/
import PassiveDns.FileFault
import PassiveDns.Octets

namespace PassiveDns.Sink

/-- Where octets end up: in a file, which may not exist yet, nowhere, on a
    device without space, or at a place that cannot be opened. -/
inductive Device where
  | file (contents : Option (Array UInt8))
  | discarding
  | full
  | unreachable (fault : FileFault)
deriving Repr, DecidableEq, Inhabited

namespace Device

/-- A file with these contents, or one that does not exist. -/
def ofContents (contents : Option Octets) : Device := file (contents.map List.toArray)

/-- Opens a device for appending. A file that does not exist is created. -/
def opened : Device → Except FileFault Device
  | file contents => .ok (file (some (contents.getD #[])))
  | unreachable fault => .error fault
  | device => .ok device

/-- Appends octets. -/
def append (device : Device) (octets : Array UInt8) : Except FileFault Device :=
  match device with
  | file none => .ok (file (some octets))
  | file (some contents) => .ok (file (some (contents ++ octets)))
  | discarding => .ok discarding
  | full => if octets.isEmpty then .ok full else .error .noSpace
  | unreachable fault => .error fault

/-- What is in a file, if the device is one that exists. -/
def contents? : Device → Option Octets
  | file contents => contents.map Array.toList
  | _ => none

@[simp] theorem contents?_ofContents (contents : Option Octets) :
    (ofContents contents).contents? = contents := by
  cases contents <;> simp [ofContents, contents?]

end Device

/-- A device and the octets collected for it. -/
structure Buffered where
  device : Device
  pending : Array UInt8
deriving Repr, DecidableEq, Inhabited

namespace Buffered

/-- How many octets are collected at most. -/
def capacity : Nat := 8192

/-- Hands the collected octets to the device. They stay collected if it does not
    take them. -/
def flush (buffer : Buffered) : Except FileFault Unit × Buffered :=
  match buffer.device.append buffer.pending with
  | .ok device => (.ok (), ⟨device, #[]⟩)
  | .error fault => (.error fault, buffer)

/-- Adds a piece that fits, or passes on one that is too large to be collected. -/
def add (buffer : Buffered) (piece : Octets) : Except FileFault Unit × Buffered :=
  if piece.length < capacity then (.ok (), { buffer with pending := buffer.pending ++ piece })
  else
    match buffer.device.append piece.toArray with
    | .ok device => (.ok (), { buffer with device })
    | .error fault => (.error fault, buffer)

/-- Takes a piece, after a flush if it does not fit any more. -/
def put (buffer : Buffered) (piece : Octets) : Except FileFault Unit × Buffered :=
  if buffer.pending.size + piece.length ≤ capacity then buffer.add piece
  else
    match buffer.flush with
    | (.ok (), flushed) => flushed.add piece
    | (.error fault, stuck) => (.error fault, stuck)

/-- Takes pieces up to the first that is not taken. -/
def putAll (buffer : Buffered) : List Octets → Except FileFault Unit × Buffered
  | [] => (.ok (), buffer)
  | piece :: rest =>
    match buffer.put piece with
    | (.ok (), after) => after.putAll rest
    | (.error fault, stuck) => (.error fault, stuck)

end Buffered

end PassiveDns.Sink
